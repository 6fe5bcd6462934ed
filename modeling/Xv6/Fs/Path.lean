import Mathlib.Data.List.Forall2

/-!
# Path names (fs.c: skipelem, namex)

`namex` walks a path by calling `skipelem` until it returns `0`: each call skips the
slashes before an element, copies the element into `name` (its first `DIRSIZ` bytes, with
a NUL after it when it is shorter) and returns the path after the element and the slashes
that follow it.

A path is the bytes from the pointer on, the terminating NUL and whatever follows it in
memory included: `*path` is the head of the list.  What the walk is for is `components`,
the pieces of the path between slashes with the empty ones left out; `NameHolds` says what
`name` must hold for a component.

* `skipelem_element`: one call on a path that still has an element;
* `skipelems_components`: the walk from any NUL-terminated path ends, and its calls yield
  the path's components in order, each held by `name`, each followed by a rest with no
  leading slash.
-/

namespace Xv6

/-- `DIRSIZ` (fs.h): the bytes of a name in a directory entry. -/
def DIRSIZ : ℕ := 14

/-! ## The code -/

/-- `while(*path == '/') path++;` -/
def skipSlashes : List Char → List Char
  | '/' :: p => skipSlashes p
  | p => p

/-- `while(*path != '/' && *path != 0) path++;` from the element's start: the element,
which has `path - s` bytes, and the path from where the loop stopped. -/
def scanElem : List Char → List Char × List Char
  | [] => ([], [])
  | c :: p =>
    if c = '/' ∨ c = '\x00' then ([], c :: p)
    else ((scanElem p).1.cons c, (scanElem p).2)

/-- `memmove(name, s, n)` for `n <= DIRSIZ`: the first `n` bytes of `name` from `s`. -/
def copyName (name : Fin DIRSIZ → Char) (s : List Char) (n : ℕ) : Fin DIRSIZ → Char :=
  fun i => if i.val < n then s.getD i '\x00' else name i

/-- `skipelem(path, name)`: `none` for the `return 0` when no element is left, else the
path it returns and `name` as it leaves it. -/
def skipelem (path : List Char) (name : Fin DIRSIZ → Char) :
    Option (List Char × (Fin DIRSIZ → Char)) :=
  let path := skipSlashes path
  if path.headD '\x00' = '\x00' then none
  else
    let s := path
    let len := (scanElem path).1.length
    let name :=
      if h : DIRSIZ ≤ len then copyName name s DIRSIZ
      else Function.update (copyName name s len) ⟨len, Nat.lt_of_not_le h⟩ '\x00'
    some (skipSlashes (scanElem path).2, name)

/-- The calls of `while((path = skipelem(path, name)) != 0)` in `namex`, with at most
`fuel` of them: the path each call returns and `name` after it, or `none` if the fuel runs
out first. -/
def skipelems : ℕ → List Char → (Fin DIRSIZ → Char) →
    Option (List (List Char × (Fin DIRSIZ → Char)))
  | 0, _, _ => none
  | fuel + 1, path, name =>
    match skipelem path name with
    | none => some []
    | some (rest, name') => (skipelems fuel rest name').map ((rest, name') :: ·)

/-! ## What the walk is for -/

/-- The components of a path: the pieces between slashes, the empty ones left out. -/
def components (s : List Char) : List (List Char) :=
  (s.splitOn '/').filter fun c => !c.isEmpty

/-- `name` holds the component `c`: the bytes of `c` up to `DIRSIZ`, and a NUL after `c`
when it is shorter than `DIRSIZ`. -/
structure NameHolds (name : Fin DIRSIZ → Char) (c : List Char) : Prop where
  bytes : ∀ i : Fin DIRSIZ, i.val < c.length → name i = c.getD i '\x00'
  nul : ∀ i : Fin DIRSIZ, i.val = c.length → name i = '\x00'

@[simp] lemma components_nil : components [] = [] := rfl

/-- A slash before a piece starts no component. -/
lemma components_append_slash (x y : List Char) :
    components (x ++ '/' :: y) = components x ++ components y := by
  unfold components
  simp only [List.splitOn]
  rw [List.splitOnP_append_cons x y (by simp), List.filter_append]

@[simp] lemma components_slash (y : List Char) : components ('/' :: y) = components y := by
  simpa using components_append_slash [] y

/-- A piece with no slash is one component. -/
lemma components_of_not_mem {e : List Char} (he : e ≠ []) (h : '/' ∉ e) : components e = [e] := by
  unfold components
  rw [List.splitOn, List.splitOnP_eq_singleton fun c hc => by
    rw [beq_eq_false_iff_ne]
    rintro rfl
    exact h hc]
  simp [he]

/-! ## One call -/

@[simp] lemma skipSlashes_slash (p : List Char) : skipSlashes ('/' :: p) = skipSlashes p := rfl

lemma skipSlashes_of_ne {c : Char} (hc : c ≠ '/') (p : List Char) : skipSlashes (c :: p) = c :: p := by
  unfold skipSlashes
  split
  · rename_i q hq
    exact absurd (List.cons.inj hq).1 hc
  · rfl

/-- The slashes `skipSlashes` drops before a NUL-terminated rest are those of the string. -/
lemma skipSlashes_append_nul (a rest : List Char) :
    skipSlashes (a ++ '\x00' :: rest) = skipSlashes a ++ '\x00' :: rest := by
  induction a with
  | nil => exact skipSlashes_of_ne (by decide) rest
  | cons c a ih =>
    by_cases hc : c = '/'
    · subst hc
      simpa using ih
    · rw [List.cons_append, skipSlashes_of_ne hc, skipSlashes_of_ne hc, List.cons_append]

/-- What `skipSlashes` leaves starts with no slash. -/
lemma headD_skipSlashes_ne (p : List Char) : (skipSlashes p).headD '\x00' ≠ '/' := by
  induction p with
  | nil => decide
  | cons c p ih =>
    by_cases hc : c = '/'
    · subst hc
      simpa using ih
    · rw [skipSlashes_of_ne hc]
      exact hc

@[simp] lemma components_skipSlashes (p : List Char) :
    components (skipSlashes p) = components p := by
  induction p with
  | nil => rfl
  | cons c p ih =>
    by_cases hc : c = '/'
    · subst hc
      rw [skipSlashes_slash, ih, components_slash]
    · rw [skipSlashes_of_ne hc]

/-- The scan stops at the first slash or NUL after an element that has neither. -/
lemma scanElem_append {e z : List Char} (he : ∀ x ∈ e, x ≠ '/' ∧ x ≠ '\x00')
    (hz : z.headD '\x00' = '/' ∨ z.headD '\x00' = '\x00') : scanElem (e ++ z) = (e, z) := by
  induction e with
  | nil =>
    cases z with
    | nil => rfl
    | cons c p =>
      simp only [List.headD_cons] at hz
      simp [scanElem, hz]
  | cons x e ih =>
    have hx := he x (List.mem_cons_self ..)
    rw [List.cons_append, scanElem, if_neg (by tauto), ih fun y hy => he y (List.mem_cons_of_mem _ hy)]

/-- A string with no NUL is an element, then nothing or a slash and more. -/
lemma exists_element_split : ∀ s : List Char, ∃ e after, s = e ++ after ∧ '/' ∉ e ∧
    (after = [] ∨ ∃ u, after = '/' :: u)
  | [] => ⟨[], [], rfl, List.not_mem_nil, Or.inl rfl⟩
  | c :: t => by
    by_cases hc : c = '/'
    · exact ⟨[], c :: t, rfl, List.not_mem_nil, Or.inr ⟨t, by rw [hc]⟩⟩
    · obtain ⟨e, after, rfl, he, hafter⟩ := exists_element_split t
      exact ⟨c :: e, after, rfl, by simp [Ne.symm hc, he], hafter⟩

/-- One call on a path whose next element `e` (non-empty, no slash, no NUL) ends at a slash
or at the NUL: it returns the path after `e` and its slashes, and `name` holds `e`. -/
theorem skipelem_element {e z : List Char} (hne : e ≠ []) (he : ∀ x ∈ e, x ≠ '/' ∧ x ≠ '\x00')
    (hz : z.headD '\x00' = '/' ∨ z.headD '\x00' = '\x00') (name : Fin DIRSIZ → Char) :
    ∃ name', skipelem (e ++ z) name = some (skipSlashes z, name') ∧ NameHolds name' e := by
  obtain ⟨x, e', rfl⟩ := List.exists_cons_of_ne_nil hne
  have hx := he x (List.mem_cons_self ..)
  -- the path starts at the element: no slash to skip, and not at the NUL
  have hskip : skipSlashes ((x :: e') ++ z) = (x :: e') ++ z := by
    rw [List.cons_append, skipSlashes_of_ne hx.1]
  have hscan := scanElem_append he hz
  simp only [skipelem, hskip, hscan]
  rw [if_neg (by simpa using hx.2)]
  refine ⟨_, rfl, ?_⟩
  -- the bytes `memmove` copies from the path are those of the element
  have hget : ∀ i < (x :: e').length, ((x :: e') ++ z).getD i '\x00' = (x :: e').getD i '\x00' :=
    fun i hi => by rw [List.getD_eq_getElem?_getD, List.getD_eq_getElem?_getD,
      List.getElem?_append_left hi]
  split_ifs with hlong
  · -- `len >= DIRSIZ`: `DIRSIZ` bytes of the element, no NUL
    refine ⟨fun i hi => ?_, fun i hi => absurd hi (by have := i.isLt; omega)⟩
    simp only [copyName, if_pos i.isLt]
    exact hget i hi
  · -- `len < DIRSIZ`: the element, then a NUL
    refine ⟨fun i hi => ?_, fun i hi => ?_⟩
    · rw [Function.update_of_ne (fun h => by rw [h] at hi; exact Nat.lt_irrefl _ hi)]
      simp only [copyName, if_pos hi]
      exact hget i hi
    · rw [show i = ⟨(x :: e').length, Nat.lt_of_not_le hlong⟩ from Fin.ext hi,
        Function.update_self]

/-! ## The walk -/

/-- `skipSlashes` drops a prefix. -/
lemma skipSlashes_suffix (p : List Char) : skipSlashes p <:+ p := by
  induction p with
  | nil => exact List.suffix_refl _
  | cons c p ih =>
    by_cases hc : c = '/'
    · subst hc
      exact ih.trans (List.suffix_cons _ _)
    · simp only [skipSlashes_of_ne hc, List.suffix_refl]

lemma skipSlashes_skipSlashes (p : List Char) : skipSlashes (skipSlashes p) = skipSlashes p := by
  induction p with
  | nil => rfl
  | cons c p ih =>
    by_cases hc : c = '/'
    · subst hc
      simpa using ih
    · rw [skipSlashes_of_ne hc, skipSlashes_of_ne hc]

/-- A call skips the leading slashes itself. -/
lemma skipelem_skipSlashes (p : List Char) (name : Fin DIRSIZ → Char) :
    skipelem (skipSlashes p) name = skipelem p name := by
  simp only [skipelem, skipSlashes_skipSlashes]

/-- The components of an element followed by nothing or by a slash and more. -/
lemma components_element {e after : List Char} (hne : e ≠ []) (he : '/' ∉ e)
    (hafter : after = [] ∨ ∃ u, after = '/' :: u) :
    components (e ++ after) = e :: components after := by
  rcases hafter with rfl | ⟨u, rfl⟩
  · rw [List.append_nil, components_of_not_mem hne he, components_nil]
  · rw [components_append_slash, components_of_not_mem hne he, components_slash]
    rfl

/-- Iterating `skipelem` from any NUL-terminated path until it returns `0` terminates and
yields, in order, exactly the non-empty components of the path split at `'/'`, each copied
into `name` (truncated to `DIRSIZ` bytes, with a NUL after it when it is shorter), and the
remainder returned after each call has no leading `'/'`. -/
theorem skipelems_components (s rest : List Char) (hs : '\x00' ∉ s) (name : Fin DIRSIZ → Char) :
    ∃ steps, skipelems (s.length + 1) (s ++ '\x00' :: rest) name = some steps ∧
      List.Forall₂ (fun c st => NameHolds st.2 c ∧ st.1.headD '\x00' ≠ '/') (components s)
        steps := by
  -- the induction is on the calls left, each element making the string shorter
  suffices h : ∀ n s, s.length < n → '\x00' ∉ s → ∀ name : Fin DIRSIZ → Char, ∃ steps,
      skipelems n (s ++ '\x00' :: rest) name = some steps ∧
      List.Forall₂ (fun c st => NameHolds st.2 c ∧ st.1.headD '\x00' ≠ '/') (components s) steps
    from h _ s (Nat.lt_succ_self _) hs name
  intro n
  induction n with
  | zero => intro s hn; omega
  | succ n ih =>
    intro s hn hs name
    -- the call sees the string after its leading slashes, which has the same components
    have hcall : skipelem (s ++ '\x00' :: rest) name =
        skipelem (skipSlashes s ++ '\x00' :: rest) name := by
      rw [← skipSlashes_append_nul, skipelem_skipSlashes]
    have hsuf := skipSlashes_suffix s
    have hhead := headD_skipSlashes_ne s
    rw [← components_skipSlashes s]
    generalize skipSlashes s = s₁ at hcall hsuf hhead
    cases s₁ with
    | nil =>
      -- only slashes: the call returns `0`
      refine ⟨[], ?_, List.Forall₂.nil⟩
      simp only [skipelems, hcall, List.nil_append]
      rfl
    | cons c t =>
      obtain ⟨e, after, hsplit, he, hafter⟩ := exists_element_split (c :: t)
      have hne : e ≠ [] := by
        rintro rfl
        rcases hafter with rfl | ⟨u, rfl⟩
        · simp at hsplit
        · simp only [List.nil_append, List.cons.injEq] at hsplit
          exact hhead (by simp [hsplit.1])
      have hsub : ∀ x, x ∈ e ++ after → x ∈ s := fun x hx => hsuf.subset (hsplit ▸ hx)
      have he' : ∀ x ∈ e, x ≠ '/' ∧ x ≠ '\x00' := fun x hx =>
        ⟨fun h => he (h ▸ hx), fun h => hs (h ▸ hsub x (List.mem_append_left _ hx))⟩
      have hz : (after ++ '\x00' :: rest).headD '\x00' = '/' ∨
          (after ++ '\x00' :: rest).headD '\x00' = '\x00' := by
        rcases hafter with rfl | ⟨u, rfl⟩ <;> simp
      obtain ⟨name', hstep, hname⟩ := skipelem_element hne he' hz name
      -- the rest of the walk is that of the string after the element and its slashes
      have hlen : (skipSlashes after).length < n := by
        have h₁ := (skipSlashes_suffix after).length_le
        have h₂ := hsuf.length_le
        have h₃ := List.length_pos_of_ne_nil hne
        rw [hsplit, List.length_append] at h₂
        omega
      have hnul : '\x00' ∉ skipSlashes after := fun h =>
        hs (hsub _ (List.mem_append_right _ ((skipSlashes_suffix after).subset h)))
      obtain ⟨steps, hsteps, hforall⟩ := ih (skipSlashes after) hlen hnul name'
      refine ⟨(skipSlashes after ++ '\x00' :: rest, name') :: steps, ?_, ?_⟩
      · rw [hsplit, List.append_assoc] at hcall
        simp only [skipelems, hcall, hstep, skipSlashes_append_nul, hsteps, Option.map_some]
      · rw [hsplit, components_element hne he hafter, ← components_skipSlashes after]
        refine List.Forall₂.cons ⟨hname, ?_⟩ hforall
        rw [← skipSlashes_append_nul]
        exact headD_skipSlashes_ne _

/-- The walk from `"///a//bb"`, one of the examples of fs.c: its components are `a` and
`bb`. -/
theorem skipelems_components_slashes :
    '\x00' ∉ "///a//bb".toList ∧ components "///a//bb".toList = ["a".toList, "bb".toList] ∧
      ∃ steps, skipelems ("///a//bb".toList.length + 1) ("///a//bb".toList ++ ['\x00'])
          (fun _ => '\x00') = some steps ∧
        List.Forall₂ (fun c st => NameHolds st.2 c ∧ st.1.headD '\x00' ≠ '/')
          (components "///a//bb".toList) steps :=
  ⟨by decide, by decide, skipelems_components _ [] (by decide) _⟩

/-- The other examples of fs.c: `skipelem("a/bb/c", name)` returns `"bb/c"`,
`skipelem("a", name)` returns `""`, and `skipelem("", name)` and `skipelem("////", name)`
return `0`. -/
example : ((skipelem ("a/bb/c".toList ++ ['\x00']) fun _ => ' ').map Prod.fst =
      some ("bb/c".toList ++ ['\x00'])) ∧
    ((skipelem ("a".toList ++ ['\x00']) fun _ => ' ').map Prod.fst = some ['\x00']) ∧
    (skipelem ['\x00'] fun _ => ' ').isNone ∧
    (skipelem ("////".toList ++ ['\x00']) fun _ => ' ').isNone := by
  decide

end Xv6
