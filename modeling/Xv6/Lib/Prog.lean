import Mathlib.Logic.Function.Basic
import Mathlib.Data.Nat.Notation
import Mathlib.Logic.Relation

/-!
# Programs with a state, an exit and a panic

Kernel code runs on a global state and ends in one of three ways: it returns a value, it
leaves the calling thread for good (a call such as `exit` that never returns), or it
halts the machine (`panic`).  A `Prog σ α` is such a computation on states `σ`; it is a
monad, so C code reads as `do` blocks over it.

Besides the equations that run a program, this file gives the two tools the proofs about
programs use: inversion lemmas for `bind`, which take a finished run apart step by step,
and `Preserves`, the statement that a program keeps a property of the state on every run
that returns or exits, with one rule for each way of building programs.
-/

namespace Prog

/-- How a run ends: a value and a state, an exit in a state, or a panic. -/
inductive Result (σ α : Type*) where
  | ok (a : α) (s : σ)
  | exit (s : σ)
  | panic (msg : String)

namespace Result

variable {σ α : Type*}

/-- The state a run returned in, or `d`. -/
def stateD (d : σ) : Result σ α → σ
  | .ok _ s => s
  | _ => d

/-- The run returned the value `a`. -/
def returned [DecidableEq α] (a : α) : Result σ α → Bool
  | .ok b _ => decide (b = a)
  | _ => false

/-- The state a run exited in, or `d`. -/
def exitD (d : σ) : Result σ α → σ
  | .exit s => s
  | _ => d

/-- The run exited. -/
def exited : Result σ α → Bool
  | .exit _ => true
  | _ => false

/-- The run panicked with the message `msg`. -/
def panicked (msg : String) : Result σ α → Bool
  | .panic m => decide (m = msg)
  | _ => false

/-- A run seen to return `a` is `.ok a` of the state it returned in; with `decide` on the
check this evaluates a run on fixed inputs once, in the kernel. -/
lemma eq_ok_of_returned [DecidableEq α] {x : Result σ α} {a : α} (d : σ)
    (h : x.returned a = true) : x = .ok a (x.stateD d) := by
  cases x with
  | ok b s =>
    simp only [returned, decide_eq_true_eq] at h
    rw [h]; rfl
  | exit s => cases h
  | panic m => cases h

/-- A run seen to exit is `.exit` of the state it exited in. -/
lemma eq_exit_of_exited {x : Result σ α} (d : σ) (h : x.exited = true) : x = .exit (x.exitD d) := by
  cases x with
  | ok b s => cases h
  | exit s => rfl
  | panic m => cases h

/-- A run seen to panic with `msg` is `.panic msg`. -/
lemma eq_panic_of_panicked {x : Result σ α} {msg : String} (h : x.panicked msg = true) :
    x = .panic msg := by
  cases x with
  | ok b s => cases h
  | exit s => cases h
  | panic m =>
    simp only [panicked, decide_eq_true_eq] at h
    rw [h]

end Result

end Prog

/-- A computation on states `σ` with a value in `α`. -/
def Prog (σ α : Type) := σ → Prog.Result σ α

namespace Prog

variable {σ α β : Type}

/-- Sequencing: an exit or a panic stops the rest of the program. -/
protected def bind (x : Prog σ α) (f : α → Prog σ β) : Prog σ β := fun s =>
  match x s with
  | .ok a s' => f a s'
  | .exit s' => .exit s'
  | .panic msg => .panic msg

instance : Monad (Prog σ) where
  pure a := fun s => .ok a s
  bind := Prog.bind

instance : LawfulMonad (Prog σ) := LawfulMonad.mk' (Prog σ)
  (fun x => funext fun s => by
    show Prog.bind x (fun a s => .ok (id a) s) s = x s
    unfold Prog.bind
    cases x s <;> rfl)
  (fun _ _ => rfl)
  (fun x f g => funext fun s => by
    show Prog.bind (Prog.bind x f) g s = Prog.bind x (fun a => Prog.bind (f a) g) s
    unfold Prog.bind
    cases x s <;> rfl)

/-- Read the state. -/
def get : Prog σ σ := fun s => .ok s s

/-- Change the state. -/
def modify (f : σ → σ) : Prog σ Unit := fun s => .ok () (f s)

/-- Leave the calling thread. -/
def exit : Prog σ α := fun s => .exit s

/-- Halt the machine. -/
def panic (msg : String) : Prog σ α := fun _ => .panic msg

/-! ## Running programs -/

@[simp] lemma pure_apply (a : α) (s : σ) : (pure a : Prog σ α) s = .ok a s := rfl

@[simp] lemma bind_apply (x : Prog σ α) (f : α → Prog σ β) (s : σ) :
    (x >>= f) s = match x s with
      | .ok a s' => f a s'
      | .exit s' => .exit s'
      | .panic msg => .panic msg := rfl

/-- `f <$> x`, the form of a `do` block that ends in `pure`.  Not a simp lemma, so that the
`simp` calls that leave such a map for `rfl` keep their goals. -/
lemma map_apply (f : α → β) (x : Prog σ α) (s : σ) :
    (f <$> x) s = match x s with
      | .ok a s' => .ok (f a) s'
      | .exit s' => .exit s'
      | .panic msg => .panic msg := rfl

@[simp] lemma get_apply (s : σ) : (get : Prog σ σ) s = .ok s s := rfl

@[simp] lemma modify_apply (f : σ → σ) (s : σ) : modify f s = .ok () (f s) := rfl

@[simp] lemma exit_apply (s : σ) : (exit : Prog σ α) s = .exit s := rfl

@[simp] lemma panic_apply (msg : String) (s : σ) : (panic msg : Prog σ α) s = .panic msg := rfl

@[simp] lemma run_ite {c : Prop} [Decidable c] (x y : Prog σ α) (s : σ) :
    (if c then x else y) s = if c then x s else y s := by
  split <;> rfl

lemma ite_bind {c : Prop} [Decidable c] (x y : Prog σ α) (f : α → Prog σ β) :
    (if c then x else y) >>= f = if c then x >>= f else y >>= f := by
  split <;> rfl

lemma bind_of_ok {x : Prog σ α} {f : α → Prog σ β} {s s' : σ} {a : α} (h : x s = .ok a s') :
    (x >>= f) s = f a s' := by
  simp [h]

lemma bind_of_exit {x : Prog σ α} {f : α → Prog σ β} {s s' : σ} (h : x s = .exit s') :
    (x >>= f) s = .exit s' := by
  simp [h]

lemma bind_of_panic {x : Prog σ α} {f : α → Prog σ β} {s : σ} {msg : String}
    (h : x s = .panic msg) : (x >>= f) s = .panic msg := by
  simp [h]

/-! ## Taking a run apart -/

lemma bind_eq_ok {x : Prog σ α} {f : α → Prog σ β} {s s'' : σ} {b : β} :
    (x >>= f) s = .ok b s'' ↔ ∃ a s', x s = .ok a s' ∧ f a s' = .ok b s'' := by
  rw [bind_apply]
  rcases hx : x s with ⟨a, s'⟩ | s' | msg
  · exact ⟨fun h => ⟨a, s', rfl, h⟩, fun ⟨_, _, h₁, h₂⟩ => by cases h₁; exact h₂⟩
  · simp
  · simp

lemma bind_eq_exit {x : Prog σ α} {f : α → Prog σ β} {s s'' : σ} :
    (x >>= f) s = .exit s'' ↔ x s = .exit s'' ∨ ∃ a s', x s = .ok a s' ∧ f a s' = .exit s'' := by
  rw [bind_apply]
  rcases hx : x s with ⟨a, s'⟩ | s' | msg
  · refine ⟨fun h => Or.inr ⟨a, s', rfl, h⟩, ?_⟩
    rintro (h | ⟨_, _, h₁, h₂⟩)
    · cases h
    · cases h₁; exact h₂
  · simp
  · simp

/-! ## Loops

A C loop that leaves early with a value, by a `return` or a `break` inside it, is
`List.findSomeM?` over its indices; a loop that always runs to its end is `List.forM`. -/

/-- A loop that returned a value: some pass of its body returned it, from a state that
earlier passes reached. -/
lemma findSomeM_eq_ok_some {ι : Type} {body : ι → Prog σ (Option β)} {b : β} :
    ∀ {l : List ι} {s s' : σ}, l.findSomeM? body s = .ok (some b) s' →
      ∃ i ∈ l, ∃ s₁, body i s₁ = .ok (some b) s'
  | [], _, _, h => by cases h
  | i :: l, s, s', h => by
    rw [List.findSomeM?_cons, bind_eq_ok] at h
    obtain ⟨r, s₁, h₁, h₂⟩ := h
    cases r with
    | some b' => cases h₂; exact ⟨i, List.mem_cons_self, s, h₁⟩
    | none =>
      obtain ⟨j, hj, s₂, h₃⟩ := findSomeM_eq_ok_some h₂
      exact ⟨j, List.mem_cons_of_mem i hj, s₂, h₃⟩

/-! ## Properties that a program keeps -/

/-- `x` keeps `P`: a run from a state satisfying `P` that returns or exits leaves a state
satisfying `P`. -/
def Preserves (P : σ → Prop) (x : Prog σ α) : Prop :=
  ∀ s, P s → (∀ a s', x s = .ok a s' → P s') ∧ (∀ s', x s = .exit s' → P s')

variable {P : σ → Prop}

lemma Preserves.ok {x : Prog σ α} (h : Preserves P x) {s s' : σ} {a : α} (hs : P s)
    (hx : x s = .ok a s') : P s' :=
  (h s hs).1 a s' hx

lemma Preserves.exit {x : Prog σ α} (h : Preserves P x) {s s' : σ} (hs : P s)
    (hx : x s = .exit s') : P s' :=
  (h s hs).2 s' hx

lemma preserves_pure (a : α) : Preserves P (pure a : Prog σ α) := by
  intro s hs
  refine ⟨fun a' s' h => ?_, fun s' h => ?_⟩
  · cases h; exact hs
  · cases h

/-- A program that only reads returns in the state it started from. -/
lemma preserves_of_read {x : Prog σ α} (hx : ∀ s, ∃ a, x s = .ok a s) : Preserves P x := by
  intro s hs
  obtain ⟨a, hxs⟩ := hx s
  refine ⟨fun a' s' h => ?_, fun s' h => ?_⟩
  · rw [hxs] at h; cases h; exact hs
  · rw [hxs] at h; cases h

lemma preserves_get : Preserves P (get : Prog σ σ) :=
  preserves_of_read fun s => ⟨s, rfl⟩

lemma preserves_modify {f : σ → σ} (hf : ∀ s, P s → P (f s)) : Preserves P (modify f) := by
  intro s hs
  refine ⟨fun a' s' h => ?_, fun s' h => ?_⟩
  · cases h; exact hf s hs
  · cases h

lemma preserves_exit : Preserves P (exit : Prog σ α) := by
  intro s hs
  refine ⟨fun a' s' h => ?_, fun s' h => ?_⟩
  · cases h
  · cases h; exact hs

lemma preserves_panic (msg : String) : Preserves P (panic msg : Prog σ α) := by
  intro s _
  refine ⟨fun a' s' h => ?_, fun s' h => ?_⟩
  · cases h
  · cases h

/-- Every value that `x` returns from a state with `P` satisfies `Q`. -/
def Returns (P : σ → Prop) (x : Prog σ α) (Q : α → Prop) : Prop :=
  ∀ s a s', P s → x s = .ok a s' → Q a

/-- The rule for a sequence whose second part may rely on a fact about the value that the
first part returned. -/
lemma preserves_bind_of {x : Prog σ α} {f : α → Prog σ β} {Q : α → Prop} (hx : Preserves P x)
    (hQ : Returns P x Q) (hf : ∀ a, Q a → Preserves P (f a)) :
    Preserves P (x >>= f) := by
  intro s hs
  refine ⟨fun b s'' h => ?_, fun s'' h => ?_⟩
  · obtain ⟨a, s', h₁, h₂⟩ := Iff.mp bind_eq_ok h
    exact (hf a (hQ s a s' hs h₁)).ok (hx.ok hs h₁) h₂
  · rcases Iff.mp bind_eq_exit h with h₁ | ⟨a, s', h₁, h₂⟩
    · exact hx.exit hs h₁
    · exact (hf a (hQ s a s' hs h₁)).exit (hx.ok hs h₁) h₂

lemma preserves_bind {x : Prog σ α} {f : α → Prog σ β} (hx : Preserves P x)
    (hf : ∀ a, Preserves P (f a)) : Preserves P (x >>= f) :=
  preserves_bind_of hx (fun _ _ _ _ _ => trivial) fun a _ => hf a

/-- The rule for a program that reads the state first: it may rely on the property of the
state it reads. -/
lemma preserves_get_bind {f : σ → Prog σ β} (hf : ∀ s, P s → Preserves P (f s)) :
    Preserves P (get >>= f) := by
  intro s hs
  exact hf s hs s hs

lemma preserves_ite {c : Prop} [Decidable c] {x y : Prog σ α} (hx : Preserves P x)
    (hy : Preserves P y) : Preserves P (if c then x else y) := by
  split
  · exact hx
  · exact hy

/-- Two properties that a program keeps, it keeps together. -/
lemma Preserves.and {Q : σ → Prop} {x : Prog σ α} (hP : Preserves P x) (hQ : Preserves Q x) :
    Preserves (fun s => P s ∧ Q s) x := fun _ hs =>
  ⟨fun _ _ hx => ⟨hP.ok hs.1 hx, hQ.ok hs.2 hx⟩, fun _ hx => ⟨hP.exit hs.1 hx, hQ.exit hs.2 hx⟩⟩

/-- A loop keeps what every pass of its body keeps; the induction is on the indices left. -/
lemma preserves_findSomeM {ι : Type} {body : ι → Prog σ (Option β)}
    (hbody : ∀ i, Preserves P (body i)) : ∀ l : List ι, Preserves P (l.findSomeM? body)
  | [] => preserves_pure none
  | i :: l => by
    rw [List.findSomeM?_cons]
    refine preserves_bind (hbody i) fun r => ?_
    cases r with
    | some b => exact preserves_pure (some b)
    | none => exact preserves_findSomeM hbody l

lemma preserves_forM {ι : Type} {body : ι → Prog σ PUnit} (hbody : ∀ i, Preserves P (body i)) :
    ∀ l : List ι, Preserves P (forM l body)
  | [] => preserves_pure _
  | i :: l => by
    rw [List.forM_cons]
    exact preserves_bind (hbody i) fun _ => preserves_forM hbody l

/-! ## What a program returns

The rules for `Returns` go with those for `Preserves`: a sequence needs the property of
the state kept by its first part to speak of what its second part returns. -/

section Returns

variable {Q : α → Prop}

lemma returns_pure {a : α} (h : Q a) : Returns P (pure a : Prog σ α) Q := by
  intro s a' s' _ hx
  cases hx
  exact h

lemma returns_bind_of {x : Prog σ β} {f : β → Prog σ α} {R : β → Prop} (hP : Preserves P x)
    (hx : Returns P x R) (hf : ∀ b, R b → Returns P (f b) Q) : Returns P (x >>= f) Q := by
  intro s a s'' hs h
  obtain ⟨b, s', h₁, h₂⟩ := Iff.mp bind_eq_ok h
  exact hf b (hx s b s' hs h₁) s' a s'' (hP.ok hs h₁) h₂

lemma returns_bind {x : Prog σ β} {f : β → Prog σ α} (hP : Preserves P x)
    (hf : ∀ b, Returns P (f b) Q) : Returns P (x >>= f) Q :=
  returns_bind_of hP (fun _ _ _ _ _ => trivial) fun b _ => hf b

lemma returns_ite {c : Prop} [Decidable c] {x y : Prog σ α} (hx : Returns P x Q)
    (hy : Returns P y Q) : Returns P (if c then x else y) Q := by
  split
  · exact hx
  · exact hy

/-- What a search returns is what some pass of its body returned; the induction is on the
indices left. -/
lemma returns_findSomeM {ι : Type} {body : ι → Prog σ (Option α)}
    (hP : ∀ i, Preserves P (body i)) (hbody : ∀ i, Returns P (body i) fun r => ∀ a, r = some a → Q a) :
    ∀ l : List ι, Returns P (l.findSomeM? body) fun r => ∀ a, r = some a → Q a
  | [] => returns_pure fun _ h => nomatch h
  | i :: l => by
    rw [List.findSomeM?_cons]
    refine returns_bind_of (hP i) (hbody i) fun r hr => ?_
    cases r with
    | some a => exact returns_pure hr
    | none => exact returns_findSomeM hP hbody l

end Returns

/-! ## Pre- and postconditions

`Triple P x Q E` says that `x`, run from a state with `P`, returns a value `a` only in a
state with `Q a` and exits only in a state with `E`.  `Preserves P x` is the triple with
`P` everywhere; a triple is for a program whose end differs in kind from its start, or
whose later part relies on what its earlier part read or returned. -/

/-- The pre- and postconditions of a program. -/
def Triple (P : σ → Prop) (x : Prog σ α) (Q : α → σ → Prop) (E : σ → Prop) : Prop :=
  ∀ s, P s → (∀ a s', x s = .ok a s' → Q a s') ∧ (∀ s', x s = .exit s' → E s')

section Triple

variable {Q : α → σ → Prop} {E : σ → Prop}

lemma Preserves.triple {x : Prog σ α} (h : Preserves P x) : Triple P x (fun _ => P) P := h

lemma Triple.ok {x : Prog σ α} (h : Triple P x Q E) {s s' : σ} {a : α} (hs : P s)
    (hx : x s = .ok a s') : Q a s' :=
  (h s hs).1 a s' hx

lemma Triple.exit {x : Prog σ α} (h : Triple P x Q E) {s s' : σ} (hs : P s)
    (hx : x s = .exit s') : E s' :=
  (h s hs).2 s' hx

/-- The rule of consequence. -/
lemma Triple.mono {P' : σ → Prop} {Q' : α → σ → Prop} {E' : σ → Prop} {x : Prog σ α}
    (h : Triple P x Q E) (hP : ∀ s, P' s → P s) (hQ : ∀ a s, Q a s → Q' a s)
    (hE : ∀ s, E s → E' s) : Triple P' x Q' E' := by
  intro s hs
  refine ⟨fun a s' hx => hQ a s' (h.ok (hP s hs) hx), fun s' hx => hE s' (h.exit (hP s hs) hx)⟩

/-- A program that keeps `R`, from a state where `P` implies `R`. -/
lemma Preserves.triple_of {R : σ → Prop} {x : Prog σ α} (h : Preserves R x)
    (hPR : ∀ s, P s → R s) : Triple P x (fun _ => R) R :=
  h.triple.mono hPR (fun _ _ h => h) fun _ h => h

lemma triple_pure {a : α} (h : ∀ s, P s → Q a s) : Triple P (pure a : Prog σ α) Q E := by
  intro s hs
  refine ⟨fun a' s' hx => ?_, fun s' hx => ?_⟩
  · cases hx
    exact h s hs
  · cases hx

lemma triple_modify {f : σ → σ} {Q : Unit → σ → Prop} (h : ∀ s, P s → Q () (f s)) :
    Triple P (modify f) Q E := by
  intro s hs
  refine ⟨fun a' s' hx => ?_, fun s' hx => ?_⟩
  · cases hx
    exact h s hs
  · cases hx

lemma triple_exit (h : ∀ s, P s → E s) : Triple P (exit : Prog σ α) Q E := by
  intro s hs
  refine ⟨fun a' s' hx => ?_, fun s' hx => ?_⟩
  · cases hx
  · cases hx
    exact h s hs

lemma triple_panic (msg : String) : Triple P (panic msg : Prog σ α) Q E := by
  intro s _
  refine ⟨fun a' s' hx => ?_, fun s' hx => ?_⟩
  · cases hx
  · cases hx

lemma triple_bind {x : Prog σ β} {f : β → Prog σ α} {R : β → σ → Prop}
    (hx : Triple P x R E) (hf : ∀ b, Triple (R b) (f b) Q E) : Triple P (x >>= f) Q E := by
  intro s hs
  refine ⟨fun a s'' h => ?_, fun s'' h => ?_⟩
  · obtain ⟨b, s', h₁, h₂⟩ := Iff.mp bind_eq_ok h
    exact (hf b).ok (hx.ok hs h₁) h₂
  · rcases Iff.mp bind_eq_exit h with h₁ | ⟨b, s', h₁, h₂⟩
    · exact hx.exit hs h₁
    · exact (hf b).exit (hx.ok hs h₁) h₂

/-- A program that reads `g` of the state and returns it: the rest may rely on the value it
read. -/
lemma triple_read_bind {x : Prog σ β} {g : σ → β} {f : β → Prog σ α}
    (hx : ∀ s, x s = .ok (g s) s) (hf : ∀ b, Triple (fun s => P s ∧ g s = b) (f b) Q E) :
    Triple P (x >>= f) Q E := by
  intro s hs
  have hb : (x >>= f) s = f (g s) s := bind_of_ok (hx s)
  rw [hb]
  exact hf (g s) s ⟨hs, rfl⟩

lemma triple_ite {c : Prop} [Decidable c] {x y : Prog σ α} (hx : c → Triple P x Q E)
    (hy : ¬ c → Triple P y Q E) : Triple P (if c then x else y) Q E := by
  split
  · rename_i h
    exact hx h
  · rename_i h
    exact hy h

lemma Triple.preserves {x : Prog σ α} (h : Triple P x (fun _ => P) P) : Preserves P x := h

/-- A value `g s` of the start state, fixed for the proof of the triple. -/
lemma Triple.of_ghost {x : Prog σ α} (g : σ → β) (h : ∀ b, Triple (fun s => P s ∧ g s = b) x Q E) :
    Triple P x Q E :=
  fun s hs => h (g s) s ⟨hs, rfl⟩

/-- A first part that keeps the precondition, and exits only where `E` holds. -/
lemma triple_bind_of_preserves {x : Prog σ β} {f : β → Prog σ α} (hx : Preserves P x)
    (hE : ∀ s, P s → E s) (hf : ∀ b, Triple P (f b) Q E) : Triple P (x >>= f) Q E :=
  triple_bind (hx.triple.mono (fun _ h => h) (fun _ _ h => h) hE) hf

/-- A first part that keeps `P`, where `P` is also what holds at the exits. -/
lemma Preserves.triple_bind {x : Prog σ β} {f : β → Prog σ α} (hx : Preserves P x)
    (hf : ∀ b, Triple P (f b) Q P) : Triple P (x >>= f) Q P :=
  triple_bind_of_preserves hx (fun _ h => h) hf

/-- A program whose triple has no state to return in never returns. -/
lemma Triple.ne_ok {x : Prog σ α} (h : Triple P x (fun _ _ => False) E) {s s' : σ} {a : α}
    (hs : P s) : x s ≠ .ok a s' :=
  fun hx => h.ok hs hx

/-- The search rule: every pass keeps `P` where it returns. -/
lemma triple_findSomeM {ι : Type} {body : ι → Prog σ (Option β)}
    (hbody : ∀ i, Triple P (body i) (fun _ => P) E) :
    ∀ l : List ι, Triple P (l.findSomeM? body) (fun _ => P) E
  | [] => triple_pure fun _ h => h
  | i :: l => by
    rw [List.findSomeM?_cons]
    refine triple_bind (hbody i) fun r => ?_
    cases r with
    | some b => exact triple_pure fun _ h => h
    | none => exact triple_findSomeM hbody l

/-- The loop rule: `I l` holds before the passes over the indices `l` that are left, and
each pass over `i` takes `I (i :: l)` to `I l`. -/
lemma triple_forM {ι : Type} {body : ι → Prog σ PUnit} (I : List ι → σ → Prop)
    (hbody : ∀ i l, Triple (I (i :: l)) (body i) (fun _ => I l) E) :
    ∀ l, Triple (I l) (forM l body) (fun _ => I []) E
  | [] => triple_pure fun _ h => h
  | i :: l => by
    rw [List.forM_cons]
    exact triple_bind (hbody i l) fun _ => triple_forM I hbody l

end Triple

/-! ## Programs that never exit

Only `exit` ends a program with `.exit`; the code below the process table never calls it.
`NoExit x` is the triple with no state to exit in, and its rules are those of triples. -/

/-- `x` never exits. -/
def NoExit (x : Prog σ α) : Prop :=
  Triple (fun _ => True) x (fun _ _ => True) fun _ => False

section NoExit

lemma NoExit.ne_exit {x : Prog σ α} (h : NoExit x) (s s' : σ) : x s ≠ .exit s' :=
  fun hx => h.exit trivial hx

lemma noExit_of_read {x : Prog σ α} (hx : ∀ s, ∃ a, x s = .ok a s) : NoExit x := by
  intro s _
  obtain ⟨a, ha⟩ := hx s
  refine ⟨fun _ _ _ => trivial, fun s' h => ?_⟩
  rw [ha] at h
  cases h

lemma noExit_pure (a : α) : NoExit (pure a : Prog σ α) :=
  triple_pure fun _ _ => trivial

lemma noExit_modify (f : σ → σ) : NoExit (modify f) :=
  triple_modify fun _ _ => trivial

lemma noExit_panic (msg : String) : NoExit (panic msg : Prog σ α) :=
  triple_panic msg

lemma noExit_bind {x : Prog σ β} {f : β → Prog σ α} (hx : NoExit x) (hf : ∀ b, NoExit (f b)) :
    NoExit (x >>= f) :=
  triple_bind hx hf

lemma noExit_ite {c : Prop} [Decidable c] {x y : Prog σ α} (hx : NoExit x) (hy : NoExit y) :
    NoExit (if c then x else y) :=
  triple_ite (fun _ => hx) fun _ => hy

lemma noExit_forM {ι : Type} {body : ι → Prog σ PUnit} (hbody : ∀ i, NoExit (body i))
    (l : List ι) : NoExit (forM l body) :=
  triple_forM (fun _ _ => True) (fun i _ => hbody i) l

end NoExit

/-! ## Parts of the state that a program leaves alone -/

/-- `x` leaves the part `f` of the state as it is, on every run that returns or exits: a
frame condition. -/
def Keeps {γ : Type} (f : σ → γ) (x : Prog σ α) : Prop :=
  ∀ v, Preserves (fun s => f s = v) x

section Keeps

variable {γ : Type} {f : σ → γ}

lemma Keeps.ok {x : Prog σ α} (h : Keeps f x) {s s' : σ} {a : α} (hx : x s = .ok a s') :
    f s' = f s :=
  (h (f s)).ok rfl hx

lemma Keeps.exit {x : Prog σ α} (h : Keeps f x) {s s' : σ} (hx : x s = .exit s') :
    f s' = f s :=
  (h (f s)).exit rfl hx

/-- What a program does not touch, it keeps every property of. -/
lemma Keeps.preserves {x : Prog σ α} (h : Keeps f x) (Q : γ → Prop) :
    Preserves (fun s => Q (f s)) x := by
  intro s hs
  refine ⟨fun a s' hx => ?_, fun s' hx => ?_⟩
  · show Q (f s')
    rw [h.ok hx]; exact hs
  · show Q (f s')
    rw [h.exit hx]; exact hs

end Keeps

/-! ## Panics that a program never reaches

`NoPanic P x msg` says that `x`, run from a state with `P`, does not halt with `msg`.  A
sequence needs the triple of its first part, to know the states its second part starts
from. -/

/-- `x`, run from a state with `P`, does not panic with `msg`. -/
def NoPanic (P : σ → Prop) (x : Prog σ α) (msg : String) : Prop :=
  ∀ s, P s → x s ≠ .panic msg

section NoPanic

variable {msg : String}

lemma NoPanic.mono {P' : σ → Prop} {x : Prog σ α} (h : NoPanic P x msg) (hP : ∀ s, P' s → P s) :
    NoPanic P' x msg :=
  fun s hs => h s (hP s hs)

lemma noPanic_pure (a : α) : NoPanic P (pure a : Prog σ α) msg := by
  intro s _ h
  cases h

lemma noPanic_modify (f : σ → σ) : NoPanic P (modify f) msg := by
  intro s _ h
  cases h

lemma noPanic_panic {msg' : String} (h : msg' ≠ msg) : NoPanic P (panic msg' : Prog σ α) msg := by
  intro s _ hp
  cases hp
  exact h rfl

lemma noPanic_bind {x : Prog σ β} {f : β → Prog σ α} {R : β → σ → Prop} {E : σ → Prop}
    (hx : NoPanic P x msg) (hxt : Triple P x R E) (hf : ∀ b, NoPanic (R b) (f b) msg) :
    NoPanic P (x >>= f) msg := by
  intro s hs h
  rw [bind_apply] at h
  rcases hxs : x s with ⟨b, s'⟩ | s' | m
  · rw [hxs] at h
    exact hf b s' (hxt.ok hs hxs) h
  · rw [hxs] at h
    cases h
  · rw [hxs] at h
    cases h
    exact hx s hs hxs

lemma noPanic_read_bind {x : Prog σ β} {g : σ → β} {f : β → Prog σ α}
    (hx : ∀ s, x s = .ok (g s) s) (hf : ∀ b, NoPanic (fun s => P s ∧ g s = b) (f b) msg) :
    NoPanic P (x >>= f) msg := by
  intro s hs
  rw [bind_of_ok (hx s)]
  exact hf (g s) s ⟨hs, rfl⟩

lemma noPanic_ite {c : Prop} [Decidable c] {x y : Prog σ α} (hx : c → NoPanic P x msg)
    (hy : ¬ c → NoPanic P y msg) : NoPanic P (if c then x else y) msg := by
  split
  · rename_i h
    exact hx h
  · rename_i h
    exact hy h

/-- The loop rule, with the invariant of `triple_forM`. -/
lemma noPanic_forM {ι : Type} {body : ι → Prog σ PUnit} {E : σ → Prop} (I : List ι → σ → Prop)
    (hbody : ∀ i l, Triple (I (i :: l)) (body i) (fun _ => I l) E)
    (hnp : ∀ i l, NoPanic (I (i :: l)) (body i) msg) :
    ∀ l, NoPanic (I l) (forM l body) msg
  | [] => noPanic_pure _
  | i :: l => by
    rw [List.forM_cons]
    exact noPanic_bind (hnp i l) (hbody i l) fun _ => noPanic_forM I hbody hnp l

end NoPanic

/-! ## Runs of a system of programs -/

section Runs

variable {ι : Type} (step : ι → Prog σ PUnit)

/-- One move of a system whose moves are the programs `step i`: one of them runs from `s`
and returns, or exits, in `s'`.  A panic is no move: the machine has stopped. -/
def Step (s s' : σ) : Prop :=
  ∃ i, step i s = .ok () s' ∨ step i s = .exit s'

/-- The states that runs of the system reach from `s₀`, moves in any order and number. -/
def Reachable (s₀ : σ) : σ → Prop :=
  Relation.ReflTransGen (Step step) s₀

/-- A run of the system as the list of its moves, each of which returns or exits. -/
inductive Trace : σ → List ι → σ → Prop
  | nil (s : σ) : Trace s [] s
  | cons {s s₁ s' : σ} {i : ι} {is : List ι} (hi : step i s = .ok () s₁ ∨ step i s = .exit s₁)
      (rest : Trace s₁ is s') : Trace s (i :: is) s'

variable {step}

/-- The invariant rule: a property that every move keeps holds in every state that a run
from a state with the property reaches.  The induction is on the run, from its end. -/
lemma Reachable.invariant {s₀ s : σ} (hstep : ∀ i, Preserves P (step i)) (h₀ : P s₀)
    (h : Reachable step s₀ s) : P s := by
  induction h with
  | refl => exact h₀
  | tail _ hmove ih =>
    obtain ⟨i, hi | hi⟩ := hmove
    · exact (hstep i).ok ih hi
    · exact (hstep i).exit ih hi

/-- A run followed by a move that returns. -/
lemma Reachable.ok {s₀ s s' : σ} (h : Reachable step s₀ s) (i : ι) (hi : step i s = .ok () s') :
    Reachable step s₀ s' :=
  Relation.ReflTransGen.tail h ⟨i, .inl hi⟩

end Runs

end Prog
