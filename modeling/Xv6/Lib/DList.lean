import Mathlib.Data.List.Chain
import Mathlib.Data.List.Nodup
import Mathlib.Logic.Function.Basic

/-!
# Circular doubly linked lists with a sentinel

Nodes threaded by `next` and `prev` pointers into a ring, closed by a sentinel node `h`
that holds no item.  `Links` holds the two pointer fields of every node, so a write to a
field of one node is a `Function.update`.  `L.Ring h l` says that following `next` from `h`
passes the distinct nodes `l`, in order, and comes back to `h`, and that `prev` leads the
same way back.

The operations are the loops and pointer writes of such lists written out: `search` walks
`next` until it meets the sentinel, `pushFront` inserts a node right after the sentinel,
`unlink` takes a node out, and `moveFront` does the last two in turn.  The main results are

* `search_ring`: a walk from `next h` returns the first node of `l` that passes its test,
  or reaches `h`, within `l.length` nodes; by `Ring.flip`, a walk along `prev` from `prev h`
  does the same over `l.reverse`;
* `Ring.pushFront`, `Ring.unlink` and `Ring.moveFront`: the writes keep a ring, with the
  node first, out, or moved to the front.
-/

namespace DList

variable {α : Type}

/-- The `next` and `prev` fields of every node. -/
structure Links (α : Type) where
  next : α → α
  prev : α → α

namespace Links

variable (L : Links α)

/-- `v` follows `u`, and `u` precedes `v`. -/
def Link (u v : α) : Prop := L.next u = v ∧ L.prev v = u

/-- The same pointers, read the other way. -/
def flip : Links α := ⟨L.prev, L.next⟩

/-- Following `next` from `h` passes the distinct nodes `l`, in order, and comes back to
`h`; `prev` leads back the same way. -/
def Ring (h : α) (l : List α) : Prop :=
  List.IsChain L.Link (h :: l ++ [h]) ∧ (h :: l).Nodup

@[simp] lemma flip_next : L.flip.next = L.prev := rfl

@[simp] lemma flip_prev : L.flip.prev = L.next := rfl

lemma flip_link {u v : α} : L.flip.Link u v ↔ L.Link v u := by
  simp only [Link, flip_next, flip_prev]
  exact and_comm

variable [DecidableEq α]

instance (u v : α) : Decidable (L.Link u v) := inferInstanceAs (Decidable (_ ∧ _))

instance (h : α) (l : List α) : Decidable (L.Ring h l) := inferInstanceAs (Decidable (_ ∧ _))

/-! ## Walks -/

/-- The loop `for (x = start; x != stop; x = x->next) if (p(x)) return x;` for at most
`fuel` nodes: `some (some x)` when it returns `x`, `some none` when it reaches `stop`, and
`none` when it is still walking after `fuel` nodes. -/
def search (p : α → Bool) (stop : α) : ℕ → α → Option (Option α)
  | 0, x => if x = stop then some none else none
  | fuel + 1, x =>
    if x = stop then some none
    else if p x then some (some x)
    else search p stop fuel (L.next x)

/-- A node that a walk returns passes the test. -/
lemma search_spec {p : α → Bool} {stop : α} :
    ∀ {fuel : ℕ} {x y : α}, L.search p stop fuel x = some (some y) → p y = true
  | 0, x, y, h => by
    unfold search at h
    split_ifs at h
    cases h
  | fuel + 1, x, y, h => by
    unfold search at h
    split_ifs at h with hstop hx
    · cases h
    · cases h
      exact hx
    · exact search_spec h

/-- A walk along a chain from `a` to `b` that avoids `b` returns the first node of the
chain that passes the test, or reaches `b`.  The induction is on the chain. -/
lemma search_chain (p : α → Bool) {b : α} :
    ∀ {a : α} {l : List α} {fuel : ℕ}, List.IsChain L.Link (a :: l ++ [b]) → b ∉ l →
      l.length ≤ fuel → L.search p b fuel (L.next a) = some (l.find? p)
  | a, [], fuel, hc, _, _ => by
    have hab : L.next a = b := (List.isChain_pair.mp hc).1
    cases fuel <;> simp [search, hab]
  | _, _ :: _, 0, _, _, hlen => absurd hlen (by simp)
  | a, y :: l, fuel + 1, hc, hb, hlen => by
    obtain ⟨⟨hay, -⟩, hc'⟩ := List.isChain_cons_cons.mp hc
    have hyb : y ≠ b := fun hyb => hb (hyb ▸ List.mem_cons_self)
    have ih := search_chain p hc' (fun hl => hb (List.mem_cons_of_mem y hl))
      (Nat.le_of_succ_le_succ hlen)
    rw [hay]
    by_cases hy : p y = true
    · simp [search, hyb, hy]
    · simp [search, hyb, hy, ih]

/-- On a ring, a walk from `next h` until `h` is the search of `l`, and it ends. -/
theorem search_ring {h : α} {l : List α} (hr : L.Ring h l) (p : α → Bool) {fuel : ℕ}
    (hlen : l.length ≤ fuel) : L.search p h fuel (L.next h) = some (l.find? p) :=
  L.search_chain p hr.1 (List.nodup_cons.mp hr.2).1 hlen

variable {L} in
omit [DecidableEq α] in
/-- Read backwards, a ring is the ring of the reversed list. -/
theorem Ring.flip {h : α} {l : List α} (hr : L.Ring h l) : L.flip.Ring h l.reverse := by
  obtain ⟨hc, hnd⟩ := hr
  refine ⟨?_, ?_⟩
  · have hrev : h :: l.reverse ++ [h] = (h :: l ++ [h]).reverse := by simp
    rw [hrev, List.isChain_reverse]
    exact hc.imp fun u v huv => (L.flip_link).mpr huv
  · rw [List.nodup_cons, List.mem_reverse, List.nodup_reverse]
    exact List.nodup_cons.mp hnd

/-! ## Pointer writes -/

omit [DecidableEq α] in
/-- A chain survives writes to `next` of nodes that start none of its links and to `prev`
of nodes that end none of them. -/
lemma isChain_link_frame {L' : Links α} :
    ∀ {c : List α}, List.IsChain L.Link c → (∀ u ∈ c.dropLast, L'.next u = L.next u) →
      (∀ v ∈ c.tail, L'.prev v = L.prev v) → List.IsChain L'.Link c
  | [], _, _, _ => .nil
  | [_], _, _, _ => .singleton _
  | u :: v :: c, hc, hnext, hprev => by
    obtain ⟨⟨huv, hvu⟩, hc'⟩ := List.isChain_cons_cons.mp hc
    refine List.isChain_cons_cons.mpr ⟨⟨?_, ?_⟩, isChain_link_frame hc' ?_ ?_⟩
    · rw [hnext u (by simp), huv]
    · rw [hprev v List.mem_cons_self, hvu]
    · intro w hw
      exact hnext w (by simp [hw])
    · intro w hw
      exact hprev w (List.mem_cons_of_mem v hw)

/-- Insert `x` right after `h`: "x->next = h->next; x->prev = h; h->next->prev = x;
h->next = x", each write seeing the ones before. -/
def pushFront (h x : α) : Links α :=
  let L₁ : Links α := { L with next := Function.update L.next x (L.next h) }
  let L₂ : Links α := { L₁ with prev := Function.update L₁.prev x h }
  let L₃ : Links α := { L₂ with prev := Function.update L₂.prev (L₂.next h) x }
  { L₃ with next := Function.update L₃.next h x }

lemma pushFront_next (h x y : α) :
    (L.pushFront h x).next y = if y = h then x else if y = x then L.next h else L.next y := by
  simp only [pushFront, Function.update_apply]

lemma pushFront_prev {h x : α} (hxh : x ≠ h) (y : α) :
    (L.pushFront h x).prev y = if y = L.next h then x else if y = x then h else L.prev y := by
  simp only [pushFront, Function.update_apply, if_neg hxh.symm]

variable {L} in
/-- Inserting a node that is not in the ring right after `h` makes it the first node. -/
theorem Ring.pushFront {h x : α} {l : List α} (hr : L.Ring h l) (hx : x ∉ h :: l) :
    (L.pushFront h x).Ring h (x :: l) := by
  obtain ⟨hc, hnd⟩ := hr
  have hxh : x ≠ h := fun e => hx (e ▸ List.mem_cons_self)
  have hxl : x ∉ l := fun hl => hx (List.mem_cons_of_mem h hl)
  have hhl : h ∉ l := (List.nodup_cons.mp hnd).1
  -- the node after `h` is the first of `l ++ [h]`, which has more after it
  obtain ⟨n, B, hnB⟩ : ∃ n B, l ++ [h] = n :: B := by
    cases l with
    | nil => exact ⟨h, [], rfl⟩
    | cons y l => exact ⟨y, l ++ [h], rfl⟩
  rw [List.cons_append, hnB] at hc
  obtain ⟨⟨hhn, -⟩, hcB⟩ := List.isChain_cons_cons.mp hc
  have hnx : n ≠ x := by
    intro e
    have : n ∈ l ++ [h] := hnB ▸ List.mem_cons_self
    rw [e] at this
    simp [hxl, hxh] at this
  have hnodupB : (l ++ [h]).Nodup := by
    rw [List.nodup_append]
    refine ⟨(List.nodup_cons.mp hnd).2, List.nodup_singleton h, ?_⟩
    intro a ha b hb e
    rw [List.mem_singleton] at hb
    exact hhl (hb ▸ e ▸ ha)
  rw [hnB] at hnodupB
  have hnB' : n ∉ B := (List.nodup_cons.mp hnodupB).1
  have hdrop : (n :: B).dropLast = l := by rw [← hnB, List.dropLast_concat]
  have hhx : h ∉ x :: l := by
    rw [List.mem_cons, not_or]
    exact ⟨hxh.symm, hhl⟩
  refine ⟨?_, List.nodup_cons.mpr ⟨hhx, List.nodup_cons.mpr ⟨hxl, (List.nodup_cons.mp hnd).2⟩⟩⟩
  show List.IsChain (L.pushFront h x).Link (h :: x :: (l ++ [h]))
  rw [hnB]
  refine List.isChain_cons_cons.mpr ⟨⟨?_, ?_⟩, List.isChain_cons_cons.mpr ⟨⟨?_, ?_⟩, ?_⟩⟩
  · simp [L.pushFront_next]
  · simp [L.pushFront_prev hxh, hhn, hnx.symm]
  · simp [L.pushFront_next, hxh, hhn]
  · simp [L.pushFront_prev hxh, hhn]
  · refine L.isChain_link_frame hcB (fun u hu => ?_) (fun v hv => ?_)
    · rw [hdrop] at hu
      have huh : u ≠ h := fun e => hhl (e ▸ hu)
      have hux : u ≠ x := fun e => hxl (e ▸ hu)
      simp [L.pushFront_next, huh, hux]
    · have hvx : v ≠ x := by
        intro e
        have : v ∈ l ++ [h] := hnB ▸ List.mem_cons_of_mem n hv
        rw [e] at this
        simp [hxl, hxh] at this
      have hvn : v ≠ n := fun e => hnB' (e ▸ hv)
      simp [L.pushFront_prev hxh, hhn, hvn, hvx]

/-- Take `x` out: "x->next->prev = x->prev; x->prev->next = x->next", the second write
seeing the first. -/
def unlink (x : α) : Links α :=
  let L₁ : Links α := { L with prev := Function.update L.prev (L.next x) (L.prev x) }
  { L₁ with next := Function.update L₁.next (L₁.prev x) (L₁.next x) }

lemma unlink_prev (x y : α) :
    (L.unlink x).prev y = if y = L.next x then L.prev x else L.prev y := by
  simp only [unlink, Function.update_apply]

lemma unlink_next {x : α} (hx : L.next x ≠ x) (y : α) :
    (L.unlink x).next y = if y = L.prev x then L.next x else L.next y := by
  simp only [unlink, Function.update_apply, if_neg hx.symm]

variable {L} in
/-- Taking a node out of the ring leaves the ring of the other nodes. -/
theorem Ring.unlink {h x : α} {l₁ l₂ : List α} (hr : L.Ring h (l₁ ++ x :: l₂)) :
    (L.unlink x).Ring h (l₁ ++ l₂) := by
  obtain ⟨hc, hnd⟩ := hr
  have hnd' := hnd
  simp only [List.nodup_cons, List.nodup_append, List.mem_append, List.mem_cons, not_or] at hnd'
  obtain ⟨⟨hhl₁, hhx, hhl₂⟩, hl₁, ⟨hxl₂, hl₂⟩, hdisj⟩ := hnd'
  -- the ring is `A ++ [p, x, n] ++ B`, with `p` before and `n` after `x`
  obtain ⟨A, p, hP⟩ : ∃ A p, h :: l₁ = A ++ [p] :=
    ⟨(h :: l₁).dropLast, (h :: l₁).getLast (List.cons_ne_nil h l₁),
      (List.dropLast_append_getLast (List.cons_ne_nil h l₁)).symm⟩
  obtain ⟨n, B, hQ⟩ : ∃ n B, l₂ ++ [h] = n :: B := by
    cases l₂ with
    | nil => exact ⟨h, [], rfl⟩
    | cons y l => exact ⟨y, l ++ [h], rfl⟩
  have hsplit : h :: (l₁ ++ x :: l₂) ++ [h] = (h :: l₁) ++ x :: (l₂ ++ [h]) := by simp
  have hsplit' : h :: (l₁ ++ l₂) ++ [h] = A ++ p :: n :: B := by
    have : h :: (l₁ ++ l₂) ++ [h] = (h :: l₁) ++ (l₂ ++ [h]) := by simp
    rw [this, hP, hQ]
    simp
  rw [hsplit, hP, hQ, List.append_assoc, List.singleton_append, List.isChain_append_cons_cons,
    List.isChain_cons_cons] at hc
  obtain ⟨hcA, ⟨-, hxp⟩, ⟨hxn, -⟩, hcB⟩ := hc
  -- which nodes `p` and `n` can be
  have hpP : p ∈ h :: l₁ := hP ▸ List.mem_append_right A (List.mem_singleton_self p)
  have hnQ : n ∈ l₂ ++ [h] := hQ ▸ List.mem_cons_self
  have hpx : p ≠ x := by
    rintro rfl
    simp only [List.mem_cons] at hpP
    rcases hpP with e | e
    · exact hhx e.symm
    · exact hdisj p e p (Or.inl rfl) rfl
  have hnx : n ≠ x := by
    rintro rfl
    simp only [List.mem_append, List.mem_singleton] at hnQ
    rcases hnQ with e | e
    · exact hxl₂ e
    · exact hhx e.symm
  have hA : ∀ u ∈ A, u ≠ p := by
    have hPnd : (A ++ [p]).Nodup := hP ▸ List.nodup_cons.mpr ⟨hhl₁, hl₁⟩
    intro u hu e
    exact (List.nodup_append.mp hPnd).2.2 u hu p (List.mem_singleton_self p) e
  have hl₁n : ∀ v ∈ l₁, v ≠ n := by
    intro v hv e
    simp only [List.mem_append, List.mem_singleton] at hnQ
    rcases hnQ with hn | hn
    · exact hdisj v hv n (Or.inr hn) e
    · exact hhl₁ (hn ▸ e ▸ hv)
  have hl₂p : ∀ u ∈ l₂, u ≠ p := by
    intro u hu e
    simp only [List.mem_cons] at hpP
    rcases hpP with hp | hp
    · exact hhl₂ (hp ▸ e ▸ hu)
    · exact hdisj p hp u (Or.inr hu) e.symm
  have hB : n ∉ B := by
    have hQnd : (n :: B).Nodup := by
      rw [← hQ, List.nodup_append]
      simpa using ⟨hl₂, fun a ha e => hhl₂ (e ▸ ha)⟩
    exact (List.nodup_cons.mp hQnd).1
  have hnext := L.unlink_next (x := x) (by rw [hxn]; exact hnx)
  refine ⟨?_, ?_⟩
  · rw [hsplit', List.isChain_append_cons_cons]
    refine ⟨L.isChain_link_frame hcA (fun u hu => ?_) (fun v hv => ?_), ⟨?_, ?_⟩,
      L.isChain_link_frame hcB (fun u hu => ?_) (fun v hv => ?_)⟩
    · rw [List.dropLast_concat] at hu
      rw [hnext, hxp, if_neg (hA u hu)]
    · have hv' : v ∈ l₁ := by rw [← hP] at hv; exact hv
      rw [unlink_prev, hxn, if_neg (hl₁n v hv')]
    · rw [hnext, hxp, if_pos rfl, hxn]
    · rw [unlink_prev, hxn, if_pos rfl, hxp]
    · have hu' : u ∈ l₂ := by rw [← hQ, List.dropLast_concat] at hu; exact hu
      rw [hnext, hxp, if_neg (hl₂p u hu')]
    · have hvn : v ≠ n := fun e => hB (e ▸ hv)
      rw [unlink_prev, hxn, if_neg hvn]
  · exact hnd.sublist (List.Sublist.cons_cons h
      (List.Sublist.append_left (List.sublist_cons_self x l₂) l₁))

/-- Move `x` to the front: take it out, then insert it right after `h`. -/
def moveFront (h x : α) : Links α := (L.unlink x).pushFront h x

variable {L} in
/-- Moving a node of the ring to the front keeps the ring, with the node first. -/
theorem Ring.moveFront {h x : α} {l₁ l₂ : List α} (hr : L.Ring h (l₁ ++ x :: l₂)) :
    (L.moveFront h x).Ring h (x :: (l₁ ++ l₂)) := by
  have hx : x ∉ h :: (l₁ ++ l₂) := by
    have hnd := hr.2
    simp only [List.nodup_cons, List.nodup_append, List.mem_append, List.mem_cons, not_or]
      at hnd
    obtain ⟨⟨-, hhx, -⟩, -, ⟨hxl₂, -⟩, hdisj⟩ := hnd
    simp only [List.mem_cons, List.mem_append, not_or]
    exact ⟨Ne.symm hhx, fun hx => hdisj x hx x (Or.inl rfl) rfl, hxl₂⟩
  exact hr.unlink.pushFront hx

/-- Inserting the nodes `xs` one after the other right after `h` puts them in front, the
last one first.  The induction is on `xs`, with the ring that the inserts so far leave. -/
theorem Ring.pushFront_foldl {h : α} :
    ∀ {L : Links α} {l xs : List α}, L.Ring h l → xs.Nodup → (∀ x ∈ xs, x ∉ h :: l) →
      (xs.foldl (fun L x => L.pushFront h x) L).Ring h (xs.reverse ++ l)
  | _, _, [], hr, _, _ => hr
  | L, l, x :: xs, hr, hnd, hout => by
    obtain ⟨hxs, hnd'⟩ := List.nodup_cons.mp hnd
    have hr' := hr.pushFront (hout x List.mem_cons_self)
    have hout' : ∀ y ∈ xs, y ∉ h :: x :: l := by
      intro y hy
      rw [List.mem_cons, not_or]
      refine ⟨fun e => (hout y (List.mem_cons_of_mem x hy)) (e ▸ List.mem_cons_self), ?_⟩
      rw [List.mem_cons, not_or]
      exact ⟨fun e => hxs (e ▸ hy), fun hl => hout y (List.mem_cons_of_mem x hy)
        (List.mem_cons_of_mem h hl)⟩
    rw [List.foldl_cons, List.reverse_cons, List.append_assoc, List.singleton_append]
    exact Ring.pushFront_foldl hr' hnd' hout'

end Links

end DList
