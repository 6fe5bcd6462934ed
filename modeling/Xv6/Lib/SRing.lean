import Mathlib.Data.List.Chain
import Mathlib.Logic.Function.Basic

/-!
# Walks along singly linked chains

Nodes threaded by one `next` pointer.  `List.IsChain (Step next) (x :: l ++ [y])` says that
following `next` from `x` passes the nodes `l`, in order, and comes to `y`; a ring through
`h` is such a chain from `h` back to `h`.  `walk c` is the loop
`for (x = start; !c(x, next(x)); x = next(x));`, whose test may look at the node after `x`.

* `walk_chain`: a walk along a chain whose steps all fail the test reaches the chain's end;
* `isChain_rotate`: a ring read from any of its nodes is a ring;
* `isChain_update`: a write to the `next` of a node off a chain leaves the chain as it was;
* `isChain_split`: two chains that meet at a node are one chain;
* `isChain_link`: pointing a node at the head of a chain that does not pass it joins the two.
-/

namespace SRing

variable {α : Type}

/-- `v` follows `u`. -/
def Step (next : α → α) (u v : α) : Prop := next u = v

instance [DecidableEq α] (next : α → α) (u v : α) : Decidable (Step next u v) :=
  inferInstanceAs (Decidable (next u = v))

/-- `for (x = start; !c(x, next(x)); x = next(x));` for at most `fuel` nodes: the node it stops
at, or `none` while it is still walking. -/
def walk (next : α → α) (c : α → α → Bool) : ℕ → α → Option α
  | 0, _ => none
  | n + 1, x => if c x (next x) then some x else walk next c n (next x)

variable {next : α → α}

/-- A walk stops at a node that passes the test. -/
lemma walk_stop {c : α → α → Bool} {x : α} (n : ℕ) (h : c x (next x) = true) :
    walk next c (n + 1) x = some x := by
  simp [walk, h]

/-- A walk along a chain whose steps all fail the test reaches the chain's end, one pass for
each node it leaves.  The induction is on the nodes between the ends. -/
lemma walk_chain (c : α → α → Bool) :
    ∀ {x y : α} {l : List α} (n : ℕ), List.IsChain (Step next) (x :: l ++ [y]) →
      List.IsChain (fun u v => c u v = false) (x :: l ++ [y]) →
        walk next c (n + l.length + 1) x = walk next c n y
  | x, y, [], n, hs, hc => by
    have hxy : Step next x y := List.isChain_pair.mp hs
    have hfail : c x y = false := (@List.isChain_pair α (fun u v => c u v = false) x y).mp hc
    simp only [walk] at hxy hfail ⊢
    rw [Step] at hxy
    rw [hxy, hfail]
    rfl
  | x, y, z :: l, n, hs, hc => by
    obtain ⟨hxz, hs'⟩ := List.isChain_cons_cons.mp hs
    obtain ⟨hfail, hc'⟩ := List.isChain_cons_cons.mp hc
    have ih := walk_chain c n hs' hc'
    rw [List.length_cons, ← Nat.add_assoc, walk, hxz, hfail]
    exact ih

/-- Two chains that meet at `y` are one chain. -/
lemma isChain_split {R : α → α → Prop} {y : α} :
    ∀ {l₁ l₂ : List α}, List.IsChain R (l₁ ++ y :: l₂) ↔
      List.IsChain R (l₁ ++ [y]) ∧ List.IsChain R (y :: l₂)
  | [], l₂ => by simp
  | [a], l₂ => by simp [List.isChain_cons_cons]
  | a :: b :: l₁, l₂ => by
    have ih := @isChain_split R y (b :: l₁) l₂
    simp only [List.cons_append, List.isChain_cons_cons] at ih ⊢
    rw [ih, and_assoc]

/-- A ring read from any of its nodes is a ring. -/
lemma isChain_rotate {R : α → α → Prop} {x y : α} {l₁ l₂ : List α}
    (h : List.IsChain R (x :: l₁ ++ y :: l₂ ++ [x])) :
    List.IsChain R (y :: l₂ ++ x :: l₁ ++ [y]) := by
  rw [show x :: l₁ ++ y :: l₂ ++ [x] = (x :: l₁) ++ y :: (l₂ ++ [x]) by simp,
    isChain_split] at h
  rw [show y :: l₂ ++ x :: l₁ ++ [y] = (y :: l₂) ++ x :: (l₁ ++ [y]) by simp, isChain_split]
  exact ⟨h.2, h.1⟩

/-- A write to the `next` of a node off a chain leaves the chain as it was; the chain's last
node may be the one written. -/
lemma isChain_update [DecidableEq α] {a v y : α} :
    ∀ {l : List α}, List.IsChain (Step next) (l ++ [y]) → a ∉ l →
      List.IsChain (Step (Function.update next a v)) (l ++ [y])
  | [], _, _ => List.isChain_singleton y
  | u :: l, h, ha => by
    rw [List.cons_append, List.isChain_cons] at h ⊢
    have hua : u ≠ a := fun hu => ha (hu ▸ List.mem_cons_self)
    refine ⟨fun w hw => ?_, isChain_update h.2 (fun hl => ha (List.mem_cons_of_mem u hl))⟩
    show Function.update next a v u = w
    rw [Function.update_of_ne hua]
    exact h.1 w hw

/-- On a chain, the node after one that the chain leaves is on the chain. -/
lemma next_mem_of_isChain {y : α} :
    ∀ {l : List α} {u : α}, List.IsChain (Step next) (l ++ [y]) → u ∈ l → next u ∈ l ++ [y]
  | [], _, _, hu => absurd hu List.not_mem_nil
  | w :: l, u, h, hu => by
    rw [List.cons_append, List.isChain_cons] at h
    rcases List.mem_cons.mp hu with rfl | hu
    · -- the node after `w` heads the rest of the chain
      cases l with
      | nil => exact List.mem_cons_of_mem _ (List.mem_singleton.mpr (h.1 y rfl))
      | cons z l => exact List.mem_cons_of_mem _ (by rw [h.1 z rfl]; exact List.mem_cons_self)
    · exact List.mem_cons_of_mem w (next_mem_of_isChain h.2 hu)

/-- The node after the head of a chain is the head of its rest. -/
lemma head_eq_next {x y : α} {l : List α} (h : List.IsChain (Step next) (x :: (l ++ [y]))) :
    (l ++ [y]).head? = some (next x) := by
  cases l with
  | nil =>
    have hxy : Step next x y := (@List.isChain_pair _ (Step next) x y).mp h
    simp [hxy.symm]
  | cons z l =>
    have hxz : Step next x z := (List.isChain_cons_cons.mp h).1
    simp [hxz.symm]

/-- Pointing `p`, the end of one chain, at the head `w` of another that does not pass `p`
joins the two into one chain. -/
lemma isChain_link [DecidableEq α] {p w y : α} {X Y : List α}
    (h₁ : List.IsChain (Step next) (X ++ [p])) (h₂ : List.IsChain (Step next) (Y ++ [y]))
    (hw : (Y ++ [y]).head? = some w) (hX : p ∉ X) (hY : p ∉ Y) :
    List.IsChain (Step (Function.update next p w)) (X ++ p :: (Y ++ [y])) := by
  rw [isChain_split, List.isChain_cons, hw]
  refine ⟨isChain_update h₁ hX, fun v hv => ?_, isChain_update h₂ hY⟩
  rw [Option.mem_some_iff] at hv
  subst hv
  exact Function.update_self p w next

end SRing
