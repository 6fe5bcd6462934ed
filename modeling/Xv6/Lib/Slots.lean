import Mathlib.Data.Fintype.Card
import Mathlib.Data.List.FinRange
import Mathlib.Algebra.BigOperators.Group.Finset.Piecewise

/-!
# Tables of a fixed number of slots

A C array of `n` records is a function `Fin n → α`, and the loops that scan it from
slot `0` upwards are searches over `List.finRange n`: the first slot that passes a test
(a scan that stops at its first hit) and the last one (a scan that keeps overwriting its
answer).  This file defines the two searches, and the number of slots that pass a
test.
-/

namespace Slots

variable {n : ℕ} {α : Type*}

/-- The first slot whose record passes `p`: a scan that breaks at its first hit. -/
def first (t : Fin n → α) (p : α → Bool) : Option (Fin n) :=
  (List.finRange n).find? fun i => p (t i)

/-- The slot a scan stops at passes the test. -/
lemma first_eq_some {t : Fin n → α} {p : α → Bool} {i : Fin n} (h : first t p = some i) :
    p (t i) = true := by
  have hfind : (List.finRange n).find? (fun i => p (t i)) = some i := h
  have hi := List.find?_some hfind
  exact hi

/-- The last slot whose record passes `p`, or `d` if there is none: a scan that
overwrites its answer at each hit. -/
def last (t : Fin n → α) (p : α → Bool) (d : Fin n) : Fin n :=
  (List.finRange n).foldl (fun acc i => if p (t i) then i else acc) d

/-- The number of slots whose record passes `p`. -/
def count (t : Fin n → α) (p : α → Bool) : ℕ :=
  (Finset.univ.filter fun i => p (t i) = true).card

end Slots
