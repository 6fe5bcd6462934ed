import Mathlib.Data.Nat.ModEq

/-!
# Ring buffers with free-running counters

A buffer of `cap` cells holds the items whose counters lie between a read counter and a
write counter, and the item with counter `x` sits in cell `x % cap`.  The counters only
grow, or wrap around a modulus `M` that `cap` divides, which leaves every item in its cell.

`view data r n` is the list of the `n` items from counter `r` on: the queue that the buffer
stands for.  The main results are

* `view_push`: a store at the write counter of a buffer with room adds an item at the end of
  the queue;
* `view_pop`: a load at the read counter takes the first item of the queue;
* `view_mod`: a counter may be read modulo `M`.
-/

namespace Ring

variable {α : Type} {cap : ℕ} [NeZero cap]

/-- The `n` items of the buffer `data` from counter `r` on. -/
def view (data : Fin cap → α) (r : ℕ) : ℕ → List α
  | 0 => []
  | n + 1 => data (Fin.ofNat cap r) :: view data (r + 1) n

variable (data : Fin cap → α)

@[simp] lemma view_zero (r : ℕ) : view data r 0 = [] := rfl

/-- A load at the read counter takes the first item. -/
lemma view_pop (r n : ℕ) : view data r (n + 1) = data (Fin.ofNat cap r) :: view data (r + 1) n :=
  rfl

@[simp] lemma length_view (r n : ℕ) : (view data r n).length = n := by
  induction n generalizing r with
  | zero => rfl
  | succ n ih => simp [view_pop, ih]

/-- The last item of a queue of `n + 1` has counter `r + n`. -/
lemma view_succ (r n : ℕ) :
    view data r (n + 1) = view data r n ++ [data (Fin.ofNat cap (r + n))] := by
  induction n generalizing r with
  | zero => rfl
  | succ n ih =>
    rw [view_pop, ih (r + 1), view_pop]
    simp only [List.cons_append, Nat.add_right_comm r 1 n, Nat.add_assoc r n 1]

/-- A queue of `a + b` items is its first `a` items and then the `b` from counter `r + a`. -/
lemma view_add (r a b : ℕ) : view data r (a + b) = view data r a ++ view data (r + a) b := by
  induction a generalizing r with
  | zero => rw [Nat.zero_add, Nat.add_zero, view_zero, List.nil_append]
  | succ a ih =>
    rw [Nat.add_right_comm, view_pop, view_pop, ih (r + 1), List.cons_append,
      Nat.add_right_comm r 1 a, Nat.add_assoc r a 1]

/-- Two queues of the same length whose items agree one by one are equal. -/
lemma view_congr {data' : Fin cap → α} {r r' n : ℕ}
    (h : ∀ j < n, data (Fin.ofNat cap (r + j)) = data' (Fin.ofNat cap (r' + j))) :
    view data r n = view data' r' n := by
  induction n generalizing r r' with
  | zero => rfl
  | succ n ih =>
    rw [view_pop, view_pop]
    have hhead := h 0 (Nat.succ_pos n)
    rw [Nat.add_zero, Nat.add_zero] at hhead
    rw [hhead, ih fun j hj => ?_]
    have hj' := h (j + 1) (Nat.succ_lt_succ hj)
    rwa [Nat.add_assoc, Nat.add_comm 1 j, Nat.add_assoc r' 1 j, Nat.add_comm 1 j]

/-- The counters of the items of a queue shorter than `cap`, and the counter after them, are
in different cells. -/
lemma ofNat_add_ne {r j n : ℕ} (hj : j < n) (hn : n < cap) :
    Fin.ofNat cap (r + j) ≠ Fin.ofNat cap (r + n) := by
  intro h
  have hmod : (r + j) % cap = (r + n) % cap := congrArg Fin.val h
  have hjn : j % cap = n % cap := Nat.ModEq.add_left_cancel' r hmod
  rw [Nat.mod_eq_of_lt (hj.trans hn), Nat.mod_eq_of_lt hn] at hjn
  exact absurd hjn (Nat.ne_of_lt hj)

/-- A store at the write counter `r + n` of a buffer with room adds `b` at the end. -/
lemma view_push {r n : ℕ} (hn : n < cap) (b : α) :
    view (Function.update data (Fin.ofNat cap (r + n)) b) r (n + 1) = view data r n ++ [b] := by
  rw [view_succ, Function.update_self]
  congr 1
  refine (view_congr _ fun j hj => ?_).symm
  rw [Function.update_of_ne (ofNat_add_ne hj hn)]

/-- Counters are read modulo any `M` that `cap` divides. -/
lemma view_mod {M : ℕ} (hM : cap ∣ M) (r n : ℕ) : view data (r % M) n = view data r n := by
  refine view_congr data fun j _ => ?_
  have hcell : Fin.ofNat cap (r % M + j) = Fin.ofNat cap (r + j) := by
    apply Fin.ext
    simp only [Fin.val_ofNat]
    rw [Nat.add_mod, Nat.mod_mod_of_dvd r hM, ← Nat.add_mod]
  rw [hcell]

end Ring
