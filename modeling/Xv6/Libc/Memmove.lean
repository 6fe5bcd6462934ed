import Mathlib.Logic.Function.Basic
import Mathlib.Order.Basic

/-!
# memmove (string.c, ulib.c)

The kernel and the user library each have a `memmove`.  The kernel's copies backwards when
the destination starts inside the source (`s < d && s + n > d`) and forwards otherwise; the
user library's always copies forwards.  Both forward loops are the same loop,
`copyForward`.

Memory is a map from addresses to bytes.  Addresses are natural numbers: a buffer of `n`
bytes at `p` is `[p, p + n)`, and a buffer lies below `2^32`, so that the pointer sums and
comparisons of the code never wrap.

* `memmove_eq_moved`: the kernel's `memmove` leaves `moved dst src n m`, the destination
  holding the source as it was and every other byte unchanged, however the two overlap;
* `Ulib.memmove_eq_moved_of_not_inside`: so does the user library's, unless the destination starts
  inside the source;
* `Ulib.memmove_of_lt`: when it does, the destination receives the first `dst - src` bytes
  of the source over and over.
-/

namespace Xv6

/-- What a move of `n` bytes from `src` to `dst` is for: the destination range holds the
source range as it was, and every other byte is unchanged. -/
def moved (dst src n : ℕ) (m : ℕ → UInt8) : ℕ → UInt8 := fun a =>
  if dst ≤ a ∧ a < dst + n then m (src + (a - dst)) else m a

/-- `while(n-- > 0) *d++ = *s++;`: `n` passes up from `d` and `s`. -/
def copyForward : ℕ → ℕ → ℕ → (ℕ → UInt8) → ℕ → UInt8
  | 0, _, _, m => m
  | n + 1, d, s, m => copyForward n (d + 1) (s + 1) (Function.update m d (m s))

/-- `while(n-- > 0) *--d = *--s;`: `n` passes down from `d` and `s`. -/
def copyBackward : ℕ → ℕ → ℕ → (ℕ → UInt8) → ℕ → UInt8
  | 0, _, _, m => m
  | n + 1, d, s, m => copyBackward n (d - 1) (s - 1) (Function.update m (d - 1) (m (s - 1)))

/-- The kernel's `memmove(dst, src, n)` (string.c): the memory it leaves. -/
def memmove (dst src n : ℕ) (m : ℕ → UInt8) : ℕ → UInt8 :=
  if src < dst ∧ src + n > dst then copyBackward n (dst + n) (src + n) m
  else copyForward n dst src m

namespace Ulib

/-- The user library's `memmove(vdst, vsrc, n)` (ulib.c), whose count is an `int`: the
loop `while(n-- > 0)` makes no pass for `n <= 0`. -/
def memmove (vdst vsrc : ℕ) (n : Int32) (m : ℕ → UInt8) : ℕ → UInt8 :=
  copyForward n.toInt.toNat vdst vsrc m

end Ulib

/-! ## The two loops -/

/-- The last pass of the forward loop is a store at `d + n` of what the earlier passes left
at `s + n`. -/
lemma copyForward_succ (n d s : ℕ) (m : ℕ → UInt8) :
    copyForward (n + 1) d s m =
      Function.update (copyForward n d s m) (d + n) (copyForward n d s m (s + n)) := by
  induction n generalizing d s m with
  | zero => rfl
  | succ n ih =>
    rw [copyForward, ih, copyForward, Nat.add_right_comm d 1 n, Nat.add_right_comm s 1 n]
    rfl

/-- Growing the range of `moved` by one byte at its end is a store of the source byte. -/
lemma moved_succ (dst src n : ℕ) (m : ℕ → UInt8) :
    moved dst src (n + 1) m = Function.update (moved dst src n m) (dst + n) (m (src + n)) := by
  funext a
  by_cases ha : a = dst + n
  · subst ha
    simp [moved]
  · rw [Function.update_of_ne ha]
    simp only [moved]
    congr 1
    apply propext
    omega

/-- The forward loop moves right when the destination does not start inside the source:
a byte of the source is read before any pass has stored over it. -/
theorem copyForward_eq_moved {n d s : ℕ} (h : d ≤ s ∨ s + n ≤ d) (m : ℕ → UInt8) :
    copyForward n d s m = moved d s n m := by
  induction n with
  | zero =>
    funext a
    simp only [copyForward, moved]
    split_ifs <;> first | rfl | omega
  | succ n ih =>
    rw [copyForward_succ, ih (by omega), moved_succ]
    -- the byte at `s + n` is outside the range the first `n` passes wrote
    have hout : ¬(d ≤ s + n ∧ s + n < d + n) := by omega
    simp only [moved, hout, if_false]

/-- Under a forward overlap (`s < d`), pass `k` of the forward loop reads what pass
`k - (d - s)` stored, so the destination repeats the first `d - s` source bytes. -/
theorem copyForward_of_lt {n d s : ℕ} (h : s < d) (m : ℕ → UInt8) :
    copyForward n d s m = fun a =>
      if d ≤ a ∧ a < d + n then m (s + (a - d) % (d - s)) else m a := by
  induction n with
  | zero =>
    funext a
    simp only [copyForward]
    split_ifs <;> first | rfl | omega
  | succ n ih =>
    rw [copyForward_succ, ih]
    -- what the last pass reads at `s + n`: a byte it stored itself once `s + n >= d`
    have hread : (if d ≤ s + n ∧ s + n < d + n then m (s + (s + n - d) % (d - s))
        else m (s + n)) = m (s + n % (d - s)) := by
      by_cases hsn : d ≤ s + n
      · rw [if_pos ⟨hsn, by omega⟩, show s + n - d = n - (d - s) by omega,
          ← Nat.mod_eq_sub_mod (by omega)]
      · rw [if_neg (by omega), Nat.mod_eq_of_lt (by omega)]
    dsimp only
    rw [hread]
    funext a
    by_cases ha : a = d + n
    · subst ha
      simp
    · rw [Function.update_of_ne ha]
      congr 1
      apply propext
      omega

/-- The backward loop, started one past the end of both ranges, moves right when the
destination does not lie below the source. -/
theorem copyBackward_eq_moved {d s : ℕ} (h : s ≤ d) (n : ℕ) (m : ℕ → UInt8) :
    copyBackward n (d + n) (s + n) m = moved d s n m := by
  induction n generalizing m with
  | zero =>
    funext a
    simp only [copyBackward, moved]
    split_ifs <;> first | rfl | omega
  | succ n ih =>
    rw [copyBackward, show d + (n + 1) - 1 = d + n by omega,
      show s + (n + 1) - 1 = s + n by omega, ih]
    funext a
    simp only [moved]
    by_cases ha : d ≤ a ∧ a < d + n
    · -- a byte below the top: its source byte lies below `d + n`, where the pass stored
      rw [if_pos ha, if_pos ⟨ha.1, by omega⟩, Function.update_of_ne (by omega)]
    · rw [if_neg ha]
      by_cases htop : a = d + n
      · subst htop
        rw [Function.update_self, if_pos ⟨by omega, by omega⟩, Nat.add_sub_cancel_left]
      · rw [Function.update_of_ne htop, if_neg (by omega)]

/-! ## The two `memmove`s -/

/-- The kernel's `memmove` moves right for every source, destination and count: the
destination holds the source as it was, and nothing else changes. -/
theorem memmove_eq_moved (dst src n : ℕ) (m : ℕ → UInt8) :
    memmove dst src n m = moved dst src n m := by
  unfold memmove
  split_ifs with hback
  · exact copyBackward_eq_moved (Nat.le_of_lt hback.1) n m
  · exact copyForward_eq_moved (by omega) m

namespace Ulib

/-- The user library's `memmove` moves right unless the destination starts inside the
source. -/
theorem memmove_eq_moved_of_not_inside {vdst vsrc : ℕ} {n : Int32}
    (h : ¬(vsrc < vdst ∧ vdst < vsrc + n.toInt.toNat)) (m : ℕ → UInt8) :
    memmove vdst vsrc n m = moved vdst vsrc n.toInt.toNat m :=
  copyForward_eq_moved (by omega) m

/-- When the destination lies above the source, the user library's `memmove` fills it with
the first `vdst - vsrc` bytes of the source, again and again. -/
theorem memmove_of_lt {vdst vsrc : ℕ} (h : vsrc < vdst) (n : Int32) (m : ℕ → UInt8) :
    memmove vdst vsrc n m = fun a =>
      if vdst ≤ a ∧ a < vdst + n.toInt.toNat then m (vsrc + (a - vdst) % (vdst - vsrc))
      else m a :=
  copyForward_of_lt h m

/-- The bytes `1, 2, 3, ...` from address `0`. -/
def countingMem : ℕ → UInt8 := fun a => (a + 1).toUInt8

/-- `memmove(buf + 1, buf, 2)` over the bytes `1, 2, 3` at `buf = 0`: the destination ends
up holding `1, 1`, where the source held `1, 2`. -/
theorem memmove_forward_overlap_repeats :
    (List.range 2).map (fun i => memmove 1 0 2 countingMem (1 + i)) = [1, 1] ∧
      (List.range 2).map (fun i => countingMem (0 + i)) = [1, 2] := by
  decide

end Ulib

end Xv6
