import Mathlib.Data.Nat.Bitwise
import Mathlib.Tactic.NormNum

/-!
# Bit masks on fixed-width words

Addresses and table entries are cut up with masks: `x & ~(2^k - 1)` clears the low `k`
bits, `x & (2^k - 1)` keeps them, and `a | f`, with `a` a multiple of `2^k` and `f` below
`2^k`, packs a field into the low bits of `a`.  The lemmas below read each mask as
division, remainder or addition on the word's natural number, where `omega` can finish.
-/

namespace Mask

variable {w : ℕ}

/-- Clearing the low `k` bits rounds down to a multiple of `2^k`. -/
theorem toNat_and_allOnes_shiftLeft (x : BitVec w) (k : ℕ) :
    (x &&& BitVec.allOnes w <<< k).toNat = x.toNat / 2 ^ k * 2 ^ k := by
  rw [← BitVec.shiftLeft_ushiftRight, BitVec.toNat_shiftLeft, BitVec.toNat_ushiftRight,
    Nat.shiftLeft_eq, Nat.shiftRight_eq_div_pow]
  exact Nat.mod_eq_of_lt (lt_of_le_of_lt (Nat.div_mul_le_self _ _) x.isLt)

/-- Keeping the low `k` bits is the remainder modulo `2^k`. -/
theorem toNat_and_ofNat_two_pow_sub_one (x : BitVec w) {k : ℕ} (hk : k ≤ w) :
    (x &&& BitVec.ofNat w (2 ^ k - 1)).toNat = x.toNat % 2 ^ k := by
  have hle : 2 ^ k ≤ 2 ^ w := Nat.pow_le_pow_right (by norm_num) hk
  have hpos : 0 < 2 ^ k := Nat.two_pow_pos k
  rw [BitVec.toNat_and, BitVec.toNat_ofNat, Nat.mod_eq_of_lt (by omega),
    Nat.and_two_pow_sub_one_eq_mod]

/-- Or-ing a field below `2^k` into a multiple of `2^k` adds it. -/
theorem toNat_or_of_mod_eq_zero {a b : BitVec w} {k : ℕ} (ha : a.toNat % 2 ^ k = 0)
    (hb : b.toNat < 2 ^ k) : (a ||| b).toNat = a.toNat + b.toNat := by
  obtain ⟨q, hq⟩ : ∃ q, a.toNat = 2 ^ k * q :=
    ⟨a.toNat / 2 ^ k, by have := Nat.div_add_mod a.toNat (2 ^ k); omega⟩
  rw [BitVec.toNat_or, hq, ← Nat.two_pow_add_eq_or_of_lt hb]

end Mask
