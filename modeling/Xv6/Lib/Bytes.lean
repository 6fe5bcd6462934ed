import Mathlib.Data.Nat.Bitwise
import Mathlib.Tactic.NormNum

/-!
# Bits and words in byte arrays

A block of a disk is an array of bytes, and the code reads it two ways: bit by bit, as a
bitmap, with `data[bi/8] & (1 << (bi % 8))`, and word by word, as an array of `uint`s in
the little-endian order of the x86.  The lemmas below say what a write of one bit or one
word does to the other bits and words.

* `and_mask_or_mask_self` and `and_mask_or_mask_of_ne`: setting a bit of a byte changes
  that bit only;
* `getU32_setU32_self` and `getU32_setU32_of_disjoint`: storing a word changes that word
  only.
-/

namespace Bytes

/-! ## Bits of a byte -/

/-- `1 << (k % 8)`, the mask of bit `k % 8` of a byte. -/
def mask (k : ℕ) : UInt8 := 1 <<< (k % 8).toUInt8

private theorem getElem_one_shiftLeft {w : ℕ} (k : ℕ) {i : ℕ} (hi : i < w) :
    (1#w <<< k)[i] = decide (i = k) := by
  simp only [BitVec.getElem_shiftLeft, BitVec.getElem_one]
  by_cases h : i = k <;> by_cases h' : i < k <;> simp [h, h']
  omega

lemma toBitVec_mask (k : ℕ) : (mask k).toBitVec = 1#8 <<< (k % 8) := by
  rw [mask, UInt8.toBitVec_shiftLeft, UInt8.toBitVec_one, BitVec.shiftLeft_eq']
  congr 1
  rw [BitVec.toNat_umod, UInt8.toNat_toBitVec, Nat.toUInt8, UInt8.toNat_ofNat']
  have h8 : (8 : BitVec 8).toNat = 8 := rfl
  rw [h8]
  omega

/-- A bit that is set tests as set. -/
theorem and_mask_or_mask_self (x : UInt8) (k : ℕ) : (x ||| mask k) &&& mask k ≠ 0 := by
  intro h
  have hk : k % 8 < 8 := Nat.mod_lt k (by norm_num)
  have hbit := congrArg (fun v : UInt8 => v.toBitVec[k % 8]) h
  simp [toBitVec_mask, BitVec.getElem_and, BitVec.getElem_or, getElem_one_shiftLeft _ hk] at hbit

/-- Setting a bit leaves the other bits of the byte. -/
theorem and_mask_or_mask_of_ne (x : UInt8) {k j : ℕ} (hkj : k % 8 ≠ j % 8) :
    (x ||| mask k) &&& mask j = x &&& mask j := by
  apply UInt8.toBitVec_inj.mp
  simp only [UInt8.toBitVec_and, UInt8.toBitVec_or, toBitVec_mask]
  ext i hi
  simp only [BitVec.getElem_and, BitVec.getElem_or, getElem_one_shiftLeft _ hi]
  by_cases h : i = j % 8 <;> by_cases h2 : i = k % 8 <;> simp_all

/-! ## Little-endian words -/

variable {n : ℕ} [NeZero n]

/-- The little-endian `uint` at bytes `i .. i + 3`. -/
def getU32 (data : Fin n → UInt8) (i : ℕ) : UInt32 :=
  UInt32.ofNat ((data (Fin.ofNat n i)).toNat + 2 ^ 8 * (data (Fin.ofNat n (i + 1))).toNat +
    2 ^ 16 * (data (Fin.ofNat n (i + 2))).toNat + 2 ^ 24 * (data (Fin.ofNat n (i + 3))).toNat)

/-- `v` stored little-endian at bytes `i .. i + 3`. -/
def setU32 (data : Fin n → UInt8) (i : ℕ) (v : UInt32) : Fin n → UInt8 := fun a =>
  if a.val = i then UInt8.ofNat v.toNat
  else if a.val = i + 1 then UInt8.ofNat (v.toNat / 2 ^ 8)
  else if a.val = i + 2 then UInt8.ofNat (v.toNat / 2 ^ 16)
  else if a.val = i + 3 then UInt8.ofNat (v.toNat / 2 ^ 24)
  else data a

lemma val_ofNat_of_lt {m : ℕ} (hm : m < n) : (Fin.ofNat n m).val = m := by
  rw [Fin.val_ofNat, Nat.mod_eq_of_lt hm]

/-- A word of zero bytes is zero. -/
theorem getU32_zero (i : ℕ) : getU32 (fun _ : Fin n => (0 : UInt8)) i = 0 := rfl

/-- A stored word reads back. -/
theorem getU32_setU32_self (data : Fin n → UInt8) {i : ℕ} (hi : i + 4 ≤ n) (v : UInt32) :
    getU32 (setU32 data i v) i = v := by
  have hv := v.toNat_lt
  unfold getU32 setU32
  simp only [val_ofNat_of_lt (show i < n by omega), val_ofNat_of_lt (show i + 1 < n by omega),
    val_ofNat_of_lt (show i + 2 < n by omega), val_ofNat_of_lt (show i + 3 < n by omega),
    show i + 1 ≠ i by omega, show i + 2 ≠ i by omega, show i + 2 ≠ i + 1 by omega,
    show i + 3 ≠ i by omega, show i + 3 ≠ i + 1 by omega, show i + 3 ≠ i + 2 by omega,
    ↓reduceIte, UInt8.toNat_ofNat']
  apply UInt32.toNat_inj.mp
  rw [UInt32.toNat_ofNat']
  omega

omit [NeZero n] in
lemma setU32_apply_of_lt_or_le (data : Fin n → UInt8) {i : ℕ} (v : UInt32) {a : Fin n}
    (ha : a.val < i ∨ i + 4 ≤ a.val) : setU32 data i v a = data a := by
  unfold setU32
  rw [if_neg (by omega), if_neg (by omega), if_neg (by omega), if_neg (by omega)]

/-- Storing a word leaves the words that do not overlap it. -/
theorem getU32_setU32_of_disjoint (data : Fin n → UInt8) {i j : ℕ} (hij : i + 4 ≤ j ∨ j + 4 ≤ i)
    (hj : j + 4 ≤ n) (v : UInt32) : getU32 (setU32 data i v) j = getU32 data j := by
  unfold getU32
  rw [setU32_apply_of_lt_or_le data v (by rw [val_ofNat_of_lt (by omega)]; omega),
    setU32_apply_of_lt_or_le data v (by rw [val_ofNat_of_lt (by omega)]; omega),
    setU32_apply_of_lt_or_le data v (by rw [val_ofNat_of_lt (by omega)]; omega),
    setU32_apply_of_lt_or_le data v (by rw [val_ofNat_of_lt (by omega)]; omega)]

end Bytes
