import Xv6.Kernel.Defs
import Mathlib.Tactic.NormNum

/-!
# What the macros of mmu.h compute

Each macro masks a word; read on the word's natural number it rounds down, keeps a
remainder, or adds a field.  These equations are the only place where the proofs look at
bits: everything after them is arithmetic that `omega` closes.
-/

namespace Xv6

section Words

/-- `PGROUNDDOWN` on an unsigned word rounds down to a page boundary. -/
lemma toNat_PGROUNDDOWN (a : UInt32) : (PGROUNDDOWN a).toNat = a.toNat / 4096 * 4096 := by
  have hmask : (~~~(PGSIZE - 1 : UInt32)).toBitVec = BitVec.allOnes 32 <<< 12 := by decide
  have h := Mask.toNat_and_allOnes_shiftLeft a.toBitVec 12
  rw [← hmask, ← UInt32.toBitVec_and] at h
  exact h

/-- `PGROUNDDOWN` on a signed word clears the same bits of its two's complement. -/
lemma toBitVec_PGROUNDDOWN (a : Int32) :
    (PGROUNDDOWN a).toBitVec.toNat = a.toBitVec.toNat / 4096 * 4096 := by
  have hmask : (~~~(PGSIZE - 1 : Int32)).toBitVec = BitVec.allOnes 32 <<< 12 := by decide
  have h := Mask.toNat_and_allOnes_shiftLeft a.toBitVec 12
  rw [← hmask, ← Int32.toBitVec_and] at h
  exact h

/-- `PGROUNDUP` on a signed word always yields a multiple of the page size, whatever
the wrap-around on the way. -/
lemma PGROUNDUP_aligned (a : Int32) : (PGROUNDUP a).toBitVec.toNat % 4096 = 0 := by
  have h := toBitVec_PGROUNDDOWN (a + PGSIZE - 1)
  rw [show PGROUNDUP a = PGROUNDDOWN (a + PGSIZE - 1) from rfl, h]
  exact Nat.mul_mod_left _ _

lemma toNat_PTE_ADDR (x : UInt32) : (PTE_ADDR x).toNat = x.toNat / 4096 * 4096 := by
  have hmask : (~~~(0xFFF : UInt32)).toBitVec = BitVec.allOnes 32 <<< 12 := by decide
  have h := Mask.toNat_and_allOnes_shiftLeft x.toBitVec 12
  rw [← hmask, ← UInt32.toBitVec_and] at h
  exact h

lemma toNat_and_PTE_P (x : UInt32) : (x &&& PTE_P).toNat = x.toNat % 2 := by
  have hmask : (PTE_P).toBitVec = BitVec.ofNat 32 (2 ^ 1 - 1) := by decide
  have h := Mask.toNat_and_ofNat_two_pow_sub_one x.toBitVec (by norm_num : 1 ≤ 32)
  rw [← hmask, ← UInt32.toBitVec_and] at h
  exact h

/-- `*pte &= ~PTE_P` clears the present bit and keeps the rest. -/
lemma toNat_and_not_PTE_P (x : UInt32) : (x &&& ~~~PTE_P).toNat = x.toNat / 2 * 2 := by
  have hmask : (~~~PTE_P).toBitVec = BitVec.allOnes 32 <<< 1 := by decide
  have h := Mask.toNat_and_allOnes_shiftLeft x.toBitVec 1
  rw [← hmask, ← UInt32.toBitVec_and] at h
  exact h

/-- Flags or-ed into a page address add to it. -/
lemma toNat_or_of_aligned {a f : UInt32} (ha : a.toNat % 4096 = 0) (hf : f.toNat < 4096) :
    (a ||| f).toNat = a.toNat + f.toNat :=
  @Mask.toNat_or_of_mod_eq_zero 32 a.toBitVec f.toBitVec 12 ha hf

/-- The present bit of an entry, read on its number. -/
lemma present_iff (x : UInt32) : x &&& PTE_P ≠ 0 ↔ x.toNat % 2 = 1 := by
  rw [ne_eq, ← UInt32.toNat_inj, toNat_and_PTE_P]
  simp

/-- An `int` that passes `% PGSIZE == 0` is a multiple of the page size as an address. -/
lemma toBitVec_aligned_of_mod {a : Int32} (h : a % PGSIZE = 0) : a.toBitVec.toNat % 4096 = 0 := by
  have hmod := Int32.toInt_mod a PGSIZE
  rw [h] at hmod
  have h4096 : (PGSIZE : Int32).toInt = 4096 := by decide
  rw [h4096, show (0 : Int32).toInt = 0 from rfl] at hmod
  have hdvd : (4096 : ℤ) ∣ a.toInt := Int.dvd_of_tmod_eq_zero hmod.symm
  -- the two's complement reading differs from the signed one by `0` or `2 ^ 32`
  have hint := BitVec.toInt_eq_toNat_cond a.toBitVec
  rw [Int32.toInt_toBitVec] at hint
  have hlt := a.toBitVec.isLt
  split at hint <;> omega

/-- `PDX` is the number of the 4 MiB region of an address. -/
lemma toNat_PDX (va : UInt32) : (PDX va).toNat = va.toNat / 2 ^ 22 := by
  have h := va.toNat_lt
  simp only [PDX, UInt32.toNat_and, UInt32.toNat_shiftRight]
  rw [show (0x3FF : UInt32).toNat = 2 ^ 10 - 1 from rfl, Nat.and_two_pow_sub_one_eq_mod,
    show (22 : UInt32).toNat % 32 = 22 from rfl, Nat.shiftRight_eq_div_pow]
  omega

/-- `PTX` is the number of the page inside its region. -/
lemma toNat_PTX (va : UInt32) : (PTX va).toNat = va.toNat / 4096 % 1024 := by
  simp only [PTX, UInt32.toNat_and, UInt32.toNat_shiftRight]
  rw [show (0x3FF : UInt32).toNat = 2 ^ 10 - 1 from rfl, Nat.and_two_pow_sub_one_eq_mod,
    show (12 : UInt32).toNat % 32 = 12 from rfl, Nat.shiftRight_eq_div_pow]

/-- Two addresses have the same directory and table indices exactly when they lie in one
page. -/
lemma PDX_PTX_eq_iff (va a : UInt32) :
    PDX va = PDX a ∧ PTX va = PTX a ↔ va.toNat / 4096 = a.toNat / 4096 := by
  rw [← UInt32.toNat_inj, ← UInt32.toNat_inj, toNat_PDX, toNat_PDX, toNat_PTX, toNat_PTX]
  omega

/-- `PGADDR(d, 0, 0)` is the start of region `d`. -/
lemma toNat_PGADDR (d : UInt32) (hd : d.toNat < 1024) : (PGADDR d 0 0).toNat = d.toNat * 2 ^ 22 := by
  simp only [PGADDR, UInt32.zero_shiftLeft, UInt32.or_zero]
  rw [UInt32.toNat_shiftLeft, show (22 : UInt32).toNat % 32 = 22 from rfl, Nat.shiftLeft_eq]
  omega

/-- The address of an entry made of a page-aligned address and flags. -/
lemma PTE_ADDR_or {a f : UInt32} (ha : a.toNat % 4096 = 0) (hf : f.toNat < 4096) :
    PTE_ADDR (a ||| f) = a := by
  apply UInt32.toNat_inj.mp
  rw [toNat_PTE_ADDR, toNat_or_of_aligned ha hf]
  omega

/-- An entry made of a page-aligned address and flags with `PTE_P` is present. -/
lemma present_or {a f : UInt32} (ha : a.toNat % 4096 = 0) (hf : f.toNat < 4096)
    (hP : f.toNat % 2 = 1) : (a ||| f) &&& PTE_P ≠ 0 := by
  rw [present_iff, toNat_or_of_aligned ha hf]
  omega

@[simp] lemma P2V_V2P (x : UInt32) : P2V (V2P x) = x := by
  simp [P2V, V2P]

@[simp] lemma V2P_P2V (x : UInt32) : V2P (P2V x) = x := by
  simp [P2V, V2P]

end Words

end Xv6
