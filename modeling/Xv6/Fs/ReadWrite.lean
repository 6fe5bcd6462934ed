import Xv6.Fs.Owned
import Xv6.Fs.Content

/-!
# Reading back what `writei` wrote (fs.c)

`writei` and `readi` go through a file block by block, and find each block with `bmap`,
which allocates what is missing.  For a slot that owns its blocks (`Owned`), `bmap`
changes no byte of the file and returns the block at the place of the block asked for
(`bmap_spec`).  So a write changes exactly the bytes it writes (`writeiLoop_spec`), a read
returns the file's bytes (`readiLoop_eq`), and a read of what was written returns it:
`writei_readi_round_trip`.

The round trip needs `Owned`.  An inode that names one block twice, which no well-formed
file system has but nothing in `writei` rules out, loses bytes outside the range it writes:
`writei_aliased_block_changes_other_byte`.
-/

namespace Xv6

open Prog

/-- `s'` extends `s` for slot `p`: the places of the slot that had a block keep it, and its
size and type are unchanged. -/
structure Extends (p : Fin NINODE) (s s' : Fs) : Prop where
  keeps : ∀ pl : Place, pl.ref s.disk (s.icache p) ≠ 0 →
    pl.ref s'.disk (s'.icache p) = pl.ref s.disk (s.icache p)
  size : (s'.icache p).size = (s.icache p).size
  type : (s'.icache p).type = (s.icache p).type

lemma Extends.refl (p : Fin NINODE) (s : Fs) : Extends p s s :=
  ⟨fun _ _ => rfl, rfl, rfl⟩

lemma Extends.trans {p : Fin NINODE} {s₁ s₂ s₃ : Fs} (h₁ : Extends p s₁ s₂) (h₂ : Extends p s₂ s₃) :
    Extends p s₁ s₃ :=
  ⟨fun pl hpl => (h₂.keeps pl (by rw [h₁.keeps pl hpl]; exact hpl)).trans (h₁.keeps pl hpl),
    h₂.size.trans h₁.size, h₂.type.trans h₁.type⟩

/-- `s'` is `s` with blocks allocated to slot `p`, which still owns its blocks and holds the
same bytes. -/
structure Allocates (p : Fin NINODE) (s s' : Fs) : Prop extends Extends p s s' where
  owned : Owned s'.disk (s'.icache p)
  content : fileByte s'.disk (s'.icache p) = fileByte s.disk (s.icache p)

lemma Allocates.refl {p : Fin NINODE} {s : Fs} (ho : Owned s.disk (s.icache p)) :
    Allocates p s s :=
  ⟨Extends.refl p s, ho, rfl⟩

lemma Allocates.trans {p : Fin NINODE} {s₁ s₂ s₃ : Fs} (h₁ : Allocates p s₁ s₂)
    (h₂ : Allocates p s₂ s₃) : Allocates p s₁ s₃ :=
  ⟨h₁.toExtends.trans h₂.toExtends, h₂.owned, h₂.content.trans h₁.content⟩

/-! ## `bmap` -/

lemma balloc_eq_ok {s s' : Fs} {x : UInt32} (h : balloc s = .ok x s') :
    ∃ d, s.disk.balloc = .ok (x, d) ∧ s' = s.setDisk d := by
  unfold balloc at h
  split at h
  · rename_i x' d hb
    cases h
    exact ⟨d, hb, rfl⟩
  · cases h

/-- `balloc` under `Owned`, in the file system: the block is fresh, and the slot's places
and bytes are as they were. -/
lemma balloc_spec {p : Fin NINODE} {s s' : Fs} {x : UInt32} (ho : Owned s.disk (s.icache p))
    (h : balloc s = .ok x s') :
    Allocates p s s' ∧ Fresh s'.disk (s'.icache p) x ∧
      ∀ pl : Place, pl.ref s'.disk (s'.icache p) = pl.ref s.disk (s.icache p) := by
  obtain ⟨d, hd, rfl⟩ := balloc_eq_ok h
  obtain ⟨hown, hfresh, href, hbytes⟩ := ho.balloc hd
  exact ⟨⟨⟨fun pl _ => href pl, rfl, rfl⟩, hown, hbytes⟩, hfresh, href⟩

/-- The load of direct address `k` in `bmap`: the block there, allocated if there was none. -/
lemma addrAlloc_direct {p : Fin NINODE} {s s' : Fs} {a : UInt32} (ho : Owned s.disk (s.icache p))
    (k : Fin NDIRECT) (h : addrAlloc p k.castSucc s = .ok a s') :
    Allocates p s s' ∧ (Place.direct k).ref s'.disk (s'.icache p) = a ∧ a ≠ 0 := by
  unfold addrAlloc at h
  rw [bind_of_ok (getInode_apply p s), run_ite] at h
  split at h
  · rename_i h0
    obtain ⟨x, s₁, hx, h⟩ := Iff.mp bind_eq_ok h
    obtain ⟨hall, hfresh, href⟩ := balloc_spec ho hx
    rw [bind_of_ok (modifyInode_apply _ _ _)] at h
    cases h
    have h0' : (Place.direct k).ref s₁.disk (s₁.icache p) = 0 := by rw [href]; exact h0
    obtain ⟨hown, hbytes⟩ := hall.owned.setDirect h0' hfresh
    refine ⟨hall.trans ⟨⟨fun pl hpl => ?_, by simp [Inode.setAddr], by simp [Inode.setAddr]⟩, by simpa using hown,
      by simpa using hbytes⟩, by simp [ref_setAddr_direct], hfresh.ne_zero⟩
    -- a place with a block is not the one that had none
    simp only [Fs.setInode_icache_self, Fs.setInode_disk]
    rw [ref_setAddr_direct, if_neg]
    rintro rfl
    exact hpl h0'
  · rename_i h0
    cases h
    exact ⟨Allocates.refl ho, rfl, h0⟩

/-- The load of the indirect block in `bmap`, allocated if there was none. -/
lemma addrAlloc_indirect {p : Fin NINODE} {s s' : Fs} {a : UInt32}
    (ho : Owned s.disk (s.icache p)) (h : addrAlloc p (Fin.last NDIRECT) s = .ok a s') :
    Allocates p s s' ∧ (s'.icache p).ind = a ∧ a ≠ 0 := by
  unfold addrAlloc at h
  rw [bind_of_ok (getInode_apply p s), run_ite] at h
  split at h
  · rename_i h0
    obtain ⟨x, s₁, hx, h⟩ := Iff.mp bind_eq_ok h
    obtain ⟨hall, hfresh, href⟩ := balloc_spec ho hx
    rw [bind_of_ok (modifyInode_apply _ _ _)] at h
    cases h
    have h0' : (s₁.icache p).ind = 0 := by
      have := href .indirect
      simp only [Place.ref] at this
      rw [this]
      exact h0
    obtain ⟨hown, hbytes⟩ := hall.owned.setIndirect h0' hfresh
    refine ⟨hall.trans ⟨⟨fun pl hpl => ?_, by simp [Inode.setAddr], by simp [Inode.setAddr]⟩, by simpa using hown,
      by simpa using hbytes⟩, by simp, hfresh.ne_zero⟩
    simp only [Fs.setInode_icache_self, Fs.setInode_disk]
    rw [ref_setAddr_indirect h0' hfresh.zero, if_neg]
    rintro rfl
    exact hpl h0'
  · rename_i h0
    cases h
    exact ⟨Allocates.refl ho, rfl, h0⟩

/-- The load of entry `j` of the indirect block `ind` in `bmap`, allocated if there was
none. -/
lemma entryAlloc_spec {p : Fin NINODE} {s s' : Fs} {a : UInt32} (ho : Owned s.disk (s.icache p))
    (hind : (s.icache p).ind ≠ 0) (j : Fin NINDIRECT)
    (h : entryAlloc (s.icache p).ind j.val s = .ok a s') :
    Allocates p s s' ∧ (Place.entry j).ref s'.disk (s'.icache p) = a ∧ a ≠ 0 := by
  unfold entryAlloc at h
  rw [bind_of_ok (get_apply s), run_ite] at h
  split at h
  · rename_i h0
    obtain ⟨x, s₁, hx, h⟩ := Iff.mp bind_eq_ok h
    obtain ⟨hall, hfresh, href⟩ := balloc_spec ho hx
    rw [bind_of_ok (modifyDisk_apply _ _)] at h
    cases h
    have hsame : (s₁.icache p).ind = (s.icache p).ind := hall.keeps .indirect hind
    have hind₁ : (s₁.icache p).ind ≠ 0 := by rw [hsame]; exact hind
    have h0' : (Place.entry j).ref s₁.disk (s₁.icache p) = 0 := by
      rw [href]
      simp only [Place.ref, if_neg hind]
      exact h0
    obtain ⟨hown, hbytes⟩ := hall.owned.setEntry hind₁ h0' hfresh
    rw [← hsame]
    refine ⟨hall.trans ⟨⟨fun pl hpl => ?_, rfl, rfl⟩, hown, hbytes⟩, ?_, hfresh.ne_zero⟩
    · simp only [Fs.setDisk_icache, Fs.setDisk_disk]
      rw [ref_setEntry hind₁, if_neg]
      rintro rfl
      exact hpl h0'
    · simp [ref_setEntry hind₁]
  · rename_i h0
    cases h
    refine ⟨Allocates.refl ho, ?_, h0⟩
    simp [Place.ref, hind]

/-- `bmap` under `Owned`: the block at the place of block `bn`, allocated if there was
none, with the file's bytes unchanged. -/
theorem bmap_spec {p : Fin NINODE} {s s' : Fs} {bn a : UInt32} (ho : Owned s.disk (s.icache p))
    (hbn : bn.toNat < MAXFILE) (h : bmap p bn s = .ok a s') :
    Allocates p s s' ∧ (blockPlace bn.toNat).ref s'.disk (s'.icache p) = a ∧ a ≠ 0 := by
  have hmax : MAXFILE = NDIRECT + NINDIRECT := rfl
  unfold bmap at h
  split at h
  · rename_i hd
    have hplace : blockPlace bn.toNat = .direct ⟨bn.toNat, hd⟩ := by simp [blockPlace, hd]
    rw [hplace]
    exact addrAlloc_direct ho ⟨bn.toNat, hd⟩ h
  · rename_i hd
    have hsub : (bn - NDIRECT.toUInt32).toNat = bn.toNat - NDIRECT := by
      rw [UInt32.toNat_sub_of_le]
      · rfl
      · exact UInt32.le_iff_toNat_le.mpr (by simp [NDIRECT] at hd ⊢; omega)
    rw [run_ite, hsub] at h
    split at h
    · rename_i hi
      obtain ⟨ind, s₁, hind, h⟩ := Iff.mp bind_eq_ok h
      obtain ⟨hall₁, hind₁, hind0⟩ := addrAlloc_indirect ho hind
      rw [← hind₁] at h hind0
      obtain ⟨hall₂, hentry, ha⟩ :=
        entryAlloc_spec hall₁.owned hind0 ⟨bn.toNat - NDIRECT, hi⟩ h
      have hplace : blockPlace bn.toNat = .entry ⟨bn.toNat - NDIRECT, hi⟩ := by
        simp only [blockPlace, dif_neg hd, Place.entry.injEq]
        exact Fin.ext (Nat.mod_eq_of_lt hi)
      rw [hplace]
      exact ⟨hall₁.trans hall₂, hentry, ha⟩
    · rename_i hi
      exact absurd hbn (by omega)

/-- A load that finds a block allocates nothing. -/
lemma addrAlloc_of_ne {p : Fin NINODE} {s : Fs} {k : Fin (NDIRECT + 1)}
    (h : (s.icache p).addrs k ≠ 0) : addrAlloc p k s = .ok ((s.icache p).addrs k) s := by
  unfold addrAlloc
  rw [bind_of_ok (getInode_apply p s), run_ite, if_neg h]
  rfl

lemma entryAlloc_of_ne {s : Fs} {ind : UInt32} {bn : ℕ}
    (h : Bytes.getU32 (s.disk.blocks ind) (4 * bn) ≠ 0) :
    entryAlloc ind bn s = .ok (Bytes.getU32 (s.disk.blocks ind) (4 * bn)) s := by
  unfold entryAlloc
  rw [bind_of_ok (get_apply s), run_ite, if_neg h]
  rfl

/-- Where the place of block `bn` has a block, `bmap` returns it and changes nothing. -/
lemma bmap_of_ref {p : Fin NINODE} {s : Fs} {bn : UInt32} (hbn : bn.toNat < MAXFILE)
    (ha : (blockPlace bn.toNat).ref s.disk (s.icache p) ≠ 0) :
    bmap p bn s = .ok ((blockPlace bn.toNat).ref s.disk (s.icache p)) s := by
  have hmax : MAXFILE = NDIRECT + NINDIRECT := rfl
  unfold bmap
  split
  · rename_i hd
    have hplace : blockPlace bn.toNat = .direct ⟨bn.toNat, hd⟩ := by simp [blockPlace, hd]
    rw [hplace] at ha ⊢
    exact addrAlloc_of_ne ha
  · rename_i hd
    have hsub : (bn - NDIRECT.toUInt32).toNat = bn.toNat - NDIRECT := by
      rw [UInt32.toNat_sub_of_le]
      · rfl
      · exact UInt32.le_iff_toNat_le.mpr (by simp [NDIRECT] at hd ⊢; omega)
    have hi : bn.toNat - NDIRECT < NINDIRECT := by omega
    have hplace : blockPlace bn.toNat = .entry ⟨bn.toNat - NDIRECT, hi⟩ := by
      simp only [blockPlace, dif_neg hd, Place.entry.injEq]
      exact Fin.ext (Nat.mod_eq_of_lt hi)
    rw [hplace] at ha ⊢
    -- a block at an entry means an indirect block, so neither load allocates
    have hind : (s.icache p).ind ≠ 0 := by
      intro h0
      simp [Place.ref, h0] at ha
    simp only [Place.ref, if_neg hind] at ha ⊢
    rw [run_ite, hsub, if_pos hi, bind_of_ok (addrAlloc_of_ne hind)]
    exact entryAlloc_of_ne ha

/-! ## One pass of the loops

A pass of the loop of `readi` or `writei` moves `m` bytes: what is left of the request or
of the block the offset is in, whichever is less.  Below `MAXFILE * BSIZE` no addition
wraps, so the passes are followed in `ℕ`. -/

@[simp] lemma toNat_div_BSIZE (off : UInt32) : (off / BSIZE.toUInt32).toNat = off.toNat / BSIZE := by
  rw [UInt32.toNat_div]
  rfl

@[simp] lemma toNat_mod_BSIZE (off : UInt32) : (off % BSIZE.toUInt32).toNat = off.toNat % BSIZE := by
  rw [UInt32.toNat_mod]
  rfl

lemma MAXFILE_mul_BSIZE : MAXFILE * BSIZE = 71680 := rfl

lemma block_lt_MAXFILE {o : ℕ} (h : o < MAXFILE * BSIZE) : o / BSIZE < MAXFILE :=
  (Nat.div_lt_iff_lt_mul (by decide)).mpr h

/-- The bytes of one pass lie in the block the pass starts in. -/
lemma div_eq_of_mem_pass {O o m : ℕ} (hm : m ≤ BSIZE - O % BSIZE) (h₁ : O ≤ o) (h₂ : o < O + m) :
    o / BSIZE = O / BSIZE := by
  unfold BSIZE at *
  omega

/-- One pass in `ℕ`: it moves at least one byte, no more than is left of the request and of
the block, and neither of its additions wraps. -/
lemma pass_spec {n tot off m : UInt32} (htot : tot < n)
    (hend : off.toNat + (n.toNat - tot.toNat) ≤ MAXFILE * BSIZE)
    (hm : min (n - tot) (BSIZE.toUInt32 - off % BSIZE.toUInt32) = m) :
    0 < m.toNat ∧ m.toNat ≤ n.toNat - tot.toNat ∧ m.toNat ≤ BSIZE - off.toNat % BSIZE ∧
      (tot + m).toNat = tot.toNat + m.toNat ∧ (off + m).toNat = off.toNat + m.toNat := by
  have htot' : tot.toNat < n.toNat := UInt32.lt_iff_toNat_lt.mp htot
  have hmod : off.toNat % BSIZE < BSIZE := Nat.mod_lt _ (by decide)
  have hB : (BSIZE.toUInt32 - off % BSIZE.toUInt32).toNat = BSIZE - off.toNat % BSIZE := by
    rw [UInt32.toNat_sub_of_le, toNat_mod_BSIZE]
    · rfl
    · exact UInt32.le_iff_toNat_le.mpr (by rw [toNat_mod_BSIZE]; exact hmod.le)
  have hmnat : m.toNat = min (n.toNat - tot.toNat) (BSIZE - off.toNat % BSIZE) := by
    rw [← hm, UInt32.toNat_min, UInt32.toNat_sub_of_le _ _ (UInt32.le_of_lt htot), hB]
  have hn : n.toNat < 2 ^ 32 := n.toNat_lt
  rw [MAXFILE_mul_BSIZE] at hend
  refine ⟨by omega, by omega, by omega, ?_, ?_⟩
  · rw [UInt32.toNat_add, Nat.mod_eq_of_lt (by omega)]
  · rw [UInt32.toNat_add, Nat.mod_eq_of_lt (by omega)]

/-! ## Writes -/

/-- `s'` is `s` with bytes `[o₀, o₀ + len)` of slot `p`'s file set to `f`, each of them in a
block of the file, and the slot still owning its blocks: what a prefix of `writei`'s loop
does. -/
structure Writes (p : Fin NINODE) (s s' : Fs) (o₀ len : ℕ) (f : ℕ → UInt8) : Prop
    extends Extends p s s' where
  owned : Owned s'.disk (s'.icache p)
  content : ∀ o, fileByte s'.disk (s'.icache p) o =
    if o₀ ≤ o ∧ o < o₀ + len then f o else fileByte s.disk (s.icache p) o
  allocated : ∀ o, o₀ ≤ o → o < o₀ + len → (blockPlace (o / BSIZE)).ref s'.disk (s'.icache p) ≠ 0

section Writes

variable {p : Fin NINODE} {s₁ s₂ s₃ : Fs} {o₀ l₁ l₂ : ℕ} {f : ℕ → UInt8}

lemma Writes.nil (ho : Owned s₁.disk (s₁.icache p)) (o₀ : ℕ) (f : ℕ → UInt8) :
    Writes p s₁ s₁ o₀ 0 f :=
  ⟨Extends.refl p s₁, ho, fun o => by rw [if_neg (by omega)], fun o h₁ h₂ => absurd h₂ (by omega)⟩

/-- An allocation before a write is part of the write. -/
lemma Writes.of_allocates (h₁ : Allocates p s₁ s₂) (h₂ : Writes p s₂ s₃ o₀ l₁ f) :
    Writes p s₁ s₃ o₀ l₁ f where
  toExtends := h₁.toExtends.trans h₂.toExtends
  owned := h₂.owned
  content o := by rw [h₂.content, h₁.content]
  allocated := h₂.allocated

/-- Two writes of adjacent ranges are a write of both. -/
lemma Writes.trans (h₁ : Writes p s₁ s₂ o₀ l₁ f) (h₂ : Writes p s₂ s₃ (o₀ + l₁) l₂ f) :
    Writes p s₁ s₃ o₀ (l₁ + l₂) f where
  toExtends := h₁.toExtends.trans h₂.toExtends
  owned := h₂.owned
  content o := by
    rw [h₂.content, h₁.content]
    by_cases ha : o₀ ≤ o ∧ o < o₀ + l₁
    · rw [if_neg (by omega), if_pos ha, if_pos (by omega)]
    · rw [if_neg ha]
      by_cases hb : o₀ + l₁ ≤ o ∧ o < o₀ + l₁ + l₂
      · rw [if_pos hb, if_pos (by omega)]
      · rw [if_neg hb, if_neg (by omega)]
  allocated o ho₁ ho₂ := by
    by_cases ha : o < o₀ + l₁
    · rw [h₂.keeps _ (h₁.allocated o ho₁ ha)]
      exact h₁.allocated o ho₁ ha
    · exact h₂.allocated o (by omega) (by omega)

end Writes

/-- One pass of `writei`'s loop: the copy of `m` bytes of `src`, from byte `T`, into the
block at offset `O`. -/
lemma write_pass {p : Fin NINODE} {s : Fs} {b : UInt32} {O m : ℕ} (src : List UInt8) (T : ℕ)
    (ho : Owned s.disk (s.icache p)) (hO : O / BSIZE < MAXFILE)
    (hb : (blockPlace (O / BSIZE)).ref s.disk (s.icache p) = b) (hb0 : b ≠ 0)
    (hm : m ≤ BSIZE - O % BSIZE) :
    Writes p s (s.setDisk (s.disk.write b (copyIn (s.disk.blocks b) (O % BSIZE) (src.drop T) m)))
      O m (fun o => src.getD (o + T - O) 0) := by
  obtain ⟨hown, href, hbytes⟩ := ho.write_data hO hb hb0
    (copyIn (s.disk.blocks b) (O % BSIZE) (src.drop T) m)
  refine ⟨⟨fun pl _ => href pl, rfl, rfl⟩, hown, fun o => ?_, fun o h₁ h₂ => ?_⟩
  · simp only [Fs.setDisk_disk, Fs.setDisk_icache]
    rw [hbytes o]
    by_cases hq : o / BSIZE = O / BSIZE
    · -- the same block: the offsets within it decide, as the offsets in the file do
      have hdiv := Nat.div_add_mod o BSIZE
      have hdiv' := Nat.div_add_mod O BSIZE
      have hiff : O % BSIZE ≤ o % BSIZE ∧ o % BSIZE < O % BSIZE + m ↔ O ≤ o ∧ o < O + m := by
        rw [hq] at hdiv
        omega
      rw [if_pos hq]
      simp only [copyIn, Fin.val_ofNat]
      by_cases hin : O ≤ o ∧ o < O + m
      · rw [if_pos (hiff.mpr hin), if_pos hin, List.getD_eq_getElem?_getD, List.getElem?_drop,
          ← List.getD_eq_getElem?_getD]
        congr 1
        rw [hq] at hdiv
        omega
      · rw [if_neg (mt hiff.mp hin), if_neg hin]
        simp [fileByte, hq, hO, hb, hb0]
    · rw [if_neg hq, if_neg fun hin => hq (div_eq_of_mem_pass hm hin.1 hin.2)]
  · simp only [Fs.setDisk_disk, Fs.setDisk_icache]
    rw [href, div_eq_of_mem_pass hm h₁ h₂, hb]
    exact hb0

/-- `writei`'s loop, from byte `tot` of `n` at offset `off`, writes the rest of the `n`
bytes of `src` at `off` and ends at `off + (n - tot)`; `n - tot` passes are enough. -/
theorem writeiLoop_spec {p : Fin NINODE} {src : List UInt8} {n : UInt32} (fuel : ℕ) :
    ∀ {tot off off' : UInt32} {s s' : Fs}, Owned s.disk (s.icache p) →
      off.toNat + (n.toNat - tot.toNat) ≤ MAXFILE * BSIZE → n.toNat - tot.toNat ≤ fuel →
      writeiLoop p src n fuel tot off s = .ok off' s' →
      Writes p s s' off.toNat (n.toNat - tot.toNat) (fun o => src.getD (o + tot.toNat - off.toNat) 0) ∧
        off'.toNat = off.toNat + (n.toNat - tot.toNat) := by
  induction fuel with
  | zero =>
    intro tot off off' s s' ho _ hfuel h
    cases h
    rw [show n.toNat - tot.toNat = 0 by omega]
    exact ⟨Writes.nil ho _ _, rfl⟩
  | succ fuel ih =>
    intro tot off off' s s' ho hend hfuel h
    rw [writeiLoop, run_ite] at h
    split at h
    · rename_i htot
      obtain ⟨b, s₁, hb, h⟩ := Iff.mp bind_eq_ok h
      generalize hm : min (n - tot) (BSIZE.toUInt32 - off % BSIZE.toUInt32) = m at h
      obtain ⟨hm0, hmn, hmb, htm, hom⟩ := pass_spec htot hend hm
      rw [bind_of_ok (modifyDisk_apply _ _), toNat_mod_BSIZE] at h
      have hO : off.toNat / BSIZE < MAXFILE := block_lt_MAXFILE (by omega)
      obtain ⟨hall, hbref, hb0⟩ := bmap_spec ho (by rw [toNat_div_BSIZE]; exact hO) hb
      rw [toNat_div_BSIZE] at hbref
      have hpass := write_pass src tot.toNat hall.owned hO hbref hb0 hmb
      obtain ⟨hrest, hoff'⟩ := ih hpass.owned (by rw [htm, hom]; omega) (by rw [htm]; omega) h
      rw [htm, hom] at hrest hoff'
      -- the rest of the loop reads `src` with the same shift as its first pass
      have hf : (fun o => src.getD (o + (tot.toNat + m.toNat) - (off.toNat + m.toNat)) 0) =
          fun o => src.getD (o + tot.toNat - off.toNat) 0 := by
        funext o
        congr 1
        omega
      rw [hf] at hrest
      have hlen : n.toNat - tot.toNat = m.toNat + (n.toNat - (tot.toNat + m.toNat)) := by omega
      refine ⟨?_, by omega⟩
      rw [hlen]
      exact Writes.of_allocates hall (hpass.trans hrest)
    · rename_i htot
      cases h
      have : n.toNat ≤ tot.toNat := UInt32.le_iff_toNat_le.mp (UInt32.not_lt.mp htot)
      rw [show n.toNat - tot.toNat = 0 by omega]
      exact ⟨Writes.nil ho _ _, rfl⟩

/-! ## Reads -/

/-- One pass of `readi`'s loop: the `m` bytes it copies from the block at offset `O` are the
file's. -/
lemma read_pass {d : Disk} {ip : Inode} {b : UInt32} {O m : ℕ} (hO : O / BSIZE < MAXFILE)
    (hb : (blockPlace (O / BSIZE)).ref d ip = b) (hb0 : b ≠ 0) (hm : m ≤ BSIZE - O % BSIZE) :
    blockBytes (d.blocks b) (O % BSIZE) m = (List.range m).map fun i => fileByte d ip (O + i) := by
  unfold blockBytes
  refine List.map_congr_left fun i hi => ?_
  have hi' : i < m := List.mem_range.mp hi
  have hq : (O + i) / BSIZE = O / BSIZE := div_eq_of_mem_pass hm (by omega) (by omega)
  have hoff : (Fin.ofNat BSIZE (O % BSIZE + i) : Fin BSIZE) = Fin.ofNat BSIZE (O + i) := by
    apply Fin.ext
    simp only [Fin.val_ofNat]
    unfold BSIZE
    omega
  show d.blocks b (Fin.ofNat BSIZE (O % BSIZE + i)) = _
  rw [hoff]
  simp [fileByte, hq, hO, hb, hb0]

/-- `readi`'s loop, over bytes that all lie in blocks of the file, appends those bytes and
changes nothing; `n - tot` passes are enough. -/
theorem readiLoop_eq {p : Fin NINODE} {n : UInt32} (fuel : ℕ) :
    ∀ {tot off : UInt32} {dst : List UInt8} {s : Fs},
      off.toNat + (n.toNat - tot.toNat) ≤ MAXFILE * BSIZE → n.toNat - tot.toNat ≤ fuel →
      (∀ o, off.toNat ≤ o → o < off.toNat + (n.toNat - tot.toNat) →
        (blockPlace (o / BSIZE)).ref s.disk (s.icache p) ≠ 0) →
      readiLoop p n fuel tot off dst s =
        .ok (dst ++ (List.range (n.toNat - tot.toNat)).map
          fun i => fileByte s.disk (s.icache p) (off.toNat + i)) s := by
  induction fuel with
  | zero =>
    intro tot off dst s _ hfuel _
    rw [show n.toNat - tot.toNat = 0 by omega]
    simp [readiLoop]
  | succ fuel ih =>
    intro tot off dst s hend hfuel halloc
    rw [readiLoop, run_ite]
    split
    · rename_i htot
      have htot' : tot.toNat < n.toNat := UInt32.lt_iff_toNat_lt.mp htot
      have hO : off.toNat / BSIZE < MAXFILE := block_lt_MAXFILE (by omega)
      have hb0 := halloc off.toNat le_rfl (by omega)
      rw [bind_of_ok (bmap_of_ref (by rw [toNat_div_BSIZE]; exact hO)
        (by rw [toNat_div_BSIZE]; exact hb0)), bind_of_ok (get_apply s)]
      generalize hm : min (n - tot) (BSIZE.toUInt32 - off % BSIZE.toUInt32) = m
      obtain ⟨hm0, hmn, hmb, htm, hom⟩ := pass_spec htot hend hm
      rw [ih (by rw [htm, hom]; omega) (by rw [htm]; omega) fun o h₁ h₂ =>
        halloc o (by rw [hom] at h₁; omega) (by rw [htm, hom] at h₂; omega)]
      rw [toNat_div_BSIZE, toNat_mod_BSIZE, read_pass hO rfl hb0 hmb, htm, hom]
      -- the pass's bytes and the rest's are one range
      have hlen : n.toNat - tot.toNat = m.toNat + (n.toNat - (tot.toNat + m.toNat)) := by omega
      rw [hlen, List.range_add, List.map_append, List.map_map, List.append_assoc]
      simp only [Function.comp_def, Nat.add_assoc]
    · rename_i htot
      have : n.toNat ≤ tot.toNat := UInt32.le_iff_toNat_le.mp (UInt32.not_lt.mp htot)
      rw [show n.toNat - tot.toNat = 0 by omega]
      simp

/-! ## `writei` and `readi` -/

lemma ref_setSize (d : Disk) (ip : Inode) (x : UInt32) (pl : Place) :
    pl.ref d { ip with size := x } = pl.ref d ip := by
  cases pl <;> rfl

lemma ref_writeInode (d : Disk) (inum : UInt32) (dip : Dinode) (ip : Inode) (pl : Place) :
    pl.ref (d.writeInode inum dip) ip = pl.ref d ip := by
  cases pl <;> rfl

/-- The bytes of a file read through its places and its disk's blocks only. -/
lemma fileByte_congr {d d' : Disk} {ip ip' : Inode} (href : ∀ pl : Place, pl.ref d' ip' = pl.ref d ip)
    (hblocks : d'.blocks = d.blocks) : fileByte d' ip' = fileByte d ip := by
  funext o
  simp only [fileByte, href, hblocks]

/-- Within `MAXFILE * BSIZE`, `off + n` does not wrap. -/
lemma toNat_add_of_le_max {off n : UInt32} (h : off.toNat + n.toNat ≤ MAXFILE * BSIZE) :
    (off + n).toNat = off.toNat + n.toNat := by
  rw [MAXFILE_mul_BSIZE] at h
  rw [UInt32.toNat_add, Nat.mod_eq_of_lt (by omega)]

theorem writei_spec {p : Fin NINODE} {src : List UInt8} {off n : UInt32} {s s' : Fs}
    {r : Option Int32} (ho : Owned s.disk (s.icache p)) (htype : (s.icache p).type ≠ T_DEV)
    (hoff : off ≤ (s.icache p).size) (hend : off.toNat + n.toNat ≤ MAXFILE * BSIZE)
    (h : writei p src off n s = .ok r s') :
    r = some n.toInt32 ∧ Owned s'.disk (s'.icache p) ∧ (s'.icache p).type = (s.icache p).type ∧
      (s'.icache p).size.toNat = max (s.icache p).size.toNat (off.toNat + n.toNat) ∧
      (∀ o, fileByte s'.disk (s'.icache p) o =
        if off.toNat ≤ o ∧ o < off.toNat + n.toNat then src.getD (o - off.toNat) 0
        else fileByte s.disk (s.icache p) o) ∧
      ∀ o, off.toNat ≤ o → o < off.toNat + n.toNat →
        (blockPlace (o / BSIZE)).ref s'.disk (s'.icache p) ≠ 0 := by
  have hsum := toNat_add_of_le_max hend
  have hno : ¬off + n < off := fun hlt => by
    have := UInt32.lt_iff_toNat_lt.mp hlt
    omega
  have hmax : ¬(MAXFILE * BSIZE).toUInt32 < off + n := fun hlt => by
    have := UInt32.lt_iff_toNat_lt.mp hlt
    rw [hsum] at this
    exact absurd this (by rw [UInt32.toNat_ofNat', MAXFILE_mul_BSIZE] at *; omega)
  rw [writei, bind_of_ok (getInode_apply p s), run_ite, if_neg htype, run_ite,
    if_neg (by simp [UInt32.not_lt.mpr hoff, hno]), run_ite, if_neg hmax] at h
  obtain ⟨off', s₂, hloop, h⟩ := Iff.mp bind_eq_ok h
  obtain ⟨hw, hoff'⟩ := writeiLoop_spec n.toNat ho (by simpa using hend) (by simp) hloop
  simp only [UInt32.toNat_zero, Nat.sub_zero, Nat.add_zero] at hw hoff'
  rw [bind_of_ok (getInode_apply p s₂), run_ite] at h
  have hsize₂ : (s₂.icache p).size = (s.icache p).size := hw.size
  have hoffle : off.toNat ≤ (s.icache p).size.toNat := UInt32.le_iff_toNat_le.mp hoff
  split at h
  · -- the write ends past the old size: the size becomes its end, and goes to the dinode
    rename_i hc
    simp only [Bool.and_eq_true, decide_eq_true_eq] at hc
    rw [bind_of_ok (modifyInode_apply _ _ _), bind_of_ok (iupdate_apply _ _)] at h
    cases h
    have href : ∀ pl : Place, pl.ref
        (s₂.disk.writeInode (s₂.icache p).inum { s₂.icache p with size := off' }.toDinode)
        { s₂.icache p with size := off' } = pl.ref s₂.disk (s₂.icache p) := fun pl => by
      rw [ref_writeInode, ref_setSize]
    have hgt : (s.icache p).size.toNat < off'.toNat := by
      rw [← hsize₂]
      exact UInt32.lt_iff_toNat_lt.mp hc.2
    refine ⟨rfl, ?_, ?_, ?_, fun o => ?_, fun o h₁ h₂ => ?_⟩ <;>
      simp only [Fs.setDisk_icache, Fs.setDisk_disk, Fs.setInode_icache_self, Fs.setInode_disk]
    · exact hw.owned.of_ref_eq href fun _ _ hin => hin
    · exact hw.type
    · omega
    · rw [fileByte_congr href rfl]
      exact hw.content o
    · rw [href]
      exact hw.allocated o h₁ h₂
  · -- the write ends within the file: the size stays
    rename_i hc
    simp only [Bool.and_eq_true, decide_eq_true_eq, not_and] at hc
    cases h
    have hle : off.toNat + n.toNat ≤ (s.icache p).size.toNat := by
      by_cases hn : n > 0
      · have := UInt32.le_iff_toNat_le.mp (UInt32.not_lt.mp (hc hn))
        rw [hsize₂] at this
        omega
      · have : n.toNat = 0 := by
          have := UInt32.not_lt.mp hn
          rw [UInt32.le_iff_toNat_le] at this
          simpa using this
        omega
    exact ⟨rfl, hw.owned, hw.type, by rw [hsize₂]; omega, hw.content, hw.allocated⟩

/-- `writei` refuses a write that starts past the end of the file, wraps, or ends past
`MAXFILE * BSIZE`, and changes nothing. -/
lemma writei_of_out_of_range {p : Fin NINODE} {src : List UInt8} {off n : UInt32} {s : Fs}
    (htype : (s.icache p).type ≠ T_DEV)
    (h : (s.icache p).size < off ∨ off + n < off ∨ (MAXFILE * BSIZE).toUInt32 < off + n) :
    writei p src off n s = .ok (some (-1)) s := by
  rw [writei, bind_of_ok (getInode_apply p s), run_ite, if_neg htype, run_ite]
  by_cases h₁ : (s.icache p).size < off ∨ off + n < off
  · rw [if_pos (by simpa using h₁)]
    rfl
  · have h₂ : (MAXFILE * BSIZE).toUInt32 < off + n := by
      rcases h with h | h | h
      · exact absurd (.inl h) h₁
      · exact absurd (.inr h) h₁
      · exact h
    rw [if_neg (by simpa using h₁), run_ite, if_pos h₂]
    rfl

/-- `readi` of `n` bytes at `off`, within the file and each in a block of it, returns `n`
and those bytes of the file, and changes nothing. -/
theorem readi_eq {p : Fin NINODE} {off n : UInt32} {s : Fs} (htype : (s.icache p).type ≠ T_DEV)
    (hsize : off.toNat + n.toNat ≤ (s.icache p).size.toNat)
    (hend : off.toNat + n.toNat ≤ MAXFILE * BSIZE)
    (halloc : ∀ o, off.toNat ≤ o → o < off.toNat + n.toNat →
      (blockPlace (o / BSIZE)).ref s.disk (s.icache p) ≠ 0) :
    readi p off n s = .ok (some (n.toInt32,
      (List.range n.toNat).map fun i => fileByte s.disk (s.icache p) (off.toNat + i))) s := by
  have hsum := toNat_add_of_le_max hend
  have hoff : ¬(s.icache p).size < off := fun hlt => by
    have := UInt32.lt_iff_toNat_lt.mp hlt
    omega
  have hno : ¬off + n < off := fun hlt => by
    have := UInt32.lt_iff_toNat_lt.mp hlt
    omega
  have hpast : ¬(s.icache p).size < off + n := fun hlt => by
    have := UInt32.lt_iff_toNat_lt.mp hlt
    omega
  rw [readi, bind_of_ok (getInode_apply p s), run_ite, if_neg htype, run_ite,
    if_neg (by simp [hoff, hno]), if_neg hpast,
    bind_of_ok (readiLoop_eq n.toNat (by simpa using hend) (by simp) (by simpa using halloc))]
  simp

lemma map_range_getD_eq_take {l : List UInt8} {n : ℕ} (h : n ≤ l.length) :
    (List.range n).map (fun i => l.getD i 0) = l.take n := by
  apply List.ext_getElem
  · simp [h]
  · intro i h₁ h₂
    simp only [List.length_map, List.length_range] at h₁
    simp [List.getD_eq_getElem?_getD, List.getElem?_eq_getElem (show i < l.length by omega)]

/-- For a slot that owns its blocks, what `writei` wrote `readi` reads back, the other
bytes of the file stay, and the size becomes the end of the write if that is past it; a write
out of range is refused and changes nothing. -/
theorem writei_readi_round_trip {p : Fin NINODE} {s : Fs} (hown : Owned s.disk (s.icache p))
    (htype : (s.icache p).type ≠ T_DEV) (src : List UInt8) (off n : UInt32) :
    (off ≤ (s.icache p).size → off.toNat + n.toNat ≤ MAXFILE * BSIZE → n.toNat ≤ src.length →
      ∀ s₁, writei p src off n s = .ok (some n.toInt32) s₁ →
        readi p off n s₁ = .ok (some (n.toInt32, src.take n.toNat)) s₁ ∧
        (∀ o, o < off.toNat ∨ off.toNat + n.toNat ≤ o →
          fileByte s₁.disk (s₁.icache p) o = fileByte s.disk (s.icache p) o) ∧
        (s₁.icache p).size.toNat = max (s.icache p).size.toNat (off.toNat + n.toNat)) ∧
    ((s.icache p).size < off ∨ off + n < off ∨ (MAXFILE * BSIZE).toUInt32 < off + n →
      writei p src off n s = .ok (some (-1)) s) := by
  refine ⟨fun hoff hend hsrc s₁ h => ?_, writei_of_out_of_range htype⟩
  obtain ⟨-, -, htype₁, hsize, hbytes, halloc⟩ := writei_spec hown htype hoff hend h
  refine ⟨?_, fun o ho => by rw [hbytes o, if_neg (by omega)], hsize⟩
  rw [readi_eq (by rw [htype₁]; exact htype) (by omega) hend halloc]
  -- the bytes read are the bytes written
  have hread : (List.range n.toNat).map (fun i => fileByte s₁.disk (s₁.icache p) (off.toNat + i)) =
      (List.range n.toNat).map (fun i => src.getD i 0) := by
    refine List.map_congr_left fun i hi => ?_
    have hi' : i < n.toNat := List.mem_range.mp hi
    rw [hbytes, if_pos (by omega), Nat.add_sub_cancel_left]
  rw [hread, map_range_getD_eq_take hsrc]

/-- A disk whose bitmap marks blocks `0` to `63`, the metadata among them, and block `100`
in use; every other byte is zero. -/
def markedDisk : Disk where
  blocks b := if b = sb.bmapstart then
      fun i => if i.val < 8 then 0xFF else if i.val = 12 then 0x10 else 0
    else fun _ => 0
  inodes _ := Dinode.zero

lemma markedDisk_metaInUse : ∀ b : UInt32, b.toNat < nmeta → markedDisk.inUse b = true := by
  have hall : ∀ i < nmeta, markedDisk.inUse i.toUInt32 = true := by decide
  intro b hb
  simpa using hall b.toNat hb

/-- Slot `0` holds an empty file, inode `1`. -/
def emptyFileFs : Fs where
  disk := markedDisk
  icache _ := ⟨1, 1, true, T_FILE, 0, 0, 1, 0, fun _ => 0⟩

theorem writei_readi_round_trip_emptyFile :
    Owned emptyFileFs.disk (emptyFileFs.icache 0) ∧ (emptyFileFs.icache 0).type ≠ T_DEV ∧
    ((0 : UInt32) ≤ (emptyFileFs.icache 0).size →
      (0 : UInt32).toNat + (2 : UInt32).toNat ≤ MAXFILE * BSIZE →
      (2 : UInt32).toNat ≤ [0x41, 0x42].length →
      ∀ s₁, writei 0 [0x41, 0x42] 0 2 emptyFileFs = .ok (some (2 : UInt32).toInt32) s₁ →
        readi 0 0 2 s₁ = .ok (some ((2 : UInt32).toInt32, [0x41, 0x42].take (2 : UInt32).toNat)) s₁ ∧
        (∀ o, o < (0 : UInt32).toNat ∨ (0 : UInt32).toNat + (2 : UInt32).toNat ≤ o →
          fileByte s₁.disk (s₁.icache 0) o = fileByte emptyFileFs.disk (emptyFileFs.icache 0) o) ∧
        (s₁.icache 0).size.toNat =
          max (emptyFileFs.icache 0).size.toNat ((0 : UInt32).toNat + (2 : UInt32).toNat)) ∧
    ((emptyFileFs.icache 0).size < 0 ∨ (0 : UInt32) + 2 < 0 ∨
        (MAXFILE * BSIZE).toUInt32 < (0 : UInt32) + 2 →
      writei 0 [0x41, 0x42] 0 2 emptyFileFs = .ok (some (-1)) emptyFileFs) := by
  have hown : Owned emptyFileFs.disk (emptyFileFs.icache 0) :=
    owned_of_addrs_zero markedDisk_metaInUse fun _ => rfl
  have htype : (emptyFileFs.icache 0).type ≠ T_DEV := by decide
  exact ⟨hown, htype, writei_readi_round_trip hown htype [0x41, 0x42] 0 2⟩

/-- Slot `0` holds a file of two blocks, inode `2` of size `1024`, whose two direct
addresses both name block `100`. -/
def aliasedFs : Fs where
  disk := markedDisk
  icache _ := ⟨2, 1, true, T_FILE, 0, 0, 1, 1024, fun k => if k.val < 2 then 100 else 0⟩

/-- `aliasedFs` after `writei` of one byte at offset `512`. -/
def aliasedWrittenFs : Fs := (writei 0 [0x41] 512 1 aliasedFs).stateD aliasedFs

/-- A write of byte `512` of a file whose blocks `0` and `1` are one block changes byte `0`,
outside the range written. -/
theorem writei_aliased_block_changes_other_byte :
    (aliasedFs.icache 0).type ≠ T_DEV ∧ (512 : UInt32) ≤ (aliasedFs.icache 0).size ∧
      readi 0 0 1 aliasedFs = .ok (some (1, [0])) aliasedFs ∧
      writei 0 [0x41] 512 1 aliasedFs = .ok (some 1) aliasedWrittenFs ∧
      readi 0 0 1 aliasedWrittenFs = .ok (some (1, [0x41])) aliasedWrittenFs :=
  ⟨by decide, by decide, rfl, Result.eq_ok_of_returned aliasedFs (by decide), rfl⟩

end Xv6
