import Xv6.Fs.Inode

/-!
# The blocks an inode owns (fs.c)

`bmap`, `readi` and `writei` treat the block numbers of an inode as its own.  A write to a
block of the file is assumed to change no other byte of it, and `balloc` is assumed to
hand out a block that the file does not hold already.  Nothing in the code checks either;
they hold where the file system is well formed.  `Owned d ip` says what is needed of one
inode:

* the metadata blocks, below `nmeta`, are marked in use, so `balloc` returns data blocks;
* every block the inode names is a data block below `FSSIZE`, marked in use;
* no block is named twice, counting the direct blocks, the indirect block and its entries.

The places that hold block numbers are `Place`s, and the bytes of the file by offset are
`fileByte` (`0` where no block is allocated).  Under `Owned`, allocating a block changes
no byte of the file (`Owned.balloc`, `Owned.setDirect`, `Owned.setIndirect`,
`Owned.setEntry`: the new block is zeroed), and a write of the block at the place of block
`bn` changes the bytes of block `bn` only (`Owned.write_data`).
-/

namespace Xv6

instance : NeZero NINDIRECT := ⟨by decide⟩

/-- A place of an inode that holds a block number: direct address `k`, the indirect block,
or entry `j` of the indirect block. -/
inductive Place where
  | direct (k : Fin NDIRECT)
  | indirect
  | entry (j : Fin NINDIRECT)
deriving DecidableEq

/-- `ip->addrs[NDIRECT]`, the indirect block. -/
def Inode.ind (ip : Inode) : UInt32 := ip.addrs (Fin.last NDIRECT)

namespace Place

/-- The block number at a place of `ip` on the disk `d`; the entries of a missing indirect
block are `0`. -/
def ref (d : Disk) (ip : Inode) : Place → UInt32
  | direct k => ip.addrs k.castSucc
  | indirect => ip.ind
  | entry j => if ip.ind = 0 then 0 else Bytes.getU32 (d.blocks ip.ind) (4 * j.val)

end Place

/-- The place of block `bn` of a file, for `bn < MAXFILE`: the two cases of `bmap`. -/
def blockPlace (bn : ℕ) : Place :=
  if h : bn < NDIRECT then .direct ⟨bn, h⟩ else .entry (Fin.ofNat NINDIRECT (bn - NDIRECT))

/-- Byte `o` of the file: the byte of the block at its place, and `0` where no block is
allocated or past `MAXFILE` blocks. -/
def fileByte (d : Disk) (ip : Inode) (o : ℕ) : UInt8 :=
  if o / BSIZE < MAXFILE ∧ (blockPlace (o / BSIZE)).ref d ip ≠ 0 then
    d.blocks ((blockPlace (o / BSIZE)).ref d ip) (Fin.ofNat BSIZE o)
  else 0

/-- The blocks the inode `ip` owns on the disk `d`. -/
structure Owned (d : Disk) (ip : Inode) : Prop where
  metaInUse : ∀ b : UInt32, b.toNat < nmeta → d.inUse b = true
  data : ∀ pl : Place, pl.ref d ip ≠ 0 →
    nmeta ≤ (pl.ref d ip).toNat ∧ (pl.ref d ip).toNat < FSSIZE ∧ d.inUse (pl.ref d ip) = true
  unique : ∀ pl pl' : Place, pl.ref d ip ≠ 0 → pl.ref d ip = pl'.ref d ip → pl = pl'

/-- A block that may become the inode's: a zeroed data block in use that no place names. -/
structure Fresh (d : Disk) (ip : Inode) (x : UInt32) : Prop where
  data : nmeta ≤ x.toNat
  lt : x.toNat < FSSIZE
  inUse : d.inUse x = true
  zero : d.blocks x = fun _ => 0
  not_ref : ∀ pl : Place, pl.ref d ip ≠ x

lemma nmeta_pos : 0 < nmeta := by decide

lemma nmeta_lt_FSSIZE : nmeta < FSSIZE := by decide

lemma Fresh.ne_zero {d : Disk} {ip : Inode} {x : UInt32} (hx : Fresh d ip x) : x ≠ 0 := by
  intro h
  have := hx.data
  rw [h] at this
  exact absurd this (by decide)

/-! ## Places -/

lemma blockPlace_ne_indirect (bn : ℕ) : blockPlace bn ≠ .indirect := by
  unfold blockPlace
  split <;> simp

/-- Blocks of a file below `MAXFILE` have places of their own. -/
lemma blockPlace_injective {a b : ℕ} (ha : a < MAXFILE) (hb : b < MAXFILE)
    (h : blockPlace a = blockPlace b) : a = b := by
  have hmax : MAXFILE = NDIRECT + NINDIRECT := rfl
  unfold blockPlace at h
  split at h <;> split at h
  · simpa using h
  · cases h
  · cases h
  · rename_i hna hnb
    simp only [Place.entry.injEq, Fin.ext_iff, Fin.val_ofNat] at h
    rw [Nat.mod_eq_of_lt (by omega), Nat.mod_eq_of_lt (by omega)] at h
    omega

/-- A place's block number on the disk depends only on the indirect block's bytes. -/
lemma ref_congr {d d' : Disk} {ip : Inode} (pl : Place)
    (h : ip.ind ≠ 0 → d'.blocks ip.ind = d.blocks ip.ind) : pl.ref d' ip = pl.ref d ip := by
  cases pl with
  | direct k => rfl
  | indirect => rfl
  | entry j =>
    simp only [Place.ref]
    split_ifs with hind
    · rfl
    · rw [h hind]

/-- An owned inode's indirect block is named at no other place. -/
lemma Owned.ref_ne_ind {d : Disk} {ip : Inode} (ho : Owned d ip) {pl : Place}
    (hpl : pl ≠ .indirect) (hind : ip.ind ≠ 0) : pl.ref d ip ≠ ip.ind := fun h =>
  hpl (ho.unique .indirect pl hind h.symm).symm

/-- Below `FSSIZE` the bit of a block lies in a metadata block. -/
lemma BBLOCK_ne_of_data {x y : UInt32} (hx : nmeta ≤ x.toNat) (hy : y.toNat < FSSIZE) :
    x ≠ Disk.BBLOCK y := by
  intro h
  have := Disk.BBLOCK_lt_nmeta hy
  rw [← h] at this
  omega

/-- A write of a data block changes no bit of a block below `FSSIZE`. -/
lemma inUse_write_data {d : Disk} {x y : UInt32} (hx : nmeta ≤ x.toNat) (hy : y.toNat < FSSIZE)
    (blk : Block) : (d.write x blk).inUse y = d.inUse y :=
  d.inUse_write_of_ne (BBLOCK_ne_of_data hx hy) blk

/-- An inode with no block owns its blocks on a disk whose metadata blocks are marked in use:
a file as `ialloc` makes it. -/
lemma owned_of_addrs_zero {d : Disk} {ip : Inode}
    (hmeta : ∀ b : UInt32, b.toNat < nmeta → d.inUse b = true) (h : ∀ k, ip.addrs k = 0) :
    Owned d ip := by
  have hzero : ∀ pl : Place, pl.ref d ip = 0 := fun pl => by
    cases pl with
    | direct k => exact h _
    | indirect => exact h _
    | entry j => simp [Place.ref, Inode.ind, h]
  exact ⟨hmeta, fun pl hpl => absurd (hzero pl) hpl, fun pl _ hpl => absurd (hzero pl) hpl⟩

/-- `Owned` carries over to a disk and an inode with the same places and the same bits. -/
lemma Owned.of_ref_eq {d d' : Disk} {ip ip' : Inode} (ho : Owned d ip)
    (href : ∀ pl : Place, pl.ref d' ip' = pl.ref d ip)
    (hinUse : ∀ b : UInt32, b.toNat < FSSIZE → d.inUse b = true → d'.inUse b = true) :
    Owned d' ip' := by
  refine ⟨fun b hb => ?_, fun pl hpl => ?_, fun pl pl' hpl he => ?_⟩
  · exact hinUse b (by have := nmeta_lt_FSSIZE; omega) (ho.metaInUse b hb)
  · rw [href] at hpl ⊢
    obtain ⟨hmeta, hlt, hin⟩ := ho.data pl hpl
    exact ⟨hmeta, hlt, hinUse _ hlt hin⟩
  · rw [href, href] at he
    rw [href] at hpl
    exact ho.unique pl pl' hpl he

/-! ## A new block at a place without one -/

/-- The one change to the places is a fresh block at a place that had none. -/
lemma Owned.update {d d' : Disk} {ip ip' : Inode} (ho : Owned d ip) {pl₀ : Place} {x : UInt32}
    (hx : Fresh d ip x)
    (href : ∀ pl : Place, pl.ref d' ip' = if pl = pl₀ then x else pl.ref d ip)
    (hinUse : ∀ b : UInt32, b.toNat < FSSIZE → d.inUse b = true → d'.inUse b = true) :
    Owned d' ip' := by
  refine ⟨fun b hb => ?_, fun pl hpl => ?_, fun pl pl' hpl he => ?_⟩
  · exact hinUse b (by have := nmeta_lt_FSSIZE; omega) (ho.metaInUse b hb)
  · rw [href] at hpl ⊢
    split
    · exact ⟨hx.data, hx.lt, hinUse x hx.lt hx.inUse⟩
    · rename_i hne
      rw [if_neg hne] at hpl
      obtain ⟨hmeta, hlt, hin⟩ := ho.data pl hpl
      exact ⟨hmeta, hlt, hinUse _ hlt hin⟩
  · rw [href, href] at he
    rw [href] at hpl
    by_cases h : pl = pl₀ <;> by_cases h' : pl' = pl₀
    · rw [h, h']
    · rw [if_pos h, if_neg h'] at he
      exact absurd he.symm (hx.not_ref pl')
    · rw [if_neg h, if_pos h'] at he
      exact absurd he (hx.not_ref pl)
    · rw [if_neg h, if_neg h'] at he
      rw [if_neg h] at hpl
      exact ho.unique pl pl' hpl he

/-- A fresh block at a place that had none changes no byte of the file. -/
lemma fileByte_update {d d' : Disk} {ip ip' : Inode} {pl₀ : Place} {x : UInt32}
    (h0 : pl₀.ref d ip = 0) (hzero : d'.blocks x = fun _ => 0)
    (href : ∀ pl : Place, pl.ref d' ip' = if pl = pl₀ then x else pl.ref d ip)
    (hblocks : ∀ pl : Place, pl ≠ .indirect → pl.ref d ip ≠ 0 →
      d'.blocks (pl.ref d ip) = d.blocks (pl.ref d ip)) :
    fileByte d' ip' = fileByte d ip := by
  funext o
  unfold fileByte
  rw [href]
  by_cases h : blockPlace (o / BSIZE) = pl₀
  · -- the new block is zeroed, and the place read as `0` before
    rw [if_pos h, h, h0, hzero]
    split <;> simp
  · rw [if_neg h]
    by_cases hb : (blockPlace (o / BSIZE)).ref d ip = 0
    · simp [hb]
    · rw [hblocks _ (blockPlace_ne_indirect _) hb]

/-! ## The allocating steps -/

/-- `balloc` under `Owned`: the block it returns is fresh, and nothing the inode names or
holds changes. -/
theorem Owned.balloc {d d' : Disk} {ip : Inode} {x : UInt32} (ho : Owned d ip)
    (h : d.balloc = .ok (x, d')) :
    Owned d' ip ∧ Fresh d' ip x ∧ (∀ pl : Place, pl.ref d' ip = pl.ref d ip) ∧
      fileByte d' ip = fileByte d ip := by
  obtain ⟨hfree, hlt, rfl⟩ := d.balloc_spec h
  have hsize : sb.size.toNat = FSSIZE := rfl
  rw [hsize] at hlt
  -- the block handed out is a data block that no place names
  have hdata : nmeta ≤ x.toNat := by
    by_contra hx
    rw [ho.metaInUse x (by omega)] at hfree
    cases hfree
  have hnot : ∀ pl : Place, pl.ref d ip ≠ x := by
    intro pl hpl
    have hx0 : pl.ref d ip ≠ 0 := by
      rw [hpl]
      intro h0
      rw [h0] at hdata
      exact absurd hdata (by decide)
    have hin := (ho.data pl hx0).2.2
    rw [hpl, hfree] at hin
    cases hin
  -- `balloc` writes the bitmap block of `x` and `x` itself
  have hblocks : ∀ y, nmeta ≤ y.toNat → y ≠ x →
      ((d.markInUse x).bzero x).blocks y = d.blocks y := by
    intro y hy hyx
    unfold Disk.bzero
    rw [Disk.write_blocks, if_neg hyx, Disk.markInUse_blocks_of_ne]
    exact fun h => BBLOCK_ne_of_data hy hlt h
  have hinUse : ∀ y : UInt32, y.toNat < FSSIZE → y ≠ x →
      ((d.markInUse x).bzero x).inUse y = d.inUse y := by
    intro y hy hyx
    unfold Disk.bzero
    rw [inUse_write_data hdata hy, d.inUse_markInUse_of_ne (Ne.symm hyx)]
  have href : ∀ pl : Place, pl.ref ((d.markInUse x).bzero x) ip = pl.ref d ip := fun pl =>
    ref_congr pl fun hind => hblocks _ (ho.data .indirect hind).1 (hnot .indirect)
  refine ⟨?_, ⟨hdata, hlt, ?_, ?_, fun pl => by rw [href]; exact hnot pl⟩, href, ?_⟩
  · refine ho.of_ref_eq href fun b hb hin => ?_
    by_cases hbx : b = x
    · rw [hbx] at hin
      rw [hfree] at hin
      cases hin
    · rw [hinUse b hb hbx]
      exact hin
  · unfold Disk.bzero
    rw [inUse_write_data hdata hlt]
    exact d.inUse_markInUse_self x
  · unfold Disk.bzero
    simp [Disk.write]
  · funext o
    unfold fileByte
    simp only [href]
    split
    · rename_i hpl
      rw [hblocks _ (ho.data _ hpl.2).1 (hnot _)]
    · rfl

/-- The indirect block is not a direct address. -/
@[simp] lemma Inode.ind_setAddr_castSucc (ip : Inode) (k : Fin NDIRECT) (x : UInt32) :
    (ip.setAddr k.castSucc x).ind = ip.ind := by
  simp only [Inode.ind, Inode.setAddr]
  exact Function.update_of_ne (Fin.castSucc_lt_last k).ne' _ _

@[simp] lemma Inode.ind_setAddr_last (ip : Inode) (x : UInt32) :
    (ip.setAddr (Fin.last NDIRECT) x).ind = x := by
  simp [Inode.ind, Inode.setAddr]

/-- `ip->addrs[k] = x` for a direct address changes the place `direct k` only. -/
lemma ref_setAddr_direct (d : Disk) (ip : Inode) (k : Fin NDIRECT) (x : UInt32) (pl : Place) :
    pl.ref d (ip.setAddr k.castSucc x) = if pl = .direct k then x else pl.ref d ip := by
  cases pl with
  | direct k' =>
    simp only [Place.ref, Inode.setAddr, Place.direct.injEq]
    by_cases h : k' = k
    · subst h
      simp
    · rw [Function.update_of_ne (fun h' => h (Fin.castSucc_injective _ h')), if_neg h]
  | indirect => simp [Place.ref]
  | entry j => simp [Place.ref]

/-- A new indirect block, zeroed, changes the place `indirect` only: its entries read `0`,
as those of the missing block did. -/
lemma ref_setAddr_indirect {d : Disk} {ip : Inode} {x : UInt32} (hind : ip.ind = 0)
    (hzero : d.blocks x = fun _ => 0) (pl : Place) :
    pl.ref d (ip.setAddr (Fin.last NDIRECT) x) = if pl = .indirect then x else pl.ref d ip := by
  cases pl with
  | direct k =>
    simp only [Place.ref, Inode.setAddr, reduceCtorEq, if_false]
    exact Function.update_of_ne (Fin.castSucc_lt_last k).ne _ _
  | indirect => simp [Place.ref]
  | entry j => simp [Place.ref, hind, hzero, Bytes.getU32_zero]

/-- A store into entry `j` of the indirect block changes the place `entry j` only. -/
lemma ref_setEntry {d : Disk} {ip : Inode} (hind : ip.ind ≠ 0) (j : Fin NINDIRECT) (x : UInt32)
    (pl : Place) :
    pl.ref (d.write ip.ind (Bytes.setU32 (d.blocks ip.ind) (4 * j.val) x)) ip =
      if pl = .entry j then x else pl.ref d ip := by
  have hj := j.isLt
  have hN : NINDIRECT = 128 := rfl
  have hB : BSIZE = 512 := rfl
  cases pl with
  | direct k => simp [Place.ref]
  | indirect => simp [Place.ref]
  | entry j' =>
    simp only [Place.ref, if_neg hind, Disk.write, Function.update_self, Place.entry.injEq]
    by_cases h : j' = j
    · subst h
      rw [if_pos rfl, Bytes.getU32_setU32_self _ (by omega)]
    · have hne : j'.val ≠ j.val := fun h' => h (Fin.ext h')
      have hj' := j'.isLt
      rw [if_neg h, Bytes.getU32_setU32_of_disjoint _ (by omega) (by omega)]

/-- A fresh block as direct address `k`, which had none. -/
theorem Owned.setDirect {d : Disk} {ip : Inode} {k : Fin NDIRECT} {x : UInt32} (ho : Owned d ip)
    (hk : (Place.direct k).ref d ip = 0) (hx : Fresh d ip x) :
    Owned d (ip.setAddr k.castSucc x) ∧ fileByte d (ip.setAddr k.castSucc x) = fileByte d ip :=
  ⟨ho.update hx (ref_setAddr_direct d ip k x) fun _ _ h => h,
    fileByte_update hk hx.zero (ref_setAddr_direct d ip k x) fun _ _ _ => rfl⟩

/-- A fresh block as the indirect block, where there was none. -/
theorem Owned.setIndirect {d : Disk} {ip : Inode} {x : UInt32} (ho : Owned d ip)
    (hind : ip.ind = 0) (hx : Fresh d ip x) :
    Owned d (ip.setAddr (Fin.last NDIRECT) x) ∧
      fileByte d (ip.setAddr (Fin.last NDIRECT) x) = fileByte d ip :=
  ⟨ho.update hx (ref_setAddr_indirect hind hx.zero) fun _ _ h => h,
    fileByte_update (show Place.indirect.ref d ip = 0 from hind) hx.zero (ref_setAddr_indirect hind hx.zero) fun _ _ _ => rfl⟩

/-- A fresh block as entry `j` of the indirect block, which had none. -/
theorem Owned.setEntry {d : Disk} {ip : Inode} {j : Fin NINDIRECT} {x : UInt32} (ho : Owned d ip)
    (hind : ip.ind ≠ 0) (hj : (Place.entry j).ref d ip = 0) (hx : Fresh d ip x) :
    Owned (d.write ip.ind (Bytes.setU32 (d.blocks ip.ind) (4 * j.val) x)) ip ∧
      fileByte (d.write ip.ind (Bytes.setU32 (d.blocks ip.ind) (4 * j.val) x)) ip =
        fileByte d ip := by
  have hmeta := (ho.data .indirect hind).1
  -- the indirect block is neither the fresh block nor a data block of the file
  have hxind : x ≠ ip.ind := fun h => hx.not_ref .indirect h.symm
  refine ⟨ho.update hx (ref_setEntry hind j x) fun b hb h => (inUse_write_data hmeta hb _).trans h,
    fileByte_update hj ?_ (ref_setEntry hind j x) fun pl hpl h0 => ?_⟩
  · simp only [Disk.write, Function.update_of_ne hxind]
    exact hx.zero
  · simp only [Disk.write, Function.update_of_ne (ho.ref_ne_ind hpl hind)]

/-- A write of the block at the place of block `bn` keeps the places and changes the bytes
of block `bn` of the file only. -/
theorem Owned.write_data {d : Disk} {ip : Inode} {bn : ℕ} {b : UInt32} (ho : Owned d ip)
    (hbn : bn < MAXFILE) (hb : (blockPlace bn).ref d ip = b) (hb0 : b ≠ 0) (blk : Block) :
    Owned (d.write b blk) ip ∧ (∀ pl : Place, pl.ref (d.write b blk) ip = pl.ref d ip) ∧
      ∀ o, fileByte (d.write b blk) ip o =
        if o / BSIZE = bn then blk (Fin.ofNat BSIZE o) else fileByte d ip o := by
  have hmeta : nmeta ≤ b.toNat := hb ▸ (ho.data _ (hb ▸ hb0)).1
  have href : ∀ pl : Place, pl.ref (d.write b blk) ip = pl.ref d ip := fun pl =>
    ref_congr pl fun hind => by
      have hne : b ≠ ip.ind := hb ▸ ho.ref_ne_ind (blockPlace_ne_indirect bn) hind
      simp only [Disk.write, Function.update_of_ne (Ne.symm hne)]
  refine ⟨ho.of_ref_eq href fun b' hb' h => (inUse_write_data hmeta hb' _).trans h, href, fun o => ?_⟩
  unfold fileByte
  simp only [href]
  by_cases ho' : o / BSIZE = bn
  · subst ho'
    simp [hbn, hb, hb0, Disk.write]
  · rw [if_neg ho']
    split
    · -- another block of the file, which is not `b`
      rename_i hpl
      have hne : (blockPlace (o / BSIZE)).ref d ip ≠ b := fun h =>
        ho' (blockPlace_injective hpl.1 hbn (ho.unique _ _ hpl.2 (h.trans hb.symm)))
      simp only [Disk.write, Function.update_of_ne hne]
    · rfl

end Xv6
