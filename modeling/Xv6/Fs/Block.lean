import Xv6.Lib.Bytes
import Xv6.Log.Defs
import Mathlib.Logic.Function.Basic

/-!
# Disk blocks and the free bitmap (fs.h, fs.c, mkfs.c)

The disk is `FSSIZE` blocks of `BSIZE` bytes laid out by mkfs: the boot block, the
superblock, the log, the inode blocks, the free bitmap, then the data blocks.  The bitmap
has one bit per block, `1` when the block is in use; mkfs sets the bits of the `nmeta`
blocks before the data.  `balloc` hands out the first block whose bit is clear, sets the bit
and zeroes the block; `bfree` clears the bit, and panics if it was clear already.

A `Disk` is the disk as the file system sees it: the blocks, as the buffer cache and the
log show them (`Xv6/Log` shows that each operation's writes reach the disk together), and
the inode blocks read as an array of `struct dinode`.  `Disk.inUse d x` is the bit of block
`x`.  The main result is `balloc_spec`, what `balloc` does to the bits and to the blocks,
with the frame lemma `inUse_markInUse_of_ne`: setting a bit changes no other bit.
-/

namespace Xv6

/-- `BSIZE` (fs.h): the size of a block. -/
def BSIZE : ℕ := 512

instance : NeZero BSIZE := ⟨by decide⟩

/-- `NDIRECT` (fs.h): the direct block addresses of an inode. -/
def NDIRECT : ℕ := 12

/-- `NINDIRECT` (fs.h): the `uint` addresses that an indirect block holds. -/
def NINDIRECT : ℕ := BSIZE / 4

/-- `MAXFILE` (fs.h): the most blocks a file has. -/
def MAXFILE : ℕ := NDIRECT + NINDIRECT

/-- `BPB` (fs.h): the bits of one bitmap block. -/
def BPB : ℕ := BSIZE * 8

/-- `FSSIZE` (param.h): the blocks of the file system. -/
def FSSIZE : ℕ := 1000

/-- `NINODES` (mkfs.c): the inodes mkfs makes room for. -/
def NINODES : ℕ := 200

/-- `IPB` (fs.h): the inodes of one block, `BSIZE / sizeof(struct dinode)`. -/
def IPB : ℕ := BSIZE / 64

/-- mkfs's `nbitmap`. -/
def nbitmap : ℕ := FSSIZE / (BSIZE * 8) + 1

/-- mkfs's `ninodeblocks`. -/
def ninodeblocks : ℕ := NINODES / IPB + 1

/-- mkfs's `nlog`. -/
def nlog : ℕ := FsLog.LOGSIZE

/-- mkfs's `nmeta`: the boot block, the superblock, the log, the inode blocks and the bitmap;
the first data block. -/
def nmeta : ℕ := 2 + nlog + ninodeblocks + nbitmap

/-- `struct superblock` (fs.h). -/
structure Superblock where
  size : UInt32
  nblocks : UInt32
  ninodes : UInt32
  nlog : UInt32
  logstart : UInt32
  inodestart : UInt32
  bmapstart : UInt32

/-- The superblock that mkfs writes and `readsb` reads into the global `sb`. -/
def sb : Superblock where
  size := FSSIZE.toUInt32
  nblocks := (FSSIZE - nmeta).toUInt32
  ninodes := NINODES.toUInt32
  nlog := nlog.toUInt32
  logstart := 2
  inodestart := (2 + nlog).toUInt32
  bmapstart := (2 + nlog + ninodeblocks).toUInt32

/-- A block's bytes. -/
abbrev Block := Fin BSIZE → UInt8

/-- `struct dinode` (fs.h). -/
structure Dinode where
  type : Int16
  major : Int16
  minor : Int16
  nlink : Int16
  size : UInt32
  addrs : Fin (NDIRECT + 1) → UInt32

/-- The blocks, and the inode blocks read as `struct dinode`s. -/
structure Disk where
  blocks : UInt32 → Block
  inodes : UInt32 → Dinode

namespace Disk

variable (d : Disk)

/-- `bwrite` of a whole block. -/
def write (b : UInt32) (blk : Block) : Disk := { d with blocks := Function.update d.blocks b blk }

/-- `bzero(dev, bno)`. -/
def bzero (b : UInt32) : Disk := d.write b fun _ => 0

/-- `BBLOCK(b, sb)`: the bitmap block that holds the bit of block `b`. -/
def BBLOCK (b : UInt32) : UInt32 := b / BPB.toUInt32 + sb.bmapstart

/-- `bp->data[bi/8] & m`, with `m = 1 << (bi % 8)`. -/
def bitOf (bp : Block) (bi : ℕ) : UInt8 := bp (Fin.ofNat BSIZE (bi / 8)) &&& Bytes.mask bi

/-- The bit of block `x`: set when the block is in use. -/
def inUse (x : UInt32) : Bool := bitOf (d.blocks (BBLOCK x)) (x % BPB.toUInt32).toNat != 0

/-- `bp->data[bi/8] |= m` for the bit of block `x`. -/
def markInUse (x : UInt32) : Disk :=
  let bp := d.blocks (BBLOCK x)
  let k := Fin.ofNat BSIZE ((x % BPB.toUInt32).toNat / 8)
  d.write (BBLOCK x) (Function.update bp k (bp k ||| Bytes.mask (x % BPB.toUInt32).toNat))

/-- `bp->data[bi/8] &= ~m` for the bit of block `x`. -/
def clearInUse (x : UInt32) : Disk :=
  let bp := d.blocks (BBLOCK x)
  let k := Fin.ofNat BSIZE ((x % BPB.toUInt32).toNat / 8)
  d.write (BBLOCK x) (Function.update bp k (bp k &&& ~~~Bytes.mask (x % BPB.toUInt32).toNat))

/-- `balloc`'s loops: the bitmap blocks, `BPB` blocks apart, and in each the first clear bit
of a block below `sb.size`. -/
def ballocScan : Option (ℕ × ℕ) :=
  ((List.range ((sb.size.toNat + BPB - 1) / BPB)).map (· * BPB)).findSome? fun b =>
    ((List.range BPB).find? fun bi =>
      decide (b + bi < sb.size.toNat) && bitOf (d.blocks (BBLOCK b.toUInt32)) bi == 0).map (b, ·)

/-- `balloc(dev)`: mark the first free block in use, zero it, and return it. -/
def balloc : Except String (UInt32 × Disk) :=
  match d.ballocScan with
  | some (b, bi) =>
    let bb := BBLOCK b.toUInt32
    let bp := d.blocks bb
    let k := Fin.ofNat BSIZE (bi / 8)
    -- Mark block in use.
    let d := d.write bb (Function.update bp k (bp k ||| Bytes.mask bi))
    .ok ((b + bi).toUInt32, d.bzero (b + bi).toUInt32)
  | none => .error "balloc: out of blocks"

/-- `bfree(dev, b)`. -/
def bfree (b : UInt32) : Except String Disk :=
  let bb := BBLOCK b
  let bp := d.blocks bb
  let bi := (b % BPB.toUInt32).toNat
  let k := Fin.ofNat BSIZE (bi / 8)
  if bp k &&& Bytes.mask bi = 0 then .error "freeing free block"
  else .ok (d.write bb (Function.update bp k (bp k &&& ~~~Bytes.mask bi)))

/-! ## Writes of blocks -/

@[simp] lemma write_inodes (b : UInt32) (blk : Block) : (d.write b blk).inodes = d.inodes := rfl

lemma write_blocks (b : UInt32) (blk : Block) (y : UInt32) :
    (d.write b blk).blocks y = if y = b then blk else d.blocks y := by
  simp only [write, Function.update_apply]

@[simp] lemma bzero_inodes (b : UInt32) : (d.bzero b).inodes = d.inodes := rfl

@[simp] lemma markInUse_inodes (x : UInt32) : (d.markInUse x).inodes = d.inodes := rfl

@[simp] lemma clearInUse_inodes (x : UInt32) : (d.clearInUse x).inodes = d.inodes := rfl

/-- A bit write touches the bitmap block of the bit only. -/
lemma markInUse_blocks_of_ne {x y : UInt32} (hy : y ≠ BBLOCK x) :
    (d.markInUse x).blocks y = d.blocks y := by
  simp only [markInUse, write_blocks, if_neg hy]

/-! ## The bitmap -/

lemma toNat_BBLOCK (x : UInt32) : (BBLOCK x).toNat = x.toNat / BPB + (2 + nlog + ninodeblocks) := by
  have hx := x.toNat_lt
  have hb : (sb.bmapstart).toNat = 2 + nlog + ninodeblocks := rfl
  have hbpb : (BPB.toUInt32).toNat = BPB := rfl
  rw [BBLOCK, UInt32.toNat_add, UInt32.toNat_div, hb, hbpb]
  have hnlog : nlog = 30 := rfl
  have hinodes : ninodeblocks = 26 := rfl
  have hbpb' : BPB = 4096 := rfl
  rw [hnlog, hinodes, hbpb']
  omega

/-- The bitmap blocks of the blocks below `sb.size` come before the data. -/
lemma BBLOCK_lt_nmeta {x : UInt32} (hx : x.toNat < sb.size.toNat) : (BBLOCK x).toNat < nmeta := by
  have hsize : sb.size.toNat = FSSIZE := rfl
  have hF : FSSIZE = 1000 := rfl
  have hbpb : BPB = 4096 := rfl
  have hbitmap : nbitmap = 1 := rfl
  rw [toNat_BBLOCK, nmeta, hbpb, hbitmap]
  rw [hsize, hF] at hx
  omega

lemma toNat_mod_BPB (x : UInt32) : (x % BPB.toUInt32).toNat = x.toNat % BPB := by
  rw [UInt32.toNat_mod]
  rfl

/-- Two blocks with their bits in the same bitmap block have them at different places. -/
lemma mod_BPB_ne_of_BBLOCK_eq {x y : UInt32} (hxy : x ≠ y) (hb : BBLOCK x = BBLOCK y) :
    x.toNat % BPB ≠ y.toNat % BPB := by
  have hb' := congrArg UInt32.toNat hb
  rw [toNat_BBLOCK, toNat_BBLOCK] at hb'
  have hne : x.toNat ≠ y.toNat := fun e => hxy (UInt32.toNat_inj.mp e)
  have hbpb : BPB = 4096 := rfl
  rw [hbpb] at hb' ⊢
  omega

lemma val_byte_index (x : UInt32) :
    (Fin.ofNat BSIZE ((x % BPB.toUInt32).toNat / 8)).val = x.toNat % BPB / 8 := by
  rw [toNat_mod_BPB, Fin.val_ofNat]
  apply Nat.mod_eq_of_lt
  have hbpb : BPB = 4096 := rfl
  have hbsize : BSIZE = 512 := rfl
  rw [hbpb, hbsize]
  omega

/-- The bit of `x` reads from its byte. -/
lemma inUse_eq (x : UInt32) :
    d.inUse x = (d.blocks (BBLOCK x) (Fin.ofNat BSIZE ((x % BPB.toUInt32).toNat / 8)) &&&
      Bytes.mask (x % BPB.toUInt32).toNat != 0) := rfl

theorem inUse_markInUse_self (x : UInt32) : (d.markInUse x).inUse x = true := by
  rw [inUse_eq, markInUse]
  rw [write_blocks, if_pos rfl, Function.update_self]
  simpa using Bytes.and_mask_or_mask_self _ _

/-- Setting the bit of `x` leaves the bit of every other block. -/
theorem inUse_markInUse_of_ne {x y : UInt32} (hxy : x ≠ y) :
    (d.markInUse x).inUse y = d.inUse y := by
  by_cases hb : BBLOCK y = BBLOCK x
  · have hmod := mod_BPB_ne_of_BBLOCK_eq hxy hb.symm
    rw [inUse_eq, inUse_eq, markInUse]
    rw [write_blocks, hb, if_pos rfl]
    by_cases hk : Fin.ofNat BSIZE ((y % BPB.toUInt32).toNat / 8) =
        Fin.ofNat BSIZE ((x % BPB.toUInt32).toNat / 8)
    · -- the same byte: another bit of it
      rw [hk, Function.update_self]
      have hbit : (x % BPB.toUInt32).toNat % 8 ≠ (y % BPB.toUInt32).toNat % 8 := by
        have hkv := congrArg Fin.val hk
        rw [val_byte_index, val_byte_index] at hkv
        rw [toNat_mod_BPB, toNat_mod_BPB]
        omega
      rw [Bytes.and_mask_or_mask_of_ne _ hbit]
    · rw [Function.update_of_ne hk]
  · rw [inUse_eq, inUse_eq, markInUse_blocks_of_ne _ hb]

/-- A write of a block that holds no bit of the bitmap leaves every bit. -/
lemma inUse_write_of_ne {b y : UInt32} (hb : b ≠ BBLOCK y) (blk : Block) :
    (d.write b blk).inUse y = d.inUse y := by
  rw [inUse_eq, inUse_eq, write_blocks, if_neg (Ne.symm hb)]

/-! ## `balloc` and `bfree` -/

/-- What `balloc`'s loops find: a clear bit, at a place `bi` of the bitmap block of the
blocks from `b`, a multiple of `BPB`, for the block `b + bi` below `sb.size`. -/
lemma ballocScan_spec {b bi : ℕ} (h : d.ballocScan = some (b, bi)) :
    b % BPB = 0 ∧ bi < BPB ∧ b + bi < sb.size.toNat ∧
      bitOf (d.blocks (BBLOCK b.toUInt32)) bi = 0 := by
  obtain ⟨b', hb', hfind⟩ := List.exists_of_findSome?_eq_some h
  obtain ⟨bi', hbi', hpair⟩ := Option.map_eq_some_iff.mp hfind
  cases hpair
  obtain ⟨k, -, rfl⟩ := List.mem_map.mp hb'
  have hp := List.find?_some hbi'
  have hmem := List.mem_range.mp (List.mem_of_find?_eq_some hbi')
  simp only [Bool.and_eq_true, decide_eq_true_eq, beq_iff_eq] at hp
  exact ⟨Nat.mul_mod_left k BPB, hmem, hp.1, hp.2⟩

/-- `balloc` returns a block below `sb.size` whose bit was clear, after setting the bit and
zeroing the block. -/
theorem balloc_spec {x : UInt32} {d' : Disk} (h : d.balloc = .ok (x, d')) :
    d.inUse x = false ∧ x.toNat < sb.size.toNat ∧ d' = (d.markInUse x).bzero x := by
  unfold balloc at h
  rcases hscan : d.ballocScan with _ | ⟨b, bi⟩
  · rw [hscan] at h
    cases h
  · rw [hscan] at h
    cases h
    obtain ⟨hb, hbi, hlt, hclear⟩ := d.ballocScan_spec hscan
    have hsize : sb.size.toNat = FSSIZE := rfl
    have hF : FSSIZE = 1000 := rfl
    have hbpb : BPB = 4096 := rfl
    -- the block `b + bi` and its place in the bitmap
    have hx : ((b + bi).toUInt32).toNat = b + bi := by
      rw [Nat.toUInt32, UInt32.toNat_ofNat']
      apply Nat.mod_eq_of_lt
      omega
    have hbtoNat : (b.toUInt32).toNat = b := by
      rw [Nat.toUInt32, UInt32.toNat_ofNat']
      apply Nat.mod_eq_of_lt
      omega
    have hbb : BBLOCK (b + bi).toUInt32 = BBLOCK b.toUInt32 := by
      apply UInt32.toNat_inj.mp
      rw [toNat_BBLOCK, toNat_BBLOCK, hx, hbtoNat]
      rw [hbpb] at hb hbi ⊢
      omega
    have hbi' : ((b + bi).toUInt32 % BPB.toUInt32).toNat = bi := by
      rw [toNat_mod_BPB, hx]
      rw [hbpb] at hb hbi ⊢
      omega
    refine ⟨?_, by rw [hx]; exact hlt, ?_⟩
    · unfold bitOf at hclear
      rw [inUse_eq, hbb, hbi', hclear]
      rfl
    · rw [markInUse, hbb, hbi']

end Disk

end Xv6
