import Xv6.Fs.Block
import Xv6.Lib.Prog
import Xv6.Lib.Slots

/-!
# The inode cache (fs.c, file.h)

The kernel keeps `NINODE` slots of `struct inode`, in-memory copies of inodes.  `iget`
takes a slot for an inode number (the one already referenced, or a free one, marked not
yet read); `ilock` reads the dinode into a slot that has not been read; `iupdate` writes a
slot back to its dinode.  The cache is write-through by convention only: `bmap` stores a
new block number into the slot and does not call `iupdate`, so a slot can name blocks its
dinode does not, until the next `iupdate`, or for good if the slot is dropped first.

A slot's device (there is one disk) and its sleep-lock are not modelled: each call of the
model runs whole.
-/

namespace Xv6

open Prog

/-- `NINODE` (param.h): the slots of the inode cache. -/
def NINODE : ℕ := 50

instance : NeZero NINODE := ⟨by decide⟩

/-- `ROOTINO` (fs.h): the root directory's inode number. -/
def ROOTINO : UInt32 := 1

/-- `T_DIR` (stat.h). -/
def T_DIR : Int16 := 1

/-- `T_FILE` (stat.h). -/
def T_FILE : Int16 := 2

/-- `T_DEV` (stat.h). -/
def T_DEV : Int16 := 3

/-- `NDEV` (param.h): the major device numbers. -/
def NDEV : Int16 := 10

/-- `CONSOLE` (file.h): the major number of the console, the one driver `consoleinit`
enters into `devsw`. -/
def CONSOLE : Int16 := 1

namespace Dinode

/-- What `memset(dip, 0, sizeof(*dip))` leaves. -/
def zero : Dinode := ⟨0, 0, 0, 0, 0, fun _ => 0⟩

end Dinode

/-- Write the dinode of `inum` in its inode block. -/
def Disk.writeInode (d : Disk) (inum : UInt32) (dip : Dinode) : Disk :=
  { d with inodes := Function.update d.inodes inum dip }

@[simp] lemma Disk.writeInode_blocks (d : Disk) (inum : UInt32) (dip : Dinode) :
    (d.writeInode inum dip).blocks = d.blocks := rfl

@[simp] lemma Disk.inUse_writeInode (d : Disk) (inum : UInt32) (dip : Dinode) :
    (d.writeInode inum dip).inUse = d.inUse := rfl

/-- `struct inode` (file.h), a slot of the inode cache. -/
structure Inode where
  inum : UInt32
  ref : ℕ
  valid : Bool
  type : Int16
  major : Int16
  minor : Int16
  nlink : Int16
  size : UInt32
  addrs : Fin (NDIRECT + 1) → UInt32

namespace Inode

/-- The fields that `iupdate` copies to the dinode. -/
def toDinode (ip : Inode) : Dinode := ⟨ip.type, ip.major, ip.minor, ip.nlink, ip.size, ip.addrs⟩

/-- `ip->addrs[k] = a`. -/
def setAddr (ip : Inode) (k : Fin (NDIRECT + 1)) (a : UInt32) : Inode :=
  { ip with addrs := Function.update ip.addrs k a }

/-- The fields that `ilock` reads from the dinode, and `ip->valid = 1`. -/
def load (ip : Inode) (dip : Dinode) : Inode :=
  { ip with type := dip.type, major := dip.major, minor := dip.minor, nlink := dip.nlink,
            size := dip.size, addrs := dip.addrs, valid := true }

@[simp] lemma setAddr_inum (ip : Inode) (k : Fin (NDIRECT + 1)) (a : UInt32) :
    (ip.setAddr k a).inum = ip.inum := rfl

@[simp] lemma setAddr_ref (ip : Inode) (k : Fin (NDIRECT + 1)) (a : UInt32) :
    (ip.setAddr k a).ref = ip.ref := rfl

@[simp] lemma setAddr_valid (ip : Inode) (k : Fin (NDIRECT + 1)) (a : UInt32) :
    (ip.setAddr k a).valid = ip.valid := rfl

@[simp] lemma setAddr_size (ip : Inode) (k : Fin (NDIRECT + 1)) (a : UInt32) :
    (ip.setAddr k a).size = ip.size := rfl

@[simp] lemma setAddr_type (ip : Inode) (k : Fin (NDIRECT + 1)) (a : UInt32) :
    (ip.setAddr k a).type = ip.type := rfl

@[simp] lemma toDinode_addrs (ip : Inode) : ip.toDinode.addrs = ip.addrs := rfl

@[simp] lemma load_toDinode (ip : Inode) (dip : Dinode) : (ip.load dip).toDinode = dip := rfl

end Inode

/-- The file system: the disk, and the inode cache. -/
structure Fs where
  disk : Disk
  icache : Fin NINODE → Inode

namespace Fs

variable (s : Fs)

/-- Replace slot `p`. -/
def setInode (p : Fin NINODE) (ip : Inode) : Fs := { s with icache := Function.update s.icache p ip }

/-- Replace the disk. -/
def setDisk (d : Disk) : Fs := { s with disk := d }

@[simp] lemma setInode_disk (p : Fin NINODE) (ip : Inode) : (s.setInode p ip).disk = s.disk := rfl

@[simp] lemma setInode_icache_self (p : Fin NINODE) (ip : Inode) : (s.setInode p ip).icache p = ip := by
  simp [setInode]

@[simp] lemma setDisk_disk (d : Disk) : (s.setDisk d).disk = d := rfl

@[simp] lemma setDisk_icache (d : Disk) : (s.setDisk d).icache = s.icache := rfl

end Fs

/-! ## The calls -/

/-- `ip` of the slot `p`. -/
def getInode (p : Fin NINODE) : Prog Fs Inode := fun s => .ok (s.icache p) s

/-- A change to the fields of slot `p`. -/
def modifyInode (p : Fin NINODE) (f : Inode → Inode) : Prog Fs Unit :=
  Prog.modify fun s => s.setInode p (f (s.icache p))

/-- A change to the disk. -/
def modifyDisk (f : Disk → Disk) : Prog Fs Unit := Prog.modify fun s => s.setDisk (f s.disk)

@[simp] lemma getInode_apply (p : Fin NINODE) (s : Fs) : getInode p s = .ok (s.icache p) s := rfl

@[simp] lemma modifyInode_apply (p : Fin NINODE) (f : Inode → Inode) (s : Fs) :
    modifyInode p f s = .ok () (s.setInode p (f (s.icache p))) := rfl

@[simp] lemma modifyDisk_apply (f : Disk → Disk) (s : Fs) :
    modifyDisk f s = .ok () (s.setDisk (f s.disk)) := rfl

/-- `balloc(dev)`, whose `panic` halts the machine. -/
def balloc : Prog Fs UInt32 := fun s =>
  match s.disk.balloc with
  | .ok (x, d) => .ok x (s.setDisk d)
  | .error msg => .panic msg

/-- `bfree(dev, b)`. -/
def bfree (b : UInt32) : Prog Fs Unit := fun s =>
  match s.disk.bfree b with
  | .ok d => .ok () (s.setDisk d)
  | .error msg => .panic msg

/-- `iget(dev, inum)`: the referenced slot of `inum` with one more reference, or else the
first free slot, given to `inum` and marked not read. -/
def iget (inum : UInt32) : Prog Fs (Fin NINODE) := fun s =>
  match Slots.first s.icache (fun ip => decide (0 < ip.ref) && ip.inum == inum) with
  | some p => .ok p (s.setInode p { s.icache p with ref := (s.icache p).ref + 1 })
  | none =>
    -- Recycle an inode cache entry.
    match Slots.first s.icache (fun ip => ip.ref == 0) with
    | some p => .ok p (s.setInode p { s.icache p with inum := inum, ref := 1, valid := false })
    | none => .panic "iget: no inodes"

/-- `idup(ip)`. -/
def idup (p : Fin NINODE) : Prog Fs (Fin NINODE) := do
  modifyInode p fun ip => { ip with ref := ip.ref + 1 }
  pure p

/-- `ialloc(dev, type)`: the first free dinode from `1` below `sb.ninodes`, zeroed and given
`type`, and its slot from `iget`. -/
def ialloc (type : Int16) : Prog Fs (Fin NINODE) := do
  let s ← get
  match (List.range' 1 (sb.ninodes.toNat - 1)).find? (fun inum =>
      (s.disk.inodes inum.toUInt32).type == 0) with
  | some inum => do
    -- a free inode: mark it allocated on the disk
    modifyDisk fun d => d.writeInode inum.toUInt32 { Dinode.zero with type := type }
    iget inum.toUInt32
  | none => Prog.panic "ialloc: no inodes"

/-- `iupdate(ip)`: copy the slot to its dinode. -/
def iupdate (p : Fin NINODE) : Prog Fs Unit :=
  Prog.modify fun s => s.setDisk (s.disk.writeInode (s.icache p).inum (s.icache p).toDinode)

@[simp] lemma iupdate_apply (p : Fin NINODE) (s : Fs) :
    iupdate p s = .ok () (s.setDisk (s.disk.writeInode (s.icache p).inum (s.icache p).toDinode)) :=
  rfl

/-- `ilock(ip)`: read the dinode into a slot not read yet. -/
def ilock (p : Fin NINODE) : Prog Fs Unit := fun s =>
  let ip := s.icache p
  if ip.ref < 1 then .panic "ilock"
  else if ip.valid then .ok () s
  else
    let dip := s.disk.inodes ip.inum
    if dip.type = 0 then .panic "ilock: no type"
    else .ok () (s.setInode p (ip.load dip))

/-- `iunlock(ip)`; whether the caller holds the sleep-lock is not modelled. -/
def iunlock (p : Fin NINODE) : Prog Fs Unit := fun s =>
  if (s.icache p).ref < 1 then .panic "iunlock" else .ok () s

end Xv6
