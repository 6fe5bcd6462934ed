import Xv6.Fs.Inode

/-!
# The content of an inode (fs.c)

An inode's first `NDIRECT` blocks are named in `addrs`, and the next `NINDIRECT` in the
indirect block `addrs[NDIRECT]`, as little-endian `uint`s.  `bmap` finds the disk block of
a block of the file and allocates it, and the indirect block, where there is none;
`itrunc` frees them all; `readi` and `writei` move bytes through `bmap`, block by block;
`iput` drops a reference and frees the inode and its content when that was the last
reference to an inode without links.

The calls act on the slot `p` of the inode cache that the caller holds locked.
`readi` and `writei` on a device hand the request to the driver in `devsw`, whose answer
is outside the model: they return `none` then.
-/

namespace Xv6

open Prog

/-- `if((addr = ip->addrs[k]) == 0) ip->addrs[k] = addr = balloc(ip->dev);`, the load of a
direct address and of the indirect block in `bmap`. -/
def addrAlloc (p : Fin NINODE) (k : Fin (NDIRECT + 1)) : Prog Fs UInt32 := do
  let ip ← getInode p
  if ip.addrs k = 0 then do
    let addr ← balloc
    modifyInode p (·.setAddr k addr)
    pure addr
  else pure (ip.addrs k)

/-- `if((addr = a[bn]) == 0){ a[bn] = addr = balloc(ip->dev); log_write(bp); }` in the
indirect block `ind`. -/
def entryAlloc (ind : UInt32) (bn : ℕ) : Prog Fs UInt32 := do
  let s ← get
  let addr := Bytes.getU32 (s.disk.blocks ind) (4 * bn)
  if addr = 0 then do
    let addr ← balloc
    modifyDisk fun d => d.write ind (Bytes.setU32 (d.blocks ind) (4 * bn) addr)
    pure addr
  else pure addr

/-- `bmap(ip, bn)`: the disk block of block `bn` of the inode, allocated if there is none. -/
def bmap (p : Fin NINODE) (bn : UInt32) : Prog Fs UInt32 :=
  if h : bn.toNat < NDIRECT then addrAlloc p ⟨bn.toNat, by omega⟩
  else
    let bn := bn - NDIRECT.toUInt32
    if bn.toNat < NINDIRECT then do
      -- Load indirect block, allocating if necessary.
      let ind ← addrAlloc p (Fin.last NDIRECT)
      entryAlloc ind bn.toNat
    else Prog.panic "bmap: out of range"

/-- Pass `i` of `itrunc`'s first loop: free the direct block `i`. -/
def itruncDirect (p : Fin NINODE) (i : Fin NDIRECT) : Prog Fs Unit := do
  let ip ← getInode p
  if ip.addrs i.castSucc ≠ 0 then do
    bfree (ip.addrs i.castSucc)
    modifyInode p (·.setAddr i.castSucc 0)

/-- Pass `j` of `itrunc`'s second loop: free the block of entry `j` of the indirect block
`ind`, whose entries stay as they are. -/
def itruncEntry (ind : UInt32) (j : Fin NINDIRECT) : Prog Fs Unit := do
  let s ← get
  let a := Bytes.getU32 (s.disk.blocks ind) (4 * j.val)
  if a ≠ 0 then bfree a

/-- `itrunc(ip)`: free the content, the indirect block last, and set the size to `0`. -/
def itrunc (p : Fin NINODE) : Prog Fs Unit := do
  forM (List.finRange NDIRECT) (itruncDirect p)
  let ip ← getInode p
  let ind := ip.addrs (Fin.last NDIRECT)
  if ind ≠ 0 then do
    forM (List.finRange NINDIRECT) (itruncEntry ind)
    bfree ind
    modifyInode p (·.setAddr (Fin.last NDIRECT) 0)
  modifyInode p fun ip => { ip with size := 0 }
  iupdate p

/-- `iput(ip)`: drop a reference; the last one to an inode without links frees it, its
content first. -/
def iput (p : Fin NINODE) : Prog Fs Unit := do
  let ip ← getInode p
  if ip.valid && ip.nlink == 0 then do
    let r := ip.ref
    if r == 1 then do
      -- inode has no links and no other references: truncate and free.
      itrunc p
      modifyInode p fun ip => { ip with type := 0 }
      iupdate p
      modifyInode p fun ip => { ip with valid := false }
  modifyInode p fun ip => { ip with ref := ip.ref - 1 }

/-- `iunlockput(ip)`. -/
def iunlockput (p : Fin NINODE) : Prog Fs Unit := do
  iunlock p
  iput p

/-- Whether `devsw[major]` has a driver: `consoleinit` installs the console's, and no other. -/
def devswHas (major : Int16) : Bool := major == CONSOLE

/-- `m` bytes of a block from byte `start`. -/
def blockBytes (blk : Block) (start m : ℕ) : List UInt8 :=
  (List.range m).map fun k => blk (Fin.ofNat BSIZE (start + k))

/-- `memmove(bp->data + start, src, m)`; bytes past the end of `src` read as `0`. -/
def copyIn (blk : Block) (start : ℕ) (src : List UInt8) (m : ℕ) : Block := fun a =>
  if start ≤ a.val ∧ a.val < start + m then src.getD (a.val - start) 0 else blk a

/-- `readi`'s loop, from byte `tot` of the `n` to read at offset `off`, with the bytes read so
far: a pass reads what is left of one block, at least one byte, so `n` passes are enough. -/
def readiLoop (p : Fin NINODE) (n : UInt32) :
    ℕ → UInt32 → UInt32 → List UInt8 → Prog Fs (List UInt8)
  | 0, _, _, dst => pure dst
  | fuel + 1, tot, off, dst =>
    if tot < n then do
      let b ← bmap p (off / BSIZE.toUInt32)
      let s ← get
      let m := min (n - tot) (BSIZE.toUInt32 - off % BSIZE.toUInt32)
      readiLoop p n fuel (tot + m) (off + m)
        (dst ++ blockBytes (s.disk.blocks b) (off % BSIZE.toUInt32).toNat m.toNat)
    else pure dst

/-- `readi(ip, dst, off, n)`: the count it returns and the bytes it copies to `dst`. -/
def readi (p : Fin NINODE) (off n : UInt32) : Prog Fs (Option (Int32 × List UInt8)) := do
  let ip ← getInode p
  if ip.type = T_DEV then
    if ip.major < 0 || ip.major ≥ NDEV || !devswHas ip.major then pure (some (-1, []))
    else pure none
  else if off > ip.size || off + n < off then pure (some (-1, []))
  else
    let n := if off + n > ip.size then ip.size - off else n
    let dst ← readiLoop p n n.toNat 0 off []
    pure (some (n.toInt32, dst))

/-- `writei`'s loop, from byte `tot` of the `n` to write at offset `off`; the offset it
ends at. -/
def writeiLoop (p : Fin NINODE) (src : List UInt8) (n : UInt32) :
    ℕ → UInt32 → UInt32 → Prog Fs UInt32
  | 0, _, off => pure off
  | fuel + 1, tot, off =>
    if tot < n then do
      let b ← bmap p (off / BSIZE.toUInt32)
      let m := min (n - tot) (BSIZE.toUInt32 - off % BSIZE.toUInt32)
      modifyDisk fun d =>
        d.write b (copyIn (d.blocks b) (off % BSIZE.toUInt32).toNat (src.drop tot.toNat) m.toNat)
      writeiLoop p src n fuel (tot + m) (off + m)
    else pure off

/-- `writei(ip, src, off, n)`: the count it returns. -/
def writei (p : Fin NINODE) (src : List UInt8) (off n : UInt32) : Prog Fs (Option Int32) := do
  let ip ← getInode p
  if ip.type = T_DEV then
    if ip.major < 0 || ip.major ≥ NDEV || !devswHas ip.major then pure (some (-1))
    else pure none
  else if off > ip.size || off + n < off then pure (some (-1))
  else if off + n > (MAXFILE * BSIZE).toUInt32 then pure (some (-1))
  else do
    let off ← writeiLoop p src n n.toNat 0 off
    let ip ← getInode p
    if n > 0 && off > ip.size then do
      modifyInode p fun ip => { ip with size := off }
      iupdate p
    pure (some n.toInt32)

end Xv6
