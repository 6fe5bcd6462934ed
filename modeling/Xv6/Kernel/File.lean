import Xv6.Kernel.Vm

/-!
# Open files (file.c, sysfile.c)

The file table is where the memory-mapping code meets the file system: `sys_mmap` takes a
reference with `filedup`, `do_mmap` fills pages with `fileread`, `do_munmap` writes them
back with `filewrite`, and `exit` drops references with `fileclose`.  An inode file goes
to the file-system model of Fs/: `ilock`, `readi` and `writei` on the slot the file
holds, and `iput` when the last reference goes.  Of a pipe and of a device driver only
the counts they return are kept (`Kernel.io`); the transactions that `filewrite` wraps
around `writei` are the subject of the log model.
-/

namespace Xv6

open Prog

/-- `filedup(f)`: one more reference; a file with none is a kernel bug. -/
def filedup (f : Fin NFILE) : Prog Kernel Unit := fun k =>
  let x := k.ftable f
  if x.ref < 1 then .panic "filedup"
  else .ok () (k.setFile f { x with ref := x.ref + 1 })

/-- `fileclose(f)`: one reference less; the last one frees the slot and, for an inode,
drops the file's reference to it (`pipeclose` is below the pipe model). -/
def fileclose (f : Fin NFILE) : Prog Kernel Unit := do
  let k ← get
  let x := k.ftable f
  if x.ref < 1 then Prog.panic "fileclose"
  else if x.ref - 1 > 0 then Prog.modify fun k => k.setFile f { x with ref := x.ref - 1 }
  else do
    Prog.modify fun k => k.setFile f { x with ref := 0, type := .FD_NONE }
    if x.type = .FD_INODE then onFs (iput x.ip) else pure ()

/-- `fileread(f, addr, n)`: the count of bytes read.  For an inode, the bytes `readi`
copies go to the kernel address `addr`, and the offset moves on by them; a device's
driver answers with a count alone. -/
def fileread (f : Fin NFILE) (addr : UInt32) (n : Int32) : Prog Kernel Int32 := do
  let k ← get
  let x := k.ftable f
  if !x.readable then pure (-1)
  else
    match x.type with
    | .FD_PIPE => pure (k.io.piperead x.pipe n)
    | .FD_INODE => do
      onFs (ilock x.ip)
      let r ← match ← onFs (readi x.ip x.off n.toUInt32) with
        | some (r, dst) => do
          Prog.modify fun k => k.storeBytes addr dst.length fun j => dst.getD j 0
          pure r
        | none => pure (k.io.devread n)
      if r > 0 then Prog.modify fun k => k.setFile f { x with off := x.off + r.toUInt32 }
      onFs (iunlock x.ip)
      pure r
    | .FD_NONE => Prog.panic "fileread"

/-- The largest chunk `filewrite` hands to `writei` in one transaction:
`((MAXOPBLOCKS-1-1-2) / 2) * 512`. -/
def maxWrite : Int32 := ((10 - 1 - 1 - 2) / 2) * 512

/-- The loop of `filewrite(f, addr, n)` for an inode, from byte `i`: the bytes written, or
the panic `"short filewrite"`.  Each pass hands `writei` the bytes of kernel memory from
`addr + i` and moves the file's offset on by what it wrote.  Every pass but the last writes
`maxWrite` bytes, so `fuel` passes with `fuel * maxWrite ≥ n` are enough. -/
def writeLoop (f : Fin NFILE) (addr : UInt32) (n : Int32) : ℕ → Int32 → Prog Kernel Int32
  | 0, i => pure i
  | fuel + 1, i =>
    if i < n then do
      let n1 := if n - i > maxWrite then maxWrite else n - i
      let k ← get
      let x := k.ftable f
      onFs (ilock x.ip)
      let src := (List.range n1.toInt.toNat).map fun j => k.loadByte (addr + i.toUInt32 + j.toUInt32)
      let r ← match ← onFs (writei x.ip src x.off n1.toUInt32) with
        | some r => pure r
        | none => pure (k.io.devwrite n1)
      if r > 0 then Prog.modify fun k => k.setFile f { x with off := x.off + r.toUInt32 }
      onFs (iunlock x.ip)
      if r < 0 then pure i
      else if r ≠ n1 then Prog.panic "short filewrite"
      else writeLoop f addr n fuel (i + r)
    else pure i

/-- `filewrite(f, addr, n)`: `n` if every byte was written, else `-1`. -/
def filewrite (f : Fin NFILE) (addr : UInt32) (n : Int32) : Prog Kernel Int32 := do
  let k ← get
  let x := k.ftable f
  if !x.writable then pure (-1)
  else
    match x.type with
    | .FD_PIPE => pure (k.io.pipewrite x.pipe n)
    | .FD_INODE => do
      let i ← writeLoop f addr n (n.toInt.toNat / 1536 + 1) 0
      pure (if i = n then n else -1)
    | .FD_NONE => Prog.panic "filewrite"

/-- `argfd(n, &fd, &f)` for the argument value `fd`: the open file it names in the
current process, `none` where `argfd` returns `-1`. -/
def argfd (fd : Int32) : Prog Kernel (Option (Fin NFILE)) := fun k =>
  if h : fd < 0 ∨ fd ≥ Int32.ofNat NOFILE then .ok none k
  else
    have hfd : fd.toInt.toNat < NOFILE := by
      simp only [not_or, not_lt, Int32.lt_iff_toInt_lt, Int32.le_iff_toInt_le] at h
      have h16 : (Int32.ofNat NOFILE).toInt = 16 := by decide
      have h0 : (0 : Int32).toInt = 0 := rfl
      simp only [NOFILE]
      omega
    .ok ((k.procs k.cur).ofile ⟨fd.toInt.toNat, hfd⟩) k

/-! ## What the file functions keep -/

namespace BelowProcs

variable {P : Kernel → Prop} (hP : BelowProcs P)
include hP

lemma preserves_onFs {α : Type} (x : Prog Fs α) : Preserves P (onFs x) :=
  Xv6.preserves_onFs hP.setFs x

lemma preserves_filedup (f : Fin NFILE) : Preserves P (filedup f) := by
  intro k hk
  refine ⟨fun _ k' h => ?_, fun k' h => ?_⟩ <;> simp only [filedup] at h <;> split at h <;>
    cases h
  exact hP.setFile _ _ _ hk

lemma preserves_fileclose (f : Fin NFILE) : Preserves P (fileclose f) := by
  refine preserves_get_bind fun k _ => preserves_ite (preserves_panic _) ?_
  refine preserves_ite (preserves_modify fun k hk => hP.setFile _ _ _ hk) ?_
  refine preserves_bind (preserves_modify fun k hk => hP.setFile _ _ _ hk) fun _ => ?_
  exact preserves_ite (hP.preserves_onFs _) (preserves_pure _)

/-- `fileread` copies bytes into kernel memory and moves the file's offset. -/
lemma preserves_fileread (f : Fin NFILE) (addr : UInt32) (n : Int32) :
    Preserves P (fileread f addr n) := by
  refine preserves_get_bind fun k _ => preserves_ite (preserves_pure _) ?_
  split
  · exact preserves_pure _
  · refine preserves_bind (hP.preserves_onFs _) fun _ => ?_
    refine preserves_bind (hP.preserves_onFs _) fun o => ?_
    -- the rest of the call is the join point of the file and the device branch
    extract_lets finish
    have hfinish : ∀ r, Preserves P (finish r) := fun _ =>
      have hunlock := preserves_bind (hP.preserves_onFs _) fun _ => preserves_pure _
      preserves_ite (preserves_bind (preserves_modify fun k hk => hP.setFile _ _ _ hk)
        fun _ => hunlock) hunlock
    rcases o with _ | ⟨r, dst⟩
    · exact preserves_bind (preserves_pure _) hfinish
    · refine preserves_bind (preserves_modify fun k hk => hP.storeBytes _ _ _ hk) fun _ => ?_
      exact preserves_bind (preserves_pure _) hfinish
  · exact preserves_panic _

lemma preserves_writeLoop (f : Fin NFILE) (addr : UInt32) (n : Int32) (fuel : ℕ) (i : Int32) :
    Preserves P (writeLoop f addr n fuel i) := by
  induction fuel generalizing i with
  | zero => exact preserves_pure _
  | succ fuel ih =>
    refine preserves_ite ?_ (preserves_pure _)
    refine preserves_get_bind fun k _ => preserves_bind (hP.preserves_onFs _) fun _ => ?_
    refine preserves_bind (hP.preserves_onFs _) fun o => ?_
    extract_lets finish
    have hfinish : ∀ r, Preserves P (finish r) := fun _ =>
      have hunlock := preserves_bind (hP.preserves_onFs _) fun _ =>
        preserves_ite (preserves_pure _) (preserves_ite (preserves_panic _) (ih _))
      preserves_ite (preserves_bind (preserves_modify fun k hk => hP.setFile _ _ _ hk)
        fun _ => hunlock) hunlock
    rcases o with _ | r <;> exact preserves_bind (preserves_pure _) hfinish

lemma preserves_filewrite (f : Fin NFILE) (addr : UInt32) (n : Int32) :
    Preserves P (filewrite f addr n) := by
  refine preserves_get_bind fun k _ => preserves_ite (preserves_pure _) ?_
  split
  · exact preserves_pure _
  · exact preserves_bind (hP.preserves_writeLoop _ _ _ _ _) fun _ => preserves_pure _
  · exact preserves_panic _

end BelowProcs

/-- `argfd` only reads. -/
lemma preserves_argfd (P : Kernel → Prop) (fd : Int32) : Preserves P (argfd fd) := by
  refine preserves_of_read fun k => ?_
  unfold argfd
  split
  · exact ⟨_, rfl⟩
  · exact ⟨_, rfl⟩

end Xv6
