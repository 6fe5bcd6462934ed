import Xv6.Lib.Prog
import Xv6.Lib.Slots
import Xv6.Lib.Mask
import Xv6.Fs.Content

/-!
# The kernel state under the memory-mapping code

The records of proc.h, file.h and the physical-page allocator, with C's `int` as `Int32`
and C's `uint` and pointers as `UInt32`, so that the comparisons, casts and wrap-arounds
of the source are those of the model.  A pointer to a `struct file` or a `struct proc`
is an index into `ftable` or `ptable` (`none` for a null pointer).

Physical memory is kept as words: `mem pg i` is the `i`-th word of the page at kernel
address `pg`.  It holds the page directories and page tables, and the user data that the
code modelled here moves: words stored from user mode, pages that `fork` copies, and the
bytes that `fileread` copies into a page and `filewrite` copies out of one.  Below the file
table is the file system of `Fs`: its inode cache and its disk, which `fileread`,
`filewrite`, `fileclose`, `exit` and `fork` reach through `readi`, `writei`, `iput` and
`idup` (`onFs`).
-/

namespace Xv6

/-! ## Constants (param.h, memlayout.h, mmu.h, mmap.h) -/

/-- `NPROC`: the size of the process table. -/
def NPROC : ℕ := 64
/-- `NOFILE`: open files per process. -/
def NOFILE : ℕ := 16
/-- `NFILE`: open files in the system. -/
def NFILE : ℕ := 100
/-- `MAX_MMAPS`: memory mappings per process. -/
def MAX_MMAPS : ℕ := 32

instance : NeZero NPROC := ⟨by decide⟩
instance : NeZero NOFILE := ⟨by decide⟩
instance : NeZero NFILE := ⟨by decide⟩
instance : NeZero MAX_MMAPS := ⟨by decide⟩

/-- `EXTMEM`: the start of extended memory. -/
def EXTMEM : UInt32 := 0x100000
/-- `PHYSTOP`: the top of physical memory. -/
def PHYSTOP : UInt32 := 0xE000000
/-- `DEVSPACE`: where the other devices are mapped. -/
def DEVSPACE : UInt32 := 0xFE000000
/-- `KERNBASE`: the first kernel virtual address; an unsigned constant in C. -/
def KERNBASE : UInt32 := 0x80000000

/-- `KERNLINK`: where the kernel is linked. -/
def KERNLINK : UInt32 := KERNBASE + EXTMEM

/-- `MAP_PRIVATE`. -/
def MAP_PRIVATE : Int32 := 0x0001
/-- `MAP_SHARED`. -/
def MAP_SHARED : Int32 := 0x0002
/-- `MAP_ANONYMOUS`. -/
def MAP_ANONYMOUS : Int32 := 0x0004
/-- `MAP_FIXED`. -/
def MAP_FIXED : Int32 := 0x0008
/-- `MAP_GROWSUP`. -/
def MAP_GROWSUP : Int32 := 0x0010
/-- `PROT_READ`. -/
def PROT_READ : Int32 := 0x1
/-- `PROT_WRITE`. -/
def PROT_WRITE : Int32 := 0x2
/-- `MMAPVIRTBASE`: the bottom of the mapping area; an `int` constant in C. -/
def MMAPVIRTBASE : Int32 := 0x60000000

/-- `PGSIZE`, at the type of the expression it stands in, as the untyped macro is. -/
def PGSIZE {α : Type} [OfNat α 4096] : α := 4096

/-- `PGROUNDUP(sz)`, at any word type. -/
def PGROUNDUP {α : Type} [Add α] [Sub α] [AndOp α] [Complement α] [OfNat α 4096] [OfNat α 1]
    (sz : α) : α :=
  (sz + PGSIZE - 1) &&& ~~~(PGSIZE - 1)

/-- `PGROUNDDOWN(a)`, at any word type. -/
def PGROUNDDOWN {α : Type} [Sub α] [AndOp α] [Complement α] [OfNat α 4096] [OfNat α 1]
    (a : α) : α :=
  a &&& ~~~(PGSIZE - 1)

/-- `PTE_P`: present. -/
def PTE_P : UInt32 := 0x001
/-- `PTE_W`: writeable. -/
def PTE_W : UInt32 := 0x002
/-- `PTE_U`: user. -/
def PTE_U : UInt32 := 0x004

/-- `PDX(va)`: the page-directory index. -/
def PDX (va : UInt32) : UInt32 := (va >>> 22) &&& 0x3FF
/-- `PTX(va)`: the page-table index. -/
def PTX (va : UInt32) : UInt32 := (va >>> 12) &&& 0x3FF
/-- `PTE_ADDR(pte)`: the address in a table entry. -/
def PTE_ADDR (pte : UInt32) : UInt32 := pte &&& ~~~0xFFF
/-- `PTE_FLAGS(pte)`: the flags of a table entry. -/
def PTE_FLAGS (pte : UInt32) : UInt32 := pte &&& 0xFFF

/-- `NPDENTRIES`: entries of a page directory. -/
def NPDENTRIES : ℕ := 1024

/-- `PGADDR(d, t, o)`: the address with directory index `d`, table index `t` and offset
`o`. -/
def PGADDR (d t o : UInt32) : UInt32 := d <<< 22 ||| t <<< 12 ||| o

/-- `V2P(a)`. -/
def V2P (a : UInt32) : UInt32 := a - KERNBASE
/-- `P2V(a)`. -/
def P2V (a : UInt32) : UInt32 := a + KERNBASE

/-! ## Records -/

/-- `struct mmap` (proc.h). -/
structure Mmap where
  va : UInt32
  flags : Int32
  length : Int32
  prot : Int32
  fd : Int32
  fp : Option (Fin NFILE)
  offset : Int32
  isChild : Int32
deriving DecidableEq, Repr

/-- A slot after `memset(entry, 0, sizeof(struct mmap))`. -/
def Mmap.zero : Mmap := ⟨0, 0, 0, 0, 0, none, 0, 0⟩

/-- `enum procstate`. -/
inductive ProcState where
  | UNUSED | EMBRYO | SLEEPING | RUNNABLE | RUNNING | ZOMBIE
deriving DecidableEq, Repr

/-- Where a slot is in the life of a process: free, an embryo that `fork` is building, a
process that has run and not exited, or a zombie. -/
inductive Phase where
  | free | embryo | live | zombie
deriving DecidableEq, Repr

/-- The phase of a state: sleeping, runnable and running are one. -/
def ProcState.phase : ProcState → Phase
  | .UNUSED => .free
  | .EMBRYO => .embryo
  | .SLEEPING | .RUNNABLE | .RUNNING => .live
  | .ZOMBIE => .zombie

/-- The fields of `struct proc` that the memory-mapping code reads or writes. -/
structure Proc where
  /-- Size of process memory. -/
  sz : UInt32
  /-- The page directory. -/
  pgdir : UInt32
  /-- Bottom of the kernel stack. -/
  kstack : UInt32
  state : ProcState
  pid : Int32
  parent : Option (Fin NPROC)
  killed : Bool
  /-- Open files. -/
  ofile : Fin NOFILE → Option (Fin NFILE)
  /-- Current directory: the slot of its inode; `none` is the null pointer `exit` leaves. -/
  cwd : Option (Fin NINODE)
  /-- The memory mappings. -/
  mmaps : Fin MAX_MMAPS → Mmap
  /-- `num_mmaps`. -/
  numMmaps : Int32

/-- A change to a process that keeps its mapping table, its pid, its parent, its phase and
its size: what the fault path, the scheduler and the loops over open files do to a
process. -/
def Proc.Minor (q q' : Proc) : Prop :=
  q'.mmaps = q.mmaps ∧ q'.pid = q.pid ∧ q'.parent = q.parent ∧
    q'.state.phase = q.state.phase ∧ q'.sz = q.sz

/-- The `type` of a `struct file`. -/
inductive FileType where
  | FD_NONE | FD_PIPE | FD_INODE
deriving DecidableEq, Repr

/-- `struct file` (file.h); a pipe is named by its index, an inode by its slot of the inode
cache. -/
structure File where
  type : FileType
  ref : Int32
  readable : Bool
  writable : Bool
  pipe : ℕ
  ip : Fin NINODE
  off : UInt32
deriving DecidableEq, Repr

/-- What the model keeps of the pipes and of the device drivers of `devsw`, by what they
return: the counts of bytes that `piperead` and `pipewrite` move for a pipe, and that a
driver's `read` and `write` move for a request.  The bytes they move are outside the
model. -/
structure Io where
  piperead : ℕ → Int32 → Int32
  pipewrite : ℕ → Int32 → Int32
  devread : Int32 → Int32
  devwrite : Int32 → Int32

/-- The kernel state. -/
structure Kernel where
  /-- `ptable.proc`. -/
  procs : Fin NPROC → Proc
  /-- The process this CPU runs: `myproc()`. -/
  cur : Fin NPROC
  /-- `initproc`. -/
  initproc : Fin NPROC
  /-- `kmem.freelist`, head first. -/
  freelist : List UInt32
  /-- The words of physical pages, by the kernel address of the page: the page directories
  and page tables, and the user data that `fork` copies and user stores write. -/
  mem : UInt32 → UInt32 → UInt32
  /-- `ftable.file`. -/
  ftable : Fin NFILE → File
  /-- `&ftable` (file.c), where the linker put the file table. -/
  ftableAddr : UInt32
  /-- `nextpid`, the pid that `allocproc` hands out next. -/
  nextpid : Int32
  /-- `data`, the first address after the kernel's text and read-only data (kernel.ld). -/
  kdata : UInt32
  /-- `end`, the first address after the kernel image (kernel.ld). -/
  kend : UInt32
  /-- The inode cache and the disk. -/
  fs : Fs
  /-- The pipes and the drivers below the file table. -/
  io : Io

namespace Kernel

/-- The process table and the process this CPU runs. -/
def tasks (k : Kernel) : (Fin NPROC → Proc) × Fin NPROC := (k.procs, k.cur)

/-- Replace the process in slot `p`. -/
@[simps]
def setProc (k : Kernel) (p : Fin NPROC) (q : Proc) : Kernel :=
  { k with procs := Function.update k.procs p q }

/-- Store the word `v` at index `i` of the page at `pg`. -/
@[simps]
def writeWord (k : Kernel) (pg i v : UInt32) : Kernel :=
  { k with mem := Function.update k.mem pg (Function.update (k.mem pg) i v) }

lemma writeWord_mem_of_ne (k : Kernel) {pg a : UInt32} (i v : UInt32) (h : a ≠ pg) :
    (k.writeWord pg i v).mem a = k.mem a := by
  simp only [writeWord]
  exact Function.update_of_ne h _ _

@[simp] lemma writeWord_writeWord (k : Kernel) (pg i v : UInt32) :
    (k.writeWord pg i v).writeWord pg i v = k.writeWord pg i v := by
  simp only [writeWord, Function.update_self, Function.update_idem]

/-- `memset(pg, v, PGSIZE)` on a page, as words. -/
@[simps]
def fillPage (k : Kernel) (pg v : UInt32) : Kernel :=
  { k with mem := Function.update k.mem pg fun _ => v }

/-- `memmove(dst, src, PGSIZE)` from one page to another, as words. -/
@[simps]
def copyPage (k : Kernel) (dst src : UInt32) : Kernel :=
  { k with mem := Function.update k.mem dst (k.mem src) }

/-- Replace the file in slot `f`. -/
@[simps]
def setFile (k : Kernel) (f : Fin NFILE) (x : File) : Kernel :=
  { k with ftable := Function.update k.ftable f x }

/-- The byte at kernel address `a`: byte `a % 4` of its word, little-endian as on the x86. -/
def loadByte (k : Kernel) (a : UInt32) : UInt8 :=
  (k.mem (PGROUNDDOWN a) (a % PGSIZE / 4) >>> (8 * (a % 4))).toUInt8

/-- Store the byte `v` at kernel address `a`. -/
def storeByte (k : Kernel) (a : UInt32) (v : UInt8) : Kernel :=
  let w := k.mem (PGROUNDDOWN a) (a % PGSIZE / 4)
  k.writeWord (PGROUNDDOWN a) (a % PGSIZE / 4)
    ((w &&& ~~~(0xFF <<< (8 * (a % 4)))) ||| (v.toUInt32 <<< (8 * (a % 4))))

/-- `memmove(dst, src, n)` into kernel memory, byte by byte. -/
def storeBytes (k : Kernel) (dst : UInt32) (n : ℕ) (src : ℕ → UInt8) : Kernel :=
  (List.range n).foldl (fun k j => k.storeByte (dst + j.toUInt32) (src j)) k

/-- `&ftable.file[f]`, the value of a `struct file *`: past the table's `struct spinlock`
(52 bytes), `sizeof(struct file)` (24 bytes) apiece; `0` for the null pointer. -/
def filePtr (k : Kernel) : Option (Fin NFILE) → UInt32
  | some f => k.ftableAddr + 52 + 24 * f.val.toUInt32
  | none => 0

@[simp] lemma tasks_writeWord (k : Kernel) (pg i v : UInt32) :
    (k.writeWord pg i v).tasks = k.tasks := rfl

@[simp] lemma tasks_fillPage (k : Kernel) (pg v : UInt32) : (k.fillPage pg v).tasks = k.tasks :=
  rfl

@[simp] lemma tasks_copyPage (k : Kernel) (dst src : UInt32) :
    (k.copyPage dst src).tasks = k.tasks := rfl

@[simp] lemma tasks_setFile (k : Kernel) (f : Fin NFILE) (x : File) :
    (k.setFile f x).tasks = k.tasks := rfl

@[simp] lemma tasks_storeBytes (k : Kernel) (dst : UInt32) (n : ℕ) (src : ℕ → UInt8) :
    (k.storeBytes dst n src).tasks = k.tasks := by
  unfold storeBytes
  induction List.range n generalizing k with
  | nil => rfl
  | cons j l ih =>
    rw [List.foldl_cons, ih]
    rfl

end Kernel

/-- Replace mapping slot `i`. -/
@[simps]
def Proc.setMmap (p : Proc) (i : Fin MAX_MMAPS) (e : Mmap) : Proc :=
  { p with mmaps := Function.update p.mmaps i e }

/-! ## Kernel programs -/

open Prog

/-- `myproc()`. -/
def myproc : Prog Kernel (Fin NPROC) := fun k => .ok k.cur k

/-- Read the process in slot `p`. -/
def getProc (p : Fin NPROC) : Prog Kernel Proc := fun k => .ok (k.procs p) k

/-- Change the process in slot `p`. -/
def modifyProc (p : Fin NPROC) (f : Proc → Proc) : Prog Kernel Unit :=
  Prog.modify fun k => k.setProc p (f (k.procs p))

@[simp] lemma myproc_apply (k : Kernel) : myproc k = .ok k.cur k := rfl

@[simp] lemma getProc_apply (p : Fin NPROC) (k : Kernel) : getProc p k = .ok (k.procs p) k :=
  rfl

lemma preserves_getProc (P : Kernel → Prop) (p : Fin NPROC) : Preserves P (getProc p) :=
  preserves_of_read fun k => ⟨_, getProc_apply p k⟩

lemma preserves_myproc (P : Kernel → Prop) : Preserves P myproc :=
  preserves_of_read fun k => ⟨_, myproc_apply k⟩

@[simp] lemma modifyProc_apply (p : Fin NPROC) (f : Proc → Proc) (k : Kernel) :
    modifyProc p f k = .ok () (k.setProc p (f (k.procs p))) := rfl

/-- A program of the file system, run on the kernel's `fs`, the rest of the kernel left as
it is. -/
def onFs {α : Type} (x : Prog Fs α) : Prog Kernel α := fun k =>
  match x k.fs with
  | .ok a s => .ok a { k with fs := s }
  | .exit s => .exit { k with fs := s }
  | .panic msg => .panic msg

lemma onFs_of_ok {α : Type} {x : Prog Fs α} {k : Kernel} {a : α} {s : Fs} (h : x k.fs = .ok a s) :
    onFs x k = .ok a { k with fs := s } := by
  simp only [onFs, h]

lemma onFs_of_panic {α : Type} {x : Prog Fs α} {k : Kernel} {msg : String}
    (h : x k.fs = .panic msg) : onFs x k = .panic msg := by
  simp only [onFs, h]

/-- What the file system keeps of the kernel, a lifted program keeps. -/
lemma preserves_onFs {α : Type} {P : Kernel → Prop} (hP : ∀ k (s : Fs), P k → P { k with fs := s })
    (x : Prog Fs α) : Preserves P (onFs x) := by
  intro k hk
  refine ⟨fun a k' h => ?_, fun k' h => ?_⟩ <;> simp only [onFs] at h <;> split at h <;> cases h
  · exact hP _ _ hk
  · exact hP _ _ hk

end Xv6
