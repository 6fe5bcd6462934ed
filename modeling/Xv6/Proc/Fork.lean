import Xv6.Mmap.DoMmap

/-!
# `allocproc` and `fork` (proc.c)

`fork` takes a slot with `allocproc`, copies the user part of the address space with
`copyuvm`, and then walks the parent's mapping table.  A `MAP_SHARED` entry has its first
page entered in the child's page directory, pointing at the parent's physical page, and
its child copy marked `isChild`; a `MAP_PRIVATE` entry is mapped afresh in the child by
`do_mmap` with `MAP_FIXED`, into the child's first free slot, and its first page is copied
from the parent's; every slot is then copied field by field, `isChild` apart.  Last come
the open files, the working directory, the parent link and the state.  Where the parent's
or the child's page table is missing, `walkpgdir` returns null and the `*pte` that follows
loads the word at user address `0`, or faults.

No count of references is kept for a shared page, so whichever process frees it first
leaves it mapped in the other: `forkRest_shares_page_freed_by_parent` runs this from the
moment `copyuvm` has returned.

Registers, the trap frame and the name that `fork` also copies are not part of the model.
-/

namespace Xv6

open Prog

/-- `allocproc()`: the first unused slot, made an embryo with the next pid and a kernel
stack; of its mapping table only `va`, `flags` and `length` are reset, with
`num_mmaps`.  The trap frame and the context on the new stack are not modelled. -/
def allocproc : Prog Kernel (Option (Fin NPROC)) := do
  let k ← get
  match Slots.first k.procs (fun p => p.state == .UNUSED) with
  | none => pure none
  | some p => do
    Prog.modify fun k =>
      { k.setProc p { k.procs p with state := .EMBRYO, pid := k.nextpid } with
        nextpid := k.nextpid + 1 }
    let stack ← kalloc
    modifyProc p fun q => { q with kstack := stack }
    if stack = 0 then do
      modifyProc p fun q => { q with state := .UNUSED }
      pure none
    else do
      modifyProc p fun q =>
        { q with
          mmaps := fun i => { q.mmaps i with va := 0, flags := 0, length := 0 }
          numMmaps := 0 }
      pure (some p)

/-- `*walkpgdir(pgdir, va, 0)`: the entry, or, where the page table is missing and
`walkpgdir` returns null, a load from user address `0` of the running process. -/
def readPte (pgdir va : UInt32) : Prog Kernel UInt32 := do
  match ← walkpgdir pgdir va false with
  | some pte => do
    let k ← get
    pure (k.mem pte.1 pte.2)
  | none => kernelLoad 0

/-- Pass `i` of `fork`'s mapping-copy loop from `curproc` to `np`.  The shared branch
maps one page, whatever the length; the private branch copies one page, from the page
the parent's entry for `va` names to the page the child's entry names, whatever those
entries hold. -/
def copyMmap (curproc np : Fin NPROC) (i : Fin MAX_MMAPS) :
    Prog Kernel Unit := do
  let p ← getProc curproc
  let currMap := p.mmaps i
  if currMap.flags &&& MAP_SHARED ≠ 0 then do
    let parentPTE ← readPte p.pgdir currMap.va
    let physAddr := P2V (PTE_ADDR parentPTE)
    let q ← getProc np
    let _ ← mappages q.pgdir currMap.va PGSIZE (V2P physAddr) (PTE_W ||| PTE_U)
    modifyProc np fun q => q.setMmap i { q.mmaps i with isChild := 1 }
  else if currMap.flags &&& MAP_PRIVATE ≠ 0 then do
    let _ ← doMmap currMap.va.toInt32 currMap.length currMap.prot (currMap.flags ||| MAP_FIXED)
      currMap.fd currMap.offset currMap.fp np
    let p ← getProc curproc
    let parentPTE ← readPte p.pgdir currMap.va
    let q ← getProc np
    let newPte ← readPte q.pgdir currMap.va
    Prog.modify fun k => k.copyPage (P2V (PTE_ADDR newPte)) (P2V (PTE_ADDR parentPTE))
  else pure ()
  -- the field copy, every field but `isChild`
  let p ← getProc curproc
  let src := p.mmaps i
  modifyProc np fun q => q.setMmap i
    { q.mmaps i with
      fd := src.fd, flags := src.flags, fp := src.fp, length := src.length,
      offset := src.offset, prot := src.prot, va := src.va }

/-- `np->ofile[i] = filedup(curproc->ofile[i])` for an open descriptor `i`. -/
def copyOfile (curproc np : Fin NPROC) (i : Fin NOFILE) : Prog Kernel Unit := do
  let p ← getProc curproc
  match p.ofile i with
  | some f => do
    filedup f
    modifyProc np fun q => { q with ofile := Function.update q.ofile i (some f) }
  | none => pure ()

/-- `np->cwd = idup(curproc->cwd)`.  A process that runs has a working directory; the
`idup` of the null pointer is not modelled, and stops the run. -/
def copyCwd (curproc np : Fin NPROC) : Prog Kernel Unit := do
  let p ← getProc curproc
  match p.cwd with
  | some ip => do
    let ip ← onFs (idup ip)
    modifyProc np fun q => { q with cwd := some ip }
  | none => Prog.panic "idup"

/-- `fork` after `copyuvm` has succeeded: the mapping table, the size and the parent, the
open files and the working directory, and the child made runnable; the result is the
child's pid. -/
def forkRest (curproc np : Fin NPROC) : Prog Kernel Int32 := do
  forM (List.finRange MAX_MMAPS) (copyMmap curproc np)
  let p ← getProc curproc
  modifyProc np fun q => { q with sz := p.sz, parent := some curproc }
  forM (List.finRange NOFILE) (copyOfile curproc np)
  copyCwd curproc np
  let q ← getProc np
  modifyProc np fun q => { q with state := .RUNNABLE }
  pure q.pid

/-- `fork()`. -/
def fork : Prog Kernel Int32 := do
  let curproc ← myproc
  match ← allocproc with
  | none => pure (-1)
  | some np => do
    let p ← getProc curproc
    let d ← copyuvm p.pgdir p.sz
    modifyProc np fun q => { q with pgdir := d }
    if d = 0 then do
      let q ← getProc np
      kfree q.kstack
      modifyProc np fun q => { q with kstack := 0, state := .UNUSED }
      pure (-1)
    else forkRest curproc np

/-! ## `fork` in its critical sections

`fork` holds `ptable.lock` twice: in `allocproc`, for the search and the new embryo, and at
its end, where the embryo becomes runnable.  What lies between (the copy of the address
space, of the mapping table and of the open files, the store of the parent pointer, and the
failure path that hands the slot back) runs without the lock, while other processes run. -/

/-- The part of `fork` between its critical sections; `false` where no page directory is left
and the embryo's slot has been handed back. -/
def forkCopy (curproc np : Fin NPROC) : Prog Kernel Bool := do
  let p ← getProc curproc
  let d ← copyuvm p.pgdir p.sz
  modifyProc np fun q => { q with pgdir := d }
  if d = 0 then do
    let q ← getProc np
    kfree q.kstack
    modifyProc np fun q => { q with kstack := 0, state := .UNUSED }
    pure false
  else do
    forM (List.finRange MAX_MMAPS) (copyMmap curproc np)
    let p ← getProc curproc
    modifyProc np fun q => { q with sz := p.sz, parent := some curproc }
    forM (List.finRange NOFILE) (copyOfile curproc np)
    copyCwd curproc np
    pure true

/-- `fork`'s second critical section: the child becomes runnable; its pid is returned. -/
def forkFinish (np : Fin NPROC) : Prog Kernel Int32 := do
  let q ← getProc np
  modifyProc np fun q => { q with state := .RUNNABLE }
  pure q.pid

/-- `fork` is `allocproc`, the unlocked copy and the second critical section, one after
the other. -/
theorem fork_eq :
    fork = (do
      let curproc ← myproc
      match ← allocproc with
      | none => pure (-1)
      | some np => do
        if ← forkCopy curproc np then forkFinish np else pure (-1)) := by
  unfold fork
  refine congrArg (myproc >>= ·) (funext fun curproc => ?_)
  refine congrArg (allocproc >>= ·) (funext fun r => ?_)
  rcases r with _ | np
  · rfl
  · simp only [forkCopy, forkRest, forkFinish, bind_assoc, ite_bind, pure_bind,
      Bool.false_eq_true, if_false, if_true]

/-! ## The invariant

`fork` keeps the invariant of the tables: `allocproc` leaves the new slot's table with no
active entry, the shared branch marks a copy without moving it, the private branch is a
`do_mmap`, and the field copy takes the parent's entry as it is, aligned while active. -/

lemma FaultStable.triple_readPte {I E : Kernel → Prop} (hF : FaultStable I E) (pgdir va : UInt32) :
    Triple I (readPte pgdir va) (fun _ => I) E := by
  refine triple_bind_of_preserves (hF.preserves_walkpgdir _ _ _) hF.out fun r => ?_
  rcases r with _ | pte
  · exact hF.triple_kernelLoad _
  · exact triple_bind_of_preserves preserves_get hF.out fun _ => triple_pure fun _ h => h

namespace MinorStable

variable {P : Kernel → Prop} (hP : MinorStable P)
include hP

lemma preserves_copyOfile (curproc np : Fin NPROC) (i : Fin NOFILE) :
    Preserves P (copyOfile curproc np i) := by
  refine preserves_bind (preserves_getProc P _) fun p => ?_
  rcases p.ofile i with _ | f
  · exact preserves_pure _
  · exact preserves_bind (hP.preserves_filedup f) fun _ =>
      hP.preserves_modifyProc _ fun _ => ⟨rfl, rfl, rfl, rfl, rfl⟩

lemma preserves_copyCwd (curproc np : Fin NPROC) : Preserves P (copyCwd curproc np) := by
  refine preserves_bind (preserves_getProc P _) fun p => ?_
  rcases p.cwd with _ | ip
  · exact preserves_panic _
  · exact preserves_bind (hP.preserves_onFs _) fun _ =>
      hP.preserves_modifyProc _ fun _ => ⟨rfl, rfl, rfl, rfl, rfl⟩

end MinorStable

/-- `allocproc` keeps what every change to a process but to its table and its size keeps,
given the reset of the new slot's table. -/
lemma Stable.preserves_allocproc {P : Kernel → Prop} (hP : Stable P)
    (hreset : ∀ k p, P k → P (k.setProc p { k.procs p with
      mmaps := fun i => { (k.procs p).mmaps i with va := 0, flags := 0, length := 0 }
      numMmaps := 0 })) :
    Preserves P allocproc := by
  refine preserves_get_bind fun k _ => ?_
  split
  · exact preserves_pure _
  refine preserves_bind (preserves_modify fun k h => ?_) fun _ => ?_
  · exact hP.nextpid _ _ (hP.setProc _ _ _ rfl rfl h)
  refine preserves_bind hP.kalloc fun stack => ?_
  refine preserves_bind (hP.preserves_modifyProc _ fun _ => ⟨rfl, rfl⟩) fun _ => ?_
  refine preserves_ite (preserves_bind (hP.preserves_modifyProc _ fun _ => ⟨rfl, rfl⟩)
    fun _ => preserves_pure _) ?_
  exact preserves_bind (preserves_modify fun k h => hreset k _ h) fun _ => preserves_pure _

/-- The reset table has no active entry at all. -/
lemma preserves_allocproc : Preserves MmapInv allocproc :=
  (stable_mmapInv).preserves_allocproc fun _ _ h => h.setProc _ fun _ hva => absurd rfl hva

lemma preserves_copyMmap (curproc np : Fin NPROC) (i : Fin MAX_MMAPS) :
    Preserves MmapInv (copyMmap curproc np i) := by
  have hP := stable_mmapInv
  have hF := faultStable_mmapInv
  refine preserves_bind (preserves_getProc _ _) fun p => ?_
  -- the field copy is the join point of the three branches
  extract_lets currMap copy
  have hcopy : ∀ u, Preserves MmapInv (copy u) := by
    intro u
    -- the parent's entry, read in a state where the invariant holds
    have hsrc : ∀ k q k', MmapInv k → getProc curproc k = .ok q k' → q.MmapsAligned := by
      intro k q k' h hq
      cases hq
      exact h.aligned curproc
    refine preserves_bind_of (preserves_getProc _ _) hsrc fun src hsrc => ?_
    refine preserves_modify fun k h => h.setProc _ ((h.aligned np).setMmap _ fun hva => ?_)
    exact hsrc i hva
  refine preserves_ite ?_ (preserves_ite ?_ (hcopy ()))
  · -- `MAP_SHARED`: only `isChild` of the child's copy changes
    refine preserves_bind (hF.triple_readPte _ _) fun pte => ?_
    refine preserves_bind (preserves_getProc _ _) fun q => ?_
    refine preserves_bind (hP.preserves_mappages _ _ _ _ _) fun _ => ?_
    refine preserves_bind (preserves_modify fun k h => ?_) hcopy
    exact h.setProc _ ((h.aligned np).setMmap _ fun hva => h.aligned np i hva)
  · -- `MAP_PRIVATE`: a `do_mmap` in the child, then reads
    refine preserves_bind (preserves_doMmap _ _ _ _ _ _ _ _) fun _ => ?_
    refine preserves_bind (preserves_getProc _ _) fun p => ?_
    refine preserves_bind (hF.triple_readPte _ _) fun _ => ?_
    refine preserves_bind (preserves_getProc _ _) fun q => ?_
    refine preserves_bind (hF.triple_readPte _ _) fun _ => ?_
    exact preserves_bind (preserves_modify fun k h => hP.copyPage _ _ _ h) hcopy

/-- `fork` after `copyuvm` keeps what every change to a process but to its table and its
size keeps, given what the copy loop keeps and the store of the parent's size in the child. -/
lemma Stable.preserves_forkRest {P : Kernel → Prop} (hP : Stable P) (curproc np : Fin NPROC)
    (hcopy : ∀ i, Preserves P (copyMmap curproc np i))
    (hsz : ∀ k, P k → P (k.setProc np { k.procs np with
      sz := (k.procs curproc).sz, parent := some curproc })) :
    Preserves P (forkRest curproc np) := by
  refine preserves_bind (preserves_forM hcopy _) fun _ => ?_
  -- the size stored in the child is the one just read from the parent
  refine triple_read_bind (fun k => getProc_apply curproc k) fun p => ?_
  refine triple_bind (triple_modify fun k ⟨h, hp⟩ => hp ▸ hsz k h) fun _ => ?_
  refine preserves_bind (preserves_forM (hP.preserves_copyOfile _ _) _) fun _ => ?_
  refine preserves_bind (hP.preserves_copyCwd _ _) fun _ => ?_
  refine preserves_bind (preserves_getProc _ _) fun q => ?_
  exact preserves_bind (hP.preserves_modifyProc _ fun _ => ⟨rfl, rfl⟩) fun _ => preserves_pure _

/-- `fork` keeps what `allocproc` and the rest of a successful `fork` keep, whether it fails
or not. -/
lemma Stable.preserves_fork {P : Kernel → Prop} (hP : Stable P) (halloc : Preserves P allocproc)
    (hrest : ∀ curproc np, Preserves P (forkRest curproc np)) : Preserves P fork := by
  refine preserves_bind (preserves_myproc _) fun curproc => ?_
  refine preserves_bind halloc fun r => ?_
  rcases r with _ | np
  · exact preserves_pure _
  refine preserves_bind (preserves_getProc _ _) fun p => ?_
  refine preserves_bind (hP.preserves_copyuvm _ _) fun d => ?_
  refine preserves_bind (hP.preserves_modifyProc _ fun _ => ⟨rfl, rfl⟩) fun _ => ?_
  refine preserves_ite ?_ (hrest _ _)
  refine preserves_bind (preserves_getProc _ _) fun q => ?_
  refine preserves_bind (hP.kfree _) fun _ => ?_
  exact preserves_bind (hP.preserves_modifyProc _ fun _ => ⟨rfl, rfl⟩) fun _ => preserves_pure _

/-- The child's size becomes the parent's: the tables are all that `MmapInv` sees. -/
theorem preserves_forkRest (curproc np : Fin NPROC) : Preserves MmapInv (forkRest curproc np) :=
  (stable_mmapInv).preserves_forkRest curproc np (preserves_copyMmap _ _) fun _ h =>
    h.setProc _ (h.aligned np)

/-- `fork` keeps the invariant, whether it fails or not. -/
theorem preserves_fork : Preserves MmapInv fork :=
  (stable_mmapInv).preserves_fork preserves_allocproc preserves_forkRest

/-! ## What `fork`'s copy loop keeps of the processes -/

section Tasks

variable {I E : Kernel → Prop} (hT : TaskStable I) (hF : FaultStable I E)
include hT hF

/-- A pass of the copy loop changes the child's table and its pages, and may end the
parent through a fault. -/
lemma triple_copyMmap (curproc np : Fin NPROC) (i : Fin MAX_MMAPS) :
    Triple I (copyMmap curproc np i) (fun _ => I) E := by
  refine triple_bind_of_preserves (preserves_getProc _ _) hF.out fun p => ?_
  -- the field copy is the join point of the three branches
  extract_lets currMap copy
  have hcopy : ∀ u, Triple I (copy u) (fun _ => I) E := fun _ =>
    triple_bind_of_preserves (preserves_getProc _ _) hF.out fun _ =>
      hF.triple_of_preserves (hT.preserves_modifyTask _ fun _ => ⟨rfl, rfl, rfl, rfl⟩)
  refine triple_ite (fun _ => ?_) fun _ => triple_ite (fun _ => ?_) fun _ => hcopy ()
  · refine triple_bind (hF.triple_readPte _ _) fun pte => ?_
    refine triple_bind_of_preserves (preserves_getProc _ _) hF.out fun q => ?_
    refine triple_bind_of_preserves (hT.preserves_mappages _ _ _ _ _) hF.out fun _ => ?_
    exact triple_bind_of_preserves (hT.preserves_modifyTask _ fun _ => ⟨rfl, rfl, rfl, rfl⟩)
      hF.out hcopy
  · refine triple_bind (triple_doMmap hT hF _ _ _ _ _ _ _ _) fun _ => ?_
    refine triple_bind_of_preserves (preserves_getProc _ _) hF.out fun p => ?_
    refine triple_bind (hF.triple_readPte _ _) fun _ => ?_
    refine triple_bind_of_preserves (preserves_getProc _ _) hF.out fun q => ?_
    refine triple_bind (hF.triple_readPte _ _) fun _ => ?_
    exact triple_bind_of_preserves (preserves_modify fun k h => hT.copyPage _ _ _ h) hF.out hcopy

end Tasks

/-! ## Runs of `fork` from mapped parents

Each run below starts from a parent of `execKernel` with its mappings in place and stops
as `fork` does when `copyuvm` returns; `forkRest` then runs from there.  The state after
`copyuvm` is built by running the model's own steps: `allocproc`, the directory page
`setupkvm` takes and zeroes (its kernel half is not written out, as in `execKernel`), and
the loop of `copyuvm` over the user pages.  The parent of the first run maps one anonymous
page `MAP_SHARED`; the others have a table with a hole before a private entry, a shared
mapping of two pages, a private mapping of two pages the parent has written, and a private
mapping that the child's `do_mmap` cannot allocate. -/

/-- The parent after `mmap(0, 4096, 3, MAP_SHARED | MAP_ANONYMOUS, -1, 0)`. -/
def sharedKernel : Kernel :=
  (doMmap 0 4096 3 (MAP_SHARED ||| MAP_ANONYMOUS) (-1) 0 none 0 execKernel).stateD execKernel

/-- `fork` in `sharedKernel` when `copyuvm` returns. -/
def copiedKernel : Kernel :=
  ((do
      let _ ← allocproc
      let d ← kalloc
      Prog.modify fun k => k.fillPage d 0
      let _ ← copyLoop 0x803FF000 d 0x3000 4 0
      modifyProc 2 fun q => { q with pgdir := d } : Prog Kernel Unit) sharedKernel).stateD
    sharedKernel

/-- The state `forkRest` returns in, for the child in slot `2` of the parent in slot `0`. -/
def forkedFrom (k : Kernel) : Kernel := (forkRest 0 2 k).stateD k

/-- The parent of `copiedKernel` unmaps its shared page after the fork. -/
def unsharedKernel : Kernel :=
  (doMunmap 0x60000000 4096 (forkedFrom copiedKernel)).stateD (forkedFrom copiedKernel)

/-- `fork` up to the return of `copyuvm`, for a parent with page directory `pgdir` and
size `sz` and the child in slot `np`: `allocproc`, the directory page `setupkvm` takes and
zeroes (its kernel half is not written out), the loop of `copyuvm` over the user pages,
and the store of the new directory. -/
def copiedFrom (pgdir sz : UInt32) (np : Fin NPROC) : Prog Kernel Unit := do
  let _ ← allocproc
  let d ← kalloc
  Prog.modify fun k => k.fillPage d 0
  let _ ← copyLoop pgdir d sz (sz.toNat / 4096 + 1) 0
  modifyProc np fun q => { q with pgdir := d }

/-- Two private pages at `0x60000000` and `0x60001000`, the first unmapped again, and
`fork` up to `copyuvm`: slot `0` of the parent's table is empty, slot `1` is active. -/
def holeForkRun : Prog Kernel Unit := do
  let _ ← doMmap 0x60000000 4096 3 (MAP_ANONYMOUS ||| MAP_FIXED ||| MAP_PRIVATE) (-1) 0 none 0
  let _ ← doMmap 0x60001000 4096 3 (MAP_ANONYMOUS ||| MAP_FIXED ||| MAP_PRIVATE) (-1) 0 none 0
  let _ ← doMunmap 0x60000000 4096
  copiedFrom 0x803FF000 0x3000 2

/-- The state after `holeForkRun` from `execKernel`. -/
def holeForkKernel : Kernel := (holeForkRun execKernel).stateD execKernel

/-- A shared mapping of two pages at `0x60000000`, and `fork` up to `copyuvm`. -/
def sharedForkRun : Prog Kernel Unit := do
  let _ ← doMmap 0x60000000 8192 3 (MAP_ANONYMOUS ||| MAP_FIXED ||| MAP_SHARED) (-1) 0 none 0
  copiedFrom 0x803FF000 0x3000 2

/-- The state after `sharedForkRun` from `execKernel`. -/
def sharedForkKernel : Kernel := (sharedForkRun execKernel).stateD execKernel

/-- A private mapping of two pages at `0x60000000`, a word written by the parent into
each page, and `fork` up to `copyuvm`. -/
def privateForkRun : Prog Kernel Unit := do
  let _ ← doMmap 0x60000000 8192 3 (MAP_ANONYMOUS ||| MAP_FIXED ||| MAP_PRIVATE) (-1) 0 none 0
  userStore 0x60000000 0x61
  userStore 0x60001000 0x62
  copiedFrom 0x803FF000 0x3000 2

/-- The state after `privateForkRun` from `execKernel`. -/
def privateForkKernel : Kernel := (privateForkRun execKernel).stateD execKernel

/-- A private mapping of nine pages at `0x60000000`, a word written into its first page,
and `fork` up to `copyuvm`, which takes the last free pages. -/
def exhaustedForkRun : Prog Kernel Unit := do
  let _ ← doMmap 0x60000000 0x9000 3 (MAP_ANONYMOUS ||| MAP_FIXED ||| MAP_PRIVATE) (-1) 0 none 0
  userStore 0x60000000 0x61
  copiedFrom 0x803FF000 0x3000 2

/-- The state after `exhaustedForkRun` from `execKernel`. -/
def exhaustedForkKernel : Kernel := (exhaustedForkRun execKernel).stateD execKernel

/-- The runs above, evaluated once in the kernel: how each returns, and what the theorems
below read off the states. -/
lemma forkRuns_evaluate :
    -- a shared page, unmapped by the parent after the fork
    ((doMmap 0 4096 3 (MAP_SHARED ||| MAP_ANONYMOUS) (-1) 0 none 0 execKernel).returned
        0x60000000 = true ∧
      (forkRest 0 2 copiedKernel).returned 4 = true ∧
      (doMunmap 0x60000000 4096 (forkedFrom copiedKernel)).returned 0 = true ∧
      (unsharedKernel.procs 2).state = .RUNNABLE ∧ 0x80500000 ∈ unsharedKernel.freelist ∧
      pteOf unsharedKernel (unsharedKernel.procs 2).pgdir 0x60000000 = some 0x00500007) ∧
    -- a hole before a private entry
    ((holeForkRun execKernel).returned () = true ∧
      (forkRest 0 2 holeForkKernel).returned 4 = true ∧
      Slots.count (holeForkKernel.procs 0).mmaps (fun e => e.va != 0) = 1 ∧
      Slots.count ((forkedFrom holeForkKernel).procs 2).mmaps (fun e => e.va != 0) = 2 ∧
      ((forkedFrom holeForkKernel).procs 2).mmaps 0 = (holeForkKernel.procs 0).mmaps 1 ∧
      ((forkedFrom holeForkKernel).procs 2).mmaps 1 = (holeForkKernel.procs 0).mmaps 1) ∧
    -- a shared mapping of two pages
    ((sharedForkRun execKernel).returned () = true ∧
      ((sharedForkKernel.procs 0).mmaps 0).length = 8192 ∧
      (forkRest 0 2 sharedForkKernel).returned 4 = true ∧
      pteOf (forkedFrom sharedForkKernel) ((forkedFrom sharedForkKernel).procs 0).pgdir
          0x60000000 =
        pteOf (forkedFrom sharedForkKernel) ((forkedFrom sharedForkKernel).procs 2).pgdir
          0x60000000 ∧
      mapped (forkedFrom sharedForkKernel) ((forkedFrom sharedForkKernel).procs 0).pgdir
        0x60001000 = true ∧
      mapped (forkedFrom sharedForkKernel) ((forkedFrom sharedForkKernel).procs 2).pgdir
        0x60001000 = false) ∧
    -- a written private mapping of two pages
    ((privateForkRun execKernel).returned () = true ∧
      wordAt privateForkKernel (privateForkKernel.procs 0).pgdir 0x60001000 = some 0x62 ∧
      (forkRest 0 2 privateForkKernel).returned 4 = true ∧
      wordAt (forkedFrom privateForkKernel) ((forkedFrom privateForkKernel).procs 2).pgdir
        0x60000000 = some 0x61 ∧
      wordAt (forkedFrom privateForkKernel) ((forkedFrom privateForkKernel).procs 0).pgdir
        0x60001000 = some 0x62 ∧
      wordAt (forkedFrom privateForkKernel) ((forkedFrom privateForkKernel).procs 2).pgdir
        0x60001000 = some 0) ∧
    -- a private mapping the child cannot allocate
    ((exhaustedForkRun execKernel).returned () = true ∧
      exhaustedForkKernel.freelist = [] ∧ exhaustedForkKernel.mem KERNBASE 0 = 0 ∧
      (forkRest 0 2 exhaustedForkKernel).returned 4 = true ∧
      (((forkedFrom exhaustedForkKernel).procs 2).mmaps 0).va = 0x60000000 ∧
      pteOf (forkedFrom exhaustedForkKernel) ((forkedFrom exhaustedForkKernel).procs 2).pgdir
        0x60000000 = none ∧
      (forkedFrom exhaustedForkKernel).mem KERNBASE 0 = 0x61) := by
  decide +kernel

/-- The child keeps the parent's shared page mapped after the parent has unmapped and
freed it: the page `0x80500000` is on the free list while the runnable child's entry for
`0x60000000` still points at it. -/
theorem forkRest_shares_page_freed_by_parent :
    doMmap 0 4096 3 (MAP_SHARED ||| MAP_ANONYMOUS) (-1) 0 none 0 execKernel =
        .ok 0x60000000 sharedKernel ∧
      ∃ k₁ k₂, forkRest 0 2 copiedKernel = .ok 4 k₁ ∧
        doMunmap 0x60000000 4096 k₁ = .ok 0 k₂ ∧
        (k₂.procs 2).state = .RUNNABLE ∧ 0x80500000 ∈ k₂.freelist ∧
        pteOf k₂ (k₂.procs 2).pgdir 0x60000000 = some 0x00500007 := by
  obtain ⟨⟨hmap, hfork, hunmap, hrun, hfree, hpte⟩, -⟩ := forkRuns_evaluate
  exact ⟨Result.eq_ok_of_returned execKernel hmap, forkedFrom copiedKernel, unsharedKernel,
    Result.eq_ok_of_returned copiedKernel hfork,
    Result.eq_ok_of_returned (forkedFrom copiedKernel) hunmap, hrun, hfree, hpte⟩

/-- The child gets the parent's one active entry twice: `do_mmap` stores it into the
child's first free slot, `0`, and the field copy of pass `1` writes it into slot `1`. -/
theorem forkRest_duplicates_private_entry :
    holeForkRun execKernel = .ok () holeForkKernel ∧
      ∃ k', forkRest 0 2 holeForkKernel = .ok 4 k' ∧
        Slots.count (holeForkKernel.procs 0).mmaps (fun e => e.va != 0) = 1 ∧
        Slots.count (k'.procs 2).mmaps (fun e => e.va != 0) = 2 ∧
        (k'.procs 2).mmaps 0 = (holeForkKernel.procs 0).mmaps 1 ∧
        (k'.procs 2).mmaps 1 = (holeForkKernel.procs 0).mmaps 1 := by
  obtain ⟨-, ⟨hrun, hfork, hcount, hcount', hslot₀, hslot₁⟩, -⟩ := forkRuns_evaluate
  exact ⟨Result.eq_ok_of_returned execKernel hrun, forkedFrom holeForkKernel,
    Result.eq_ok_of_returned holeForkKernel hfork, hcount, hcount', hslot₀, hslot₁⟩

/-- Only the first page of a shared mapping reaches the child: the parent's second page
`0x60001000` is mapped, the child's is not. -/
theorem forkRest_shares_first_page_only :
    sharedForkRun execKernel = .ok () sharedForkKernel ∧
      ((sharedForkKernel.procs 0).mmaps 0).length = 8192 ∧
      ∃ k', forkRest 0 2 sharedForkKernel = .ok 4 k' ∧
        pteOf k' (k'.procs 0).pgdir 0x60000000 = pteOf k' (k'.procs 2).pgdir 0x60000000 ∧
        mapped k' (k'.procs 0).pgdir 0x60001000 = true ∧
        mapped k' (k'.procs 2).pgdir 0x60001000 = false := by
  obtain ⟨-, -, ⟨hrun, hlen, hfork, hpte, hparent, hchild⟩, -⟩ := forkRuns_evaluate
  exact ⟨Result.eq_ok_of_returned execKernel hrun, hlen, forkedFrom sharedForkKernel,
    Result.eq_ok_of_returned sharedForkKernel hfork, hpte, hparent, hchild⟩

/-- Only the first page of a private mapping is copied: the child's second page holds the
zeros `do_mmap` filled it with, not the word the parent wrote. -/
theorem forkRest_copies_first_private_page_only :
    privateForkRun execKernel = .ok () privateForkKernel ∧
      wordAt privateForkKernel (privateForkKernel.procs 0).pgdir 0x60001000 = some 0x62 ∧
      ∃ k', forkRest 0 2 privateForkKernel = .ok 4 k' ∧
        wordAt k' (k'.procs 2).pgdir 0x60000000 = some 0x61 ∧
        wordAt k' (k'.procs 0).pgdir 0x60001000 = some 0x62 ∧
        wordAt k' (k'.procs 2).pgdir 0x60001000 = some 0 := by
  obtain ⟨-, -, -, ⟨hrun, hword, hfork, hfirst, hparent, hchild⟩, -⟩ := forkRuns_evaluate
  exact ⟨Result.eq_ok_of_returned execKernel hrun, hword, forkedFrom privateForkKernel,
    Result.eq_ok_of_returned privateForkKernel hfork, hfirst, hparent, hchild⟩

/-- With no page left, the child's `do_mmap` fails and `fork` goes on: it returns the
child's pid, the child's table names a mapping its page tables do not have, and the
`memmove` through the missing child entry, which reads the word `0` at user address `0`,
writes the parent's page over the kernel's page at `KERNBASE`. -/
theorem forkRest_succeeds_after_failed_doMmap :
    exhaustedForkRun execKernel = .ok () exhaustedForkKernel ∧
      exhaustedForkKernel.freelist = [] ∧ exhaustedForkKernel.mem KERNBASE 0 = 0 ∧
      ∃ k', forkRest 0 2 exhaustedForkKernel = .ok 4 k' ∧
        ((k'.procs 2).mmaps 0).va = 0x60000000 ∧
        pteOf k' (k'.procs 2).pgdir 0x60000000 = none ∧
        k'.mem KERNBASE 0 = 0x61 := by
  obtain ⟨-, -, -, -, hrun, hfree, hmem, hfork, hva, hpte, hmem'⟩ := forkRuns_evaluate
  exact ⟨Result.eq_ok_of_returned execKernel hrun, hfree, hmem, forkedFrom exhaustedForkKernel,
    Result.eq_ok_of_returned exhaustedForkKernel hfork, hva, hpte, hmem'⟩

/-! ## A kill that lands on an unused slot

`kill` finds its process by pid alone, and `allocproc` resets neither `killed` nor, on
its failure path, the pid it gave the slot.  So a `kill` of a pid that only an unused slot
holds succeeds, and the next process made in that slot is killed before it runs. -/

/-- A step that sets the process in slot `p` keeps the `killed` flags if it keeps `p`'s. -/
lemma killed_setProc {k : Kernel} {p : Fin NPROC} {q : Proc} (hq : q.killed = (k.procs p).killed) :
    (fun r => ((k.setProc p q).procs r).killed) = fun r => (k.procs r).killed := by
  funext r
  by_cases hr : r = p
  · subst hr
    simp [hq]
  · simp [Function.update_of_ne hr]

/-- `allocproc` writes no slot's `killed`. -/
lemma keeps_allocproc_killed : Keeps (fun k : Kernel => fun r => (k.procs r).killed) allocproc := by
  intro ks
  have hmodify : ∀ (f : Proc → Proc), (∀ q, (f q).killed = q.killed) → ∀ p,
      Preserves (fun k : Kernel => (fun r => (k.procs r).killed) = ks) (modifyProc p f) :=
    fun f hf p => preserves_modify fun k hk => (killed_setProc (hf _)).trans hk
  refine preserves_get_bind fun k _ => ?_
  split
  · exact preserves_pure _
  refine preserves_bind (preserves_modify fun k hk => Eq.trans ?_ hk) fun _ => ?_
  · exact killed_setProc rfl
  refine preserves_bind ((keeps_kalloc_tasks).preserves fun t => (fun r => (t.1 r).killed) = ks)
    fun stack => ?_
  refine preserves_bind (hmodify _ (fun _ => by rfl) _) fun _ => ?_
  refine preserves_ite (preserves_bind (hmodify _ (fun _ => by rfl) _) fun _ => preserves_pure _) ?_
  exact preserves_bind (hmodify _ (fun _ => by rfl) _) fun _ => preserves_pure _

/-- The state after `kill(0)` on `execKernel`. -/
def killedZeroKernel : Kernel := (kill 0 execKernel).stateD execKernel

/-- No process of `execKernel` has pid `0`, yet `kill(0)` returns `0`: it marks slot `2`,
unused with the pid of the zeroed table, and `allocproc` hands that slot out killed. -/
theorem allocproc_after_kill_zero_starts_killed :
    (∀ p, (execKernel.procs p).pid = 0 → (execKernel.procs p).state = .UNUSED) ∧
      kill 0 execKernel = .ok 0 killedZeroKernel ∧
      (killedZeroKernel.procs 2).state = .UNUSED ∧
      ∃ k', allocproc killedZeroKernel = .ok (some 2) k' ∧ (k'.procs 2).killed = true := by
  have halloc : allocproc killedZeroKernel = .ok (some 2)
      ((allocproc killedZeroKernel).stateD killedZeroKernel) :=
    Result.eq_ok_of_returned killedZeroKernel (by decide)
  refine ⟨by decide, rfl, by decide, _, halloc, ?_⟩
  have hkilled := congrFun ((keeps_allocproc_killed).ok halloc) 2
  rw [hkilled]
  decide

end Xv6
