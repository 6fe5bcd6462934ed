import Xv6.Mmap.DoMunmap
import Xv6.Kernel.Uvm

/-!
# `exit` and `wait` (proc.c)

`exit` closes the process's files, unmaps the pages it shares with its parent (the entries
with `isChild` and `MAP_SHARED`, so that their pages are not freed twice), drops its
working directory, wakes its parent, hands its children to `init` and becomes a zombie.
`wait` reaps a zombie child: its kernel stack and its whole address space go back to the
allocator and its slot becomes unused.  The mapping table of the slot is left as it was:
`allocproc` resets only `va`, `flags` and `length` when the slot is used again.

The channels that processes sleep on are not modelled: `wakeup1` wakes the slot it is
given if it sleeps, whatever it sleeps on, which every `sleep` loop of the kernel
tolerates.  A `wait` that would sleep is one pass that found no zombie (`waitPass`).
-/

namespace Xv6

open Prog

/-- Closing descriptor `fd` of `curproc`, if open. -/
def closeOfile (curproc : Fin NPROC) (fd : Fin NOFILE) : Prog Kernel Unit := do
  let p ← getProc curproc
  match p.ofile fd with
  | some f => do
    fileclose f
    modifyProc curproc fun q => { q with ofile := Function.update q.ofile fd none }
  | none => pure ()

/-- `exit`'s pass over slot `i`: `do_munmap` of a shared mapping inherited from the parent. -/
def unmapShared (curproc : Fin NPROC) (i : Fin MAX_MMAPS) : Prog Kernel Unit := do
  let p ← getProc curproc
  let currMap := p.mmaps i
  if currMap.isChild ≠ 0 ∧ currMap.flags &&& MAP_SHARED ≠ 0 then do
    let _ ← doMunmap currMap.va.toInt32 currMap.length
    pure ()
  else pure ()

/-- The pass of `wakeup1(chan)` over slot `p`, for a process that sleeps on `chan`: a
sleeper becomes runnable. -/
def wakeup1 (p : Fin NPROC) : Prog Kernel Unit :=
  modifyProc p fun q => { q with state := if q.state = .SLEEPING then .RUNNABLE else q.state }

/-- `exit`'s pass over slot `q` of the process table: a child of `curproc` goes to `init`,
which is woken if the child is a zombie already. -/
def reparent (curproc : Fin NPROC) (q : Fin NPROC) : Prog Kernel Unit := do
  let k ← get
  if (k.procs q).parent = some curproc then do
    modifyProc q fun r => { r with parent := some k.initproc }
    if (k.procs q).state = .ZOMBIE then wakeup1 k.initproc else pure ()
  else pure ()

/-- `exit()`, which leaves the calling thread in `sched()`.  A process that runs has a
working directory (`userinit` and `fork` give it one); the `iput` of the null pointer that
only a second `exit` would make is not modelled, and stops the run. -/
def exitProc : Prog Kernel Unit := do
  let curproc ← myproc
  let k ← get
  if curproc = k.initproc then Prog.panic "init exiting"
  else do
    forM (List.finRange NOFILE) (closeOfile curproc)
    forM (List.finRange MAX_MMAPS) (unmapShared curproc)
    let p ← getProc curproc
    match p.cwd with
    | some ip => onFs (iput ip)
    | none => Prog.panic "iput"
    modifyProc curproc fun q => { q with cwd := none }
    -- the parent might be sleeping in `wait`
    match p.parent with
    | some q => wakeup1 q
    | none => pure ()
    forM (List.finRange NPROC) (reparent curproc)
    modifyProc curproc fun q => { q with state := .ZOMBIE }
    Prog.exit

/-- Reaping the zombie in slot `p`. -/
def reap (p : Fin NPROC) : Prog Kernel Int32 := do
  let q ← getProc p
  kfree q.kstack
  modifyProc p fun q => { q with kstack := 0 }
  let q ← getProc p
  freevm q.pgdir
  modifyProc p fun q => { q with pid := 0, parent := none, killed := false, state := .UNUSED }
  pure q.pid

/-- One pass of the loop of `wait()`: the pid of the first zombie child, reaped; `-1`
without children or for a killed caller; `none` where `wait` would sleep. -/
def waitPass : Prog Kernel (Option Int32) := do
  let curproc ← myproc
  let k ← get
  let kids := (List.finRange NPROC).filter fun p => (k.procs p).parent = some curproc
  match kids.find? fun p => (k.procs p).state = .ZOMBIE with
  | some p => do
    let pid ← reap p
    pure (some pid)
  | none => if kids = [] ∨ (k.procs curproc).killed then pure (some (-1)) else pure none

/-! ## What the calls keep -/

namespace MinorStable

variable {P : Kernel → Prop} (hP : MinorStable P)
include hP

lemma preserves_closeOfile (curproc : Fin NPROC) (fd : Fin NOFILE) :
    Preserves P (closeOfile curproc fd) := by
  refine preserves_bind (preserves_getProc P _) fun p => ?_
  rcases p.ofile fd with _ | f
  · exact preserves_pure _
  · exact preserves_bind (hP.preserves_fileclose f) fun _ =>
      hP.preserves_modifyProc _ fun _ => ⟨rfl, rfl, rfl, rfl, rfl⟩

/-- A wakeup keeps the phase of the slot it wakes. -/
lemma preserves_wakeup1 (p : Fin NPROC) : Preserves P (wakeup1 p) :=
  hP.preserves_modifyProc _ fun q => ⟨rfl, rfl, rfl, phase_wake q.state, rfl⟩

end MinorStable

namespace Stable

variable {P : Kernel → Prop} (hP : Stable P)
include hP

lemma preserves_reparent (curproc q : Fin NPROC) : Preserves P (reparent curproc q) := by
  refine preserves_get_bind fun k _ => preserves_ite ?_ (preserves_pure _)
  refine preserves_bind (hP.preserves_modifyProc _ fun _ => ⟨rfl, rfl⟩) fun _ => ?_
  exact preserves_ite (hP.preserves_wakeup1 _) (preserves_pure _)

/-- Reaping frees the stack and the address space and keeps the slot's table as it was. -/
lemma preserves_reap (p : Fin NPROC) : Preserves P (reap p) := by
  refine preserves_bind (preserves_getProc P _) fun q => ?_
  refine preserves_bind (hP.kfree _) fun _ => ?_
  refine preserves_bind (hP.preserves_modifyProc _ fun _ => ⟨rfl, rfl⟩) fun _ => ?_
  refine preserves_bind (preserves_getProc P _) fun q => ?_
  refine preserves_bind (hP.preserves_freevm _) fun _ => ?_
  exact preserves_bind (hP.preserves_modifyProc _ fun _ => ⟨rfl, rfl⟩) fun _ => preserves_pure _

lemma preserves_waitPass : Preserves P waitPass := by
  refine preserves_bind (preserves_myproc P) fun curproc => preserves_get_bind fun k _ => ?_
  extract_lets kids
  split
  · exact preserves_bind (hP.preserves_reap _) fun _ => preserves_pure _
  · exact preserves_ite (preserves_pure _) (preserves_pure _)

/-- `exit` never returns, and keeps what the changes to a process that keep its table and
its size keep, given what its `do_munmap`s keep. -/
lemma triple_exitProc (hunmap : ∀ addrInt length, Preserves P (doMunmap addrInt length)) :
    Triple P exitProc (fun _ _ => False) P := by
  refine (preserves_myproc _).triple_bind fun curproc => ?_
  refine (preserves_get).triple_bind fun k => ?_
  refine triple_ite (fun _ => triple_panic _) fun _ => ?_
  refine (preserves_forM (hP.preserves_closeOfile _) _).triple_bind fun _ => ?_
  refine (preserves_forM (fun i =>
    preserves_bind (preserves_getProc _ _) fun p => preserves_ite
      (preserves_bind (hunmap _ _) fun _ => preserves_pure _) (preserves_pure _)) _).triple_bind
    fun _ => ?_
  refine (preserves_getProc _ _).triple_bind fun p => ?_
  -- the release of the directory and the wakeup are each followed by the join point of a
  -- `match`: the rest of `exit` from there
  extract_lets afterWake afterCwd
  have hafterWake : ∀ r, Triple P (afterWake r) (fun _ _ => False) P := fun _ => by
    refine (preserves_forM (hP.preserves_reparent _) _).triple_bind fun _ => ?_
    exact Preserves.triple_bind (hP.preserves_modifyProc _ fun _ => ⟨rfl, rfl⟩) fun _ =>
      triple_exit fun _ h => h
  have hafterCwd : ∀ r, Triple P (afterCwd r) (fun _ _ => False) P := fun _ => by
    refine Preserves.triple_bind (hP.preserves_modifyProc _ fun _ => ⟨rfl, rfl⟩) fun _ => ?_
    rcases p.parent with _ | q
    · exact hafterWake ()
    · exact (hP.preserves_wakeup1 _).triple_bind hafterWake
  rcases p.cwd with _ | ip
  · exact triple_bind (triple_panic _) hafterCwd
  · exact (hP.preserves_onFs _).triple_bind hafterCwd

lemma preserves_exitProc (hunmap : ∀ addrInt length, Preserves P (doMunmap addrInt length)) :
    Preserves P exitProc :=
  (hP.triple_exitProc hunmap).mono (fun _ h => h) (fun _ _ h => h.elim) fun _ h => h

end Stable

lemma preserves_unmapShared (curproc : Fin NPROC) (i : Fin MAX_MMAPS) :
    Preserves MmapInv (unmapShared curproc i) := by
  refine preserves_bind (preserves_getProc _ _) fun p => preserves_ite ?_ (preserves_pure _)
  exact preserves_bind (preserves_doMunmap _ _) fun _ => preserves_pure _

lemma TaskStable.preserves_unmapShared {P : Kernel → Prop} (hP : TaskStable P)
    (curproc : Fin NPROC) (i : Fin MAX_MMAPS) : Preserves P (unmapShared curproc i) := by
  refine preserves_bind (preserves_getProc _ _) fun p => preserves_ite ?_ (preserves_pure _)
  exact preserves_bind (hP.preserves_doMunmap _ _) fun _ => preserves_pure _

/-- `wait` never exits: what it frees, it frees with `kfree` and `freevm`. -/
lemma noExit_waitPass : NoExit waitPass := by
  refine noExit_bind (noExit_of_read fun k => ⟨_, myproc_apply k⟩) fun curproc => ?_
  refine noExit_bind (noExit_of_read fun k => ⟨k, rfl⟩) fun k => ?_
  extract_lets kids
  split
  · refine noExit_bind ?_ fun _ => noExit_pure _
    refine noExit_bind (noExit_of_read fun k => ⟨_, getProc_apply _ k⟩) fun q => ?_
    refine noExit_bind (noExit_kfree _) fun _ => noExit_bind (noExit_modify _) fun _ => ?_
    refine noExit_bind (noExit_of_read fun k => ⟨_, getProc_apply _ k⟩) fun q => ?_
    exact noExit_bind (noExit_freevm _) fun _ => noExit_bind (noExit_modify _) fun _ =>
      noExit_pure _
  · exact noExit_ite (noExit_pure _) (noExit_pure _)

/-- A property every state has. -/
lemma stable_true : Stable fun _ => True where
  writeWord _ _ _ _ h := h
  fillPage _ _ _ h := h
  copyPage _ _ _ h := h
  kalloc _ _ := ⟨fun _ _ _ => trivial, fun _ _ => trivial⟩
  kfree _ _ _ := ⟨fun _ _ _ => trivial, fun _ _ => trivial⟩
  setFile _ _ _ h := h
  setFs _ _ h := h
  minor _ _ _ _ h := h
  setProc _ _ _ _ _ h := h
  nextpid _ _ h := h

/-- `exit` never returns to its caller. -/
lemma exitProc_ne_ok (k k' : Kernel) (u : Unit) : exitProc k ≠ .ok u k' :=
  ((stable_true).triple_exitProc fun _ _ _ _ => ⟨fun _ _ _ => trivial, fun _ _ => trivial⟩).ne_ok
    trivial

/-- `exit` keeps the invariant: of the tables it changes only what `do_munmap` does. -/
theorem preserves_exitProc : Preserves MmapInv exitProc :=
  (stable_mmapInv).preserves_exitProc preserves_doMunmap

end Xv6
