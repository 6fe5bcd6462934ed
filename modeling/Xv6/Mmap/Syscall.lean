import Xv6.Mmap.DoMmap

/-!
# `sys_mmap`, `sys_munmap` and user accesses (sysfile.c, trap.c)

`sys_mmap` takes a reference to the descriptor's file with `filedup` before `do_mmap` has
checked anything, and nothing gives the reference back when `do_mmap` fails.  A user
access to a mapped page needs no kernel at all; any other access faults, and the fault
handler kills the process.  So an access succeeds exactly where a page is present, and
`MAP_GROWSUP` grows nothing on demand: the extra page `do_mmap` mapped at the start is all
there is, whatever lies above it.

The runs at the end of the file show what `do_munmap` does with ranges that no mapping
has, and with the file of a private mapping.

The arguments of a call are taken as `argint` returns them; fetching them from the user
stack is not modelled.
-/

namespace Xv6

open Prog

/-- `sys_mmap()`: a file mapping (no `MAP_ANONYMOUS` and `fd > 0`) needs an open
descriptor, whose file gains a reference before `do_mmap` runs. -/
def sysMmap (addrInt length prot flags fd offset : Int32) : Prog Kernel Int32 := do
  if flags &&& MAP_ANONYMOUS = 0 ∧ fd > 0 then
    match ← argfd fd with
    | none => pure (-1)
    | some f => do
      filedup f
      let p ← myproc
      doMmap addrInt length prot flags fd offset (some f) p
  else do
    let p ← myproc
    doMmap addrInt length prot flags fd offset none p

/-- `sys_munmap()`. -/
def sysMunmap (addrInt length : Int32) : Prog Kernel Int32 :=
  doMunmap addrInt length

/-- `sys_mmap` keeps the invariant: what it does besides `do_mmap` is a read and a new
reference to a file. -/
theorem preserves_sysMmap (addrInt length prot flags fd offset : Int32) :
    Preserves MmapInv (sysMmap addrInt length prot flags fd offset) := by
  refine preserves_ite ?_ (preserves_bind (preserves_myproc _) fun p => preserves_doMmap _ _ _ _ _ _ _ _)
  refine preserves_bind (preserves_argfd _ _) fun r => ?_
  rcases r with _ | f
  · exact preserves_pure _
  refine preserves_bind ((stable_mmapInv).preserves_filedup f) fun _ => ?_
  exact preserves_bind (preserves_myproc _) fun p => preserves_doMmap _ _ _ _ _ _ _ _

/-- Every address `sys_mmap` returns from a state with the invariant is `-1` or on a page
boundary. -/
theorem returns_sysMmap (addrInt length prot flags fd offset : Int32) :
    Returns MmapInv (sysMmap addrInt length prot flags fd offset)
      fun r => r = -1 ∨ r.toBitVec.toNat % 4096 = 0 := by
  refine returns_ite ?_ (returns_bind (preserves_myproc _) fun p =>
    returns_doMmap _ _ _ _ _ _ _ _)
  refine returns_bind (preserves_argfd _ _) fun r => ?_
  rcases r with _ | f
  · exact returns_pure (.inl rfl)
  refine returns_bind ((stable_mmapInv).preserves_filedup f) fun _ => ?_
  exact returns_bind (preserves_myproc _) fun p => returns_doMmap _ _ _ _ _ _ _ _

/-- `sys_mmap` keeps what every change keeping a process's pid, parent, state and size keeps,
and what the fault path keeps. -/
lemma triple_sysMmap {I E : Kernel → Prop} (hT : TaskStable I) (hF : FaultStable I E)
    (addrInt length prot flags fd offset : Int32) :
    Triple I (sysMmap addrInt length prot flags fd offset) (fun _ => I) E := by
  refine triple_ite (fun _ => ?_) fun _ => triple_bind_of_preserves (preserves_myproc _) hF.out
    fun p => triple_doMmap hT hF _ _ _ _ _ _ _ _
  refine triple_bind_of_preserves (preserves_argfd _ _) hF.out fun r => ?_
  rcases r with _ | f
  · exact triple_pure fun _ h => h
  refine triple_bind_of_preserves (hT.preserves_filedup f) hF.out fun _ => ?_
  exact triple_bind_of_preserves (preserves_myproc _) hF.out fun p => triple_doMmap hT hF _ _ _ _ _ _ _ _

/-- A file mapping whose `do_mmap` fails keeps the reference `sys_mmap` took: the
reference count of the file is one more than before, though the call returned `-1`. -/
theorem sysMmap_eq_of_doMmap {addrInt length prot flags fd offset r : Int32} {f : Fin NFILE}
    {k k' : Kernel} (hfile : flags &&& MAP_ANONYMOUS = 0 ∧ fd > 0)
    (hfd : argfd fd k = .ok (some f) k) (hdup : 1 ≤ (k.ftable f).ref)
    (h : doMmap addrInt length prot flags fd offset (some f) k.cur
      (k.setFile f { k.ftable f with ref := (k.ftable f).ref + 1 }) = .ok r k') :
    sysMmap addrInt length prot flags fd offset k = .ok r k' := by
  unfold sysMmap
  rw [run_ite, if_pos hfile, bind_of_ok hfd]
  have hdup' : filedup f k = .ok () (k.setFile f { k.ftable f with ref := (k.ftable f).ref + 1 }) := by
    simp only [filedup]
    rw [if_neg (by simpa using hdup)]
  dsimp only
  rw [bind_of_ok hdup', bind_of_ok (myproc_apply _)]
  exact h

/-- `mmap(1, 4096, PROT_READ | PROT_WRITE, MAP_PRIVATE, 3, 0)` on `execKernel`: the address
is refused, and the file of descriptor 3 is left with two references and one user. -/
theorem sysMmap_failure_keeps_reference :
    ∃ k', sysMmap 1 4096 3 MAP_PRIVATE 3 0 execKernel = .ok (-1) k' ∧
      (execKernel.ftable 0).ref = 1 ∧ (k'.ftable 0).ref = 2 ∧
      (∀ i, ((k'.procs 0).mmaps i).va = 0) :=
  ⟨_, rfl, rfl, by decide, by decide⟩

/-! ## User accesses -/

/-- Whether an access succeeds depends on the page tables alone, and one that succeeds
changes nothing; the mapping table has no say. -/
theorem userAccess_ok_iff {va : UInt32} {write : Bool} {k k' : Kernel} {u : Unit} :
    userAccess va write k = .ok u k' ↔
      mmuAllows k va (PTE_P ||| PTE_U ||| if write then PTE_W else 0) = true ∧ k' = k := by
  rw [userAccess_eq]
  by_cases h : mmuAllows k va (PTE_P ||| PTE_U ||| if write then PTE_W else 0) = true
  · rw [if_pos h]
    constructor
    · intro he
      cases he
      exact ⟨h, rfl⟩
    · rintro ⟨-, rfl⟩
      rfl
  · rw [if_neg h]
    constructor
    · intro he
      exact absurd he (pageFaultTrap_ne_ok _ _ _ _)
    · rintro ⟨h', -⟩
      exact absurd h' h

/-- The state after a growing mapping of one page at `0x60000000`. -/
def growsupKernel : Kernel :=
  (sysMmap 0x60000000 4096 3 (MAP_ANONYMOUS ||| MAP_FIXED ||| MAP_GROWSUP ||| MAP_PRIVATE) (-1) 0
    execKernel).stateD execKernel

/-- `growsupKernel` after a fixed mapping of one page at `0x60002000`, the page above the
one that `MAP_GROWSUP` mapped ahead. -/
def guardedKernel : Kernel :=
  (sysMmap 0x60002000 4096 3 (MAP_ANONYMOUS ||| MAP_FIXED ||| MAP_PRIVATE) (-1) 0
    growsupKernel).stateD growsupKernel

/-- A store just above a `MAP_GROWSUP` mapping whose guard page belongs to the next
mapping completes: the page is the one `do_mmap` mapped ahead, no entry covers it, and
nothing grows or dies. -/
theorem userAccess_above_growsup_with_guard_taken :
    sysMmap 0x60000000 4096 3 (MAP_ANONYMOUS ||| MAP_FIXED ||| MAP_GROWSUP ||| MAP_PRIVATE) (-1) 0
        execKernel = .ok 0x60000000 growsupKernel ∧
      sysMmap 0x60002000 4096 3 (MAP_ANONYMOUS ||| MAP_FIXED ||| MAP_PRIVATE) (-1) 0
        growsupKernel = .ok 0x60002000 guardedKernel ∧
      userAccess 0x60001000 true guardedKernel = .ok () guardedKernel ∧
      (guardedKernel.procs 0).mmaps 0 =
        ⟨0x60000000, MAP_ANONYMOUS ||| MAP_FIXED ||| MAP_GROWSUP ||| MAP_PRIVATE, 4096, 3, -1, none,
          0, 0⟩ ∧
      (∀ i, ¬ ((guardedKernel.procs 0).mmaps i).covers 0x60001000) ∧
      ((guardedKernel.procs 0).mmaps 1).covers 0x60002000 :=
  ⟨Result.eq_ok_of_returned _ (by decide), Result.eq_ok_of_returned _ (by decide),
    Iff.mpr userAccess_ok_iff ⟨by decide, rfl⟩, by decide, by decide,
    by decide⟩

/-! ## A hole in the table

Three one-page mappings and an `munmap` of the middle one leave slot `1` empty between
`[0x60000000, 0x60001000)` in slot `0` and `[0x60002000, 0x60003000)` in slot `2`.  A
two-page request then gets `0x60001000`: `sorted[1]` is null, so the gap after slot `0` is
taken to run to `KERNBASE` (`findNextMmap_second_slot_empty`), and the run handed out
covers the mapping in slot `2`. -/

/-- Three anonymous one-page mappings at fixed addresses, then `munmap` of the second. -/
def holeRun : Prog Kernel Unit := do
  let _ ← sysMmap 0x60000000 4096 3 (MAP_ANONYMOUS ||| MAP_FIXED ||| MAP_PRIVATE) (-1) 0
  let _ ← sysMmap 0x60001000 4096 3 (MAP_ANONYMOUS ||| MAP_FIXED ||| MAP_PRIVATE) (-1) 0
  let _ ← sysMmap 0x60002000 4096 3 (MAP_ANONYMOUS ||| MAP_FIXED ||| MAP_PRIVATE) (-1) 0
  let _ ← sysMunmap 0x60001000 4096
  pure ()

/-- The state after `holeRun` from `execKernel`. -/
def holeKernel : Kernel := (holeRun execKernel).stateD execKernel

/-- A private one-page mapping of descriptor `3`, taken after the read of `readKernel`;
its `munmap` is the last run of this module. -/
def privateMapKernel : Kernel :=
  (doMmap 0 4096 3 MAP_PRIVATE 3 0 (some 0) 0 readKernel).stateD readKernel

/-- The runs of this module too long for the elaborator's evaluation, evaluated once in
the kernel: the run to `holeKernel` and what the search and `mmap` read there, and the
private file mapping of `privateMapKernel` with its `munmap`. -/
lemma syscallRuns_evaluate :
    ((holeRun execKernel).returned () = true ∧
      MmapsWellFormed (holeKernel.procs 0).mmaps ∧
      mmuAllows holeKernel 0 (PTE_P ||| PTE_W) = true ∧ storeApart holeKernel 0 = true ∧
      ((holeKernel.procs 0).mmaps 1).va = 0 ∧
      ((2 : Int32) * PGSIZE).toUInt32 ≤
        KERNBASE - slotStart (holeKernel.procs 0).mmaps (sortMmaps (holeKernel.procs 0).mmaps 0) ∧
      (slotStart (holeKernel.procs 0).mmaps
        (sortMmaps (holeKernel.procs 0).mmaps 0)).toInt32 = 0x60001000 ∧
      wordAt holeKernel (holeKernel.procs holeKernel.cur).pgdir 0 = some 0 ∧
      ¬ FreeRun (holeKernel.procs 0).mmaps 0x60001000 2 ∧
      (sysMmap 0 8192 3 (MAP_ANONYMOUS ||| MAP_PRIVATE) (-1) 0 holeKernel).panicked
        "remap" = true) ∧
    ((doMmap 0 4096 3 MAP_PRIVATE 3 0 (some 0) 0 readKernel).returned 0x60000000 = true ∧
      (privateMapKernel.procs 0).mmaps 0 = ⟨0x60000000, MAP_PRIVATE, 4096, 3, 3, some 0, 0, 0⟩ ∧
      (doMunmap 0x60000000 4096 privateMapKernel).returned 0 = true ∧
      fileByte readKernel.fs.disk (readKernel.fs.icache 0) 0 = 1 ∧
      fileByte ((doMunmap 0x60000000 4096 privateMapKernel).stateD privateMapKernel).fs.disk
        (((doMunmap 0x60000000 4096 privateMapKernel).stateD privateMapKernel).fs.icache 0)
        0 = 2) := by
  decide +kernel

/-- Over the well-formed table of `holeKernel` the search for two pages returns
`0x60001000`, whose second page is mapped by slot `2`; `mmap` of two pages then panics
in `mappages`. -/
theorem findNextMmap_returns_mapped_run :
    holeRun execKernel = .ok () holeKernel ∧
      MmapsWellFormed (holeKernel.procs 0).mmaps ∧
      findNextMmap (holeKernel.procs 0).mmaps 2 0 holeKernel = .ok 0x60001000 holeKernel ∧
      ¬ FreeRun (holeKernel.procs 0).mmaps 0x60001000 2 ∧
      sysMmap 0 8192 3 (MAP_ANONYMOUS ||| MAP_PRIVATE) (-1) 0 holeKernel = .panic "remap" := by
  obtain ⟨⟨hrun, hwf, hstore, hapart, h1, hfit, hstart, hword, hfree, hpanic⟩, -⟩ :=
    syscallRuns_evaluate
  have hsearch := findNextMmap_second_slot_empty hstore hapart h1 hfit
  -- the word the null stores write is the one at user address `0` already
  rw [hstart, Kernel.storeUser_of_wordAt hword] at hsearch
  exact ⟨Result.eq_ok_of_returned execKernel hrun, hwf, hsearch, hfree,
    Result.eq_panic_of_panicked hpanic⟩

/-! ## `munmap` of what is not a mapping, and of a private file mapping -/

/-- `munmap(0, 4096)` in a process with no mappings at all: the slot search takes an
inactive slot for a mapping at `0`, the text page is freed and unmapped, and the call
returns `0`. -/
theorem doMunmap_frees_text_page :
    (∀ i, ((execKernel.procs 0).mmaps i).va = 0) ∧
    ∃ k', doMunmap 0 4096 execKernel = .ok 0 k' ∧
      k'.freelist.head? = some 0x803FD000 ∧ mapped k' 0x803FF000 0 = false :=
  ⟨by decide, _, rfl, by decide, by decide⟩

/-- `munmap` of a range that no entry has, in a process with no mappings, returns `0` and
leaves `num_mmaps` at `-1`. -/
theorem doMunmap_unmatched :
    ∃ k', doMunmap 0x60000000 4096 execKernel = .ok 0 k' ∧ (k'.procs 0).numMmaps = -1 :=
  ⟨_, rfl, by decide⟩

/-- The write-back asks neither for `MAP_SHARED` nor for the entry's offset: a private
mapping taken after the read of `readKernel` holds the file's bytes from `4096`, and
unmapping it writes them over the file's first page, whose byte `0` goes from `1` to `2`. -/
theorem doMunmap_writes_private_page_back :
    doMmap 0 4096 3 MAP_PRIVATE 3 0 (some 0) 0 readKernel = .ok 0x60000000 privateMapKernel ∧
      (privateMapKernel.procs 0).mmaps 0 = ⟨0x60000000, MAP_PRIVATE, 4096, 3, 3, some 0, 0, 0⟩ ∧
      ∃ k', doMunmap 0x60000000 4096 privateMapKernel = .ok 0 k' ∧
        fileByte readKernel.fs.disk (readKernel.fs.icache 0) 0 = 1 ∧
        fileByte k'.fs.disk (k'.fs.icache 0) 0 = 2 := by
  obtain ⟨-, hmap, hentry, hunmap, hbyte, hbyte'⟩ := syscallRuns_evaluate
  exact ⟨Result.eq_ok_of_returned readKernel hmap, hentry, _,
    Result.eq_ok_of_returned privateMapKernel hunmap, hbyte, hbyte'⟩

end Xv6
