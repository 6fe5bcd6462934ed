import Xv6.Mmap.Inv
import Xv6.Kernel.File

/-!
# `do_munmap` (proc.c)

`do_munmap(addrInt, length)` rounds `addrInt` down and `length` up to pages and walks the
range page by page: a present page is written back to the file of the first entry whose
`va` is the rounded address, freed unless the last such entry is a child's, and its table
entry loses `PTE_P`.  Then the first entry with that `va` is cleared and `num_mmaps` goes
down by one.

Nothing in the function asks whether the range belongs to a mapping.  An inactive slot
has `va == 0`, so a range at address `0` finds one and goes on as if it were a mapping,
and every range, matched or not, costs `num_mmaps` one.  The main results are

* `preserves_doMunmap`: whatever the range, a call keeps the mmap invariant;
* `TaskStable.preserves_doMunmap`: it changes no pid, parent, state or size.

The runs on `execKernel` that free the text page and drive `num_mmaps` below zero are in
Mmap/Syscall.
-/

namespace Xv6

open Prog

/-- `fp->off = 0; filewrite(fp, pAddr, PGSIZE);` for a file mapping, nothing for an
anonymous one. -/
def writeBack (pAddr : UInt32) : Option (Fin NFILE) → Prog Kernel Unit
  | some f => do
    Prog.modify fun k => k.setFile f { k.ftable f with off := 0 }
    let _ ← filewrite f pAddr PGSIZE
    pure ()
  | none => pure ()

/-- Pass `i` of the unmapping loop, at `addr + i * PGSIZE`.  `mapIndex` is the last slot
whose `va` is `addr`, `0` if there is none. -/
def unmapPage (addr : UInt32) (fp : Option (Fin NFILE)) (currProc : Fin NPROC) (i : ℕ) :
    Prog Kernel Unit := do
  let p ← getProc currProc
  let pageAddr := addr + (Int32.ofNat i * PGSIZE).toUInt32
  match ← walkpgdir p.pgdir pageAddr false with
  | none => pure ()
  | some pte => do
    let k ← get
    if k.mem pte.1 pte.2 &&& PTE_P ≠ 0 then do
      let pAddr := P2V (PTE_ADDR (k.mem pte.1 pte.2))
      writeBack pAddr fp
      let p ← getProc currProc
      let mapIndex := Slots.last p.mmaps (fun e => e.va == addr) 0
      if (p.mmaps mapIndex).isChild = 0 then kfree pAddr else pure ()
      -- `*pte &= ~PTE_P`, on the entry as it is now
      Prog.modify fun k => k.writeWord pte.1 pte.2 (k.mem pte.1 pte.2 &&& ~~~PTE_P)
    else pure ()

/-- The end of `do_munmap`: `memset` of the first slot whose `va` is `addr`, if there is
one, and `num_mmaps--` in any case. -/
def Proc.removeMmap (addr : UInt32) (p : Proc) : Proc :=
  let p' := match Slots.first p.mmaps (fun e => e.va == addr) with
    | some i => p.setMmap i Mmap.zero
    | none => p
  { p' with numMmaps := p'.numMmaps - 1 }

/-- `do_munmap(addrInt, length)`. -/
def doMunmap (addrInt length : Int32) : Prog Kernel Int32 := do
  let addr := (PGROUNDDOWN addrInt).toUInt32
  let numpages := PGROUNDUP length / PGSIZE
  if numpages ≤ 0 then pure (-1)
  else do
    let currProc ← myproc
    let p ← getProc currProc
    let fp := match Slots.first p.mmaps (fun e => e.va == addr) with
      | some i => (p.mmaps i).fp
      | none => none
    forM (List.range numpages.toInt.toNat) (unmapPage addr fp currProc)
    modifyProc currProc (Proc.removeMmap addr)
    pure 0

/-! ## What a call does to the process table -/

namespace BelowProcs

variable {P : Kernel → Prop} (hP : BelowProcs P)
include hP

lemma preserves_writeBack (pAddr : UInt32) (fp : Option (Fin NFILE)) :
    Preserves P (writeBack pAddr fp) := by
  cases fp with
  | none => exact preserves_pure _
  | some f =>
    refine preserves_bind (preserves_modify fun k hk => hP.setFile _ _ _ hk) fun _ => ?_
    exact preserves_bind (hP.preserves_filewrite f _ _) fun _ => preserves_pure _

/-- The unmapping loop touches page tables, pages, the free list and files, never the
process table. -/
lemma preserves_unmapPage (addr : UInt32) (fp : Option (Fin NFILE)) (currProc : Fin NPROC)
    (i : ℕ) : Preserves P (unmapPage addr fp currProc i) := by
  refine preserves_bind (preserves_getProc P _) fun p => ?_
  refine preserves_bind (hP.preserves_walkpgdir _ _ _) fun r => ?_
  rcases r with _ | pte
  · exact preserves_pure _
  refine preserves_get_bind fun k _ => preserves_ite ?_ (preserves_pure _)
  refine preserves_bind (hP.preserves_writeBack _ fp) fun _ => ?_
  refine preserves_bind (preserves_getProc P _) fun p => ?_
  -- the store that clears `PTE_P` is the join point of the `if` on `isChild`
  extract_lets mapIndex clear
  have hclear : ∀ u, Preserves P (clear u) :=
    fun _ => preserves_modify fun k hk => hP.writeWord _ _ _ _ hk
  exact preserves_ite (preserves_bind (hP.kfree _) hclear) (hclear ())

end BelowProcs

/-- A range of no pages is refused and nothing changes. -/
theorem doMunmap_nonpositive {addrInt length : Int32} (h : PGROUNDUP length / PGSIZE ≤ 0)
    (k : Kernel) : doMunmap addrInt length k = .ok (-1) k := by
  simp [doMunmap, h]

/-! ## The invariant -/

/-- Clearing an entry leaves an inactive slot. -/
lemma Proc.MmapsAligned.removeMmap {p : Proc} (hp : p.MmapsAligned) (addr : UInt32) :
    (p.removeMmap addr).MmapsAligned := by
  simp only [Proc.removeMmap]
  split
  · exact hp.setMmap _ fun hva => absurd rfl hva
  · exact hp

/-- `do_munmap` keeps the invariant, whatever the range: its loop leaves the tables alone,
and its end clears a slot. -/
theorem preserves_doMunmap (addrInt length : Int32) : Preserves MmapInv (doMunmap addrInt length) := by
  refine preserves_ite (preserves_pure _) ?_
  refine preserves_bind (preserves_myproc _) fun currProc => ?_
  refine preserves_bind (preserves_getProc _ _) fun p => ?_
  refine preserves_bind (preserves_forM (fun i => (stable_mmapInv).preserves_unmapPage _ _ _ i) _)
    fun _ => ?_
  refine preserves_bind (preserves_modify fun k h => ?_) fun _ => preserves_pure _
  exact h.setProc _ ((h.aligned currProc).removeMmap _)

lemma TaskStable.preserves_doMunmap {P : Kernel → Prop} (hP : TaskStable P)
    (addrInt length : Int32) : Preserves P (doMunmap addrInt length) := by
  refine preserves_ite (preserves_pure _) ?_
  refine preserves_bind (preserves_myproc _) fun currProc => ?_
  refine preserves_bind (preserves_getProc _ _) fun p => ?_
  refine preserves_bind (preserves_forM (fun i => hP.preserves_unmapPage _ _ _ i) _) fun _ => ?_
  refine preserves_bind (hP.preserves_modifyTask _ fun q => ?_) fun _ => preserves_pure _
  simp only [Proc.removeMmap]
  split <;> exact ⟨rfl, rfl, rfl, rfl⟩

end Xv6
