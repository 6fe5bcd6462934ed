import Xv6.Mmap.FindNext
import Xv6.Fs.Owned

/-!
# `do_mmap` (proc.c)

`do_mmap(addrInt, length, prot, flags, fd, offset, fp, curproc)` checks the address and
the table, chooses a range (the given one under `MAP_FIXED`, otherwise the one
`find_next_mmap` finds), allocates and maps its pages one by one, and records the mapping
in the first inactive slot.  The model follows the function in four parts:
`chooseRange`, `growUp` (the `MAP_GROWSUP` block), `allocPage` (one pass of the allocation
loop) and `storeEntry`.

What the checks do not cover is what the source does not check: under `MAP_FIXED` only
the first page is probed and only `addr`, not `addr + PGROUNDUP(length)`, is compared with
`KERNBASE`; `MAP_GROWSUP` maps one page more than it records and adds that page to the
length of slot 0, whichever mapping is there; a length that rounds to zero pages is stored
as it is; with no free slot, `mmap_entry` stays null and the entry is written over the
first words of the process's text.  The theorems at the end of the file run `do_mmap` on
the process of `execKernel` and show each of these.

Besides the invariant of the tables (`preserves_doMmap`), `do_mmap` keeps what every change
to a process that keeps its pid, parent, state and size keeps (`TaskStable`), carried
through the fault path that may end the caller (`triple_doMmap`).
-/

namespace Xv6

open Prog

/-- The range `[start_addr, end_addr)` that `do_mmap` goes on with, or `none` where it
returns `-1` before touching anything.  Under `MAP_FIXED`, `addrInt < MMAPVIRTBASE` is a
signed comparison and `addrInt > KERNBASE` an unsigned one, and only the entry of the
first page is looked at. -/
def chooseRange (addrInt length flags numPages : Int32) (curproc : Fin NPROC) :
    Prog Kernel (Option (UInt32 × UInt32)) := do
  let p ← getProc curproc
  if flags &&& MAP_FIXED ≠ 0 then
    if addrInt < MMAPVIRTBASE ∨ addrInt.toUInt32 > KERNBASE then pure none
    else
      let startAddr := addrInt.toUInt32
      let endAddr := startAddr + (PGROUNDUP length).toUInt32
      match ← walkpgdir p.pgdir startAddr false with
      | some pte => do
        let k ← get
        if k.mem pte.1 pte.2 &&& PTE_P ≠ 0 then pure none
        else pure (some (startAddr, endAddr))
      | none => pure (some (startAddr, endAddr))
  else do
    let nextAddr ← findNextMmap p.mmaps numPages 0
    if nextAddr ≠ -1 then pure (some (nextAddr.toUInt32, KERNBASE)) else pure none

/-- The `MAP_GROWSUP` block: a second search, for one page more, in growth mode; if it
finds room, one page more is mapped and `curproc->mmaps->length`, the length of slot 0,
grows by a page.  The result is the new `num_pages`. -/
def growUp (numPages : Int32) (curproc : Fin NPROC) : Prog Kernel Int32 := do
  let p ← getProc curproc
  let newAddr ← findNextMmap p.mmaps (numPages + 1) 1
  if newAddr ≠ -1 then do
    modifyProc curproc fun p => p.setMmap 0 { p.mmaps 0 with length := (p.mmaps 0).length + PGSIZE }
    pure (numPages + 1)
  else do
    handlePageFault
    pure numPages

/-- Pass `i` of the allocation loop: a zeroed page from `kalloc`, mapped at
`start_addr + i * PGSIZE` and, for a file mapping, filled by `fileread` from the file's
offset (the result is only printed).  `some (-1)` is the `return -1` of a failed `kalloc`
or `mappages`; the `walkpgdir` after `mappages` only feeds a `cprintf`. -/
def allocPage (startAddr : UInt32) (fp : Option (Fin NFILE)) (curproc : Fin NPROC) (i : ℕ) :
    Prog Kernel (Option Int32) := do
  let mem ← kalloc
  if mem = 0 then pure (some (-1))
  else do
    Prog.modify fun k => k.fillPage mem 0
    let p ← getProc curproc
    let r ← mappages p.pgdir (startAddr + (Int32.ofNat i * PGSIZE).toUInt32) PGSIZE (V2P mem)
      (PTE_W ||| PTE_U)
    if r < 0 then do
      kfree mem
      pure (some (-1))
    else
      match fp with
      | some f => do
        let _ ← fileread f mem PGSIZE
        pure none
      | none => pure none

/-- The entry `do_mmap` records. -/
def newEntry (startAddr : UInt32) (length prot flags fd offset : Int32)
    (fp : Option (Fin NFILE)) : Mmap :=
  ⟨startAddr, flags, PGROUNDUP length, prot, fd, fp, offset, 0⟩

/-- The stores of `do_mmap`'s last lines through a null `mmap_entry`: the fields of `e` go to
user addresses `0` to `31`, at their offsets in `struct mmap`, in the order of the source. -/
def storeNullEntry (e : Mmap) : Prog Kernel Unit := do
  let k ← get
  kernelStore 0 e.va
  kernelStore 12 e.prot.toUInt32
  kernelStore 4 e.flags.toUInt32
  kernelStore 16 e.fd.toUInt32
  kernelStore 8 e.length.toUInt32
  kernelStore 24 e.offset.toUInt32
  kernelStore 20 (k.filePtr e.fp)
  kernelStore 28 e.isChild.toUInt32

/-- The end of `do_mmap`: the entry goes to the first slot with `va == 0`; with none,
`mmap_entry` stays null and the entry goes to user address `0`.  `num_mmaps` grows by one
either way. -/
def storeEntry (e : Mmap) (curproc : Fin NPROC) : Prog Kernel Unit := do
  let p ← getProc curproc
  match Slots.first p.mmaps (fun e => e.va == 0) with
  | some i => modifyProc curproc fun p => p.setMmap i e
  | none => storeNullEntry e
  modifyProc curproc fun p => { p with numMmaps := p.numMmaps + 1 }

/-- `do_mmap(addrInt, length, prot, flags, fd, offset, fp, curproc)`. -/
def doMmap (addrInt length prot flags fd offset : Int32) (fp : Option (Fin NFILE))
    (curproc : Fin NPROC) : Prog Kernel Int32 := do
  if addrInt % PGSIZE ≠ 0 then pure (-1)
  else do
    let p ← getProc curproc
    if p.numMmaps ≥ 32 then pure (-1)
    else do
      let numPages := PGROUNDUP length / PGSIZE
      match ← chooseRange addrInt length flags numPages curproc with
      | none => pure (-1)
      | some (startAddr, endAddr) =>
        if startAddr ≥ endAddr then pure (-1)
        else do
          let numPages ←
            if flags &&& MAP_GROWSUP ≠ 0 then growUp numPages curproc else pure numPages
          match ← (List.range numPages.toInt.toNat).findSomeM? (allocPage startAddr fp curproc)
          with
          | some r => pure r
          | none => do
            storeEntry (newEntry startAddr length prot flags fd offset fp) curproc
            pure startAddr.toInt32

/-! ## Requests refused at the door -/

/-- An address that is not a multiple of the page size, as an `int`, is refused before
anything changes. -/
theorem doMmap_unaligned {addrInt length prot flags fd offset : Int32}
    {fp : Option (Fin NFILE)} {curproc : Fin NPROC} (h : addrInt % PGSIZE ≠ 0) (k : Kernel) :
    doMmap addrInt length prot flags fd offset fp curproc k = .ok (-1) k := by
  simp [doMmap, h]

/-- A process with `num_mmaps >= 32` gets `-1` and nothing changes. -/
theorem doMmap_full {addrInt length prot flags fd offset : Int32} {fp : Option (Fin NFILE)}
    {curproc : Fin NPROC} {k : Kernel} (h : (k.procs curproc).numMmaps ≥ 32) :
    doMmap addrInt length prot flags fd offset fp curproc k = .ok (-1) k := by
  by_cases ha : addrInt % PGSIZE ≠ 0
  · exact doMmap_unaligned ha k
  · simp [doMmap, ha, h]

/-! ## What the parts keep and return -/

namespace FaultStable

variable {I E : Kernel → Prop} (hF : FaultStable I E)
include hF

lemma triple_chooseRange (addrInt length flags numPages : Int32) (curproc : Fin NPROC) :
    Triple I (chooseRange addrInt length flags numPages curproc) (fun _ => I) E := by
  refine triple_bind_of_preserves (preserves_getProc _ _) hF.out fun p =>
    triple_ite (fun _ => ?_) fun _ => ?_
  · refine triple_ite (fun _ => triple_pure fun _ h => h) fun _ => ?_
    refine triple_bind_of_preserves (hF.preserves_walkpgdir _ _ _) hF.out fun r => ?_
    rcases r with _ | pte
    · exact triple_pure fun _ h => h
    · exact triple_bind_of_preserves preserves_get hF.out fun _ =>
        triple_ite (fun _ => triple_pure fun _ h => h) fun _ => triple_pure fun _ h => h
  · exact triple_bind (hF.triple_findNextMmap _ _ _) fun _ =>
      triple_ite (fun _ => triple_pure fun _ h => h) fun _ => triple_pure fun _ h => h

lemma triple_storeNullEntry (e : Mmap) : Triple I (storeNullEntry e) (fun _ => I) E := by
  refine triple_bind_of_preserves preserves_get hF.out fun k => ?_
  refine triple_bind (hF.triple_kernelStore _ _) fun _ => ?_
  refine triple_bind (hF.triple_kernelStore _ _) fun _ => ?_
  refine triple_bind (hF.triple_kernelStore _ _) fun _ => ?_
  refine triple_bind (hF.triple_kernelStore _ _) fun _ => ?_
  refine triple_bind (hF.triple_kernelStore _ _) fun _ => ?_
  refine triple_bind (hF.triple_kernelStore _ _) fun _ => ?_
  refine triple_bind (hF.triple_kernelStore _ _) fun _ => ?_
  exact hF.triple_kernelStore _ _

end FaultStable

namespace MinorStable

variable {P : Kernel → Prop} (hP : MinorStable P)
include hP

/-- The allocation loop changes pages, page tables, the free list and files, and no process. -/
lemma preserves_allocPage (startAddr : UInt32) (fp : Option (Fin NFILE)) (curproc : Fin NPROC)
    (i : ℕ) : Preserves P (allocPage startAddr fp curproc i) := by
  refine preserves_bind hP.kalloc fun mem => preserves_ite (preserves_pure _) ?_
  refine preserves_bind (preserves_modify fun k hk => hP.fillPage _ _ _ hk) fun _ => ?_
  refine preserves_bind (preserves_getProc P _) fun p => ?_
  refine preserves_bind (hP.preserves_mappages _ _ _ _ _) fun r => preserves_ite ?_ ?_
  · exact preserves_bind (hP.kfree _) fun _ => preserves_pure _
  · cases fp with
    | none => exact preserves_pure _
    | some f => exact preserves_bind (hP.preserves_fileread _ _ _) fun _ => preserves_pure _

/-- A pass of the allocation loop stops it only with `-1`. -/
lemma returns_allocPage (startAddr : UInt32) (fp : Option (Fin NFILE)) (curproc : Fin NPROC)
    (i : ℕ) : Returns P (allocPage startAddr fp curproc i) fun r => ∀ e, r = some e → e = -1 := by
  have hfail : Returns P (pure (some (-1)) : Prog Kernel (Option Int32))
      fun r => ∀ e, r = some e → e = -1 := returns_pure fun _ h => (Option.some.inj h).symm
  refine returns_bind hP.kalloc fun mem => returns_ite hfail ?_
  refine returns_bind (preserves_modify fun k hk => hP.fillPage _ _ _ hk) fun _ => ?_
  refine returns_bind (preserves_getProc P _) fun p => ?_
  refine returns_bind (hP.preserves_mappages _ _ _ _ _) fun r => returns_ite ?_ ?_
  · exact returns_bind (hP.kfree _) fun _ => hfail
  · cases fp with
    | none => exact returns_pure fun _ h => nomatch h
    | some f =>
      exact returns_bind (hP.preserves_fileread _ _ _) fun _ => returns_pure fun _ h => nomatch h

end MinorStable

/-- The range `do_mmap` goes on with starts on a page boundary, provided the address passed
the check `addr % PGSIZE == 0` and the caller's table is page-aligned: a fixed range starts
at the address, any other at what `find_next_mmap` found. -/
lemma chooseRange_aligned {addrInt length flags numPages : Int32} {curproc : Fin NPROC}
    {k k' : Kernel} {startAddr endAddr : UInt32} (ha : addrInt % PGSIZE = 0)
    (hal : ∀ i, ((k.procs curproc).mmaps i).va ≠ 0 → ((k.procs curproc).mmaps i).Aligned)
    (h : chooseRange addrInt length flags numPages curproc k = .ok (some (startAddr, endAddr)) k') :
    startAddr.toNat % 4096 = 0 := by
  unfold chooseRange at h
  rw [bind_of_ok (getProc_apply _ _), run_ite] at h
  split at h
  · -- `MAP_FIXED`: every range that comes out starts at `addrInt`
    have hstart : startAddr = addrInt.toUInt32 := by
      rw [run_ite] at h
      split at h
      · cases h
      · obtain ⟨r, k₁, -, h⟩ := Iff.mp bind_eq_ok h
        rcases r with _ | pte
        · cases h; rfl
        · dsimp only at h
          rw [bind_of_ok (get_apply _), run_ite] at h
          split at h <;> cases h
          rfl
    rw [hstart, ← Int32.toNat_toBitVec]
    exact toBitVec_aligned_of_mod ha
  · -- otherwise the start is the search's answer, which is not `-1`
    obtain ⟨r, k₁, hr, h⟩ := Iff.mp bind_eq_ok h
    rw [run_ite] at h
    split at h
    · cases h
      rename_i hne
      rcases findNextMmap_aligned hal hr with h1 | h1
      · exact absurd h1 hne
      · rw [← Int32.toNat_toBitVec]
        exact h1
    · cases h

/-- The same, as a rule about what `chooseRange` returns from states whose caller's table
is page-aligned. -/
lemma returns_chooseRange {addrInt length flags numPages : Int32} {curproc : Fin NPROC}
    {P : Kernel → Prop} (ha : addrInt % PGSIZE = 0)
    (hal : ∀ k, P k → ∀ i, ((k.procs curproc).mmaps i).va ≠ 0 →
      ((k.procs curproc).mmaps i).Aligned) :
    Returns P (chooseRange addrInt length flags numPages curproc)
      fun r => ∀ a b, r = some (a, b) → a.toNat % 4096 = 0 := by
  rintro k r k' hk hr a b rfl
  exact chooseRange_aligned ha (hal k hk) hr

/-! ## The invariant of the mapping tables -/

/-- A page more on an aligned length is still a whole number of pages, overflow or not. -/
lemma Mmap.Aligned.grow {e : Mmap} (he : e.Aligned) :
    ({ e with length := e.length + PGSIZE } : Mmap).Aligned := by
  refine ⟨he.1, ?_⟩
  have hlen := he.2
  have hpg : (PGSIZE : Int32).toBitVec.toNat = 4096 := by decide
  simp only [Int32.toBitVec_add, BitVec.toNat_add, hpg]
  omega

/-- `MAP_GROWSUP` adds a page to slot 0, active or not. -/
lemma preserves_growUp (numPages : Int32) (curproc : Fin NPROC) :
    Preserves MmapInv (growUp numPages curproc) := by
  refine preserves_bind (preserves_getProc _ _) fun p => ?_
  refine preserves_bind ((faultStable_mmapInv).triple_findNextMmap _ _ _) fun r => ?_
  refine preserves_ite ?_ (preserves_bind (faultStable_mmapInv).triple_handlePageFault fun _ =>
    preserves_pure _)
  refine preserves_bind (preserves_modify fun k h => ?_) fun _ => preserves_pure _
  exact h.setProc _ ((h.aligned curproc).setMmap 0 fun hva => (h.aligned curproc 0 hva).grow)

/-- Storing an aligned entry keeps the invariant, and so do the stores through a null
`mmap_entry`, which write a user page or fault. -/
lemma preserves_storeEntry {e : Mmap} (he : e.Aligned) (curproc : Fin NPROC) :
    Preserves MmapInv (storeEntry e curproc) := by
  refine preserves_bind (preserves_getProc _ _) fun p => ?_
  -- the count that follows the slot search is the join point of its two branches
  extract_lets count
  have hcount : ∀ u, Preserves MmapInv (count u) :=
    fun _ => (stable_mmapInv).preserves_modifyProc _ fun _ => ⟨rfl, rfl⟩
  split
  · refine preserves_bind (preserves_modify fun k h => ?_) hcount
    exact h.setProc _ ((h.aligned curproc).setMmap _ fun _ => he)
  · exact preserves_bind ((faultStable_mmapInv).triple_storeNullEntry e) hcount

/-- `do_mmap` keeps the invariant, for every argument and every process: the entry it
stores starts where the range starts, on a page boundary by `chooseRange_aligned`, and its
length is rounded up. -/
theorem preserves_doMmap (addrInt length prot flags fd offset : Int32)
    (fp : Option (Fin NFILE)) (curproc : Fin NPROC) :
    Preserves MmapInv (doMmap addrInt length prot flags fd offset fp curproc) := by
  unfold doMmap
  by_cases ha : addrInt % PGSIZE ≠ 0
  · rw [if_pos ha]
    exact preserves_pure _
  rw [if_neg ha]
  refine preserves_bind (preserves_getProc _ _) fun p => preserves_ite (preserves_pure _) ?_
  refine preserves_bind_of ((faultStable_mmapInv).triple_chooseRange _ _ _ _ _)
    (returns_chooseRange (not_not.mp ha) fun k h => h.aligned curproc) fun r hr => ?_
  rcases r with _ | ⟨startAddr, endAddr⟩
  · exact preserves_pure _
  dsimp only
  refine preserves_ite (preserves_pure _) ?_
  have he : (newEntry startAddr length prot flags fd offset fp).Aligned :=
    ⟨hr _ _ rfl, PGROUNDUP_aligned length⟩
  -- the choice of `num_pages` under `MAP_GROWSUP` is an `if` over the rest of the function
  refine preserves_ite (preserves_bind (preserves_growUp _ _) fun n => ?_)
    (preserves_bind (preserves_pure _) fun n => ?_) <;>
  · refine preserves_bind (preserves_findSomeM
      (fun i => (stable_mmapInv).preserves_allocPage _ _ _ i) _) fun r => ?_
    rcases r with _ | r
    · exact preserves_bind (preserves_storeEntry he _) fun _ => preserves_pure _
    · exact preserves_pure _

/-- Every address `do_mmap` returns from a state with the invariant is `-1` or on a page
boundary: the start of the range, which `chooseRange_aligned` puts there. -/
theorem returns_doMmap (addrInt length prot flags fd offset : Int32)
    (fp : Option (Fin NFILE)) (curproc : Fin NPROC) :
    Returns MmapInv (doMmap addrInt length prot flags fd offset fp curproc)
      fun r => r = -1 ∨ r.toBitVec.toNat % 4096 = 0 := by
  have hfail : Returns MmapInv (pure (-1) : Prog Kernel Int32)
      fun r => r = -1 ∨ r.toBitVec.toNat % 4096 = 0 := returns_pure (.inl rfl)
  unfold doMmap
  by_cases ha : addrInt % PGSIZE ≠ 0
  · rw [if_pos ha]
    exact hfail
  rw [if_neg ha]
  refine returns_bind (preserves_getProc _ _) fun p => returns_ite hfail ?_
  refine returns_bind_of ((faultStable_mmapInv).triple_chooseRange _ _ _ _ _)
    (returns_chooseRange (not_not.mp ha) fun k h => h.aligned curproc) fun r hr => ?_
  rcases r with _ | ⟨startAddr, endAddr⟩
  · exact hfail
  dsimp only
  refine returns_ite hfail ?_
  have he : (newEntry startAddr length prot flags fd offset fp).Aligned :=
    ⟨hr _ _ rfl, PGROUNDUP_aligned length⟩
  have hloop := fun i => (stable_mmapInv).preserves_allocPage startAddr fp curproc i
  refine returns_ite (returns_bind (preserves_growUp _ _) fun n => ?_)
    (returns_bind (preserves_pure _) fun n => ?_) <;>
  · refine returns_bind_of (preserves_findSomeM hloop _)
      (returns_findSomeM hloop (fun i => (stable_mmapInv).returns_allocPage _ _ _ i) _)
      fun r hr' => ?_
    rcases r with _ | r
    · -- the entry is stored and the start of the range returned
      refine returns_bind (preserves_storeEntry he _) fun _ => returns_pure (.inr ?_)
      rw [UInt32.toBitVec_toInt32]
      exact hr _ _ rfl
    · exact returns_pure (.inl (hr' r rfl))

/-! ## What `do_mmap` keeps of the processes

`do_mmap` changes the caller's table and count, memory and files, and, through the fault
path, may end the caller.  A property `I` that every change keeping a process's pid,
parent, state and size keeps is carried to every return, and the exits leave what the
fault path asks. -/

section Tasks

variable {I E : Kernel → Prop} (hT : TaskStable I) (hF : FaultStable I E)
include hT hF

lemma triple_growUp (numPages : Int32) (curproc : Fin NPROC) :
    Triple I (growUp numPages curproc) (fun _ => I) E := by
  refine triple_bind_of_preserves (preserves_getProc _ _) hF.out fun p => ?_
  refine triple_bind (hF.triple_findNextMmap _ _ _) fun r => triple_ite (fun _ => ?_) fun _ => ?_
  · exact triple_bind_of_preserves (hT.preserves_modifyTask _ fun _ => ⟨rfl, rfl, rfl, rfl⟩)
      hF.out fun _ => triple_pure fun _ h => h
  · exact triple_bind hF.triple_handlePageFault fun _ => triple_pure fun _ h => h

lemma triple_storeEntry (e : Mmap) (curproc : Fin NPROC) :
    Triple I (storeEntry e curproc) (fun _ => I) E := by
  refine triple_bind_of_preserves (preserves_getProc _ _) hF.out fun p => ?_
  -- the count that follows the slot search is the join point of its two branches
  extract_lets count
  have hcount : ∀ u, Triple I (count u) (fun _ => I) E := fun _ =>
    hF.triple_of_preserves (hT.preserves_modifyTask _ fun _ => ⟨rfl, rfl, rfl, rfl⟩)
  split
  · exact triple_bind_of_preserves (hT.preserves_modifyTask _ fun _ => ⟨rfl, rfl, rfl, rfl⟩)
      hF.out hcount
  · exact triple_bind (hF.triple_storeNullEntry e) hcount

/-- `do_mmap` keeps `I` where it returns; where the fault path ends the caller, `E` holds. -/
theorem triple_doMmap (addrInt length prot flags fd offset : Int32) (fp : Option (Fin NFILE))
    (curproc : Fin NPROC) :
    Triple I (doMmap addrInt length prot flags fd offset fp curproc) (fun _ => I) E := by
  unfold doMmap
  refine triple_ite (fun _ => triple_pure fun _ h => h) fun _ => ?_
  refine triple_bind_of_preserves (preserves_getProc _ _) hF.out fun p =>
    triple_ite (fun _ => triple_pure fun _ h => h) fun _ => ?_
  refine triple_bind (hF.triple_chooseRange _ _ _ _ _) fun r => ?_
  rcases r with _ | ⟨startAddr, endAddr⟩
  · exact triple_pure fun _ h => h
  dsimp only
  refine triple_ite (fun _ => triple_pure fun _ h => h) fun _ => ?_
  -- the choice of `num_pages` under `MAP_GROWSUP` is an `if` over the rest of the function
  refine triple_ite (fun _ => triple_bind (triple_growUp hT hF _ _) fun n => ?_)
    (fun _ => triple_bind (show Triple I (pure _) (fun _ => I) E from triple_pure fun _ h => h)
      fun n => ?_) <;>
  · refine triple_bind (hF.triple_of_preserves
      (preserves_findSomeM (fun i => hT.preserves_allocPage _ _ _ i) _)) fun r => ?_
    rcases r with _ | r
    · exact triple_bind (triple_storeEntry hT hF _ _) fun _ => triple_pure fun _ h => h
    · exact triple_pure fun _ h => h

end Tasks

/-! ## What an entry covers -/

/-- The entry is active and `v` lies in its range `[va, va + length)`, read as numbers. -/
def Mmap.covers (e : Mmap) (v : UInt32) : Prop :=
  e.va ≠ 0 ∧ e.va.toNat ≤ v.toNat ∧ v.toNat < e.va.toNat + e.length.toInt.toNat

instance (e : Mmap) (v : UInt32) : Decidable (e.covers v) :=
  inferInstanceAs (Decidable (_ ∧ _ ∧ _))

/-! ## A process fresh from `exec`

The runs below start from one kernel state: process slot `0` (pid 3, running) has just
come out of `exec` of a one-page program.  Its page directory at `0x803FF000` maps the
text page at `0`, the guard page at `0x1000` (not user-accessible, as `clearpteu` leaves
it) and the stack page at `0x2000`, and, as `setupkvm` makes every page directory do,
the kernel at `KERNBASE` (of the kernel mappings only the first page is written out: no
run below reaches another).  Descriptor 3 is open for reading and writing on inode `7`, a
file of `4100` bytes whose page `i` holds the byte `i + 1` throughout; descriptors `0` to
`2` are the console.  Slot 1 is `init`, sleeping; the other slots are unused; sixteen
pages are free, from `0x80500000` up. -/

/-- The page directory and page tables of `execKernel`. -/
def execMem (pg i : UInt32) : UInt32 :=
  if pg = 0x803FF000 then
    if i = 0 then 0x003FE007 else if i = 512 then 0x003FC007 else 0
  else if pg = 0x803FE000 then
    if i = 0 then 0x003FD007 else if i = 1 then 0x003FB003 else if i = 2 then 0x003FA007 else 0
  else if pg = 0x803FC000 then
    if i = 0 then 0x00000003 else 0
  else 0

/-- Byte `off` of the file of inode `7`: the number of its page, from `1`. -/
def execFileByte (off : ℕ) : UInt8 := (off / 4096 + 1).toUInt8

/-- The disk under `execKernel`: inode `7` is a file of `4100` bytes in blocks `100` to `108`,
inode `1` the root directory (whose entries no run reads), inode `2` the console. -/
def execDisk : Disk where
  blocks b :=
    if 100 ≤ b ∧ b < 109 then fun a => execFileByte ((b.toNat - 100) * BSIZE + a.val)
    else fun _ => 0
  inodes inum :=
    if inum = 7 then ⟨T_FILE, 0, 0, 1, 4100, fun i => if i.val < 9 then 100 + i.val.toUInt32 else 0⟩
    else if inum = 1 then ⟨T_DIR, 0, 0, 1, 0, fun _ => 0⟩
    else if inum = 2 then ⟨T_DEV, CONSOLE, 1, 1, 0, fun _ => 0⟩
    else Dinode.zero

/-- A slot of the inode cache that holds inode `inum` with `ref` references, as `ilock` read
it from `execDisk`. -/
def execSlot (inum : UInt32) (ref : ℕ) : Inode :=
  (⟨inum, ref, false, 0, 0, 0, 0, 0, fun _ => 0⟩ : Inode).load (execDisk.inodes inum)

/-- The file system under `execKernel`: slot `0` of the inode cache holds the file of
descriptor `3`, slot `1` the console, slot `2` the root directory, the working directory of
both processes. -/
def execFs : Fs where
  disk := execDisk
  icache p :=
    if p.val = 0 then execSlot 7 1
    else if p.val = 1 then execSlot 2 1
    else if p.val = 2 then execSlot 1 2
    else ⟨0, 0, false, 0, 0, 0, 0, 0, fun _ => 0⟩

/-- The process fresh from `exec`. -/
def execProc : Proc where
  sz := 0x3000
  pgdir := 0x803FF000
  kstack := 0x803F0000
  state := .RUNNING
  pid := 3
  parent := some 1
  killed := false
  ofile := fun fd => if fd.val < 3 then some 1 else if fd.val = 3 then some 0 else none
  cwd := some 2
  mmaps := fun _ => Mmap.zero
  numMmaps := 0

/-- `init`, waiting for its children. -/
def initProc : Proc :=
  { execProc with
    pid := 1
    state := .SLEEPING
    parent := none
    pgdir := 0x80300000
    kstack := 0x803E0000
    ofile := fun fd => if fd.val < 3 then some 1 else none }

/-- A slot of the process table that has never been used. -/
def unusedProc : Proc :=
  { execProc with state := .UNUSED, pid := 0, parent := none, ofile := fun _ => none, cwd := none }

/-- The kernel state the runs below start from. -/
def execKernel : Kernel where
  procs := fun p => if p.val = 0 then execProc else if p.val = 1 then initProc else unusedProc
  cur := 0
  initproc := 1
  freelist := (List.range 16).map fun i => 0x80500000 + 0x1000 * UInt32.ofNat i
  mem := execMem
  ftable := fun f =>
    if f.val = 0 then ⟨.FD_INODE, 1, true, true, 0, 0, 0⟩
    else if f.val = 1 then ⟨.FD_INODE, 6, true, true, 0, 1, 0⟩
    else ⟨.FD_NONE, 0, false, false, 0, 0, 0⟩
  ftableAddr := 0x8010A000
  nextpid := 4
  kdata := 0x80108000
  kend := 0x80200000
  fs := execFs
  io := ⟨fun _ n => n, fun _ n => n, fun n => n, fun n => n⟩

/-! ## What the checks let through -/

/-- A length of zero passes every check: the process gets an active entry at
`MMAPVIRTBASE` whose range is empty. -/
theorem doMmap_zero_length :
    ∃ k', doMmap 0 0 3 (MAP_ANONYMOUS ||| MAP_PRIVATE) (-1) 0 none 0 execKernel =
        .ok 0x60000000 k' ∧
      (k'.procs 0).mmaps 0 = ⟨0x60000000, MAP_ANONYMOUS ||| MAP_PRIVATE, 0, 3, -1, none, 0, 0⟩ :=
  ⟨_, rfl, by decide⟩

/-- `MAP_GROWSUP` maps a page that no entry covers: a one-page request maps
`0x60000000` and `0x60001000` and records `[0x60000000, 0x60001000)`. -/
theorem doMmap_growsup_maps_uncovered_page :
    ∃ k', doMmap 0x60000000 4096 3 (MAP_ANONYMOUS ||| MAP_FIXED ||| MAP_GROWSUP ||| MAP_PRIVATE)
        (-1) 0 none 0 execKernel = .ok 0x60000000 k' ∧
      mapped k' (k'.procs 0).pgdir 0x60001000 = true ∧
      ∀ i, ¬ ((k'.procs 0).mmaps i).covers 0x60001000 :=
  ⟨_, rfl, by decide, by decide⟩

/-- Under `MAP_FIXED` only `addr` is compared with `KERNBASE`: two pages at
`0x7FFFF000` reach the kernel's own mapping at `KERNBASE`, and `mappages` panics. -/
theorem doMmap_fixed_remaps_kernel :
    doMmap 0x7FFFF000 8192 3 (MAP_ANONYMOUS ||| MAP_FIXED ||| MAP_PRIVATE) (-1) 0 none 0
      execKernel = .panic "remap" :=
  rfl


/-! ## Files, failures and the growth flag

The runs below show what `do_mmap` does beside the range it records: a file mapping is
filled from wherever the descriptor's offset stands and moves it, a failure part way
through the allocation loop keeps the pages it has mapped, and `MAP_GROWSUP` changes the
entry in slot `0` or kills the caller.  `readKernel` and `twoFreeKernel` are `execKernel`
a little further on: after a `read` of a page of a file of `4100` bytes through descriptor
`3`, and with only two pages left on the free list. -/

/-- `execKernel` after `read(3, buf, 4096)`: `readi` handed the file's first page to the
caller's buffer, and the descriptor's offset is `4096`. -/
def readKernel : Kernel :=
  { execKernel with
    ftable := Function.update execKernel.ftable 0 { execKernel.ftable 0 with off := 4096 } }

/-- A mapping of the file from offset `0` holds the file's bytes from the descriptor's
offset: after the read, the first byte of the page is the file's byte `4096`, not its byte
`0`. -/
theorem doMmap_maps_file_from_descriptor_offset :
    ∃ k', doMmap 0 4096 3 MAP_PRIVATE 3 0 (some 0) 0 readKernel = .ok 0x60000000 k' ∧
      byteAt k' (k'.procs 0).pgdir 0x60000000 =
        some (fileByte readKernel.fs.disk (readKernel.fs.icache 0) 4096) ∧
      fileByte readKernel.fs.disk (readKernel.fs.icache 0) 4096 ≠
        fileByte readKernel.fs.disk (readKernel.fs.icache 0) 0 := by
  refine ⟨_, Result.eq_ok_of_returned readKernel (by decide), ?_, by decide⟩
  -- the walk is checked at the directory's address: the kernel compares the addresses
  -- `Function.update` keys by unfolding them, and the computed one is costly to unfold
  have hpgdir : (((doMmap 0 4096 3 MAP_PRIVATE 3 0 (some 0) 0 readKernel).stateD
      readKernel).procs 0).pgdir = 0x803FF000 := by decide
  rw [hpgdir]
  decide

/-- `execKernel` with two pages left on the free list. -/
def twoFreeKernel : Kernel :=
  { execKernel with freelist := [0x80500000, 0x80501000] }

/-- A failed `kalloc` in the second pass of the allocation loop returns `-1` with the
first page still mapped: it and the page table that maps it have left the free list, and
no entry records them. -/
theorem doMmap_failure_leaves_pages_mapped :
    ∃ k', doMmap 0 8192 3 (MAP_ANONYMOUS ||| MAP_PRIVATE) (-1) 0 none 0 twoFreeKernel =
        .ok (-1) k' ∧
      mapped twoFreeKernel (twoFreeKernel.procs 0).pgdir 0x60000000 = false ∧
      mapped k' (k'.procs 0).pgdir 0x60000000 = true ∧
      k'.freelist = [] ∧ (k'.procs 0).mmaps = (twoFreeKernel.procs 0).mmaps := by
  refine ⟨_, Result.eq_ok_of_returned twoFreeKernel (by decide), by decide,
    ?_, by decide, ?_⟩
  · have hpgdir : (((doMmap 0 8192 3 (MAP_ANONYMOUS ||| MAP_PRIVATE) (-1) 0 none 0
        twoFreeKernel).stateD twoFreeKernel).procs 0).pgdir = 0x803FF000 := by decide
    rw [hpgdir]
    decide
  · funext i
    revert i
    decide

/-- One anonymous private page, mapped from `execKernel` at `MMAPVIRTBASE` in slot `0`. -/
def oneMapKernel : Kernel :=
  (doMmap 0 4096 3 (MAP_ANONYMOUS ||| MAP_PRIVATE) (-1) 0 none 0 execKernel).stateD execKernel

lemma doMmap_oneMapKernel :
    doMmap 0 4096 3 (MAP_ANONYMOUS ||| MAP_PRIVATE) (-1) 0 none 0 execKernel =
      .ok 0x60000000 oneMapKernel :=
  Result.eq_ok_of_returned execKernel (by decide)

/-- A second anonymous private page, at `0x60001000` in slot `1`. -/
def twoMapKernel : Kernel :=
  (doMmap 0 4096 3 (MAP_ANONYMOUS ||| MAP_PRIVATE) (-1) 0 none 0 oneMapKernel).stateD
    oneMapKernel

lemma doMmap_twoMapKernel :
    doMmap 0 4096 3 (MAP_ANONYMOUS ||| MAP_PRIVATE) (-1) 0 none 0 oneMapKernel =
      .ok 0x60001000 twoMapKernel :=
  Result.eq_ok_of_returned oneMapKernel (by decide)

/-- The two runs of this section too long for the elaborator's evaluation, evaluated once
in the kernel: a file mapping of descriptor `3`, and a growing page after `twoMapKernel`. -/
lemma doMmapRuns_evaluate :
    (doMmap 0 4096 3 MAP_PRIVATE 3 0 (some 0) 0 execKernel).returned 0x60000000 = true ∧
      (((doMmap 0 4096 3 MAP_PRIVATE 3 0 (some 0) 0 execKernel).stateD execKernel).ftable
        0).off = 4096 ∧
      (doMmap 0 4096 3 (MAP_ANONYMOUS ||| MAP_PRIVATE ||| MAP_GROWSUP) (-1) 0 none 0
        twoMapKernel).exited = true ∧
      (((doMmap 0 4096 3 (MAP_ANONYMOUS ||| MAP_PRIVATE ||| MAP_GROWSUP) (-1) 0 none 0
        twoMapKernel).exitD twoMapKernel).procs 0).killed = true ∧
      (((doMmap 0 4096 3 (MAP_ANONYMOUS ||| MAP_PRIVATE ||| MAP_GROWSUP) (-1) 0 none 0
        twoMapKernel).exitD twoMapKernel).procs 0).state = .ZOMBIE := by
  decide +kernel

/-- Mapping a file moves the descriptor's offset by the bytes read: a one-page mapping of
descriptor `3` of `execKernel` leaves it at `4096`. -/
theorem doMmap_moves_file_offset :
    ∃ k', doMmap 0 4096 3 MAP_PRIVATE 3 0 (some 0) 0 execKernel = .ok 0x60000000 k' ∧
      (execKernel.ftable 0).off = 0 ∧ (k'.ftable 0).off = 4096 := by
  obtain ⟨hmap, hoff, -⟩ := doMmapRuns_evaluate
  exact ⟨_, Result.eq_ok_of_returned execKernel hmap, rfl, hoff⟩

set_option maxRecDepth 8000 in
/-- `MAP_GROWSUP` lengthens the entry in slot `0`, which is not the one it creates: after
one page at `0x60000000`, a growing page goes to `0x60001000`, and the first mapping's
length becomes two pages. -/
theorem doMmap_growsup_lengthens_other_entry :
    doMmap 0 4096 3 (MAP_ANONYMOUS ||| MAP_PRIVATE) (-1) 0 none 0 execKernel =
        .ok 0x60000000 oneMapKernel ∧
      (oneMapKernel.procs 0).mmaps 0 =
        ⟨0x60000000, MAP_ANONYMOUS ||| MAP_PRIVATE, 4096, 3, -1, none, 0, 0⟩ ∧
      ∃ k', doMmap 0 4096 3 (MAP_ANONYMOUS ||| MAP_PRIVATE ||| MAP_GROWSUP) (-1) 0 none 0
          oneMapKernel = .ok 0x60001000 k' ∧
        (k'.procs 0).mmaps 0 =
          ⟨0x60000000, MAP_ANONYMOUS ||| MAP_PRIVATE, 8192, 3, -1, none, 0, 0⟩ ∧
        ((k'.procs 0).mmaps 1).va = 0x60001000 :=
  ⟨doMmap_oneMapKernel, by decide, _,
    Result.eq_ok_of_returned oneMapKernel (by decide), by decide,
    by decide⟩

/-- With two one-page mappings side by side, the first gap in sorted order, after the page
at `0x60000000`, is empty, and the growth search calls `handle_page_fault` there: the
caller is killed and exits inside `mmap`, a zombie. -/
theorem doMmap_growsup_exits_caller :
    doMmap 0 4096 3 (MAP_ANONYMOUS ||| MAP_PRIVATE) (-1) 0 none 0 execKernel =
        .ok 0x60000000 oneMapKernel ∧
      doMmap 0 4096 3 (MAP_ANONYMOUS ||| MAP_PRIVATE) (-1) 0 none 0 oneMapKernel =
        .ok 0x60001000 twoMapKernel ∧
      ∃ k', doMmap 0 4096 3 (MAP_ANONYMOUS ||| MAP_PRIVATE ||| MAP_GROWSUP) (-1) 0 none 0
          twoMapKernel = .exit k' ∧ (k'.procs 0).killed = true ∧
          (k'.procs 0).state = .ZOMBIE := by
  obtain ⟨-, -, hexit, hkilled, hzombie⟩ := doMmapRuns_evaluate
  exact ⟨doMmap_oneMapKernel, doMmap_twoMapKernel, _,
    Result.eq_exit_of_exited twoMapKernel hexit, hkilled, hzombie⟩

/-- `prot` is recorded and never read: a mapping with `PROT_READ` alone gets a page whose
entry `0x00500007` has `PTE_W` set. -/
theorem doMmap_read_only_page_writable :
    ∃ k', doMmap 0 4096 PROT_READ (MAP_ANONYMOUS ||| MAP_PRIVATE) (-1) 0 none 0 execKernel =
        .ok 0x60000000 k' ∧
      ((k'.procs 0).mmaps 0).prot = PROT_READ ∧
      pteOf k' (k'.procs 0).pgdir 0x60000000 = some 0x00500007 ∧ 0x00500007 &&& PTE_W ≠ 0 :=
  ⟨_, Result.eq_ok_of_returned execKernel (by decide), by decide,
    by decide, by decide⟩

end Xv6
