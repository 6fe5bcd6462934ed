import Xv6.Kernel.File

/-!
# Address spaces (vm.c)

`setupkvm` builds a page directory holding the kernel's mappings of `kmap`; `copyuvm`
copies the user part `[0, sz)` of one address space into a fresh one, page by page, each
page's words into a fresh frame; `allocuvm` grows the user part with fresh zeroed pages;
`deallocuvm` and `freevm` give user pages and page tables back to the allocator.

The loops over address ranges stop on a comparison of `uint` addresses, so they are
written with a bound on their passes: each pass moves the address up by at least a page,
which the bounds below allow for.

Every function of the file keeps each property that the code below the process table keeps
(`BelowProcs`): the free list's invariant `FreeOk` among them, and the process table
itself.
-/

namespace Xv6

open Prog

/-- An entry of `kmap`: a kernel mapping of `[phys_start, phys_end)` at `virt`. -/
structure Kmap where
  virt : UInt32
  physStart : UInt32
  physEnd : UInt32
  perm : UInt32

/-- `kmap`, which depends on the link-time address `data`. -/
def kmap (k : Kernel) : List Kmap :=
  [⟨KERNBASE, 0, EXTMEM, PTE_W⟩,
   ⟨KERNLINK, V2P KERNLINK, V2P k.kdata, 0⟩,
   ⟨k.kdata, V2P k.kdata, PHYSTOP, PTE_W⟩,
   ⟨DEVSPACE, DEVSPACE, 0, PTE_W⟩]

/-- The loop of `deallocuvm(pgdir, oldsz, newsz)` from `a`: a missing page table skips to
the next directory entry, a present page is freed (a present entry for physical page `0`
is the panic `"kfree"`) and its entry zeroed. -/
def deallocLoop (pgdir oldsz : UInt32) : ℕ → UInt32 → Prog Kernel Unit
  | 0, _ => pure ()
  | n + 1, a =>
    if a < oldsz then do
      match ← walkpgdir pgdir a false with
      | none => deallocLoop pgdir oldsz n (PGADDR (PDX a + 1) 0 0 - PGSIZE + PGSIZE)
      | some pte => do
        let k ← get
        let w := k.mem pte.1 pte.2
        if w &&& PTE_P ≠ 0 then
          if PTE_ADDR w = 0 then Prog.panic "kfree"
          else do
            kfree (P2V (PTE_ADDR w))
            Prog.modify fun k => k.writeWord pte.1 pte.2 0
            deallocLoop pgdir oldsz n (a + PGSIZE)
        else deallocLoop pgdir oldsz n (a + PGSIZE)
    else pure ()

/-- `deallocuvm(pgdir, oldsz, newsz)`. -/
def deallocuvm (pgdir oldsz newsz : UInt32) : Prog Kernel UInt32 :=
  if newsz ≥ oldsz then pure oldsz
  else do
    deallocLoop pgdir oldsz (oldsz.toNat / 4096 + 1) (PGROUNDUP newsz)
    pure newsz

/-- The loop of `allocuvm(pgdir, oldsz, newsz)` from `a`: `false` is a `return 0` after a
failed `kalloc` or `mappages`, which first gives back what the loop had mapped. -/
def allocLoop (pgdir oldsz newsz : UInt32) : ℕ → UInt32 → Prog Kernel Bool
  | 0, _ => pure true
  | n + 1, a =>
    if a < newsz then do
      let mem ← kalloc
      if mem = 0 then do
        let _ ← deallocuvm pgdir newsz oldsz
        pure false
      else do
        Prog.modify fun k => k.fillPage mem 0
        let r ← mappages pgdir a PGSIZE (V2P mem) (PTE_W ||| PTE_U)
        if r < 0 then do
          let _ ← deallocuvm pgdir newsz oldsz
          kfree mem
          pure false
        else allocLoop pgdir oldsz newsz n (a + PGSIZE)
    else pure true

/-- `allocuvm(pgdir, oldsz, newsz)`: the new size, or `0`.  Below `KERNBASE` the loop
cannot wrap around, so `newsz / PGSIZE + 1` passes are enough. -/
def allocuvm (pgdir oldsz newsz : UInt32) : Prog Kernel UInt32 :=
  if newsz ≥ KERNBASE then pure 0
  else if newsz < oldsz then pure oldsz
  else do
    if ← allocLoop pgdir oldsz newsz (newsz.toNat / 4096 + 1) (PGROUNDUP oldsz) then pure newsz
    else pure 0

/-- `freevm(pgdir)`: the user pages, then every present page table, then the directory. -/
def freevm (pgdir : UInt32) : Prog Kernel Unit :=
  if pgdir = 0 then Prog.panic "freevm: no pgdir"
  else do
    let _ ← deallocuvm pgdir KERNBASE 0
    forM (List.range NPDENTRIES) fun i => do
      let k ← get
      let pde := k.mem pgdir (UInt32.ofNat i)
      if pde &&& PTE_P ≠ 0 then kfree (P2V (PTE_ADDR pde)) else pure ()
    kfree pgdir

/-- `setupkvm()`: a zeroed directory with the mappings of `kmap`, or `0`. -/
def setupkvm : Prog Kernel UInt32 := do
  let pgdir ← kalloc
  if pgdir = 0 then pure 0
  else do
    Prog.modify fun k => k.fillPage pgdir 0
    if P2V PHYSTOP > DEVSPACE then Prog.panic "PHYSTOP too high"
    else do
      let k ← get
      let failed ← (kmap k).findSomeM? fun m => do
        let r ← mappages pgdir m.virt (m.physEnd - m.physStart) m.physStart m.perm
        if r < 0 then pure (some ()) else pure none
      match failed with
      | some () => do
        freevm pgdir
        pure 0
      | none => pure pgdir

/-- The loop of `copyuvm(pgdir, sz)` into `d` from address `i`: `false` is the
`goto bad` of a failed `kalloc` or `mappages`.  A page that must be there and is not is a
panic. -/
def copyLoop (pgdir d sz : UInt32) : ℕ → UInt32 → Prog Kernel Bool
  | 0, _ => pure true
  | n + 1, i =>
    if i < sz then do
      match ← walkpgdir pgdir i false with
      | none => Prog.panic "copyuvm: pte should exist"
      | some pte => do
        let k ← get
        let w := k.mem pte.1 pte.2
        if w &&& PTE_P = 0 then Prog.panic "copyuvm: page not present"
        else do
          let mem ← kalloc
          if mem = 0 then pure false
          else do
            Prog.modify fun k => k.copyPage mem (P2V (PTE_ADDR w))
            let r ← mappages d i PGSIZE (V2P mem) (PTE_FLAGS w)
            if r < 0 then do
              kfree mem
              pure false
            else copyLoop pgdir d sz n (i + PGSIZE)
    else pure true

/-- `copyuvm(pgdir, sz)`: the new directory, or `0` after freeing what was built. -/
def copyuvm (pgdir sz : UInt32) : Prog Kernel UInt32 := do
  let d ← setupkvm
  if d = 0 then pure 0
  else do
    if ← copyLoop pgdir d sz (sz.toNat / 4096 + 1) 0 then pure d
    else do
      freevm d
      pure 0

/-! ## They never exit -/

lemma noExit_deallocLoop (pgdir oldsz : UInt32) (n : ℕ) (a : UInt32) :
    NoExit (deallocLoop pgdir oldsz n a) := by
  induction n generalizing a with
  | zero => exact noExit_pure _
  | succ n ih =>
    refine noExit_ite ?_ (noExit_pure _)
    refine noExit_bind (noExit_walkpgdir _ _ _) fun r => ?_
    rcases r with _ | pte
    · exact ih _
    refine noExit_bind (noExit_of_read fun k => ⟨k, rfl⟩) fun k => noExit_ite ?_ (ih _)
    refine noExit_ite (noExit_panic _) (noExit_bind (noExit_kfree _) fun _ => ?_)
    exact noExit_bind (noExit_modify _) fun _ => ih _

lemma noExit_deallocuvm (pgdir oldsz newsz : UInt32) : NoExit (deallocuvm pgdir oldsz newsz) :=
  noExit_ite (noExit_pure _) (noExit_bind (noExit_deallocLoop _ _ _ _) fun _ => noExit_pure _)

lemma noExit_freevm (pgdir : UInt32) : NoExit (freevm pgdir) := by
  refine noExit_ite (noExit_panic _) ?_
  refine noExit_bind (noExit_deallocuvm _ _ _) fun _ => noExit_bind ?_ fun _ => noExit_kfree _
  exact noExit_forM (fun _ => noExit_bind (noExit_of_read fun k => ⟨k, rfl⟩) fun _ =>
    noExit_ite (noExit_kfree _) (noExit_pure _)) _

/-! ## What they keep -/

namespace BelowProcs

variable {P : Kernel → Prop} (hP : BelowProcs P)
include hP

lemma preserves_deallocLoop (pgdir oldsz : UInt32) (n : ℕ) (a : UInt32) :
    Preserves P (deallocLoop pgdir oldsz n a) := by
  induction n generalizing a with
  | zero => exact preserves_pure _
  | succ n ih =>
    refine preserves_ite ?_ (preserves_pure _)
    refine preserves_bind (hP.preserves_walkpgdir _ _ _) fun r => ?_
    rcases r with _ | pte
    · exact ih _
    refine preserves_get_bind fun k _ => preserves_ite ?_ (ih _)
    refine preserves_ite (preserves_panic _) (preserves_bind (hP.kfree _) fun _ => ?_)
    exact preserves_bind (preserves_modify fun k hk => hP.writeWord _ _ _ _ hk) fun _ => ih _

lemma preserves_deallocuvm (pgdir oldsz newsz : UInt32) :
    Preserves P (deallocuvm pgdir oldsz newsz) :=
  preserves_ite (preserves_pure _)
    (preserves_bind (hP.preserves_deallocLoop _ _ _ _) fun _ => preserves_pure _)

lemma preserves_allocLoop (pgdir oldsz newsz : UInt32) (n : ℕ) (a : UInt32) :
    Preserves P (allocLoop pgdir oldsz newsz n a) := by
  induction n generalizing a with
  | zero => exact preserves_pure _
  | succ n ih =>
    refine preserves_ite ?_ (preserves_pure _)
    refine preserves_bind hP.kalloc fun mem => preserves_ite ?_ ?_
    · exact preserves_bind (hP.preserves_deallocuvm _ _ _) fun _ => preserves_pure _
    refine preserves_bind (preserves_modify fun k hk => hP.fillPage _ _ _ hk) fun _ => ?_
    refine preserves_bind (hP.preserves_mappages _ _ _ _ _) fun r => preserves_ite ?_ (ih _)
    refine preserves_bind (hP.preserves_deallocuvm _ _ _) fun _ => ?_
    exact preserves_bind (hP.kfree _) fun _ => preserves_pure _

lemma preserves_allocuvm (pgdir oldsz newsz : UInt32) :
    Preserves P (allocuvm pgdir oldsz newsz) := by
  refine preserves_ite (preserves_pure _) (preserves_ite (preserves_pure _) ?_)
  exact preserves_bind (hP.preserves_allocLoop _ _ _ _ _) fun _ =>
    preserves_ite (preserves_pure _) (preserves_pure _)

/-- `allocuvm` returns `0`, the old size, or a new size below `KERNBASE`. -/
lemma returns_allocuvm (pgdir oldsz newsz : UInt32) :
    Returns P (allocuvm pgdir oldsz newsz) fun r => r = 0 ∨ r = oldsz ∨ r < KERNBASE := by
  unfold allocuvm
  split
  · exact returns_pure (.inl rfl)
  rename_i hK
  split
  · exact returns_pure (.inr (.inl rfl))
  refine returns_bind (hP.preserves_allocLoop _ _ _ _ _) fun b => ?_
  exact returns_ite (returns_pure (.inr (.inr (UInt32.not_le.mp hK)))) (returns_pure (.inl rfl))

/-- `deallocuvm` returns at most the old size. -/
lemma returns_deallocuvm (pgdir oldsz newsz : UInt32) :
    Returns P (deallocuvm pgdir oldsz newsz) fun r => r ≤ oldsz := by
  unfold deallocuvm
  split
  · exact returns_pure (UInt32.le_refl _)
  rename_i h
  exact returns_bind (hP.preserves_deallocLoop _ _ _ _) fun _ =>
    returns_pure (UInt32.le_of_lt (UInt32.not_le.mp h))

lemma preserves_freevm (pgdir : UInt32) : Preserves P (freevm pgdir) := by
  refine preserves_ite (preserves_panic _) ?_
  refine preserves_bind (hP.preserves_deallocuvm _ _ _) fun _ => preserves_bind ?_ fun _ =>
    hP.kfree _
  exact preserves_forM (fun i => preserves_get_bind fun k _ =>
    preserves_ite (hP.kfree _) (preserves_pure _)) _

lemma preserves_setupkvm : Preserves P setupkvm := by
  refine preserves_bind hP.kalloc fun pgdir => preserves_ite (preserves_pure _) ?_
  refine preserves_bind (preserves_modify fun k hk => hP.fillPage _ _ _ hk) fun _ => ?_
  refine preserves_ite (preserves_panic _) (preserves_get_bind fun k _ => ?_)
  refine preserves_bind (preserves_findSomeM (fun m => ?_) _) fun r => ?_
  · refine preserves_bind (hP.preserves_mappages _ _ _ _ _) fun r => ?_
    exact preserves_ite (preserves_pure _) (preserves_pure _)
  · rcases r with _ | ⟨⟩
    · exact preserves_pure _
    · exact preserves_bind (hP.preserves_freevm _) fun _ => preserves_pure _

lemma preserves_copyLoop (pgdir d sz : UInt32) (n : ℕ) (i : UInt32) :
    Preserves P (copyLoop pgdir d sz n i) := by
  induction n generalizing i with
  | zero => exact preserves_pure _
  | succ n ih =>
    refine preserves_ite ?_ (preserves_pure _)
    refine preserves_bind (hP.preserves_walkpgdir _ _ _) fun r => ?_
    rcases r with _ | pte
    · exact preserves_panic _
    refine preserves_get_bind fun k _ => preserves_ite (preserves_panic _) ?_
    refine preserves_bind hP.kalloc fun mem => preserves_ite (preserves_pure _) ?_
    refine preserves_bind (preserves_modify fun k hk => hP.copyPage _ _ _ hk) fun _ => ?_
    refine preserves_bind (hP.preserves_mappages _ _ _ _ _) fun r => ?_
    exact preserves_ite (preserves_bind (hP.kfree _) fun _ => preserves_pure _) (ih _)

lemma preserves_copyuvm (pgdir sz : UInt32) : Preserves P (copyuvm pgdir sz) := by
  refine preserves_bind hP.preserves_setupkvm fun d => preserves_ite (preserves_pure _) ?_
  refine preserves_bind (hP.preserves_copyLoop _ _ _ _ _) fun b => ?_
  exact preserves_ite (preserves_pure _)
    (preserves_bind (hP.preserves_freevm _) fun _ => preserves_pure _)

end BelowProcs

end Xv6
