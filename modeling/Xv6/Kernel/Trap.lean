import Xv6.Proc.Exit

/-!
# Page faults (trap.c, proc.c)

A page fault enters `trap()` with `T_PGFLT`, which calls `handle_page_fault()`: it kills the
current process and calls `exit()`, which does not return.  Only where `kill` finds no
process with the caller's pid does it return; `trap()` then falls into its `default:` case,
which panics for a fault taken in the kernel, and otherwise marks the process killed so that
the check on the way back to user mode calls `exit()`.

The accesses that can fault are the process's own loads and stores, and the kernel's loads
and stores at user addresses: xv6 sets `CR0_WP`, so a store by the kernel needs a writable
page too.  The kernel code modelled here makes such accesses through null pointers only
(the `sorted[]` of `find_next_mmap`, the `mmap_entry` of `do_mmap` with no free slot, the
`pte` of `fork` with no page table): each is an access at a small user address, in the
page of the process's text, and a store there overwrites the process's code.

`FaultStable I E` is what a proof about code that may fault needs: `I` holds where the code
runs and is kept by the stores and by `kill`, and an `exit` from `I` leaves `E`.  The
triples at the end of the file carry `I` to every return of an access and `E` to every exit.
-/

namespace Xv6

open Prog

/-- `handle_page_fault()`: kill the current process and `exit()`. -/
def handlePageFault : Prog Kernel Unit := do
  let p ← myproc
  let q ← getProc p
  let r ← kill q.pid
  if r < 0 then pure ()
  else exitProc

/-- The `T_PGFLT` case of `trap()`: `handle_page_fault()`, and, should it return, the
`default:` case it falls into: a fault taken in the kernel panics, and a process that
faulted in user mode is marked killed and exits on its way back. -/
def pageFaultTrap (fromUser : Bool) : Prog Kernel Unit := do
  handlePageFault
  if fromUser then do
    let p ← myproc
    modifyProc p fun q => { q with killed := true }
    exitProc
  else Prog.panic "trap"

/-- The state after a store of the word `w` at `va` in the current address space, in the
page that its page table maps there.  Only the memory changes, so the other fields are the
old state's whatever the walk finds. -/
def Kernel.storeUser (k : Kernel) (va w : UInt32) : Kernel :=
  { k with
    mem := match pteOf k (k.procs k.cur).pgdir va with
      | some pte => (k.writeWord (P2V (PTE_ADDR pte)) (va % PGSIZE / 4) w).mem
      | none => k.mem }

/-- A store of the word `w` by the kernel at user address `va`: the page must be present and
writable, and otherwise the store faults in the kernel.  A store of the word that is there
already leaves the state as it is (`kernelStore_eq`), and the model does not rebuild it. -/
def kernelStore (va w : UInt32) : Prog Kernel Unit := do
  let k ← get
  if mmuAllows k va (PTE_P ||| PTE_W) then
    if wordAt k (k.procs k.cur).pgdir va = some w then pure ()
    else Prog.modify fun k => k.storeUser va w
  else pageFaultTrap false

/-- A load by the kernel of the word at user address `va`: the page must be present, and
otherwise the load faults in the kernel. -/
def kernelLoad (va : UInt32) : Prog Kernel UInt32 := do
  let k ← get
  if mmuAllows k va PTE_P then pure ((wordAt k (k.procs k.cur).pgdir va).getD 0)
  else do
    pageFaultTrap false
    -- not reached: a fault in the kernel does not come back
    pure 0

/-- A load or a store at `va` by the current process in user mode: the page must be
present and user-accessible, and writable for a store; otherwise the access faults. -/
def userAccess (va : UInt32) (write : Bool) : Prog Kernel Unit := do
  let k ← get
  if mmuAllows k va (PTE_P ||| PTE_U ||| if write then PTE_W else 0) then pure ()
  else pageFaultTrap true

/-- A store of the word `w` at `va` by the current process in user mode. -/
def userStore (va w : UInt32) : Prog Kernel Unit := do
  userAccess va true
  Prog.modify fun k => k.storeUser va w

lemma Kernel.storeUser_of_pteOf {k : Kernel} {va w pte : UInt32}
    (h : pteOf k (k.procs k.cur).pgdir va = some pte) :
    k.storeUser va w = k.writeWord (P2V (PTE_ADDR pte)) (va % PGSIZE / 4) w := by
  unfold Kernel.storeUser
  rw [h]
  rfl

lemma Kernel.storeUser_of_pteOf_none {k : Kernel} {va w : UInt32}
    (h : pteOf k (k.procs k.cur).pgdir va = none) : k.storeUser va w = k := by
  unfold Kernel.storeUser
  rw [h]

/-- A store of the word that is there already changes nothing. -/
lemma Kernel.storeUser_of_wordAt {k : Kernel} {va w : UInt32}
    (h : wordAt k (k.procs k.cur).pgdir va = some w) : k.storeUser va w = k := by
  cases hpte : pteOf k (k.procs k.cur).pgdir va with
  | none => simp [wordAt, hpte] at h
  | some pte =>
    simp only [wordAt, hpte, Option.map_some, Option.some.injEq] at h
    rw [Kernel.storeUser_of_pteOf hpte]
    simp only [Kernel.writeWord, ← h, Function.update_eq_self]

lemma MemStable.storeUser {P : Kernel → Prop} (hP : MemStable P) (va w : UInt32) {k : Kernel}
    (hk : P k) : P (k.storeUser va w) := by
  cases h : pteOf k (k.procs k.cur).pgdir va with
  | none => rwa [Kernel.storeUser_of_pteOf_none h]
  | some pte =>
    rw [Kernel.storeUser_of_pteOf h]
    exact hP.writeWord _ _ _ _ hk

/-! ## Stores that leave the page tables alone

A store at `va` writes one word of the page that `va` maps to.  Where that page is neither
the page directory nor the page table that map `va`, the walk of `va` reads what it read
before, so that a second store at `va` writes the same word of the same page. -/

/-- The page that a store at `va` writes is neither the page directory nor the page table
that map `va`. -/
def storeApart (k : Kernel) (va : UInt32) : Bool :=
  match walk k (k.procs k.cur).pgdir va with
  | some t =>
    P2V (PTE_ADDR (k.mem t.1 t.2)) != (k.procs k.cur).pgdir && P2V (PTE_ADDR (k.mem t.1 t.2)) != t.1
  | none => true

/-- The walk reads the directory page only. -/
lemma walk_congr {k k' : Kernel} {pgdir : UInt32} (va : UInt32) (h : k'.mem pgdir = k.mem pgdir) :
    walk k' pgdir va = walk k pgdir va := by
  simp only [walk, h]

lemma pteOf_of_walk {k : Kernel} {pgdir va : UInt32} {t : UInt32 × UInt32}
    (ht : walk k pgdir va = some t) : pteOf k pgdir va = some (k.mem t.1 t.2) := by
  simp [pteOf, ht]

section StoreUser

variable {k : Kernel} {va w : UInt32}

@[simp] lemma Kernel.storeUser_procs : (k.storeUser va w).procs = k.procs := rfl

@[simp] lemma Kernel.storeUser_cur : (k.storeUser va w).cur = k.cur := rfl

lemma Kernel.storeUser_of_walk_none (h : walk k (k.procs k.cur).pgdir va = none) :
    k.storeUser va w = k :=
  Kernel.storeUser_of_pteOf_none (by simp [pteOf, h])

/-- The two pages the walk of `va` reads are left as they were. -/
lemma mem_storeUser_of_storeApart (h : storeApart k va = true) {t : UInt32 × UInt32}
    (ht : walk k (k.procs k.cur).pgdir va = some t) :
    (k.storeUser va w).mem (k.procs k.cur).pgdir = k.mem (k.procs k.cur).pgdir ∧
      (k.storeUser va w).mem t.1 = k.mem t.1 := by
  rw [Kernel.storeUser_of_pteOf (pteOf_of_walk ht)]
  rw [storeApart, ht] at h
  obtain ⟨hdir, htab⟩ := Bool.and_eq_true_iff.mp h
  exact ⟨k.writeWord_mem_of_ne _ _ (Ne.symm (bne_iff_ne.mp hdir)),
    k.writeWord_mem_of_ne _ _ (Ne.symm (bne_iff_ne.mp htab))⟩

lemma walk_storeUser (h : storeApart k va = true) :
    walk (k.storeUser va w) (k.procs k.cur).pgdir va = walk k (k.procs k.cur).pgdir va := by
  cases ht : walk k (k.procs k.cur).pgdir va with
  | none => rw [Kernel.storeUser_of_walk_none ht, ht]
  | some t => rw [walk_congr va (mem_storeUser_of_storeApart h ht).1, ht]

lemma pteOf_storeUser (h : storeApart k va = true) :
    pteOf (k.storeUser va w) (k.procs k.cur).pgdir va = pteOf k (k.procs k.cur).pgdir va := by
  cases ht : walk k (k.procs k.cur).pgdir va with
  | none => rw [Kernel.storeUser_of_walk_none ht]
  | some t =>
    rw [pteOf_of_walk ((walk_storeUser h).trans ht), pteOf_of_walk ht,
      (mem_storeUser_of_storeApart h ht).2]

lemma mmuAllows_storeUser (h : storeApart k va = true) (perm : UInt32) :
    mmuAllows (k.storeUser va w) va perm = mmuAllows k va perm := by
  cases ht : walk k (k.procs k.cur).pgdir va with
  | none => rw [Kernel.storeUser_of_walk_none ht]
  | some t =>
    obtain ⟨hdir, htab⟩ : (k.storeUser va w).mem _ = _ ∧ (k.storeUser va w).mem _ = _ :=
      mem_storeUser_of_storeApart h ht
    simp only [mmuAllows, Kernel.storeUser_procs, Kernel.storeUser_cur, walk_storeUser h, ht,
      hdir, htab]

lemma storeApart_storeUser (h : storeApart k va = true) :
    storeApart (k.storeUser va w) va = true := by
  cases ht : walk k (k.procs k.cur).pgdir va with
  | none => rw [Kernel.storeUser_of_walk_none ht]; exact h
  | some t =>
    obtain ⟨-, htab⟩ : (k.storeUser va w).mem _ = _ ∧ (k.storeUser va w).mem _ = _ :=
      mem_storeUser_of_storeApart h ht
    have hk := h
    rw [storeApart, ht] at hk
    simp only [storeApart, Kernel.storeUser_procs, Kernel.storeUser_cur, walk_storeUser h, ht,
      htab]
    exact hk

/-- A second store of the same word at the same address changes nothing more. -/
lemma storeUser_storeUser (h : storeApart k va = true) :
    (k.storeUser va w).storeUser va w = k.storeUser va w := by
  cases ht : walk k (k.procs k.cur).pgdir va with
  | none => rw [Kernel.storeUser_of_walk_none ht, Kernel.storeUser_of_walk_none ht]
  | some t =>
    -- the second store finds the entry the first one found
    have hk : pteOf k (k.procs k.cur).pgdir va = some (k.mem t.1 t.2) := pteOf_of_walk ht
    have hk' : pteOf (k.storeUser va w) ((k.storeUser va w).procs (k.storeUser va w).cur).pgdir va =
        some (k.mem t.1 t.2) := by
      rw [Kernel.storeUser_procs, Kernel.storeUser_cur, pteOf_storeUser h, hk]
    rw [Kernel.storeUser_of_pteOf hk', Kernel.storeUser_of_pteOf hk, Kernel.writeWord_writeWord]

end StoreUser

/-! ## A fault does not come back -/

/-- `handle_page_fault` returns only when `kill` failed, in the state it started from;
otherwise it exits. -/
lemma handlePageFault_ok {k k' : Kernel} {u : Unit} (h : handlePageFault k = .ok u k') :
    k' = k := by
  unfold handlePageFault at h
  rw [bind_of_ok (myproc_apply k), bind_of_ok (getProc_apply _ _)] at h
  obtain ⟨r, k₁, hkill, h⟩ := Iff.mp bind_eq_ok h
  split at h
  · cases h
    exact kill_neg hkill ‹_›
  · exact absurd h (exitProc_ne_ok _ _ _)

/-- A page fault never returns to the code that took it. -/
lemma pageFaultTrap_ne_ok (fromUser : Bool) (k k' : Kernel) (u : Unit) :
    pageFaultTrap fromUser k ≠ .ok u k' := by
  intro h
  unfold pageFaultTrap at h
  obtain ⟨⟨⟩, k₁, -, h⟩ := Iff.mp bind_eq_ok h
  cases fromUser with
  | true =>
    rw [if_pos rfl, bind_of_ok (myproc_apply _)] at h
    obtain ⟨⟨⟩, k₂, -, h⟩ := Iff.mp bind_eq_ok h
    exact exitProc_ne_ok _ _ _ h
  | false =>
    rw [if_neg Bool.false_ne_true] at h
    cases h

lemma kernelStore_eq {va w : UInt32} {k : Kernel} :
    kernelStore va w k =
      if mmuAllows k va (PTE_P ||| PTE_W) then .ok () (k.storeUser va w)
      else pageFaultTrap false k := by
  unfold kernelStore
  rw [bind_of_ok (get_apply k), run_ite, run_ite]
  split
  · split
    · rename_i h
      rw [Kernel.storeUser_of_wordAt h]
      rfl
    · rfl
  · rfl

/-- A kernel store returns only where the MMU let it through, and then it wrote the word. -/
lemma kernelStore_ok {va w : UInt32} {k k' : Kernel} {u : Unit}
    (h : kernelStore va w k = .ok u k') :
    mmuAllows k va (PTE_P ||| PTE_W) = true ∧ k' = k.storeUser va w := by
  rw [kernelStore_eq] at h
  split at h
  · cases h
    exact ⟨‹_›, rfl⟩
  · exact absurd h (pageFaultTrap_ne_ok _ _ _ _)

/-- Stores of one word at one address whose page is apart from the page tables behave as
the first: once it went through, the others find the same page and write the same word. -/
lemma forM_kernelStore {ι : Type} {va w : UInt32} {k : Kernel} (h : storeApart k va = true) :
    ∀ {l : List ι}, l ≠ [] → forM l (fun _ => kernelStore va w) k = kernelStore va w k
  | [], hl => absurd rfl hl
  | [_], _ => by
    rw [List.forM_cons, List.forM_nil]
    rcases hs : kernelStore va w k with ⟨⟨⟩, k'⟩ | k' | msg
    · rw [bind_of_ok hs]
      rfl
    · exact bind_of_exit hs
    · exact bind_of_panic hs
  | _ :: j :: l, _ => by
    rw [List.forM_cons]
    rcases hs : kernelStore va w k with ⟨⟨⟩, k'⟩ | k' | msg
    · obtain ⟨hmmu, rfl⟩ := kernelStore_ok hs
      rw [bind_of_ok hs, forM_kernelStore (storeApart_storeUser h) (List.cons_ne_nil j l),
        kernelStore_eq, if_pos ((mmuAllows_storeUser h _).trans hmmu), storeUser_storeUser h]
    · exact bind_of_exit hs
    · exact bind_of_panic hs

/-- A kernel load returns only where the MMU let it through, with the word there, and
changes nothing. -/
lemma kernelLoad_ok {va v : UInt32} {k k' : Kernel} (h : kernelLoad va k = .ok v k') :
    k' = k ∧ v = (wordAt k (k.procs k.cur).pgdir va).getD 0 := by
  unfold kernelLoad at h
  rw [bind_of_ok (get_apply k), run_ite] at h
  split at h
  · cases h
    exact ⟨rfl, rfl⟩
  · obtain ⟨⟨⟩, k₁, hfault, -⟩ := Iff.mp bind_eq_ok h
    exact absurd hfault (pageFaultTrap_ne_ok _ _ _ _)

/-- An access that the MMU lets through returns and changes nothing; any other access
faults and never returns. -/
lemma userAccess_eq {va : UInt32} {write : Bool} {k : Kernel} :
    userAccess va write k =
      if mmuAllows k va (PTE_P ||| PTE_U ||| if write then PTE_W else 0) then .ok () k
      else pageFaultTrap true k := by
  unfold userAccess
  rw [bind_of_ok (get_apply k), run_ite]
  rfl

/-! ## What the fault path keeps -/

/-- What a proof about code that may fault needs: `I` holds where the code runs, and is kept
by every change of the memory, the files and the processes that keeps their phases (the
stores, `kill`, `killed`); `exit` from `I` leaves `E`, as does every exit of a part that
keeps `I`. -/
structure FaultStable (I E : Kernel → Prop) : Prop extends MinorStable I where
  out : ∀ k, I k → E k
  exitProc : Triple I exitProc (fun _ => I) E

/-- What every `do_munmap` and every change to a process but to its table and its size
keeps, the fault path keeps: the exit it may take is one of them. -/
lemma Stable.faultStable {P : Kernel → Prop} (hP : Stable P)
    (hunmap : ∀ addrInt length, Preserves P (doMunmap addrInt length)) : FaultStable P P :=
  ⟨hP.toMinorStable, fun _ h => h, hP.preserves_exitProc hunmap⟩

lemma faultStable_mmapInv : FaultStable MmapInv MmapInv :=
  (stable_mmapInv).faultStable preserves_doMunmap

namespace FaultStable

variable {I E : Kernel → Prop} (hF : FaultStable I E)
include hF

lemma triple_of_preserves {α : Type} {x : Prog Kernel α} (hx : Preserves I x) :
    Triple I x (fun _ => I) E :=
  hx.triple.mono (fun _ h => h) (fun _ _ h => h) hF.out

lemma triple_handlePageFault : Triple I handlePageFault (fun _ => I) E := by
  refine triple_bind_of_preserves (preserves_myproc _) hF.out fun p => ?_
  refine triple_bind_of_preserves (preserves_getProc _ p) hF.out fun q => ?_
  refine triple_bind_of_preserves (hF.preserves_kill _) hF.out fun r => ?_
  exact triple_ite (fun _ => triple_pure fun _ h => h) fun _ => hF.exitProc

lemma triple_pageFaultTrap (fromUser : Bool) :
    Triple I (pageFaultTrap fromUser) (fun _ => I) E := by
  refine triple_bind hF.triple_handlePageFault fun _ =>
    triple_ite (fun _ => ?_) fun _ => triple_panic _
  refine triple_bind_of_preserves (preserves_myproc _) hF.out fun p => ?_
  exact triple_bind_of_preserves (hF.preserves_modifyProc p fun _ => ⟨rfl, rfl, rfl, rfl, rfl⟩)
    hF.out fun _ => hF.exitProc

lemma triple_kernelStore (va w : UInt32) : Triple I (kernelStore va w) (fun _ => I) E := by
  refine triple_bind_of_preserves preserves_get hF.out fun k => triple_ite (fun _ => ?_) fun _ =>
    hF.triple_pageFaultTrap false
  exact triple_ite (fun _ => triple_pure fun _ h => h) fun _ =>
    triple_modify fun _ hs => hF.storeUser va w hs

lemma triple_kernelLoad (va : UInt32) : Triple I (kernelLoad va) (fun _ => I) E := by
  refine triple_bind_of_preserves preserves_get hF.out fun k =>
    triple_ite (fun _ => triple_pure fun _ h => h) fun _ => ?_
  exact triple_bind (hF.triple_pageFaultTrap false) fun _ => triple_pure fun _ h => h

lemma triple_userAccess (va : UInt32) (write : Bool) :
    Triple I (userAccess va write) (fun _ => I) E :=
  triple_bind_of_preserves preserves_get hF.out fun _ =>
    triple_ite (fun _ => triple_pure fun _ h => h) fun _ => hF.triple_pageFaultTrap true

lemma triple_userStore (va w : UInt32) : Triple I (userStore va w) (fun _ => I) E :=
  triple_bind (hF.triple_userAccess va true) fun _ =>
    triple_modify fun _ hs => hF.storeUser va w hs

end FaultStable

end Xv6
