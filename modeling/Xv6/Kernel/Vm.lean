import Xv6.Kernel.Mmu

/-!
# Physical pages and page tables (kalloc.c, vm.c)

`kalloc` and `kfree` keep the free list; `walkpgdir` finds, and on request creates, the
page-table entry of a virtual address; `mappages` fills entries and panics on one that is
already present; the MMU's check of an access reads the entries.  `kill` is here too, for
the fault path of Kernel/Trap.

Besides one equation for each way these functions can run, the file proves the invariant
of the free list (every page on it passed `kfree`'s checks, `FreeOk`) for each of them, and
sets up the classes of properties (`MemStable`, `BelowProcs`, `MinorStable`, `Stable`) by
which the later proofs say what a function can change.
-/

namespace Xv6

open Prog

/-! ## The allocator -/

/-- `kalloc()`: the head of the free list, or `0` when the list is empty. -/
def kalloc : Prog Kernel UInt32 := fun k =>
  match k.freelist with
  | [] => .ok 0 k
  | r :: rest => .ok r { k with freelist := rest }

/-- `kfree(v)`: refuse a page that is misaligned or outside `[end, PHYSTOP)`, fill it
with junk and push it on the free list. -/
def kfree (v : UInt32) : Prog Kernel Unit := fun k =>
  if v % PGSIZE ≠ 0 ∨ v < k.kend ∨ V2P v ≥ PHYSTOP then .panic "kfree"
  else .ok () { k.fillPage v 0x01010101 with freelist := v :: k.freelist }

@[simp] lemma kalloc_nil {k : Kernel} (h : k.freelist = []) : kalloc k = .ok 0 k := by
  simp [kalloc, h]

@[simp] lemma kalloc_cons {k : Kernel} {r : UInt32} {rest : List UInt32}
    (h : k.freelist = r :: rest) : kalloc k = .ok r { k with freelist := rest } := by
  simp [kalloc, h]

/-- Every page on the free list passed `kfree`'s checks: it is page-aligned and lies in
`[end, PHYSTOP)`. -/
def FreeOk (k : Kernel) : Prop :=
  ∀ v ∈ k.freelist, v.toNat % 4096 = 0 ∧ k.kend ≤ v ∧ V2P v < PHYSTOP

instance (k : Kernel) : Decidable (FreeOk k) :=
  List.decidableBAll _ k.freelist

lemma preserves_kalloc : Preserves FreeOk kalloc := by
  intro k hk
  refine ⟨fun r k' h => ?_, fun k' h => ?_⟩
  · unfold kalloc at h
    split at h
    · cases h; exact hk
    · cases h
      intro v hv
      exact hk v (by simp [*])
  · unfold kalloc at h
    split at h <;> cases h

lemma preserves_kfree (v : UInt32) : Preserves FreeOk (kfree v) := by
  intro k hk
  refine ⟨fun _ k' h => ?_, fun k' h => ?_⟩
  · unfold kfree at h
    split at h
    · cases h
    · cases h
      rename_i hv
      intro w hw
      simp only [List.mem_cons] at hw
      rcases hw with rfl | hw
      · refine ⟨?_, ?_, ?_⟩
        · have : ¬(w % PGSIZE ≠ 0) := fun h' => hv (Or.inl h')
          have h0 : w % PGSIZE = 0 := by simpa using this
          rw [← UInt32.toNat_inj] at h0
          simpa [PGSIZE] using h0
        · simpa using fun h' => hv (Or.inr (Or.inl h'))
        · simpa using fun h' => hv (Or.inr (Or.inr h'))
      · exact hk w hw
  · unfold kfree at h
    split at h <;> cases h

/-- The allocator halts only by a panic. -/
lemma noExit_kalloc : NoExit kalloc := by
  intro k _
  refine ⟨fun _ _ _ => trivial, fun k' h => ?_⟩
  unfold kalloc at h
  split at h <;> cases h

lemma noExit_kfree (v : UInt32) : NoExit (kfree v) := by
  intro k _
  refine ⟨fun _ _ _ => trivial, fun k' h => ?_⟩
  unfold kfree at h
  split at h <;> cases h

/-! ## Page tables -/

/-- The entry address `walkpgdir(pgdir, va, 0)` returns: the page of the page table and
the index in it, if the directory entry is present. -/
def walk (k : Kernel) (pgdir va : UInt32) : Option (UInt32 × UInt32) :=
  let pde := k.mem pgdir (PDX va)
  if pde &&& PTE_P ≠ 0 then some (P2V (PTE_ADDR pde), PTX va) else none

/-- `walkpgdir(pgdir, va, alloc)`: the address of the entry for `va`, `none` for a null
pointer; with `alloc`, a missing page table is taken from `kalloc` and zeroed. -/
def walkpgdir (pgdir va : UInt32) (alloc : Bool) : Prog Kernel (Option (UInt32 × UInt32)) := do
  let k ← get
  let pde := k.mem pgdir (PDX va)
  if pde &&& PTE_P ≠ 0 then
    pure (some (P2V (PTE_ADDR pde), PTX va))
  else if !alloc then
    pure none
  else do
    let pgtab ← kalloc
    if pgtab = 0 then
      pure none
    else do
      Prog.modify fun k =>
        (k.fillPage pgtab 0).writeWord pgdir (PDX va) (V2P pgtab ||| PTE_P ||| PTE_W ||| PTE_U)
      pure (some (pgtab, PTX va))

/-- The entry of `va` in `pgdir`, if its page table is present. -/
def pteOf (k : Kernel) (pgdir va : UInt32) : Option UInt32 :=
  (walk k pgdir va).map fun p => k.mem p.1 p.2

/-- `va` is mapped in `pgdir`: its page table and its entry are present. -/
def mapped (k : Kernel) (pgdir va : UInt32) : Bool :=
  match pteOf k pgdir va with
  | some pte => pte &&& PTE_P != 0
  | none => false

/-- Without `alloc`, `walkpgdir` only reads. -/
@[simp] lemma walkpgdir_false (pgdir va : UInt32) (k : Kernel) :
    walkpgdir pgdir va false k = .ok (walk k pgdir va) k := by
  by_cases h : k.mem pgdir (PDX va) &&& PTE_P = 0 <;>
    simp [walkpgdir, walk, h]

/-- With the page table present, `walkpgdir` only reads, whatever `alloc` says. -/
lemma walkpgdir_of_walk {pgdir va : UInt32} {k : Kernel} {p : UInt32 × UInt32}
    (h : walk k pgdir va = some p) (alloc : Bool) : walkpgdir pgdir va alloc k = .ok (some p) k := by
  have hp : k.mem pgdir (PDX va) &&& PTE_P ≠ 0 := by
    intro h0
    simp [walk, h0] at h
  have hwalk : walk k pgdir va = some (P2V (PTE_ADDR (k.mem pgdir (PDX va))), PTX va) := by
    simp [walk, hp]
  rw [hwalk, Option.some.injEq] at h
  subst h
  simp [walkpgdir, hp]

/-! ## `mappages` -/

/-- The loop of `mappages` from page `a`, at physical address `pa`, until `a == last`;
`n` bounds the passes left. -/
def mapLoop (pgdir last perm : UInt32) : ℕ → UInt32 → UInt32 → Prog Kernel Int32
  | 0, _, _ => pure 0
  | n + 1, a, pa => do
    match ← walkpgdir pgdir a true with
    | none => pure (-1)
    | some pte => do
      let k ← get
      if k.mem pte.1 pte.2 &&& PTE_P ≠ 0 then
        Prog.panic "remap"
      else do
        Prog.modify fun k => k.writeWord pte.1 pte.2 (pa ||| perm ||| PTE_P)
        if a = last then pure 0
        else mapLoop pgdir last perm n (a + PGSIZE) (pa + PGSIZE)

/-- `mappages(pgdir, va, size, pa, perm)`.  The loop stops when `a == last`; both are
page-aligned, so that is `(last - a) / PGSIZE` pages after the first, the bound given to
`mapLoop`. -/
def mappages (pgdir va size pa perm : UInt32) : Prog Kernel Int32 :=
  let a := PGROUNDDOWN va
  let last := PGROUNDDOWN (va + size - 1)
  mapLoop pgdir last perm ((last - a).toNat / 4096 + 1) a pa

/-- `mappages` of one page at an aligned address is one pass of its loop. -/
lemma mappages_page {pgdir va pa perm : UInt32} (hva : va.toNat % 4096 = 0) :
    mappages pgdir va PGSIZE pa perm = mapLoop pgdir va perm 1 va pa := by
  have hdown : PGROUNDDOWN va = va := by
    apply UInt32.toNat_inj.mp
    rw [toNat_PGROUNDDOWN]
    omega
  have hlast : PGROUNDDOWN (va + PGSIZE - 1) = va := by
    apply UInt32.toNat_inj.mp
    have hlt := va.toNat_lt
    have hsum : (va + PGSIZE - 1).toNat = va.toNat + 4095 := by
      simp only [PGSIZE, UInt32.toNat_sub, UInt32.toNat_add, UInt32.toNat_ofNat]
      omega
    rw [toNat_PGROUNDDOWN, hsum]
    omega
  simp [mappages, hdown, hlast]

/-! ## What the page-table code keeps -/

/-- A property that stores into page memory keep. -/
structure MemStable (P : Kernel → Prop) : Prop where
  writeWord : ∀ k pg i v, P k → P (k.writeWord pg i v)
  fillPage : ∀ k pg v, P k → P (k.fillPage pg v)
  copyPage : ∀ k dst src, P k → P (k.copyPage dst src)

/-- A byte copy into kernel memory is a run of word stores. -/
lemma MemStable.storeBytes {P : Kernel → Prop} (hP : MemStable P) (dst : UInt32) (n : ℕ)
    (src : ℕ → UInt8) {k : Kernel} (hk : P k) : P (k.storeBytes dst n src) := by
  unfold Kernel.storeBytes
  induction List.range n generalizing k with
  | nil => exact hk
  | cons j l ih =>
    rw [List.foldl_cons]
    exact ih (hP.writeWord _ _ _ _ hk)

section Keep

variable {P : Kernel → Prop} (hP : MemStable P) (hkalloc : Preserves P kalloc)
include hP hkalloc

lemma preserves_walkpgdir (pgdir va : UInt32) (alloc : Bool) :
    Preserves P (walkpgdir pgdir va alloc) := by
  refine preserves_get_bind fun k _ => ?_
  refine preserves_ite (preserves_pure _) (preserves_ite (preserves_pure _) ?_)
  refine preserves_bind hkalloc fun pgtab => preserves_ite (preserves_pure _) ?_
  refine preserves_bind (preserves_modify fun k hk => ?_) fun _ => preserves_pure _
  exact hP.writeWord _ _ _ _ (hP.fillPage _ _ _ hk)

lemma preserves_mapLoop (pgdir last perm : UInt32) (n : ℕ) (a pa : UInt32) :
    Preserves P (mapLoop pgdir last perm n a pa) := by
  induction n generalizing a pa with
  | zero => exact preserves_pure 0
  | succ n ih =>
    refine preserves_bind (preserves_walkpgdir hP hkalloc pgdir a true) fun r => ?_
    rcases r with _ | pte
    · exact preserves_pure _
    refine preserves_get_bind fun k _ => preserves_ite (preserves_panic _) ?_
    refine preserves_bind (preserves_modify fun k hk => hP.writeWord _ _ _ _ hk) fun _ => ?_
    exact preserves_ite (preserves_pure _) (ih _ _)

lemma preserves_mappages (pgdir va size pa perm : UInt32) :
    Preserves P (mappages pgdir va size pa perm) :=
  preserves_mapLoop hP hkalloc _ _ _ _ _ _

end Keep

lemma noExit_walkpgdir (pgdir va : UInt32) (alloc : Bool) : NoExit (walkpgdir pgdir va alloc) := by
  refine noExit_bind (noExit_of_read fun k => ⟨k, rfl⟩) fun k => ?_
  refine noExit_ite (noExit_pure _) (noExit_ite (noExit_pure _) ?_)
  refine noExit_bind noExit_kalloc fun pgtab => noExit_ite (noExit_pure _) ?_
  exact noExit_bind (noExit_modify _) fun _ => noExit_pure _

lemma memStable_freeOk : MemStable FreeOk :=
  ⟨fun _ _ _ _ hk => hk, fun _ _ _ hk => hk, fun _ _ _ hk => hk⟩

lemma memStable_tasks (v : (Fin NPROC → Proc) × Fin NPROC) :
    MemStable fun k => k.tasks = v :=
  ⟨fun k _ _ _ hk => (k.tasks_writeWord _ _ _).trans hk,
    fun k _ _ hk => (k.tasks_fillPage _ _).trans hk,
    fun k _ _ hk => (k.tasks_copyPage _ _).trans hk⟩

/-- The allocator never touches the process table. -/
lemma keeps_kalloc_tasks : Keeps Kernel.tasks kalloc := by
  intro v k hk
  refine ⟨fun r k' h => ?_, fun k' h => ?_⟩
  · unfold kalloc at h
    split at h <;> cases h <;> exact hk
  · unfold kalloc at h
    split at h <;> cases h

lemma keeps_kfree_tasks (v : UInt32) : Keeps Kernel.tasks (kfree v) := by
  intro w k hk
  refine ⟨fun _ k' h => ?_, fun k' h => ?_⟩
  · unfold kfree at h
    split at h <;> cases h
    exact hk
  · unfold kfree at h
    split at h <;> cases h

/-- A property that the code below the process table keeps: stores into page memory, the
allocator, the file table and the file system below it. -/
structure BelowProcs (P : Kernel → Prop) : Prop extends MemStable P where
  kalloc : Preserves P kalloc
  kfree : ∀ v, Preserves P (kfree v)
  setFile : ∀ k f x, P k → P (k.setFile f x)
  setFs : ∀ k (s : Fs), P k → P { k with fs := s }

/-- A property that, besides, every minor change to a process keeps (`Proc.Minor`) and a new
`nextpid`.  A switch of `cur`, which only the scheduler makes, is asked for where it
happens. -/
structure MinorStable (P : Kernel → Prop) : Prop extends BelowProcs P where
  minor : ∀ k p q, (k.procs p).Minor q → P k → P (k.setProc p q)
  nextpid : ∀ k n, P k → P { k with nextpid := n }

/-- A property that, besides, every change to a process other than to its mapping table and
its size keeps. -/
structure Stable (P : Kernel → Prop) : Prop extends MinorStable P where
  setProc : ∀ k p q, q.mmaps = (k.procs p).mmaps → q.sz = (k.procs p).sz → P k →
    P (k.setProc p q)

/-- A property that, besides, every change to a process that keeps its pid, its parent, its
state and its size keeps: what the mapping code does to a process. -/
structure TaskStable (P : Kernel → Prop) : Prop extends MinorStable P where
  task : ∀ k p q, q.pid = (k.procs p).pid → q.parent = (k.procs p).parent →
    q.state = (k.procs p).state → q.sz = (k.procs p).sz → P k → P (k.setProc p q)

lemma belowProcs_tasks (v : (Fin NPROC → Proc) × Fin NPROC) :
    BelowProcs fun k => k.tasks = v :=
  { memStable_tasks v with
    kalloc := keeps_kalloc_tasks v
    kfree := fun w => keeps_kfree_tasks w v
    setFile := fun k _ _ hk => (k.tasks_setFile _ _).trans hk
    setFs := fun _ _ hk => hk }

lemma BelowProcs.preserves_walkpgdir {P : Kernel → Prop} (hP : BelowProcs P)
    (pgdir va : UInt32) (alloc : Bool) : Preserves P (walkpgdir pgdir va alloc) :=
  Xv6.preserves_walkpgdir hP.toMemStable hP.kalloc pgdir va alloc

lemma BelowProcs.preserves_mappages {P : Kernel → Prop} (hP : BelowProcs P)
    (pgdir va size pa perm : UInt32) : Preserves P (mappages pgdir va size pa perm) :=
  Xv6.preserves_mappages hP.toMemStable hP.kalloc pgdir va size pa perm

/-! ## `kill` -/

/-- `kill(pid)`: mark the first process with that pid as killed, waking it if it
sleeps; `-1` if there is none. -/
def kill (pid : Int32) : Prog Kernel Int32 := fun k =>
  match Slots.first k.procs (fun p => p.pid == pid) with
  | some p =>
    let q := k.procs p
    .ok 0 (k.setProc p { q with
      killed := true
      state := if q.state = .SLEEPING then .RUNNABLE else q.state })
  | none => .ok (-1) k

/-- `kill` returns `-1` only where it changed nothing. -/
lemma kill_neg {pid r : Int32} {k k' : Kernel} (h : kill pid k = .ok r k') (hr : r < 0) :
    k' = k := by
  unfold kill at h
  split at h
  · cases h
    exact absurd hr (by decide)
  · cases h; rfl

/-! ## The MMU -/

/-- The MMU's check of an access at `va` in the current address space: the directory
entry and the table entry both carry the bits `perm`. -/
def mmuAllows (k : Kernel) (va perm : UInt32) : Bool :=
  let pgdir := (k.procs k.cur).pgdir
  match walk k pgdir va with
  | some pte => k.mem pgdir (PDX va) &&& perm == perm && k.mem pte.1 pte.2 &&& perm == perm
  | none => false

/-- The word at `va` in the address space `pgdir`, where the page table has an entry for
it: the word a store through the MMU writes. -/
def wordAt (k : Kernel) (pgdir va : UInt32) : Option UInt32 :=
  (pteOf k pgdir va).map fun pte => k.mem (P2V (PTE_ADDR pte)) (va % PGSIZE / 4)

/-- The byte at `va` in the address space `pgdir`, where the page table has an entry for it. -/
def byteAt (k : Kernel) (pgdir va : UInt32) : Option UInt8 :=
  (pteOf k pgdir va).map fun pte => k.loadByte (P2V (PTE_ADDR pte) + va % PGSIZE)

/-! ## What changes to processes keep -/

lemma Stable.preserves_modifyProc {P : Kernel → Prop} (hP : Stable P) (p : Fin NPROC)
    {f : Proc → Proc} (hf : ∀ q, (f q).mmaps = q.mmaps ∧ (f q).sz = q.sz) :
    Preserves P (modifyProc p f) :=
  preserves_modify fun k hk => hP.setProc k p _ (hf _).1 (hf _).2 hk

/-- Waking a sleeper keeps it live. -/
lemma phase_wake (s : ProcState) :
    (if s = .SLEEPING then ProcState.RUNNABLE else s).phase = s.phase := by
  split
  · rename_i h
    rw [h]
    rfl
  · rfl

namespace MinorStable

variable {P : Kernel → Prop} (hP : MinorStable P)
include hP

lemma preserves_modifyProc (p : Fin NPROC) {f : Proc → Proc} (hf : ∀ q : Proc, q.Minor (f q)) :
    Preserves P (modifyProc p f) :=
  preserves_modify fun k hk => hP.minor k p _ (hf _) hk

lemma preserves_kill (pid : Int32) : Preserves P (kill pid) := by
  intro k hk
  refine ⟨fun r k' h => ?_, fun k' h => ?_⟩
  · unfold kill at h
    split at h
    · cases h
      exact hP.minor _ _ _ ⟨rfl, rfl, rfl, phase_wake _, rfl⟩ hk
    · cases h; exact hk
  · unfold kill at h
    split at h <;> cases h

end MinorStable

lemma TaskStable.preserves_modifyTask {P : Kernel → Prop} (hP : TaskStable P) (p : Fin NPROC)
    {f : Proc → Proc}
    (hf : ∀ q, (f q).pid = q.pid ∧ (f q).parent = q.parent ∧ (f q).state = q.state ∧
      (f q).sz = q.sz) :
    Preserves P (modifyProc p f) :=
  preserves_modify fun k hk => hP.task k p _ (hf _).1 (hf _).2.1 (hf _).2.2.1 (hf _).2.2.2 hk

end Xv6
