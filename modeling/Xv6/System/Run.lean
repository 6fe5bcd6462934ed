import Xv6.Mmap.Syscall
import Xv6.Proc.Fork
import Xv6.Kernel.Grow

/-!
# Runs of the kernel (proc.c, sysproc.c, sysfile.c, trap.c)

The system is the kernel state together with what processes do to it: the calls `mmap`,
`munmap`, `fork`, `sbrk`, `exit`, `wait` and `kill`, loads and stores of user memory (which
fault where the page tables say no), and the scheduler handing the CPU from one process to
the next.  A run is any sequence of these, one at a time (`Prog.Reachable Call.run`); a call
that panics stops the machine and ends the run.

The process that calls is the one in `cur`, which only `yield` and the scheduler change.
Any call may come next in any state (a zombie that calls, a `wait` that would sleep and
returns), so there are more runs here than the kernel has, and an invariant of these runs
is one of the kernel's.

The main results are invariants of every run: `mmapInv_of_reachable`, the free list's
invariant and the alignment of every active entry of every process's mapping table; and
`sizeOk_of_reachable`, every process's size below `KERNBASE`, on which the checks of the
system-call arguments rest.
-/

namespace Xv6

open Prog

/-! ## The scheduler -/

/-- `yield()`: the running process becomes runnable and enters the scheduler. -/
def yield : Prog Kernel Unit := do
  let p ← myproc
  modifyProc p fun q => { q with state := .RUNNABLE }

/-- The scheduler's loop at slot `p`: a runnable process becomes `c->proc` and runs; any
other slot is passed over. -/
def schedule (p : Fin NPROC) : Prog Kernel Unit := do
  let k ← get
  if (k.procs p).state = .RUNNABLE then do
    Prog.modify fun k => { k with cur := p }
    modifyProc p fun q => { q with state := .RUNNING }
  else pure ()

namespace Stable

variable {P : Kernel → Prop} (hP : Stable P)
include hP

lemma preserves_yield : Preserves P yield :=
  preserves_bind (preserves_myproc P) fun _ => hP.preserves_modifyProc _ fun _ => ⟨rfl, rfl⟩

end Stable

/-- The scheduler's pass moves a runnable process to running, within its phase, and makes it
the current one. -/
lemma MinorStable.preserves_schedule {P : Kernel → Prop} (hP : MinorStable P)
    (hcur : ∀ k p, P k → P { k with cur := p }) (p : Fin NPROC) :
    Preserves P (schedule p) := by
  intro k hk
  have hrun : ∀ k', schedule p k = .ok () k' → P k' := by
    intro k' h
    unfold schedule at h
    rw [bind_of_ok (get_apply k), run_ite] at h
    split at h
    · rename_i hstate
      rw [bind_of_ok (modify_apply _ _), modifyProc_apply] at h
      cases h
      have hphase : (({ k with cur := p } : Kernel).procs p).state.phase = ProcState.RUNNING.phase := by
        show (k.procs p).state.phase = _
        rw [hstate]
        rfl
      exact hP.minor _ p _ ⟨rfl, rfl, rfl, hphase.symm, rfl⟩ (hcur _ _ hk)
    · cases h
      exact hk
  refine ⟨fun _ k' h => hrun k' h, fun k' h => ?_⟩
  unfold schedule at h
  rw [bind_of_ok (get_apply k), run_ite] at h
  split at h <;> cases h

/-! ## Growing the address space -/

/-- `growproc(n)`: the size moves by `n` bytes, an `int` added to a `uint` as C adds them;
`-1` where `allocuvm` fails, or where `deallocuvm` returns `0`. -/
def growproc (n : Int32) : Prog Kernel Int32 := do
  let curproc ← myproc
  let p ← getProc curproc
  let sz ← if n > 0 then allocuvm p.pgdir p.sz (p.sz + n.toUInt32)
    else if n < 0 then deallocuvm p.pgdir p.sz (p.sz + n.toUInt32)
    else pure p.sz
  if n ≠ 0 ∧ sz = 0 then pure (-1)
  else do
    modifyProc curproc fun q => { q with sz := sz }
    pure 0

/-- `sys_sbrk()`: the old size, or `-1`. -/
def sysSbrk (n : Int32) : Prog Kernel Int32 := do
  let p ← myproc
  let q ← getProc p
  let r ← growproc n
  if r < 0 then pure (-1) else pure q.sz.toInt32

/-! ### What the stored size can be

`growproc` stores what `allocuvm` or `deallocuvm` returned, or the old size.  The first
returns `0` (which is not stored), the old size, or a new size below `KERNBASE`; the second
at most the old size.  So a property `S` of sizes that every process's size has, that holds
below `KERNBASE` and is closed downwards, holds of every size stored. -/

section Size

variable {P : Kernel → Prop} (hP : MinorStable P) (S : UInt32 → Prop)
  (hS : ∀ k p, P k → S (k.procs p).sz) (hK : ∀ sz, sz < KERNBASE → S sz)
  (hle : ∀ a b, b ≤ a → S a → S b)
  (hsz : ∀ k p sz, S sz → P k → P (k.setProc p { k.procs p with sz := sz }))
include hP hS hK hle hsz

lemma MinorStable.preserves_growproc (n : Int32) : Preserves P (growproc n) := by
  refine preserves_bind (preserves_myproc P) fun curproc => ?_
  have hread : Returns P (getProc curproc) fun p => S p.sz := fun k _ _ hk h => by
    cases h
    exact hS k curproc hk
  refine preserves_bind_of (preserves_getProc P _) hread fun p hp => ?_
  -- the store of the new size is the join point of the three ways the size is computed
  extract_lets finish
  have hfinish : ∀ sz, S sz → Preserves P (finish sz) := fun sz hs =>
    preserves_ite (preserves_pure _)
      (preserves_bind (preserves_modify fun k hk => hsz k curproc sz hs hk) fun _ =>
        preserves_pure _)
  refine preserves_ite (preserves_bind_of (hP.preserves_allocuvm _ _ _)
    (hP.returns_allocuvm _ _ _) fun r hr => hfinish r ?_) ?_
  · rcases hr with rfl | rfl | hr
    · exact hK 0 (by decide)
    · exact hp
    · exact hK r hr
  refine preserves_ite (preserves_bind_of (hP.preserves_deallocuvm _ _ _)
    (hP.returns_deallocuvm _ _ _) fun r hr => hfinish r (hle _ _ hr hp)) ?_
  exact preserves_bind_of (preserves_pure _) (returns_pure hp) hfinish

lemma MinorStable.preserves_sysSbrk (n : Int32) : Preserves P (sysSbrk n) := by
  refine preserves_bind (preserves_myproc P) fun p => ?_
  refine preserves_bind (preserves_getProc P _) fun q => ?_
  exact preserves_bind (hP.preserves_growproc S hS hK hle hsz n) fun r =>
    preserves_ite (preserves_pure _) (preserves_pure _)

end Size

/-! ## Calls -/

/-- What the running process, or the scheduler, does next. -/
inductive Call where
  | mmap (addr length prot flags fd offset : Int32)
  | munmap (addr length : Int32)
  | fork
  | sbrk (n : Int32)
  | exit
  | wait
  | kill (pid : Int32)
  | access (va : UInt32) (write : Bool)
  | yield
  | schedule (p : Fin NPROC)
deriving DecidableEq

/-- A call, with its result dropped. -/
def Call.run : Call → Prog Kernel Unit
  | .mmap addr length prot flags fd offset => do
    let _ ← sysMmap addr length prot flags fd offset
    pure ()
  | .munmap addr length => do
    let _ ← sysMunmap addr length
    pure ()
  | .fork => do
    let _ ← Xv6.fork
    pure ()
  | .sbrk n => do
    let _ ← sysSbrk n
    pure ()
  | .exit => exitProc
  | .wait => do
    let _ ← waitPass
    pure ()
  | .kill pid => do
    let _ ← Xv6.kill pid
    pure ()
  | .access va write => userAccess va write
  | .yield => Xv6.yield
  | .schedule p => Xv6.schedule p

/-! ## The invariant over runs -/

/-- Every call keeps the invariant: the ones that change mapping tables by their own
lemmas, the others because they leave the tables alone. -/
theorem preserves_run (c : Call) : Preserves MmapInv c.run := by
  have hP := stable_mmapInv
  cases c with
  | mmap addr length prot flags fd offset =>
    exact preserves_bind (preserves_sysMmap _ _ _ _ _ _) fun _ => preserves_pure _
  | munmap addr length => exact preserves_bind (preserves_doMunmap _ _) fun _ => preserves_pure _
  | fork => exact preserves_bind preserves_fork fun _ => preserves_pure _
  | sbrk n =>
    -- the tables are all that `MmapInv` sees of a process: any size may be stored
    refine preserves_bind (hP.preserves_sysSbrk (fun _ => True) (fun _ _ _ => trivial)
      (fun _ _ => trivial) (fun _ _ _ _ => trivial) (fun _ p _ _ h => ?_) _) fun _ =>
        preserves_pure _
    exact h.setProc p (h.aligned p)
  | exit => exact preserves_exitProc
  | wait => exact preserves_bind hP.preserves_waitPass fun _ => preserves_pure _
  | kill pid => exact preserves_bind (hP.preserves_kill _) fun _ => preserves_pure _
  | access va write => exact (faultStable_mmapInv).triple_userAccess _ _
  | yield => exact hP.preserves_yield
  | schedule p => exact hP.preserves_schedule (fun _ p h => h.cur p) _

/-- Over every run from a state where it holds, the free list holds only pages that passed
`kfree`'s checks, and every active entry of every process's mapping table starts on a page
boundary and spans a whole number of pages. -/
theorem mmapInv_of_reachable {k₀ k : Kernel} (h₀ : MmapInv k₀)
    (h : Reachable Call.run k₀ k) : MmapInv k :=
  h.invariant preserves_run h₀

/-- No process of `execKernel` has a mapping. -/
lemma execKernel_mmaps (p : Fin NPROC) (i : Fin MAX_MMAPS) :
    (execKernel.procs p).mmaps i = Mmap.zero := by
  simp only [execKernel]
  split_ifs <;> rfl

lemma mmapInv_execKernel : MmapInv execKernel := by
  refine ⟨by decide, fun p i hva => absurd ?_ hva⟩
  rw [execKernel_mmaps]
  rfl

/-- The state after a growing mapping of one page at `0x60000000`, one call from
`execKernel`. -/
theorem mmapInv_after_growsup :
    MmapInv ((Call.run (.mmap 0x60000000 4096 3
      (MAP_ANONYMOUS ||| MAP_FIXED ||| MAP_GROWSUP ||| MAP_PRIVATE) (-1) 0) execKernel).stateD
      execKernel) :=
  mmapInv_of_reachable mmapInv_execKernel
    (Reachable.ok Relation.ReflTransGen.refl _
      (Result.eq_ok_of_returned execKernel (by decide)))

/-- In every state that a run reaches, `mmap` returns `-1` or a page-aligned address. -/
theorem sysMmap_result_aligned {k₀ k k' : Kernel} {addr length prot flags fd offset r : Int32}
    (h₀ : MmapInv k₀) (hk : Reachable Call.run k₀ k)
    (hr : sysMmap addr length prot flags fd offset k = .ok r k') :
    r = -1 ∨ r.toBitVec.toNat % 4096 = 0 :=
  returns_sysMmap addr length prot flags fd offset k r k' (hk.invariant preserves_run h₀) hr

/-- The state after `mmap(0, 4096, PROT_READ | PROT_WRITE, MAP_ANONYMOUS | MAP_PRIVATE, -1, 0)`
in the process of `execKernel`, which maps the page at `0x60000000`. -/
def anonMapKernel : Kernel :=
  (Call.run (.mmap 0 4096 3 (MAP_ANONYMOUS ||| MAP_PRIVATE) (-1) 0) execKernel).stateD execKernel

/-- One call on from `execKernel`, the same `mmap` again returns the next page,
`0x60001000`. -/
theorem sysMmap_result_aligned_secondMap :
    sysMmap 0 4096 3 (MAP_ANONYMOUS ||| MAP_PRIVATE) (-1) 0 anonMapKernel =
        .ok 0x60001000 ((sysMmap 0 4096 3 (MAP_ANONYMOUS ||| MAP_PRIVATE) (-1) 0
          anonMapKernel).stateD anonMapKernel) ∧
      ((0x60001000 : Int32) = -1 ∨ (0x60001000 : Int32).toBitVec.toNat % 4096 = 0) :=
  have hk : Reachable Call.run execKernel anonMapKernel :=
    Reachable.ok Relation.ReflTransGen.refl _ (Result.eq_ok_of_returned execKernel (by decide))
  have hr := Result.eq_ok_of_returned anonMapKernel
    (by decide : (sysMmap 0 4096 3 (MAP_ANONYMOUS ||| MAP_PRIVATE) (-1) 0 anonMapKernel).returned
      0x60001000 = true)
  ⟨hr, sysMmap_result_aligned mmapInv_execKernel hk hr⟩

/-! ## Sizes below `KERNBASE`

`allocuvm` grows a size only below `KERNBASE`, `deallocuvm` only shrinks one, and `fork`
copies the parent's: every process's size stays below `KERNBASE` over every run. -/

/-- Every process's size is below `KERNBASE`. -/
def SizeOk (k : Kernel) : Prop :=
  ∀ p, (k.procs p).sz < KERNBASE

instance (k : Kernel) : Decidable (SizeOk k) := Nat.decidableForallFin _

lemma SizeOk.setProc {k : Kernel} (h : SizeOk k) (p : Fin NPROC) {q : Proc}
    (hq : q.sz < KERNBASE) : SizeOk (k.setProc p q) := by
  intro p'
  by_cases hp : p' = p
  · subst hp
    simpa using hq
  · simpa [Function.update_of_ne hp] using h p'

lemma stable_sizeOk : Stable SizeOk where
  writeWord _ _ _ _ h := h
  fillPage _ _ _ h := h
  copyPage _ _ _ h := h
  kalloc := (keeps_kalloc_tasks).preserves fun t => ∀ p, (t.1 p).sz < KERNBASE
  kfree v := (keeps_kfree_tasks v).preserves fun t => ∀ p, (t.1 p).sz < KERNBASE
  setFile _ _ _ h := h
  setFs _ _ h := h
  minor _ p _ hq h := h.setProc p (hq.2.2.2.2 ▸ h p)
  setProc _ p _ _ hq h := h.setProc p (hq ▸ h p)
  nextpid _ _ h := h

/-- What the mapping code does to a process keeps its size. -/
lemma taskStable_sizeOk : TaskStable SizeOk :=
  { (stable_sizeOk).toMinorStable with task := fun _ p _ _ _ _ hq h => h.setProc p (hq ▸ h p) }

lemma faultStable_sizeOk : FaultStable SizeOk SizeOk :=
  (stable_sizeOk).faultStable (taskStable_sizeOk).preserves_doMunmap

/-- `fork` gives the child the parent's size. -/
theorem preserves_fork_sizeOk : Preserves SizeOk fork :=
  (stable_sizeOk).preserves_fork ((stable_sizeOk).preserves_allocproc fun _ p h => h.setProc p (h p))
    fun curproc np => (stable_sizeOk).preserves_forkRest curproc np
      (triple_copyMmap taskStable_sizeOk faultStable_sizeOk curproc np) fun _ h =>
        h.setProc np (h curproc)

/-- Every call keeps every size below `KERNBASE`. -/
theorem preserves_run_sizeOk (c : Call) : Preserves SizeOk c.run := by
  have hP := stable_sizeOk
  have hT := taskStable_sizeOk
  have hF := faultStable_sizeOk
  cases c with
  | mmap addr length prot flags fd offset =>
    exact preserves_bind (triple_sysMmap hT hF _ _ _ _ _ _) fun _ => preserves_pure _
  | munmap addr length => exact preserves_bind (hT.preserves_doMunmap _ _) fun _ => preserves_pure _
  | fork => exact preserves_bind preserves_fork_sizeOk fun _ => preserves_pure _
  | sbrk n =>
    exact preserves_bind (hP.preserves_sysSbrk (· < KERNBASE) (fun _ p h => h p)
      (fun _ h => h) (fun _ _ hba ha => UInt32.lt_of_le_of_lt hba ha)
      (fun _ p _ hs h => h.setProc p hs) _) fun _ => preserves_pure _
  | exit => exact hF.exitProc
  | wait => exact preserves_bind hP.preserves_waitPass fun _ => preserves_pure _
  | kill pid => exact preserves_bind (hP.preserves_kill _) fun _ => preserves_pure _
  | access va write => exact hF.triple_userAccess _ _
  | yield => exact hP.preserves_yield
  | schedule p => exact hP.preserves_schedule (fun _ _ h => h) _

/-- Over every run from a state where every process's size is below `KERNBASE`, every
process's size stays below `KERNBASE`. -/
theorem sizeOk_of_reachable {k₀ k : Kernel} (h₀ : SizeOk k₀) (h : Reachable Call.run k₀ k) :
    SizeOk k :=
  h.invariant preserves_run_sizeOk h₀

/-! ## Giving back all of memory -/

/-- `growproc(n)` with `sz + n = 0`, as `sbrk(-sz)` asks: `deallocuvm` unmaps every page below
`sz`, gives their frames back and returns the new size `0`, which `growproc` takes for failure.
The call returns `-1` and `proc->sz` keeps its old value, although no page below it is mapped
any more. -/
theorem growproc_shrink_to_zero_keeps_size {k : Kernel} {n : Int32}
    (hs : Space k (k.procs k.cur).pgdir) (hpos : 0 < (k.procs k.cur).sz)
    (hle : (k.procs k.cur).sz ≤ KERNBASE) (hn : n < 0)
    (hsum : (k.procs k.cur).sz + n.toUInt32 = 0) :
    ∃ k', growproc n k = .ok (-1) k' ∧ (k'.procs k'.cur).sz = (k.procs k.cur).sz ∧
      (∀ va, va < (k.procs k.cur).sz → presentPte k' (k.procs k.cur).pgdir va = none) ∧
      ∀ va pte, va < (k.procs k.cur).sz → presentPte k (k.procs k.cur).pgdir va = some pte →
        ptePage pte ∈ k'.freelist := by
  obtain ⟨k', hrun, hk'⟩ := deallocuvm_spec hs hle hpos
  have hup : PGROUNDUP (0 : UInt32) = 0 := by decide
  rw [hup] at hk'
  have hsz := UInt32.le_iff_toNat_le.mp hle
  -- a page below `sz` is in the range `deallocuvm` cleared
  have hin : ∀ va, va < (k.procs k.cur).sz →
      va < KERNBASE ∧ InPages 0 (k.procs k.cur).sz va := by
    intro va hva
    have h := UInt32.lt_iff_toNat_lt.mp hva
    refine ⟨UInt32.lt_iff_toNat_lt.mpr (by simp [KERNBASE] at hsz ⊢; omega), ?_⟩
    unfold InPages
    simp only [UInt32.toNat_zero]
    omega
  have hgrow : growproc n k = .ok (-1) k' := by
    simp [growproc, Int32.lt_asymm hn, hn, hsum, hrun, Int32.ne_of_lt hn]
  obtain ⟨fs, hfs, hfsmem⟩ := hk'.freed
  obtain ⟨mem, freelist, rfl⟩ := hk'.mem
  refine ⟨_, hgrow, rfl, fun va hva => ?_, fun va pte hva hpte => ?_⟩
  · obtain ⟨hvaK, hinva⟩ := hin va hva
    rw [hk'.pte va hvaK, if_pos hinva]
  · obtain ⟨hvaK, hinva⟩ := hin va hva
    rw [hfs]
    exact List.mem_append_left _ ((hfsmem _).mpr ⟨va, pte, hvaK, hinva, hpte, rfl⟩)

/-- `growproc(n)` for `n > 0`, where `allocuvm` grows the caller's space: the new size is
stored in the caller's slot and the call returns `0`. -/
lemma growproc_of_allocuvm {n : Int32} {k k₁ : Kernel} {r : UInt32} (hn : 0 < n)
    (h : allocuvm (k.procs k.cur).pgdir (k.procs k.cur).sz ((k.procs k.cur).sz + n.toUInt32) k =
      .ok r k₁) (hr : r ≠ 0) :
    growproc n k = .ok 0 (k₁.setProc k.cur { k₁.procs k.cur with sz := r }) := by
  simp [growproc, hn, h, hr, Prog.map_apply]

/-- `spareKernel` with every process of size `0` in the empty directory at `0x80300000`. -/
def emptyProcKernel : Kernel :=
  { spareKernel with
    procs := fun _ => { spareKernel.procs 0 with pgdir := 0x80300000 } }

/-- The state after `sbrk(4096)` in `emptyProcKernel`. -/
def sbrkKernel : Kernel :=
  (growproc 4096 emptyProcKernel).stateD emptyProcKernel

/-- `sbrk(4096)` maps a page from the free list, and the address space stays well formed. -/
lemma space_sbrkKernel : Space sbrkKernel 0x80300000 := by
  have hdir : ∀ i : UInt32, i.toNat < 512 → emptyProcKernel.mem 0x80300000 i &&& PTE_P = 0 := by
    simp [emptyProcKernel, spareKernel]
  have hs : Space emptyProcKernel 0x80300000 :=
    Space.empty hdir (by decide) (by decide) (by decide) (by decide)
  obtain ⟨r, k₁, hrun, hk₁⟩ := allocuvm_spec hs (by decide : (0 : UInt32) ≤ 4096) (by decide)
    fun _ hva _ => presentPte_of_empty hdir hva
  have hgrew : (allocuvm 0x80300000 0 4096 emptyProcKernel).returned 4096 = true := by decide
  rcases hk₁ with ⟨rfl, hg⟩ | ⟨rfl, -⟩
  · -- `growproc` only stores the new size in the caller's slot after `allocuvm`
    have hsbrk : sbrkKernel =
        k₁.setProc emptyProcKernel.cur { k₁.procs emptyProcKernel.cur with sz := 4096 } := by
      unfold sbrkKernel
      rw [growproc_of_allocuvm (by decide) hrun (by decide)]
      rfl
    rw [hsbrk]
    exact hg.space.congr rfl rfl rfl fun _ _ => rfl
  · rw [hrun] at hgrew
    simp [Result.returned] at hgrew

/-- `sbrk(4096)` and then `sbrk(-4096)` in `emptyProcKernel`: the second call unmaps the page
the first mapped and frees its frame, fails, and keeps the size `4096`. -/
theorem growproc_shrink_to_zero_keeps_size_afterSbrk :
    growproc 4096 emptyProcKernel = .ok 0 sbrkKernel ∧
      presentPte sbrkKernel 0x80300000 0 ≠ none ∧
      Space sbrkKernel (sbrkKernel.procs sbrkKernel.cur).pgdir ∧
      ∃ k', growproc (-4096) sbrkKernel = .ok (-1) k' ∧
        (k'.procs k'.cur).sz = (sbrkKernel.procs sbrkKernel.cur).sz ∧
        (∀ va, va < (sbrkKernel.procs sbrkKernel.cur).sz →
          presentPte k' (sbrkKernel.procs sbrkKernel.cur).pgdir va = none) ∧
        ∀ va pte, va < (sbrkKernel.procs sbrkKernel.cur).sz →
          presentPte sbrkKernel (sbrkKernel.procs sbrkKernel.cur).pgdir va = some pte →
            ptePage pte ∈ k'.freelist := by
  have hrun : growproc 4096 emptyProcKernel = .ok 0 sbrkKernel :=
    Result.eq_ok_of_returned emptyProcKernel (by decide)
  have hpg : (sbrkKernel.procs sbrkKernel.cur).pgdir = 0x80300000 := by decide
  have hs : Space sbrkKernel (sbrkKernel.procs sbrkKernel.cur).pgdir := hpg ▸ space_sbrkKernel
  exact ⟨hrun, by decide, hs,
    growproc_shrink_to_zero_keeps_size hs (by decide) (by decide) (by decide) (by decide)⟩

end Xv6
