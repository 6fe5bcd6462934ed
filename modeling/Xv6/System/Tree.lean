import Xv6.System.Run

/-!
# The process tree (proc.c)

`fork` links a child to its parent once the copy loop has run on the embryo, `exit` hands
the caller's children to `init` before the caller becomes a zombie, and `wait` reaps a
zombie child and clears its slot.  `TreeInv` is what holds between these: `init` is live,
every parent pointer names a live process, and every process other than `init` that has run
and has not been reaped has a parent.  The pointers of free slots count too: `allocproc`
does not clear a slot's parent, and the failure paths of `fork` hand a slot back with the
pointer it had.

A run of the machine is any sequence of `Move`s (`Reachable Move.run`, or `Trace Move.run`
with the list of its moves): a call made by a running process on some CPU, one of the parts
of `fork` between which other processes run, a sleep, a scheduler's pass, a wakeup.

The main results are

* `treeInv_of_reachable`: every run keeps `TreeInv`;
* `waitPass_reaps`: a pass of `wait` either reaps a zombie child of its caller, returning the
  child's pid and leaving its slot free, or, where the caller has no zombie child, changes
  nothing;
* `zombie_reaped_once`: over every run, a zombie stays one with its pid until a call of
  `wait` by its parent reaps it, which returns its pid and frees the slot;
* `processTree_of_reachable`, which puts them together over runs.

The calls that may fault (`mmap` and `fork`'s copy loop through null pointers, the user's
own loads and stores) exit the faulting process; `ZombieStable.faultStable` carries the tree
through that exit.  `ZombieStable` collects the properties that, besides the tree, see only
the zombies; the triples of the calls carry such a property along with the tree.
-/

namespace Xv6

open Prog

/-! ## Changes that keep the tree -/

/-- Two properties kept by the minor changes are kept together. -/
lemma MinorStable.and {P Q : Kernel → Prop} (hP : MinorStable P) (hQ : MinorStable Q) :
    MinorStable fun k => P k ∧ Q k where
  writeWord k pg i v h := ⟨hP.writeWord k pg i v h.1, hQ.writeWord k pg i v h.2⟩
  fillPage k pg v h := ⟨hP.fillPage k pg v h.1, hQ.fillPage k pg v h.2⟩
  copyPage k dst src h := ⟨hP.copyPage k dst src h.1, hQ.copyPage k dst src h.2⟩
  kalloc := hP.kalloc.and hQ.kalloc
  kfree v := (hP.kfree v).and (hQ.kfree v)
  setFile k f x h := ⟨hP.setFile k f x h.1, hQ.setFile k f x h.2⟩
  setFs k s h := ⟨hP.setFs k s h.1, hQ.setFs k s h.2⟩
  minor k p q hq h := ⟨hP.minor k p q hq h.1, hQ.minor k p q hq h.2⟩
  nextpid k n h := ⟨hP.nextpid k n h.1, hQ.nextpid k n h.2⟩

lemma TaskStable.and {P Q : Kernel → Prop} (hP : TaskStable P) (hQ : TaskStable Q) :
    TaskStable fun k => P k ∧ Q k :=
  { hP.toMinorStable.and hQ.toMinorStable with
    task := fun k p q h₁ h₂ h₃ h₄ h => ⟨hP.task k p q h₁ h₂ h₃ h₄ h.1, hQ.task k p q h₁ h₂ h₃ h₄ h.2⟩ }

/-- A property of the process table and `initproc` alone. -/
def OfProcs (P : Kernel → Prop) : Prop :=
  ∀ k k', k'.procs = k.procs → k'.initproc = k.initproc → P k → P k'

/-- Such a property is kept by everything below the process table, by a new `nextpid` and
by a switch of `cur`; it is `TaskStable` once the changes to a process that `Proc.Minor`
allows and those that keep its pid, parent and state keep it. -/
lemma OfProcs.taskStable {P : Kernel → Prop} (hP : OfProcs P)
    (hminor : ∀ k p q, (k.procs p).Minor q → P k → P (k.setProc p q))
    (htask : ∀ k p q, q.pid = (k.procs p).pid → q.parent = (k.procs p).parent →
      q.state = (k.procs p).state → P k → P (k.setProc p q)) : TaskStable P where
  writeWord k _ _ _ h := hP k _ rfl rfl h
  fillPage k _ _ h := hP k _ rfl rfl h
  copyPage k _ _ h := hP k _ rfl rfl h
  kalloc := by
    intro k h
    refine ⟨fun r k' hx => ?_, fun k' hx => ?_⟩ <;> unfold kalloc at hx <;> split at hx <;>
      cases hx <;> exact hP k _ rfl rfl h
  kfree v := by
    intro k h
    refine ⟨fun r k' hx => ?_, fun k' hx => ?_⟩ <;> unfold kfree at hx <;> split at hx <;>
      cases hx
    exact hP k _ rfl rfl h
  setFile k _ _ h := hP k _ rfl rfl h
  setFs k _ h := hP k _ rfl rfl h
  minor := hminor
  nextpid k _ h := hP k _ rfl rfl h
  task k p q h₁ h₂ h₃ _ h := htask k p q h₁ h₂ h₃ h

lemma OfProcs.cur {P : Kernel → Prop} (hP : OfProcs P) (k : Kernel) (p : Fin NPROC) (h : P k) :
    P { k with cur := p } :=
  hP k _ rfl rfl h

/-- A change to slot `p` that keeps its state keeps the state of every slot. -/
lemma phase_setProc {k : Kernel} {p : Fin NPROC} {q : Proc} (hq : q.state = (k.procs p).state)
    (s : Fin NPROC) : ((k.setProc p q).procs s).state.phase = (k.procs s).state.phase := by
  by_cases hs : s = p
  · subst hs
    simp [hq]
  · simp [Function.update_of_ne hs]

/-- A change to slot `p` that keeps its parent keeps the parent of every slot. -/
lemma parent_setProc {k : Kernel} {p : Fin NPROC} {q : Proc} (hq : q.parent = (k.procs p).parent)
    (s : Fin NPROC) : ((k.setProc p q).procs s).parent = (k.procs s).parent := by
  by_cases hs : s = p
  · subst hs
    simp [hq]
  · simp [Function.update_of_ne hs]

/-- What one slot holds, as far as a property `R` of it sees, is kept by every change that
keeps it, in whichever slot the change is made. -/
lemma taskStable_slot (s : Fin NPROC) (R : Proc → Prop)
    (hminor : ∀ q q', q.Minor q' → R q → R q')
    (htask : ∀ q q', q'.pid = q.pid → q'.parent = q.parent → q'.state = q.state → R q → R q') :
    TaskStable fun k => R (k.procs s) := by
  refine OfProcs.taskStable (fun k k' hp _ h => hp ▸ h) (fun k p q hq h => ?_)
    (fun k p q h₁ h₂ h₃ h => ?_)
  · show R (Function.update k.procs p q s)
    by_cases hs : s = p
    · subst hs
      rw [Function.update_self]
      exact hminor _ _ hq h
    · rw [Function.update_of_ne hs]
      exact h
  · show R (Function.update k.procs p q s)
    by_cases hs : s = p
    · subst hs
      rw [Function.update_self]
      exact htask _ _ h₁ h₂ h₃ h
    · rw [Function.update_of_ne hs]
      exact h

/-- `initproc` never changes. -/
lemma taskStable_initproc (R : Fin NPROC → Prop) : TaskStable fun k => R k.initproc :=
  OfProcs.taskStable (fun _ _ _ hi h => hi ▸ h) (fun _ _ _ _ h => h) fun _ _ _ _ _ _ h => h

/-- The phase of a slot. -/
lemma taskStable_phase (s : Fin NPROC) (ph : Phase) :
    TaskStable fun k => (k.procs s).state.phase = ph :=
  taskStable_slot s _ (fun _ _ hq h => hq.2.2.2.1.trans h) fun _ _ _ _ hst h => by
    rw [hst]
    exact h

/-- What a property of parent pointers sees of a slot. -/
lemma taskStable_parent (s : Fin NPROC) (R : Option (Fin NPROC) → Prop) :
    TaskStable fun k => R (k.procs s).parent :=
  taskStable_slot s (fun q => R q.parent) (fun _ _ hq h => hq.2.2.1 ▸ h) fun _ _ _ hpar _ h =>
    hpar ▸ h

/-- No slot outside `l` is a child of `c`. -/
lemma taskStable_noChild (c : Fin NPROC) (l : List (Fin NPROC)) :
    TaskStable fun k => ∀ p, p ∉ l → (k.procs p).parent ≠ some c :=
  OfProcs.taskStable (fun _ _ hp _ h => hp ▸ h)
    (fun _ _ _ hq h p hp => by rw [parent_setProc hq.2.2.1]; exact h p hp)
    fun _ _ _ _ hpar _ h p hp => by rw [parent_setProc hpar]; exact h p hp

/-- Only the scheduler switches the current process. -/
lemma taskStable_cur (c : Fin NPROC) : TaskStable fun k => k.cur = c where
  writeWord _ _ _ _ h := h
  fillPage _ _ _ h := h
  copyPage _ _ _ h := h
  kalloc := (keeps_kalloc_tasks).preserves fun t => t.2 = c
  kfree v := (keeps_kfree_tasks v).preserves fun t => t.2 = c
  setFile _ _ _ h := h
  setFs _ _ h := h
  minor _ _ _ _ h := h
  nextpid _ _ h := h
  task _ _ _ _ _ _ _ h := h

lemma ProcState.phase_eq_zombie {s : ProcState} : s.phase = .zombie ↔ s = .ZOMBIE := by
  cases s <;> decide

/-- A live state is none of free, embryo and zombie. -/
lemma ProcState.ne_of_phase_live {s : ProcState} (h : s.phase = .live) :
    s ≠ .UNUSED ∧ s ≠ .EMBRYO ∧ s ≠ .ZOMBIE := by
  revert h
  cases s <;> decide

/-- Slots in different phases are different slots. -/
lemma slot_ne_of_phase {k : Kernel} {a b : Fin NPROC}
    (h : (k.procs a).state.phase ≠ (k.procs b).state.phase) : a ≠ b := by
  rintro rfl
  exact h rfl


/-! ## The invariant -/

/-- The process tree's invariant. -/
structure TreeInv (k : Kernel) : Prop where
  init_live : (k.procs k.initproc).state.phase = .live
  parent_live : ∀ p q, (k.procs p).parent = some q → (k.procs q).state.phase = .live
  has_parent : ∀ p, p ≠ k.initproc →
    (k.procs p).state.phase = .live ∨ (k.procs p).state.phase = .zombie →
      (k.procs p).parent ≠ none

instance (k : Kernel) : Decidable (TreeInv k) :=
  haveI : ∀ p, Decidable (∀ q, (k.procs p).parent = some q → (k.procs q).state.phase = .live) :=
    fun _ => Nat.decidableForallFin _
  haveI := Nat.decidableForallFin fun p =>
    ∀ q, (k.procs p).parent = some q → (k.procs q).state.phase = .live
  haveI := Nat.decidableForallFin fun p => p ≠ k.initproc →
    (k.procs p).state.phase = .live ∨ (k.procs p).state.phase = .zombie →
      (k.procs p).parent ≠ none
  decidable_of_iff ((k.procs k.initproc).state.phase = .live ∧
      (∀ p q, (k.procs p).parent = some q → (k.procs q).state.phase = .live) ∧
      ∀ p, p ≠ k.initproc →
        (k.procs p).state.phase = .live ∨ (k.procs p).state.phase = .zombie →
          (k.procs p).parent ≠ none)
    ⟨fun ⟨h₁, h₂, h₃⟩ => ⟨h₁, h₂, h₃⟩, fun h => ⟨h.init_live, h.parent_live, h.has_parent⟩⟩

/-- The invariant reads only the process table and `initproc`. -/
lemma ofProcs_treeInv : OfProcs TreeInv := by
  intro k k' hp hi h
  refine ⟨?_, fun p q hpq => ?_, fun p hne hph => ?_⟩
  · rw [hi, hp]
    exact h.init_live
  · rw [hp] at hpq ⊢
    exact h.parent_live p q hpq
  · rw [hp] at hph ⊢
    rw [hi] at hne
    exact h.has_parent p hne hph

namespace TreeInv

variable {k : Kernel} (h : TreeInv k)
include h

/-- A slot that is not live is no one's parent. -/
lemma not_parent {q : Fin NPROC} (hq : (k.procs q).state.phase ≠ .live) (p : Fin NPROC) :
    (k.procs p).parent ≠ some q :=
  fun hpq => hq (h.parent_live p q hpq)

/-- A slot that is not live is not `init`. -/
lemma ne_init {q : Fin NPROC} (hq : (k.procs q).state.phase ≠ .live) : q ≠ k.initproc := by
  rintro rfl
  exact hq h.init_live

/-- A process other than `init` that has run and has not been reaped has a parent that is
neither free nor an embryo. -/
lemma exists_parent {p : Fin NPROC} (hp : p ≠ k.initproc)
    (hph : (k.procs p).state.phase = .live ∨ (k.procs p).state.phase = .zombie) :
    ∃ q, (k.procs p).parent = some q ∧ (k.procs q).state ≠ .UNUSED ∧
      (k.procs q).state ≠ .EMBRYO := by
  obtain ⟨q, hq⟩ := Option.ne_none_iff_exists'.mp (h.has_parent p hp hph)
  obtain ⟨hfree, hembryo, -⟩ := ProcState.ne_of_phase_live (h.parent_live p q hq)
  exact ⟨q, hq, hfree, hembryo⟩

/-- One slot changes: the invariant holds after if `init` stays live, the new parent pointer
names a process live after the change, a slot that stops being live is no one else's
parent, and a process that has run has a parent. -/
lemma setProc {p : Fin NPROC} {q : Proc}
    (hinit : p = k.initproc → q.state.phase = .live)
    (hpar : ∀ r, q.parent = some r → ((k.setProc p q).procs r).state.phase = .live)
    (hkids : q.state.phase ≠ .live → ∀ p', p' ≠ p → (k.procs p').parent ≠ some p)
    (hhas : p ≠ k.initproc → q.state.phase = .live ∨ q.state.phase = .zombie → q.parent ≠ none) :
    TreeInv (k.setProc p q) := by
  refine ⟨?_, fun p' r hp' => ?_, fun p' hne hph => ?_⟩
  · show (Function.update k.procs p q k.initproc).state.phase = .live
    by_cases hi : k.initproc = p
    · rw [hi, Function.update_self]
      exact hinit hi.symm
    · rw [Function.update_of_ne hi]
      exact h.init_live
  · by_cases hp'p : p' = p
    · subst hp'p
      simp only [Kernel.setProc_procs, Function.update_self] at hp'
      exact hpar r hp'
    · simp only [Kernel.setProc_procs, Function.update_of_ne hp'p] at hp' ⊢
      by_cases hr : r = p
      · -- `p'` still points at `p`, so `p` stays live
        subst hr
        rw [Function.update_self]
        by_contra hq
        exact hkids hq p' hp'p hp'
      · rw [Function.update_of_ne hr]
        exact h.parent_live p' r hp'
  · by_cases hp'p : p' = p
    · subst hp'p
      simp only [Kernel.setProc_procs, Function.update_self] at hph ⊢
      exact hhas hne hph
    · simp only [Kernel.setProc_procs, Function.update_of_ne hp'p] at hph ⊢
      exact h.has_parent p' hne hph

/-- A change that keeps a process's parent and phase. -/
lemma setProc_of {p : Fin NPROC} {q : Proc} (hpar : q.parent = (k.procs p).parent)
    (hph : q.state.phase = (k.procs p).state.phase) : TreeInv (k.setProc p q) := by
  refine h.setProc (fun hi => hph.trans (hi ▸ h.init_live)) (fun r hr => ?_)
    (fun hq => fun p' _ => h.not_parent (hph ▸ hq) p')
    (fun hne hl => hpar ▸ h.has_parent p hne (hph ▸ hl))
  rw [hpar] at hr
  have hlive := h.parent_live p r hr
  by_cases hrp : r = p
  · subst hrp
    simp only [Kernel.setProc_procs, Function.update_self, hph]
    exact hlive
  · simp only [Kernel.setProc_procs, Function.update_of_ne hrp]
    exact hlive

/-- A slot that is not live becomes free or an embryo, keeping its parent pointer or
dropping it: what `allocproc`, `fork`'s failure paths and `wait` do. -/
lemma setProc_dead {p : Fin NPROC} {q : Proc} (hold : (k.procs p).state.phase ≠ .live)
    (hnew : q.state.phase = .free ∨ q.state.phase = .embryo)
    (hpar : q.parent = (k.procs p).parent ∨ q.parent = none) : TreeInv (k.setProc p q) := by
  refine h.setProc (fun hi => absurd hi (h.ne_init hold)) (fun r hr => ?_)
    (fun _ p' _ => h.not_parent hold p') (fun _ hl => ?_)
  · rcases hpar with hpar | hpar
    · rw [hpar] at hr
      have hlive := h.parent_live p r hr
      -- the parent is live, so it is not the slot that changes
      have hrp : r ≠ p := by
        rintro rfl
        exact hold hlive
      simp only [Kernel.setProc_procs, Function.update_of_ne hrp]
      exact hlive
    · rw [hpar] at hr
      cases hr
  · rcases hnew with hnew | hnew <;> rw [hnew] at hl <;> simp at hl

/-- A process's parent becomes `r`, a live process; its state stays. -/
lemma setProc_parent {p r : Fin NPROC} {q : Proc} (hst : q.state = (k.procs p).state)
    (hr : q.parent = some r) (hlive : (k.procs r).state.phase = .live) :
    TreeInv (k.setProc p q) := by
  refine h.setProc (fun hi => hst ▸ hi ▸ h.init_live) (fun r' hr' => ?_)
    (fun hq p' _ => h.not_parent (hst ▸ hq) p') (fun _ _ => by rw [hr]; exact Option.some_ne_none r)
  rw [hr] at hr'
  cases hr'
  by_cases hrp : r = p
  · subst hrp
    simp only [Kernel.setProc_procs, Function.update_self, hst]
    exact hlive
  · simp only [Kernel.setProc_procs, Function.update_of_ne hrp]
    exact hlive

/-- An embryo becomes live, with the parent it has: the end of `fork`. -/
lemma setProc_live {p : Fin NPROC} {q : Proc} (hph : q.state.phase = .live)
    (hpar : q.parent = (k.procs p).parent) (hhas : q.parent ≠ none) :
    TreeInv (k.setProc p q) := by
  refine h.setProc (fun _ => hph) (fun r hr => ?_) (fun hq => absurd hph hq) (fun _ _ => hhas)
  rw [hpar] at hr
  have hlive := h.parent_live p r hr
  by_cases hrp : r = p
  · subst hrp
    simp only [Kernel.setProc_procs, Function.update_self]
    exact hph
  · simp only [Kernel.setProc_procs, Function.update_of_ne hrp]
    exact hlive

/-- A process other than `init` that has a parent and no children changes its state,
keeping its parent: the end of `exit`, where it becomes a zombie. -/
lemma setProc_leaf {p : Fin NPROC} {q : Proc} (hpar : q.parent = (k.procs p).parent) (hinit : p ≠ k.initproc)
    (hkids : ∀ p', (k.procs p').parent ≠ some p) (hhas : (k.procs p).parent ≠ none) :
    TreeInv (k.setProc p q) := by
  refine h.setProc (fun hi => absurd hi hinit) (fun r hr => ?_) (fun _ p' _ => hkids p')
    (fun _ _ => hpar ▸ hhas)
  rw [hpar] at hr
  have hrp : r ≠ p := fun hrp => hkids p (hrp ▸ hr)
  simp only [Kernel.setProc_procs, Function.update_of_ne hrp]
  exact h.parent_live p r hr

end TreeInv

/-- The mapping code and the scheduler keep the tree. -/
lemma taskStable_treeInv : TaskStable TreeInv :=
  (ofProcs_treeInv).taskStable (fun _ _ _ hq h => h.setProc_of hq.2.2.1 hq.2.2.2.1)
    fun _ _ _ _ hpar hst h => h.setProc_of hpar (by rw [hst])

/-! ## What the calls keep besides

A zombie outlives every call but `wait`.  `ZombieStable` collects the properties that see
only the zombies among the processes (and what the mapping code keeps): every change to a
slot that is not a zombie keeps them, and so do every new parent pointer, every new size and
a switch of the current process.  The lemmas below carry such a property `Q` through each
call together with the tree; `Q` is `True` for the tree alone. -/

/-- A property of the zombies, and of what the mapping code keeps. -/
structure ZombieStable (Q : Kernel → Prop) : Prop extends TaskStable Q where
  other : ∀ k p q, (k.procs p).state.phase ≠ .zombie → Q k → Q (k.setProc p q)
  parent : ∀ k p r, Q k → Q (k.setProc p { k.procs p with parent := r })
  size : ∀ k p sz, Q k → Q (k.setProc p { k.procs p with sz := sz })
  cur : ∀ k p, Q k → Q { k with cur := p }

lemma zombieStable_true : ZombieStable fun _ => True where
  toTaskStable := OfProcs.taskStable (fun _ _ _ _ h => h) (fun _ _ _ _ h => h)
    fun _ _ _ _ _ _ h => h
  other _ _ _ _ h := h
  parent _ _ _ h := h
  size _ _ _ h := h
  cur _ _ h := h

/-- Slot `s` holds a zombie with pid `v`. -/
lemma zombieStable_zombie (s : Fin NPROC) (v : Int32) :
    ZombieStable fun k => (k.procs s).state.phase = .zombie ∧ (k.procs s).pid = v where
  toTaskStable := taskStable_slot s (fun q => q.state.phase = .zombie ∧ q.pid = v)
    (fun _ _ hq h => ⟨hq.2.2.2.1.trans h.1, hq.2.1.trans h.2⟩)
    fun _ _ hpid _ hst h => ⟨by rw [hst]; exact h.1, hpid.trans h.2⟩
  other k p q hp h := by
    have hsp : s ≠ p := slot_ne_of_phase (by rw [h.1]; exact Ne.symm hp)
    simp only [Kernel.setProc_procs, Function.update_of_ne hsp]
    exact h
  parent k p r h := by
    by_cases hsp : s = p
    · subst hsp
      simp only [Kernel.setProc_procs, Function.update_self]
      exact h
    · simp only [Kernel.setProc_procs, Function.update_of_ne hsp]
      exact h
  size k p sz h := by
    by_cases hsp : s = p
    · subst hsp
      simp only [Kernel.setProc_procs, Function.update_self]
      exact h
    · simp only [Kernel.setProc_procs, Function.update_of_ne hsp]
      exact h
  cur _ _ h := h

/-- Where code run by process `c` starts: the tree and `Q` hold, `c` is live, and it is the
current process. -/
def CallerInv (Q : Kernel → Prop) (c : Fin NPROC) (k : Kernel) : Prop :=
  ((TreeInv k ∧ Q k) ∧ (k.procs c).state.phase = .live) ∧ k.cur = c

lemma TaskStable.callerInv {Q : Kernel → Prop} (hQ : TaskStable Q) (c : Fin NPROC) :
    TaskStable (CallerInv Q c) :=
  (((taskStable_treeInv).and hQ).and (taskStable_phase c .live)).and (taskStable_cur c)

/-- Code that reads `myproc` where `c` is current reads `c`. -/
lemma triple_myproc_bind {α : Type} {P : Kernel → Prop} {f : Fin NPROC → Prog Kernel α}
    {R : α → Kernel → Prop} {E : Kernel → Prop} (c : Fin NPROC) (hc : ∀ s, P s → s.cur = c)
    (hf : Triple P (f c) R E) : Triple P (myproc >>= f) R E := by
  intro s hs
  rw [bind_of_ok (myproc_apply s), hc s hs]
  exact hf s hs

/-- A wakeup changes one process's state within its phase: what the minor changes keep, it
keeps, and it never exits. -/
lemma MinorStable.triple_wakeup1 {P E : Kernel → Prop} (hP : MinorStable P) (p : Fin NPROC) :
    Triple P (wakeup1 p) (fun _ => P) E :=
  triple_modify fun k hk => hP.minor k p _ ⟨rfl, rfl, rfl, phase_wake _, rfl⟩ hk

/-- A pass of `exit`'s loop over the process table, from a state where no slot outside
`q :: l` points at `c`: afterwards none outside `l` does, since a child of `c` in slot `q`
goes to `init`, which is woken where the child is a zombie.  `J` is what a new parent
pointer to `init` keeps. -/
lemma triple_reparent {J E : Kernel → Prop} (hJ : MinorStable J) (c q : Fin NPROC)
    (hpar : ∀ k p, J k → J (k.setProc p { k.procs p with parent := some k.initproc }))
    (hc : ∀ k, J k → c ≠ k.initproc) (l : List (Fin NPROC)) :
    Triple (fun k => J k ∧ ∀ p, p ∉ q :: l → (k.procs p).parent ≠ some c) (reparent c q)
      (fun _ k => J k ∧ ∀ p, p ∉ l → (k.procs p).parent ≠ some c) E := by
  have hK := hJ.and (taskStable_noChild c l).toMinorStable
  unfold reparent
  refine triple_read_bind (fun s => get_apply s) fun k₀ => triple_ite (fun hq => ?_) fun hq => ?_
  · refine triple_bind (triple_modify fun s hs => ?_) fun _ =>
      triple_ite (fun _ => hK.triple_wakeup1 _) fun _ => triple_pure fun _ h => h
    obtain ⟨⟨hs, hnot⟩, rfl⟩ := hs
    refine ⟨hpar s q hs, fun p hp => ?_⟩
    by_cases hpq : p = q
    · subst hpq
      simp only [Kernel.setProc_procs, Function.update_self]
      exact fun h => hc s hs (Option.some.inj h).symm
    · simp only [Kernel.setProc_procs, Function.update_of_ne hpq]
      exact hnot p (by simp [hp, hpq])
  · refine triple_pure fun s hs => ?_
    obtain ⟨⟨hs, hnot⟩, rfl⟩ := hs
    refine ⟨hs, fun p hp => ?_⟩
    by_cases hpq : p = q
    · subst hpq
      exact hq
    · exact hnot p (by simp [hp, hpq])

section Calls

variable {Q : Kernel → Prop} (hQ : ZombieStable Q)
include hQ

/-- A live process's state becomes another live state: a yield, a sleep, a wakeup. -/
lemma setState_live {k : Kernel} {p : Fin NPROC} {st : ProcState} (hk : TreeInv k ∧ Q k)
    (hp : (k.procs p).state.phase = .live) (hst : st.phase = .live) :
    TreeInv (k.setProc p { k.procs p with state := st }) ∧
      Q (k.setProc p { k.procs p with state := st }) :=
  ⟨hk.1.setProc_of rfl (hst.trans hp.symm), hQ.other _ _ _ (by rw [hp]; decide) hk.2⟩

/-- A new size for any process. -/
lemma callerInv_size {k : Kernel} {c : Fin NPROC} (h : CallerInv Q c k) (p : Fin NPROC)
    (sz : UInt32) : CallerInv Q c (k.setProc p { k.procs p with sz := sz }) := by
  obtain ⟨⟨⟨hT, hq⟩, hc⟩, hcur⟩ := h
  exact ⟨⟨⟨hT.setProc_of rfl rfl, hQ.size _ _ _ hq⟩, (phase_setProc (by rfl) c).trans hc⟩, hcur⟩

/-- `exit` from a live process other than `init`: its files are closed and its shared
mappings unmapped, its children go to `init`, and it becomes a zombie that keeps its parent.
It never returns. -/
lemma triple_exitProc (c : Fin NPROC) :
    Triple (CallerInv Q c) exitProc (fun _ _ => False) fun k => TreeInv k ∧ Q k := by
  -- what `exit` keeps up to its last store: the tree, `Q`, and the caller live, current and
  -- not `init`
  have hJ := (hQ.callerInv c).and (taskStable_initproc (c ≠ ·))
  have hout : ∀ k, CallerInv Q c k ∧ c ≠ k.initproc → TreeInv k ∧ Q k := fun _ h => h.1.1.1
  unfold exitProc
  refine triple_myproc_bind c (fun _ h => h.2) ?_
  refine triple_read_bind (fun s => get_apply s) fun k₀ => ?_
  refine triple_ite (fun _ => triple_panic _) fun hinit => ?_
  have hstart : ∀ s, CallerInv Q c s ∧ s = k₀ → CallerInv Q c s ∧ c ≠ s.initproc := by
    rintro s ⟨h, rfl⟩
    exact ⟨h, hinit⟩
  refine Triple.mono ?_ hstart (fun _ _ h => h) fun _ h => h
  refine triple_bind_of_preserves (preserves_forM (hJ.preserves_closeOfile c) _) hout fun _ => ?_
  refine triple_bind_of_preserves (preserves_forM (hJ.preserves_unmapShared c) _) hout
    fun _ => ?_
  refine triple_bind_of_preserves (preserves_getProc _ c) hout fun p => ?_
  -- a new parent pointer to `init` changes no state
  have hpar : ∀ k p, CallerInv Q c k ∧ c ≠ k.initproc →
      CallerInv Q c (k.setProc p { k.procs p with parent := some k.initproc }) ∧
        c ≠ (k.setProc p { k.procs p with parent := some k.initproc }).initproc := by
    rintro k p ⟨⟨⟨⟨hT, hq⟩, hc⟩, hcur⟩, hi⟩
    exact ⟨⟨⟨⟨hT.setProc_parent rfl rfl hT.init_live, hQ.parent k p _ hq⟩,
      (phase_setProc (by rfl) c).trans hc⟩, hcur⟩, hi⟩
  -- the release of the directory and the wakeup are each followed by the join point of a
  -- `match`: the rest of `exit` from there
  extract_lets afterWake afterCwd
  have hafterWake : ∀ r, Triple (fun k => CallerInv Q c k ∧ c ≠ k.initproc) (afterWake r)
      (fun _ _ => False) fun k => TreeInv k ∧ Q k := fun _ => by
    have hloop : Triple _ (forM (List.finRange NPROC) (reparent c)) _ fun k => TreeInv k ∧ Q k :=
      triple_forM (fun l k => (CallerInv Q c k ∧ c ≠ k.initproc) ∧
          ∀ p, p ∉ l → (k.procs p).parent ≠ some c)
        (fun q l => triple_reparent hJ.toMinorStable c q hpar (fun _ h => h.2) l)
        (List.finRange NPROC)
    refine triple_bind (hloop.mono (fun _ h => ⟨h, fun p hp => absurd (List.mem_finRange p) hp⟩)
      (fun _ _ h => h) fun _ h => h) fun _ => ?_
    -- no slot points at the caller any more: it becomes a zombie
    refine triple_bind (triple_modify fun s hs => ?_) fun _ => triple_exit fun _ h => h
    obtain ⟨⟨⟨⟨⟨hT, hq⟩, hc⟩, -⟩, hi⟩, hkids⟩ := hs
    exact ⟨hT.setProc_leaf rfl hi (fun p => hkids p List.not_mem_nil)
      (hT.has_parent c hi (.inl hc)), hQ.other _ _ _ (by rw [hc]; decide) hq⟩
  have hafterCwd : ∀ r, Triple (fun k => CallerInv Q c k ∧ c ≠ k.initproc) (afterCwd r)
      (fun _ _ => False) fun k => TreeInv k ∧ Q k := fun _ => by
    refine triple_bind_of_preserves
      (hJ.preserves_modifyProc _ fun _ => ⟨rfl, rfl, rfl, rfl, rfl⟩) hout fun _ => ?_
    rcases p.parent with _ | q
    · exact hafterWake ()
    · exact triple_bind (hJ.triple_wakeup1 _) hafterWake
  rcases p.cwd with _ | ip
  · exact triple_bind (triple_panic _) hafterCwd
  · exact triple_bind_of_preserves (hJ.preserves_onFs _) hout hafterCwd

/-- The fault path out of code that process `c` runs: the exit it takes keeps the tree and
`Q`. -/
lemma ZombieStable.faultStable {I : Kernel → Prop} (c : Fin NPROC) (hI : MinorStable I)
    (hcaller : ∀ k, I k → CallerInv Q c k) : FaultStable I fun k => TreeInv k ∧ Q k where
  toMinorStable := hI
  out k h := (hcaller k h).1.1
  exitProc := (triple_exitProc hQ c).mono hcaller (fun _ _ h => h.elim) fun _ h => h

/-- `allocproc` makes the first free slot an embryo, and hands it back free where no page is
left for its kernel stack. -/
lemma triple_allocproc (c : Fin NPROC) :
    Triple (CallerInv Q c) allocproc
      (fun r k => CallerInv Q c k ∧ ∀ np, r = some np → (k.procs np).state.phase = .embryo)
      (CallerInv Q c) := by
  unfold allocproc
  refine triple_read_bind (fun s => get_apply s) fun k₀ => ?_
  split
  · exact triple_pure fun s hs => ⟨hs.1, fun np h => nomatch h⟩
  rename_i p hp
  have hfree : (k₀.procs p).state = .UNUSED := by simpa using Slots.first_eq_some hp
  -- from the first store on, `p` is an embryo
  have hE := (hQ.callerInv c).and (taskStable_phase p .embryo)
  refine triple_bind (?_ : Triple _ _
    (fun _ k => CallerInv Q c k ∧ (k.procs p).state.phase = .embryo) _) fun _ => ?_
  · refine triple_modify fun s hs => ?_
    obtain ⟨⟨⟨⟨hT, hq⟩, hc⟩, hcur⟩, rfl⟩ := hs
    have hcp : c ≠ p := slot_ne_of_phase (by rw [hc, hfree]; decide)
    refine hE.nextpid _ _ ⟨⟨⟨⟨hT.setProc_dead (by rw [hfree]; decide) (.inr rfl) (.inl rfl),
      hQ.other _ _ _ (by rw [hfree]; decide) hq⟩, ?_⟩, hcur⟩, ?_⟩
    · simp only [Kernel.setProc_procs, Function.update_of_ne hcp]
      exact hc
    · simp only [Kernel.setProc_procs, Function.update_self]
      rfl
  refine triple_bind_of_preserves hE.kalloc (fun _ h => h.1) fun stack => ?_
  refine triple_bind_of_preserves (hE.preserves_modifyTask p fun _ => ⟨rfl, rfl, rfl, rfl⟩)
    (fun _ h => h.1) fun _ => ?_
  refine triple_ite (fun _ => ?_) fun _ => ?_
  · -- no page for the stack: the slot is free again
    refine triple_bind (triple_modify fun s hs => ?_) fun _ =>
      triple_pure fun s hs => ⟨hs, fun np h => nomatch h⟩
    obtain ⟨⟨⟨⟨hT, hq⟩, hc⟩, hcur⟩, he⟩ := hs
    have hcp : c ≠ p := slot_ne_of_phase (by rw [hc, he]; decide)
    refine ⟨⟨⟨hT.setProc_dead (by rw [he]; decide) (.inl rfl) (.inl rfl),
      hQ.other _ _ _ (by rw [he]; decide) hq⟩, ?_⟩, hcur⟩
    simp only [Kernel.setProc_procs, Function.update_of_ne hcp]
    exact hc
  · refine triple_bind_of_preserves (hE.preserves_modifyTask p fun _ => ⟨rfl, rfl, rfl, rfl⟩)
      (fun _ h => h.1) fun _ => ?_
    exact triple_pure fun s hs => ⟨hs.1, fun np h => by cases h; exact hs.2⟩

/-- The copy between `fork`'s critical sections, from an embryo of a live caller: the
embryo is still one and a child of the caller, or its slot is free again.  A fault in the
copy loop ends the caller. -/
lemma triple_forkCopy (curproc np : Fin NPROC) :
    Triple (fun k => CallerInv Q curproc k ∧ (k.procs np).state.phase = .embryo)
      (forkCopy curproc np)
      (fun ok k => (TreeInv k ∧ Q k) ∧
        (ok = true → (k.procs np).state.phase = .embryo ∧ (k.procs np).parent = some curproc))
      fun k => TreeInv k ∧ Q k := by
  have hE := (hQ.callerInv curproc).and (taskStable_phase np .embryo)
  have hF := hQ.faultStable curproc hE.toMinorStable fun _ h => h.1
  have hout : ∀ k, CallerInv Q curproc k ∧ (k.procs np).state.phase = .embryo →
      TreeInv k ∧ Q k := fun _ h => h.1.1.1
  unfold forkCopy
  refine triple_bind_of_preserves (preserves_getProc _ curproc) hout fun p => ?_
  refine triple_bind_of_preserves (hE.preserves_copyuvm _ _) hout fun d => ?_
  refine triple_bind_of_preserves (hE.preserves_modifyTask np fun _ => ⟨rfl, rfl, rfl, rfl⟩) hout
    fun _ => ?_
  refine triple_ite (fun _ => ?_) fun _ => ?_
  · -- no page directory: the embryo's slot is free again
    refine triple_bind_of_preserves (preserves_getProc _ np) hout fun q => ?_
    refine triple_bind_of_preserves (hE.kfree _) hout fun _ => ?_
    refine triple_bind (triple_modify fun s hs => ?_) fun _ =>
      triple_pure fun _ h => ⟨h, fun hf => nomatch hf⟩
    obtain ⟨⟨⟨⟨hT, hq⟩, -⟩, -⟩, he⟩ := hs
    exact ⟨hT.setProc_dead (by rw [he]; decide) (.inl rfl) (.inl rfl),
      hQ.other _ _ _ (by rw [he]; decide) hq⟩
  refine triple_bind (triple_forM (fun _ => _) (fun i _ => triple_copyMmap hE hF curproc np i) _)
    fun _ => ?_
  refine triple_bind_of_preserves (preserves_getProc _ curproc) hout fun p => ?_
  -- from the store of the parent pointer on, the embryo is a child of `curproc`
  have hK := hE.and (taskStable_parent np (· = some curproc))
  refine triple_bind (?_ : Triple _ _ (fun _ k => (CallerInv Q curproc k ∧
    (k.procs np).state.phase = .embryo) ∧ (k.procs np).parent = some curproc) _) fun _ => ?_
  · refine triple_modify fun s hs => ?_
    obtain ⟨⟨⟨⟨hT, hq⟩, hc⟩, hcur⟩, he⟩ := hs
    have hcn : curproc ≠ np := slot_ne_of_phase (by rw [hc, he]; decide)
    refine ⟨⟨⟨⟨⟨hT.setProc_parent rfl rfl hc, hQ.other _ _ _ (by rw [he]; decide) hq⟩, ?_⟩, hcur⟩,
      ?_⟩, ?_⟩
    · simp only [Kernel.setProc_procs, Function.update_of_ne hcn]
      exact hc
    · simp only [Kernel.setProc_procs, Function.update_self]
      exact he
    · simp only [Kernel.setProc_procs, Function.update_self]
  refine triple_bind_of_preserves (preserves_forM (hK.preserves_copyOfile curproc np) _)
    (fun _ h => hout _ h.1) fun _ => ?_
  refine triple_bind_of_preserves (hK.preserves_copyCwd curproc np) (fun _ h => hout _ h.1)
    fun _ => ?_
  exact triple_pure fun _ h => ⟨h.1.1.1.1, fun _ => ⟨h.1.2, h.2⟩⟩

/-- `fork`'s second critical section: an embryo with a parent becomes runnable. -/
lemma triple_forkFinish (np : Fin NPROC) :
    Triple (fun k => (TreeInv k ∧ Q k) ∧ (k.procs np).state.phase = .embryo ∧
        (k.procs np).parent ≠ none)
      (forkFinish np) (fun _ k => TreeInv k ∧ Q k) fun k => TreeInv k ∧ Q k := by
  unfold forkFinish
  refine triple_bind_of_preserves (preserves_getProc _ np) (fun _ h => h.1) fun q => ?_
  refine triple_bind (triple_modify fun s hs => ?_) fun _ => triple_pure fun _ h => h
  obtain ⟨⟨hT, hq⟩, he, hpar⟩ := hs
  exact ⟨hT.setProc_live rfl rfl hpar, hQ.other _ _ _ (by rw [he]; decide) hq⟩

/-- `fork` from a live process: a new child, or, where no slot, stack or page directory is
left, a tree as before.  The proof follows `fork_eq`, part by part. -/
lemma triple_fork (c : Fin NPROC) :
    Triple (CallerInv Q c) fork (fun _ k => TreeInv k ∧ Q k) fun k => TreeInv k ∧ Q k := by
  rw [fork_eq]
  refine triple_myproc_bind c (fun _ h => h.2) ?_
  refine triple_bind ((triple_allocproc hQ c).mono (fun _ h => h) (fun _ _ h => h)
    fun _ h => h.1.1) fun r => ?_
  rcases r with _ | np
  · exact triple_pure fun _ h => h.1.1.1
  have hstart : ∀ s, (CallerInv Q c s ∧
      ∀ np', some np = some np' → (s.procs np').state.phase = .embryo) →
      CallerInv Q c s ∧ (s.procs np).state.phase = .embryo := fun _ h => ⟨h.1, h.2 np rfl⟩
  refine Triple.mono ?_ hstart (fun _ _ h => h) fun _ h => h
  refine triple_bind (triple_forkCopy hQ c np) fun ok => ?_
  refine triple_ite (fun hok => ?_) fun _ => triple_pure fun _ h => h.1
  have hfinish : ∀ s, ((TreeInv s ∧ Q s) ∧ (ok = true → (s.procs np).state.phase = .embryo ∧
      (s.procs np).parent = some c)) → (TreeInv s ∧ Q s) ∧ (s.procs np).state.phase = .embryo ∧
      (s.procs np).parent ≠ none := by
    rintro s ⟨h, hchild⟩
    obtain ⟨he, hpar⟩ := hchild hok
    refine ⟨h, he, ?_⟩
    rw [hpar]
    exact Option.some_ne_none c
  exact (triple_forkFinish hQ np).mono hfinish (fun _ _ h => h) fun _ h => h

/-- The running process moves to another live state: `yield` and `sleep`. -/
lemma triple_setMyState (c : Fin NPROC) (st : ProcState) (hst : st.phase = .live) :
    Triple (CallerInv Q c) (myproc >>= fun p => modifyProc p fun q => { q with state := st })
      (fun _ k => TreeInv k ∧ Q k) fun k => TreeInv k ∧ Q k :=
  triple_myproc_bind c (fun _ h => h.2) (triple_modify fun _ hs => setState_live hQ hs.1.1 hs.1.2 hst)

lemma triple_yield (c : Fin NPROC) :
    Triple (CallerInv Q c) yield (fun _ k => TreeInv k ∧ Q k) fun k => TreeInv k ∧ Q k :=
  triple_setMyState hQ c .RUNNABLE rfl

/-- Every call but `wait`, made by the live process `c`. -/
lemma triple_run (c : Fin NPROC) (call : Call) (hc : call ≠ .wait) :
    Triple (CallerInv Q c) call.run (fun _ k => TreeInv k ∧ Q k) fun k => TreeInv k ∧ Q k := by
  have hT := hQ.callerInv c
  have hF := hQ.faultStable c hT.toMinorStable fun _ h => h
  have hout : ∀ k, CallerInv Q c k → TreeInv k ∧ Q k := fun _ h => h.1.1
  have hcall : ∀ {α : Type} {x : Prog Kernel α}, Preserves (CallerInv Q c) x →
      Triple (CallerInv Q c) x (fun _ k => TreeInv k ∧ Q k) fun k => TreeInv k ∧ Q k :=
    fun hx => hx.triple.mono (fun _ h => h) (fun _ _ h => hout _ h) hout
  have hcur : ∀ k p, TreeInv k ∧ Q k → TreeInv { k with cur := p } ∧ Q { k with cur := p } :=
    fun k p h => ⟨(ofProcs_treeInv).cur k p h.1, hQ.cur k p h.2⟩
  cases call with
  | mmap addr length prot flags fd offset =>
    exact triple_bind (triple_sysMmap hT hF _ _ _ _ _ _) fun _ => triple_pure hout
  | munmap addr length =>
    exact hcall (preserves_bind (hT.preserves_doMunmap _ _) fun _ => preserves_pure _)
  | fork => exact triple_bind (triple_fork hQ c) fun _ => triple_pure fun _ h => h
  | sbrk n =>
    -- the tree and the zombies' `Q` do not see the size of the caller
    exact hcall (preserves_bind (hT.preserves_sysSbrk (fun _ => True) (fun _ _ _ => trivial)
      (fun _ _ => trivial) (fun _ _ _ _ => trivial)
      (fun _ p sz _ h => callerInv_size hQ h p sz) _) fun _ => preserves_pure _)
  | exit => exact (triple_exitProc hQ c).mono (fun _ h => h) (fun _ _ h => h.elim) fun _ h => h
  | wait => exact absurd rfl hc
  | kill pid => exact hcall (preserves_bind (hT.preserves_kill _) fun _ => preserves_pure _)
  | access va write =>
    exact (hF.triple_userAccess _ _).mono (fun _ h => h) (fun _ _ h => hout _ h) fun _ h => h
  | yield => exact triple_yield hQ c
  | schedule p =>
    exact (((taskStable_treeInv).and hQ.toTaskStable).preserves_schedule hcur p).triple_of hout

end Calls

/-! ## `wait` -/

/-- Reaping a zombie frees its slot and drops its parent pointer. -/
lemma triple_reap (p : Fin NPROC) :
    Triple (fun k => TreeInv k ∧ (k.procs p).state.phase = .zombie) (reap p) (fun _ => TreeInv)
      TreeInv := by
  have hZ := (taskStable_treeInv).and (taskStable_phase p .zombie)
  have hout : ∀ k, TreeInv k ∧ (k.procs p).state.phase = .zombie → TreeInv k := fun _ h => h.1
  unfold reap
  refine triple_bind_of_preserves (preserves_getProc _ p) hout fun q => ?_
  refine triple_bind_of_preserves (hZ.kfree _) hout fun _ => ?_
  refine triple_bind_of_preserves (hZ.preserves_modifyTask p fun _ => ⟨rfl, rfl, rfl, rfl⟩) hout
    fun _ => ?_
  refine triple_bind_of_preserves (preserves_getProc _ p) hout fun q => ?_
  refine triple_bind_of_preserves (hZ.preserves_freevm _) hout fun _ => ?_
  refine triple_bind (triple_modify fun s hs => ?_) fun _ => triple_pure fun _ h => h
  exact hs.1.setProc_dead (by rw [hs.2]; decide) (.inl rfl) (.inr rfl)

lemma preserves_waitPass_treeInv : Preserves TreeInv waitPass := by
  refine Triple.preserves ?_
  unfold waitPass
  refine triple_bind_of_preserves (preserves_myproc _) (fun _ h => h) fun c => ?_
  refine triple_read_bind (fun s => get_apply s) fun k₀ => ?_
  dsimp only
  split
  · rename_i p hp
    -- the pass reaps the first zombie among the caller's children
    have hz : (k₀.procs p).state = .ZOMBIE := by simpa using List.find?_some hp
    have hpre : ∀ s, TreeInv s ∧ s = k₀ → TreeInv s ∧ (s.procs p).state.phase = .zombie := by
      rintro s ⟨hs, rfl⟩
      exact ⟨hs, by rw [hz]; rfl⟩
    exact triple_bind ((triple_reap p).mono hpre (fun _ _ h => h) fun _ h => h) fun _ =>
      triple_pure fun _ h => h
  · exact triple_ite (fun _ => triple_pure fun _ h => h.1) fun _ => triple_pure fun _ h => h.1

/-- Reaping slot `p` returns its pid and leaves it free, with pid `0`, no parent and not
killed; no other slot changes. -/
lemma reap_eq_ok {p : Fin NPROC} {k k' : Kernel} {v : Int32} (h : reap p k = .ok v k') :
    v = (k.procs p).pid ∧ (k'.procs p).state = .UNUSED ∧ (k'.procs p).pid = 0 ∧
      (k'.procs p).parent = none ∧ (k'.procs p).killed = false ∧
      ∀ q, q ≠ p → k'.procs q = k.procs q := by
  unfold reap at h
  rw [bind_of_ok (getProc_apply p k)] at h
  obtain ⟨_, k₁, h₁, h⟩ := Iff.mp bind_eq_ok h
  -- `kfree` and `freevm` leave the process table as it is
  have hk₁ : k₁.procs = k.procs := congrArg Prod.fst ((keeps_kfree_tasks _).ok h₁)
  rw [bind_of_ok (modifyProc_apply _ _ _), bind_of_ok (getProc_apply _ _)] at h
  obtain ⟨_, k₂, h₂, h⟩ := Iff.mp bind_eq_ok h
  have hk₂ : k₂.procs = Function.update k₁.procs p { k₁.procs p with kstack := 0 } :=
    congrArg Prod.fst (((belowProcs_tasks _).preserves_freevm _).ok rfl h₂)
  rw [bind_of_ok (modifyProc_apply _ _ _)] at h
  cases h
  refine ⟨by simp [hk₁], by simp, by simp, by simp, by simp, fun q hq => ?_⟩
  simp [Function.update_of_ne hq, hk₂, hk₁]

/-- A pass of `wait` either reaps a zombie child of its caller, returning that child's pid,
or, where the caller has no zombie child, changes nothing and returns `-1` (no children, or a
killed caller) or `none` (the caller would sleep). -/
theorem waitPass_reaps {k k' : Kernel} {r : Option Int32} (h : waitPass k = .ok r k') :
    (∃ s, (k.procs s).parent = some k.cur ∧ (k.procs s).state = .ZOMBIE ∧
      r = some (k.procs s).pid ∧ (k'.procs s).state = .UNUSED ∧ (k'.procs s).pid = 0 ∧
      (k'.procs s).parent = none ∧ (k'.procs s).killed = false ∧
      ∀ q, q ≠ s → k'.procs q = k.procs q) ∨
    ((r = none ∨ r = some (-1)) ∧ k' = k ∧
      ∀ s, (k.procs s).parent = some k.cur → (k.procs s).state ≠ .ZOMBIE) := by
  unfold waitPass at h
  rw [bind_of_ok (myproc_apply k), bind_of_ok (get_apply k)] at h
  -- the first zombie among the caller's children, if there is one
  generalize hs : List.find? _ _ = o at h
  rcases o with _ | s
  · -- no child of the caller is a zombie
    have hnone : ∀ s, (k.procs s).parent = some k.cur → (k.procs s).state ≠ .ZOMBIE := by
      intro s hpar hz
      have := List.find?_eq_none.mp hs s (List.mem_filter.mpr ⟨List.mem_finRange s, by simpa⟩)
      simp [hz] at this
    dsimp only at h
    rw [run_ite] at h
    split at h <;> cases h
    · exact .inr ⟨.inr rfl, rfl, hnone⟩
    · exact .inr ⟨.inl rfl, rfl, hnone⟩
  · dsimp only at h
    obtain ⟨v, k₁, h₁, h₂⟩ := Iff.mp bind_eq_ok h
    cases h₂
    have hzombie := List.find?_some hs
    have hkid := (List.mem_filter.mp (List.mem_of_find?_eq_some hs)).2
    obtain ⟨hv, hst, hpid, hpar, hkill, hrest⟩ := reap_eq_ok h₁
    exact .inl ⟨s, by simpa using hkid, by simpa using hzombie, by rw [hv], hst, hpid, hpar,
      hkill, hrest⟩

/-! ## Moves of the machine

A move is one critical section under `ptable.lock`, or code that runs without it but whose
stores to the process table no other process races with.  A running process makes a call
(`fork` all at once among them), or one of the parts of `fork` between which other
processes run; it may go to sleep; a CPU's scheduler passes over a slot; a sleeping process
is woken.  The parts of `fork` are guarded by what holds of the slot when the forking
process gets there: an embryo, and, for the second critical section, an embryo whose
parent is the forking process.  Any process may make such a move on any such slot, and so
there are more runs than the kernel has. -/

/-- `sleep(chan, lk)`: the running process sleeps, and enters the scheduler.  The channel,
which only `wakeup1` reads, is left out, and so any sleeper may be woken. -/
def sleep : Prog Kernel Unit := do
  let p ← myproc
  modifyProc p fun q => { q with state := .SLEEPING }

/-- Code that process `p` runs, on whichever CPU runs it: `p` must be `RUNNING`, and it is
`cur` while the code runs; otherwise nothing changes. -/
def onCpu (p : Fin NPROC) (x : Prog Kernel Unit) : Prog Kernel Unit := do
  let k ← get
  if (k.procs p).state = .RUNNING then do
    Prog.modify fun k => { k with cur := p }
    x
  else pure ()

/-- What happens next on the machine. -/
inductive Move where
  | call (p : Fin NPROC) (c : Call)
  | forkBegin (p : Fin NPROC)
  | forkCopy (p np : Fin NPROC)
  | forkFinish (p np : Fin NPROC)
  | sleep (p : Fin NPROC)
  | schedule (p : Fin NPROC)
  | wakeup (p : Fin NPROC)

def Move.run : Move → Prog Kernel Unit
  | .call p c => onCpu p c.run
  | .forkBegin p => onCpu p do
    let _ ← allocproc
    pure ()
  | .forkCopy p np => onCpu p do
    let k ← get
    if (k.procs np).state = .EMBRYO then do
      let _ ← Xv6.forkCopy p np
      pure ()
    else pure ()
  | .forkFinish p np => onCpu p do
    let k ← get
    if (k.procs np).state = .EMBRYO ∧ (k.procs np).parent = some p then do
      let _ ← Xv6.forkFinish np
      pure ()
    else pure ()
  | .sleep p => onCpu p Xv6.sleep
  | .schedule p => Xv6.schedule p
  | .wakeup p => wakeup1 p

/-- Code run by `p` on a CPU keeps what the code keeps when it starts with `p` live in
`cur`. -/
lemma preserves_onCpu {P : Kernel → Prop} (hcur : ∀ k p, P k → P { k with cur := p })
    (p : Fin NPROC) {x : Prog Kernel Unit}
    (hx : Triple (fun k => (P k ∧ (k.procs p).state.phase = .live) ∧ k.cur = p) x
      (fun _ => P) P) :
    Preserves P (onCpu p x) := by
  refine Triple.preserves (triple_read_bind (fun s => get_apply s) fun k₀ =>
    triple_ite (fun hrun => ?_) fun _ => triple_pure fun _ h => h.1)
  refine triple_bind (triple_modify fun s hs => ?_) fun _ => hx
  obtain ⟨hs, rfl⟩ := hs
  refine ⟨⟨hcur _ _ hs, ?_⟩, rfl⟩
  show (s.procs p).state.phase = .live
  rw [hrun]
  rfl

section Moves

variable {Q : Kernel → Prop} (hQ : ZombieStable Q)
include hQ

lemma triple_sleep (c : Fin NPROC) :
    Triple (CallerInv Q c) sleep (fun _ k => TreeInv k ∧ Q k) fun k => TreeInv k ∧ Q k :=
  triple_setMyState hQ c .SLEEPING rfl

/-- `allocproc` run by `p`, whatever it finds. -/
lemma triple_forkBegin (p : Fin NPROC) :
    Triple (CallerInv Q p) (do let _ ← allocproc; pure ()) (fun _ k => TreeInv k ∧ Q k)
      fun k => TreeInv k ∧ Q k :=
  triple_bind ((triple_allocproc hQ p).mono (fun _ h => h) (fun _ _ h => h) fun _ h => h.1.1)
    fun _ => triple_pure fun _ h => h.1.1.1

/-- The unlocked copy run by `p` on an embryo. -/
lemma triple_forkCopyMove (p np : Fin NPROC) :
    Triple (CallerInv Q p)
      (do
        let k ← get
        if (k.procs np).state = .EMBRYO then do
          let _ ← forkCopy p np
          pure ()
        else pure ())
      (fun _ k => TreeInv k ∧ Q k) fun k => TreeInv k ∧ Q k := by
  refine triple_read_bind (fun s => get_apply s) fun k₀ => triple_ite (fun he => ?_) fun _ =>
    triple_pure fun _ h => h.1.1.1
  have hpre : ∀ s, CallerInv Q p s ∧ s = k₀ →
      CallerInv Q p s ∧ (s.procs np).state.phase = .embryo := by
    rintro s ⟨h, rfl⟩
    exact ⟨h, by rw [he]; rfl⟩
  exact triple_bind ((triple_forkCopy hQ p np).mono hpre (fun _ _ h => h) fun _ h => h)
    fun _ => triple_pure fun _ h => h.1

/-- The second critical section run by `p` on an embryo that is its child. -/
lemma triple_forkFinishMove (p np : Fin NPROC) :
    Triple (CallerInv Q p)
      (do
        let k ← get
        if (k.procs np).state = .EMBRYO ∧ (k.procs np).parent = some p then do
          let _ ← forkFinish np
          pure ()
        else pure ())
      (fun _ k => TreeInv k ∧ Q k) fun k => TreeInv k ∧ Q k := by
  refine triple_read_bind (fun s => get_apply s) fun k₀ => triple_ite (fun hc => ?_) fun _ =>
    triple_pure fun _ h => h.1.1.1
  have hpre : ∀ s, CallerInv Q p s ∧ s = k₀ → (TreeInv s ∧ Q s) ∧
      (s.procs np).state.phase = .embryo ∧ (s.procs np).parent ≠ none := by
    rintro s ⟨⟨⟨h, -⟩, -⟩, rfl⟩
    refine ⟨h, by rw [hc.1]; rfl, ?_⟩
    rw [hc.2]
    exact Option.some_ne_none p
  exact triple_bind ((triple_forkFinish hQ np).mono hpre (fun _ _ h => h) fun _ h => h)
    fun _ => triple_pure fun _ h => h

/-- Every move but a call of `wait` keeps the tree and `Q`. -/
theorem preserves_move (m : Move) (hm : ∀ p, m ≠ .call p .wait) :
    Preserves (fun k => TreeInv k ∧ Q k) m.run := by
  have hT := (taskStable_treeInv).and hQ.toTaskStable
  have hcur : ∀ k p, TreeInv k ∧ Q k → TreeInv { k with cur := p } ∧ Q { k with cur := p } :=
    fun k p h => ⟨(ofProcs_treeInv).cur k p h.1, hQ.cur k p h.2⟩
  cases m with
  | call p c => exact preserves_onCpu hcur p (triple_run hQ p c fun hc => hm p (congrArg _ hc))
  | forkBegin p => exact preserves_onCpu hcur p (triple_forkBegin hQ p)
  | forkCopy p np => exact preserves_onCpu hcur p (triple_forkCopyMove hQ p np)
  | forkFinish p np => exact preserves_onCpu hcur p (triple_forkFinishMove hQ p np)
  | sleep p => exact preserves_onCpu hcur p (triple_sleep hQ p)
  | schedule p => exact hT.preserves_schedule hcur p
  | wakeup p => exact hT.preserves_wakeup1 p

end Moves

/-- Every move keeps the tree; a call of `wait` by its own lemma. -/
theorem preserves_move_treeInv (m : Move) : Preserves TreeInv m.run := by
  by_cases hm : ∀ p, m ≠ .call p .wait
  · exact Triple.preserves
      (((preserves_move zombieStable_true m hm).triple_of fun _ h => ⟨h, trivial⟩).mono
        (fun _ h => h) (fun _ _ h => h.1) fun _ h => h.1)
  · simp only [not_forall, not_not] at hm
    obtain ⟨p, rfl⟩ := hm
    exact preserves_onCpu (ofProcs_treeInv).cur p
      ((preserves_bind preserves_waitPass_treeInv fun _ => preserves_pure _).triple_of
        fun _ h => h.1.1)

/-- Every run from a state with the tree keeps it. -/
theorem treeInv_of_reachable {k₀ k : Kernel} (h₀ : TreeInv k₀) (h : Reachable Move.run k₀ k) :
    TreeInv k :=
  h.invariant preserves_move_treeInv h₀

/-- Every move but a call of `wait` keeps each zombie a zombie with its pid. -/
theorem zombie_stays {k k' : Kernel} (hk : TreeInv k) (m : Move) (hm : ∀ p, m ≠ .call p .wait)
    (h : m.run k = .ok () k' ∨ m.run k = .exit k') (s : Fin NPROC)
    (hs : (k.procs s).state = .ZOMBIE) :
    (k'.procs s).state = .ZOMBIE ∧ (k'.procs s).pid = (k.procs s).pid := by
  have hkeep := preserves_move (zombieStable_zombie s (k.procs s).pid) m hm
  have hk₀ : TreeInv k ∧ (k.procs s).state.phase = .zombie ∧ (k.procs s).pid = (k.procs s).pid :=
    ⟨hk, by rw [hs]; rfl, rfl⟩
  obtain ⟨-, hz, hpid⟩ := h.elim (hkeep.ok hk₀) (hkeep.exit hk₀)
  exact ⟨Iff.mp ProcState.phase_eq_zombie hz, hpid⟩

/-! ## Zombies over runs -/

/-- A call of `wait` by `p` that returns or exits: nothing changed, where `p` does not run,
or it ran one pass of `wait`, which never exits. -/
lemma waitMove_eq {p : Fin NPROC} {k k₁ : Kernel}
    (h : (Move.call p .wait).run k = .ok () k₁ ∨ (Move.call p .wait).run k = .exit k₁) :
    k₁ = k ∨ ∃ r, waitPass { k with cur := p } = .ok r k₁ := by
  dsimp only [Move.run, onCpu, Call.run] at h
  rw [bind_of_ok (get_apply k)] at h
  split at h
  · rw [bind_of_ok (modify_apply _ _)] at h
    rcases h with h | h
    · obtain ⟨r, k₂, h₁, h₂⟩ := Iff.mp bind_eq_ok h
      cases h₂
      exact .inr ⟨r, h₁⟩
    · rcases Iff.mp bind_eq_exit h with h₁ | ⟨r, k₂, h₁, h₂⟩
      · exact absurd h₁ ((noExit_waitPass).ne_exit _ _)
      · cases h₂
  · rcases h with h | h <;> cases h
    exact .inl rfl

/-- One move from a state with the tree, for a zombie in slot `s`: it stays a zombie with its
pid, or the move is a call of `wait` by its parent that reaps it, returning its pid. -/
lemma zombie_step {k k₁ : Kernel} (hk : TreeInv k) {m : Move}
    (hm : m.run k = .ok () k₁ ∨ m.run k = .exit k₁) {s : Fin NPROC}
    (hs : (k.procs s).state = .ZOMBIE) :
    ((k₁.procs s).state = .ZOMBIE ∧ (k₁.procs s).pid = (k.procs s).pid) ∨
    ∃ p, m = .call p .wait ∧ (k.procs s).parent = some p ∧
      waitPass { k with cur := p } = .ok (some (k.procs s).pid) k₁ ∧
      (k₁.procs s).state = .UNUSED ∧ (k₁.procs s).pid = 0 ∧ (k₁.procs s).parent = none ∧
      (k₁.procs s).killed = false := by
  by_cases hw : ∀ p, m ≠ .call p .wait
  · exact .inl (zombie_stays hk m hw hm s hs)
  simp only [not_forall, not_not] at hw
  obtain ⟨p, rfl⟩ := hw
  rcases waitMove_eq hm with rfl | ⟨r, hr⟩
  · exact .inl ⟨hs, rfl⟩
  -- the pass reaps one zombie child of `p`, which is `s` or leaves `s` as it was
  rcases waitPass_reaps hr with ⟨s', hpar, -, rfl, hst, hpid, hpar', hkill, hrest⟩ | ⟨-, rfl, -⟩
  · by_cases hss : s = s'
    · subst hss
      exact .inr ⟨p, rfl, hpar, hr, hst, hpid, hpar', hkill⟩
    · rw [hrest s hss]
      exact .inl ⟨hs, rfl⟩
  · exact .inl ⟨hs, rfl⟩

/-- Over every run from a state with the tree, a zombie stays one, with its pid, until the
first move that ends it: a call of `wait` by its parent, whose pass returns the zombie's pid
and leaves the slot free, with pid `0`, no parent and not killed.  So an exited child is
reaped once, by its parent, which gets its pid then.  The induction is on the run, from its
first move. -/
theorem zombie_reaped_once {k k' : Kernel} {ms : List Move} (h : Trace Move.run k ms k')
    (hk : TreeInv k) {s : Fin NPROC} (hs : (k.procs s).state = .ZOMBIE) :
    ((k'.procs s).state = .ZOMBIE ∧ (k'.procs s).pid = (k.procs s).pid) ∨
    ∃ ms₁ p ms₂ k₁ k₂, ms = ms₁ ++ Move.call p .wait :: ms₂ ∧ Trace Move.run k ms₁ k₁ ∧
      (k₁.procs s).state = .ZOMBIE ∧ (k₁.procs s).pid = (k.procs s).pid ∧
      (k₁.procs s).parent = some p ∧
      waitPass { k₁ with cur := p } = .ok (some (k.procs s).pid) k₂ ∧
      (k₂.procs s).state = .UNUSED ∧ (k₂.procs s).pid = 0 ∧ (k₂.procs s).parent = none ∧
      (k₂.procs s).killed = false ∧ Trace Move.run k₂ ms₂ k' := by
  induction h with
  | nil => exact .inl ⟨hs, rfl⟩
  | @cons k k₁ k' m ms hm hrest ih =>
    have hk₁ : TreeInv k₁ :=
      hm.elim ((preserves_move_treeInv m).ok hk) ((preserves_move_treeInv m).exit hk)
    rcases zombie_step hk hm hs with ⟨hz, hpid⟩ | ⟨p, rfl, hpar, hwait, hst, hpid0, hpar0, hkill⟩
    · -- the first move keeps the zombie: the rest of the run decides
      rcases ih hk₁ hz with ⟨hz', hpid'⟩ | ⟨ms₁, p, ms₂, k₂, k₃, rfl, htr, hz₂, hpid₂, hmore⟩
      · exact .inl ⟨hz', hpid'.trans hpid⟩
      · rw [hpid] at hpid₂ hmore
        exact .inr ⟨m :: ms₁, p, ms₂, k₂, k₃, rfl, .cons hm htr, hz₂, hpid₂, hmore⟩
    · exact .inr ⟨[], p, ms, k, k₁, rfl, .nil k, hs, rfl, hpar, hwait, hst, hpid0, hpar0, hkill,
        hrest⟩

/-! ## The tree over runs -/

/-- In every state that a run reaches from a state with the tree: a process other than `init`
that is runnable, running, sleeping or a zombie has a parent that is neither free nor an
embryo; no process is a zombie's child; a pass of `wait` by any process either reaps a zombie
child of it, returning the child's pid and leaving the slot free with pid `0`, no parent and
not killed, or, where it has no zombie child, changes nothing; and over every run on from
there, a zombie stays one with its pid until the first move that ends it, a `wait` of its
parent that reaps it, returns its pid and frees its slot. -/
theorem processTree_of_reachable {k₀ k : Kernel} (h₀ : TreeInv k₀)
    (hk : Reachable Move.run k₀ k) :
    (∀ p, p ≠ k.initproc →
      ((k.procs p).state = .RUNNABLE ∨ (k.procs p).state = .RUNNING ∨
        (k.procs p).state = .SLEEPING ∨ (k.procs p).state = .ZOMBIE) →
      ∃ q, (k.procs p).parent = some q ∧ (k.procs q).state ≠ .UNUSED ∧
        (k.procs q).state ≠ .EMBRYO) ∧
    (∀ p q, (k.procs p).state ≠ .UNUSED → (k.procs p).parent = some q →
      (k.procs q).state ≠ .ZOMBIE) ∧
    (∀ p r k', waitPass { k with cur := p } = .ok r k' →
      (∃ s, (k.procs s).parent = some p ∧ (k.procs s).state = .ZOMBIE ∧
        r = some (k.procs s).pid ∧ (k'.procs s).state = .UNUSED ∧ (k'.procs s).pid = 0 ∧
        (k'.procs s).parent = none ∧ (k'.procs s).killed = false ∧
        ∀ q, q ≠ s → k'.procs q = k.procs q) ∨
      ((r = none ∨ r = some (-1)) ∧ k' = { k with cur := p } ∧
        ∀ s, (k.procs s).parent = some p → (k.procs s).state ≠ .ZOMBIE)) ∧
    (∀ ms k' s, Trace Move.run k ms k' → (k.procs s).state = .ZOMBIE →
      ((k'.procs s).state = .ZOMBIE ∧ (k'.procs s).pid = (k.procs s).pid) ∨
      ∃ ms₁ p ms₂ k₁ k₂, ms = ms₁ ++ Move.call p .wait :: ms₂ ∧ Trace Move.run k ms₁ k₁ ∧
        (k₁.procs s).state = .ZOMBIE ∧ (k₁.procs s).pid = (k.procs s).pid ∧
        (k₁.procs s).parent = some p ∧
        waitPass { k₁ with cur := p } = .ok (some (k.procs s).pid) k₂ ∧
        (k₂.procs s).state = .UNUSED ∧ (k₂.procs s).pid = 0 ∧ (k₂.procs s).parent = none ∧
        (k₂.procs s).killed = false ∧ Trace Move.run k₂ ms₂ k') := by
  have hT := treeInv_of_reachable h₀ hk
  refine ⟨fun p hp hst => hT.exists_parent hp ?_, fun p q _ hpq => ?_,
    fun p r k' h => waitPass_reaps h, fun ms k' s htr hs => zombie_reaped_once htr hT hs⟩
  · rcases hst with hst | hst | hst | hst <;> rw [hst] <;> decide
  · exact (ProcState.ne_of_phase_live (hT.parent_live p q hpq)).2.2

/-- The child of the process of `execKernel` after a `fork`: pid `4`, runnable, with no open
file, the parent's working directory and an empty address space of its own. -/
def childProc : Proc :=
  { execProc with
    sz := 0, pgdir := 0x80600000, kstack := 0x80601000, state := .RUNNABLE, pid := 4,
    parent := some 0, ofile := fun _ => none }

/-- `execKernel` after a `fork` of its process, with two pages left free. -/
def forkedKernel : Kernel :=
  { execKernel with
    procs := fun p => if p.val = 2 then childProc else execKernel.procs p
    freelist := [0x80500000, 0x80501000]
    nextpid := 5
    fs := { execFs with icache := fun i => if i.val = 2 then execSlot 1 3 else execFs.icache i } }

/-- After a second `fork` by the parent, which runs out of pages and fails, the child is
scheduled. -/
def scheduledKernel : Kernel :=
  let k := ((Move.call 0 .fork).run forkedKernel).stateD forkedKernel
  ((Move.schedule 2).run k).stateD k

/-- The child has exited. -/
def exitedKernel : Kernel :=
  ((Move.call 2 .exit).run scheduledKernel).exitD scheduledKernel

/-- A run of `fork`, a scheduler's pass and `exit` from `forkedKernel` leaves the child a
zombie, which the parent's `wait` then reaps, returning the child's pid `4`. -/
theorem processTree_of_reachable_forkExit :
    TreeInv forkedKernel ∧ Reachable Move.run forkedKernel exitedKernel ∧
    (exitedKernel.procs 2).state = .ZOMBIE ∧
    (waitPass { exitedKernel with cur := 0 }).returned (some 4) = true ∧
    (∀ p, p ≠ exitedKernel.initproc →
      ((exitedKernel.procs p).state = .RUNNABLE ∨ (exitedKernel.procs p).state = .RUNNING ∨
        (exitedKernel.procs p).state = .SLEEPING ∨ (exitedKernel.procs p).state = .ZOMBIE) →
      ∃ q, (exitedKernel.procs p).parent = some q ∧ (exitedKernel.procs q).state ≠ .UNUSED ∧
        (exitedKernel.procs q).state ≠ .EMBRYO) ∧
    (∀ p q, (exitedKernel.procs p).state ≠ .UNUSED → (exitedKernel.procs p).parent = some q →
      (exitedKernel.procs q).state ≠ .ZOMBIE) ∧
    (∀ p r k', waitPass { exitedKernel with cur := p } = .ok r k' →
      (∃ s, (exitedKernel.procs s).parent = some p ∧ (exitedKernel.procs s).state = .ZOMBIE ∧
        r = some (exitedKernel.procs s).pid ∧ (k'.procs s).state = .UNUSED ∧
        (k'.procs s).pid = 0 ∧ (k'.procs s).parent = none ∧ (k'.procs s).killed = false ∧
        ∀ q, q ≠ s → k'.procs q = exitedKernel.procs q) ∨
      ((r = none ∨ r = some (-1)) ∧ k' = { exitedKernel with cur := p } ∧
        ∀ s, (exitedKernel.procs s).parent = some p → (exitedKernel.procs s).state ≠ .ZOMBIE)) ∧
    (∀ ms k' s, Trace Move.run exitedKernel ms k' → (exitedKernel.procs s).state = .ZOMBIE →
      ((k'.procs s).state = .ZOMBIE ∧ (k'.procs s).pid = (exitedKernel.procs s).pid) ∨
      ∃ ms₁ p ms₂ k₁ k₂, ms = ms₁ ++ Move.call p .wait :: ms₂ ∧
        Trace Move.run exitedKernel ms₁ k₁ ∧
        (k₁.procs s).state = .ZOMBIE ∧ (k₁.procs s).pid = (exitedKernel.procs s).pid ∧
        (k₁.procs s).parent = some p ∧
        waitPass { k₁ with cur := p } = .ok (some (exitedKernel.procs s).pid) k₂ ∧
        (k₂.procs s).state = .UNUSED ∧ (k₂.procs s).pid = 0 ∧ (k₂.procs s).parent = none ∧
        (k₂.procs s).killed = false ∧ Trace Move.run k₂ ms₂ k') := by
  have h₀ : TreeInv forkedKernel := by decide
  -- the three moves, and the zombie and its reaping at the end, evaluated in one kernel run
  obtain ⟨hforked, hscheduled, hexited, hzombie, hreaped⟩ :
      ((Move.call 0 .fork).run forkedKernel).returned () = true ∧
      ((Move.schedule 2).run
        (((Move.call 0 .fork).run forkedKernel).stateD forkedKernel)).returned () = true ∧
      ((Move.call 2 .exit).run scheduledKernel).exited = true ∧
      (exitedKernel.procs 2).state = .ZOMBIE ∧
      (waitPass { exitedKernel with cur := 0 }).returned (some 4) = true := by
    decide +kernel
  have hfork := Result.eq_ok_of_returned forkedKernel hforked
  have hsched := Result.eq_ok_of_returned
    (((Move.call 0 .fork).run forkedKernel).stateD forkedKernel) hscheduled
  have hexit := Result.eq_exit_of_exited scheduledKernel hexited
  have hk : Reachable Move.run forkedKernel exitedKernel :=
    ((Relation.ReflTransGen.refl.tail ⟨_, .inl hfork⟩).tail ⟨_, .inl hsched⟩).tail ⟨_, .inr hexit⟩
  exact ⟨h₀, hk, hzombie, hreaped, processTree_of_reachable h₀ hk⟩

end Xv6
