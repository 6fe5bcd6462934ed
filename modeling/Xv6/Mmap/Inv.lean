import Xv6.Kernel.Vm

/-!
# The invariant of the mapping tables

Of the well-formedness of a table, this much every call keeps: an active entry starts on a
page boundary and its length is a whole number of pages (zero pages included, which
`doMmap_zero_length` stores).  Together with the free list's `FreeOk` it is the invariant
of whole runs (`mmapInv_of_reachable`).  The file states it and proves that every change
that leaves the tables alone keeps it (`stable_mmapInv`); the calls that write a table have
their own lemmas beside them.
-/

namespace Xv6

open Prog

/-- An entry whose `va`, read as an address, and whose `length` are multiples of the page
size. -/
def Mmap.Aligned (e : Mmap) : Prop :=
  e.va.toNat % 4096 = 0 ∧ e.length.toBitVec.toNat % 4096 = 0

instance (e : Mmap) : Decidable e.Aligned := inferInstanceAs (Decidable (_ ∧ _))

/-- Every active entry of the process's table is page-aligned. -/
def Proc.MmapsAligned (p : Proc) : Prop :=
  ∀ i, (p.mmaps i).va ≠ 0 → (p.mmaps i).Aligned

/-- The invariant of the kernel state: the free list's, and every process's table aligned. -/
structure MmapInv (k : Kernel) : Prop where
  freeOk : FreeOk k
  aligned : ∀ p, (k.procs p).MmapsAligned

-- the searches over slots are over `Fin`, never over the values of a machine word
instance (p : Proc) : Decidable p.MmapsAligned := Nat.decidableForallFin _

instance (k : Kernel) : Decidable (MmapInv k) :=
  haveI : Decidable (∀ p, (k.procs p).MmapsAligned) := Nat.decidableForallFin _
  decidable_of_iff (FreeOk k ∧ ∀ p, (k.procs p).MmapsAligned)
    ⟨fun h => ⟨h.1, h.2⟩, fun h => ⟨h.freeOk, h.aligned⟩⟩

lemma Proc.MmapsAligned.setMmap {p : Proc} (hp : p.MmapsAligned) (i : Fin MAX_MMAPS)
    {e : Mmap} (he : e.va ≠ 0 → e.Aligned) : (p.setMmap i e).MmapsAligned := by
  intro j hj
  by_cases hji : j = i
  · subst hji
    simp only [Proc.setMmap_mmaps, Function.update_self] at hj ⊢
    exact he hj
  · simp only [Proc.setMmap_mmaps, Function.update_of_ne hji] at hj ⊢
    exact hp j hj

lemma MmapInv.setProc {k : Kernel} (h : MmapInv k) (p : Fin NPROC) {q : Proc}
    (hq : q.MmapsAligned) : MmapInv (k.setProc p q) := by
  refine ⟨h.freeOk, fun p' => ?_⟩
  by_cases hp : p' = p
  · subst hp
    simpa using hq
  · simpa [Function.update_of_ne hp] using h.aligned p'

/-- A program that keeps the free list's invariant and leaves the process table alone keeps
the invariant. -/
lemma preserves_mmapInv {α : Type} {x : Prog Kernel α} (hfree : Preserves FreeOk x)
    (htasks : Keeps Kernel.tasks x) : Preserves MmapInv x := by
  have haligned : Preserves (fun k => ∀ p, (k.procs p).MmapsAligned) x :=
    htasks.preserves fun t => ∀ p, (t.1 p).MmapsAligned
  intro k h
  refine ⟨fun a k' hx => ⟨hfree.ok h.freeOk hx, haligned.ok h.aligned hx⟩,
    fun k' hx => ⟨hfree.exit h.freeOk hx, haligned.exit h.aligned hx⟩⟩

/-- What leaves the tables alone keeps the invariant. -/
lemma stable_mmapInv : Stable MmapInv where
  writeWord _ _ _ _ h := ⟨h.freeOk, h.aligned⟩
  fillPage _ _ _ h := ⟨h.freeOk, h.aligned⟩
  copyPage _ _ _ h := ⟨h.freeOk, h.aligned⟩
  kalloc := preserves_mmapInv preserves_kalloc keeps_kalloc_tasks
  kfree v := preserves_mmapInv (preserves_kfree v) (keeps_kfree_tasks v)
  setFile _ _ _ h := ⟨h.freeOk, h.aligned⟩
  setFs _ _ h := ⟨h.freeOk, h.aligned⟩
  minor _ p _ hq h := h.setProc p fun i => by rw [hq.1]; exact h.aligned p i
  setProc _ p _ hq _ h := h.setProc p fun i => by rw [hq]; exact h.aligned p i
  nextpid _ _ h := ⟨h.freeOk, h.aligned⟩

lemma MmapInv.cur {k : Kernel} (h : MmapInv k) (p : Fin NPROC) : MmapInv { k with cur := p } :=
  ⟨h.freeOk, h.aligned⟩

end Xv6
