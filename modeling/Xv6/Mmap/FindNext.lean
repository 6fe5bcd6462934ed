import Xv6.Kernel.Trap

/-!
# `find_next_mmap`: the search for a free range (proc.c)

`find_next_mmap(mmaps, req_pages, growsup_flag)` sorts the active entries of a mapping
table into an array of pointers `sorted` and then looks at the gap after each of them.
Three things about the code decide what it computes, and the model keeps all three.

* `sorted` starts as an array of null pointers and the first loop stores through them:
  `sorted[a]->va = 0` writes `0` at user address `0` of the current address space.  The
  store succeeds where that page is mapped writable (the text page of an xv6 process, whose
  first word of code it overwrites) and otherwise faults in the kernel (`kernelStore`).
  Every later read of `->va` through a null pointer therefore reads `0`.
* `sorted[i]` is filled only for the slots `i` that are active, so the array has holes
  wherever the table has; a hole reads as `va == 0` and ends the scan of the gap before it.
* With `growsup_flag` set, the first slot either returns or calls `handle_page_fault`.

The main results are

* `findNextMmap_ok`: a search that returns ends in the state its null stores left, and
  `findNextMmap_second_slot_empty` computes that state where the stored page is apart from
  the page tables;
* `findNextMmap_aligned`: over a table whose active entries are page-aligned, every address
  the search returns is page-aligned;
* `FaultStable.triple_findNextMmap`: the search keeps every property of the state that the
  fault path keeps.
-/

namespace Xv6

open Prog

/-- `e->va` through an entry pointer of `find_next_mmap`; through the null pointer it
reads user address `0`, where the first loop has stored `0`. -/
def vaOf (mmaps : Fin MAX_MMAPS → Mmap) : Option (Fin MAX_MMAPS) → UInt32
  | some m => (mmaps m).va
  | none => 0

/-- The inner loop of the sort: the active slot with the least `va`, compared unsigned,
among those whose `va` exceeds `prev` as an `int`; later slots win only by a strictly
smaller `va`. -/
def minAbove (mmaps : Fin MAX_MMAPS → Mmap) (prev : UInt32) : Option (Fin MAX_MMAPS) :=
  (List.finRange MAX_MMAPS).foldl (fun min j =>
    if (mmaps j).va = 0 then min
    else if (min.isNone || decide ((mmaps j).va < vaOf mmaps min)) &&
        decide ((mmaps j).va.toInt32 > prev.toInt32) then some j
    else min) none

/-- The second loop of `find_next_mmap`: for each active slot `i` in turn, `sorted[i]` is
the entry after `prev` and `prev.va` moves to its `va`, or to `0` (a null read) when there
is none.  Inactive slots keep their null pointer. -/
def sortMmaps (mmaps : Fin MAX_MMAPS → Mmap) : Fin MAX_MMAPS → Option (Fin MAX_MMAPS) :=
  ((List.finRange MAX_MMAPS).foldl
    (fun (acc : (Fin MAX_MMAPS → Option (Fin MAX_MMAPS)) × UInt32) i =>
      if (mmaps i).va = 0 then acc
      else
        let min := minAbove mmaps acc.2
        (Function.update acc.1 i min, vaOf mmaps min))
    (fun _ => none, (MMAPVIRTBASE - 1).toUInt32)).1

/-- `thisSlotStart`: `MMAPVIRTBASE` after a pointer whose `va` reads `0`, else the end
`va + length` of the entry, with the pointer arithmetic's wrap-around. -/
def slotStart (mmaps : Fin MAX_MMAPS → Mmap) : Option (Fin MAX_MMAPS) → UInt32
  | some m =>
    if (mmaps m).va = 0 then MMAPVIRTBASE.toUInt32 else (mmaps m).va + (mmaps m).length.toUInt32
  | none => MMAPVIRTBASE.toUInt32

/-- `thisSlotEnd`: the `va` of `sorted[j+1]` unless `j` is the last index or that `va`
reads `0`; then `KERNBASE`. -/
def slotEnd (mmaps : Fin MAX_MMAPS → Mmap) (sorted : Fin MAX_MMAPS → Option (Fin MAX_MMAPS))
    (j : Fin MAX_MMAPS) : UInt32 :=
  if h : j.val < MAX_MMAPS - 1 then
    let next := sorted ⟨j.val + 1, by omega⟩
    if vaOf mmaps next ≠ 0 then vaOf mmaps next else KERNBASE
  else KERNBASE

/-- One pass of the last loop of `find_next_mmap`: `some` of the address it returns, or
`none` to go on to the next slot.  The sizes are unsigned; `req_pages * PGSIZE` is an
`int` converted for the comparison. -/
def slotCandidate (mmaps : Fin MAX_MMAPS → Mmap)
    (sorted : Fin MAX_MMAPS → Option (Fin MAX_MMAPS)) (reqPages growsupFlag : Int32)
    (j : Fin MAX_MMAPS) : Prog Kernel (Option Int32) :=
  let thisSlotStart := slotStart mmaps (sorted j)
  let thisSlotEnd := slotEnd mmaps sorted j
  let spaceInSlot := thisSlotEnd - thisSlotStart
  if growsupFlag ≠ 0 then
    if spaceInSlot ≥ PGSIZE ∧ thisSlotEnd - (thisSlotStart + PGSIZE) ≥ PGSIZE then
      pure (some thisSlotStart.toInt32)
    else do
      handlePageFault
      pure none
  else if spaceInSlot ≥ (reqPages * PGSIZE).toUInt32 then pure (some thisSlotStart.toInt32)
  else pure none

/-- `find_next_mmap(mmaps, req_pages, growsup_flag)`. -/
def findNextMmap (mmaps : Fin MAX_MMAPS → Mmap) (reqPages growsupFlag : Int32) :
    Prog Kernel Int32 := do
  forM (List.finRange MAX_MMAPS) fun _ => kernelStore 0 0
  let sorted := sortMmaps mmaps
  match ← (List.finRange MAX_MMAPS).findSomeM? (slotCandidate mmaps sorted reqPages growsupFlag)
  with
  | some r => pure r
  | none => pure (-1)

/-! ## What a search returns -/

lemma slotCandidate_ok {mmaps : Fin MAX_MMAPS → Mmap}
    {sorted : Fin MAX_MMAPS → Option (Fin MAX_MMAPS)} {reqPages growsupFlag : Int32}
    {j : Fin MAX_MMAPS} {r : Option Int32} {k k' : Kernel}
    (h : slotCandidate mmaps sorted reqPages growsupFlag j k = .ok r k') :
    k' = k ∧ ∀ a, r = some a → a = (slotStart mmaps (sorted j)).toInt32 := by
  unfold slotCandidate at h
  split at h
  · split at h
    · cases h
      exact ⟨rfl, fun a ha => (Option.some.inj ha).symm⟩
    · rw [bind_eq_ok] at h
      obtain ⟨⟨⟩, k₁, h₁, h₂⟩ := h
      cases h₂
      exact ⟨handlePageFault_ok h₁, fun a ha => by cases ha⟩
  · split at h
    · cases h
      exact ⟨rfl, fun a ha => (Option.some.inj ha).symm⟩
    · cases h
      exact ⟨rfl, fun a ha => by cases ha⟩

/-- The search loop returns in the state it started from. -/
lemma findSomeM_slotCandidate_ok {mmaps : Fin MAX_MMAPS → Mmap}
    {sorted : Fin MAX_MMAPS → Option (Fin MAX_MMAPS)} {reqPages growsupFlag : Int32} :
    ∀ {l : List (Fin MAX_MMAPS)} {r : Option Int32} {k k' : Kernel},
      l.findSomeM? (slotCandidate mmaps sorted reqPages growsupFlag) k = .ok r k' → k' = k
  | [], _, _, _, h => by cases h; rfl
  | j :: l, r, k, k', h => by
    rw [List.findSomeM?_cons, bind_eq_ok] at h
    obtain ⟨r₁, k₁, h₁, h₂⟩ := h
    obtain ⟨rfl, -⟩ := slotCandidate_ok h₁
    cases r₁ with
    | some b => cases h₂; rfl
    | none => exact findSomeM_slotCandidate_ok h₂

/-- A search that returns ends in the state its null stores left, and returns `-1` or the
start of the gap after some slot of `sorted`. -/
theorem findNextMmap_ok {mmaps : Fin MAX_MMAPS → Mmap} {reqPages growsupFlag r : Int32}
    {k k' : Kernel} (h : findNextMmap mmaps reqPages growsupFlag k = .ok r k') :
    forM (List.finRange MAX_MMAPS) (fun _ => kernelStore 0 0) k = .ok () k' ∧
      (r = -1 ∨ ∃ j, r = (slotStart mmaps (sortMmaps mmaps j)).toInt32) := by
  unfold findNextMmap at h
  rw [bind_eq_ok] at h
  obtain ⟨⟨⟩, k₁, h₁, h₂⟩ := h
  rw [bind_eq_ok] at h₂
  obtain ⟨r₁, k₂, h₂, h₃⟩ := h₂
  obtain rfl := findSomeM_slotCandidate_ok h₂
  cases r₁ with
  | some a =>
    cases h₃
    obtain ⟨j, -, k₃, hj⟩ := findSomeM_eq_ok_some h₂
    exact ⟨h₁, Or.inr ⟨j, (slotCandidate_ok hj).2 r rfl⟩⟩
  | none =>
    cases h₃
    exact ⟨h₁, Or.inl rfl⟩

lemma MMAPVIRTBASE_aligned : MMAPVIRTBASE.toUInt32.toNat % 4096 = 0 := by decide

/-- The end of a page-aligned entry is page-aligned, whatever the wrap-around. -/
lemma slotStart_aligned {mmaps : Fin MAX_MMAPS → Mmap}
    (hal : ∀ i, (mmaps i).va ≠ 0 → (mmaps i).Aligned) (s : Option (Fin MAX_MMAPS)) :
    (slotStart mmaps s).toNat % 4096 = 0 := by
  cases s with
  | none => exact MMAPVIRTBASE_aligned
  | some m =>
    simp only [slotStart]
    split
    · exact MMAPVIRTBASE_aligned
    · rename_i hva
      obtain ⟨hv, hl⟩ := hal m hva
      have hlen : (mmaps m).length.toUInt32.toNat = (mmaps m).length.toBitVec.toNat := rfl
      rw [UInt32.toNat_add, hlen]
      omega

/-- Over a table whose active entries are page-aligned, the address a search returns is
`-1` or page-aligned. -/
theorem findNextMmap_aligned {mmaps : Fin MAX_MMAPS → Mmap} {reqPages growsupFlag r : Int32}
    {k k' : Kernel} (hal : ∀ i, (mmaps i).va ≠ 0 → (mmaps i).Aligned)
    (h : findNextMmap mmaps reqPages growsupFlag k = .ok r k') :
    r = -1 ∨ r.toBitVec.toNat % 4096 = 0 := by
  rcases (findNextMmap_ok h).2 with hr | ⟨j, rfl⟩
  · exact Or.inl hr
  · exact Or.inr (slotStart_aligned hal _)

/-! ## What the search is for

A table is well formed when every active entry is page-aligned, lies inside the mapping
area `[MMAPVIRTBASE, KERNBASE)` and meets no other active entry.  A run of `n` pages at
`s` is free when it starts on a page boundary, lies inside the area and meets no active
entry.  With `growsup_flag == 0` the search is meant to return a free run of `req_pages`
pages, and `-1` only when there is none.

The holes of `sorted` get in the way: an inactive slot keeps its null pointer
(`sortMmaps_inactive`), and a null successor ends the gap at `KERNBASE`.  So with slot `1`
inactive the first gap looked at is the one after `sorted[0]`, up to `KERNBASE`, whatever
the later slots hold (`findNextMmap_second_slot_empty`). -/

/-- The end `va + length` of an entry, as a number. -/
def Mmap.top (e : Mmap) : ℕ := e.va.toNat + e.length.toBitVec.toNat

/-- The entry lies inside the mapping area. -/
def Mmap.InArea (e : Mmap) : Prop :=
  MMAPVIRTBASE.toUInt32.toNat ≤ e.va.toNat ∧ e.top ≤ KERNBASE.toNat

instance (e : Mmap) : Decidable e.InArea := inferInstanceAs (Decidable (_ ∧ _))

/-- `[lo, hi)` meets no active entry of the table. -/
def Avoids (mmaps : Fin MAX_MMAPS → Mmap) (lo hi : ℕ) : Prop :=
  ∀ i, (mmaps i).va ≠ 0 → hi ≤ (mmaps i).va.toNat ∨ (mmaps i).top ≤ lo

instance (mmaps : Fin MAX_MMAPS → Mmap) (lo hi : ℕ) : Decidable (Avoids mmaps lo hi) :=
  Nat.decidableForallFin _

/-- A mapping table whose active entries are aligned, inside the area and pairwise
disjoint. -/
structure MmapsWellFormed (mmaps : Fin MAX_MMAPS → Mmap) : Prop where
  aligned : ∀ i, (mmaps i).va ≠ 0 → (mmaps i).Aligned
  inArea : ∀ i, (mmaps i).va ≠ 0 → (mmaps i).InArea
  disjoint : ∀ i j, i ≠ j → (mmaps i).va ≠ 0 → (mmaps j).va ≠ 0 →
    (mmaps i).top ≤ (mmaps j).va.toNat ∨ (mmaps j).top ≤ (mmaps i).va.toNat

instance (mmaps : Fin MAX_MMAPS → Mmap) : Decidable (MmapsWellFormed mmaps) :=
  haveI : ∀ i, Decidable (∀ j, i ≠ j → (mmaps i).va ≠ 0 → (mmaps j).va ≠ 0 →
      (mmaps i).top ≤ (mmaps j).va.toNat ∨ (mmaps j).top ≤ (mmaps i).va.toNat) :=
    fun _ => Nat.decidableForallFin _
  haveI := Nat.decidableForallFin fun i => (mmaps i).va ≠ 0 → (mmaps i).Aligned
  haveI := Nat.decidableForallFin fun i => (mmaps i).va ≠ 0 → (mmaps i).InArea
  decidable_of_iff ((∀ i, (mmaps i).va ≠ 0 → (mmaps i).Aligned) ∧
      (∀ i, (mmaps i).va ≠ 0 → (mmaps i).InArea) ∧
      ∀ i j, i ≠ j → (mmaps i).va ≠ 0 → (mmaps j).va ≠ 0 →
        (mmaps i).top ≤ (mmaps j).va.toNat ∨ (mmaps j).top ≤ (mmaps i).va.toNat)
    ⟨fun ⟨h₁, h₂, h₃⟩ => ⟨h₁, h₂, h₃⟩, fun h => ⟨h.aligned, h.inArea, h.disjoint⟩⟩

/-- `n` pages at `s` are free. -/
def FreeRun (mmaps : Fin MAX_MMAPS → Mmap) (s n : ℕ) : Prop :=
  s % 4096 = 0 ∧ MMAPVIRTBASE.toUInt32.toNat ≤ s ∧ s + n * 4096 ≤ KERNBASE.toNat ∧
    Avoids mmaps s (s + n * 4096)

instance (mmaps : Fin MAX_MMAPS → Mmap) (s n : ℕ) : Decidable (FreeRun mmaps s n) :=
  inferInstanceAs (Decidable (_ ∧ _))

/-- An inactive slot keeps its null pointer in `sorted`. -/
lemma sortMmaps_inactive {mmaps : Fin MAX_MMAPS → Mmap} {i : Fin MAX_MMAPS}
    (hi : (mmaps i).va = 0) : sortMmaps mmaps i = none := by
  -- the pass at slot `j` writes `sorted[j]` only, and only for an active `j`
  suffices h : ∀ (l : List (Fin MAX_MMAPS))
      (acc : (Fin MAX_MMAPS → Option (Fin MAX_MMAPS)) × UInt32), acc.1 i = none →
      (l.foldl (fun acc j => if (mmaps j).va = 0 then acc
        else (Function.update acc.1 j (minAbove mmaps acc.2),
          vaOf mmaps (minAbove mmaps acc.2))) acc).1 i = none from
    h _ _ rfl
  intro l
  induction l with
  | nil => exact fun _ h => h
  | cons j l ih =>
    intro acc hacc
    rw [List.foldl_cons]
    apply ih
    split
    · exact hacc
    · rename_i hj
      have hij : i ≠ j := fun h => hj (h ▸ hi)
      exact (Function.update_of_ne hij _ _).trans hacc

/-- With slot `1` inactive, the gap after `sorted[0]` runs to `KERNBASE` whatever the
later slots hold: a request that fits below `KERNBASE` gets the end of `sorted[0]`, after
the null stores have written `0` at user address `0`. -/
theorem findNextMmap_second_slot_empty {mmaps : Fin MAX_MMAPS → Mmap} {reqPages : Int32}
    {k : Kernel} (hstore : mmuAllows k 0 (PTE_P ||| PTE_W) = true)
    (hapart : storeApart k 0 = true) (h1 : (mmaps 1).va = 0)
    (hfit : (reqPages * PGSIZE).toUInt32 ≤ KERNBASE - slotStart mmaps (sortMmaps mmaps 0)) :
    findNextMmap mmaps reqPages 0 k =
      .ok (slotStart mmaps (sortMmaps mmaps 0)).toInt32 (k.storeUser 0 0) := by
  have hend : slotEnd mmaps (sortMmaps mmaps) 0 = KERNBASE := by
    have hnull : sortMmaps mmaps ⟨0 + 1, by decide⟩ = none := sortMmaps_inactive h1
    simp only [slotEnd]
    rw [dif_pos (by decide)]
    simp [hnull, vaOf]
  have hcand : ∀ s, slotCandidate mmaps (sortMmaps mmaps) reqPages 0 0 s =
      .ok (some (slotStart mmaps (sortMmaps mmaps 0)).toInt32) s := by
    intro s
    unfold slotCandidate
    simp only [hend]
    rw [if_neg (by decide), if_pos hfit]
    rfl
  -- the thirty-two null stores write one word, once
  have hstores : forM (List.finRange MAX_MMAPS) (fun _ => kernelStore 0 0) k =
      .ok () (k.storeUser 0 0) := by
    rw [forM_kernelStore hapart (by decide), kernelStore_eq, if_pos hstore]
  -- the first pass of the search, at `j = 0`, returns
  have hsearch : (List.finRange MAX_MMAPS).findSomeM? (slotCandidate mmaps (sortMmaps mmaps)
      reqPages 0) (k.storeUser 0 0) =
      .ok (some (slotStart mmaps (sortMmaps mmaps 0)).toInt32) (k.storeUser 0 0) := by
    rw [show List.finRange MAX_MMAPS = 0 :: (List.finRange MAX_MMAPS).tail from rfl,
      List.findSomeM?_cons, bind_of_ok (hcand _)]
    rfl
  unfold findNextMmap
  rw [bind_of_ok hstores, bind_of_ok hsearch]
  rfl

/-! ## What a search keeps -/

/-- The search keeps every property the fault path keeps: the null stores write a word of a
user page, or fault. -/
lemma FaultStable.triple_findNextMmap {I E : Kernel → Prop} (hF : FaultStable I E)
    (mmaps : Fin MAX_MMAPS → Mmap) (reqPages growsupFlag : Int32) :
    Triple I (findNextMmap mmaps reqPages growsupFlag) (fun _ => I) E := by
  refine triple_bind (triple_forM (fun _ => I) (fun _ _ => hF.triple_kernelStore 0 0) _)
    fun _ => ?_
  refine triple_bind (triple_findSomeM (fun j => ?_) _) fun r => ?_
  · unfold slotCandidate
    refine triple_ite (fun _ => triple_ite (fun _ => triple_pure fun _ h => h) fun _ => ?_)
      fun _ => triple_ite (fun _ => triple_pure fun _ h => h) fun _ => triple_pure fun _ h => h
    exact triple_bind hF.triple_handlePageFault fun _ => triple_pure fun _ h => h
  · cases r <;> exact triple_pure fun _ h => h

end Xv6
