import Xv6.Kernel.Vm

/-!
# The user address space of a page directory (vm.c)

Below `KERNBASE` a page directory means a partial map from pages to frames:
`presentPte k pgdir va` is the entry of `va` when it is present, and `ptePage` the frame it
maps.  `Space` is what `allocuvm` and `deallocuvm` rely on to change that map and nothing
else: the directory, its user page tables, the frames they map and the pages on the free
list are apart, the free list has no page twice, no frame is mapped by two pages, and every
frame passes `kfree`'s checks.

A store into page memory changes the map only through the directory or a table:

* `presentPte_of_mem`: a store into any other page keeps every mapping;
* `presentPte_setEntry`: a store into the entry of `a` changes the mapping of `a`'s page only;
* `presentPte_addTable`: a zeroed table hung under a missing directory entry maps nothing.

`Space.pop`, `Space.store`, `Space.addTable`, `Space.setEntry` and `Space.unmap` show that the
steps of the two loops keep the invariant.
-/

namespace Xv6

/-! ## What a directory maps -/

/-- The page table that directory entry `i` names, if the entry is present. -/
def tablePage (k : Kernel) (pgdir i : UInt32) : Option UInt32 :=
  if k.mem pgdir i &&& PTE_P ≠ 0 then some (P2V (PTE_ADDR (k.mem pgdir i))) else none

/-- The entry of `va` if it is present: the mapping of `va`'s page that the MMU uses. -/
def presentPte (k : Kernel) (pgdir va : UInt32) : Option UInt32 :=
  (pteOf k pgdir va).filter fun pte => pte &&& PTE_P != 0

/-- The frame that an entry maps, at its kernel address: `P2V(PTE_ADDR(*pte))`. -/
def ptePage (pte : UInt32) : UInt32 := P2V (PTE_ADDR pte)

/-- `t` is the page table of a user entry of the directory. -/
def IsTable (k : Kernel) (pgdir t : UInt32) : Prop :=
  ∃ i : UInt32, i.toNat < 512 ∧ tablePage k pgdir i = some t

/-- `p` is the frame of a present user entry. -/
def IsFrame (k : Kernel) (pgdir p : UInt32) : Prop :=
  ∃ va pte, va < KERNBASE ∧ presentPte k pgdir va = some pte ∧ ptePage pte = p

/-- The user tables of a directory are apart from it and from each other. -/
structure Tables (k : Kernel) (pgdir : UInt32) : Prop where
  table_ne_dir : ∀ t, IsTable k pgdir t → t ≠ pgdir
  /-- Two user entries of the directory name two tables. -/
  table_inj : ∀ i j t, i.toNat < 512 → j.toNat < 512 → tablePage k pgdir i = some t →
    tablePage k pgdir j = some t → i = j

/-- A well-formed user address space. -/
structure Space (k : Kernel) (pgdir : UInt32) : Prop extends Tables k pgdir where
  /-- The pages on the free list passed `kfree`'s checks. -/
  free_ok : FreeOk k
  /-- The kernel ends above `KERNBASE`, so no page of `[end, PHYSTOP)` is physical page 0. -/
  kend_gt : KERNBASE < k.kend
  free_nodup : k.freelist.Nodup
  dir_not_free : pgdir ∉ k.freelist
  table_not_free : ∀ t, IsTable k pgdir t → t ∉ k.freelist
  /-- Every frame passes `kfree`'s checks. -/
  frame_ok : ∀ va pte, va < KERNBASE → presentPte k pgdir va = some pte →
    k.kend ≤ ptePage pte ∧ PTE_ADDR pte < PHYSTOP
  frame_ne_dir : ∀ p, IsFrame k pgdir p → p ≠ pgdir
  frame_not_table : ∀ p, IsFrame k pgdir p → ¬ IsTable k pgdir p
  frame_not_free : ∀ p, IsFrame k pgdir p → p ∉ k.freelist
  /-- Two pages map two frames. -/
  frame_inj : ∀ va va' pte pte', va < KERNBASE → va' < KERNBASE →
    presentPte k pgdir va = some pte → presentPte k pgdir va' = some pte' →
      ptePage pte = ptePage pte' → va.toNat / 4096 = va'.toNat / 4096

/-- `k'` is `k` with other page memory and another free list. -/
def Kernel.MemOnly (k k' : Kernel) : Prop :=
  ∃ mem freelist, k' = { k with mem := mem, freelist := freelist }

/-! ## Reading a mapping -/

section Read

variable {k k' : Kernel} {pgdir va : UInt32}

lemma walk_eq_tablePage (k : Kernel) (pgdir va : UInt32) :
    walk k pgdir va = (tablePage k pgdir (PDX va)).map fun t => (t, PTX va) := by
  by_cases h : k.mem pgdir (PDX va) &&& PTE_P ≠ 0 <;> simp [walk, tablePage, h]

lemma presentPte_eq (k : Kernel) (pgdir va : UInt32) :
    presentPte k pgdir va =
      ((tablePage k pgdir (PDX va)).map fun t => k.mem t (PTX va)).filter
        fun pte => pte &&& PTE_P != 0 := by
  simp only [presentPte, pteOf, walk_eq_tablePage, Option.map_map]
  rfl

/-- A user address has a user directory entry. -/
lemma PDX_lt_of_lt_KERNBASE (hva : va < KERNBASE) : (PDX va).toNat < 512 := by
  have h : va.toNat < 2 ^ 31 := UInt32.lt_iff_toNat_lt.mp hva
  rw [toNat_PDX]
  omega

/-- A mapping reads one directory entry and one table entry. -/
lemma presentPte_congr (hdir : k'.mem pgdir (PDX va) = k.mem pgdir (PDX va))
    (hent : ∀ t, tablePage k pgdir (PDX va) = some t → k'.mem t (PTX va) = k.mem t (PTX va)) :
    presentPte k' pgdir va = presentPte k pgdir va := by
  have htab : tablePage k' pgdir (PDX va) = tablePage k pgdir (PDX va) := by
    simp only [tablePage, hdir]
  rw [presentPte_eq, presentPte_eq, htab]
  cases h : tablePage k pgdir (PDX va) with
  | none => rfl
  | some t => simp only [Option.map_some, hent t h]

/-- Every mapping of a page reads the same entry. -/
lemma presentPte_page {va a : UInt32} (h : va.toNat / 4096 = a.toNat / 4096) :
    presentPte k pgdir va = presentPte k pgdir a := by
  obtain ⟨hd, ht⟩ := (PDX_PTX_eq_iff va a).mpr h
  rw [presentPte_eq, presentPte_eq, hd, ht]

end Read

/-! ## Stores into page memory -/

section Store

variable {k k' : Kernel} {pgdir pg va : UInt32}

/-- A store that leaves the directory's page alone keeps its tables. -/
lemma tablePage_congr (hdir : k'.mem pgdir = k.mem pgdir) :
    tablePage k' pgdir = tablePage k pgdir := by
  funext i
  simp only [tablePage, hdir]

/-- A store into a page that is neither the directory nor one of its user tables keeps every
user mapping. -/
lemma presentPte_of_mem (hmem : ∀ q, q ≠ pg → k'.mem q = k.mem q) (hdir : pg ≠ pgdir)
    (htab : ¬ IsTable k pgdir pg) (hva : va < KERNBASE) :
    presentPte k' pgdir va = presentPte k pgdir va := by
  refine presentPte_congr (by rw [hmem pgdir (Ne.symm hdir)]) fun t ht => ?_
  have hne : t ≠ pg := fun h => htab ⟨PDX va, PDX_lt_of_lt_KERNBASE hva, h ▸ ht⟩
  rw [hmem t hne]

lemma fillPage_mem_of_ne (k : Kernel) (p : UInt32) {q : UInt32} (v : UInt32) (h : q ≠ p) :
    (k.fillPage p v).mem q = k.mem q := by
  simp [Kernel.fillPage, Function.update_of_ne h]

lemma writeWord_mem_of_ne (k : Kernel) (p : UInt32) {q : UInt32} (i v : UInt32) (h : q ≠ p) :
    (k.writeWord p i v).mem q = k.mem q := by
  simp [Kernel.writeWord, Function.update_of_ne h]

/-- A store into the directory changes the table of one entry. -/
lemma tablePage_writeDir (k : Kernel) (pgdir i v j : UInt32) :
    tablePage (k.writeWord pgdir i v) pgdir j =
      if j = i then (if v &&& PTE_P ≠ 0 then some (P2V (PTE_ADDR v)) else none)
      else tablePage k pgdir j := by
  by_cases hj : j = i
  · subst hj
    simp [tablePage, Kernel.writeWord]
  · simp [tablePage, Kernel.writeWord, hj]

/-- The entries `walkpgdir` and `mappages` write: a page-aligned address and three flags. -/
lemma present_or_seven {x : UInt32} (hx : x.toNat % 4096 = 0) :
    (x ||| 7) &&& PTE_P ≠ 0 ∧ PTE_ADDR (x ||| 7) = x :=
  ⟨present_or hx (by decide) (by decide), PTE_ADDR_or hx (by decide)⟩

/-- `V2P` keeps a page-aligned kernel address aligned. -/
lemma V2P_aligned {x : UInt32} (hx : x.toNat % 4096 = 0) : (V2P x).toNat % 4096 = 0 := by
  have h : (V2P x).toNat = (x.toNat + (2 ^ 32 - 2 ^ 31)) % 2 ^ 32 := by
    simp only [V2P, KERNBASE, UInt32.toNat_sub, UInt32.toNat_ofNat]
    omega
  omega

lemma Kernel.MemOnly.refl (k : Kernel) : k.MemOnly k := ⟨k.mem, k.freelist, rfl⟩

lemma Kernel.MemOnly.trans {k₁ k₂ k₃ : Kernel} (h₁ : k₁.MemOnly k₂) (h₂ : k₂.MemOnly k₃) :
    k₁.MemOnly k₃ := by
  obtain ⟨m₂, f₂, rfl⟩ := h₁
  obtain ⟨m₃, f₃, rfl⟩ := h₂
  exact ⟨m₃, f₃, rfl⟩

lemma Kernel.MemOnly.kend (h : k.MemOnly k') : k'.kend = k.kend := by
  obtain ⟨_, _, rfl⟩ := h
  rfl

lemma memOnly_fillPage (k : Kernel) (p v : UInt32) : k.MemOnly (k.fillPage p v) :=
  ⟨_, k.freelist, rfl⟩

lemma memOnly_writeWord (k : Kernel) (p i v : UInt32) : k.MemOnly (k.writeWord p i v) :=
  ⟨_, k.freelist, rfl⟩

lemma memOnly_freelist (k : Kernel) (l : List UInt32) : k.MemOnly { k with freelist := l } :=
  ⟨k.mem, l, rfl⟩

/-- A store into the entry of `a` changes the mapping of `a`'s page only. -/
lemma presentPte_setEntry (hs : Tables k pgdir) {a t : UInt32} (ha : a < KERNBASE)
    (hat : tablePage k pgdir (PDX a) = some t) (w : UInt32) (hva : va < KERNBASE) :
    presentPte (k.writeWord t (PTX a) w) pgdir va =
      if va.toNat / 4096 = a.toNat / 4096 then (if w &&& PTE_P ≠ 0 then some w else none)
      else presentPte k pgdir va := by
  have htdir : t ≠ pgdir := hs.table_ne_dir t ⟨PDX a, PDX_lt_of_lt_KERNBASE ha, hat⟩
  have hdir : (k.writeWord t (PTX a) w).mem pgdir = k.mem pgdir :=
    writeWord_mem_of_ne k t _ _ (Ne.symm htdir)
  split
  · -- `va` is in `a`'s page: its entry is the one written
    rename_i hsame
    obtain ⟨hd, hx⟩ := (PDX_PTX_eq_iff va a).mpr hsame
    rw [presentPte_eq, tablePage_congr hdir, hd, hat, hx]
    by_cases hw : w &&& PTE_P = 0 <;> simp [Kernel.writeWord, hw]
  · rename_i hne
    refine presentPte_congr (by rw [hdir]) fun t' ht' => ?_
    by_cases hd : PDX va = PDX a
    · -- the same table, another entry
      have hx : PTX va ≠ PTX a := fun hx => hne ((PDX_PTX_eq_iff va a).mp ⟨hd, hx⟩)
      rw [hd, hat] at ht'
      cases ht'
      simp [Kernel.writeWord, Function.update_of_ne hx]
    · -- another table: two user entries name two tables
      have htt : t' ≠ t := fun h => hd (hs.table_inj _ _ t (PDX_lt_of_lt_KERNBASE hva)
        (PDX_lt_of_lt_KERNBASE ha) (h ▸ ht') hat)
      rw [writeWord_mem_of_ne k t _ _ htt]

/-- The entry `walkpgdir` writes for a new table `t`: `V2P(t) | PTE_P | PTE_W | PTE_U`. -/
lemma dirEntry_eq (t : UInt32) : V2P t ||| PTE_P ||| PTE_W ||| PTE_U = V2P t ||| 7 := by
  simp only [UInt32.or_assoc]
  rfl

/-- A zeroed page hung under a missing directory entry maps nothing: every user mapping stays. -/
lemma presentPte_addTable (hs : Tables k pgdir) {a t : UInt32}
    (hnone : tablePage k pgdir (PDX a) = none) (ht : t.toNat % 4096 = 0) (htdir : t ≠ pgdir)
    (httab : ¬ IsTable k pgdir t) (hva : va < KERNBASE) :
    presentPte ((k.fillPage t 0).writeWord pgdir (PDX a) (V2P t ||| PTE_P ||| PTE_W ||| PTE_U))
      pgdir va = presentPte k pgdir va := by
  obtain ⟨hP, hA⟩ := present_or_seven (V2P_aligned ht)
  rw [dirEntry_eq]
  by_cases hd : PDX va = PDX a
  · -- the new table holds zeros only, and `va` was not mapped before
    have hold : presentPte k pgdir va = none := by
      rw [presentPte_eq, hd, hnone]
      rfl
    rw [hold, presentPte_eq, tablePage_writeDir, if_pos hd, if_pos hP, hA, P2V_V2P,
      Option.map_some, writeWord_mem_of_ne _ pgdir _ _ htdir]
    simp [Kernel.fillPage]
  · refine presentPte_congr ?_ fun t' ht' => ?_
    · simp only [Kernel.writeWord_mem, Kernel.fillPage_mem, Function.update_self,
        Function.update_of_ne hd, Function.update_of_ne (Ne.symm htdir)]
    · have hne : t' ≠ t := fun h => httab ⟨PDX va, PDX_lt_of_lt_KERNBASE hva, h ▸ ht'⟩
      have hne' : t' ≠ pgdir := hs.table_ne_dir t' ⟨PDX va, PDX_lt_of_lt_KERNBASE hva, ht'⟩
      rw [writeWord_mem_of_ne _ pgdir _ _ hne', fillPage_mem_of_ne _ t _ hne]

lemma isTable_congr (htab : tablePage k' pgdir = tablePage k pgdir) (t : UInt32) :
    IsTable k' pgdir t ↔ IsTable k pgdir t := by
  simp only [IsTable, htab]

lemma isFrame_congr (hpte : ∀ va, va < KERNBASE → presentPte k' pgdir va = presentPte k pgdir va)
    (p : UInt32) : IsFrame k' pgdir p ↔ IsFrame k pgdir p := by
  constructor
  · rintro ⟨va, pte, hva, h, rfl⟩
    exact ⟨va, pte, hva, hpte va hva ▸ h, rfl⟩
  · rintro ⟨va, pte, hva, h, rfl⟩
    exact ⟨va, pte, hva, (hpte va hva).trans h, rfl⟩

lemma Tables.congr (hs : Tables k pgdir) (htab : tablePage k' pgdir = tablePage k pgdir) :
    Tables k' pgdir :=
  ⟨fun t ht => hs.table_ne_dir t ((isTable_congr htab t).mp ht),
    fun i j t hi hj h₁ h₂ => hs.table_inj i j t hi hj (htab ▸ h₁) (htab ▸ h₂)⟩

end Store

/-! ## The invariant under each step -/

/-- A directory without a present user entry maps nothing below `KERNBASE`. -/
lemma presentPte_of_empty {va : UInt32}
    (hdir : ∀ i : UInt32, i.toNat < 512 → k.mem pgdir i &&& PTE_P = 0) (hva : va < KERNBASE) :
    presentPte k pgdir va = none := by
  have hnone : tablePage k pgdir (PDX va) = none := by
    simp [tablePage, hdir _ (PDX_lt_of_lt_KERNBASE hva)]
  rw [presentPte_eq, hnone]
  rfl

/-- Such a directory, apart from a good free list, is a well-formed empty address space: the
user half of what `setupkvm` builds. -/
lemma Space.empty (hdir : ∀ i : UInt32, i.toNat < 512 → k.mem pgdir i &&& PTE_P = 0)
    (hfree : FreeOk k) (hkend : KERNBASE < k.kend) (hnodup : k.freelist.Nodup)
    (hdirfree : pgdir ∉ k.freelist) : Space k pgdir := by
  have hnt : ∀ t, ¬ IsTable k pgdir t := by
    rintro t ⟨i, hi, h⟩
    simp [tablePage, hdir i hi] at h
  have hnf : ∀ p, ¬ IsFrame k pgdir p := by
    rintro p ⟨va, pte, hva, h, -⟩
    rw [presentPte_of_empty hdir hva] at h
    cases h
  exact
    { free_ok := hfree
      kend_gt := hkend
      free_nodup := hnodup
      dir_not_free := hdirfree
      table_ne_dir := fun t ht => (hnt t ht).elim
      table_not_free := fun t ht => (hnt t ht).elim
      table_inj := fun i _ t hi _ h₁ _ => (hnt t ⟨i, hi, h₁⟩).elim
      frame_ok := fun va pte hva h => by
        rw [presentPte_of_empty hdir hva] at h
        cases h
      frame_ne_dir := fun p hp => (hnf p hp).elim
      frame_not_table := fun p hp => (hnf p hp).elim
      frame_not_free := fun p hp => (hnf p hp).elim
      frame_inj := fun va _ pte _ hva _ h => by
        rw [presentPte_of_empty hdir hva] at h
        cases h }

section Steps

variable {k : Kernel} {pgdir : UInt32}

/-- Facts that follow from membership of the free list. -/
lemma Space.free_facts (hs : Space k pgdir) {p : UInt32} (hp : p ∈ k.freelist) :
    p ≠ pgdir ∧ ¬ IsTable k pgdir p ∧ ¬ IsFrame k pgdir p := by
  refine ⟨fun h => hs.dir_not_free (h ▸ hp), fun ht => hs.table_not_free p ht hp,
    fun hf => hs.frame_not_free p hf hp⟩

/-- Taking the head of the free list keeps the invariant. -/
lemma Space.pop (hs : Space k pgdir) {p : UInt32} {rest : List UInt32}
    (hfree : k.freelist = p :: rest) : Space { k with freelist := rest } pgdir := by
  have hsub : ∀ q, q ∈ rest → q ∈ k.freelist := fun q hq => hfree ▸ List.mem_cons_of_mem p hq
  exact
    { free_ok := fun q hq => hs.free_ok q (hsub q hq)
      kend_gt := hs.kend_gt
      free_nodup := by
        have := hs.free_nodup
        rw [hfree] at this
        exact this.of_cons
      dir_not_free := fun h => hs.dir_not_free (hsub _ h)
      table_ne_dir := hs.table_ne_dir
      table_not_free := fun t ht h => hs.table_not_free t ht (hsub t h)
      table_inj := hs.table_inj
      frame_ok := hs.frame_ok
      frame_ne_dir := hs.frame_ne_dir
      frame_not_table := hs.frame_not_table
      frame_not_free := fun q hq h => hs.frame_not_free q hq (hsub q h)
      frame_inj := hs.frame_inj }

/-- Two states with one free list, the same tables and the same user mappings are alike. -/
lemma Space.congr {k' : Kernel} (hs : Space k pgdir) (hfree : k'.freelist = k.freelist)
    (hkend : k'.kend = k.kend) (htab : tablePage k' pgdir = tablePage k pgdir)
    (hpte : ∀ va, va < KERNBASE → presentPte k' pgdir va = presentPte k pgdir va) :
    Space k' pgdir := by
  have hT := isTable_congr htab
  have hF := isFrame_congr hpte
  exact
    { free_ok := fun q hq => by
        have := hs.free_ok q (hfree ▸ hq)
        rwa [hkend]
      kend_gt := hkend ▸ hs.kend_gt
      free_nodup := hfree ▸ hs.free_nodup
      dir_not_free := hfree ▸ hs.dir_not_free
      table_ne_dir := fun t ht => hs.table_ne_dir t ((hT t).mp ht)
      table_not_free := fun t ht => hfree ▸ hs.table_not_free t ((hT t).mp ht)
      table_inj := fun i j t hi hj h₁ h₂ => hs.table_inj i j t hi hj (htab ▸ h₁) (htab ▸ h₂)
      frame_ok := fun va pte hva h => by
        rw [hkend]
        exact hs.frame_ok va pte hva (hpte va hva ▸ h)
      frame_ne_dir := fun p hp => hs.frame_ne_dir p ((hF p).mp hp)
      frame_not_table := fun p hp ht => hs.frame_not_table p ((hF p).mp hp) ((hT p).mp ht)
      frame_not_free := fun p hp => hfree ▸ hs.frame_not_free p ((hF p).mp hp)
      frame_inj := fun va va' pte pte' hva hva' h h' =>
        hs.frame_inj va va' pte pte' hva hva' (hpte va hva ▸ h) (hpte va' hva' ▸ h') }

/-- A store into a page off the address space keeps the invariant and every mapping. -/
lemma Space.store {k' : Kernel} {pg : UInt32} (hs : Space k pgdir)
    (hmem : ∀ q, q ≠ pg → k'.mem q = k.mem q) (hfree : k'.freelist = k.freelist)
    (hkend : k'.kend = k.kend) (hdir : pg ≠ pgdir) (htab : ¬ IsTable k pgdir pg) :
    Space k' pgdir :=
  hs.congr hfree hkend (tablePage_congr (hmem pgdir (Ne.symm hdir)))
    fun _ hva => presentPte_of_mem hmem hdir htab hva

/-- `kalloc` of the head of the free list and `memset(mem, 0, PGSIZE)`: the address space is
unchanged and stays well formed. -/
lemma Space.take (hs : Space k pgdir) {mem : UInt32} {rest : List UInt32}
    (hfree : k.freelist = mem :: rest) :
    Space ({ k with freelist := rest }.fillPage mem 0) pgdir ∧
      tablePage ({ k with freelist := rest }.fillPage mem 0) pgdir = tablePage k pgdir ∧
      ∀ va, va < KERNBASE →
        presentPte ({ k with freelist := rest }.fillPage mem 0) pgdir va =
          presentPte k pgdir va := by
  obtain ⟨hdir, htab, -⟩ := hs.free_facts (hfree ▸ List.mem_cons_self)
  have hmem : ∀ q, q ≠ mem → ({ k with freelist := rest }.fillPage mem 0).mem q = k.mem q :=
    fun q hq => fillPage_mem_of_ne _ mem 0 hq
  exact ⟨(hs.pop hfree).store hmem rfl rfl hdir htab, tablePage_congr (hmem pgdir (Ne.symm hdir)),
    fun va hva => presentPte_of_mem hmem hdir htab hva⟩

/-- The frame of an entry is page-aligned. -/
lemma ptePage_aligned (pte : UInt32) : (ptePage pte).toNat % 4096 = 0 := by
  have h : (ptePage pte).toNat = ((PTE_ADDR pte).toNat + 2 ^ 31) % 2 ^ 32 := by
    simp only [ptePage, P2V, KERNBASE, UInt32.toNat_add, UInt32.toNat_ofNat]
    omega
  rw [h, toNat_PTE_ADDR]
  omega

/-- The directory after `walkpgdir` hangs the head of the free list, zeroed, under a missing
entry: that entry names the page, the others are as before. -/
lemma tablePage_addTable (hs : Space k pgdir) {a t : UInt32} {rest : List UInt32}
    (hfree : k.freelist = t :: rest) (i : UInt32) :
    tablePage (({ k with freelist := rest }.fillPage t 0).writeWord pgdir (PDX a)
      (V2P t ||| PTE_P ||| PTE_W ||| PTE_U)) pgdir i =
        if i = PDX a then some t else tablePage k pgdir i := by
  have ht : t ∈ k.freelist := hfree ▸ List.mem_cons_self
  have htdir : t ≠ pgdir := (hs.free_facts ht).1
  obtain ⟨hP, hA⟩ := present_or_seven (V2P_aligned (hs.free_ok t ht).1)
  rw [tablePage_writeDir, dirEntry_eq, if_pos hP, hA, P2V_V2P]
  split
  · rfl
  · exact congrFun (tablePage_congr (fillPage_mem_of_ne _ t _ htdir.symm)) i

/-- The tables after `walkpgdir` hangs the head of the free list under a missing entry: that
page and the tables before. -/
lemma isTable_addTable (hs : Space k pgdir) {a t : UInt32} {rest : List UInt32}
    (ha : a < KERNBASE) (hfree : k.freelist = t :: rest)
    (hnone : tablePage k pgdir (PDX a) = none) (q : UInt32) :
    IsTable (({ k with freelist := rest }.fillPage t 0).writeWord pgdir (PDX a)
      (V2P t ||| PTE_P ||| PTE_W ||| PTE_U)) pgdir q ↔ q = t ∨ IsTable k pgdir q := by
  have htab := tablePage_addTable hs hfree (a := a)
  constructor
  · rintro ⟨i, hi, h⟩
    rw [htab] at h
    split at h
    · exact .inl (Option.some.inj h).symm
    · exact .inr ⟨i, hi, h⟩
  · rintro (rfl | ⟨i, hi, h⟩)
    · exact ⟨PDX a, PDX_lt_of_lt_KERNBASE ha, by rw [htab, if_pos rfl]⟩
    · refine ⟨i, hi, ?_⟩
      rw [htab, if_neg]
      · exact h
      · rintro rfl
        rw [hnone] at h
        cases h

/-- Hanging the head of the free list, zeroed, under a missing directory entry keeps the
invariant. -/
lemma Space.addTable (hs : Space k pgdir) {a t : UInt32} {rest : List UInt32} (ha : a < KERNBASE)
    (hfree : k.freelist = t :: rest) (hnone : tablePage k pgdir (PDX a) = none) :
    Space (({ k with freelist := rest }.fillPage t 0).writeWord pgdir (PDX a)
      (V2P t ||| PTE_P ||| PTE_W ||| PTE_U)) pgdir := by
  have hs₀ := hs.pop hfree
  have ht : t ∈ k.freelist := hfree ▸ List.mem_cons_self
  obtain ⟨htdir, httab, htframe⟩ := hs.free_facts ht
  have htrest : t ∉ rest := by
    have := hs.free_nodup
    rw [hfree] at this
    exact (List.nodup_cons.mp this).1
  have htal : t.toNat % 4096 = 0 := (hs.free_ok t ht).1
  have htab := tablePage_addTable hs hfree (a := a)
  have hT := isTable_addTable hs ha hfree hnone
  have hpte := fun va (hva : va < KERNBASE) =>
    presentPte_addTable hs₀.toTables hnone htal htdir httab hva
  have hF := isFrame_congr hpte
  exact
    { free_ok := hs₀.free_ok
      kend_gt := hs.kend_gt
      free_nodup := hs₀.free_nodup
      dir_not_free := hs₀.dir_not_free
      table_ne_dir := fun q hq => by
        rcases (hT q).mp hq with rfl | hq
        · exact htdir
        · exact hs.table_ne_dir q hq
      table_not_free := fun q hq => by
        rcases (hT q).mp hq with rfl | hq
        · exact htrest
        · exact fun h => hs.table_not_free q hq (hfree ▸ List.mem_cons_of_mem t h)
      table_inj := fun i j q hi hj h₁ h₂ => by
        rw [htab] at h₁ h₂
        -- a table named twice is `t` both times, and `t` was no table
        split at h₁ <;> split at h₂
        · subst_vars; rfl
        · cases h₁; exact absurd ⟨j, hj, h₂⟩ httab
        · cases h₂; exact absurd ⟨i, hi, h₁⟩ httab
        · exact hs.table_inj i j q hi hj h₁ h₂
      frame_ok := fun va pte hva h => hs.frame_ok va pte hva (hpte va hva ▸ h)
      frame_ne_dir := fun p hp => hs.frame_ne_dir p ((hF p).mp hp)
      frame_not_table := fun p hp hpt => by
        rcases (hT p).mp hpt with rfl | hpt
        · exact htframe ((hF p).mp hp)
        · exact hs.frame_not_table p ((hF p).mp hp) hpt
      frame_not_free := fun p hp h =>
        hs.frame_not_free p ((hF p).mp hp) (hfree ▸ List.mem_cons_of_mem t h)
      frame_inj := fun va va' pte pte' hva hva' h h' =>
        hs.frame_inj va va' pte pte' hva hva' (hpte va hva ▸ h) (hpte va' hva' ▸ h') }

/-- The entry `mappages` writes for a frame `p`: `V2P(p) | PTE_W | PTE_U | PTE_P`. -/
lemma userEntry_eq (p : UInt32) : V2P p ||| (PTE_W ||| PTE_U) ||| PTE_P = V2P p ||| 7 := by
  simp only [UInt32.or_assoc]
  rfl

/-- The frame of a user entry `V2P(p) | 7` is `p`, for an aligned `p`. -/
lemma ptePage_user {p : UInt32} (hp : p.toNat % 4096 = 0) : ptePage (V2P p ||| 7) = p := by
  rw [ptePage, (present_or_seven (V2P_aligned hp)).2, P2V_V2P]

/-- Mapping a page to a frame that is none of the address space's pages and passes `kfree`'s
checks keeps the invariant. -/
lemma Space.setEntry (hs : Space k pgdir) {a t p : UInt32} (ha : a < KERNBASE)
    (hat : tablePage k pgdir (PDX a) = some t) (hp : p.toNat % 4096 = 0) (hkend : k.kend ≤ p)
    (hphys : V2P p < PHYSTOP)
    (hpdir : p ≠ pgdir) (hptab : ¬ IsTable k pgdir p) (hpframe : ¬ IsFrame k pgdir p)
    (hpfree : p ∉ k.freelist) :
    Space (k.writeWord t (PTX a) (V2P p ||| (PTE_W ||| PTE_U) ||| PTE_P)) pgdir := by
  obtain ⟨hP, hA⟩ := present_or_seven (V2P_aligned hp)
  have htdir : t ≠ pgdir := hs.table_ne_dir t ⟨PDX a, PDX_lt_of_lt_KERNBASE ha, hat⟩
  have htab := tablePage_congr (writeWord_mem_of_ne k t (PTX a)
    (V2P p ||| (PTE_W ||| PTE_U) ||| PTE_P) (Ne.symm htdir))
  have hpte := fun va (hva : va < KERNBASE) =>
    presentPte_setEntry hs.toTables ha hat (V2P p ||| (PTE_W ||| PTE_U) ||| PTE_P) hva
  rw [userEntry_eq] at hpte htab ⊢
  have hframe : ptePage (V2P p ||| 7) = p := ptePage_user hp
  -- a mapping of the new state is the new frame at `a`'s page, or a mapping of `k`
  have hcase : ∀ va pte, va < KERNBASE →
      presentPte (k.writeWord t (PTX a) (V2P p ||| 7)) pgdir va = some pte →
        (va.toNat / 4096 = a.toNat / 4096 ∧ pte = V2P p ||| 7) ∨
          (va.toNat / 4096 ≠ a.toNat / 4096 ∧ presentPte k pgdir va = some pte) := by
    intro va pte hva h
    rw [hpte va hva] at h
    split at h
    · exact .inl ⟨‹_›, (Option.some.inj h).symm⟩
    · exact .inr ⟨‹_›, h⟩
  have hT := isTable_congr htab
  exact
    { free_ok := hs.free_ok
      kend_gt := hs.kend_gt
      free_nodup := hs.free_nodup
      dir_not_free := hs.dir_not_free
      table_ne_dir := fun q hq => hs.table_ne_dir q ((hT q).mp hq)
      table_not_free := fun q hq => hs.table_not_free q ((hT q).mp hq)
      table_inj := fun i j q hi hj h₁ h₂ => hs.table_inj i j q hi hj (htab ▸ h₁) (htab ▸ h₂)
      frame_ok := fun va pte hva h => by
        rcases hcase va pte hva h with ⟨-, rfl⟩ | ⟨-, h⟩
        · rw [hframe, hA]
          exact ⟨hkend, hphys⟩
        · exact hs.frame_ok va pte hva h
      frame_ne_dir := fun q ⟨va, pte, hva, h, hq⟩ => by
        rcases hcase va pte hva h with ⟨-, rfl⟩ | ⟨-, h⟩
        · rw [← hq, hframe]
          exact hpdir
        · exact hs.frame_ne_dir q ⟨va, pte, hva, h, hq⟩
      frame_not_table := fun q ⟨va, pte, hva, h, hq⟩ hqt => by
        rcases hcase va pte hva h with ⟨-, rfl⟩ | ⟨-, h⟩
        · rw [← hq, hframe] at hqt
          exact hptab ((hT p).mp hqt)
        · exact hs.frame_not_table q ⟨va, pte, hva, h, hq⟩ ((hT q).mp hqt)
      frame_not_free := fun q ⟨va, pte, hva, h, hq⟩ => by
        rcases hcase va pte hva h with ⟨-, rfl⟩ | ⟨-, h⟩
        · rw [← hq, hframe]
          exact hpfree
        · exact hs.frame_not_free q ⟨va, pte, hva, h, hq⟩
      frame_inj := fun va va' pte pte' hva hva' h h' heq => by
        -- the new frame is no frame of `k`, so it is mapped at `a`'s page only
        rcases hcase va pte hva h with ⟨hv, rfl⟩ | ⟨hv, h⟩ <;>
          rcases hcase va' pte' hva' h' with ⟨hv', rfl⟩ | ⟨hv', h'⟩
        · omega
        · rw [hframe] at heq
          exact absurd ⟨va', pte', hva', h', heq.symm⟩ hpframe
        · rw [hframe] at heq
          exact absurd ⟨va, pte, hva, h, heq⟩ hpframe
        · exact hs.frame_inj va va' pte pte' hva hva' h h' heq }

/-- `kfree` of a page other than the directory leaves the directory's tables as they were. -/
lemma tablePage_push {p : UInt32} (hpdir : p ≠ pgdir) :
    tablePage { k.fillPage p 0x01010101 with freelist := p :: k.freelist } pgdir =
      tablePage k pgdir :=
  tablePage_congr (fillPage_mem_of_ne k p 0x01010101 (Ne.symm hpdir))

/-- `kfree` of a page that is neither the directory nor a table keeps every mapping. -/
lemma presentPte_push {p va : UInt32} (hpdir : p ≠ pgdir) (hptab : ¬ IsTable k pgdir p)
    (hva : va < KERNBASE) :
    presentPte { k.fillPage p 0x01010101 with freelist := p :: k.freelist } pgdir va =
      presentPte k pgdir va :=
  presentPte_of_mem (fun _ hq => fillPage_mem_of_ne k p 0x01010101 hq) hpdir hptab hva

/-- `kfree` of a page that passes its checks and is none of the address space's pages keeps
the invariant. -/
lemma Space.push (hs : Space k pgdir) {p : UInt32} (hal : p.toNat % 4096 = 0)
    (hkend : k.kend ≤ p) (hphys : V2P p < PHYSTOP) (hpdir : p ≠ pgdir)
    (hptab : ¬ IsTable k pgdir p) (hpframe : ¬ IsFrame k pgdir p) (hpfree : p ∉ k.freelist) :
    Space { k.fillPage p 0x01010101 with freelist := p :: k.freelist } pgdir := by
  have htab := tablePage_push (k := k) hpdir
  have hT := isTable_congr htab
  have hpte := fun va (hva : va < KERNBASE) => presentPte_push hpdir hptab hva
  have hF := isFrame_congr hpte
  exact
    { free_ok := by
        intro q hq
        rcases List.mem_cons.mp hq with rfl | hq
        · exact ⟨hal, hkend, hphys⟩
        · exact hs.free_ok q hq
      kend_gt := hs.kend_gt
      free_nodup := List.nodup_cons.mpr ⟨hpfree, hs.free_nodup⟩
      dir_not_free := by
        rintro (h | ⟨_, h⟩)
        · exact hpdir rfl
        · exact hs.dir_not_free h
      table_ne_dir := fun q hq => hs.table_ne_dir q ((hT q).mp hq)
      table_not_free := fun q hq hfree => by
        rcases List.mem_cons.mp hfree with rfl | hfree
        · exact hptab ((hT _).mp hq)
        · exact hs.table_not_free q ((hT q).mp hq) hfree
      table_inj := fun i j q hi hj h₁ h₂ => hs.table_inj i j q hi hj (htab ▸ h₁) (htab ▸ h₂)
      frame_ok := fun va pte hva h => hs.frame_ok va pte hva (hpte va hva ▸ h)
      frame_ne_dir := fun q hq => hs.frame_ne_dir q ((hF q).mp hq)
      frame_not_table := fun q hq hqt => hs.frame_not_table q ((hF q).mp hq) ((hT q).mp hqt)
      frame_not_free := fun q hq hfree => by
        rcases List.mem_cons.mp hfree with rfl | hfree
        · exact hpframe ((hF _).mp hq)
        · exact hs.frame_not_free q ((hF q).mp hq) hfree
      frame_inj := fun va va' pte pte' hva hva' h h' =>
        hs.frame_inj va va' pte pte' hva hva' (hpte va hva ▸ h) (hpte va' hva' ▸ h') }

/-- `deallocuvm`'s clearing of a present entry (`kfree` of the frame `p` of `a`, then a zero
written to `a`'s entry) leaves the directory's tables as they were. -/
lemma tablePage_unmap (hs : Space k pgdir) {a t pte p : UInt32} (ha : a < KERNBASE)
    (hat : tablePage k pgdir (PDX a) = some t) (hpte : presentPte k pgdir a = some pte)
    (hp : ptePage pte = p) :
    tablePage ({ k.fillPage p 0x01010101 with
      freelist := p :: k.freelist }.writeWord t (PTX a) 0) pgdir = tablePage k pgdir := by
  have hpdir := hs.frame_ne_dir _ ⟨a, pte, ha, hpte, hp⟩
  have htdir : t ≠ pgdir := hs.table_ne_dir t ⟨PDX a, PDX_lt_of_lt_KERNBASE ha, hat⟩
  have hmem₁ : ({ k.fillPage p 0x01010101 with
      freelist := p :: k.freelist } : Kernel).mem pgdir = k.mem pgdir :=
    fillPage_mem_of_ne k p 0x01010101 (Ne.symm hpdir)
  exact (tablePage_congr (writeWord_mem_of_ne _ t _ _ (Ne.symm htdir))).trans
    (tablePage_congr hmem₁)

/-- The same clearing unmaps `a`'s page and no other. -/
lemma presentPte_unmap (hs : Space k pgdir) {a t pte p : UInt32} (ha : a < KERNBASE)
    (hat : tablePage k pgdir (PDX a) = some t) (hpte : presentPte k pgdir a = some pte)
    (hp : ptePage pte = p) {va : UInt32} (hva : va < KERNBASE) :
    presentPte ({ k.fillPage p 0x01010101 with
      freelist := p :: k.freelist }.writeWord t (PTX a) 0) pgdir va =
        if va.toNat / 4096 = a.toNat / 4096 then none else presentPte k pgdir va := by
  have hpf : IsFrame k pgdir p := ⟨a, pte, ha, hpte, hp⟩
  -- the junk that `kfree` writes is off the directory and its tables
  have hmem₁ : ∀ q, q ≠ p →
      ({ k.fillPage p 0x01010101 with
        freelist := p :: k.freelist } : Kernel).mem q = k.mem q :=
    fun q hq => fillPage_mem_of_ne k p 0x01010101 hq
  have htab₁ := tablePage_congr (hmem₁ pgdir (Ne.symm (hs.frame_ne_dir _ hpf)))
  have hat₁ : tablePage ({ k.fillPage p 0x01010101 with
      freelist := p :: k.freelist } : Kernel) pgdir (PDX a) = some t := by
    rw [htab₁, hat]
  rw [presentPte_setEntry (hs.toTables.congr htab₁) ha hat₁ 0 hva,
    presentPte_of_mem hmem₁ (hs.frame_ne_dir _ hpf) (hs.frame_not_table _ hpf) hva]
  simp

/-- `kfree` of the frame of `a` and a zero written to `a`'s entry keep the invariant: the frame
goes back on the free list and `a`'s page is no longer mapped. -/
lemma Space.unmap (hs : Space k pgdir) {a t pte p : UInt32} (ha : a < KERNBASE)
    (hat : tablePage k pgdir (PDX a) = some t) (hpte : presentPte k pgdir a = some pte)
    (hp : ptePage pte = p) :
    Space ({ k.fillPage p 0x01010101 with
      freelist := p :: k.freelist }.writeWord t (PTX a) 0) pgdir := by
  have hpf : IsFrame k pgdir p := ⟨a, pte, ha, hpte, hp⟩
  have hpdir := hs.frame_ne_dir _ hpf
  have hptab := hs.frame_not_table _ hpf
  obtain ⟨hkend, hphys⟩ := hs.frame_ok a pte ha hpte
  have htab := tablePage_unmap hs ha hat hpte hp
  have hT := isTable_congr htab
  -- every mapping of the new state is a mapping of `k` at another page than `a`'s
  have hcase : ∀ va pte', va < KERNBASE → presentPte ({ k.fillPage p 0x01010101 with
      freelist := p :: k.freelist }.writeWord t (PTX a) 0) pgdir va = some pte' →
        va.toNat / 4096 ≠ a.toNat / 4096 ∧ presentPte k pgdir va = some pte' := by
    intro va pte' hva h
    rw [presentPte_unmap hs ha hat hpte hp hva] at h
    split at h
    · cases h
    · exact ⟨‹_›, h⟩
  exact
    { free_ok := by
        intro q hq
        rcases List.mem_cons.mp hq with heq | hq
        · rw [heq, ← hp]
          refine ⟨ptePage_aligned pte, hkend, ?_⟩
          rw [ptePage, V2P_P2V]
          exact hphys
        · exact hs.free_ok q hq
      kend_gt := hs.kend_gt
      free_nodup := List.nodup_cons.mpr ⟨hs.frame_not_free _ hpf, hs.free_nodup⟩
      dir_not_free := by
        rintro (h | ⟨_, h⟩)
        · exact hpdir rfl
        · exact hs.dir_not_free h
      table_ne_dir := fun q hq => hs.table_ne_dir q ((hT q).mp hq)
      table_not_free := fun q hq hfree => by
        rcases List.mem_cons.mp hfree with heq | hfree
        · exact hptab ((hT _).mp (heq ▸ hq))
        · exact hs.table_not_free q ((hT q).mp hq) hfree
      table_inj := fun i j q hi hj h₁ h₂ => hs.table_inj i j q hi hj (htab ▸ h₁) (htab ▸ h₂)
      frame_ok := fun va pte' hva h => hs.frame_ok va pte' hva (hcase va pte' hva h).2
      frame_ne_dir := fun q ⟨va, pte', hva, h, hq⟩ =>
        hs.frame_ne_dir q ⟨va, pte', hva, (hcase va pte' hva h).2, hq⟩
      frame_not_table := fun q ⟨va, pte', hva, h, hq⟩ hqt =>
        hs.frame_not_table q ⟨va, pte', hva, (hcase va pte' hva h).2, hq⟩ ((hT q).mp hqt)
      frame_not_free := fun q ⟨va, pte', hva, h, hq⟩ hfree => by
        obtain ⟨hne, hk⟩ := hcase va pte' hva h
        rcases List.mem_cons.mp hfree with heq | hfree
        · -- the frame given back was mapped at `a`'s page only
          exact hne (hs.frame_inj va a pte' pte hva ha hk hpte (hq.trans (heq.trans hp.symm)))
        · exact hs.frame_not_free q ⟨va, pte', hva, hk, hq⟩ hfree
      frame_inj := fun va va' pte₁ pte₂ hva hva' h h' =>
        hs.frame_inj va va' pte₁ pte₂ hva hva' (hcase va pte₁ hva h).2 (hcase va' pte₂ hva' h').2 }

end Steps

end Xv6
