import Xv6.Kernel.Space
import Xv6.Kernel.Uvm

/-!
# Shrinking an address space (vm.c: deallocuvm)

`deallocuvm(pgdir, oldsz, newsz)` unmaps the present pages of `[PGROUNDUP(newsz), oldsz)` and
gives their frames to `kfree`.  On a well-formed address space (`Space`) below `KERNBASE` it
does exactly that (`Shrunk`): the mappings of its range go, their frames and no other page go on
the free list, the page tables stay, and `Space` is kept.

* `deallocLoop_spec`: the loop, for any fuel at least the pages of its range (so it stops by
  its own test), skipping the whole region of a missing table;
* `deallocuvm_spec`: the call, with the fuel the code gives its loop.
-/

namespace Xv6

open Prog

/-! ## One pass of each loop -/

section Runs

variable {k : Kernel} {pgdir : UInt32}

lemma tablePage_eq_none_iff {a : UInt32} :
    tablePage k pgdir (PDX a) = none ↔ k.mem pgdir (PDX a) &&& PTE_P = 0 := by
  unfold tablePage
  split <;> simp_all

/-- `kfree` of a page that passes its checks. -/
lemma kfree_ok {v : UInt32} (hal : v.toNat % 4096 = 0) (hkend : k.kend ≤ v)
    (hphys : V2P v < PHYSTOP) :
    kfree v k = .ok () { k.fillPage v 0x01010101 with freelist := v :: k.freelist } := by
  have h₁ : ¬ (v % PGSIZE ≠ 0) := by
    rw [not_not, ← UInt32.toNat_inj]
    simpa [PGSIZE] using hal
  have h₂ : ¬ v < k.kend := fun h =>
    absurd (UInt32.le_iff_toNat_le.mp hkend) (Nat.not_le.mpr (UInt32.lt_iff_toNat_lt.mp h))
  have h₃ : ¬ V2P v ≥ PHYSTOP := fun h =>
    absurd (UInt32.le_iff_toNat_le.mp h) (Nat.not_le.mpr (UInt32.lt_iff_toNat_lt.mp hphys))
  simp only [kfree, h₁, h₂, h₃, or_self, if_false]

/-- `walkpgdir` on an entry whose table is there returns its slot, whatever `alloc` says. -/
lemma walkpgdir_table {a t : UInt32} (hat : tablePage k pgdir (PDX a) = some t) (alloc : Bool) :
    walkpgdir pgdir a alloc k = .ok (some (t, PTX a)) k :=
  walkpgdir_of_walk (by rw [walk_eq_tablePage, hat]; rfl) alloc

/-- `walkpgdir(pgdir, a, 1)` under a missing table with nothing free: a null pointer. -/
lemma walkpgdir_empty {a : UInt32} (hnone : tablePage k pgdir (PDX a) = none)
    (hfree : k.freelist = []) : walkpgdir pgdir a true k = .ok none k := by
  have h := Iff.mp tablePage_eq_none_iff hnone
  simp [walkpgdir, h, kalloc, hfree]

/-- `walkpgdir(pgdir, a, 1)` under a missing table: the head of the free list, zeroed, becomes
the table. -/
lemma walkpgdir_new {a t : UInt32} {rest : List UInt32} (hnone : tablePage k pgdir (PDX a) = none)
    (hfree : k.freelist = t :: rest) (ht : t ≠ 0) :
    walkpgdir pgdir a true k = .ok (some (t, PTX a))
      (({ k with freelist := rest }.fillPage t 0).writeWord pgdir (PDX a)
        (V2P t ||| PTE_P ||| PTE_W ||| PTE_U)) := by
  have h := Iff.mp tablePage_eq_none_iff hnone
  simp [walkpgdir, h, kalloc, hfree, ht]
  rfl

/-- The next page below `KERNBASE` does not wrap around. -/
lemma toNat_add_PGSIZE {a : UInt32} (ha : a.toNat < 2 ^ 31) :
    (a + PGSIZE).toNat = a.toNat + 4096 := by
  simp only [PGSIZE, UInt32.toNat_add, UInt32.toNat_ofNat]
  omega

/-- `PGROUNDUP` at `uint`: the sum wraps around at `2^32`. -/
lemma toNat_PGROUNDUP (x : UInt32) :
    (PGROUNDUP x).toNat = (x.toNat + 4095) % 2 ^ 32 / 4096 * 4096 := by
  have h : PGROUNDUP x = PTE_ADDR (x + 4095) := by
    rw [PGROUNDUP, PTE_ADDR, show (x + PGSIZE - 1 : UInt32) = x + 4095 by simp only [PGSIZE]; grind]
    rfl
  rw [h, toNat_PTE_ADDR, UInt32.toNat_add]
  rfl

/-- Where `deallocuvm` goes on after a missing table: the first page of the next directory
entry. -/
lemma toNat_nextTable {a : UInt32} (ha : a < KERNBASE) :
    (PGADDR (PDX a + 1) 0 0 - PGSIZE + PGSIZE).toNat = (a.toNat / 2 ^ 22 + 1) * 2 ^ 22 := by
  have hd := PDX_lt_of_lt_KERNBASE ha
  have h₁ : (PDX a + 1).toNat = (PDX a).toNat + 1 := by
    rw [UInt32.toNat_add, UInt32.toNat_one]
    omega
  rw [UInt32.sub_add_cancel, toNat_PGADDR _ (by omega), h₁, toNat_PDX]

variable {oldsz a : UInt32} {n : ℕ}

lemma deallocLoop_stop (h : ¬ a < oldsz) : deallocLoop pgdir oldsz (n + 1) a k = .ok () k := by
  simp [deallocLoop, h]

/-- A missing table: the loop goes on at the next directory entry. -/
lemma deallocLoop_skip (h : a < oldsz) (hnone : tablePage k pgdir (PDX a) = none) :
    deallocLoop pgdir oldsz (n + 1) a k =
      deallocLoop pgdir oldsz n (PGADDR (PDX a + 1) 0 0 - PGSIZE + PGSIZE) k := by
  have hw : walk k pgdir a = none := by rw [walk_eq_tablePage, hnone]; rfl
  simp [deallocLoop, h, hw]

/-- An entry that is not present: the loop goes on at the next page. -/
lemma deallocLoop_absent {t : UInt32} (h : a < oldsz) (hat : tablePage k pgdir (PDX a) = some t)
    (hp : k.mem t (PTX a) &&& PTE_P = 0) :
    deallocLoop pgdir oldsz (n + 1) a k = deallocLoop pgdir oldsz n (a + PGSIZE) k := by
  have hw : walk k pgdir a = some (t, PTX a) := by rw [walk_eq_tablePage, hat]; rfl
  simp [deallocLoop, h, hw, hp]

/-- A present entry: its frame goes to `kfree` and the entry is zeroed. -/
lemma deallocLoop_clear {t p : UInt32} (h : a < oldsz) (hat : tablePage k pgdir (PDX a) = some t)
    (hpres : k.mem t (PTX a) &&& PTE_P ≠ 0) (hp : ptePage (k.mem t (PTX a)) = p)
    (hpa : PTE_ADDR (k.mem t (PTX a)) ≠ 0) (hal : p.toNat % 4096 = 0) (hkend : k.kend ≤ p)
    (hphys : V2P p < PHYSTOP) :
    deallocLoop pgdir oldsz (n + 1) a k = deallocLoop pgdir oldsz n (a + PGSIZE)
      ({ k.fillPage p 0x01010101 with freelist := p :: k.freelist }.writeWord t (PTX a) 0) := by
  have hw : walk k pgdir a = some (t, PTX a) := by rw [walk_eq_tablePage, hat]; rfl
  have hp' : P2V (PTE_ADDR (k.mem t (PTX a))) = p := hp
  simp only [deallocLoop, if_pos h, bind_apply, walkpgdir_false, hw, get_apply]
  rw [if_pos hpres, if_neg hpa, hp', bind_apply, kfree_ok hal hkend hphys]
  rfl

end Runs

/-! ## Shrinking -/

/-- The page of `va` lies in `[lo, hi)`. -/
def InPages (lo hi va : UInt32) : Prop :=
  lo.toNat ≤ va.toNat / 4096 * 4096 ∧ va.toNat / 4096 * 4096 < hi.toNat

instance (lo hi va : UInt32) : Decidable (InPages lo hi va) :=
  inferInstanceAs (Decidable (_ ∧ _))

/-- What `deallocuvm`'s loop does from `a` to `oldsz`: the present pages of `[a, oldsz)` are
unmapped, their frames, and no other page, go on the free list, and only page memory changes;
the address space stays well formed. -/
structure Shrunk (pgdir a oldsz : UInt32) (k k' : Kernel) : Prop where
  space : Space k' pgdir
  mem : k.MemOnly k'
  tables : tablePage k' pgdir = tablePage k pgdir
  pte : ∀ va, va < KERNBASE →
    presentPte k' pgdir va = if InPages a oldsz va then none else presentPte k pgdir va
  freed : ∃ fs, k'.freelist = fs ++ k.freelist ∧ ∀ q, q ∈ fs ↔
    ∃ va pte, va < KERNBASE ∧ InPages a oldsz va ∧ presentPte k pgdir va = some pte ∧
      ptePage pte = q

section Shrink

variable {k k₁ k' : Kernel} {pgdir oldsz newsz a b : UInt32}

/-- An empty range: nothing changes. -/
lemma Shrunk.refl (hs : Space k pgdir) (hle : oldsz.toNat ≤ a.toNat) :
    Shrunk pgdir a oldsz k k := by
  have hnot : ∀ va, ¬ InPages a oldsz va := fun va h => by
    unfold InPages at h
    omega
  refine ⟨hs, Kernel.MemOnly.refl k, rfl, fun va _ => by rw [if_neg (hnot va)], [], rfl,
    fun q => ?_⟩
  simp only [List.not_mem_nil, false_iff]
  rintro ⟨va, pte, -, hin, -⟩
  exact hnot va hin

/-- Shrinking maps no new frame. -/
lemma Shrunk.isFrame (h : Shrunk pgdir a oldsz k k') {p : UInt32} (hp : IsFrame k' pgdir p) :
    IsFrame k pgdir p := by
  obtain ⟨va, pte, hva, hpte, hq⟩ := hp
  rw [h.pte va hva] at hpte
  split at hpte
  · cases hpte
  · exact ⟨va, pte, hva, hpte, hq⟩

/-- A page on the free list after shrinking was free before, or a frame. -/
lemma Shrunk.mem_freelist (h : Shrunk pgdir a oldsz k k') {q : UInt32} (hq : q ∈ k'.freelist) :
    q ∈ k.freelist ∨ IsFrame k pgdir q := by
  obtain ⟨fs, hfs, hfsmem⟩ := h.freed
  rw [hfs] at hq
  rcases List.mem_append.mp hq with hq | hq
  · obtain ⟨va, pte, hva, -, hpte, hp⟩ := (hfsmem q).mp hq
    exact .inr ⟨va, pte, hva, hpte, hp⟩
  · exact .inl hq

/-- Pages from `a` up to `b` that are not mapped: the loop from `a` does what it does from
`b`. -/
lemma Shrunk.extend_none (h : Shrunk pgdir b oldsz k k') (hab : a.toNat ≤ b.toNat)
    (hb : b.toNat % 4096 = 0)
    (hnone : ∀ va, va < KERNBASE → InPages a b va → presentPte k pgdir va = none) :
    Shrunk pgdir a oldsz k k' := by
  -- a page of `[a, oldsz)` is one of `[a, b)` or one of `[b, oldsz)`
  have hsplit : ∀ va, InPages a oldsz va → ¬ InPages b oldsz va → InPages a b va := by
    intro va h₁ h₂
    unfold InPages at h₁ h₂ ⊢
    omega
  have hsub : ∀ va, InPages b oldsz va → InPages a oldsz va := by
    intro va h₁
    unfold InPages at h₁ ⊢
    omega
  obtain ⟨fs, hfs, hmem⟩ := h.freed
  refine ⟨h.space, h.mem, h.tables, fun va hva => ?_, fs, hfs, fun q => ?_⟩
  · rw [h.pte va hva]
    by_cases h₁ : InPages b oldsz va
    · rw [if_pos h₁, if_pos (hsub va h₁)]
    · rw [if_neg h₁]
      split
      · exact hnone va hva (hsplit va ‹_› h₁)
      · rfl
  · rw [hmem q]
    constructor
    · rintro ⟨va, pte, hva, hin, hpte, hq⟩
      exact ⟨va, pte, hva, hsub va hin, hpte, hq⟩
    · rintro ⟨va, pte, hva, hin, hpte, hq⟩
      refine ⟨va, pte, hva, ?_, hpte, hq⟩
      by_contra hb'
      rw [hnone va hva (hsplit va hin hb')] at hpte
      cases hpte

/-- The frame of `a`'s page given back and its entry cleared, then the loop from the next
page: together, the loop from `a`. -/
lemma Shrunk.extend_clear (h : Shrunk pgdir (a + PGSIZE) oldsz k₁ k') (ha : a.toNat % 4096 = 0)
    (hlt : a < oldsz) (hold : oldsz ≤ KERNBASE) {p pte : UInt32}
    (hpte : presentPte k pgdir a = some pte) (hp : ptePage pte = p)
    (hmem₁ : k.MemOnly k₁) (htab₁ : tablePage k₁ pgdir = tablePage k pgdir)
    (hfree₁ : k₁.freelist = p :: k.freelist)
    (hpte₁ : ∀ va, va < KERNBASE → presentPte k₁ pgdir va =
      if va.toNat / 4096 = a.toNat / 4096 then none else presentPte k pgdir va) :
    Shrunk pgdir a oldsz k k' := by
  have hlt' : a.toNat < oldsz.toNat := UInt32.lt_iff_toNat_lt.mp hlt
  have hold' : oldsz.toNat ≤ 2 ^ 31 := UInt32.le_iff_toNat_le.mp hold
  have hnext := toNat_add_PGSIZE (show a.toNat < 2 ^ 31 by omega)
  -- a page of `[a, oldsz)` is `a`'s own or one of `[a + PGSIZE, oldsz)`
  have hsplit : ∀ va, InPages a oldsz va ↔
      va.toNat / 4096 = a.toNat / 4096 ∨ InPages (a + PGSIZE) oldsz va := by
    intro va
    unfold InPages
    rw [hnext]
    omega
  have hother : ∀ va, InPages (a + PGSIZE) oldsz va → va.toNat / 4096 ≠ a.toNat / 4096 := by
    intro va h₁
    unfold InPages at h₁
    rw [hnext] at h₁
    omega
  obtain ⟨fs, hfs, hmem⟩ := h.freed
  refine ⟨h.space, hmem₁.trans h.mem, h.tables.trans htab₁, fun va hva => ?_,
    fs ++ [p], by rw [hfs, hfree₁, List.append_assoc, List.singleton_append], fun q => ?_⟩
  · rw [h.pte va hva, hpte₁ va hva]
    by_cases h₁ : InPages (a + PGSIZE) oldsz va
    · rw [if_pos h₁, if_pos ((hsplit va).mpr (.inr h₁))]
    · rw [if_neg h₁]
      by_cases h₂ : va.toNat / 4096 = a.toNat / 4096
      · rw [if_pos h₂, if_pos ((hsplit va).mpr (.inl h₂))]
      · rw [if_neg h₂, if_neg (fun h₃ => ((hsplit va).mp h₃).elim h₂ h₁)]
  · rw [List.mem_append, hmem q, List.mem_singleton]
    constructor
    · rintro (⟨va, pte', hva, hin, hpte', hq⟩ | rfl)
      · rw [hpte₁ va hva, if_neg (hother va hin)] at hpte'
        exact ⟨va, pte', hva, (hsplit va).mpr (.inr hin), hpte', hq⟩
      · exact ⟨a, pte, UInt32.lt_iff_toNat_lt.mpr (show a.toNat < 2 ^ 31 by omega),
          (hsplit a).mpr (.inl rfl), hpte, hp⟩
    · rintro ⟨va, pte', hva, hin, hpte', hq⟩
      rcases (hsplit va).mp hin with hsame | hin
      · -- `a`'s page has one entry, whose frame is `p`
        rw [presentPte_page hsame, hpte] at hpte'
        cases hpte'
        exact .inr (hq.symm.trans hp)
      · refine .inl ⟨va, pte', hva, hin, ?_, hq⟩
        rw [hpte₁ va hva, if_neg (hother va hin)]
        exact hpte'

/-- `deallocuvm`'s loop from a page-aligned `a`, with fuel for the pages of `[a, oldsz)`,
returns and does `Shrunk`.  The induction is on the fuel, one case per branch of a pass. -/
theorem deallocLoop_spec (hold : oldsz ≤ KERNBASE) :
    ∀ (n : ℕ) {k : Kernel} {a : UInt32}, Space k pgdir → a.toNat % 4096 = 0 →
      (oldsz.toNat - a.toNat + 4095) / 4096 ≤ n →
        ∃ k', deallocLoop pgdir oldsz n a k = .ok () k' ∧ Shrunk pgdir a oldsz k k'
  | 0, k, a, hs, _, hn => ⟨k, rfl, Shrunk.refl hs (by omega)⟩
  | n + 1, k, a, hs, ha, hn => by
    have hold' : oldsz.toNat ≤ 2 ^ 31 := UInt32.le_iff_toNat_le.mp hold
    by_cases hlt : a < oldsz
    case neg =>
      exact ⟨k, deallocLoop_stop hlt,
        Shrunk.refl hs (Nat.not_lt.mp (mt UInt32.lt_iff_toNat_lt.mpr hlt))⟩
    have hlt' : a.toNat < oldsz.toNat := UInt32.lt_iff_toNat_lt.mp hlt
    have haK : a < KERNBASE := UInt32.lt_iff_toNat_lt.mpr (show a.toNat < 2 ^ 31 by omega)
    cases hat : tablePage k pgdir (PDX a) with
    | none =>
      -- no table: the rest of the directory entry's region is unmapped
      have hb := toNat_nextTable haK
      obtain ⟨k', hrun, hk'⟩ :=
        deallocLoop_spec hold n hs (by rw [hb]; omega) (by rw [hb]; omega)
      refine ⟨k', (deallocLoop_skip hlt hat).trans hrun,
        hk'.extend_none (by rw [hb]; omega) (by rw [hb]; omega) fun va _ hin => ?_⟩
      have hpdx : PDX va = PDX a := by
        unfold InPages at hin
        rw [hb] at hin
        rw [← UInt32.toNat_inj, toNat_PDX, toNat_PDX]
        omega
      rw [presentPte_eq, hpdx, hat]
      rfl
    | some t =>
      have hb := toNat_add_PGSIZE (show a.toNat < 2 ^ 31 by omega)
      by_cases hpres : k.mem t (PTX a) &&& PTE_P = 0
      · -- an absent entry: `a`'s page is unmapped
        obtain ⟨k', hrun, hk'⟩ :=
          deallocLoop_spec hold n hs (by rw [hb]; omega) (by rw [hb]; omega)
        refine ⟨k', (deallocLoop_absent hlt hat hpres).trans hrun,
          hk'.extend_none (by rw [hb]; omega) (by rw [hb]; omega) fun va _ hin => ?_⟩
        have hsame : va.toNat / 4096 = a.toNat / 4096 := by
          unfold InPages at hin
          rw [hb] at hin
          omega
        rw [presentPte_page hsame, presentPte_eq, hat]
        simp [hpres]
      · -- a present entry: its frame passes `kfree`'s checks, and is not physical page 0
        have hpte : presentPte k pgdir a = some (k.mem t (PTX a)) := by
          rw [presentPte_eq, hat]
          simpa using hpres
        obtain ⟨hkend, hphys⟩ := hs.frame_ok a _ haK hpte
        have hpa : PTE_ADDR (k.mem t (PTX a)) ≠ 0 := fun h0 => by
          rw [ptePage, h0, show P2V 0 = KERNBASE from rfl] at hkend
          exact absurd (UInt32.lt_iff_toNat_lt.mp hs.kend_gt)
            (Nat.not_lt.mpr (UInt32.le_iff_toNat_le.mp hkend))
        have hphys' : V2P (ptePage (k.mem t (PTX a))) < PHYSTOP := by
          rw [ptePage, V2P_P2V]
          exact hphys
        have hal := ptePage_aligned (k.mem t (PTX a))
        generalize hp : ptePage (k.mem t (PTX a)) = p at hkend hphys' hal
        obtain ⟨k', hrun, hk'⟩ := deallocLoop_spec hold n (hs.unmap haK hat hpte hp)
          (by rw [hb]; omega) (by rw [hb]; omega)
        refine ⟨k', (deallocLoop_clear hlt hat hpres hp hpa hal hkend hphys').trans hrun,
          hk'.extend_clear ha hlt hold hpte hp ?_ (tablePage_unmap hs haK hat hpte hp) rfl
            fun va hva => presentPte_unmap hs haK hat hpte hp hva⟩
        exact ((memOnly_fillPage k p _).trans (memOnly_freelist _ _)).trans
          (memOnly_writeWord _ _ _ _)

/-- `deallocuvm(pgdir, oldsz, newsz)` for `newsz < oldsz ≤ KERNBASE` returns `newsz`, having
unmapped the pages of `[PGROUNDUP(newsz), oldsz)`: the `oldsz / PGSIZE + 1` passes it allows
its loop are enough. -/
theorem deallocuvm_spec (hs : Space k pgdir) (hold : oldsz ≤ KERNBASE)
    (hlt : newsz < oldsz) :
    ∃ k', deallocuvm pgdir oldsz newsz k = .ok newsz k' ∧
      Shrunk pgdir (PGROUNDUP newsz) oldsz k k' := by
  have hup := toNat_PGROUNDUP newsz
  obtain ⟨k', hrun, hk'⟩ := deallocLoop_spec hold (oldsz.toNat / 4096 + 1) hs
    (by rw [hup]; omega) (by omega)
  refine ⟨k', ?_, hk'⟩
  rw [deallocuvm, if_neg (UInt32.not_le.mpr hlt), bind_apply, hrun]
  rfl

end Shrink

end Xv6
