import Xv6.Kernel.Shrink

/-!
# Growing an address space (vm.c: allocuvm)

`allocuvm(pgdir, oldsz, newsz)` maps the pages of `[PGROUNDUP(oldsz), newsz)` to fresh zeroed
frames, one `kalloc` and one `mappages` a page, and returns `newsz`; when `kalloc` runs dry it
undoes its work with `deallocuvm(pgdir, newsz, oldsz)` and returns `0`.  On a well-formed
address space whose pages in that range are unmapped:

* `Grown`: what the loop has done after each pass, from the fresh frames it maps to the pages
  it took off the free list;
* `RolledBack`: what is left after the failure path, every user mapping as before and the
  free list, as a set, as before apart from the page tables that stay in the directory;
* `allocuvm_spec`: the call ends in one of the two.
-/

namespace Xv6

open Prog

/-! ## One pass of the loop -/

section Runs

variable {k : Kernel} {pgdir a pa perm : UInt32}

/-- `mappages` of one page under a table that is there. -/
lemma mappages_table {t : UInt32} (ha : a.toNat % 4096 = 0)
    (hat : tablePage k pgdir (PDX a) = some t) (hent : k.mem t (PTX a) &&& PTE_P = 0) :
    mappages pgdir a PGSIZE pa perm k = .ok 0 (k.writeWord t (PTX a) (pa ||| perm ||| PTE_P)) := by
  rw [mappages_page ha]
  simp [mapLoop, walkpgdir_table hat, hent, map_apply]

/-- `mappages` of one page under a missing table: the head of the free list becomes the table. -/
lemma mappages_newTable {t : UInt32} {rest : List UInt32} (ha : a.toNat % 4096 = 0)
    (hnone : tablePage k pgdir (PDX a) = none) (hfree : k.freelist = t :: rest) (ht : t ≠ 0)
    (htdir : t ≠ pgdir) :
    mappages pgdir a PGSIZE pa perm k = .ok 0
      ((({ k with freelist := rest }.fillPage t 0).writeWord pgdir (PDX a)
        (V2P t ||| PTE_P ||| PTE_W ||| PTE_U)).writeWord t (PTX a) (pa ||| perm ||| PTE_P)) := by
  -- the new table is zero, so the entry of `a` in it is not present
  have hent : (({ k with freelist := rest }.fillPage t 0).writeWord pgdir (PDX a)
      (V2P t ||| PTE_P ||| PTE_W ||| PTE_U)).mem t (PTX a) &&& PTE_P = 0 := by
    rw [writeWord_mem_of_ne _ _ _ _ htdir]
    simp
  rw [mappages_page ha]
  simp [mapLoop, walkpgdir_new hnone hfree ht, hent, map_apply, -Kernel.writeWord_mem,
    -Kernel.fillPage_mem]

/-- `mappages` of one page under a missing table, with nothing free: `-1`. -/
lemma mappages_noTable (ha : a.toNat % 4096 = 0) (hnone : tablePage k pgdir (PDX a) = none)
    (hfree : k.freelist = []) : mappages pgdir a PGSIZE pa perm k = .ok (-1) k := by
  rw [mappages_page ha]
  simp [mapLoop, walkpgdir_empty hnone hfree]

variable {oldsz newsz : UInt32} {n : ℕ}

lemma allocLoop_stop (h : ¬ a < newsz) : allocLoop pgdir oldsz newsz (n + 1) a k = .ok true k := by
  simp [allocLoop, h]

/-- Nothing free for the page: the loop undoes its work and fails. -/
lemma allocLoop_empty {r : UInt32} {kd : Kernel} (h : a < newsz) (hfree : k.freelist = [])
    (hd : deallocuvm pgdir newsz oldsz k = .ok r kd) :
    allocLoop pgdir oldsz newsz (n + 1) a k = .ok false kd := by
  simp [allocLoop, h, hfree, hd, map_apply]

/-- A page from the free list, zeroed and mapped: the loop goes on at the next page. -/
lemma allocLoop_mapped {mem : UInt32} {r : Int32} {rest : List UInt32} {k₂ : Kernel} (h : a < newsz)
    (hfree : k.freelist = mem :: rest) (hmem : mem ≠ 0)
    (hmap : mappages pgdir a PGSIZE (V2P mem) (PTE_W ||| PTE_U)
      ({ k with freelist := rest }.fillPage mem 0) = .ok r k₂) (hr : ¬ r < 0) :
    allocLoop pgdir oldsz newsz (n + 1) a k = allocLoop pgdir oldsz newsz n (a + PGSIZE) k₂ := by
  simp [allocLoop, h, kalloc_cons hfree, hmem, hmap, hr]

/-- A page from the free list that `mappages` cannot map: the loop undoes its work, gives the
page back and fails. -/
lemma allocLoop_unmapped {mem r' : UInt32} {r : Int32} {rest : List UInt32} {k₂ kd kf : Kernel}
    (h : a < newsz) (hfree : k.freelist = mem :: rest) (hmem : mem ≠ 0)
    (hmap : mappages pgdir a PGSIZE (V2P mem) (PTE_W ||| PTE_U)
      ({ k with freelist := rest }.fillPage mem 0) = .ok r k₂) (hr : r < 0)
    (hd : deallocuvm pgdir newsz oldsz k₂ = .ok r' kd) (hkf : kfree mem kd = .ok () kf) :
    allocLoop pgdir oldsz newsz (n + 1) a k = .ok false kf := by
  simp [allocLoop, h, kalloc_cons hfree, hmem, hmap, hr, hd, hkf, map_apply]

end Runs

/-! ## What the loop has done -/

/-- What `allocuvm`'s loop has done from `k` between `a` and `b`: each page of `[a, b)` maps,
with the user bits `PTE_P | PTE_W | PTE_U` (`7`), a zeroed frame that was on `k`'s free list;
every other mapping is as in `k`; the pages taken off the head of the free list are those
frames and new page tables; and the address space is well formed. -/
structure Grown (pgdir a b : UInt32) (k k' : Kernel) : Prop where
  space : Space k' pgdir
  mem : k.MemOnly k'
  tables : ∀ t, IsTable k' pgdir t → IsTable k pgdir t ∨ t ∈ k.freelist
  pte : ∀ va, va < KERNBASE → ¬ InPages a b va → presentPte k' pgdir va = presentPte k pgdir va
  fresh : ∀ va, va < KERNBASE → InPages a b va →
    ∃ p, presentPte k' pgdir va = some (V2P p ||| 7) ∧ p ∈ k.freelist ∧ k'.mem p = fun _ => 0
  taken : ∃ taken, k.freelist = taken ++ k'.freelist ∧ ∀ q ∈ taken, IsTable k' pgdir q ∨
    ∃ va pte, va < KERNBASE ∧ InPages a b va ∧ presentPte k' pgdir va = some pte ∧ ptePage pte = q

/-- What the failure path leaves: every user mapping as in `k`, and the free list that of `k`,
as a set, without the pages that became page tables, which stay in the directory. -/
structure RolledBack (pgdir : UInt32) (k k' : Kernel) : Prop where
  space : Space k' pgdir
  mem : k.MemOnly k'
  tables : ∀ t, IsTable k' pgdir t → IsTable k pgdir t ∨ t ∈ k.freelist
  pte : ∀ va, va < KERNBASE → presentPte k' pgdir va = presentPte k pgdir va
  free : ∀ q, q ∈ k'.freelist ↔ q ∈ k.freelist ∧ ¬ IsTable k' pgdir q

section Grow

variable {k₀ k k₁ kt kd kf : Kernel} {pgdir a₀ a b c : UInt32}

/-- Nothing done yet. -/
lemma Grown.refl (hs : Space k pgdir) : Grown pgdir a a k k := by
  have hnot : ∀ va, ¬ InPages a a va := fun va h => by
    unfold InPages at h
    omega
  refine ⟨hs, Kernel.MemOnly.refl k, fun t ht => .inl ht, fun _ _ _ => rfl,
    fun va _ h => (hnot va h).elim, [], rfl, ?_⟩
  simp

/-- The same pages under another upper bound. -/
lemma Grown.congr_end (h : Grown pgdir a b k₀ k) (hiff : ∀ va, InPages a b va ↔ InPages a c va) :
    Grown pgdir a c k₀ k := by
  obtain ⟨taken, htk, htaken⟩ := h.taken
  refine ⟨h.space, h.mem, h.tables, fun va hva hin => h.pte va hva (mt (hiff va).mp hin),
    fun va hva hin => h.fresh va hva ((hiff va).mpr hin), taken, htk, fun q hq => ?_⟩
  rcases htaken q hq with ht | ⟨va, pte, hva, hin, hpte, hp⟩
  · exact .inl ht
  · exact .inr ⟨va, pte, hva, (hiff va).mp hin, hpte, hp⟩

/-- One pass that maps `a`'s page to `mem`: from a state `kt` that differs from `k` by the new
page tables `new` and by `mem`, zeroed and taken off the free list, the store of `mem`'s entry
extends what the loop has done by a page. -/
lemma Grown.map (hg : Grown pgdir a₀ a k₀ k) (hk₀ : FreeOk k₀) (ha₀ : a₀.toNat ≤ a.toNat)
    (hal : a.toNat % 4096 = 0) (haK : a < KERNBASE) {mem t : UInt32} (new : List UInt32)
    (hst : Space kt pgdir) (hmem : k.MemOnly kt)
    (hat : tablePage kt pgdir (PDX a) = some t)
    (htabs : ∀ q, IsTable kt pgdir q ↔ IsTable k pgdir q ∨ q ∈ new)
    (hpte : ∀ va, va < KERNBASE → presentPte kt pgdir va = presentPte k pgdir va)
    (hfree : k.freelist = mem :: new ++ kt.freelist) (hzero : kt.mem mem = fun _ => 0)
    (hframes : ∀ p, IsFrame k pgdir p → kt.mem p = k.mem p) :
    Grown pgdir a₀ (a + PGSIZE) k₀
      (kt.writeWord t (PTX a) (V2P mem ||| (PTE_W ||| PTE_U) ||| PTE_P)) := by
  have hs := hg.space
  obtain ⟨taken, htk, htaken⟩ := hg.taken
  -- `mem` is none of the pages of `kt`'s address space
  have hmk : mem ∈ k.freelist := by
    rw [hfree]
    exact List.mem_cons_self
  obtain ⟨hmdir, hmtab, hmframe⟩ := hs.free_facts hmk
  have hmnot : mem ∉ new ++ kt.freelist := by
    have hnd := hs.free_nodup
    rw [hfree] at hnd
    exact (List.nodup_cons.mp hnd).1
  have hmtab' : ¬ IsTable kt pgdir mem := fun h =>
    ((htabs mem).mp h).elim hmtab fun hn => hmnot (List.mem_append_left _ hn)
  have hF := isFrame_congr hpte
  obtain ⟨hmal, hkend, hphys⟩ := hs.free_ok mem hmk
  have hs₂ := hst.setEntry haK hat hmal (hmem.kend ▸ hkend) hphys hmdir hmtab'
    (fun h => hmframe ((hF mem).mp h)) (fun h => hmnot (List.mem_append_right _ h))
  have httab : IsTable kt pgdir t := ⟨PDX a, PDX_lt_of_lt_KERNBASE haK, hat⟩
  have hT₂ := isTable_congr (tablePage_congr (writeWord_mem_of_ne kt t (PTX a)
    (V2P mem ||| (PTE_W ||| PTE_U) ||| PTE_P) (Ne.symm (hst.table_ne_dir t httab))))
  -- after the store `a`'s page maps `mem`, and the others are as in `k`
  have hpte₂ : ∀ va, va < KERNBASE →
      presentPte (kt.writeWord t (PTX a) (V2P mem ||| (PTE_W ||| PTE_U) ||| PTE_P)) pgdir va =
        if va.toNat / 4096 = a.toNat / 4096 then some (V2P mem ||| 7)
        else presentPte k pgdir va := by
    intro va hva
    rw [presentPte_setEntry hst.toTables haK hat _ hva, hpte va hva, userEntry_eq,
      if_pos (present_or_seven (V2P_aligned hmal)).1]
  have hnext := toNat_add_PGSIZE (UInt32.lt_iff_toNat_lt.mp haK)
  -- a page of `[a₀, a + PGSIZE)` is `a`'s own or one of `[a₀, a)`
  have hsplit : ∀ va, InPages a₀ (a + PGSIZE) va ↔
      va.toNat / 4096 = a.toNat / 4096 ∨ InPages a₀ a va := by
    intro va
    unfold InPages
    rw [hnext]
    omega
  have hother : ∀ va, InPages a₀ a va → va.toNat / 4096 ≠ a.toNat / 4096 := by
    intro va h
    unfold InPages at h
    omega
  refine ⟨hs₂, (hg.mem.trans hmem).trans (memOnly_writeWord _ _ _ _), fun q hq => ?_,
    fun va hva hin => ?_, fun va hva hin => ?_, taken ++ mem :: new, ?_, fun q hq => ?_⟩
  · -- a table is one of `k`'s or a new one
    rcases (htabs q).mp ((hT₂ q).mp hq) with hq | hq
    · exact hg.tables q hq
    · refine .inr ?_
      rw [htk, hfree]
      simp [hq]
  · have hne : va.toNat / 4096 ≠ a.toNat / 4096 := fun h => hin ((hsplit va).mpr (.inl h))
    rw [hpte₂ va hva, if_neg hne]
    exact hg.pte va hva fun h => hin ((hsplit va).mpr (.inr h))
  · rw [hpte₂ va hva]
    rcases (hsplit va).mp hin with hsame | hin
    · refine ⟨mem, if_pos hsame, ?_, ?_⟩
      · rw [htk]
        exact List.mem_append_right _ hmk
      · rw [writeWord_mem_of_ne _ _ _ _ (fun he : mem = t => hmtab' (he ▸ httab)), hzero]
    · -- an older page: its frame is none of the pages the pass wrote
      obtain ⟨p, hp, hp₀, hz⟩ := hg.fresh va hva hin
      have hpf : IsFrame k pgdir p := ⟨va, _, hva, hp, ptePage_user (hk₀ p hp₀).1⟩
      refine ⟨p, by rw [if_neg (hother va hin)]; exact hp, hp₀, ?_⟩
      rw [writeWord_mem_of_ne _ _ _ _
        (fun he : p = t => hst.frame_not_table p ((hF p).mpr hpf) (he ▸ httab)), hframes p hpf, hz]
  · rw [htk, hfree]
    simp
  · rcases List.mem_append.mp hq with hq | hq
    · rcases htaken q hq with ht | ⟨va, pte, hva, hin, hp, hpq⟩
      · exact .inl ((hT₂ q).mpr ((htabs q).mpr (.inl ht)))
      · refine .inr ⟨va, pte, hva, (hsplit va).mpr (.inr hin), ?_, hpq⟩
        rw [hpte₂ va hva, if_neg (hother va hin)]
        exact hp
    · rcases List.mem_cons.mp hq with rfl | hq
      · exact .inr ⟨a, _, haK, (hsplit a).mpr (.inl rfl), by rw [hpte₂ a haK, if_pos rfl],
          ptePage_user hmal⟩
      · exact .inl ((hT₂ q).mpr ((htabs q).mpr (.inr hq)))

/-- The failure path: what is left of the free list is moved aside (`k₁`, with the address
space of `k`), `deallocuvm` unmaps `[a₀, newsz)` (`kd`), and the pages moved aside go back
(`kf`).  Every mapping is then as in `k₀`, and the free list that of `k₀` without the new page
tables. -/
lemma Grown.rollback (hg : Grown pgdir a₀ a k₀ k) (hk₀ : FreeOk k₀) {newsz : UInt32}
    (hunm : ∀ va, va < KERNBASE → InPages a₀ newsz va → presentPte k₀ pgdir va = none)
    (ha : a.toNat ≤ newsz.toNat)
    (hmem₁ : k.MemOnly k₁) (htab₁ : tablePage k₁ pgdir = tablePage k pgdir)
    (hpte₁ : ∀ va, va < KERNBASE → presentPte k₁ pgdir va = presentPte k pgdir va)
    (hfree₁ : k₁.freelist = []) (hd : Shrunk pgdir a₀ newsz k₁ kd)
    (hsf : Space kf pgdir) (hmemf : kd.MemOnly kf)
    (htabf : tablePage kf pgdir = tablePage kd pgdir)
    (hptef : ∀ va, va < KERNBASE → presentPte kf pgdir va = presentPte kd pgdir va)
    (hfreef : kf.freelist = k.freelist ++ kd.freelist) :
    RolledBack pgdir k₀ kf := by
  obtain ⟨fs, hfs, hfsmem⟩ := hd.freed
  obtain ⟨taken, htk, htaken⟩ := hg.taken
  have hT : ∀ q, IsTable kf pgdir q ↔ IsTable k pgdir q :=
    isTable_congr (htabf.trans (hd.tables.trans htab₁))
  have hsub : ∀ va, InPages a₀ a va → InPages a₀ newsz va := fun va h => by
    unfold InPages at h ⊢
    omega
  refine ⟨hsf, ((hg.mem.trans hmem₁).trans hd.mem).trans hmemf,
    fun q hq => hg.tables q ((hT q).mp hq), fun va hva => ?_, fun q => ?_⟩
  · rw [hptef va hva, hd.pte va hva]
    split
    · exact (hunm va hva ‹_›).symm
    · rw [hpte₁ va hva, hg.pte va hva fun h => ‹¬ _› (hsub va h)]
  · rw [hfreef, hfs, hfree₁, List.append_nil, List.mem_append, hfsmem q]
    constructor
    · rintro (hq | ⟨va, pte, hva, hin, hp, rfl⟩)
      · refine ⟨?_, fun ht => hg.space.table_not_free _ ((hT _).mp ht) hq⟩
        rw [htk]
        exact List.mem_append_right _ hq
      · rw [hpte₁ va hva] at hp
        -- the pages of `[a, newsz)` were not mapped, so this is one of the loop's
        have hin' : InPages a₀ a va := by
          by_contra hn
          rw [hg.pte va hva hn, hunm va hva hin] at hp
          cases hp
        obtain ⟨p, hp', hp₀, -⟩ := hg.fresh va hva hin'
        obtain rfl := Option.some.inj (hp'.symm.trans hp)
        have hpp := ptePage_user (hk₀ p hp₀).1
        rw [hpp]
        exact ⟨hp₀, fun ht => hg.space.frame_not_table p ⟨va, _, hva, hp', hpp⟩ ((hT p).mp ht)⟩
    · rintro ⟨hq, hnt⟩
      rw [htk] at hq
      rcases List.mem_append.mp hq with hq | hq
      · rcases htaken q hq with ht | ⟨va, pte, hva, hin, hp, hpq⟩
        · exact absurd ((hT q).mpr ht) hnt
        · exact .inr ⟨va, pte, hva, hsub va hin, by rw [hpte₁ va hva]; exact hp, hpq⟩
      · exact .inl hq

/-- A page on a good free list is not the null pointer `kalloc` fails with. -/
lemma ne_zero_of_free (hs : Space k pgdir) {p : UInt32} (hp : p ∈ k.freelist) : p ≠ 0 := by
  rintro rfl
  have h₁ := UInt32.lt_iff_toNat_lt.mp hs.kend_gt
  have h₂ := UInt32.le_iff_toNat_le.mp (hs.free_ok 0 hp).2.1
  simp [KERNBASE] at h₁ h₂
  omega

/-- The loop stops at the first page at or above `newsz`: the pages done are those below
`newsz`. -/
lemma Grown.finish (hg : Grown pgdir a₀ a k₀ k) {newsz : UInt32} (hal : a.toNat % 4096 = 0)
    (hle : newsz.toNat ≤ a.toNat) (hlt : a.toNat < newsz.toNat + 4096) :
    Grown pgdir a₀ newsz k₀ k :=
  hg.congr_end fun va => by
    unfold InPages
    omega

variable {oldsz newsz : UInt32} {n : ℕ}

/-- A pass with a page for the frame and, if `a`'s table is missing, one for the table: `a`'s
page is mapped and the loop goes on. -/
lemma Grown.pass (hg : Grown pgdir a₀ a k₀ k) (hk₀ : FreeOk k₀) (ha₀ : a₀.toNat ≤ a.toNat)
    (hal : a.toNat % 4096 = 0) (hlt : a < newsz) (hnew : newsz < KERNBASE)
    (hunm : presentPte k pgdir a = none) {mem : UInt32} {rest : List UInt32}
    (hfree : k.freelist = mem :: rest) (hroom : tablePage k pgdir (PDX a) = none → rest ≠ []) :
    ∃ k₂, allocLoop pgdir oldsz newsz (n + 1) a k = allocLoop pgdir oldsz newsz n (a + PGSIZE) k₂ ∧
      Grown pgdir a₀ (a + PGSIZE) k₀ k₂ := by
  have hs := hg.space
  have haK : a < KERNBASE :=
    UInt32.lt_iff_toNat_lt.mpr (Nat.lt_trans (UInt32.lt_iff_toNat_lt.mp hlt)
      (UInt32.lt_iff_toNat_lt.mp hnew))
  have hmk : mem ∈ k.freelist := by
    rw [hfree]
    exact List.mem_cons_self
  obtain ⟨hmdir, hmtab, hmframe⟩ := hs.free_facts hmk
  have hmem0 := ne_zero_of_free hs hmk
  obtain ⟨hs₁, htab₁, hpte₁⟩ := hs.take hfree
  -- `mem` is zeroed and no other page is touched
  have hz₁ : ({ k with freelist := rest }.fillPage mem 0).mem mem = fun _ => 0 := by
    simp [Kernel.fillPage]
  have hframes₁ : ∀ p, IsFrame k pgdir p →
      ({ k with freelist := rest }.fillPage mem 0).mem p = k.mem p :=
    fun p hp => fillPage_mem_of_ne _ _ _ fun he => hmframe (he ▸ hp)
  have hmem₁ : k.MemOnly ({ k with freelist := rest }.fillPage mem 0) :=
    (memOnly_freelist k rest).trans (memOnly_fillPage _ mem 0)
  cases hat : tablePage k pgdir (PDX a) with
  | some t =>
    -- `a`'s entry in its table is not present
    have hent : ({ k with freelist := rest }.fillPage mem 0).mem t (PTX a) &&& PTE_P = 0 := by
      have htm : t ≠ mem := fun he => hmtab (he ▸ ⟨PDX a, PDX_lt_of_lt_KERNBASE haK, hat⟩)
      rw [fillPage_mem_of_ne _ _ _ htm]
      rw [presentPte_eq, hat] at hunm
      simpa using hunm
    have hat₁ := (congrFun htab₁ (PDX a)).trans hat
    refine ⟨_, allocLoop_mapped hlt hfree hmem0 (mappages_table hal hat₁ hent) (by decide),
      hg.map hk₀ ha₀ hal haK [] hs₁ hmem₁ hat₁ (fun q => by rw [isTable_congr htab₁]; simp) hpte₁
        (by rw [hfree]; rfl) hz₁ hframes₁⟩
  | none =>
    -- the next page of the free list becomes `a`'s table
    obtain ⟨t, rest', rfl⟩ := List.exists_cons_of_ne_nil (hroom hat)
    have htk : t ∈ k.freelist := by
      rw [hfree]
      exact List.mem_cons_of_mem _ List.mem_cons_self
    obtain ⟨htdir, httab, htframe⟩ := hs.free_facts htk
    have hmt : mem ≠ t := by
      have hnd := hs.free_nodup
      rw [hfree] at hnd
      exact fun he => (List.nodup_cons.mp hnd).1 (he ▸ List.mem_cons_self)
    have hnone₁ := (congrFun htab₁ (PDX a)).trans hat
    have htal : t.toNat % 4096 = 0 := (hs.free_ok t htk).1
    refine ⟨_, allocLoop_mapped hlt hfree hmem0
      (mappages_newTable hal hnone₁ rfl (ne_zero_of_free hs htk) htdir) (by decide),
      hg.map hk₀ ha₀ hal haK [t] (hs₁.addTable haK rfl hnone₁)
        (hmem₁.trans ((memOnly_freelist _ _).trans ((memOnly_fillPage _ _ _).trans
          (memOnly_writeWord _ _ _ _))))
        (by rw [tablePage_addTable hs₁ rfl, if_pos rfl])
        (fun q => by rw [isTable_addTable hs₁ haK rfl hnone₁, isTable_congr htab₁]; simp [or_comm])
        (fun va hva => (presentPte_addTable (hs₁.pop rfl).toTables hnone₁ htal htdir
          (fun h => httab ((isTable_congr htab₁ t).mp h)) hva).trans (hpte₁ va hva))
        (by rw [hfree]; rfl) ?_ fun p hp => ?_⟩
    · rw [writeWord_mem_of_ne _ _ _ _ hmdir, fillPage_mem_of_ne _ _ _ hmt]
      exact hz₁
    · have hpt : p ≠ t := fun he => hs.frame_not_free p hp (he ▸ htk)
      rw [writeWord_mem_of_ne _ _ _ _ (hs.frame_ne_dir p hp), fillPage_mem_of_ne _ _ _ hpt]
      exact hframes₁ p hp

/-- A pass with nothing free: the loop fails, and what it did is undone. -/
lemma Grown.dry (hg : Grown pgdir (PGROUNDUP oldsz) a k₀ k) (hk₀ : FreeOk k₀) (hlt : a < newsz)
    (hnew : newsz < KERNBASE) (hold : oldsz < newsz)
    (hunm : ∀ va, va < KERNBASE → InPages (PGROUNDUP oldsz) newsz va →
      presentPte k₀ pgdir va = none) (hfree : k.freelist = []) :
    ∃ kf, allocLoop pgdir oldsz newsz (n + 1) a k = .ok false kf ∧ RolledBack pgdir k₀ kf := by
  obtain ⟨kd, hd, hkd⟩ := deallocuvm_spec hg.space (UInt32.le_of_lt hnew) hold
  exact ⟨kd, allocLoop_empty hlt hfree hd,
    hg.rollback hk₀ hunm (Nat.le_of_lt (UInt32.lt_iff_toNat_lt.mp hlt)) (Kernel.MemOnly.refl k)
      rfl (fun _ _ => rfl) hfree hkd hkd.space (Kernel.MemOnly.refl kd) rfl (fun _ _ => rfl)
      (by rw [hfree]; rfl)⟩

/-- A pass with the last free page for the frame and no table for it: `mappages` fails, the
loop undoes what it did and gives the page back. -/
lemma Grown.noTable (hg : Grown pgdir (PGROUNDUP oldsz) a k₀ k) (hk₀ : FreeOk k₀)
    (hal : a.toNat % 4096 = 0) (hlt : a < newsz) (hnew : newsz < KERNBASE) (hold : oldsz < newsz)
    (hunm : ∀ va, va < KERNBASE → InPages (PGROUNDUP oldsz) newsz va →
      presentPte k₀ pgdir va = none) {mem : UInt32} (hfree : k.freelist = [mem])
    (hnone : tablePage k pgdir (PDX a) = none) :
    ∃ kf, allocLoop pgdir oldsz newsz (n + 1) a k = .ok false kf ∧ RolledBack pgdir k₀ kf := by
  have hs := hg.space
  have hmk : mem ∈ k.freelist := by
    rw [hfree]
    exact List.mem_cons_self
  obtain ⟨hmdir, hmtab, hmframe⟩ := hs.free_facts hmk
  obtain ⟨hmal, hkend, hphys⟩ := hs.free_ok mem hmk
  obtain ⟨hs₁, htab₁, hpte₁⟩ := hs.take hfree
  have hmem₁ : k.MemOnly ({ k with freelist := [] }.fillPage mem 0) :=
    (memOnly_freelist k []).trans (memOnly_fillPage _ mem 0)
  obtain ⟨kd, hd, hkd⟩ := deallocuvm_spec hs₁ (UInt32.le_of_lt hnew) hold
  -- `mem` is still none of the address space's pages when `kfree` takes it back
  have hTd := isTable_congr (hkd.tables.trans htab₁)
  have hmtabd : ¬ IsTable kd pgdir mem := fun h => hmtab ((hTd mem).mp h)
  have hF₁ := isFrame_congr hpte₁
  have hmframed : ¬ IsFrame kd pgdir mem := fun h => hmframe ((hF₁ mem).mp (hkd.isFrame h))
  have hmfreed : mem ∉ kd.freelist := fun h =>
    (hkd.mem_freelist h).elim (by simp [Kernel.fillPage]) fun hf => hmframe ((hF₁ mem).mp hf)
  have hkendd : kd.kend ≤ mem := by
    rw [(hmem₁.trans hkd.mem).kend]
    exact hkend
  exact ⟨_, allocLoop_unmapped hlt hfree (ne_zero_of_free hs hmk)
      (mappages_noTable hal ((congrFun htab₁ (PDX a)).trans hnone) rfl) (by decide) hd
      (kfree_ok hmal hkendd hphys),
    hg.rollback hk₀ hunm (Nat.le_of_lt (UInt32.lt_iff_toNat_lt.mp hlt)) hmem₁ htab₁ hpte₁ rfl hkd
      (hkd.space.push hmal hkendd hphys hmdir hmtabd hmframed hmfreed)
      ((memOnly_fillPage _ _ _).trans (memOnly_freelist _ _))
      (tablePage_push hmdir) (fun va hva => presentPte_push hmdir hmtabd hva)
      (by rw [hfree]; rfl)⟩

/-- `allocuvm`'s loop from a page-aligned `a` at or above `PGROUNDUP(oldsz)`, over pages that
were not mapped, with fuel for the pages of `[a, newsz)`: it returns, and either has mapped the
whole range or has undone all it did.  The induction is on the fuel, one case per way a pass
ends. -/
theorem allocLoop_spec (hk₀ : FreeOk k₀) (hnew : newsz < KERNBASE)
    (hold : oldsz.toNat ≤ newsz.toNat)
    (hunm : ∀ va, va < KERNBASE → InPages (PGROUNDUP oldsz) newsz va →
      presentPte k₀ pgdir va = none) :
    ∀ (n : ℕ) {k : Kernel} {a : UInt32}, Grown pgdir (PGROUNDUP oldsz) a k₀ k →
      a.toNat % 4096 = 0 → (PGROUNDUP oldsz).toNat ≤ a.toNat → a.toNat < newsz.toNat + 4096 →
      (newsz.toNat - a.toNat + 4095) / 4096 ≤ n →
        ∃ b k', allocLoop pgdir oldsz newsz n a k = .ok b k' ∧
          (b = true ∧ Grown pgdir (PGROUNDUP oldsz) newsz k₀ k' ∨
            b = false ∧ RolledBack pgdir k₀ k')
  | 0, k, a, hg, hal, _, hhi, hn => ⟨true, k, rfl, .inl ⟨rfl, hg.finish hal (by omega) hhi⟩⟩
  | n + 1, k, a, hg, hal, ha₀, hhi, hn => by
    by_cases hlt : a < newsz
    case neg =>
      exact ⟨true, k, allocLoop_stop hlt, .inl ⟨rfl,
        hg.finish hal (Nat.not_lt.mp (mt UInt32.lt_iff_toNat_lt.mpr hlt)) hhi⟩⟩
    have hlt' := UInt32.lt_iff_toNat_lt.mp hlt
    have hnew' := UInt32.lt_iff_toNat_lt.mp hnew
    have hup := toNat_PGROUNDUP oldsz
    have holdlt : oldsz < newsz := UInt32.lt_iff_toNat_lt.mpr (by simp [KERNBASE] at hnew'; omega)
    have haK : a < KERNBASE := UInt32.lt_iff_toNat_lt.mpr (Nat.lt_trans hlt' hnew')
    -- `a`'s page is one the loop has not mapped, so it is not mapped at all
    have hunm_a : presentPte k pgdir a = none := by
      rw [hg.pte a haK fun h => by unfold InPages at h; omega]
      exact hunm a haK (by unfold InPages; omega)
    have hnext := toNat_add_PGSIZE (UInt32.lt_iff_toNat_lt.mp haK)
    cases hfree : k.freelist with
    | nil =>
      obtain ⟨kf, hrun, hkf⟩ := hg.dry (n := n) hk₀ hlt hnew holdlt hunm hfree
      exact ⟨false, kf, hrun, .inr ⟨rfl, hkf⟩⟩
    | cons mem rest =>
      by_cases hroom : tablePage k pgdir (PDX a) = none → rest ≠ []
      · obtain ⟨k₂, hrun, hk₂⟩ : ∃ k₂, allocLoop pgdir oldsz newsz (n + 1) a k =
            allocLoop pgdir oldsz newsz n (a + PGSIZE) k₂ ∧
              Grown pgdir (PGROUNDUP oldsz) (a + PGSIZE) k₀ k₂ :=
          hg.pass hk₀ ha₀ hal hlt hnew hunm_a hfree hroom
        obtain ⟨b, k', hrun', hk'⟩ := allocLoop_spec hk₀ hnew hold hunm n hk₂
          (by rw [hnext]; omega) (by rw [hnext]; omega) (by rw [hnext]; omega)
          (by rw [hnext]; omega)
        exact ⟨b, k', hrun.trans hrun', hk'⟩
      · -- no table for `a`, and `mem` is the last free page
        obtain ⟨hnone, hrest⟩ := Classical.not_imp.mp hroom
        rw [not_not] at hrest
        subst hrest
        obtain ⟨kf, hrun, hkf⟩ := hg.noTable (n := n) hk₀ hal hlt hnew holdlt hunm hfree hnone
        exact ⟨false, kf, hrun, .inr ⟨rfl, hkf⟩⟩

/-- `allocuvm(pgdir, oldsz, newsz)` for `oldsz ≤ newsz < KERNBASE`, on a well-formed address
space whose pages in `[PGROUNDUP(oldsz), newsz)` are not mapped: it returns `newsz` with that
range mapped to fresh zeroed frames, or `0` with everything undone but the new page tables. -/
theorem allocuvm_spec (hs : Space k pgdir) (hle : oldsz ≤ newsz) (hnew : newsz < KERNBASE)
    (hunm : ∀ va, va < KERNBASE → InPages (PGROUNDUP oldsz) newsz va →
      presentPte k pgdir va = none) :
    ∃ r k', allocuvm pgdir oldsz newsz k = .ok r k' ∧
      (r = newsz ∧ Grown pgdir (PGROUNDUP oldsz) newsz k k' ∨ r = 0 ∧ RolledBack pgdir k k') := by
  have hle' := UInt32.le_iff_toNat_le.mp hle
  have hnew' := UInt32.lt_iff_toNat_lt.mp hnew
  have hup := toNat_PGROUNDUP oldsz
  simp only [KERNBASE, UInt32.toNat_ofNat] at hnew'
  obtain ⟨b, k', hrun, hk'⟩ := allocLoop_spec hs.free_ok hnew hle' hunm (newsz.toNat / 4096 + 1)
    (Grown.refl hs) (by rw [hup]; omega) le_rfl (by rw [hup]; omega) (by omega)
  have hrun' : allocuvm pgdir oldsz newsz k = .ok (if b then newsz else 0) k' := by
    rw [allocuvm, if_neg (UInt32.not_le.mpr hnew), if_neg (UInt32.not_lt.mpr hle), bind_apply,
      hrun]
    cases b <;> rfl
  rcases hk' with ⟨rfl, h⟩ | ⟨rfl, h⟩
  · exact ⟨newsz, k', hrun', .inl ⟨rfl, h⟩⟩
  · exact ⟨0, k', hrun', .inr ⟨rfl, h⟩⟩

end Grow

/-! ## Growing and shrinking together -/

section Resize

variable {k : Kernel} {pgdir : UInt32}

/-- On a well-formed address space `allocuvm` maps exactly the new pages, to fresh zeroed
frames, or undoes itself but for the page tables it added; and `deallocuvm` unmaps exactly the
present pages of its range, frees their frames and nothing else, and returns. -/
theorem uvm_resize_exact (hs : Space k pgdir) :
    (∀ oldsz newsz : UInt32, oldsz ≤ newsz → newsz < KERNBASE →
      (∀ va, va < KERNBASE → InPages (PGROUNDUP oldsz) newsz va → presentPte k pgdir va = none) →
      ∃ r k', allocuvm pgdir oldsz newsz k = .ok r k' ∧
        (r = newsz ∧ Grown pgdir (PGROUNDUP oldsz) newsz k k' ∨
          r = 0 ∧ RolledBack pgdir k k')) ∧
    (∀ oldsz newsz : UInt32, newsz < oldsz → oldsz ≤ KERNBASE →
      ∃ k', deallocuvm pgdir oldsz newsz k = .ok newsz k' ∧
        Shrunk pgdir (PGROUNDUP newsz) oldsz k k') :=
  ⟨fun _ _ hle hnew hunm => allocuvm_spec hs hle hnew hunm,
    fun _ _ hlt hold => deallocuvm_spec hs hold hlt⟩

end Resize

/-- A kernel with three free pages and every page zero. -/
def spareKernel : Kernel where
  procs := fun _ =>
    { sz := 0, pgdir := 0, kstack := 0, state := .UNUSED, pid := 0, parent := none,
      killed := false, ofile := fun _ => none, cwd := none, mmaps := fun _ => Mmap.zero,
      numMmaps := 0 }
  cur := 0
  initproc := 0
  freelist := [0x80500000, 0x80501000, 0x80502000]
  mem := fun _ _ => 0
  ftable := fun _ => ⟨.FD_NONE, 0, false, false, 0, 0, 0⟩
  ftableAddr := 0x8010A000
  nextpid := 1
  kdata := 0x80108000
  kend := 0x80200000
  fs := ⟨⟨fun _ _ => 0, fun _ => Dinode.zero⟩, fun _ => ⟨0, 0, false, 0, 0, 0, 0, 0, fun _ => 0⟩⟩
  io := ⟨fun _ n => n, fun _ n => n, fun n => n, fun n => n⟩

/-- The directory at `0x80300000` of `spareKernel` is an empty address space.  Growing it to
two pages maps them, with their table, from the three free pages; shrinking it back to `0`
then unmaps both pages and frees their frames. -/
theorem uvm_resize_exact_spare :
    Space spareKernel 0x80300000 ∧
      ∃ k₁, allocuvm 0x80300000 0 8192 spareKernel = .ok 8192 k₁ ∧
        Grown 0x80300000 (PGROUNDUP 0) 8192 spareKernel k₁ ∧
        ∃ k₂, deallocuvm 0x80300000 8192 0 k₁ = .ok 0 k₂ ∧
          Shrunk 0x80300000 (PGROUNDUP 0) 8192 k₁ k₂ := by
  have hdir : ∀ i : UInt32, i.toNat < 512 → spareKernel.mem 0x80300000 i &&& PTE_P = 0 := by
    simp [spareKernel]
  have hs : Space spareKernel 0x80300000 :=
    Space.empty hdir (by decide) (by decide) (by decide) (by decide)
  obtain ⟨r, k₁, hrun, hk₁⟩ := (uvm_resize_exact hs).1 0 8192 (by decide) (by decide)
    fun _ hva _ => presentPte_of_empty hdir hva
  -- three free pages are enough for the two pages and their table
  have hgrew : (allocuvm 0x80300000 0 8192 spareKernel).returned 8192 = true := by decide
  rcases hk₁ with ⟨rfl, hg⟩ | ⟨rfl, -⟩
  · obtain ⟨k₂, hrun₂, hk₂⟩ := (uvm_resize_exact hg.space).2 8192 0 (by decide) (by decide)
    exact ⟨hs, k₁, hrun, hg, k₂, hrun₂, hk₂⟩
  · rw [hrun] at hgrew
    simp [Result.returned] at hgrew

/-- A directory whose table maps page `0` to physical page `0`, as a kernel mapping would. -/
def nullFrameKernel : Kernel :=
  { spareKernel with
    mem := fun pg i =>
      if pg = 0x80300000 ∧ i = 0 then 0x00301007
      else if pg = 0x80301000 ∧ i = 0 then 7 else 0 }

/-- Without the invariant `deallocuvm` need not return: on `nullFrameKernel` it hands `P2V(0)`,
the kernel's base, to `kfree` for page `0`, and the frame check panics. -/
theorem deallocuvm_null_frame_panics :
    deallocuvm 0x80300000 4096 0 nullFrameKernel = .panic "kfree" :=
  rfl

end Xv6
