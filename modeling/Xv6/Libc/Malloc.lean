import Xv6.Libc.Heap

/-!
# `malloc` and `morecore` keep the heap

`morecore` grows the process by at least `4096` headers and gives the new memory to `free`
as one block; `malloc`'s loop walks the ring from `freep` and takes the first block that is
large enough, whole or by its tail.  Over a heap that keeps `Inv`:

* `morecore_spec`: `sbrk` fails and `morecore` changes nothing but the count of calls, or
  leaves a heap that keeps the invariant and the used blocks, with a free block of at least
  the size asked for;
* `take_exact`, `take_tail`: the two ways the loop hands out a block keep the invariant;
* `malloc_spec`: whatever `malloc(nbytes)` returns, the heap keeps the invariant and its
  used blocks; `0` comes back only from a failed `sbrk` of `morecore`, and a pointer other
  than `0` lies one header past a new used block of `nunitsOf nbytes` headers;
* `malloc_total`: for every request up to `2^31 - 16`, `malloc` returns.
-/

namespace Xv6.Umalloc

open SRing

/-- `m'` keeps the invariant, with the used blocks of `m` and their sizes. -/
structure Grown (base h0 : UInt32) (m m' : Umem) (bs bs' : List Block) : Prop where
  inv : Inv base h0 m' bs'
  freep : m'.freep ≠ 0
  used : usedAddrs bs' = usedAddrs bs
  units : ∀ u ∈ usedAddrs bs, m'.units u = m.units u

/-- `m'` keeps the invariant, with the used blocks of `m`, their sizes, and one used block
more, of `nunits` headers, in front of `ap`. -/
structure Taken (base h0 nunits : UInt32) (m m' : Umem) (bs bs' : List Block) (ap : UInt32) :
    Prop where
  inv : Inv base h0 m' bs'
  used : (usedAddrs bs').Perm ((ap - HDRSIZE) :: usedAddrs bs)
  size : m'.units (ap - HDRSIZE) = nunits.toNat
  units : ∀ u ∈ usedAddrs bs, m'.units u = m.units u

/-- `m'` is what `morecore(nunits)` leaves when its `sbrk` fails on `m₁`, the heap `m` after
the calls of `morecore` before it: the invariant and the used blocks of `m` are kept. -/
structure Refused (base h0 nunits : UInt32) (m m' : Umem) (bs bs' : List Block) : Prop where
  grown : Grown base h0 m m' bs bs'
  sbrk_fails : ∃ m₁, Grown base h0 m m₁ bs bs' ∧
    sbrk ((if nunits < 4096 then 4096 else nunits) * HDRSIZE).toInt32 m₁ = (0xFFFFFFFF, m')

section Compose

variable {base h0 nunits ap : UInt32} {m m₁ m' : Umem} {bs bs₁ bs' : List Block}

lemma Grown.refl (hinv : Inv base h0 m bs) (hset : m.freep ≠ 0) : Grown base h0 m m bs bs :=
  ⟨hinv, hset, rfl, fun _ _ => rfl⟩

lemma Grown.trans (h₁ : Grown base h0 m m₁ bs bs₁) (h₂ : Grown base h0 m₁ m' bs₁ bs') :
    Grown base h0 m m' bs bs' := by
  refine ⟨h₂.inv, h₂.freep, h₂.used.trans h₁.used, fun u hu => ?_⟩
  rw [h₂.units u (by rw [h₁.used]; exact hu), h₁.units u hu]

lemma Taken.of_grown (h₁ : Grown base h0 m m₁ bs bs₁)
    (h₂ : Taken base h0 nunits m₁ m' bs₁ bs' ap) : Taken base h0 nunits m m' bs bs' ap := by
  refine ⟨h₂.inv, h₁.used ▸ h₂.used, h₂.size, fun u hu => ?_⟩
  rw [h₂.units u (by rw [h₁.used]; exact hu), h₁.units u hu]

lemma Refused.of_grown (h₁ : Grown base h0 m m₁ bs bs₁)
    (h₂ : Refused base h0 nunits m₁ m' bs₁ bs') : Refused base h0 nunits m m' bs bs' := by
  obtain ⟨m₂, hg, hsbrk⟩ := h₂.sbrk_fails
  exact ⟨h₁.trans h₂.grown, m₂, h₁.trans hg, hsbrk⟩

/-- A pointer one header past a used block of the heap is not `0`. -/
lemma Taken.ap_ne_zero (h : Taken base h0 nunits m m' bs bs' ap) : ap ≠ 0 := by
  have hmem : ap - HDRSIZE ∈ usedAddrs bs' := h.used.symm.subset List.mem_cons_self
  have hb := h.inv.block (Iff.mp mem_usedAddrs hmem)
  intro hap
  rw [hap] at hb
  have : (0 - HDRSIZE : UInt32).toNat = 2 ^ 32 - 8 := rfl
  simp only [this] at hb
  omega

end Compose

/-! ## morecore -/

/-- `sbrk(n)` for `0 < n < 2^31` on a process below `KERNBASE`: it fails, or the process grows
by `n` bytes, still below `KERNBASE`, and the old size comes back; either way the call is
counted. -/
lemma sbrk_grow {n : UInt32} {m : Umem} (hpos : 0 < n.toNat) (hlt : n.toNat < 2 ^ 31)
    (hbrk : m.brk ≤ KERNBASE) :
    sbrk n.toInt32 m = (0xFFFFFFFF, { m with calls := m.calls + 1 }) ∨
      sbrk n.toInt32 m = (m.brk, { m with brk := m.brk + n, calls := m.calls + 1 }) ∧
        (m.brk + n).toNat = m.brk.toNat + n.toNat ∧ m.brk + n < KERNBASE := by
  have hbrk' : m.brk.toNat ≤ 2 ^ 31 := UInt32.le_iff_toNat_le.mp hbrk
  -- below `2^31`, the `int` that `morecore` passes is the same positive number
  have hn : 0 < n.toInt32 := by
    have hint : n.toInt32.toInt = n.toNat := by
      rw [Int32.toInt, UInt32.toBitVec_toInt32, BitVec.toInt_eq_toNat_of_lt (by simp; omega)]
      simp
    rw [Int32.lt_iff_toInt_lt, hint]
    simp only [Int32.toInt_zero]
    omega
  have hsum : (m.brk + n).toNat = m.brk.toNat + n.toNat := by
    rw [UInt32.toNat_add]
    exact Nat.mod_eq_of_lt (by omega)
  unfold sbrk
  dsimp only
  rw [if_pos hn, UInt32.toUInt32_toInt32]
  by_cases hk : KERNBASE ≤ m.brk + n
  · exact .inl (if_pos hk)
  rw [if_neg hk]
  -- the sum does not wrap, so `allocuvm` runs its loop over the new pages
  have hnw : ¬m.brk + n < m.brk := by
    rw [UInt32.lt_iff_toNat_lt, hsum]
    omega
  rw [if_neg hnw]
  -- where `kalloc` may run out at this call
  split
  · exact .inl rfl
  · exact .inr ⟨rfl, hsum, UInt32.not_le.mp hk⟩

/-- `sbrk` fails with `(char*)-1`, which no size below `KERNBASE` is. -/
lemma brk_ne_sbrk_fail {base h0 : UInt32} {m : Umem} {bs : List Block}
    (hinv : Inv base h0 m bs) : m.brk ≠ 0xFFFFFFFF := by
  intro h
  have := hinv.brk_le
  rw [h] at this
  exact absurd this (by decide)

section Morecore

variable {base h0 : UInt32} {m : Umem} {bs : List Block}

/-- A heap grown by `nu` headers, with a used block of that size at the old end, keeps the
invariant. -/
lemma Inv.grow (hinv : Inv base h0 m bs) (hset : m.freep ≠ 0) {nu b' : UInt32}
    (hpos : 0 < nu.toNat) (hb' : b'.toNat = m.brk.toNat + 8 * nu.toNat) (hk : b' ≤ KERNBASE) :
    Inv base h0 (({ m with brk := b' } : Umem).setSize m.brk nu) (bs ++ [⟨m.brk, false⟩]) := by
  obtain ⟨hring, hbase0, hfp⟩ := hinv.ring hset
  -- every block lies below the old end, and `base` below the heap
  have hbelow : ∀ b ∈ bs, b.addr ≠ m.brk := by
    intro b hb heq
    have := hinv.tiles.mem b hb
    rw [heq] at this
    omega
  have hbase : base ≠ m.brk := by
    intro heq
    have h₁ := hinv.tiles.length_le
    have h₂ := UInt32.lt_iff_toNat_lt.mp hinv.base_lt
    rw [heq] at h₂
    omega
  refine ⟨?_, hk, hinv.base_pos, hinv.base_lt, ?_, fun _ => ⟨?_, ?_, ?_⟩, fun h => absurd h hset⟩
  · rw [Umem.units_setSize]
    refine Iff.mpr tiles_append ⟨m.brk.toNat,
      hinv.tiles.congr fun b hb => Function.update_of_ne (hbelow b hb) _ _, ?_⟩
    simp only [Tiles, Function.update_self, true_and]
    exact ⟨hpos, hb'.symm⟩
  · refine List.isChain_append.mpr ⟨hinv.coalesced, List.isChain_singleton _, fun x _ y hy => ?_⟩
    simp only [List.head?_cons, Option.mem_some_iff] at hy
    subst hy
    simp
  · rw [Umem.next_setSize]
    show Ring m.next base _
    unfold Ring at hring ⊢
    simpa using hring
  · rw [Umem.units_setSize, Function.update_of_ne hbase]
    exact hbase0
  · show m.freep ∈ _
    simpa using hfp

/-- `morecore(nu)`, for fewer than `2^28` headers: `sbrk` fails and nothing changes but the
count of calls, or the heap keeps the invariant and its used blocks, and some free block has
at least `nu` headers. -/
theorem morecore_spec {nu : UInt32} (hinv : Inv base h0 m bs) (hset : m.freep ≠ 0)
    (hnu : nu.toNat < 2 ^ 28) :
    (∃ m', sbrk ((if nu < 4096 then 4096 else nu) * HDRSIZE).toInt32 m = (0xFFFFFFFF, m') ∧
        morecore nu m = some (0, m') ∧ Grown base h0 m m' bs bs) ∨
      ∃ m' bs', morecore nu m = some (m'.freep, m') ∧ Grown base h0 m m' bs bs' ∧
        ∃ v ∈ freeAddrs bs', nu.toNat ≤ m'.units v := by
  unfold morecore
  generalize hN : (if nu < 4096 then 4096 else nu) = N
  -- `morecore` asks for at least `4096` headers and at least `nu`, fewer than `2^28`
  have h4096 : (4096 : UInt32).toNat = 4096 := rfl
  have hNrange : 0 < N.toNat ∧ nu.toNat ≤ N.toNat ∧ N.toNat < 2 ^ 28 := by
    rw [← hN]
    split
    · rename_i h
      have h₁ := UInt32.lt_iff_toNat_lt.mp h
      rw [h4096] at h₁ ⊢
      omega
    · rename_i h
      have h₁ := UInt32.le_iff_toNat_le.mp (UInt32.not_lt.mp h)
      rw [h4096] at h₁
      exact ⟨by omega, Nat.le_refl _, hnu⟩
  have h8 : (N * HDRSIZE).toNat = 8 * N.toNat := by
    rw [UInt32.toNat_mul]
    simp only [HDRSIZE, UInt32.reduceToNat]
    omega
  rcases sbrk_grow (by omega : 0 < (N * HDRSIZE).toNat) (by omega) hinv.brk_le with
    hfail | ⟨hsome, hsum, hk⟩
  · left
    refine ⟨_, hfail, by simp only [hfail, if_pos], ⟨hinv.setCalls _, hset, rfl, fun _ _ => rfl⟩⟩
  right
  have hinv₁ := (hinv.setCalls (m.calls + 1)).grow hset hNrange.1 (by rw [hsum, h8])
    (UInt32.le_of_lt hk)
  have hinv₂ : Inv base h0
      (({ m with brk := m.brk + N * HDRSIZE, calls := m.calls + 1 } : Umem).setSize m.brk N)
      (bs ++ ⟨hoff m.brk 1 - HDRSIZE, false⟩ :: []) := by
    rw [hoff_one_sub]
    exact hinv₁
  obtain ⟨m', bs', hfree, hfreed⟩ := free_spec hinv₂
  obtain ⟨v, hv, hvle, hvend⟩ := hfreed.covers
  simp only [hoff_one_sub, Umem.units_setSize, Function.update_self] at hvle hvend
  refine ⟨m', bs', ?_, ⟨hfreed.inv, fun h => ?_, by simpa using hfreed.used, fun u hu => ?_⟩,
    v, hv, by omega⟩
  · simp only [hsome, if_neg (brk_ne_sbrk_fail hinv), hfree, Option.map_some]
  · have := hfreed.inv.unset h
    rw [this] at hv
    simp at hv
  · -- a used block lies below the old end, whose header alone was written
    have hu' : (⟨u, false⟩ : Block) ∈ bs := Iff.mp mem_usedAddrs hu
    have hne : u ≠ m.brk := by
      intro heq
      have := hinv.tiles.mem _ hu'
      simp only at this
      rw [heq] at this
      omega
    rw [hfreed.units u (by simpa [hfreed.used] using hu), Umem.units_setSize,
      Function.update_of_ne hne]
    rfl

end Morecore

/-! ## Taking a block -/

section Take

variable {base h0 prevp p nunits : UInt32} {m : Umem} {bs L R : List Block} {P : List UInt32}

/-- The ring around a free block `p` and the node `prevp` before it. -/
lemma ring_around (hinv : Inv base h0 m (L ++ ⟨p, true⟩ :: R)) (hset : m.freep ≠ 0)
    (hprev : base :: freeAddrs L = P ++ [prevp]) :
    List.IsChain (Step m.next) (P ++ [prevp]) ∧ m.next prevp = p ∧
      List.IsChain (Step m.next) (p :: (freeAddrs R ++ [base])) := by
  obtain ⟨hring, -, -⟩ := hinv.ring hset
  unfold Ring at hring
  rw [freeAddrs_append, freeAddrs_cons_free, ← List.cons_append, hprev] at hring
  simp only [List.append_assoc, List.cons_append] at hring
  exact List.isChain_append_cons_cons.mp hring

/-- The node after a ring node is a ring node. -/
lemma ring_next_mem (hinv : Inv base h0 m bs) (hset : m.freep ≠ 0) {u : UInt32}
    (hu : u ∈ base :: freeAddrs bs) : m.next u ∈ base :: freeAddrs bs := by
  obtain ⟨hring, -, -⟩ := hinv.ring hset
  have := next_mem_of_isChain hring hu
  rw [List.mem_append, List.mem_singleton] at this
  rcases this with h | h
  · exact h
  · rw [h]
    exact List.mem_cons_self

/-- A ring node of at least one header is a free block. -/
lemma free_of_pos (hinv : Inv base h0 m bs) (hset : m.freep ≠ 0) {u : UInt32}
    (hu : u ∈ base :: freeAddrs bs) (hpos : 0 < m.units u) : (⟨u, true⟩ : Block) ∈ bs := by
  rcases List.mem_cons.mp hu with rfl | hu
  · rw [(hinv.ring hset).2.1] at hpos
    omega
  · exact Iff.mp mem_freeAddrs hu

/-- A free block `p` that the ring node `u` points to comes right after `u`: every other ring
node points below `p`, or above it, or to `base`. -/
lemma ring_pred (hinv : Inv base h0 m bs) (hset : m.freep ≠ 0) {u : UInt32}
    (hu : u ∈ base :: freeAddrs bs) (hp : (⟨p, true⟩ : Block) ∈ bs) (hnext : m.next u = p) :
    ∃ L R P, bs = L ++ ⟨p, true⟩ :: R ∧ base :: freeAddrs L = P ++ [u] := by
  obtain ⟨L, R, rfl⟩ := List.append_of_mem hp
  obtain ⟨P, x, hx⟩ : ∃ P x, base :: freeAddrs L = P ++ [x] := by
    rcases List.eq_nil_or_concat (base :: freeAddrs L) with h | ⟨P, x, h⟩
    · simp at h
    · exact ⟨P, x, by rw [h, List.concat_eq_append]⟩
  obtain ⟨hP, -, hpR⟩ := ring_around hinv hset hx
  obtain ⟨hlt, -, hxp⟩ := below_cut hinv hx
  have hbase := base_lt_bp hinv
  -- no ring node after `p` is `p`
  have hafter : ∀ v ∈ freeAddrs R ++ [base], v ≠ p := by
    intro v hv heq
    rw [heq] at hv
    rcases List.mem_append.mp hv with hv | hv
    · have := above_lt hinv p hv
      omega
    · rw [List.mem_singleton] at hv
      rw [hv] at hbase
      omega
  refine ⟨L, R, P, rfl, ?_⟩
  rw [hx]
  rw [freeAddrs_append, freeAddrs_cons_free, ← List.cons_append, hx] at hu
  simp only [List.mem_append, List.mem_cons, List.not_mem_nil, or_false] at hu
  rcases hu with (hu | rfl) | rfl | hu
  · -- a node before `x` points to a node up to `x`, below `p`
    have hmem := next_mem_of_isChain hP hu
    rw [hnext, List.mem_append, List.mem_singleton] at hmem
    rcases hmem with h | h
    · have := (hlt p h).1
      omega
    · rw [h] at hxp
      omega
  · rfl
  · exact absurd hnext (hafter _ (List.mem_of_mem_head? (by rw [head_eq_next hpR]; rfl)))
  · exact absurd hnext (hafter _ (next_mem_of_isChain hpR.tail hu))

/-- `malloc` takes a free block of exactly the size asked for off the ring: the node before it
points past it. -/
theorem take_exact (hinv : Inv base h0 m (L ++ ⟨p, true⟩ :: R)) (hset : m.freep ≠ 0)
    (hprev : base :: freeAddrs L = P ++ [prevp]) (hexact : (m.hdr p).size = nunits) :
    Taken base h0 nunits m { m.setPtr prevp (m.next p) with freep := prevp }
      (L ++ ⟨p, true⟩ :: R) (L ++ ⟨p, false⟩ :: R) (hoff p 1) := by
  obtain ⟨hP, -, hpR⟩ := ring_around hinv hset hprev
  obtain ⟨hlt, hbase_le, hprev_lt⟩ := below_cut hinv hprev
  have hbase_pos := UInt32.lt_iff_toNat_lt.mp hinv.base_pos
  refine ⟨⟨?_, hinv.brk_le, hinv.base_pos, hinv.base_lt, ?_, fun _ => ⟨?_, ?_, ?_⟩, fun h => ?_⟩,
    ?_, ?_, fun u _ => ?_⟩
  · show Tiles (m.setPtr prevp (m.next p)).units h0.toNat m.brk.toNat _
    rw [Umem.units_setPtr]
    exact hinv.tiles.of_addrs (by simp)
  · exact coalesced_insert_used hinv.coalesced.left hinv.coalesced.right.tail
  · -- the ring goes from `prevp` straight to the node after `p`
    show Ring (m.setPtr prevp (m.next p)).next base _
    rw [Umem.next_setPtr]
    unfold Ring
    rw [show base :: freeAddrs (L ++ ⟨p, false⟩ :: R) ++ [base] =
        P ++ prevp :: (freeAddrs R ++ [base]) by
      rw [freeAddrs_append, freeAddrs_cons_used, ← List.cons_append, hprev]
      simp]
    refine isChain_link hP hpR.tail (head_eq_next hpR) (fun h => ?_) (fun h => ?_)
    · have := (hlt prevp h).1
      omega
    · have := above_lt hinv prevp h
      omega
  · show (m.setPtr prevp (m.next p)).units base = 0
    rw [Umem.units_setPtr]
    exact (hinv.ring hset).2.1
  · show prevp ∈ base :: freeAddrs (L ++ ⟨p, false⟩ :: R)
    rw [freeAddrs_append, freeAddrs_cons_used, ← List.cons_append, hprev]
    simp
  · have : prevp.toNat = 0 := by rw [show prevp = 0 from h]; rfl
    omega
  · simp only [usedAddrs_append, usedAddrs_cons_used, usedAddrs_cons_free, hoff_one_sub]
    exact List.perm_middle
  · show (m.setPtr prevp (m.next p)).units (hoff p 1 - HDRSIZE) = nunits.toNat
    rw [Umem.units_setPtr, hoff_one_sub]
    show (m.hdr p).size.toNat = nunits.toNat
    rw [hexact]
  · show (m.setPtr prevp (m.next p)).units u = m.units u
    rw [Umem.units_setPtr]

/-- `malloc` cuts the tail of `nunits` headers off a larger free block: the block keeps its
place on the ring, and the tail, at `hoff p (size - nunits)`, is used. -/
theorem take_tail (hinv : Inv base h0 m (L ++ ⟨p, true⟩ :: R)) (hset : m.freep ≠ 0)
    (hprev : base :: freeAddrs L = P ++ [prevp]) (hnu : 0 < nunits.toNat)
    (hfit : nunits < (m.hdr p).size) :
    Taken base h0 nunits m
      { (m.setSize p ((m.hdr p).size - nunits)).setSize (hoff p ((m.hdr p).size - nunits)) nunits
        with freep := prevp }
      (L ++ ⟨p, true⟩ :: R) (L ++ ⟨p, true⟩ :: ⟨hoff p ((m.hdr p).size - nunits), false⟩ :: R)
      (hoff (hoff p ((m.hdr p).size - nunits)) 1) := by
  generalize hq : hoff p ((m.hdr p).size - nunits) = q
  have hpmem : (⟨p, true⟩ : Block) ∈ L ++ ⟨p, true⟩ :: R := List.mem_append_right L List.mem_cons_self
  have hblock : h0.toNat ≤ p.toNat ∧ p.toNat + 8 * m.units p ≤ 2 ^ 31 ∧ 0 < m.units p :=
    hinv.block hpmem
  have hlt : nunits.toNat < m.units p := UInt32.lt_iff_toNat_lt.mp hfit
  have hsub : ((m.hdr p).size - nunits).toNat = m.units p - nunits.toNat :=
    UInt32.toNat_sub_of_le _ _ (UInt32.le_of_lt hfit)
  -- the tail starts inside the block, past its head
  have hqnat : q.toNat = p.toNat + 8 * (m.units p - nunits.toNat) := by
    rw [← hq, toNat_hoff (by rw [hsub]; omega), hsub]
  obtain ⟨-, hbase_p, -⟩ := below_cut hinv hprev
  have hbase_lt := UInt32.lt_iff_toNat_lt.mp hinv.base_lt
  have hbase_pos := UInt32.lt_iff_toNat_lt.mp hinv.base_pos
  have hbp : base ≠ p := fun h => by rw [h] at hbase_lt; omega
  have hbq : base ≠ q := fun h => by rw [h] at hbase_lt; omega
  have hunits : ((m.setSize p ((m.hdr p).size - nunits)).setSize q nunits).units =
      Function.update (Function.update m.units p (m.units p - nunits.toNat)) q nunits.toNat := by
    rw [Umem.units_setSize, Umem.units_setSize, hsub]
  refine ⟨⟨?_, hinv.brk_le, hinv.base_pos, hinv.base_lt, ?_, fun _ => ⟨?_, ?_, ?_⟩, fun h => ?_⟩,
    ?_, ?_, fun u hu => ?_⟩
  · show Tiles ((m.setSize p _).setSize q nunits).units h0.toNat m.brk.toNat _
    rw [hunits]
    exact hinv.tiles.cut true false hnu hlt hqnat
  · have hcL : Coalesced (L ++ [⟨p, true⟩]) := by
      have := hinv.coalesced
      rw [← List.singleton_append, ← List.append_assoc] at this
      exact this.left
    exact coalesced_insert hcL.left hinv.coalesced.right.tail.cons_used hcL.last_used (by simp)
  · -- the ring and the sizes it reads are those of before
    show Ring ((m.setSize p _).setSize q nunits).next base _
    rw [Umem.next_setSize, Umem.next_setSize]
    have hring := (hinv.ring hset).1
    unfold Ring at hring ⊢
    simpa using hring
  · show ((m.setSize p _).setSize q nunits).units base = 0
    rw [hunits, Function.update_of_ne hbq, Function.update_of_ne hbp]
    exact (hinv.ring hset).2.1
  · show prevp ∈ base :: freeAddrs (L ++ ⟨p, true⟩ :: ⟨q, false⟩ :: R)
    rw [freeAddrs_append, freeAddrs_cons_free, freeAddrs_cons_used, ← List.cons_append, hprev]
    simp
  · have : prevp.toNat = 0 := by rw [show prevp = 0 from h]; rfl
    omega
  · simp only [usedAddrs_append, usedAddrs_cons_used, usedAddrs_cons_free, hoff_one_sub]
    exact List.perm_middle
  · show ((m.setSize p _).setSize q nunits).units (hoff q 1 - HDRSIZE) = nunits.toNat
    rw [hoff_one_sub, hunits, Function.update_self]
  · -- a used block is neither `p` nor inside it, so neither head was written
    have hu' : (⟨u, false⟩ : Block) ∈ L ∨ (⟨u, false⟩ : Block) ∈ R := by
      simpa [mem_usedAddrs] using hu
    have hup : u ≠ p := hinv.tiles.addr_ne hu'
    have huq : u ≠ q := by
      intro heq
      rcases hu' with hu' | hu'
      · have h₁ := hinv.tiles.split.1 _ hu'
        simp only at h₁
        rw [heq] at h₁
        omega
      · have h₁ := hinv.tiles.split.2 _ hu'
        simp only at h₁
        rw [heq] at h₁
        omega
    show ((m.setSize p _).setSize q nunits).units u = m.units u
    rw [hunits, Function.update_of_ne huq, Function.update_of_ne hup]

end Take

/-! ## The loop of `malloc` -/

section Loop

variable {base h0 nunits : UInt32}

/-- Whatever `malloc`'s loop returns from a ring node `prevp`, the heap keeps the invariant and
its used blocks: `0` after a failed `sbrk` of `morecore`, or a pointer one header past a new
used block of `nunits` headers.  The induction is on the fuel, and its hypothesis carries the
loop from the heap `morecore` leaves. -/
theorem mallocLoop_spec (hnu : 0 < nunits.toNat) (hnu' : nunits.toNat < 2 ^ 28) :
    ∀ {n : ℕ} {prevp : UInt32} {m m' : Umem} {bs : List Block} {ap : UInt32},
      Inv base h0 m bs → m.freep ≠ 0 → prevp ∈ base :: freeAddrs bs →
      mallocLoop nunits n prevp (m.hdr prevp).ptr m = some (ap, m') →
      ∃ bs', (ap = 0 ∧ Refused base h0 nunits m m' bs bs') ∨
        (ap ≠ 0 ∧ Taken base h0 nunits m m' bs bs' ap)
  | 0, _, _, _, _, _, _, _, _, h => by cases h
  | n + 1, prevp, m, m', bs, ap, hinv, hset, hprev, h => by
    have hpmem : m.next prevp ∈ base :: freeAddrs bs := ring_next_mem hinv hset hprev
    unfold mallocLoop at h
    split_ifs at h with hfit hexact hwrap
    · -- an exact fit: the block leaves the ring
      have hfree := free_of_pos hinv hset hpmem
        (by have := UInt32.le_iff_toNat_le.mp hfit; show 0 < (m.hdr (m.hdr prevp).ptr).size.toNat; omega)
      obtain ⟨L, R, P, rfl, hcut⟩ := ring_pred hinv hset hprev hfree rfl
      cases h
      have ht := take_exact hinv hset hcut hexact
      exact ⟨_, .inr ⟨ht.ap_ne_zero, ht⟩⟩
    · -- a larger block: its tail is handed out
      have hfree := free_of_pos hinv hset hpmem
        (by have := UInt32.le_iff_toNat_le.mp hfit; show 0 < (m.hdr (m.hdr prevp).ptr).size.toNat; omega)
      obtain ⟨L, R, P, rfl, hcut⟩ := ring_pred hinv hset hprev hfree rfl
      simp only [setSize_self] at h
      cases h
      have hlt : nunits < (m.hdr (m.hdr prevp).ptr).size := by
        have h₁ := UInt32.le_iff_toNat_le.mp hfit
        have h₂ : (m.hdr (m.hdr prevp).ptr).size.toNat ≠ nunits.toNat :=
          fun h => hexact (UInt32.toNat_inj.mp h)
        exact UInt32.lt_iff_toNat_lt.mpr (by omega)
      have ht := take_tail hinv hset hcut hnu hlt
      exact ⟨_, .inr ⟨ht.ap_ne_zero, ht⟩⟩
    · -- back at `freep`: `morecore`, and on from the heap it leaves
      rcases morecore_spec hinv hset hnu' with ⟨m₁, hsbrk, hmc, hgrown⟩ | ⟨m₁, bs₁, hmc, hgrown, -⟩
      · -- `sbrk` failed: `malloc` returns `0` from the heap it left
        rw [hmc] at h
        simp only [↓reduceIte, Option.some.injEq, Prod.mk.injEq] at h
        obtain ⟨rfl, rfl⟩ := h
        exact ⟨bs, .inl ⟨rfl, hgrown, m, Grown.refl hinv hset, hsbrk⟩⟩
      · rw [hmc] at h
        simp only [if_neg hgrown.freep] at h
        obtain ⟨bs', hres⟩ := mallocLoop_spec hnu hnu' hgrown.inv hgrown.freep
          ((hgrown.inv.ring hgrown.freep).2.2) h
        rcases hres with ⟨hap, hres⟩ | ⟨hap, hres⟩
        · exact ⟨bs', .inl ⟨hap, hres.of_grown hgrown⟩⟩
        · exact ⟨bs', .inr ⟨hap, hres.of_grown hgrown⟩⟩
    · -- too small, and not `freep`: on to the next node
      exact mallocLoop_spec hnu hnu' hinv hset hpmem h

/-- Without a wrap of `nbytes + 7`, `nunits` is `nbytes` in headers, rounded up, and one. -/
lemma Inv.base_ne_zero {m : Umem} {bs : List Block} (hinv : Inv base h0 m bs) : base ≠ 0 := by
  intro h
  have := UInt32.lt_iff_toNat_lt.mp hinv.base_pos
  rw [h] at this
  omega

/-- The first call makes `base` a ring of its own, of size `0`. -/
lemma Inv.init {m : Umem} (hinv : Inv base h0 m []) :
    Inv base h0 { m with hdr := Function.update m.hdr base ⟨base, 0⟩, freep := base } [] := by
  refine ⟨hinv.tiles, hinv.brk_le, hinv.base_pos, hinv.base_lt, hinv.coalesced,
    fun _ => ⟨?_, ?_, List.mem_cons_self⟩, fun _ => rfl⟩
  · unfold Ring
    simp only [freeAddrs_nil, List.cons_append, List.nil_append]
    exact (@List.isChain_pair _ (Step _) base base).mpr (by simp [Step, Umem.next])
  · simp [Umem.units]

/-- `malloc(nbytes)`, for `nbytes` up to `2^31 - 16`, on a heap that keeps the invariant:
whatever it returns, the heap keeps the invariant and its used blocks with their sizes; `0`
comes back only after a failed `sbrk`, and a pointer other than `0` lies one header past a
new used block of `nunitsOf nbytes` headers. -/
theorem malloc_spec {nbytes ap : UInt32} {m m' : Umem} {bs : List Block}
    (hinv : Inv base h0 m bs) (hn : nbytes.toNat ≤ 2 ^ 31 - 16)
    (h : malloc base nbytes m = some (ap, m')) :
    ∃ bs', (ap = 0 ∧ Refused base h0 (nunitsOf nbytes) m m' bs bs') ∨
      (ap ≠ 0 ∧ Taken base h0 (nunitsOf nbytes) m m' bs bs' ap) := by
  have hnu := toNat_nunitsOf (by omega : nbytes.toNat ≤ 2 ^ 32 - 8)
  have hpos : 0 < (nunitsOf nbytes).toNat := by omega
  have hlt : (nunitsOf nbytes).toNat < 2 ^ 28 := by omega
  unfold malloc at h
  by_cases hset : m.freep = 0
  · -- the first call: `base` becomes a ring of its own
    obtain rfl : bs = [] := hinv.unset hset
    rw [if_pos hset] at h
    dsimp only at h
    have hinv₀ := hinv.init
    have hbase0 := hinv.base_ne_zero
    have hg : Grown base h0 m { m with hdr := Function.update m.hdr base ⟨base, 0⟩, freep := base }
        [] [] := ⟨hinv₀, hbase0, rfl, fun _ hu => absurd hu List.not_mem_nil⟩
    obtain ⟨bs', hres⟩ := mallocLoop_spec hpos hlt hinv₀ hbase0 List.mem_cons_self h
    rcases hres with ⟨hap, hres⟩ | ⟨hap, hres⟩
    · exact ⟨bs', .inl ⟨hap, hres.of_grown hg⟩⟩
    · exact ⟨bs', .inr ⟨hap, hres.of_grown hg⟩⟩
  · rw [if_neg hset] at h
    exact mallocLoop_spec hpos hlt hinv hset (hinv.ring hset).2.2 h

end Loop

/-! ## `malloc` returns -/

section Returns

variable {base h0 nunits : UInt32} {m : Umem} {bs : List Block}

/-- The ring read from any of its nodes `x`: a chain from `x` back to `x` through every other
node once. -/
lemma ring_from (hinv : Inv base h0 m bs) (hset : m.freep ≠ 0) {x : UInt32}
    (hx : x ∈ base :: freeAddrs bs) :
    ∃ W, List.IsChain (Step m.next) (x :: W ++ [x]) ∧ x ∉ W ∧
      W.length = (freeAddrs bs).length ∧ ∀ v ∈ base :: freeAddrs bs, v ∈ x :: W := by
  obtain ⟨hring, -, -⟩ := hinv.ring hset
  unfold Ring at hring
  -- the nodes of the ring are distinct: `base`, then the free blocks in increasing order
  have hnodup : (base :: freeAddrs bs).Nodup := by
    have hbase := UInt32.lt_iff_toNat_lt.mp hinv.base_lt
    refine List.Pairwise.imp (fun {u v} (h : u.toNat < v.toNat) heq => by rw [heq] at h; omega) ?_
    refine List.Pairwise.cons (fun v hv => ?_) hinv.tiles.freeAddrs_pairwise
    have : h0.toNat ≤ v.toNat := (hinv.tiles.mem _ (Iff.mp mem_freeAddrs hv)).1
    omega
  obtain ⟨A, B, hAB⟩ := List.append_of_mem hx
  cases A with
  | nil =>
    -- `x` is `base`
    simp only [List.nil_append, List.cons.injEq] at hAB
    obtain ⟨rfl, hB⟩ := hAB
    rw [hB] at hring hnodup ⊢
    exact ⟨B, hring, (List.nodup_cons.mp hnodup).1, rfl, fun v hv => hv⟩
  | cons a A =>
    simp only [List.cons_append, List.cons.injEq] at hAB
    obtain ⟨rfl, hF⟩ := hAB
    rw [hF] at hring hnodup ⊢
    refine ⟨B ++ base :: A, isChain_rotate (by simpa using hring), ?_, by simp; omega, ?_⟩
    · have h₁ := List.nodup_cons.mp hnodup
      have h₂ := List.nodup_cons.mp (List.nodup_middle.mp h₁.2)
      intro hmem
      simp only [List.mem_append, List.mem_cons] at hmem
      rcases hmem with hmem | rfl | hmem
      · exact h₂.1 (List.mem_append_right A hmem)
      · exact h₁.1 (List.mem_append_right A List.mem_cons_self)
      · exact h₂.1 (List.mem_append_left B hmem)
    · intro v hv
      simp only [List.mem_cons, List.mem_append] at hv ⊢
      tauto

/-- A node too small, and not `freep`, sends the loop on. -/
lemma mallocLoop_step {n : ℕ} {x : UInt32} (hsz : (m.hdr (m.next x)).size < nunits)
    (hne : m.next x ≠ m.freep) :
    mallocLoop nunits (n + 1) x (m.hdr x).ptr m =
      mallocLoop nunits n (m.next x) (m.hdr (m.next x)).ptr m := by
  have h₁ : ¬(m.hdr (m.hdr x).ptr).size ≥ nunits := UInt32.not_le.mpr hsz
  have h₂ : ¬(m.hdr x).ptr = m.freep := hne
  rw [mallocLoop, if_neg h₁, if_neg h₂]
  rfl

/-- A node large enough ends the loop. -/
lemma mallocLoop_fit {n : ℕ} {x p : UInt32} (hfit : nunits ≤ (m.hdr p).size) :
    ∃ r, mallocLoop nunits (n + 1) x p m = some r := by
  rw [mallocLoop, if_pos (show (m.hdr p).size ≥ nunits from hfit)]
  split_ifs
  · exact ⟨_, rfl⟩
  · exact ⟨_, rfl⟩

/-- Along a chain from `x` whose nodes, but the last, are not `freep`, the loop returns at a
node large enough, if there is one.  The induction is on the chain. -/
lemma mallocLoop_reach : ∀ (l : List UInt32) {x : UInt32} (n : ℕ),
    List.IsChain (Step m.next) (x :: l) → (∀ v ∈ l.dropLast, v ≠ m.freep) →
      (∃ v ∈ l, nunits ≤ (m.hdr v).size) →
        ∃ r, mallocLoop nunits (n + l.length) x (m.hdr x).ptr m = some r
  | [], _, _, _, _, ⟨_, hv, _⟩ => absurd hv List.not_mem_nil
  | y :: l, x, n, hchain, hne, ⟨v, hv, hfit⟩ => by
    obtain ⟨hxy, hchain'⟩ := List.isChain_cons_cons.mp hchain
    have hxy' : (m.hdr x).ptr = y := hxy
    by_cases hy : nunits ≤ (m.hdr y).size
    · rw [List.length_cons, hxy']
      exact mallocLoop_fit hy
    -- `y` is too small: the block large enough lies further on, so `y` is not the last node
    have hv' : v ∈ l := by
      rcases List.mem_cons.mp hv with rfl | hv
      · exact absurd hfit hy
      · exact hv
    have hl : l ≠ [] := List.ne_nil_of_mem hv'
    have hyf : y ≠ m.freep := hne y (by rw [List.dropLast_cons_of_ne_nil hl]; exact List.mem_cons_self)
    have hsz : (m.hdr (m.next x)).size < nunits := by
      rw [show m.next x = y from hxy]
      exact UInt32.not_le.mp hy
    have hnf : m.next x ≠ m.freep := by
      rw [show m.next x = y from hxy]
      exact hyf
    rw [List.length_cons, ← Nat.add_assoc, mallocLoop_step hsz hnf, hxy]
    refine mallocLoop_reach l n hchain' (fun u hu => hne u ?_) ⟨v, hv', hfit⟩
    rw [List.dropLast_cons_of_ne_nil hl]
    exact List.mem_cons_of_mem y hu

/-- Along a chain from `x` to `freep` of nodes too small and not `freep`, the loop comes to
`freep`.  The induction is on the chain. -/
lemma mallocLoop_wrap {n : ℕ} (hfreep : ∀ z, m.next z = m.freep →
      ∃ r, mallocLoop nunits (n + 1) z m.freep m = some r) :
    ∀ (l : List UInt32) {x : UInt32}, List.IsChain (Step m.next) (x :: l ++ [m.freep]) →
      (∀ v ∈ l, (m.hdr v).size < nunits ∧ v ≠ m.freep) →
        ∃ r, mallocLoop nunits (n + l.length + 1) x (m.hdr x).ptr m = some r
  | [], x, hchain, _ => by
    have hxf : m.next x = m.freep := (@List.isChain_pair _ (Step m.next) x m.freep).mp hchain
    rw [List.length_nil, Nat.add_zero, show (m.hdr x).ptr = m.freep from hxf]
    exact hfreep x hxf
  | y :: l, x, hchain, hsmall => by
    obtain ⟨hxy, hchain'⟩ := List.isChain_cons_cons.mp hchain
    have hxy' : m.next x = y := hxy
    obtain ⟨hsz, hyf⟩ := hsmall y List.mem_cons_self
    have hstep := mallocLoop_step (n := n + l.length + 1) (hxy' ▸ hsz) (hxy' ▸ hyf)
    rw [List.length_cons, show n + (l.length + 1) + 1 = n + l.length + 1 + 1 by omega, hstep,
      hxy']
    exact mallocLoop_wrap hfreep l hchain' fun v hv => hsmall v (List.mem_cons_of_mem y hv)

/-- At `freep` the loop returns: it takes `freep` when it is large enough, and otherwise
`morecore` fails, and the loop returns `0`, or leaves a free block large enough, which the
loop finds within one more round of the ring. -/
lemma mallocLoop_at_freep (hinv : Inv base h0 m bs) (hset : m.freep ≠ 0)
    (hnu : nunits.toNat < 2 ^ 28) {n : ℕ} (hn : 2 ^ 28 < n) (z : UInt32) :
    ∃ r, mallocLoop nunits (n + 1) z m.freep m = some r := by
  by_cases hfit : nunits ≤ (m.hdr m.freep).size
  · exact mallocLoop_fit hfit
  rw [mallocLoop, if_neg (show ¬(m.hdr m.freep).size ≥ nunits from hfit), if_pos rfl]
  rcases morecore_spec hinv hset hnu with ⟨m₁, -, hmc, -⟩ | ⟨m₁, bs₁, hmc, hgrown, v, hv, hroom⟩
  · rw [hmc]
    exact ⟨_, rfl⟩
  rw [hmc]
  simp only [if_neg hgrown.freep]
  -- the new ring, read from the new `freep`, holds a block large enough
  obtain ⟨W, hchain, hW, hlen, hall⟩ :=
    ring_from hgrown.inv hgrown.freep (hgrown.inv.ring hgrown.freep).2.2
  have hlen' := ring_length_le hgrown.inv
  have hvW : v ∈ W ++ [m₁.freep] := by
    have := hall v (List.mem_cons_of_mem _ hv)
    simp only [List.mem_cons, List.mem_append] at this ⊢
    tauto
  have hreach : ∃ r, mallocLoop nunits (n - W.length - 1 + (W ++ [m₁.freep]).length) m₁.freep
      (m₁.hdr m₁.freep).ptr m₁ = some r :=
    mallocLoop_reach (W ++ [m₁.freep]) (n - W.length - 1) (by simpa using hchain)
    (by rw [List.dropLast_concat]; exact fun u hu heq => hW (heq ▸ hu))
    ⟨v, hvW, UInt32.le_iff_toNat_le.mpr (by show nunits.toNat ≤ m₁.units v; omega)⟩
  rw [List.length_append, List.length_singleton,
    show n - W.length - 1 + (W.length + 1) = n by omega] at hreach
  exact hreach

/-- From `freep`, `malloc`'s loop returns within its passes. -/
theorem mallocLoop_returns (hinv : Inv base h0 m bs) (hset : m.freep ≠ 0)
    (hnu : nunits.toNat < 2 ^ 28) :
    ∃ r, mallocLoop nunits LOOPFUEL m.freep (m.hdr m.freep).ptr m = some r := by
  obtain ⟨W, hchain, hW, hlen, -⟩ := ring_from hinv hset (hinv.ring hset).2.2
  have hlen' := ring_length_le hinv
  by_cases hbig : ∃ v ∈ W, nunits ≤ (m.hdr v).size
  · -- a block of the ring is large enough
    obtain ⟨v, hv, hfit⟩ := hbig
    have hreach := mallocLoop_reach (W ++ [m.freep]) (LOOPFUEL - W.length - 1)
      (by simpa using hchain)
      (by rw [List.dropLast_concat]; exact fun u hu heq => hW (heq ▸ hu))
      ⟨v, List.mem_append_left _ hv, hfit⟩
    rw [List.length_append, List.length_singleton,
      show LOOPFUEL - W.length - 1 + (W.length + 1) = LOOPFUEL by unfold LOOPFUEL; omega]
      at hreach
    exact hreach
  · -- none is: the loop comes round to `freep`
    have hsmall : ∀ v ∈ W, (m.hdr v).size < nunits ∧ v ≠ m.freep := fun v hv =>
      ⟨UInt32.not_le.mp fun h => hbig ⟨v, hv, h⟩, fun heq => hW (heq ▸ hv)⟩
    have hwrap := mallocLoop_wrap (n := LOOPFUEL - W.length - 1)
      (fun z _ => mallocLoop_at_freep hinv hset hnu (by unfold LOOPFUEL; omega) z) W hchain hsmall
    rw [show LOOPFUEL - W.length - 1 + W.length + 1 = LOOPFUEL by unfold LOOPFUEL; omega]
      at hwrap
    exact hwrap

/-- `malloc(nbytes)`, for `nbytes` up to `2^31 - 16`, on a heap that keeps the invariant,
returns within its passes. -/
theorem malloc_returns {nbytes : UInt32} (hinv : Inv base h0 m bs)
    (hn : nbytes.toNat ≤ 2 ^ 31 - 16) : ∃ r, malloc base nbytes m = some r := by
  have hlt : (nunitsOf nbytes).toNat < 2 ^ 28 := by
    rw [toNat_nunitsOf (by omega)]
    omega
  unfold malloc
  by_cases hset : m.freep = 0
  · obtain rfl : bs = [] := hinv.unset hset
    rw [if_pos hset]
    exact mallocLoop_returns hinv.init hinv.base_ne_zero hlt
  · rw [if_neg hset]
    exact mallocLoop_returns hinv hset hlt

/-- `malloc(nbytes)`, for `nbytes` up to `2^31 - 16`, on a heap that keeps the invariant,
returns, and the heap keeps the invariant and its used blocks with their sizes; `0` comes back
only when the `sbrk` of `morecore` fails, and a pointer other than `0` lies one header past a
new used block of `nunitsOf nbytes` headers. -/
theorem malloc_total {nbytes : UInt32} (hinv : Inv base h0 m bs)
    (hn : nbytes.toNat ≤ 2 ^ 31 - 16) :
    ∃ ap m' bs', malloc base nbytes m = some (ap, m') ∧
      ((ap = 0 ∧ Refused base h0 (nunitsOf nbytes) m m' bs bs') ∨
        (ap ≠ 0 ∧ Taken base h0 (nunitsOf nbytes) m m' bs bs' ap)) := by
  obtain ⟨⟨ap, m'⟩, h⟩ := malloc_returns hinv hn
  obtain ⟨bs', hres⟩ := malloc_spec hinv hn h
  exact ⟨ap, m', bs', h, hres⟩

/-- `malloc(100)` on a fresh heap: `morecore` grows the process and the request is served. -/
theorem malloc_total_freshHeap :
    Inv exampleBase 0x3000 freshHeap [] ∧ (100 : UInt32).toNat ≤ 2 ^ 31 - 16 ∧
      (malloc exampleBase 100 freshHeap).map Prod.fst ≠ some 0 ∧
      ∃ ap m' bs', malloc exampleBase 100 freshHeap = some (ap, m') ∧
        ((ap = 0 ∧ Refused exampleBase 0x3000 (nunitsOf 100) freshHeap m' [] bs') ∨
          (ap ≠ 0 ∧ Taken exampleBase 0x3000 (nunitsOf 100) freshHeap m' [] bs' ap)) := by
  have hinv : Inv exampleBase 0x3000 freshHeap [] := by decide
  have hn : (100 : UInt32).toNat ≤ 2 ^ 31 - 16 := by decide
  exact ⟨hinv, hn, by decide, malloc_total hinv hn⟩

/-- When the kernel has no page to give, the same call returns `0`. -/
example : (malloc exampleBase 100 { freshHeap with oom := fun _ => true }).map Prod.fst =
    some 0 := by decide

end Returns

end Xv6.Umalloc
