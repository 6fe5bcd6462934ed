import Xv6.Libc.Umalloc

/-!
# The heap that `malloc` and `free` keep

The blocks of the heap, free or handed out, cover the memory `sbrk` gave the allocator end
to end, each at least one header long (`Tiles`); no two free blocks are neighbours
(`Coalesced`); and following `ptr` from `base` passes the free blocks in the order of their
addresses and comes back to `base` (`Ring`).  `Inv base h0 m bs` says all of this of the
memory `m` and the blocks `bs`, with `h0` the size of the process before its first `sbrk`.

* `freeSearch_pred`: `free`'s search, started anywhere on the ring, stops at the last ring
  node below the freed block;
* `free_spec`, `morecore_spec`, `malloc_spec`: each call keeps the invariant.
-/

namespace Xv6.Umalloc

open SRing

/-- A block of the heap: the address of its header, and whether it is on the free ring. -/
structure Block where
  addr : UInt32
  free : Bool
deriving DecidableEq, Repr

/-- The blocks `bs`, in order, cover `[a, e)` end to end, each at least one header long, with
`units` the size of each in headers. -/
def Tiles (units : UInt32 → ℕ) : ℕ → ℕ → List Block → Prop
  | a, e, [] => a = e
  | a, e, b :: bs => b.addr.toNat = a ∧ 0 < units b.addr ∧ Tiles units (a + 8 * units b.addr) e bs

/-- The free blocks, in order. -/
def freeAddrs (bs : List Block) : List UInt32 := (bs.filter (·.free)).map (·.addr)

/-- The blocks handed out, in order. -/
def usedAddrs (bs : List Block) : List UInt32 := (bs.filter (fun b => !b.free)).map (·.addr)

/-- No two neighbouring blocks are both free. -/
def Coalesced (bs : List Block) : Prop := bs.IsChain fun b c => ¬(b.free = true ∧ c.free = true)

/-- Following `next` from `base` passes the free blocks of `bs`, in order, and comes back. -/
def Ring (next : UInt32 → UInt32) (base : UInt32) (bs : List Block) : Prop :=
  List.IsChain (Step next) (base :: freeAddrs bs ++ [base])

/-- The invariant of the allocator's memory `m` with the blocks `bs`, for the static header at
`base` and a heap that starts at `h0`: the blocks tile `[h0, brk)` below `KERNBASE`, `base`
lies under the heap, no two free blocks touch, and once `malloc` has run, the ring from
`base` is the free blocks in order, `base` has size `0`, and `freep` is on the ring. -/
structure Inv (base h0 : UInt32) (m : Umem) (bs : List Block) : Prop where
  tiles : Tiles m.units h0.toNat m.brk.toNat bs
  brk_le : m.brk ≤ KERNBASE
  base_pos : 0 < base
  base_lt : base < h0
  coalesced : Coalesced bs
  ring : m.freep ≠ 0 → Ring m.next base bs ∧ m.units base = 0 ∧ m.freep ∈ base :: freeAddrs bs
  unset : m.freep = 0 → bs = []

/-! ## Deciding the invariant -/

/-- Whether the blocks tile `[a, e)`, block by block. -/
def decTiles (units : UInt32 → ℕ) : (a e : ℕ) → (bs : List Block) → Decidable (Tiles units a e bs)
  | a, e, [] => inferInstanceAs (Decidable (a = e))
  | a, e, b :: bs =>
    have := decTiles units (a + 8 * units b.addr) e bs
    inferInstanceAs
      (Decidable (b.addr.toNat = a ∧ 0 < units b.addr ∧ Tiles units (a + 8 * units b.addr) e bs))

instance (units : UInt32 → ℕ) (a e : ℕ) (bs : List Block) : Decidable (Tiles units a e bs) :=
  decTiles units a e bs

instance (bs : List Block) : Decidable (Coalesced bs) :=
  inferInstanceAs (Decidable (bs.IsChain _))

instance (next : UInt32 → UInt32) (base : UInt32) (bs : List Block) :
    Decidable (Ring next base bs) :=
  inferInstanceAs (Decidable (List.IsChain _ _))

instance (base h0 : UInt32) (m : Umem) (bs : List Block) : Decidable (Inv base h0 m bs) :=
  decidable_of_iff (Tiles m.units h0.toNat m.brk.toNat bs ∧ m.brk ≤ KERNBASE ∧ 0 < base ∧
      base < h0 ∧ Coalesced bs ∧
      (m.freep ≠ 0 → Ring m.next base bs ∧ m.units base = 0 ∧ m.freep ∈ base :: freeAddrs bs) ∧
      (m.freep = 0 → bs = []))
    ⟨fun ⟨h₁, h₂, h₃, h₄, h₅, h₆, h₇⟩ => ⟨h₁, h₂, h₃, h₄, h₅, h₆, h₇⟩,
      fun ⟨h₁, h₂, h₃, h₄, h₅, h₆, h₇⟩ => ⟨h₁, h₂, h₃, h₄, h₅, h₆, h₇⟩⟩

/-- The heap a fresh process starts from keeps the invariant with no block. -/
example : Inv exampleBase 0x3000 freshHeap [] := by decide

/-- The heap after `malloc(32760)` on `freshHeap`: `morecore` got a block of `4096` headers at
`0x3000`, and `malloc` took it whole, leaving the ring at `base` alone. -/
def takenHeap : Umem :=
  ⟨fun a => if a = exampleBase then ⟨exampleBase, 0⟩
    else if a = 0x3000 then ⟨exampleBase, 4096⟩ else ⟨0, 0⟩, exampleBase, 0xB000, fun _ => false, 1⟩

example : Inv exampleBase 0x3000 takenHeap [⟨0x3000, false⟩] := by decide

/-! ## Tilings -/

section Tiles

variable {units units' : UInt32 → ℕ}

lemma tiles_append : ∀ {a e : ℕ} {l₁ l₂ : List Block},
    Tiles units a e (l₁ ++ l₂) ↔ ∃ c, Tiles units a c l₁ ∧ Tiles units c e l₂
  | a, e, [], l₂ => by simp [Tiles]
  | a, e, b :: l₁, l₂ => by
    simp only [List.cons_append, Tiles, tiles_append]
    constructor
    · rintro ⟨haddr, hpos, c, h₁, h₂⟩
      exact ⟨c, ⟨haddr, hpos, h₁⟩, h₂⟩
    · rintro ⟨c, ⟨haddr, hpos, h₁⟩, h₂⟩
      exact ⟨haddr, hpos, c, h₁, h₂⟩

/-- A tiling of `[a, e)` by blocks of at least one header has at most `(e - a) / 8` blocks. -/
lemma Tiles.length_le : ∀ {a e : ℕ} {bs : List Block}, Tiles units a e bs → a + 8 * bs.length ≤ e
  | _, _, [], h => by
    simp only [Tiles] at h
    rw [List.length_nil]
    omega
  | a, e, b :: bs, ⟨_, hpos, h⟩ => by
    have := h.length_le
    rw [List.length_cons]
    omega

/-- Every block of a tiling lies inside it. -/
lemma Tiles.mem : ∀ {a e : ℕ} {bs : List Block}, Tiles units a e bs → ∀ b ∈ bs,
    a ≤ b.addr.toNat ∧ b.addr.toNat + 8 * units b.addr ≤ e ∧ 0 < units b.addr
  | _, _, [], _, b, hb => absurd hb List.not_mem_nil
  | a, e, c :: bs, ⟨haddr, hpos, h⟩, b, hb => by
    have hle := h.length_le
    rcases List.mem_cons.mp hb with rfl | hb
    · exact ⟨haddr.ge, by rw [haddr]; omega, hpos⟩
    · have := h.mem b hb
      omega

/-- The blocks of a tiling come in the order of their addresses, each ending before the next
begins. -/
lemma Tiles.pairwise : ∀ {a e : ℕ} {bs : List Block}, Tiles units a e bs →
    bs.Pairwise fun b c => b.addr.toNat + 8 * units b.addr ≤ c.addr.toNat
  | _, _, [], _ => List.Pairwise.nil
  | a, e, b :: bs, ⟨haddr, _, h⟩ =>
    List.Pairwise.cons (fun c hc => by rw [haddr]; exact (h.mem c hc).1) h.pairwise

/-- A tiling reads only the sizes of its blocks. -/
lemma Tiles.congr : ∀ {a e : ℕ} {bs : List Block},
    (∀ b ∈ bs, units' b.addr = units b.addr) → Tiles units a e bs → Tiles units' a e bs
  | _, _, [], _, h => h
  | a, e, b :: bs, hu, ⟨haddr, hpos, h⟩ => by
    have hb := hu b List.mem_cons_self
    refine ⟨haddr, hb ▸ hpos, ?_⟩
    rw [hb]
    exact h.congr fun c hc => hu c (List.mem_cons_of_mem b hc)

/-- A tiling reads only the addresses of its blocks, not which are free. -/
lemma Tiles.of_addrs : ∀ {a e : ℕ} {bs bs' : List Block},
    bs'.map (·.addr) = bs.map (·.addr) → Tiles units a e bs → Tiles units a e bs'
  | _, _, [], [], _, h => h
  | _, _, [], _ :: _, hmap, _ => by simp at hmap
  | _, _, _ :: _, [], hmap, _ => by simp at hmap
  | a, e, b :: bs, b' :: bs', hmap, ⟨haddr, hpos, h⟩ => by
    simp only [List.map_cons, List.cons.injEq] at hmap
    show b'.addr.toNat = a ∧ 0 < units b'.addr ∧ Tiles units (a + 8 * units b'.addr) e bs'
    rw [hmap.1]
    exact ⟨haddr, hpos, h.of_addrs hmap.2⟩

end Tiles

/-! ## The free and the used blocks -/

@[simp] lemma freeAddrs_nil : freeAddrs [] = [] := rfl

@[simp] lemma freeAddrs_append (l₁ l₂ : List Block) :
    freeAddrs (l₁ ++ l₂) = freeAddrs l₁ ++ freeAddrs l₂ := by
  simp [freeAddrs]

@[simp] lemma freeAddrs_cons_free (a : UInt32) (l : List Block) :
    freeAddrs (⟨a, true⟩ :: l) = a :: freeAddrs l := by
  simp [freeAddrs]

@[simp] lemma freeAddrs_cons_used (a : UInt32) (l : List Block) :
    freeAddrs (⟨a, false⟩ :: l) = freeAddrs l := by
  simp [freeAddrs]

@[simp] lemma usedAddrs_nil : usedAddrs [] = [] := rfl

@[simp] lemma usedAddrs_append (l₁ l₂ : List Block) :
    usedAddrs (l₁ ++ l₂) = usedAddrs l₁ ++ usedAddrs l₂ := by
  simp [usedAddrs]

@[simp] lemma usedAddrs_cons_free (a : UInt32) (l : List Block) :
    usedAddrs (⟨a, true⟩ :: l) = usedAddrs l := by
  simp [usedAddrs]

@[simp] lemma usedAddrs_cons_used (a : UInt32) (l : List Block) :
    usedAddrs (⟨a, false⟩ :: l) = a :: usedAddrs l := by
  simp [usedAddrs]

lemma mem_freeAddrs {a : UInt32} {bs : List Block} : a ∈ freeAddrs bs ↔ ⟨a, true⟩ ∈ bs := by
  simp only [freeAddrs, List.mem_map, List.mem_filter]
  constructor
  · rintro ⟨⟨a', f⟩, ⟨hb, hf⟩, rfl⟩
    simp only at hf
    subst hf
    exact hb
  · intro hb
    exact ⟨_, ⟨hb, rfl⟩, rfl⟩

lemma mem_usedAddrs {a : UInt32} {bs : List Block} : a ∈ usedAddrs bs ↔ ⟨a, false⟩ ∈ bs := by
  simp only [usedAddrs, List.mem_map, List.mem_filter]
  constructor
  · rintro ⟨⟨a', f⟩, ⟨hb, hf⟩, rfl⟩
    simp only [Bool.not_eq_eq_eq_not, Bool.not_true] at hf
    subst hf
    exact hb
  · intro hb
    exact ⟨_, ⟨hb, rfl⟩, rfl⟩

/-- The free blocks of a tiling come in the order of their addresses. -/
lemma Tiles.freeAddrs_pairwise {units : UInt32 → ℕ} {a e : ℕ} {bs : List Block}
    (h : Tiles units a e bs) : (freeAddrs bs).Pairwise fun u v => u.toNat < v.toNat := by
  unfold freeAddrs
  rw [List.pairwise_map]
  refine (h.pairwise.filter _).imp_of_mem fun {b c} hb _ hbc => ?_
  have := (h.mem b (List.mem_of_mem_filter hb)).2.2
  omega

/-- The blocks before one of a tiling end before it, and those after start after it. -/
lemma Tiles.split {units : UInt32 → ℕ} {a e : ℕ} {L R : List Block} {b : Block}
    (h : Tiles units a e (L ++ b :: R)) :
    (∀ c ∈ L, c.addr.toNat + 8 * units c.addr ≤ b.addr.toNat) ∧
      ∀ c ∈ R, b.addr.toNat + 8 * units b.addr ≤ c.addr.toNat := by
  have hp := h.pairwise
  rw [List.pairwise_append, List.pairwise_cons] at hp
  exact ⟨fun c hc => hp.2.2 c hc b List.mem_cons_self, hp.2.1.1⟩

/-- The blocks of a tiling have distinct addresses. -/
lemma Tiles.nodup_addrs {units : UInt32 → ℕ} {a e : ℕ} {bs : List Block}
    (h : Tiles units a e bs) : (bs.map Block.addr).Nodup := by
  rw [List.Nodup, List.pairwise_map]
  refine h.pairwise.imp_of_mem fun {b c} hb _ hbc heq => ?_
  have := (h.mem b hb).2.2
  rw [heq] at hbc this
  omega

/-- Two blocks of a tiling at different addresses do not overlap. -/
lemma Tiles.disjoint {units : UInt32 → ℕ} {a e : ℕ} {bs : List Block} (h : Tiles units a e bs)
    {b c : Block} (hb : b ∈ bs) (hc : c ∈ bs) (hne : b.addr ≠ c.addr) :
    b.addr.toNat + 8 * units b.addr ≤ c.addr.toNat ∨
      c.addr.toNat + 8 * units c.addr ≤ b.addr.toNat := by
  -- apart, in one order or the other, is a symmetric relation
  have : Std.Symm fun b c : Block => b.addr.toNat + 8 * units b.addr ≤ c.addr.toNat ∨
      c.addr.toNat + 8 * units c.addr ≤ b.addr.toNat := ⟨fun _ _ h => h.symm⟩
  have hp : bs.Pairwise fun b c : Block => b.addr.toNat + 8 * units b.addr ≤ c.addr.toNat ∨
      c.addr.toNat + 8 * units c.addr ≤ b.addr.toNat := h.pairwise.imp Or.inl
  exact hp.forall hb hc fun heq => hne (heq ▸ rfl)

/-- A block before or after another of a tiling has another address. -/
lemma Tiles.addr_ne {units : UInt32 → ℕ} {a e : ℕ} {L R : List Block} {b c : Block}
    (h : Tiles units a e (L ++ b :: R)) (hc : c ∈ L ∨ c ∈ R) : c.addr ≠ b.addr := by
  intro heq
  rcases hc with hc | hc
  · have h₁ := h.split.1 c hc
    have h₂ := (h.mem c (List.mem_append_left _ hc)).2.2
    rw [heq] at h₁ h₂
    omega
  · have h₁ := h.split.2 c hc
    have h₂ := (h.mem b (List.mem_append_right L List.mem_cons_self)).2.2
    rw [heq] at h₁
    omega

/-- Two neighbours of a tiling joined into one block, which takes the first one's address
and both sizes, leave a tiling. -/
lemma Tiles.merge {units : UInt32 → ℕ} {a e : ℕ} {X Y : List Block} {b c : Block} (f : Bool)
    (h : Tiles units a e (X ++ b :: c :: Y)) :
    Tiles (Function.update units b.addr (units b.addr + units c.addr)) a e
      (X ++ ⟨b.addr, f⟩ :: Y) := by
  -- every block but `b` keeps its size
  have hkeep : ∀ d, d ∈ X ∨ d ∈ Y →
      Function.update units b.addr (units b.addr + units c.addr) d.addr = units d.addr := by
    intro d hd
    refine Function.update_of_ne (h.addr_ne ?_) _ _
    rcases hd with hd | hd
    · exact .inl hd
    · exact .inr (List.mem_cons_of_mem c hd)
  obtain ⟨k, hX, hbk, hbpos, hck, hcpos, hY⟩ := Iff.mp tiles_append h
  refine Iff.mpr tiles_append ⟨k, hX.congr fun d hd => hkeep d (.inl hd), ?_⟩
  simp only [Tiles, Function.update_self]
  refine ⟨hbk, by omega, ?_⟩
  rw [show k + 8 * (units b.addr + units c.addr) = k + 8 * units b.addr + 8 * units c.addr by omega]
  exact hY.congr fun d hd => hkeep d (.inr hd)

/-- A block cut in two, the first part keeping its address and all but `k` of its headers
and the second, at `c`, the last `k`, leaves a tiling. -/
lemma Tiles.cut {units : UInt32 → ℕ} {a e k : ℕ} {X Y : List Block} {b : Block} {c : UInt32}
    (f g : Bool) (h : Tiles units a e (X ++ b :: Y)) (hk : 0 < k) (hkb : k < units b.addr)
    (hc : c.toNat = b.addr.toNat + 8 * (units b.addr - k)) :
    Tiles (Function.update (Function.update units b.addr (units b.addr - k)) c k) a e
      (X ++ ⟨b.addr, f⟩ :: ⟨c, g⟩ :: Y) := by
  have hbc : b.addr ≠ c := fun heq => by
    have := congrArg UInt32.toNat heq
    omega
  -- the blocks before `b` end before it, and those after start past its end
  have hkeep : ∀ d, d ∈ X ∨ d ∈ Y →
      Function.update (Function.update units b.addr (units b.addr - k)) c k d.addr =
        units d.addr := by
    intro d hd
    have hne : d.addr ≠ b.addr := h.addr_ne hd
    have hdc : d.addr ≠ c := by
      intro heq
      rcases hd with hd | hd
      · have h₁ := h.split.1 d hd
        rw [heq] at h₁
        omega
      · have h₁ := h.split.2 d hd
        rw [heq] at h₁
        omega
    rw [Function.update_of_ne hdc, Function.update_of_ne hne]
  obtain ⟨k₀, hX, hbk, -, hY⟩ := Iff.mp tiles_append h
  refine Iff.mpr tiles_append ⟨k₀, hX.congr fun d hd => hkeep d (.inl hd), ?_⟩
  simp only [Tiles, Function.update_self, Function.update_of_ne hbc]
  refine ⟨hbk, by omega, by omega, hk, ?_⟩
  rw [show k₀ + 8 * (units b.addr - k) + 8 * k = k₀ + 8 * units b.addr by omega]
  exact hY.congr fun d hd => hkeep d (.inr hd)

/-- Two blocks of a tiling below `2^31` have fewer than `2^32` headers together. -/
lemma Tiles.units_add_lt {units : UInt32 → ℕ} {a e : ℕ} {bs : List Block} {b c : Block}
    (h : Tiles units a e bs) (he : e ≤ 2 ^ 31) (hb : b ∈ bs) (hc : c ∈ bs) :
    units b.addr + units c.addr < 2 ^ 32 := by
  have h₁ := (h.mem b hb).2.1
  have h₂ := (h.mem c hc).2.1
  omega

/-! ## Coalesced heaps -/

section Coalesced

variable {L R : List Block}

lemma Coalesced.left (h : Coalesced (L ++ R)) : Coalesced L := (List.isChain_append.mp h).1

lemma Coalesced.right (h : Coalesced (L ++ R)) : Coalesced R := (List.isChain_append.mp h).2.1

lemma Coalesced.tail {b : Block} (h : Coalesced (b :: R)) : Coalesced R := List.IsChain.tail h

/-- The block after a free one is used. -/
lemma Coalesced.head_used {a : UInt32} (h : Coalesced (⟨a, true⟩ :: R)) :
    ∀ c ∈ R.head?, c.free = false := by
  intro c hc
  have := (List.isChain_cons.mp h).1 c hc
  simpa using this

/-- The block before a free one is used. -/
lemma Coalesced.last_used {a : UInt32} (h : Coalesced (L ++ [⟨a, true⟩])) :
    ∀ c ∈ L.getLast?, c.free = false := by
  intro c hc
  have := (List.isChain_append.mp h).2.2 c hc ⟨a, true⟩ rfl
  simpa using this

/-- A free block between two used ones keeps the heap coalesced. -/
lemma coalesced_insert {a : UInt32} (hL : Coalesced L) (hR : Coalesced R)
    (hl : ∀ c ∈ L.getLast?, c.free = false) (hr : ∀ c ∈ R.head?, c.free = false) :
    Coalesced (L ++ ⟨a, true⟩ :: R) := by
  refine List.isChain_append.mpr ⟨hL, List.isChain_cons.mpr ⟨fun c hc => ?_, hR⟩, ?_⟩
  · simp [hr c hc]
  · intro x hx y hy
    simp only [List.head?_cons, Option.mem_some_iff] at hy
    subst hy
    simp [hl x hx]

/-- A used block in front of a coalesced heap keeps it coalesced. -/
lemma Coalesced.cons_used {a : UInt32} (hR : Coalesced R) : Coalesced (⟨a, false⟩ :: R) :=
  List.isChain_cons.mpr ⟨fun c _ => by simp, hR⟩

/-- A used block between two coalesced heaps keeps them coalesced. -/
lemma coalesced_insert_used {a : UInt32} (hL : Coalesced L) (hR : Coalesced R) :
    Coalesced (L ++ ⟨a, false⟩ :: R) :=
  List.isChain_append.mpr ⟨hL, hR.cons_used, fun x _ y hy => by
    simp only [List.head?_cons, Option.mem_some_iff] at hy
    subst hy
    simp⟩

/-- Unless it ends in a free block, a heap ends in a used one or is empty. -/
lemma last_used_of_ne (hL : ∀ L' l, L ≠ L' ++ [⟨l, true⟩]) : ∀ c ∈ L.getLast?, c.free = false := by
  intro c hc
  obtain ⟨L', rfl⟩ : ∃ L', L = L' ++ [c] := by
    rcases List.eq_nil_or_concat L with rfl | ⟨L', d, rfl⟩
    · simp at hc
    · rw [List.concat_eq_append, List.getLast?_concat, Option.mem_some_iff] at hc
      exact ⟨L', by rw [hc, List.concat_eq_append]⟩
  cases hf : c.free
  · rfl
  · exact absurd (by rw [← hf]) (hL L' c.addr)

/-- Unless it starts with a free block, a heap starts with a used one or is empty. -/
lemma head_used_of_ne (hR : ∀ r R', R ≠ ⟨r, true⟩ :: R') : ∀ c ∈ R.head?, c.free = false := by
  intro c hc
  cases R with
  | nil => simp at hc
  | cons d R' =>
    simp only [List.head?_cons, Option.mem_some_iff] at hc
    subst hc
    cases hf : d.free
    · rfl
    · exact absurd (by rw [← hf]) (hR d.addr R')

end Coalesced

/-! ## The search of `free` -/

section Search

variable {bp u v : UInt32}

lemma searchStop_between (hu : u.toNat < bp.toNat) (hv : bp.toNat < v.toNat) :
    searchStop bp u v = true := by
  simp only [searchStop, gt_iff_lt, UInt32.lt_iff_toNat_lt, ge_iff_le, UInt32.le_iff_toNat_le]
  simp [hu, hv]

lemma searchStop_last (hvu : v.toNat ≤ u.toNat) (hu : u.toNat < bp.toNat) :
    searchStop bp u v = true := by
  simp only [searchStop, gt_iff_lt, UInt32.lt_iff_toNat_lt, ge_iff_le, UInt32.le_iff_toNat_le]
  simp [hu, hvu]

lemma searchStop_below (huv : u.toNat < v.toNat) (hv : v.toNat < bp.toNat) :
    searchStop bp u v = false := by
  simp only [searchStop, gt_iff_lt, UInt32.lt_iff_toNat_lt, ge_iff_le, UInt32.le_iff_toNat_le]
  simp only [Bool.or_eq_false_iff, decide_eq_false_iff_not]
  omega

lemma searchStop_above (hu : bp.toNat < u.toNat) (huv : u.toNat < v.toNat ∨ v.toNat < bp.toNat) :
    searchStop bp u v = false := by
  simp only [searchStop, gt_iff_lt, UInt32.lt_iff_toNat_lt, ge_iff_le, UInt32.le_iff_toNat_le]
  simp only [Bool.or_eq_false_iff, decide_eq_false_iff_not]
  omega

end Search

section FreeSearch

variable {base h0 bp p : UInt32} {m : Umem} {L R : List Block} {P : List UInt32} {f : Bool}

/-- The ring of a heap with a used block `bp`, cut at the last ring node `p` below `bp`. -/
lemma ring_cut (hring : Ring m.next base (L ++ ⟨bp, false⟩ :: R))
    (hp : base :: freeAddrs L = P ++ [p]) :
    List.IsChain (Step m.next) (P ++ p :: (freeAddrs R ++ [base])) := by
  unfold Ring at hring
  rw [freeAddrs_append, freeAddrs_cons_used, ← List.cons_append, List.append_assoc, hp,
    List.append_assoc, List.singleton_append] at hring
  exact hring

/-- Every node of the ring from `base` to `p` lies below `bp`, in increasing order. -/
lemma below_pairwise (hinv : Inv base h0 m (L ++ ⟨bp, f⟩ :: R)) :
    (base :: freeAddrs L).Pairwise fun u v => u.toNat < v.toNat ∧ v.toNat < bp.toNat := by
  have hsplit := hinv.tiles.split
  have hbase : base.toNat < h0.toNat := UInt32.lt_iff_toNat_lt.mp hinv.base_lt
  have hL : (freeAddrs L).Pairwise fun u v => u.toNat < v.toNat :=
    (Iff.mp tiles_append hinv.tiles).elim fun _ h => h.1.freeAddrs_pairwise
  -- every free block of `L` ends at or before `bp`, and starts after `base`
  have hlt : ∀ u ∈ freeAddrs L, base.toNat < u.toNat ∧ u.toNat < bp.toNat := by
    intro u hu
    have hmem := Iff.mp mem_freeAddrs hu
    have h₁ : h0.toNat ≤ u.toNat := (hinv.tiles.mem _ (List.mem_append_left _ hmem)).1
    have h₂ : u.toNat + 8 * m.units u ≤ bp.toNat := hsplit.1 _ hmem
    have h₃ : 0 < m.units u := (hinv.tiles.mem _ (List.mem_append_left _ hmem)).2.2
    exact ⟨by omega, by omega⟩
  refine List.Pairwise.cons (fun v hv => ⟨(hlt v hv).1, (hlt v hv).2⟩) ?_
  exact hL.imp_of_mem fun {u v} _ hv huv => ⟨huv, (hlt v hv).2⟩

/-- Every free block after `bp` starts after it. -/
lemma above_lt (hinv : Inv base h0 m (L ++ ⟨bp, f⟩ :: R)) :
    ∀ u ∈ freeAddrs R, bp.toNat < u.toNat := by
  intro u hu
  have h₂ : bp.toNat + 8 * m.units bp ≤ u.toNat := hinv.tiles.split.2 _ (Iff.mp mem_freeAddrs hu)
  have h₃ : 0 < m.units bp :=
    (hinv.tiles.mem ⟨bp, f⟩ (List.mem_append_right L List.mem_cons_self)).2.2
  omega

/-- `bp` lies above `base`. -/
lemma base_lt_bp (hinv : Inv base h0 m (L ++ ⟨bp, f⟩ :: R)) : base.toNat < bp.toNat := by
  have hbp : h0.toNat ≤ bp.toNat :=
    (hinv.tiles.mem ⟨bp, f⟩ (List.mem_append_right L List.mem_cons_self)).1
  have hbase : base.toNat < h0.toNat := UInt32.lt_iff_toNat_lt.mp hinv.base_lt
  omega

lemma base_ne_bp (hinv : Inv base h0 m (L ++ ⟨bp, f⟩ :: R)) : base ≠ bp := by
  intro h
  have := base_lt_bp hinv
  rw [h] at this
  omega

/-- Every free block after `bp` lies above it, in increasing order, and `base` below. -/
lemma above_pairwise (hinv : Inv base h0 m (L ++ ⟨bp, false⟩ :: R)) :
    (freeAddrs R ++ [base]).Pairwise fun u v => bp.toNat < u.toNat ∧
      (u.toNat < v.toNat ∨ v.toNat < bp.toNat) := by
  have hR : (freeAddrs R).Pairwise fun u v => u.toNat < v.toNat :=
    (Iff.mp tiles_append hinv.tiles).elim fun _ h => h.2.2.2.freeAddrs_pairwise
  have hgt := above_lt hinv
  have hbase := base_lt_bp hinv
  rw [List.pairwise_append]
  refine ⟨hR.imp_of_mem fun {u v} hu _ huv => ⟨hgt u hu, .inl huv⟩, List.pairwise_singleton _ _,
    fun u hu v hv => ?_⟩
  rw [List.mem_singleton] at hv
  subst hv
  exact ⟨hgt u hu, .inr hbase⟩

/-- The ring has at most `2^28` free blocks: each is a header long at least, below `2^31`. -/
lemma ring_length_le {bs : List Block} (hinv : Inv base h0 m bs) : (freeAddrs bs).length ≤ 2 ^ 28 := by
  have hlen := hinv.tiles.length_le
  have hbrk : m.brk.toNat ≤ 2 ^ 31 := UInt32.le_iff_toNat_le.mp hinv.brk_le
  have hfl : (freeAddrs bs).length ≤ bs.length := by
    unfold freeAddrs
    rw [List.length_map]
    exact List.length_filter_le _ _
  omega

/-- The nodes of the ring from `base` to `p` come before `p`, and `p` lies below `bp`. -/
lemma below_cut (hinv : Inv base h0 m (L ++ ⟨bp, f⟩ :: R))
    (hp : base :: freeAddrs L = P ++ [p]) :
    (∀ u ∈ P, u.toNat < p.toNat ∧ p.toNat < bp.toNat) ∧ base.toNat ≤ p.toNat ∧
      p.toNat < bp.toNat := by
  have hbelow := below_pairwise hinv
  rw [hp] at hbelow
  have hP : ∀ u ∈ P, u.toNat < p.toNat ∧ p.toNat < bp.toNat := fun u hu =>
    (List.pairwise_append.mp hbelow).2.2 u hu p (List.mem_singleton_self p)
  refine ⟨hP, ?_⟩
  cases P with
  | nil =>
    simp only [List.nil_append, List.cons.injEq] at hp
    rw [← hp.1]
    exact ⟨Nat.le_refl _, base_lt_bp hinv⟩
  | cons u P =>
    simp only [List.cons_append, List.cons.injEq] at hp
    have := hP u List.mem_cons_self
    rw [hp.1]
    omega

/-- `free`'s search, started at `freep` anywhere on the ring, stops at the last ring node `p`
below the used block `bp`.  The walk goes up the ring to `p`, or up to the top, round to
`base` and up to `p`; every step before `p` fails the test (`walk_chain`), and `p`'s passes
it, its successor being above `bp` or `base`. -/
theorem freeSearch_pred (hinv : Inv base h0 m (L ++ ⟨bp, false⟩ :: R)) (hset : m.freep ≠ 0)
    (hp : base :: freeAddrs L = P ++ [p]) : freeSearch m bp LOOPFUEL m.freep = some p := by
  obtain ⟨hring, -, hfreep⟩ := hinv.ring hset
  have hcut := ring_cut hring hp
  have hbelow := below_pairwise hinv
  have habove := above_pairwise hinv
  rw [hp] at hbelow
  -- the walk has fuel for more nodes than the ring has
  have hringlen : P.length + (freeAddrs R).length + 2 < LOOPFUEL := by
    have hring := ring_length_le hinv
    have hPL : P.length = (freeAddrs L).length := by
      have := congrArg List.length hp
      rw [List.length_cons, List.length_append, List.length_singleton] at this
      omega
    rw [freeAddrs_append, freeAddrs_cons_used, List.length_append] at hring
    unfold LOOPFUEL
    omega
  -- `p` lies below `bp`, and above or at `base`
  have hp_range := (below_cut hinv hp).2
  -- `p` passes the test: the node after it is above `bp`, or it is the top and wraps to `base`
  have hstop : searchStop bp p (m.next p) = true := by
    rw [isChain_split] at hcut
    cases hR : freeAddrs R with
    | nil =>
      rw [hR, List.nil_append] at hcut
      have hnext : Step m.next p base := (@List.isChain_pair _ (Step m.next) p base).mp hcut.2
      rw [hnext]
      exact searchStop_last hp_range.1 hp_range.2
    | cons v FR =>
      rw [hR, List.cons_append, List.isChain_cons_cons] at hcut
      have hnext : m.next p = v := hcut.2.1
      rw [hnext]
      exact searchStop_between hp_range.2 (above_lt hinv v (by rw [hR]; exact List.mem_cons_self))
  -- every step of the ring before `p` fails the test
  have hfailBelow : List.IsChain (fun u v => searchStop bp u v = false) (P ++ [p]) :=
    hbelow.isChain.imp fun {_ _} h => searchStop_below h.1 h.2
  have hfailAbove : List.IsChain (fun u v => searchStop bp u v = false) (freeAddrs R ++ [base]) :=
    habove.isChain.imp fun {_ _} h => searchStop_above h.1 h.2
  rw [freeSearch_eq_walk]
  have hfreep' : m.freep ∈ P ++ [p] ∨ m.freep ∈ freeAddrs R := by
    rw [freeAddrs_append, freeAddrs_cons_used, ← List.cons_append, hp] at hfreep
    exact List.mem_append.mp hfreep
  rcases hfreep' with hin | hin
  · -- `freep` lies below `bp`: the walk goes up the ring to `p`
    obtain ⟨X, Y, hXY⟩ := List.append_of_mem hin
    rcases List.eq_nil_or_concat Y with rfl | ⟨Y₀, y, rfl⟩
    · have hfp : m.freep = p := by
        have := (List.append_inj' hXY rfl).2
        simp only [List.cons.injEq] at this
        exact this.1.symm
      rw [hfp, show LOOPFUEL = (LOOPFUEL - 1) + 1 from rfl]
      exact walk_stop _ hstop
    · have hyp : y = p ∧ P = X ++ m.freep :: Y₀ := by
        rw [List.concat_eq_append,
          show X ++ m.freep :: (Y₀ ++ [y]) = (X ++ m.freep :: Y₀) ++ [y] by simp] at hXY
        have := List.append_inj' hXY rfl
        simp only [List.cons.injEq, and_true] at this
        exact ⟨this.2.symm, this.1⟩
      obtain ⟨rfl, rfl⟩ := hyp
      have hseg : List.IsChain (Step m.next) (m.freep :: Y₀ ++ [y]) :=
         List.IsChain.infix hcut ⟨X, freeAddrs R ++ [base], by simp⟩
      have hfail : List.IsChain (fun u v => searchStop bp u v = false) (m.freep :: Y₀ ++ [y]) :=
         List.IsChain.infix hfailBelow ⟨X, [], by simp⟩
      have hfuel : LOOPFUEL = (LOOPFUEL - Y₀.length - 2 + 1) + Y₀.length + 1 := by
        simp only [List.length_append, List.length_cons] at hringlen
        omega
      rw [hfuel, walk_chain _ _ hseg hfail]
      exact walk_stop _ hstop
  · -- `freep` lies above `bp`: the walk goes up to the top, round to `base`, and up to `p`
    obtain ⟨X, Y, hXY⟩ := List.append_of_mem hin
    have hrot : List.IsChain (Step m.next)
        (m.freep :: Y ++ base :: (freeAddrs L ++ X) ++ [m.freep]) := by
      apply isChain_rotate
      unfold Ring at hring
      rw [freeAddrs_append, freeAddrs_cons_used, hXY] at hring
      simpa using hring
    have hlist : [] ++ (m.freep :: (Y ++ P) ++ [p]) ++ (X ++ [m.freep]) =
        m.freep :: Y ++ base :: (freeAddrs L ++ X) ++ [m.freep] := by
      rw [show base :: (freeAddrs L ++ X) = (base :: freeAddrs L) ++ X from rfl, hp]
      simp
    have hseg : List.IsChain (Step m.next) (m.freep :: (Y ++ P) ++ [p]) :=
       List.IsChain.infix hrot ⟨[], X ++ [m.freep], hlist⟩
    -- the steps up to the top, the wrap to `base`, and the steps from `base` to `p` all fail
    have hfail : List.IsChain (fun u v => searchStop bp u v = false)
        (m.freep :: (Y ++ P) ++ [p]) := by
      rw [show m.freep :: (Y ++ P) ++ [p] = (m.freep :: Y) ++ (P ++ [p]) by simp, ← hp,
        isChain_split]
      refine ⟨ List.IsChain.infix hfailAbove ⟨X, [], ?_⟩, hp ▸ hfailBelow⟩
      rw [hXY]
      simp
    have hfuel : LOOPFUEL = (LOOPFUEL - (Y ++ P).length - 2 + 1) + (Y ++ P).length + 1 := by
      have hY : Y.length ≤ (freeAddrs R).length := by
        rw [hXY, List.length_append, List.length_cons]
        omega
      rw [List.length_append]
      omega
    rw [hfuel, walk_chain _ _ hseg hfail]
    exact walk_stop _ hstop

end FreeSearch

/-! ## The neighbours of a freed block -/

/-- `p + k` for a `Header *p`, where it does not wrap. -/
lemma toNat_hoff {x k : UInt32} (h : x.toNat + 8 * k.toNat < 2 ^ 32) :
    (hoff x k).toNat = x.toNat + 8 * k.toNat := by
  unfold hoff HDRSIZE
  rw [UInt32.toNat_add, UInt32.toNat_mul]
  simp only [UInt32.reduceToNat]
  rw [Nat.mod_eq_of_lt (by omega : k.toNat * 8 < 2 ^ 32)]
  omega

/-- Every block of the heap lies in `[h0, 2^31)`. -/
lemma Inv.block {base h0 : UInt32} {m : Umem} {bs : List Block} (hinv : Inv base h0 m bs)
    {b : Block} (hb : b ∈ bs) :
    h0.toNat ≤ b.addr.toNat ∧ b.addr.toNat + 8 * m.units b.addr ≤ 2 ^ 31 ∧ 0 < m.units b.addr := by
  have hmem := hinv.tiles.mem b hb
  have hbrk : m.brk.toNat ≤ 2 ^ 31 := UInt32.le_iff_toNat_le.mp hinv.brk_le
  exact ⟨hmem.1, by omega, hmem.2.2⟩

/-- The invariant does not read how many times the process called `sbrk`. -/
lemma Inv.setCalls {base h0 : UInt32} {m : Umem} {bs : List Block} (hinv : Inv base h0 m bs)
    (c : ℕ) : Inv base h0 { m with calls := c } bs :=
  ⟨hinv.tiles, hinv.brk_le, hinv.base_pos, hinv.base_lt, hinv.coalesced, hinv.ring, hinv.unset⟩

/-- The end of a block of the heap, as `free` and `malloc` compute it. -/
lemma Inv.hoff_block {base h0 : UInt32} {m : Umem} {bs : List Block} (hinv : Inv base h0 m bs)
    {b : Block} (hb : b ∈ bs) :
    (hoff b.addr (m.hdr b.addr).size).toNat = b.addr.toNat + 8 * m.units b.addr := by
  have := hinv.block hb
  exact toNat_hoff (by unfold Umem.units at this; omega)

section Join

variable {base h0 bp p : UInt32} {m : Umem} {L R : List Block} {P : List UInt32} {f : Bool}

/-- The ring node after `p` is the first free block after `bp`, or `base`. -/
lemma next_of_cut (hcut : List.IsChain (Step m.next) (P ++ p :: (freeAddrs R ++ [base]))) :
    (freeAddrs R = [] → m.next p = base) ∧
      ∀ v FR, freeAddrs R = v :: FR → m.next p = v := by
  rw [isChain_split] at hcut
  refine ⟨fun hR => ?_, fun v FR hR => ?_⟩
  · rw [hR, List.nil_append] at hcut
    exact (@List.isChain_pair _ (Step m.next) p base).mp hcut.2
  · rw [hR, List.cons_append, List.isChain_cons_cons] at hcut
    exact hcut.2.1

/-- A free block right after `bp` is the ring node after `p`, and `bp` ends where it starts. -/
lemma upper_touch (hinv : Inv base h0 m (L ++ ⟨bp, false⟩ :: R))
    (hcut : List.IsChain (Step m.next) (P ++ p :: (freeAddrs R ++ [base])))
    {r : UInt32} {R' : List Block} (hR : R = ⟨r, true⟩ :: R') :
    m.next p = r ∧ hoff bp (m.hdr bp).size = r := by
  refine ⟨(next_of_cut hcut).2 r (freeAddrs R') (by rw [hR, freeAddrs_cons_free]), ?_⟩
  have hend : (hoff bp (m.hdr bp).size).toNat = bp.toNat + 8 * m.units bp :=
    hinv.hoff_block (List.mem_append_right L List.mem_cons_self)
  obtain ⟨c, -, hc⟩ := Iff.mp tiles_append hinv.tiles
  rw [hR] at hc
  obtain ⟨hbc, -, hr, -⟩ := hc
  have hbc' : bp.toNat = c := hbc
  have hr' : r.toNat = c + 8 * m.units bp := hr
  apply UInt32.toNat_inj.mp
  omega

/-- When the block after `bp` is not free, the ring node after `p` does not start where `bp`
ends: it lies beyond that block, or it is `base`. -/
lemma upper_apart (hinv : Inv base h0 m (L ++ ⟨bp, false⟩ :: R))
    (hcut : List.IsChain (Step m.next) (P ++ p :: (freeAddrs R ++ [base])))
    (hR : ∀ r R', R ≠ ⟨r, true⟩ :: R') : hoff bp (m.hdr bp).size ≠ m.next p := by
  have hend : (hoff bp (m.hdr bp).size).toNat = bp.toNat + 8 * m.units bp :=
    hinv.hoff_block (List.mem_append_right L List.mem_cons_self)
  have hbase := base_lt_bp hinv
  intro heq
  have hnat := congrArg UInt32.toNat heq
  rw [hend] at hnat
  cases hF : freeAddrs R with
  | nil =>
    rw [(next_of_cut hcut).1 hF] at hnat
    omega
  | cons v FR =>
    rw [(next_of_cut hcut).2 v FR hF] at hnat
    -- the block after `bp` is used, and `v` is a free block past it
    cases R with
    | nil => simp at hF
    | cons b R' =>
      obtain ⟨r, f⟩ := b
      cases f with
      | true => exact hR r R' rfl
      | false =>
        rw [freeAddrs_cons_used] at hF
        have hv : (⟨v, true⟩ : Block) ∈ R' :=
          Iff.mp mem_freeAddrs (by rw [hF]; exact List.mem_cons_self)
        obtain ⟨c, -, hbc, -, hr, hpos, hR'⟩ := Iff.mp tiles_append hinv.tiles
        have hbc' : bp.toNat = c := hbc
        have hr' : r.toNat = c + 8 * m.units bp := hr
        have hpos' : 0 < m.units r := hpos
        have hrv : c + 8 * m.units bp + 8 * m.units r ≤ v.toNat := (hR'.mem _ hv).1
        omega

/-- A free block right before `bp` is `p`, and it ends where `bp` starts. -/
lemma lower_touch (hinv : Inv base h0 m (L ++ ⟨bp, false⟩ :: R))
    (hp : base :: freeAddrs L = P ++ [p]) {l : UInt32} {L' : List Block}
    (hL : L = L' ++ [⟨l, true⟩]) :
    l = p ∧ P = base :: freeAddrs L' ∧ hoff p (m.hdr p).size = bp := by
  have hlp : l = p ∧ P = base :: freeAddrs L' := by
    rw [hL, freeAddrs_append, freeAddrs_cons_free, freeAddrs_nil, ← List.cons_append] at hp
    have := List.append_inj' hp rfl
    simp only [List.cons.injEq, and_true] at this
    exact ⟨this.2, this.1.symm⟩
  refine ⟨hlp.1, hlp.2, ?_⟩
  rw [← hlp.1]
  have hmem : (⟨l, true⟩ : Block) ∈ L ++ ⟨bp, false⟩ :: R :=
    List.mem_append_left _ (by rw [hL]; simp)
  have hend : (hoff l (m.hdr l).size).toNat = l.toNat + 8 * m.units l := hinv.hoff_block hmem
  have htiles := hinv.tiles
  rw [hL, List.append_assoc, List.singleton_append] at htiles
  obtain ⟨c, -, hlc, -, hbc, -⟩ := Iff.mp tiles_append htiles
  have hlc' : l.toNat = c := hlc
  have hbc' : bp.toNat = c + 8 * m.units l := hbc
  apply UInt32.toNat_inj.mp
  omega

/-- When the block before `bp` is not free, `p` does not end where `bp` starts: it is `base`,
of size `0`, or a free block further down. -/
lemma lower_apart (hinv : Inv base h0 m (L ++ ⟨bp, false⟩ :: R)) (hbase0 : m.units base = 0)
    (hp : base :: freeAddrs L = P ++ [p]) (hL : ∀ L' l, L ≠ L' ++ [⟨l, true⟩]) :
    hoff p (m.hdr p).size ≠ bp := by
  have hbp := base_lt_bp hinv
  intro heq
  have hnat := congrArg UInt32.toNat heq
  rcases List.eq_nil_or_concat (freeAddrs L) with hF | ⟨FL, v, hF⟩
  · -- `p` is `base`, of size `0`
    rw [hF] at hp
    have hpb : p = base :=
      List.singleton_inj.mp (List.append_inj' (show P ++ [p] = [] ++ [base] from hp.symm) rfl).2
    subst hpb
    unfold Umem.units at hbase0
    rw [toNat_hoff (by have := p.toNat_lt; omega)] at hnat
    omega
  · -- `p` is the last free block below `bp`, and the block right before `bp` is used
    have hpv : p = v := by
      rw [hF, List.concat_eq_append, ← List.cons_append] at hp
      exact (List.singleton_inj.mp (List.append_inj' hp rfl).2).symm
    subst hpv
    rcases List.eq_nil_or_concat L with rfl | ⟨L', b, rfl⟩
    · simp at hF
    obtain ⟨l, f⟩ := b
    cases f with
    | true => exact hL L' l (by simp)
    | false =>
      rw [List.concat_eq_append, freeAddrs_append, freeAddrs_cons_used, freeAddrs_nil,
        List.append_nil] at hF
      have hpL' : (⟨p, true⟩ : Block) ∈ L' := Iff.mp mem_freeAddrs (by rw [hF]; simp)
      have hend : (hoff p (m.hdr p).size).toNat = p.toNat + 8 * m.units p :=
        hinv.hoff_block (List.mem_append_left _
          (show (⟨p, true⟩ : Block) ∈ L'.concat ⟨l, false⟩ by simp [hpL']))
      have htiles := hinv.tiles
      rw [List.concat_eq_append, List.append_assoc, List.singleton_append] at htiles
      have hpl : p.toNat + 8 * m.units p ≤ l.toNat := htiles.split.1 _ hpL'
      have hlb : l.toNat + 8 * m.units l ≤ bp.toNat := htiles.split.2 _ List.mem_cons_self
      have hlpos : 0 < m.units l := (htiles.mem ⟨l, false⟩ (by simp)).2.2
      omega

end Join

/-! ## What `free` writes -/

section Writes

variable {m : Umem} {bp p q : UInt32}

@[simp] lemma setSize_ptr (p v q : UInt32) : ((m.setSize p v).hdr q).ptr = (m.hdr q).ptr := by
  unfold Umem.setSize
  by_cases hq : q = p
  · subst hq
    simp
  · simp [Function.update_of_ne hq]

lemma setPtr_hdr_ne {v : UInt32} (hq : q ≠ p) : (m.setPtr p v).hdr q = m.hdr q := by
  simp [Umem.setPtr, Function.update_of_ne hq]

lemma setSize_hdr_ne {v : UInt32} (hq : q ≠ p) : (m.setSize p v).hdr q = m.hdr q := by
  simp [Umem.setSize, Function.update_of_ne hq]

/-- The size of two blocks joined, where the sum does not wrap. -/
lemma units_size_add {a b : UInt32} (h : m.units a + m.units b < 2 ^ 32) :
    ((m.hdr a).size + (m.hdr b).size).toNat = m.units a + m.units b := by
  rw [UInt32.toNat_add]
  exact Nat.mod_eq_of_lt h

lemma joinUpper_of_touch (h : hoff bp (m.hdr bp).size = (m.hdr p).ptr) :
    (joinUpper m bp p).next = Function.update m.next bp (m.next (m.next p)) ∧
      (joinUpper m bp p).units =
        Function.update m.units bp ((m.hdr bp).size + (m.hdr (m.next p)).size).toNat := by
  rw [joinUpper, if_pos h]
  constructor
  · simp only [Umem.next_setPtr, Umem.next_setSize, setSize_ptr]
    rfl
  · simp only [Umem.units_setPtr, Umem.units_setSize]
    rfl

lemma joinUpper_of_apart (h : ¬hoff bp (m.hdr bp).size = (m.hdr p).ptr) :
    (joinUpper m bp p).next = Function.update m.next bp (m.next p) ∧
      (joinUpper m bp p).units = m.units := by
  rw [joinUpper, if_neg h]
  exact ⟨Umem.next_setPtr _ _ _, Umem.units_setPtr _ _ _⟩

/-- `joinUpper` writes the header of `bp` only. -/
lemma joinUpper_hdr_ne (hq : q ≠ bp) : (joinUpper m bp p).hdr q = m.hdr q := by
  unfold joinUpper
  split
  · simp only [setPtr_hdr_ne hq, setSize_hdr_ne hq]
  · exact setPtr_hdr_ne hq

lemma joinUpper_brk : (joinUpper m bp p).brk = m.brk := by
  unfold joinUpper
  split <;> rfl

lemma joinLower_of_touch (h : hoff p (m.hdr p).size = bp) :
    (joinLower m bp p).next = Function.update m.next p (m.next bp) ∧
      (joinLower m bp p).units =
        Function.update m.units p ((m.hdr p).size + (m.hdr bp).size).toNat := by
  rw [joinLower, if_pos h]
  constructor
  · simp only [Umem.next_setPtr, Umem.next_setSize, setSize_ptr]
    rfl
  · simp only [Umem.units_setPtr, Umem.units_setSize]

lemma joinLower_of_apart (h : ¬hoff p (m.hdr p).size = bp) :
    (joinLower m bp p).next = Function.update m.next p bp ∧ (joinLower m bp p).units = m.units := by
  rw [joinLower, if_neg h]
  exact ⟨Umem.next_setPtr _ _ _, Umem.units_setPtr _ _ _⟩

lemma joinLower_brk : (joinLower m bp p).brk = m.brk := by
  unfold joinLower
  split <;> rfl

end Writes



/-! ## `free` keeps the invariant -/

/-- What `free` leaves after its test on the block above `bp`: `bp` is free, joined to that
block when it was free (`R₀` is then the rest of `R`), and points to `w`, the head of the
ring after it; nothing but the header of `bp` changed. -/
structure UpperJoin (base h0 bp : UInt32) (m m1 : Umem) (L R R₀ : List Block) (w : UInt32) :
    Prop where
  next : m1.next = Function.update m.next bp w
  chain : List.IsChain (Step m.next) (freeAddrs R₀ ++ [base])
  head : (freeAddrs R₀ ++ [base]).head? = some w
  tiles : Tiles m1.units h0.toNat m.brk.toNat (L ++ ⟨bp, true⟩ :: R₀)
  coalesced : Coalesced R₀
  head_used : ∀ c ∈ R₀.head?, c.free = false
  sub : ∀ b ∈ R₀, b ∈ R
  used : usedAddrs R₀ = usedAddrs R
  hdr : ∀ x, x ≠ bp → m1.hdr x = m.hdr x
  brk : m1.brk = m.brk
  grow : m.units bp ≤ m1.units bp

/-- `Freed base h0 bp m m' L R bs'`: `m'` is the heap `m` with the used block `bp` between `L`
and `R` given back: `bs'` keeps the invariant and the used blocks of `L` and `R`, with their
sizes, a free block covers the bytes of `bp`, and the size of the process does not change. -/
structure Freed (base h0 bp : UInt32) (m m' : Umem) (L R bs' : List Block) : Prop where
  inv : Inv base h0 m' bs'
  used : usedAddrs bs' = usedAddrs L ++ usedAddrs R
  units : ∀ u ∈ usedAddrs bs', m'.units u = m.units u
  covers : ∃ v ∈ freeAddrs bs', v.toNat ≤ bp.toNat ∧
    bp.toNat + 8 * m.units bp ≤ v.toNat + 8 * m'.units v
  brk : m'.brk = m.brk

section Free

variable {base h0 bp p w : UInt32} {m m1 : Umem} {L R R₀ : List Block} {P : List UInt32}

/-- `free`'s first test: `bp` takes in the block above it when that one is free. -/
theorem joinUpper_spec (hinv : Inv base h0 m (L ++ ⟨bp, false⟩ :: R))
    (hcut : List.IsChain (Step m.next) (P ++ p :: (freeAddrs R ++ [base]))) :
    ∃ R₀ w, UpperJoin base h0 bp m (joinUpper m bp p) L R R₀ w := by
  have hchain : List.IsChain (Step m.next) (p :: (freeAddrs R ++ [base])) :=
    (Iff.mp isChain_split hcut).2
  have hcR : Coalesced (⟨bp, false⟩ :: R) := hinv.coalesced.right
  have hbrk : m.brk.toNat ≤ 2 ^ 31 := UInt32.le_iff_toNat_le.mp hinv.brk_le
  by_cases hR : ∃ r R', R = ⟨r, true⟩ :: R'
  · -- the block above is free: it is the ring node after `p`, and `bp` takes it in
    obtain ⟨r, R', rfl⟩ := hR
    obtain ⟨hpr, htouch⟩ := upper_touch hinv hcut rfl
    obtain ⟨hnext, hunits⟩ := joinUpper_of_touch (htouch.trans hpr.symm)
    rw [freeAddrs_cons_free] at hchain
    have hrest : List.IsChain (Step m.next) (r :: (freeAddrs R' ++ [base])) :=
      (List.isChain_cons_cons.mp hchain).2
    have hsum : ((m.hdr bp).size + (m.hdr (m.next p)).size).toNat = m.units bp + m.units r := by
      rw [hpr]
      exact units_size_add (hinv.tiles.units_add_lt hbrk (b := ⟨bp, false⟩) (c := ⟨r, true⟩)
        (by simp) (by simp))
    refine ⟨R', m.next r, ⟨?_, hrest.tail, head_eq_next hrest, ?_, hcR.tail.tail,
      hcR.tail.head_used, fun b hb => List.mem_cons_of_mem _ hb, by simp,
      fun x hx => joinUpper_hdr_ne hx, joinUpper_brk, ?_⟩⟩
    · rw [hnext, hpr]
    · rw [hunits, hsum]
      exact hinv.tiles.merge true
    · rw [hunits, hsum, Function.update_self]
      omega
  · -- the block above is used or missing: `bp` points to the ring node after `p`
    have hR' : ∀ r R', R ≠ ⟨r, true⟩ :: R' := fun r R' h => hR ⟨r, R', h⟩
    obtain ⟨hnext, hunits⟩ := joinUpper_of_apart (upper_apart hinv hcut hR')
    refine ⟨R, m.next p, ⟨hnext, hchain.tail, head_eq_next hchain, ?_, hcR.tail,
      head_used_of_ne hR', fun _ hb => hb, rfl, fun x hx => joinUpper_hdr_ne hx, joinUpper_brk,
      by rw [hunits]⟩⟩
    rw [hunits]
    exact hinv.tiles.of_addrs (by simp)

/-- The nodes `free` relinks lie off the rest of the ring: `p` and `bp` are not among the
nodes before `p` nor among the free blocks above `bp`. -/
lemma cut_apart (hinv : Inv base h0 m (L ++ ⟨bp, false⟩ :: R))
    (hp : base :: freeAddrs L = P ++ [p]) (hup : UpperJoin base h0 bp m m1 L R R₀ w) :
    p ≠ bp ∧ p ∉ P ∧ bp ∉ P ∧ p ∉ freeAddrs R₀ ∧ bp ∉ freeAddrs R₀ := by
  obtain ⟨hP, -, hpb⟩ := below_cut hinv hp
  have hR₀ : ∀ u ∈ freeAddrs R₀, bp.toNat < u.toNat := fun u hu =>
    above_lt hinv u (Iff.mpr mem_freeAddrs (hup.sub _ (Iff.mp mem_freeAddrs hu)))
  refine ⟨fun h => ?_, fun h => ?_, fun h => ?_, fun h => ?_, fun h => ?_⟩
  · rw [h] at hpb
    omega
  · have := hP p h
    omega
  · have := hP bp h
    omega
  · have := hR₀ p h
    omega
  · have := hR₀ bp h
    omega

/-- `base` keeps its size `0` through the upper join, which writes only the header of `bp`. -/
lemma UpperJoin.units_base (hup : UpperJoin base h0 bp m m1 L R R₀ w)
    (hinv : Inv base h0 m (L ++ ⟨bp, false⟩ :: R)) (hbase0 : m.units base = 0) :
    m1.units base = 0 := by
  show (m1.hdr base).size.toNat = 0
  rw [hup.hdr base (base_ne_bp hinv)]
  exact hbase0

/-- A used block of the heap after `free` was a used block before it, not `bp`. -/
lemma used_of_freed (hinv : Inv base h0 m (L ++ ⟨bp, false⟩ :: R))
    (hup : UpperJoin base h0 bp m m1 L R R₀ w) {L₀ : List Block} {a u : UInt32} (hu : u ∈ usedAddrs (L₀ ++ ⟨a, true⟩ :: R₀)) :
    (⟨u, false⟩ : Block) ∈ L₀ ∨ (⟨u, false⟩ : Block) ∈ R₀ ∧ u ≠ bp := by
  rw [usedAddrs_append, usedAddrs_cons_free, List.mem_append, mem_usedAddrs, mem_usedAddrs] at hu
  rcases hu with hu | hu
  · exact .inl hu
  · exact .inr ⟨hu, hinv.tiles.addr_ne (.inr (hup.sub _ hu))⟩

/-- `free` when the block below `bp` is not free: `p` points to `bp`. -/
theorem freed_of_apart (hinv : Inv base h0 m (L ++ ⟨bp, false⟩ :: R)) (hbase0 : m.units base = 0)
    (hp : base :: freeAddrs L = P ++ [p])
    (hcut : List.IsChain (Step m.next) (P ++ p :: (freeAddrs R ++ [base])))
    (hup : UpperJoin base h0 bp m m1 L R R₀ w) (hL : ∀ L' l, L ≠ L' ++ [⟨l, true⟩]) :
    Freed base h0 bp m { joinLower m1 bp p with freep := p } L R (L ++ ⟨bp, true⟩ :: R₀) := by
  obtain ⟨hpbp, hpP, hbpP, hpR, hbpR⟩ := cut_apart hinv hp hup
  obtain ⟨-, hbase_p, -⟩ := below_cut hinv hp
  have htest : ¬hoff p (m1.hdr p).size = bp := by
    rw [hup.hdr p hpbp]
    exact lower_apart hinv hbase0 hp hL
  obtain ⟨hnext, hunits⟩ := joinLower_of_apart htest
  have hbrk : (joinLower m1 bp p).brk = m.brk := by rw [joinLower_brk, hup.brk]
  have hPp : List.IsChain (Step m.next) (P ++ [p]) := (Iff.mp isChain_split hcut).1
  refine ⟨⟨?_, ?_, hinv.base_pos, hinv.base_lt, ?_, fun _ => ⟨?_, ?_, ?_⟩, fun h => ?_⟩, ?_,
    fun u hu => ?_, ⟨bp, by simp, Nat.le_refl _, ?_⟩, hbrk⟩
  · show Tiles (joinLower m1 bp p).units h0.toNat (joinLower m1 bp p).brk.toNat _
    rw [hunits, hbrk]
    exact hup.tiles
  · show (joinLower m1 bp p).brk ≤ KERNBASE
    rw [hbrk]
    exact hinv.brk_le
  · exact coalesced_insert hinv.coalesced.left hup.coalesced (last_used_of_ne hL) hup.head_used
  · -- the ring goes up to `p`, on to `bp`, and on from `bp` where `p` went before
    show Ring (joinLower m1 bp p).next base _
    rw [hnext, hup.next]
    unfold Ring
    rw [show base :: freeAddrs (L ++ ⟨bp, true⟩ :: R₀) ++ [base] =
        P ++ p :: ((bp :: freeAddrs R₀) ++ [base]) by
      rw [freeAddrs_append, freeAddrs_cons_free, ← List.cons_append, hp]
      simp]
    have hup' : List.IsChain (Step (Function.update m.next bp w))
        ([] ++ bp :: (freeAddrs R₀ ++ [base])) :=
      isChain_link (List.isChain_singleton bp) hup.chain hup.head List.not_mem_nil hbpR
    exact isChain_link (isChain_update hPp hbpP) hup' rfl hpP
      (fun h => (List.mem_cons.mp h).elim hpbp hpR)
  · show (joinLower m1 bp p).units base = 0
    rw [hunits]
    exact hup.units_base hinv hbase0
  · show p ∈ base :: freeAddrs (L ++ ⟨bp, true⟩ :: R₀)
    rw [freeAddrs_append, ← List.cons_append, hp]
    simp
  · have hp0 : p.toNat = 0 := by rw [show p = 0 from h]; rfl
    have := UInt32.lt_iff_toNat_lt.mp hinv.base_pos
    simp only [UInt32.reduceToNat] at this
    omega
  · simp [hup.used]
  · -- a used block keeps its header: it is not `bp`
    have hubp : u ≠ bp := by
      rcases used_of_freed hinv hup hu with hu | ⟨-, hu⟩
      · exact hinv.tiles.addr_ne (.inl hu)
      · exact hu
    show (joinLower m1 bp p).units u = m.units u
    rw [hunits]
    show (m1.hdr u).size.toNat = (m.hdr u).size.toNat
    rw [hup.hdr u hubp]
  · -- `bp` itself, which may have taken in the block above
    show _ ≤ _ + 8 * (joinLower m1 bp p).units bp
    rw [hunits]
    have := hup.grow
    omega

/-- `free` when the block below `bp` is free: that block is `p`, and it takes `bp` in. -/
theorem freed_of_touch (hinv : Inv base h0 m (L ++ ⟨bp, false⟩ :: R)) (hbase0 : m.units base = 0)
    (hp : base :: freeAddrs L = P ++ [p])
    (hcut : List.IsChain (Step m.next) (P ++ p :: (freeAddrs R ++ [base])))
    (hup : UpperJoin base h0 bp m m1 L R R₀ w) {L' : List Block} (hL : L = L' ++ [⟨p, true⟩]) :
    Freed base h0 bp m { joinLower m1 bp p with freep := p } L R (L' ++ ⟨p, true⟩ :: R₀) := by
  obtain ⟨-, hP, htouch⟩ := lower_touch hinv hp hL
  obtain ⟨hpbp, hpP, hbpP, hpR, hbpR⟩ := cut_apart hinv hp hup
  -- `p` is a free block of the heap, above `base`
  have hpmem : (⟨p, true⟩ : Block) ∈ L ++ ⟨bp, false⟩ :: R :=
    List.mem_append_left _ (by rw [hL]; simp)
  have hbase_p : base ≠ p := by
    intro h
    have h₁ : h0.toNat ≤ p.toNat := (hinv.block hpmem).1
    have h₂ := UInt32.lt_iff_toNat_lt.mp hinv.base_lt
    rw [h] at h₂
    omega
  have htest : hoff p (m1.hdr p).size = bp := by
    rw [hup.hdr p hpbp]
    exact htouch
  obtain ⟨hnext, hunits⟩ := joinLower_of_touch htest
  have hw : m1.next bp = w := by
    rw [hup.next]
    exact Function.update_self bp w m.next
  have hbrk : (joinLower m1 bp p).brk = m.brk := by rw [joinLower_brk, hup.brk]
  have ht1 : Tiles m1.units h0.toNat m.brk.toNat (L' ++ ⟨p, true⟩ :: ⟨bp, true⟩ :: R₀) := by
    have := hup.tiles
    rw [hL, List.append_assoc, List.singleton_append] at this
    exact this
  have hsum : ((m1.hdr p).size + (m1.hdr bp).size).toNat = m1.units p + m1.units bp :=
    units_size_add (ht1.units_add_lt (UInt32.le_iff_toNat_le.mp hinv.brk_le)
      (b := ⟨p, true⟩) (c := ⟨bp, true⟩) (by simp) (by simp))
  have hPp : List.IsChain (Step m.next) (P ++ [p]) := (Iff.mp isChain_split hcut).1
  have hcL : Coalesced (L' ++ [⟨p, true⟩]) := by
    rw [← hL]
    exact hinv.coalesced.left
  refine ⟨⟨?_, ?_, hinv.base_pos, hinv.base_lt, ?_, fun _ => ⟨?_, ?_, ?_⟩, fun h => ?_⟩, ?_,
    fun u hu => ?_, ⟨p, by simp, ?_, ?_⟩, hbrk⟩
  · show Tiles (joinLower m1 bp p).units h0.toNat (joinLower m1 bp p).brk.toNat _
    rw [hunits, hsum, hbrk]
    exact ht1.merge true
  · show (joinLower m1 bp p).brk ≤ KERNBASE
    rw [hbrk]
    exact hinv.brk_le
  · exact coalesced_insert hcL.left hup.coalesced hcL.last_used hup.head_used
  · -- the ring goes up to `p` and on where `bp` went
    show Ring (joinLower m1 bp p).next base _
    rw [hnext, hw, hup.next]
    unfold Ring
    rw [show base :: freeAddrs (L' ++ ⟨p, true⟩ :: R₀) ++ [base] =
        P ++ p :: (freeAddrs R₀ ++ [base]) by
      rw [hP]
      simp]
    exact isChain_link (isChain_update hPp hbpP) (isChain_update hup.chain hbpR) hup.head hpP hpR
  · show (joinLower m1 bp p).units base = 0
    rw [hunits, Function.update_of_ne hbase_p]
    exact hup.units_base hinv hbase0
  · show p ∈ base :: freeAddrs (L' ++ ⟨p, true⟩ :: R₀)
    simp
  · have hp0 : p.toNat = 0 := by rw [show p = 0 from h]; rfl
    have h₁ : h0.toNat ≤ p.toNat := (hinv.block hpmem).1
    have h₂ := UInt32.lt_iff_toNat_lt.mp hinv.base_lt
    omega
  · rw [hL]
    simp [hup.used]
  · -- a used block keeps its header: it is neither `p` nor `bp`
    have hL' : ∀ b ∈ L', b ∈ L := fun b hb => by rw [hL]; exact List.mem_append_left _ hb
    have htiles := hinv.tiles
    rw [hL, List.append_assoc, List.singleton_append] at htiles
    have hne : u ≠ p ∧ u ≠ bp := by
      rcases used_of_freed hinv hup hu with hu | ⟨hu, hubp⟩
      · exact ⟨htiles.addr_ne (.inl hu), hinv.tiles.addr_ne (.inl (hL' _ hu))⟩
      · exact ⟨htiles.addr_ne (.inr (List.mem_cons_of_mem _ (hup.sub _ hu))), hubp⟩
    show (joinLower m1 bp p).units u = m.units u
    rw [hunits, Function.update_of_ne hne.1]
    show (m1.hdr u).size.toNat = (m.hdr u).size.toNat
    rw [hup.hdr u hne.2]
  · exact Nat.le_of_lt (below_cut hinv hp).2.2
  · -- `p` now ends where `bp` ended, or beyond when `bp` had taken in the block above
    have hend : (hoff p (m.hdr p).size).toNat = p.toNat + 8 * m.units p :=
      hinv.hoff_block hpmem
    have hup_p : m1.units p = m.units p := by
      show (m1.hdr p).size.toNat = (m.hdr p).size.toNat
      rw [hup.hdr p hpbp]
    have hgrow := hup.grow
    rw [htouch] at hend
    show _ ≤ _ + 8 * (joinLower m1 bp p).units p
    rw [hunits, hsum, Function.update_self, hup_p]
    omega

/-- `free(ap)`, for `ap` one header past a used block of a heap that keeps the invariant, gives
the block back: the heap keeps the invariant and the other used blocks with their sizes. -/
theorem free_spec {ap : UInt32} (hinv : Inv base h0 m (L ++ ⟨ap - HDRSIZE, false⟩ :: R)) :
    ∃ m' bs', free ap m = some m' ∧ Freed base h0 (ap - HDRSIZE) m m' L R bs' := by
  have hset : m.freep ≠ 0 := fun h => by simpa using hinv.unset h
  obtain ⟨hring, hbase0, -⟩ := hinv.ring hset
  obtain ⟨P, p, hp⟩ : ∃ P p, base :: freeAddrs L = P ++ [p] := by
    rcases List.eq_nil_or_concat (base :: freeAddrs L) with h | ⟨P, p, h⟩
    · simp at h
    · exact ⟨P, p, by rw [h, List.concat_eq_append]⟩
  have hcut := ring_cut hring hp
  obtain ⟨R₀, w, hup⟩ := joinUpper_spec hinv hcut
  have hfree : free ap m =
      some { joinLower (joinUpper m (ap - HDRSIZE) p) (ap - HDRSIZE) p with freep := p } := by
    simp only [free, freeSearch_pred hinv hset hp]
    rfl
  by_cases hL : ∃ L' l, L = L' ++ [⟨l, true⟩]
  · -- the block below is free
    obtain ⟨L', l, hL⟩ := hL
    obtain ⟨rfl, -, -⟩ := lower_touch hinv hp hL
    exact ⟨_, _, hfree, freed_of_touch hinv hbase0 hp hcut hup hL⟩
  · have hL' : ∀ L' l, L ≠ L' ++ [⟨l, true⟩] := fun L' l h => hL ⟨L', l, h⟩
    exact ⟨_, _, hfree, freed_of_apart hinv hbase0 hp hcut hup hL'⟩

end Free

end Xv6.Umalloc
