import Xv6.Libc.Malloc
import Mathlib.Logic.Relation

/-!
# A program's heap over its calls of `malloc` and `free` (umalloc.c)

A user program calls `malloc(nbytes)` and `free(ap)` in any order and number.  It keeps the
allocator's contract: it asks for at most `2^31 - 16` bytes, and frees only a pointer that
`malloc` returned and that it has not freed since; a call outside the contract changes
nothing here.  `held`, a history variable, lists the pointers the program holds with the
number of bytes it asked for.

`Holds` says that the heap keeps `Inv` with the blocks `bs`, that the used blocks are the
held ones, and that each has the size `malloc` gave it.  The main result is
`heap_of_reachable`: over every run from a process that has not called `malloc`, the free
ring is circular and sorted by address but for its step back to `base`, the blocks tile the
heap without overlap, no two free blocks touch, and every held pointer has the bytes it asked
for, apart from every free block and every other held pointer.
-/

namespace Xv6

open Umalloc

/-- A call of the program: `malloc(nbytes)` or `free(ap)`. -/
inductive HeapMove where
  | malloc (nbytes : UInt32)
  | free (ap : UInt32)
deriving DecidableEq, Repr

/-- The allocator's memory, and the pointers the program holds, with the bytes asked for. -/
structure HeapSys where
  mem : Umem
  held : List (UInt32 × UInt32)

namespace HeapSys

variable (base : UInt32)

/-- One call of the program, with `base` the address of the static header.  A pointer other
than `0` that `malloc` returns is held from then on, and `free` gives one up. -/
def step (s : HeapSys) : HeapMove → HeapSys
  | .malloc nbytes =>
    if nbytes.toNat ≤ 2 ^ 31 - 16 then
      match Umalloc.malloc base nbytes s.mem with
      | some (ap, m) => ⟨m, if ap = 0 then s.held else (ap, nbytes) :: s.held⟩
      | none => s
    else s
  | .free ap =>
    match s.held.find? (fun a => a.1 == ap) with
    | some a =>
      match Umalloc.free ap s.mem with
      | some m => ⟨m, s.held.erase a⟩
      | none => s
    | none => s

/-- The states that runs from `s₀` reach, calls in any order and number. -/
def Reachable (s₀ : HeapSys) : HeapSys → Prop :=
  Relation.ReflTransGen (fun s s' => ∃ mv, s' = step base s mv) s₀

/-- The heap keeps the invariant with the blocks `bs`, whose used blocks are the held ones,
each of the size `malloc` gave it for the bytes asked for. -/
structure Holds (h0 : UInt32) (s : HeapSys) (bs : List Umalloc.Block) : Prop where
  inv : Inv base h0 s.mem bs
  used : (usedAddrs bs).Perm (s.held.map fun a => a.1 - HDRSIZE)
  size : ∀ a ∈ s.held, s.mem.units (a.1 - HDRSIZE) = (nunitsOf a.2).toNat
  bound : ∀ a ∈ s.held, a.2.toNat ≤ 2 ^ 31 - 16

variable {base} {h0 : UInt32} {s : HeapSys} {bs : List Umalloc.Block}

/-! ## One call -/

/-- A call of `malloc` keeps `Holds`: the new pointer, if any, is held, and its block is new. -/
lemma Holds.malloc (h : Holds base h0 s bs) (nbytes : UInt32) :
    ∃ bs', Holds base h0 (step base s (.malloc nbytes)) bs' := by
  dsimp only [step]
  by_cases hn : nbytes.toNat ≤ 2 ^ 31 - 16
  swap
  · rw [if_neg hn]
    exact ⟨bs, h⟩
  rw [if_pos hn]
  cases hm : Umalloc.malloc base nbytes s.mem with
  | none => exact ⟨bs, h⟩
  | some r =>
    obtain ⟨ap, m'⟩ := r
    obtain ⟨bs', hres⟩ := malloc_spec h.inv hn hm
    dsimp only
    rcases hres with ⟨rfl, ⟨hg, -⟩⟩ | ⟨hap, ht⟩
    · -- `0`: nothing is handed out, and the held blocks keep their sizes
      rw [if_pos rfl]
      refine ⟨bs', hg.inv, by rw [hg.used]; exact h.used, fun a ha => ?_, h.bound⟩
      have hu : a.1 - HDRSIZE ∈ usedAddrs bs := h.used.symm.subset (List.mem_map_of_mem ha)
      rw [hg.units _ hu, h.size a ha]
    · -- a new block, of `nunitsOf nbytes` headers, in front of `ap`
      rw [if_neg hap]
      refine ⟨bs', ht.inv, ht.used.trans (List.Perm.cons _ h.used), fun a ha => ?_,
        fun a ha => ?_⟩
      · rcases List.mem_cons.mp ha with rfl | ha
        · exact ht.size
        · have hu : a.1 - HDRSIZE ∈ usedAddrs bs := h.used.symm.subset (List.mem_map_of_mem ha)
          rw [ht.units _ hu, h.size a ha]
      · rcases List.mem_cons.mp ha with rfl | ha
        · exact hn
        · exact h.bound a ha

/-- The held pointers have distinct blocks. -/
lemma Holds.nodup (h : Holds base h0 s bs) : (s.held.map fun a => a.1 - HDRSIZE).Nodup :=
  h.used.nodup_iff.mp (h.inv.tiles.nodup_addrs.sublist (List.filter_sublist.map _))

/-- `free` of a pointer found among the held ones gives its block back: the heap keeps `Holds`
without it, and the bytes of its block lie in a free block. -/
lemma Holds.free_found (h : Holds base h0 s bs) {ap : UInt32} {a : UInt32 × UInt32}
    (hfind : s.held.find? (fun a => a.1 == ap) = some a) :
    ∃ m' bs', step base s (.free ap) = ⟨m', s.held.erase a⟩ ∧
      Holds base h0 ⟨m', s.held.erase a⟩ bs' ∧ ∃ v ∈ freeAddrs bs', v.toNat ≤ (ap - HDRSIZE).toNat ∧
        (ap - HDRSIZE).toNat + 8 * s.mem.units (ap - HDRSIZE) ≤ v.toNat + 8 * m'.units v := by
  have ha : a ∈ s.held := List.mem_of_find?_eq_some hfind
  have hap : a.1 = ap := by simpa using List.find?_some hfind
  -- the block of `ap` is a used block of the heap
  have hu : ap - HDRSIZE ∈ usedAddrs bs :=
    hap ▸ h.used.symm.subset (List.mem_map_of_mem ha)
  obtain ⟨L, R, hLR⟩ := List.append_of_mem (Iff.mp mem_usedAddrs hu)
  rw [hLR] at h
  obtain ⟨m', bs', hfree, hfreed⟩ := free_spec h.inv
  -- the used blocks left are the held ones but `a`
  have hused : (usedAddrs bs').Perm ((s.held.erase a).map fun a => a.1 - HDRSIZE) := by
    have h₁ : ((ap - HDRSIZE) :: usedAddrs bs').Perm
        ((ap - HDRSIZE) :: (s.held.erase a).map fun a => a.1 - HDRSIZE) := by
      have h₂ := h.used
      rw [usedAddrs_append, usedAddrs_cons_used] at h₂
      rw [hfreed.used]
      refine List.perm_middle.symm.trans (h₂.trans ?_)
      have := (List.perm_cons_erase ha).map fun a : UInt32 × UInt32 => a.1 - HDRSIZE
      rw [List.map_cons, hap] at this
      exact this
    exact h₁.cons_inv
  refine ⟨m', bs', by simp only [step, hfind, hfree], ⟨hfreed.inv, hused, fun a' ha' => ?_,
    fun a' ha' => h.bound a' (List.mem_of_mem_erase ha')⟩, hfreed.covers⟩
  have hu' : a'.1 - HDRSIZE ∈ usedAddrs bs' := hused.symm.subset (List.mem_map_of_mem ha')
  rw [hfreed.units _ hu', h.size a' (List.mem_of_mem_erase ha')]

/-- A call of `free` keeps `Holds`: a held pointer's block leaves the used ones, and any other
pointer is outside the contract. -/
lemma Holds.free (h : Holds base h0 s bs) (ap : UInt32) :
    ∃ bs', Holds base h0 (step base s (.free ap)) bs' := by
  cases hfind : s.held.find? (fun a => a.1 == ap) with
  | none =>
    refine ⟨bs, ?_⟩
    simp only [step, hfind]
    exact h
  | some a =>
    obtain ⟨m', bs', hstep, hholds, -⟩ := h.free_found hfind
    exact ⟨bs', hstep ▸ hholds⟩

/-- Every call keeps `Holds`, for some blocks. -/
theorem Holds.step (h : Holds base h0 s bs) (mv : HeapMove) :
    ∃ bs', Holds base h0 (step base s mv) bs' := by
  cases mv with
  | malloc nbytes => exact h.malloc nbytes
  | free ap => exact h.free ap

/-- A heap with no blocks, before any call, holds no pointer. -/
lemma Holds.start {m₀ : Umem} (h₀ : Inv base h0 m₀ []) : Holds base h0 ⟨m₀, []⟩ [] :=
  ⟨h₀, List.Perm.nil, fun _ ha => absurd ha List.not_mem_nil,
    fun _ ha => absurd ha List.not_mem_nil⟩

/-- Every run from a state with `Holds` keeps it.  The induction is on the run. -/
theorem Holds.reachable {s₀ : HeapSys} {bs₀ : List Umalloc.Block} (h₀ : Holds base h0 s₀ bs₀)
    (h : Reachable base s₀ s) : ∃ bs, Holds base h0 s bs := by
  induction h with
  | refl => exact ⟨bs₀, h₀⟩
  | tail _ hmove ih =>
    obtain ⟨mv, rfl⟩ := hmove
    obtain ⟨bs, hbs⟩ := ih
    exact hbs.step mv

/-! ## What the held pointers have -/

/-- A held pointer lies one header past its block, and the bytes asked for fit in it. -/
lemma Holds.payload (h : Holds base h0 s bs) {a : UInt32 × UInt32} (ha : a ∈ s.held) :
    (⟨a.1 - HDRSIZE, false⟩ : Umalloc.Block) ∈ bs ∧ a.1.toNat = (a.1 - HDRSIZE).toNat + 8 ∧
      a.1.toNat + a.2.toNat ≤ (a.1 - HDRSIZE).toNat + 8 * s.mem.units (a.1 - HDRSIZE) := by
  have hb : (⟨a.1 - HDRSIZE, false⟩ : Umalloc.Block) ∈ bs :=
    Iff.mp mem_usedAddrs (h.used.symm.subset (List.mem_map_of_mem ha))
  have hblock : h0.toNat ≤ (a.1 - HDRSIZE).toNat ∧
      (a.1 - HDRSIZE).toNat + 8 * s.mem.units (a.1 - HDRSIZE) ≤ 2 ^ 31 ∧
        0 < s.mem.units (a.1 - HDRSIZE) := h.inv.block hb
  -- `a.1` is its block's address and one header, without a wrap
  have hptr : a.1.toNat = (a.1 - HDRSIZE).toNat + 8 := by
    conv_lhs => rw [← UInt32.sub_add_cancel a.1 HDRSIZE]
    rw [UInt32.toNat_add, show HDRSIZE.toNat = 8 from rfl]
    exact Nat.mod_eq_of_lt (by omega)
  have hroom := nunitsOf_usable (by have := h.bound a ha; omega : a.2.toNat ≤ 2 ^ 32 - 8)
  rw [← h.size a ha] at hroom
  exact ⟨hb, hptr, by omega⟩

/-- Over every run from a process that has not called `malloc` yet, with the static header
`base` below the heap that starts at `h0`: the free ring from `base` goes through the free
blocks in increasing order of address and back to `base`, the only step down; the blocks,
free or handed out, tile the heap up to the program break without overlap; no two free blocks
are neighbours; the handed-out blocks are the held ones; and every held pointer `ap`, asked
for `n` bytes, has `[ap, ap + n)` inside its block, apart from every free block and from the
bytes of every other held pointer. -/
theorem heap_of_reachable {m₀ : Umem} (h₀ : Inv base h0 m₀ []) {s : HeapSys}
    (h : Reachable base ⟨m₀, []⟩ s) :
    ∃ bs, (s.mem.freep ≠ 0 → Ring s.mem.next base bs ∧ s.mem.freep ∈ base :: freeAddrs bs) ∧
      (base :: freeAddrs bs).Pairwise (fun u v => u.toNat < v.toNat) ∧
      Tiles s.mem.units h0.toNat s.mem.brk.toNat bs ∧
      bs.Pairwise (fun b c => b.addr.toNat + 8 * s.mem.units b.addr ≤ c.addr.toNat) ∧
      Coalesced bs ∧ (usedAddrs bs).Perm (s.held.map fun a => a.1 - HDRSIZE) ∧
      (∀ a ∈ s.held, h0.toNat + 8 ≤ a.1.toNat ∧
        a.1.toNat + a.2.toNat ≤ (a.1 - HDRSIZE).toNat + 8 * s.mem.units (a.1 - HDRSIZE)) ∧
      (∀ a ∈ s.held, ∀ v ∈ freeAddrs bs,
        a.1.toNat + a.2.toNat ≤ v.toNat ∨ v.toNat + 8 * s.mem.units v ≤ a.1.toNat) ∧
      s.held.Pairwise (fun a b =>
        a.1.toNat + a.2.toNat ≤ b.1.toNat ∨ b.1.toNat + b.2.toNat ≤ a.1.toNat) := by
  obtain ⟨bs, hbs⟩ := (Holds.start h₀).reachable h
  have htiles := hbs.inv.tiles
  -- the ring nodes: `base`, below the heap, then the free blocks in order
  have hsorted : (base :: freeAddrs bs).Pairwise (fun u v => u.toNat < v.toNat) := by
    refine List.Pairwise.cons (fun v hv => ?_) htiles.freeAddrs_pairwise
    have h₁ : h0.toNat ≤ v.toNat := (htiles.mem _ (Iff.mp mem_freeAddrs hv)).1
    have h₂ := UInt32.lt_iff_toNat_lt.mp hbs.inv.base_lt
    omega
  -- a held pointer's bytes and another block: their blocks are apart
  have happart : ∀ a ∈ s.held, ∀ c ∈ bs, c.addr ≠ a.1 - HDRSIZE →
      a.1.toNat + a.2.toNat ≤ c.addr.toNat ∨ c.addr.toNat + 8 * s.mem.units c.addr ≤ a.1.toNat := by
    intro a ha c hc hne
    obtain ⟨hb, hptr, hfit⟩ := hbs.payload ha
    rcases htiles.disjoint hb hc (Ne.symm hne) with hd | hd
    · have hd' : (a.1 - HDRSIZE).toNat + 8 * s.mem.units (a.1 - HDRSIZE) ≤ c.addr.toNat := hd
      exact .inl (by omega)
    · have hd' : c.addr.toNat + 8 * s.mem.units c.addr ≤ (a.1 - HDRSIZE).toNat := hd
      exact .inr (by omega)
  refine ⟨bs, fun hset => ⟨(hbs.inv.ring hset).1, (hbs.inv.ring hset).2.2⟩, hsorted, htiles,
    htiles.pairwise, hbs.inv.coalesced, hbs.used, fun a ha => ?_, fun a ha v hv => ?_, ?_⟩
  · obtain ⟨hb, hptr, hfit⟩ := hbs.payload ha
    have : h0.toNat ≤ (a.1 - HDRSIZE).toNat := (htiles.mem _ hb).1
    exact ⟨by omega, hfit⟩
  · -- a free block is not the used block of `a`
    refine happart a ha ⟨v, true⟩ (Iff.mp mem_freeAddrs hv) fun heq => ?_
    have := htiles.nodup_addrs
    obtain ⟨hb, -, -⟩ := hbs.payload ha
    have hsame := List.inj_on_of_nodup_map this (Iff.mp mem_freeAddrs hv) hb heq
    simp at hsame
  · -- two held pointers have two blocks, at different addresses
    have hnodup := hbs.nodup
    rw [List.Nodup, List.pairwise_map] at hnodup
    refine hnodup.imp_of_mem fun {a b} ha hb hne => ?_
    obtain ⟨hb', hptr, hfit⟩ := hbs.payload hb
    rcases happart a ha ⟨b.1 - HDRSIZE, false⟩ hb' (Ne.symm hne) with hd | hd
    · exact .inl (by simp only at hd; omega)
    · exact .inr (by simp only at hd; omega)

/-- `free(ap)` of a held pointer gives its block back: the pointer is no longer held, the heap
keeps `Holds`, and every byte of the block lies in a free block. -/
theorem free_gives_back (h : Holds base h0 s bs) {a : UInt32 × UInt32} (ha : a ∈ s.held) :
    ∃ bs', Holds base h0 (step base s (.free a.1)) bs' ∧
      (step base s (.free a.1)).held = s.held.erase a ∧
      ∃ v ∈ freeAddrs bs', v.toNat ≤ (a.1 - HDRSIZE).toNat ∧
        (a.1 - HDRSIZE).toNat + 8 * s.mem.units (a.1 - HDRSIZE) ≤
          v.toNat + 8 * (step base s (.free a.1)).mem.units v := by
  -- `free` finds `a` itself: no other held pointer has its block
  have hfind : s.held.find? (fun b => b.1 == a.1) = some a := by
    obtain ⟨a', ha'⟩ : ∃ a', s.held.find? (fun b => b.1 == a.1) = some a' :=
      Option.isSome_iff_exists.mp (List.find?_isSome.mpr ⟨a, ha, by simp⟩)
    have hsame : a'.1 = a.1 := by simpa using List.find?_some ha'
    have heq := List.inj_on_of_nodup_map h.nodup (List.mem_of_find?_eq_some ha') ha
      (by simp only [hsame])
    rw [ha', heq]
  obtain ⟨m', bs', hstep, hholds, hcovers⟩ := h.free_found hfind
  rw [hstep]
  exact ⟨bs', hholds, rfl, hcovers⟩

/-- One call of `malloc(100)` on a fresh heap. -/
def oneCall : HeapSys := step exampleBase ⟨freshHeap, []⟩ (.malloc 100)

theorem free_gives_back_oneCall :
    (∃ bs, Holds exampleBase 0x3000 oneCall bs) ∧ (0xAF98, 100) ∈ oneCall.held ∧
      ∃ bs', Holds exampleBase 0x3000 (step exampleBase oneCall (.free 0xAF98)) bs' ∧
        (step exampleBase oneCall (.free 0xAF98)).held = oneCall.held.erase (0xAF98, 100) ∧
        ∃ v ∈ freeAddrs bs', v.toNat ≤ ((0xAF98 : UInt32) - HDRSIZE).toNat ∧
          ((0xAF98 : UInt32) - HDRSIZE).toNat + 8 * oneCall.mem.units (0xAF98 - HDRSIZE) ≤
            v.toNat + 8 * (step exampleBase oneCall (.free 0xAF98)).mem.units v := by
  have h₀ : Inv exampleBase 0x3000 freshHeap [] := by decide
  obtain ⟨bs, h⟩ := (Holds.start h₀).reachable (.single ⟨.malloc 100, rfl⟩)
  have ha : ((0xAF98 : UInt32), (100 : UInt32)) ∈ oneCall.held := by decide
  exact ⟨⟨bs, h⟩, ha, free_gives_back h ha⟩

/-- A program that asks for `100` bytes and then `20`, and gives the first block back. -/
def threeCalls : HeapSys :=
  step exampleBase (step exampleBase (step exampleBase ⟨freshHeap, []⟩ (.malloc 100)) (.malloc 20))
    (.free 0xAF98)

theorem heap_of_reachable_threeCalls :
    Inv exampleBase 0x3000 freshHeap [] ∧ Reachable exampleBase ⟨freshHeap, []⟩ threeCalls ∧
      threeCalls.held.map Prod.snd = [20] ∧
      ∃ bs, (threeCalls.mem.freep ≠ 0 → Ring threeCalls.mem.next exampleBase bs ∧
          threeCalls.mem.freep ∈ exampleBase :: freeAddrs bs) ∧
        (exampleBase :: freeAddrs bs).Pairwise (fun u v => u.toNat < v.toNat) ∧
        Tiles threeCalls.mem.units (0x3000 : UInt32).toNat threeCalls.mem.brk.toNat bs ∧
        bs.Pairwise (fun b c => b.addr.toNat + 8 * threeCalls.mem.units b.addr ≤ c.addr.toNat) ∧
        Coalesced bs ∧ (usedAddrs bs).Perm (threeCalls.held.map fun a => a.1 - HDRSIZE) ∧
        (∀ a ∈ threeCalls.held, (0x3000 : UInt32).toNat + 8 ≤ a.1.toNat ∧
          a.1.toNat + a.2.toNat ≤
            (a.1 - HDRSIZE).toNat + 8 * threeCalls.mem.units (a.1 - HDRSIZE)) ∧
        (∀ a ∈ threeCalls.held, ∀ v ∈ freeAddrs bs,
          a.1.toNat + a.2.toNat ≤ v.toNat ∨ v.toNat + 8 * threeCalls.mem.units v ≤ a.1.toNat) ∧
        threeCalls.held.Pairwise (fun a b =>
          a.1.toNat + a.2.toNat ≤ b.1.toNat ∨ b.1.toNat + b.2.toNat ≤ a.1.toNat) := by
  have h₀ : Inv exampleBase 0x3000 freshHeap [] := by decide
  have hreach : Reachable exampleBase ⟨freshHeap, []⟩ threeCalls :=
    .tail (.tail (.tail .refl ⟨.malloc 100, rfl⟩) ⟨.malloc 20, rfl⟩) ⟨.free 0xAF98, rfl⟩
  exact ⟨h₀, hreach, by decide, heap_of_reachable h₀ hreach⟩

end HeapSys

end Xv6
