import Xv6.Kernel.Defs
import Xv6.Lib.SRing

/-!
# The user heap allocator (umalloc.c)

`malloc` and `free` are the allocator of Kernighan and Ritchie: the free blocks form a ring,
threaded through the `ptr` field of their headers and sorted by address but for the one
step from the highest block back to the lowest, closed by the static header `base`, whose
size is `0`.  `free` walks the ring from `freep` to the block after which the freed one
goes, and joins it to its neighbours when they touch it; `malloc` walks the ring from
`freep` for the first block of at least `nunits` headers, takes it whole or cuts its tail,
and asks `morecore` for at least `4096` headers more, through `sbrk` and `free`, when it
has gone round the ring once.

Memory is modelled at the grain of headers: `Umem.hdr p` is the header at address `p`, a
pointer and a `uint` (so `sizeof(Header)` is `8`), and a write to one header leaves every
other address alone.  Pointers are `uint`s, and `Header *` arithmetic is `p + k * 8`
modulo `2^32`.  The loops run on fuel, more passes than a ring of distinct headers in a
32-bit address space has nodes; `none` stands for a loop still running when it is spent.

* `nunitsOf_usable`: a block of `nunitsOf nbytes` headers has room for `nbytes` bytes after
  its header whenever `nbytes + 7` does not wrap;
* `malloc_max_request_block_is_empty`: `malloc(0xFFFFFFFF)` on a fresh heap returns a block
  of one header, which holds no byte at all, and which ends at the program break.
-/

namespace Xv6.Umalloc

/-- `sizeof(Header)`: a pointer and a `uint`, which the `long` of `Align` does not widen. -/
def HDRSIZE : UInt32 := 8

/-- `union header`'s `s`: the next free block, and the size of this one in headers. -/
structure Header where
  ptr : UInt32
  size : UInt32
deriving DecidableEq, Repr

/-- What the allocator reads and writes: the header at each address, the static `freep`
(`0` until the first `malloc`), and the process's size, which `sbrk` moves.  Whether the
kernel has physical pages left is up to the rest of the machine, which takes and gives back
pages between two calls: `oom i` says whether `kalloc` runs out during the process's `i`-th
`sbrk`, and `calls` counts the calls made. -/
structure Umem where
  hdr : UInt32 → Header
  freep : UInt32
  /-- `myproc()->sz`. -/
  brk : UInt32
  oom : ℕ → Bool
  calls : ℕ

/-- `p + k` for a `Header *p`. -/
def hoff (p k : UInt32) : UInt32 := p + k * HDRSIZE

namespace Umem

/-- `p->s.ptr = v`. -/
def setPtr (m : Umem) (p v : UInt32) : Umem :=
  { m with hdr := Function.update m.hdr p { m.hdr p with ptr := v } }

/-- `p->s.size = v`. -/
def setSize (m : Umem) (p v : UInt32) : Umem :=
  { m with hdr := Function.update m.hdr p { m.hdr p with size := v } }

/-- `p->s.ptr` at every `p`. -/
def next (m : Umem) (p : UInt32) : UInt32 := (m.hdr p).ptr

/-- `p->s.size` at every `p`, as a number. -/
def units (m : Umem) (p : UInt32) : ℕ := (m.hdr p).size.toNat

@[simp] lemma next_setPtr (m : Umem) (p v : UInt32) :
    (m.setPtr p v).next = Function.update m.next p v := by
  funext x
  by_cases hx : x = p
  · subst hx
    simp [next, setPtr]
  · simp [next, setPtr, Function.update_of_ne hx]

@[simp] lemma units_setPtr (m : Umem) (p v : UInt32) : (m.setPtr p v).units = m.units := by
  funext x
  by_cases hx : x = p
  · subst hx
    simp [units, setPtr]
  · simp [units, setPtr, Function.update_of_ne hx]

@[simp] lemma next_setSize (m : Umem) (p v : UInt32) : (m.setSize p v).next = m.next := by
  funext x
  by_cases hx : x = p
  · subst hx
    simp [next, setSize]
  · simp [next, setSize, Function.update_of_ne hx]

@[simp] lemma units_setSize (m : Umem) (p v : UInt32) :
    (m.setSize p v).units = Function.update m.units p v.toNat := by
  funext x
  by_cases hx : x = p
  · subst hx
    simp [units, setSize]
  · simp [units, setSize, Function.update_of_ne hx]

end Umem

/-- More passes than a ring of distinct 8-byte headers in a 32-bit address space has
nodes. -/
def LOOPFUEL : ℕ := 2 ^ 32

/-! ## sbrk -/

/-- `sbrk(n)` as `sys_sbrk` answers it: the old size, with `growproc` moving the size by `n`
through `allocuvm` for `n > 0` and `deallocuvm` for `n < 0`, or `(char*)-1` for a failure.
`allocuvm` refuses a size at `KERNBASE` or above, keeps the old size when the sum wrapped,
and fails when `kalloc` runs out in its loop over the new pages, which it enters only when
the new size passes the old one rounded up to a page; `deallocuvm` keeps the old size unless
the new one is below it. -/
def sbrk (n : Int32) (m : Umem) : UInt32 × Umem :=
  let newsz := m.brk + n.toUInt32
  let oom := m.oom m.calls
  let m := { m with calls := m.calls + 1 }
  if 0 < n then
    if KERNBASE ≤ newsz then (0xFFFFFFFF, m)
    else if newsz < m.brk then (m.brk, m)
    else if PGROUNDUP m.brk < newsz ∧ oom then (0xFFFFFFFF, m)
    else (m.brk, { m with brk := newsz })
  else if n < 0 then
    let sz := if m.brk ≤ newsz then m.brk else newsz
    if sz = 0 then (0xFFFFFFFF, m) else (m.brk, { m with brk := sz })
  else (m.brk, m)

/-! ## free -/

/-- `free`'s search, `for(p = freep; !(bp > p && bp < p->s.ptr); p = p->s.ptr)
if(p >= p->s.ptr && (bp > p || bp < p->s.ptr)) break;`: the block after which `bp` goes. -/
def freeSearch (m : Umem) (bp : UInt32) : ℕ → UInt32 → Option UInt32
  | 0, _ => none
  | n + 1, p =>
    let q := (m.hdr p).ptr
    if bp > p ∧ bp < q then some p
    else if p ≥ q ∧ (bp > p ∨ bp < q) then some p
    else freeSearch m bp n q

/-- The test that ends `free`'s search at `p`, whose successor is `q`. -/
def searchStop (bp p q : UInt32) : Bool := decide (bp > p ∧ bp < q) || decide (p ≥ q ∧ (bp > p ∨ bp < q))

/-- `free`'s search is a walk along `ptr` until `searchStop`. -/
lemma freeSearch_eq_walk (m : Umem) (bp : UInt32) :
    ∀ (n : ℕ) (p : UInt32), freeSearch m bp n p = SRing.walk m.next (searchStop bp) n p
  | 0, _ => rfl
  | n + 1, p => by
    unfold freeSearch SRing.walk
    rw [← freeSearch_eq_walk m bp n]
    -- the two tests of the loop are the two halves of `searchStop`
    by_cases hA : bp > p ∧ bp < (m.hdr p).ptr
    · have hs : searchStop bp p (m.next p) = true := by simp [searchStop, Umem.next, hA]
      rw [if_pos hA, if_pos hs]
    by_cases hB : p ≥ (m.hdr p).ptr ∧ (bp > p ∨ bp < (m.hdr p).ptr)
    · have hs : searchStop bp p (m.next p) = true :=
        Bool.or_eq_true_iff.mpr (Or.inr (decide_eq_true hB))
      rw [if_neg hA, if_pos hB, if_pos hs]
    · have hs : searchStop bp p (m.next p) = false :=
        Bool.or_eq_false_iff.mpr ⟨decide_eq_false hA, decide_eq_false hB⟩
      rw [if_neg hA, if_neg hB, hs]
      rfl

/-- `if(bp + bp->s.size == p->s.ptr) {...} else bp->s.ptr = p->s.ptr;`: `bp` is joined to the
block after `p` when it ends where that one starts, and points past `p` otherwise. -/
def joinUpper (m : Umem) (bp p : UInt32) : Umem :=
  if hoff bp (m.hdr bp).size = (m.hdr p).ptr then
    let m := m.setSize bp ((m.hdr bp).size + (m.hdr (m.hdr p).ptr).size)
    m.setPtr bp (m.hdr (m.hdr p).ptr).ptr
  else m.setPtr bp (m.hdr p).ptr

/-- `if(p + p->s.size == bp) {...} else p->s.ptr = bp;`: `p` takes `bp` in when it ends where
`bp` starts, and points to it otherwise. -/
def joinLower (m : Umem) (bp p : UInt32) : Umem :=
  if hoff p (m.hdr p).size = bp then
    let m := m.setSize p ((m.hdr p).size + (m.hdr bp).size)
    m.setPtr p (m.hdr bp).ptr
  else m.setPtr p bp

/-- `free(ap)`: the block `bp` in front of `ap` goes into the ring after the block `p` that
the search finds, joined to its neighbours where they touch it; `freep` becomes `p`. -/
def free (ap : UInt32) (m : Umem) : Option Umem := do
  let bp := ap - HDRSIZE
  let p ← freeSearch m bp LOOPFUEL m.freep
  pure { joinLower (joinUpper m bp p) bp p with freep := p }

/-! ## malloc -/

/-- `morecore(nu)`: at least `4096` headers from `sbrk`, given to `free` as one block; the new
`freep`, or `0` when `sbrk` fails. -/
def morecore (nu : UInt32) (m : Umem) : Option (UInt32 × Umem) :=
  let nu := if nu < 4096 then 4096 else nu
  let (p, m) := sbrk (nu * HDRSIZE).toInt32 m
  if p = 0xFFFFFFFF then some (0, m)
  else (free (hoff p 1) (m.setSize p nu)).map fun m => (m.freep, m)

/-- `nunits = (nbytes + sizeof(Header) - 1)/sizeof(Header) + 1`, in `uint`s. -/
def nunitsOf (nbytes : UInt32) : UInt32 := (nbytes + HDRSIZE - 1) / HDRSIZE + 1

/-- `malloc`'s loop `for(p = prevp->s.ptr; ; prevp = p, p = p->s.ptr)`, at `prevp` and `p`:
the first block of at least `nunits` headers is taken whole or loses its tail, and the walk
calls `morecore` when it comes back to `freep`. -/
def mallocLoop (nunits : UInt32) : ℕ → UInt32 → UInt32 → Umem → Option (UInt32 × Umem)
  | 0, _, _, _ => none
  | n + 1, prevp, p, m =>
    if (m.hdr p).size ≥ nunits then
      if (m.hdr p).size = nunits then
        some (hoff p 1, { m.setPtr prevp (m.hdr p).ptr with freep := prevp })
      else
        let m := m.setSize p ((m.hdr p).size - nunits)
        let p := hoff p (m.hdr p).size
        some (hoff p 1, { m.setSize p nunits with freep := prevp })
    else if p = m.freep then
      match morecore nunits m with
      | none => none
      | some (p, m) => if p = 0 then some (0, m) else mallocLoop nunits n p (m.hdr p).ptr m
    else mallocLoop nunits n p (m.hdr p).ptr m

/-- `malloc(nbytes)`, with `base` the address of the static header: the first call makes
`base` a ring of its own. -/
def malloc (base nbytes : UInt32) (m : Umem) : Option (UInt32 × Umem) :=
  let m := if m.freep = 0 then
      { m with hdr := Function.update m.hdr base ⟨base, 0⟩, freep := base }
    else m
  mallocLoop (nunitsOf nbytes) LOOPFUEL m.freep (m.hdr m.freep).ptr m

/-! ## The size of the block `malloc` returns -/

/-- The header in front of `hoff p 1` is the one at `p`. -/
@[simp] lemma hoff_one_sub (p : UInt32) : hoff p 1 - HDRSIZE = p := by
  simp [hoff]

@[simp] lemma setPtr_size (m : Umem) (p v q : UInt32) : ((m.setPtr p v).hdr q).size = (m.hdr q).size := by
  unfold Umem.setPtr
  by_cases hq : q = p
  · subst hq
    simp
  · simp [Function.update_of_ne hq]

@[simp] lemma setSize_self (m : Umem) (p v : UInt32) : ((m.setSize p v).hdr p).size = v := by
  simp [Umem.setSize]

/-- `nunitsOf` where `nbytes + 7` does not wrap: the headers that hold `nbytes`, and one more. -/
lemma toNat_nunitsOf {nbytes : UInt32} (h : nbytes.toNat ≤ 2 ^ 32 - 8) :
    (nunitsOf nbytes).toNat = (nbytes.toNat + 7) / 8 + 1 := by
  have hsum : (nbytes + HDRSIZE - 1).toNat = nbytes.toNat + 7 := by
    rw [show nbytes + HDRSIZE - 1 = nbytes + 7 by simp only [HDRSIZE]; grind, UInt32.toNat_add]
    exact Nat.mod_eq_of_lt (by simp only [UInt32.reduceToNat]; omega)
  unfold nunitsOf
  rw [UInt32.toNat_add, UInt32.toNat_div, hsum, UInt32.toNat_one]
  simp only [HDRSIZE, UInt32.reduceToNat]
  omega

/-- Without a wrap of `nbytes + 7`, a block of `nunitsOf nbytes` headers has room for
`nbytes` bytes after its header. -/
theorem nunitsOf_usable {nbytes : UInt32} (h : nbytes.toNat ≤ 2 ^ 32 - 8) :
    nbytes.toNat ≤ 8 * ((nunitsOf nbytes).toNat - 1) := by
  rw [toNat_nunitsOf h]
  omega

/-! ## A request whose size wraps -/

/-- The address of `base` in the examples below, in the program's data, under its heap. -/
def exampleBase : UInt32 := 0x1000

/-- A process of three pages that has not called `malloc` yet, on a kernel that has pages to
give at every call. -/
def freshHeap : Umem := ⟨fun _ => ⟨0, 0⟩, 0, 0x3000, fun _ => false, 0⟩

/-- `malloc(0xFFFFFFFF)` on a fresh heap returns a pointer other than `0` whose block is one
header long, so it holds no byte, and which is the program break itself: not one of the
`0xFFFFFFFF` bytes asked for is memory of the process. -/
theorem malloc_max_request_block_is_empty :
    ∃ ap m', malloc exampleBase 0xFFFFFFFF freshHeap = some (ap, m') ∧ ap ≠ 0 ∧
      (m'.hdr (ap - HDRSIZE)).size = 1 ∧ ap = m'.brk := by
  have h := (Option.some_get (x := malloc exampleBase 0xFFFFFFFF freshHeap) (by decide)).symm
  exact ⟨_, _, h, by decide, by decide, by decide⟩

end Xv6.Umalloc
