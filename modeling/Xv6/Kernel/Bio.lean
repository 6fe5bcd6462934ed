import Xv6.Lib.DList
import Xv6.Log.Defs
import Mathlib

/-!
# The buffer cache (bio.c)

The cache is `NBUF` buffers on a circular doubly linked list through `bcache.head`, most
recently released first.  `bget` walks the list forwards for a buffer that holds the block,
and otherwise backwards for one that no process uses and the log does not pin (`B_DIRTY`),
which it gives the block; `brelse` drops a reference and, at the last one, moves the buffer
to the front.  Both run under `bcache.lock`; the sleep-lock of a buffer is taken and given
up apart from it, and the system that interleaves the calls is in `Xv6/System/Bcache.lean`.

The list pointers of all nodes are `Bcache.links`, one `DList.Links` over `Node`, and the
list that the pointers stand for is the order in which they visit the buffers:
`Bcache.Listed c order` says that the pointers make a ring through `head` of every buffer
once, in the order `order`.  The main results are

* `bget_eq_bgetByOrder`: on a listed cache, `bget`'s walks come back to `head` in time, and
  `bget` is the search of the list order (`bgetByOrder`), for a buffer that holds the block
  first, then from the back for an unused one;
* `bget_cases`: what a call of `bget` can do;
* `Listed.brelseLocked` and `listed_binit`: `binit` lists the buffers, and `brelse` keeps
  them listed.
-/

namespace Xv6

open DList

/-- `NBUF` (param.h): the number of buffers in the cache. -/
def NBUF : ℕ := FsLog.MAXOPBLOCKS * 3

instance : NeZero NBUF := ⟨by decide⟩

/-- `B_VALID` (buf.h): the buffer data has been read from the disk. -/
def B_VALID : Int32 := 0x2

/-- `B_DIRTY` (buf.h): the buffer data has been changed and must be written to the disk. -/
def B_DIRTY : Int32 := 0x4

/-- A pointer to a node of the list: `&bcache.head`, or `&bcache.buf[i]`. -/
inductive Node where
  | head
  | buf (i : Fin NBUF)
deriving DecidableEq, Repr

/-- `struct buf`, without its list pointers (in `Bcache.links`), its disk-queue pointer (the
disk queue is a list) and its data. -/
structure Buf (ι : Type) where
  flags : Int32
  dev : UInt32
  blockno : UInt32
  /-- The sleep-lock: the process that holds it, `lk.pid` with `lk.locked`; `none` when it
  is free. -/
  lock : Option ι
  refcnt : UInt32
deriving DecidableEq

/-- `bcache`, without its spin-lock: the buffers, and the `prev` and `next` fields of the
buffers and of `head`. -/
structure Bcache (ι : Type) where
  buf : Fin NBUF → Buf ι
  links : Links Node

namespace Bcache

variable {ι : Type} (c : Bcache ι)

/-- A write to the fields of buffer `b`. -/
def modifyBuf (b : Fin NBUF) (f : Buf ι → Buf ι) : Bcache ι :=
  { c with buf := Function.update c.buf b (f (c.buf b)) }

/-- The block that buffer `b` holds. -/
def key (b : Fin NBUF) : UInt32 × UInt32 := ((c.buf b).dev, (c.buf b).blockno)

/-- `b->dev == dev && b->blockno == blockno`, the test of `bget`'s first loop. -/
def holds (dev blockno : UInt32) : Node → Bool
  | .head => false
  | .buf b => (c.buf b).dev == dev && (c.buf b).blockno == blockno

/-- `b->refcnt == 0 && (b->flags & B_DIRTY) == 0`, the test of `bget`'s second loop. -/
def unused : Node → Bool
  | .head => false
  | .buf b => (c.buf b).refcnt == 0 && (c.buf b).flags &&& B_DIRTY == 0

/-- `bget`'s first loop, `for(b = bcache.head.next; b != &bcache.head; b = b->next)`. -/
def lookup (dev blockno : UInt32) : Option (Option Node) :=
  c.links.search (c.holds dev blockno) .head NBUF (c.links.next .head)

/-- `bget`'s second loop, `for(b = bcache.head.prev; b != &bcache.head; b = b->prev)`. -/
def recycle : Option (Option Node) :=
  c.links.flip.search c.unused .head NBUF (c.links.prev .head)

/-- `bget(dev, blockno)` up to `release(&bcache.lock)`: the buffer, and the cache after.
`none` is `panic("bget: no buffers")`, or a walk that has not come back to `head` after
`NBUF` buffers. -/
def bget (dev blockno : UInt32) : Option (Fin NBUF × Bcache ι) :=
  match c.lookup dev blockno with
  | some (some (.buf b)) =>
    -- Is the block already cached?
    some (b, c.modifyBuf b fun x => { x with refcnt := x.refcnt + 1 })
  | some none =>
    -- Not cached; recycle an unused buffer.
    match c.recycle with
    | some (some (.buf b)) =>
      some (b, c.modifyBuf b fun x =>
        { x with dev := dev, blockno := blockno, flags := 0, refcnt := 1 })
    | _ => none
  | _ => none

/-- `brelse(b)` from `acquire(&bcache.lock)`: one reference less, and at the last one the
six pointer writes that move `b` to the front (`Links.moveFront`). -/
def brelseLocked (b : Fin NBUF) : Bcache ι :=
  let c' := c.modifyBuf b fun x => { x with refcnt := x.refcnt - 1 }
  if (c'.buf b).refcnt = 0 then { c' with links := c'.links.moveFront .head (.buf b) } else c'

/-- `binit`: `head.prev` and `head.next` point at `head`, then each buffer in turn is
inserted right after `head` (`Links.pushFront`, the four writes of the loop's body), and
`initsleeplock` leaves its lock free. -/
def binit : Bcache ι :=
  let L : Links Node :=
    { next := Function.update c.links.next .head .head
      prev := Function.update c.links.prev .head .head }
  { buf := fun b => { c.buf b with lock := none }
    links := (List.finRange NBUF).foldl (fun L b => L.pushFront .head (.buf b)) L }

@[simp] lemma modifyBuf_links (b : Fin NBUF) (f : Buf ι → Buf ι) :
    (c.modifyBuf b f).links = c.links := rfl

lemma modifyBuf_buf (b : Fin NBUF) (f : Buf ι → Buf ι) (a : Fin NBUF) :
    (c.modifyBuf b f).buf a = if a = b then f (c.buf b) else c.buf a := by
  simp only [modifyBuf, Function.update_apply]

@[simp] lemma modifyBuf_buf_self (b : Fin NBUF) (f : Buf ι → Buf ι) :
    (c.modifyBuf b f).buf b = f (c.buf b) := by
  simp [modifyBuf_buf]

lemma key_modifyBuf_eq (b : Fin NBUF) (f : Buf ι → Buf ι) :
    (c.modifyBuf b f).key = Function.update c.key b ((f (c.buf b)).dev, (f (c.buf b)).blockno) := by
  funext a
  by_cases hab : a = b
  · subst hab
    simp [key]
  · simp [key, modifyBuf_buf, hab]

/-- A write that leaves the block fields of a buffer alone leaves every key. -/
lemma key_modifyBuf {b : Fin NBUF} {f : Buf ι → Buf ι} (hdev : (f (c.buf b)).dev = (c.buf b).dev)
    (hblockno : (f (c.buf b)).blockno = (c.buf b).blockno) : (c.modifyBuf b f).key = c.key := by
  rw [key_modifyBuf_eq, hdev, hblockno]
  exact Function.update_eq_self b c.key

@[simp] lemma key_brelseLocked (b : Fin NBUF) : (c.brelseLocked b).key = c.key := by
  have hkey : (c.modifyBuf b fun x => { x with refcnt := x.refcnt - 1 }).key = c.key :=
    c.key_modifyBuf rfl rfl
  dsimp only [brelseLocked]
  split_ifs
  · exact hkey
  · exact hkey

lemma unused_buf (b : Fin NBUF) :
    c.unused (.buf b) = true ↔ (c.buf b).refcnt = 0 ∧ (c.buf b).flags &&& B_DIRTY = 0 := by
  simp [unused]

lemma holds_buf (dev blockno : UInt32) (b : Fin NBUF) :
    c.holds dev blockno (.buf b) = true ↔ c.key b = (dev, blockno) := by
  simp [holds, key]

/-! ## The list order -/

/-- The pointers make a ring through `head` of every buffer once, in the order `order`. -/
def Listed (order : List (Fin NBUF)) : Prop :=
  order.Perm (List.finRange NBUF) ∧ c.links.Ring .head (order.map .buf)

instance (order : List (Fin NBUF)) : Decidable (c.Listed order) :=
  inferInstanceAs (Decidable (_ ∧ _))

variable {c}

lemma Listed.of_links {c' : Bcache ι} {order : List (Fin NBUF)} (h : c.Listed order)
    (hl : c'.links = c.links) : c'.Listed order := by
  unfold Listed
  rw [hl]
  exact h

lemma Listed.mem {order : List (Fin NBUF)} (h : c.Listed order) (b : Fin NBUF) : b ∈ order :=
  h.1.mem_iff.mpr (List.mem_finRange b)

lemma Listed.length {order : List (Fin NBUF)} (h : c.Listed order) :
    (order.map Node.buf).length = NBUF := by
  rw [List.length_map, h.1.length_eq, List.length_finRange]

/-- On a listed cache the first loop ends, with the first buffer in the order that holds
the block. -/
theorem lookup_eq {order : List (Fin NBUF)} (h : c.Listed order) (dev blockno : UInt32) :
    c.lookup dev blockno =
      some ((order.find? fun b => c.holds dev blockno (.buf b)).map .buf) := by
  rw [lookup, c.links.search_ring h.2 _ h.length.le, List.find?_map]
  rfl

/-- On a listed cache the second loop ends, with the last unused buffer in the order. -/
theorem recycle_eq {order : List (Fin NBUF)} (h : c.Listed order) :
    c.recycle = some ((order.reverse.find? fun b => c.unused (.buf b)).map .buf) := by
  have hflip := h.2.flip
  rw [← List.map_reverse] at hflip
  have hlen : (order.reverse.map Node.buf).length ≤ NBUF := by
    rw [List.map_reverse, List.length_reverse, h.length]
  rw [recycle]
  exact (c.links.flip.search_ring hflip _ hlen).trans (by rw [List.find?_map]; rfl)

variable (c)

/-- What `bget` does, read off the list order: the first buffer that holds the block, or
else the last unused one. -/
def bgetByOrder (order : List (Fin NBUF)) (dev blockno : UInt32) :
    Option (Fin NBUF × Bcache ι) :=
  match order.find? fun b => c.holds dev blockno (.buf b) with
  | some b => some (b, c.modifyBuf b fun x => { x with refcnt := x.refcnt + 1 })
  | none =>
    match order.reverse.find? fun b => c.unused (.buf b) with
    | some b =>
      some (b, c.modifyBuf b fun x =>
        { x with dev := dev, blockno := blockno, flags := 0, refcnt := 1 })
    | none => none

variable {c}

/-- On a listed cache, the pointer walks of `bget` are the searches of the list order. -/
theorem bget_eq_bgetByOrder {order : List (Fin NBUF)} (h : c.Listed order)
    (dev blockno : UInt32) : c.bget dev blockno = c.bgetByOrder order dev blockno := by
  unfold bget bgetByOrder
  rw [lookup_eq h, recycle_eq h]
  cases order.find? fun b => c.holds dev blockno (.buf b) with
  | some b => rfl
  | none =>
    cases order.reverse.find? fun b => c.unused (.buf b) with
    | some b => rfl
    | none => rfl

/-- When no buffer of the order holds the block, no buffer holds it. -/
lemma Listed.key_ne_of_find? {order : List (Fin NBUF)} (h : c.Listed order) {dev blockno : UInt32}
    (hfind : (order.find? fun b => c.holds dev blockno (.buf b)) = none) (a : Fin NBUF) :
    c.key a ≠ (dev, blockno) := by
  intro ha
  have := List.find?_eq_none.mp hfind a (h.mem a)
  rw [(c.holds_buf dev blockno a).mpr ha] at this
  exact this rfl

/-- What a call of `bget` can do: find the buffer that holds the block and count one more
reference, or give the block to an unused buffer.  It never moves a pointer. -/
theorem bget_cases {dev blockno : UInt32} {b : Fin NBUF} {c' : Bcache ι}
    (hb : c.bget dev blockno = some (b, c')) :
    (c.lookup dev blockno = some (some (.buf b)) ∧ c.key b = (dev, blockno) ∧
        c' = c.modifyBuf b fun x => { x with refcnt := x.refcnt + 1 }) ∨
      (c.lookup dev blockno = some none ∧ c.unused (.buf b) = true ∧
        c' = c.modifyBuf b fun x =>
          { x with dev := dev, blockno := blockno, flags := 0, refcnt := 1 }) := by
  unfold bget at hb
  split at hb
  · -- the first loop returned the buffer
    rename_i b' hlook
    cases hb
    have hholds := c.links.search_spec hlook
    exact Or.inl ⟨hlook, (c.holds_buf dev blockno b).mp hholds, rfl⟩
  · -- the second loop
    rename_i hlook
    split at hb
    · rename_i b' hrec
      cases hb
      exact Or.inr ⟨hlook, c.links.flip.search_spec hrec, rfl⟩
    · cases hb
  · cases hb

/-- On a listed cache, when the first loop reaches `head`, no buffer holds the block. -/
theorem Listed.key_ne_of_lookup {order : List (Fin NBUF)} (h : c.Listed order)
    {dev blockno : UInt32} (hlook : c.lookup dev blockno = some none) (a : Fin NBUF) :
    c.key a ≠ (dev, blockno) := by
  rw [lookup_eq h, Option.some_inj, Option.map_eq_none_iff] at hlook
  exact h.key_ne_of_find? hlook a

/-- `brelse` keeps the buffers listed: as they were, or with `b` moved to the front. -/
theorem Listed.brelseLocked {order : List (Fin NBUF)} (h : c.Listed order) (b : Fin NBUF) :
    ∃ order', (c.brelseLocked b).Listed order' := by
  dsimp only [Bcache.brelseLocked]
  split_ifs
  · obtain ⟨o₁, o₂, rfl⟩ := List.append_of_mem (h.mem b)
    refine ⟨b :: (o₁ ++ o₂), List.perm_middle.symm.trans h.1, ?_⟩
    have hring := h.2
    rw [List.map_append, List.map_cons] at hring
    rw [List.map_cons, List.map_append]
    exact hring.moveFront
  · exact ⟨order, h.of_links rfl⟩

variable (c)

/-- `binit` lists every buffer, the last one first. -/
theorem listed_binit : c.binit.Listed (List.finRange NBUF).reverse := by
  refine ⟨List.reverse_perm _, ?_⟩
  have hempty : Links.Ring
      { next := Function.update c.links.next .head .head
        prev := Function.update c.links.prev .head .head } Node.head [] := by
    refine ⟨List.isChain_pair.mpr ⟨?_, ?_⟩, List.nodup_singleton _⟩ <;> simp
  have hnd : ((List.finRange NBUF).map Node.buf).Nodup :=
    (List.nodup_finRange NBUF).map fun _ _ e => Node.buf.inj e
  have hring := hempty.pushFront_foldl hnd (by simp)
  rw [List.append_nil, ← List.map_reverse, List.foldl_map] at hring
  exact hring

end Bcache

end Xv6
