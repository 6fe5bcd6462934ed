import Xv6.Lib.Ring
import Mathlib.Data.UInt

/-!
# Pipes (pipe.c)

A pipe is a buffer of `PIPESIZE` bytes with two free-running `uint` counters: `nread` bytes
have been read from it and `nwrite` written to it, and byte number `x` sits in
`data[x % PIPESIZE]`.  `pipewrite` and `piperead` run their loops holding `p->lock`; a writer
that finds the pipe full, and a reader that finds it empty while a writer is left, sleep and
give the lock up, and run their loop again once they are woken.

The pipe stands for the queue `Pipe.contents` of the bytes written and not yet read, a ring
over the counters (`Ring.view`); since `PIPESIZE` divides `2^32`, the counters may wrap.  The
main results are

* `contents_pipewriteLoop`: a pass of `pipewrite`'s loop appends the bytes it stores to the
  queue;
* `contents_pipereadLoop`: `piperead`'s copy loop takes the bytes it returns from the front
  of the queue;

and both keep `nwrite - nread`, as a `uint`, at most `PIPESIZE` (`Pipe.Bounded`).
-/

namespace Xv6

/-- The size of a pipe's buffer. -/
def PIPESIZE : ℕ := 512

instance : NeZero PIPESIZE := ⟨by decide⟩

/-- `struct pipe`, without its lock. -/
structure Pipe where
  data : Fin PIPESIZE → UInt8
  /-- Number of bytes read. -/
  nread : UInt32
  /-- Number of bytes written. -/
  nwrite : UInt32
  /-- The read end is still open. -/
  readopen : Bool
  /-- The write end is still open. -/
  writeopen : Bool

/-- The cell `x % PIPESIZE` of the buffer. -/
def slot (x : UInt32) : Fin PIPESIZE :=
  ⟨(x % PIPESIZE.toUInt32).toNat, by
    rw [UInt32.toNat_mod]
    exact Nat.mod_lt _ (by decide)⟩

lemma slot_eq (x : UInt32) : slot x = Fin.ofNat PIPESIZE x.toNat := by
  apply Fin.ext
  rw [Fin.val_ofNat]
  exact UInt32.toNat_mod x _

namespace Pipe

/-- `p->data[p->nwrite++ % PIPESIZE] = b`. -/
def store (p : Pipe) (b : UInt8) : Pipe :=
  { p with data := Function.update p.data (slot p.nwrite) b, nwrite := p.nwrite + 1 }

/-- `p->data[p->nread++ % PIPESIZE]`: the byte, and the pipe after. -/
def load (p : Pipe) : UInt8 × Pipe :=
  (p.data (slot p.nread), { p with nread := p.nread + 1 })

@[simp] lemma store_nread (p : Pipe) (b : UInt8) : (p.store b).nread = p.nread := rfl
@[simp] lemma store_readopen (p : Pipe) (b : UInt8) : (p.store b).readopen = p.readopen := rfl
@[simp] lemma store_writeopen (p : Pipe) (b : UInt8) : (p.store b).writeopen = p.writeopen := rfl
@[simp] lemma load_nwrite (p : Pipe) : p.load.2.nwrite = p.nwrite := rfl
@[simp] lemma load_readopen (p : Pipe) : p.load.2.readopen = p.readopen := rfl
@[simp] lemma load_writeopen (p : Pipe) : p.load.2.writeopen = p.writeopen := rfl

end Pipe

/-! ## The code -/

/-- A new pipe, from `pipealloc`: both ends open and no byte written.  `data` is what the page
from `kalloc` holds. -/
def pipealloc (data : Fin PIPESIZE → UInt8) : Pipe :=
  ⟨data, 0, 0, true, true⟩

/-- `pipeclose(p, writable)`, but for the `kfree` of a pipe with both ends closed. -/
def pipeclose (p : Pipe) (writable : Bool) : Pipe :=
  if writable then { p with writeopen := false } else { p with readopen := false }

/-- How a pass of `pipewrite`'s loop under the lock ends. -/
inductive WriteEnd where
  /-- Every byte stored: `pipewrite` returns `n`. -/
  | done
  /-- A full pipe with no reader, or a killed caller: `pipewrite` returns `-1`. -/
  | failed
  /-- A full pipe: the caller sleeps on `nwrite`, and runs the loop again on the bytes left. -/
  | sleeps
deriving DecidableEq, Repr

/-- `pipewrite`'s loop under `p->lock`, over the bytes `addr[i..n)` not yet stored: how it
ends, and the bytes it leaves. -/
def pipewriteLoop (killed : Bool) : List UInt8 → Pipe → WriteEnd × List UInt8 × Pipe
  | [], p => (.done, [], p)
  | b :: rest, p =>
    if p.nwrite = p.nread + PIPESIZE.toUInt32 then
      if p.readopen = false ∨ killed = true then (.failed, b :: rest, p)
      else (.sleeps, b :: rest, p)
    else pipewriteLoop killed rest (p.store b)

/-- `piperead`'s copy loop, for up to `n` bytes: the bytes read, in order. -/
def pipereadLoop : ℕ → Pipe → List UInt8 × Pipe
  | 0, p => ([], p)
  | n + 1, p =>
    if p.nread = p.nwrite then ([], p)
    else
      let (b, p') := p.load
      let (bytes, p'') := pipereadLoop n p'
      (b :: bytes, p'')

/-- How a pass of `piperead` under the lock ends. -/
inductive ReadEnd where
  /-- The bytes copied out: `piperead` returns their number. -/
  | done (bytes : List UInt8)
  /-- A killed caller at an empty pipe: `piperead` returns `-1`. -/
  | failed
  /-- An empty pipe with a writer: the caller sleeps on `nread`, and runs the pass again. -/
  | sleeps
deriving DecidableEq, Repr

/-- A pass of `piperead` for `n` bytes under `p->lock`: the wait for a byte or for the
writer to close, then the copy. -/
def pipereadPass (killed : Bool) (n : ℕ) (p : Pipe) : ReadEnd × Pipe :=
  if p.nread = p.nwrite ∧ p.writeopen = true then
    if killed = true then (.failed, p) else (.sleeps, p)
  else
    let (bytes, p') := pipereadLoop n p
    (.done bytes, p')

/-! ## The queue a pipe stands for -/

namespace Pipe

/-- The number of bytes in the pipe, `nwrite - nread` as a `uint`. -/
def count (p : Pipe) : ℕ := (p.nwrite - p.nread).toNat

/-- The bytes written and not yet read, in order. -/
def contents (p : Pipe) : List UInt8 := Ring.view p.data p.nread.toNat p.count

/-- At most `PIPESIZE` bytes are in the pipe. -/
def Bounded (p : Pipe) : Prop := p.count ≤ PIPESIZE

instance (p : Pipe) : Decidable p.Bounded := inferInstanceAs (Decidable (_ ≤ _))

@[simp] lemma length_contents (p : Pipe) : p.contents.length = p.count := Ring.length_view _ _ _

/-- The write counter is the read counter moved on by the count, modulo `2^32`. -/
lemma nwrite_toNat (p : Pipe) : p.nwrite.toNat = (p.nread.toNat + p.count) % 2 ^ 32 := by
  have h := UInt32.toNat_add p.nread (p.nwrite - p.nread)
  rwa [add_sub_cancel] at h

/-- `pipewrite`'s test for a full pipe. -/
lemma full_iff (p : Pipe) : p.nwrite = p.nread + PIPESIZE.toUInt32 ↔ p.count = PIPESIZE := by
  rw [← UInt32.toNat_inj, UInt32.toNat_add, count, UInt32.toNat_sub]
  have hw := UInt32.toNat_lt p.nwrite
  have hr := UInt32.toNat_lt p.nread
  have hsize : PIPESIZE.toUInt32.toNat = 512 := rfl
  rw [hsize]
  unfold PIPESIZE
  omega

/-- `piperead`'s test for an empty pipe. -/
lemma empty_iff (p : Pipe) : p.nread = p.nwrite ↔ p.count = 0 := by
  rw [count, eq_comm, ← sub_eq_zero, ← UInt32.toNat_inj, UInt32.toNat_zero]

/-- A store into a pipe with room adds the byte at the end of the queue. -/
lemma contents_store {p : Pipe} (h : p.count < PIPESIZE) (b : UInt8) :
    (p.store b).contents = p.contents ++ [b] ∧ (p.store b).count = p.count + 1 := by
  have hcount : (p.store b).count = p.count + 1 := by
    simp only [count, store]
    rw [add_sub_right_comm, UInt32.toNat_add, UInt32.toNat_one]
    unfold PIPESIZE at h
    unfold count at h
    omega
  refine ⟨?_, hcount⟩
  -- the cell of `nwrite` is the cell of `nread + count`
  have hcell : slot p.nwrite = Fin.ofNat PIPESIZE (p.nread.toNat + p.count) := by
    rw [slot_eq, nwrite_toNat]
    apply Fin.ext
    simp only [Fin.val_ofNat]
    exact Nat.mod_mod_of_dvd _ (by decide)
  simp only [contents, hcount, store_nread]
  show Ring.view (Function.update p.data (slot p.nwrite) b) _ _ = _
  rw [hcell]
  exact Ring.view_push p.data h b

/-- A load from a pipe that is not empty takes the first byte of the queue. -/
lemma contents_load {p : Pipe} (h : p.count ≠ 0) :
    p.contents = p.load.1 :: p.load.2.contents ∧ p.load.2.count + 1 = p.count := by
  have hcount : p.load.2.count + 1 = p.count := by
    simp only [count, load]
    rw [sub_add_eq_sub_sub, UInt32.toNat_sub _ 1, UInt32.toNat_one]
    unfold count at h
    have := UInt32.toNat_lt (p.nwrite - p.nread)
    omega
  refine ⟨?_, hcount⟩
  obtain ⟨n, hn⟩ : ∃ n, p.count = n + 1 := Nat.exists_eq_succ_of_ne_zero h
  have hn' : p.load.2.count = n := by omega
  -- the read counter moves on modulo `2^32`, which the ring does not see
  have hnread : p.load.2.nread.toNat = (p.nread.toNat + 1) % 2 ^ 32 := by
    simp only [load]
    rw [UInt32.toNat_add, UInt32.toNat_one]
  simp only [contents, hn, hn', hnread]
  rw [Ring.view_mod _ (by decide), Ring.view_pop]
  simp only [load, slot_eq]

/-- Closing an end changes neither the counters nor the buffer. -/
@[simp] lemma pipeclose_contents (p : Pipe) (writable : Bool) :
    (pipeclose p writable).contents = p.contents ∧ (pipeclose p writable).count = p.count := by
  cases writable <;> exact ⟨rfl, rfl⟩

end Pipe

/-! ## What the loops do to the queue -/

open Pipe

/-- A pass of `pipewrite`'s loop stores a prefix of the bytes it is given, at the end of the
queue, and leaves the rest; the read counter and the ends stay as they are.  The induction
is on the bytes given; a full pipe ends the pass. -/
theorem contents_pipewriteLoop {killed : Bool} {rest left : List UInt8} {p p' : Pipe}
    {e : WriteEnd} (hb : p.Bounded) (h : pipewriteLoop killed rest p = (e, left, p')) :
    ∃ stored, rest = stored ++ left ∧ p'.contents = p.contents ++ stored ∧ p'.Bounded ∧
      p'.nread = p.nread ∧ p'.readopen = p.readopen ∧ p'.writeopen = p.writeopen := by
  induction rest generalizing p with
  | nil =>
    cases h
    exact ⟨[], rfl, by simp, hb, rfl, rfl, rfl⟩
  | cons b rest ih =>
    simp only [pipewriteLoop] at h
    split at h
    · -- a full pipe: the pass ends before the byte, failed or asleep
      split at h <;> cases h <;> exact ⟨[], rfl, by simp, hb, rfl, rfl, rfl⟩
    · rename_i hfull
      have hroom : p.count < PIPESIZE := lt_of_le_of_ne hb (mt p.full_iff.mpr hfull)
      obtain ⟨hcontents, hcount⟩ := contents_store hroom b
      have hb' : (p.store b).Bounded := by
        unfold Bounded
        omega
      obtain ⟨stored, hrest, hc, hbounded, hr, hro, hwo⟩ := ih hb' h
      refine ⟨b :: stored, by rw [hrest]; rfl, ?_, hbounded, hr, hro, hwo⟩
      rw [hc, hcontents, List.append_assoc]
      rfl

/-- `piperead`'s copy loop takes the bytes it returns from the front of the queue; the write
counter and the ends stay as they are.  The induction is on the bytes asked for; an empty
pipe ends the loop. -/
theorem contents_pipereadLoop {n : ℕ} {p p' : Pipe} {bytes : List UInt8} (hb : p.Bounded)
    (h : pipereadLoop n p = (bytes, p')) :
    p.contents = bytes ++ p'.contents ∧ p'.Bounded ∧ p'.nwrite = p.nwrite ∧
      p'.readopen = p.readopen ∧ p'.writeopen = p.writeopen := by
  induction n generalizing p bytes with
  | zero =>
    cases h
    exact ⟨rfl, hb, rfl, rfl, rfl⟩
  | succ n ih =>
    simp only [pipereadLoop] at h
    split at h
    · cases h
      exact ⟨rfl, hb, rfl, rfl, rfl⟩
    · rename_i hempty
      obtain ⟨hcontents, hcount⟩ := contents_load (mt p.empty_iff.mpr hempty)
      rcases hl : p.load with ⟨b, q⟩
      rw [hl] at h hcontents hcount
      dsimp only at hcontents hcount
      rcases hr : pipereadLoop n q with ⟨bs, q'⟩
      rw [hr] at h
      cases h
      have hq : q.Bounded := by
        unfold Bounded at hb ⊢
        omega
      obtain ⟨hc, hbounded, hw, hro, hwo⟩ := ih hq hr
      -- the fields of `q` are those of `p.load.2`
      have hfields : q.nwrite = p.nwrite ∧ q.readopen = p.readopen ∧ q.writeopen = p.writeopen := by
        have hq' : q = p.load.2 := by rw [hl]
        subst hq'
        exact ⟨rfl, rfl, rfl⟩
      refine ⟨by rw [hcontents, hc]; rfl, hbounded, hw.trans hfields.1, hro.trans hfields.2.1,
        hwo.trans hfields.2.2⟩

end Xv6
