import Xv6.Kernel.Pipe
import Mathlib

/-!
# Processes on one pipe (pipe.c)

Any number of processes write to and read from one pipe.  A process that calls `pipewrite`
takes `p->lock` and runs the write loop until it has stored every byte, fails, or finds the
pipe full and sleeps, giving the lock up; a sleeping writer runs its loop again once woken,
and a sleeping reader its pass.  Each pass under the lock is one move (`PipeMove.pass`), and
a process may make it at any time: a wakeup that finds the pipe as it was sends the process
back to sleep, and so runs where a process runs without its wakeup are runs of the kernel
too.  Besides, either end of the pipe may be closed and any process killed.

Two history variables keep what the code does not: `written`, every byte stored, in order,
and `taken`, every byte that a read returned, in order.  `PipeSys.Fifo` says that the bytes
taken followed by the bytes in the pipe are the bytes written, and that at most `PIPESIZE`
bytes are in the pipe.  The main result is `fifo_of_reachable`: every run from a state with
`Fifo` keeps it, however far the counters have gone round `2^32`.
-/

namespace Xv6

open Pipe

/-- What a process is doing with the pipe. -/
inductive Task where
  | idle
  /-- In `pipewrite`, with the bytes `rest` left to store. -/
  | writing (rest : List UInt8)
  /-- In `piperead`, for `n` bytes. -/
  | reading (n : ℕ)
deriving DecidableEq, Repr

/-- A pipe, the processes that use it, and the history of the bytes it moved. -/
structure PipeSys (ι : Type) where
  pipe : Pipe
  tasks : ι → Task
  killed : ι → Bool
  /-- History: every byte stored into the buffer, in order. -/
  written : List UInt8
  /-- History: every byte that a read returned, in order. -/
  taken : List UInt8

/-- The moves of the processes on the pipe. -/
inductive PipeMove (ι : Type) where
  /-- An idle process calls `pipewrite(p, addr, n)` with the `n` bytes `addr`. -/
  | write (i : ι) (addr : List UInt8)
  /-- An idle process calls `piperead(p, addr, n)`. -/
  | read (i : ι) (n : ℕ)
  /-- A process in a call takes the lock and runs a pass of it. -/
  | pass (i : ι)
  /-- `pipeclose` of one end. -/
  | close (writable : Bool)
  /-- `kill(pid)` of a process. -/
  | kill (i : ι)

namespace PipeSys

variable {ι : Type} [DecidableEq ι]

/-- The pipe right after `pipealloc`, with every process idle. -/
def start (data : Fin PIPESIZE → UInt8) : PipeSys ι :=
  ⟨pipealloc data, fun _ => .idle, fun _ => false, [], []⟩

/-- A pass of `pipewrite` by process `i` with the bytes `rest` left. -/
def writePass (s : PipeSys ι) (i : ι) (rest : List UInt8) : PipeSys ι :=
  let (e, left, p') := pipewriteLoop (s.killed i) rest s.pipe
  { s with
    pipe := p'
    tasks := Function.update s.tasks i (if e = .sleeps then .writing left else .idle)
    written := s.written ++ rest.take (rest.length - left.length) }

/-- A pass of `piperead` by process `i` for `n` bytes. -/
def readPass (s : PipeSys ι) (i : ι) (n : ℕ) : PipeSys ι :=
  match pipereadPass (s.killed i) n s.pipe with
  | (.done bytes, p') =>
    { s with pipe := p', tasks := Function.update s.tasks i .idle, taken := s.taken ++ bytes }
  | (.failed, p') => { s with pipe := p', tasks := Function.update s.tasks i .idle }
  | (.sleeps, p') => { s with pipe := p' }

/-- One move. -/
def step (s : PipeSys ι) : PipeMove ι → PipeSys ι
  | .write i addr =>
    if s.tasks i = .idle then { s with tasks := Function.update s.tasks i (.writing addr) } else s
  | .read i n =>
    if s.tasks i = .idle then { s with tasks := Function.update s.tasks i (.reading n) } else s
  | .pass i =>
    match s.tasks i with
    | .idle => s
    | .writing rest => s.writePass i rest
    | .reading n => s.readPass i n
  | .close writable => { s with pipe := pipeclose s.pipe writable }
  | .kill i => { s with killed := Function.update s.killed i true }

/-- The states that runs from `s₀` reach, moves in any order and number. -/
def Reachable (s₀ : PipeSys ι) : PipeSys ι → Prop :=
  Relation.ReflTransGen (fun s s' => ∃ m, s' = s.step m) s₀

/-- The pipe is a bounded FIFO queue of what was written and not yet taken. -/
structure Fifo (s : PipeSys ι) : Prop where
  bounded : s.pipe.Bounded
  queue : s.taken ++ s.pipe.contents = s.written

omit [DecidableEq ι] in
lemma fifo_start (data : Fin PIPESIZE → UInt8) : (start data : PipeSys ι).Fifo := by
  have hcount : (pipealloc data).count = 0 := by
    show ((0 : UInt32) - 0).toNat = 0
    decide
  refine ⟨?_, ?_⟩
  · show (pipealloc data).count ≤ PIPESIZE
    rw [hcount]
    exact Nat.zero_le _
  · show [] ++ (pipealloc data).contents = []
    rw [contents, hcount]
    rfl

/-! ## One move -/

omit [DecidableEq ι] in
/-- A move that changes neither the pipe nor the history. -/
lemma Fifo.of_eq {s s' : PipeSys ι} (h : s.Fifo) (hp : s'.pipe = s.pipe)
    (hw : s'.written = s.written) (ht : s'.taken = s.taken) : s'.Fifo := by
  refine ⟨hp ▸ h.bounded, ?_⟩
  rw [hp, hw, ht]
  exact h.queue

/-- A pass of `pipewrite` adds to the history the bytes it stores, which are the bytes it
adds to the queue. -/
lemma Fifo.writePass {s : PipeSys ι} (h : s.Fifo) (i : ι) (rest : List UInt8) :
    (s.writePass i rest).Fifo := by
  rcases hloop : pipewriteLoop (s.killed i) rest s.pipe with ⟨e, left, p'⟩
  obtain ⟨stored, hrest, hcontents, hbounded, -⟩ := contents_pipewriteLoop h.bounded hloop
  -- the bytes the history gains are those the loop stored
  have hstored : rest.take (rest.length - left.length) = stored := by
    rw [hrest, List.length_append, Nat.add_sub_cancel, List.take_left' rfl]
  simp only [PipeSys.writePass, hloop]
  refine ⟨hbounded, ?_⟩
  show s.taken ++ p'.contents = s.written ++ rest.take (rest.length - left.length)
  rw [hcontents, hstored, ← List.append_assoc, h.queue]

/-- A pass of `piperead` adds to the history the bytes it returns, which it takes from the
front of the queue. -/
lemma Fifo.readPass {s : PipeSys ι} (h : s.Fifo) (i : ι) (n : ℕ) : (s.readPass i n).Fifo := by
  unfold PipeSys.readPass pipereadPass
  split_ifs with hwait hkilled
  · exact h.of_eq rfl rfl rfl
  · exact h.of_eq rfl rfl rfl
  · rcases hloop : pipereadLoop n s.pipe with ⟨bytes, p'⟩
    obtain ⟨hcontents, hbounded, -⟩ := contents_pipereadLoop h.bounded hloop
    refine ⟨hbounded, ?_⟩
    show (s.taken ++ bytes) ++ p'.contents = s.written
    rw [List.append_assoc, ← hcontents, h.queue]

/-- Every move keeps the invariant. -/
theorem Fifo.step {s : PipeSys ι} (h : s.Fifo) (m : PipeMove ι) : (s.step m).Fifo := by
  cases m with
  | write i addr =>
    dsimp only [PipeSys.step]
    split_ifs
    · exact h.of_eq rfl rfl rfl
    · exact h
  | read i n =>
    dsimp only [PipeSys.step]
    split_ifs
    · exact h.of_eq rfl rfl rfl
    · exact h
  | pass i =>
    dsimp only [PipeSys.step]
    split
    · exact h
    · exact h.writePass i _
    · exact h.readPass i _
  | close writable =>
    obtain ⟨hcontents, hcount⟩ := pipeclose_contents s.pipe writable
    refine ⟨?_, ?_⟩
    · show (pipeclose s.pipe writable).count ≤ PIPESIZE
      rw [hcount]
      exact h.bounded
    · show s.taken ++ (pipeclose s.pipe writable).contents = s.written
      rw [hcontents]
      exact h.queue
  | kill i => exact h.of_eq rfl rfl rfl

/-- Every run from a state with the invariant keeps it.  The induction is on the run. -/
theorem Fifo.reachable {s₀ s : PipeSys ι} (h₀ : s₀.Fifo) (h : Reachable s₀ s) : s.Fifo := by
  induction h with
  | refl => exact h₀
  | tail _ hmove ih =>
    obtain ⟨m, rfl⟩ := hmove
    exact ih.step m

/-! ## Runs -/

/-- In every state that a run reaches from a state where the pipe is a bounded FIFO of what
was written and not yet taken: `nwrite - nread`, as a `uint`, is at most `PIPESIZE`, and the
bytes that all reads returned, in order, followed by the bytes in the pipe, are the bytes
that all writes stored, in order; so the former are a prefix of the latter. -/
theorem fifo_of_reachable {s₀ s : PipeSys ι} (h₀ : s₀.Fifo) (h : Reachable s₀ s) :
    (s.pipe.nwrite - s.pipe.nread).toNat ≤ PIPESIZE ∧
      s.written = s.taken ++ s.pipe.contents ∧ s.taken <+: s.written := by
  have hs := h₀.reachable h
  exact ⟨hs.bounded, hs.queue.symm, ⟨s.pipe.contents, hs.queue⟩⟩

/-- The two processes of the runs below are `Fin 2`; their numerals take this instance. -/
theorem neZero_two : NeZero (2 : ℕ) := ⟨by decide⟩

attribute [local instance] neZero_two

/-- An empty pipe whose counters are two bytes short of `2^32`, as after `2^32 - 2` bytes
through it, with two idle processes. -/
def nearWrap : PipeSys (Fin 2) :=
  ⟨⟨fun _ => 0, 0xFFFFFFFE, 0xFFFFFFFE, true, true⟩, fun _ => .idle, fun _ => false, [], []⟩

/-- Process `0` writes four bytes, across the wrap of `nwrite`, and process `1` reads three,
across the wrap of `nread`. -/
def wrapRun : PipeSys (Fin 2) :=
  (((nearWrap.step (.write 0 [1, 2, 3, 4])).step (.pass 0)).step (.read 1 3)).step (.pass 1)

/-- Process `0` writes three bytes into a new pipe, and process `1` reads two of them. -/
def startRun : PipeSys (Fin 2) :=
  ((((start fun _ => 0).step (.write 0 [1, 2, 3])).step (.pass 0)).step (.read 1 2)).step (.pass 1)

/-- `fifo_of_reachable` from the state `pipealloc` leaves, and across the wrap of both
counters. -/
theorem fifo_of_reachable_startAndWrap :
    (Reachable (start fun _ => 0) startRun ∧ startRun.taken = [1, 2] ∧
      ((startRun.pipe.nwrite - startRun.pipe.nread).toNat ≤ PIPESIZE ∧
        startRun.written = startRun.taken ++ startRun.pipe.contents ∧
        startRun.taken <+: startRun.written)) ∧
    (nearWrap.Fifo ∧ Reachable nearWrap wrapRun ∧
      wrapRun.pipe.nread = 1 ∧ wrapRun.pipe.nwrite = 2 ∧ wrapRun.taken = [1, 2, 3] ∧
      ((wrapRun.pipe.nwrite - wrapRun.pipe.nread).toNat ≤ PIPESIZE ∧
        wrapRun.written = wrapRun.taken ++ wrapRun.pipe.contents ∧
        wrapRun.taken <+: wrapRun.written)) := by
  have hstart : Reachable (start fun _ => 0) startRun :=
    .tail (.tail (.tail (.tail .refl ⟨.write 0 [1, 2, 3], rfl⟩) ⟨.pass 0, rfl⟩)
      ⟨.read 1 2, rfl⟩) ⟨.pass 1, rfl⟩
  have hfifo : nearWrap.Fifo := ⟨by decide, by decide⟩
  have hreach : Reachable nearWrap wrapRun :=
    .tail (.tail (.tail (.tail .refl ⟨.write 0 [1, 2, 3, 4], rfl⟩) ⟨.pass 0, rfl⟩)
      ⟨.read 1 3, rfl⟩) ⟨.pass 1, rfl⟩
  exact ⟨⟨hstart, by decide, fifo_of_reachable (fifo_start _) hstart⟩,
    ⟨hfifo, hreach, by decide, by decide, by decide, fifo_of_reachable hfifo hreach⟩⟩

end PipeSys

end Xv6
