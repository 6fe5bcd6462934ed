import Xv6.Kernel.Console
import Mathlib

/-!
# Processes on the console (console.c)

Keyboard and serial interrupts run `consoleintr` with the characters they bring, and any
number of processes call `consoleread`.  A reader takes `cons.lock` and runs the loop of its
call until it has its bytes, fails, or finds no committed byte and sleeps, giving the lock
up; each such pass is one move (`ConsMove.pass`), and a process may make it at any time, as
a wakeup that finds nothing committed sends the reader back to sleep.  Besides, any process
may be killed.

Two history variables keep what the code does not: `committed`, every byte that a
character committed, in the order of the commits, and `taken`, every byte that a read took
from the buffer, in order; `returned` records each call that returned.  `ConsSys.Sound` says
that the bytes taken followed by the pending ones are the bytes committed, that the
counters keep `w - r <= e - r <= INPUT_BUF`, and what each call returned
(`ConsCall.Delivers`).  The main result is `console_of_reachable`.

A call returns the bytes it took, with one exception: a call that took bytes and sleeps
for more returns `-1` when its process is killed, and the bytes it took are gone, since no
later call can take them again (`console_killed_read_loses_bytes`).
-/

namespace Xv6

open Input

/-- What a process is doing with the console. -/
inductive ConsTask where
  | idle
  /-- In `consoleread` for `target` bytes, with `n` of them still wanted and the bytes `dst`
  stored so far. -/
  | reading (target n : ℕ) (dst : List UInt8)
deriving DecidableEq, Repr

/-- A call of `consoleread` that returned. -/
structure ConsCall (ι : Type) where
  reader : ι
  /-- The number of bytes asked for. -/
  target : ℕ
  /-- The value returned. -/
  ret : ℤ
  /-- The bytes stored at `dst`. -/
  bytes : List UInt8
  /-- The bytes the call took from the buffer. -/
  took : List UInt8
deriving DecidableEq, Repr

/-- What a call returned: the bytes it took, none a `^D`, and their number or `-1`; or,
for a call whose first byte was a `^D`, nothing and `0`. -/
def ConsCall.Delivers {ι : Type} (c : ConsCall ι) : Prop :=
  (c.took = c.bytes ∧ C 'D' ∉ c.bytes ∧ (c.ret = c.bytes.length ∨ c.ret = -1)) ∨
    (c.took = [C 'D'] ∧ c.bytes = [] ∧ c.ret = 0)

/-- The console input, the processes that read it, and the history of the bytes it moved. -/
structure ConsSys (ι : Type) where
  input : Input
  tasks : ι → ConsTask
  killed : ι → Bool
  /-- History: every byte committed, in the order of the commits. -/
  committed : List UInt8
  /-- History: every byte taken from the buffer by a read, in order. -/
  taken : List UInt8
  /-- History: the calls that returned, in order. -/
  returned : List (ConsCall ι)

/-- The moves on the console. -/
inductive ConsMove (ι : Type) where
  /-- An interrupt runs `consoleintr` with the characters `cs`. -/
  | intr (cs : List UInt8)
  /-- An idle process calls `consoleread(ip, dst, target)`. -/
  | read (i : ι) (target : ℕ)
  /-- A process in a call takes the lock and runs the loop until it ends or sleeps. -/
  | pass (i : ι)
  /-- `kill(pid)` of a process. -/
  | kill (i : ι)

namespace ConsSys

variable {ι : Type} [DecidableEq ι]

/-- The console at boot: the `input` of the kernel's zeroed data, every process idle. -/
def boot : ConsSys ι :=
  ⟨⟨fun _ => 0, 0, 0, 0⟩, fun _ => .idle, fun _ => false, [], [], []⟩

/-- One character of `consoleintr`; the bytes it commits, from the old `w` to the new one,
join the history. -/
def intrChar (σ : ConsSys ι) (c : UInt8) : ConsSys ι :=
  let s' := intr σ.input c
  { σ with
    input := s'
    committed := σ.committed ++ Ring.view s'.buf σ.input.w.toNat (s'.w - σ.input.w).toNat }

/-- The bytes a pass took, from the input `s` before it to `s'` after: the front of the
queue of `s` that the queue of `s'` lacks. -/
def tookBy (s s' : Input) : List UInt8 := s.pending.take (s.pending.length - s'.pending.length)

/-- A pass of `consoleread` by process `i`, in a call for `target` bytes with `n` of them
still wanted and `dst` stored.  A call returns `target - n`, or `-1` if it fails. -/
def readPass (σ : ConsSys ι) (i : ι) (target n : ℕ) (dst : List UInt8) : ConsSys ι :=
  let (e, dst', s') := readLoop (σ.killed i) target n dst σ.input
  let took := tookBy σ.input s'
  let σ' := { σ with input := s', taken := σ.taken ++ took }
  match e with
  | .sleeps m => { σ' with tasks := Function.update σ.tasks i (.reading target m dst') }
  | .failed =>
    { σ' with
      tasks := Function.update σ.tasks i .idle
      returned := σ.returned ++ [⟨i, target, -1, dst', dst ++ took⟩] }
  | .done m =>
    { σ' with
      tasks := Function.update σ.tasks i .idle
      returned := σ.returned ++ [⟨i, target, ((target - m : ℕ) : ℤ), dst', dst ++ took⟩] }

/-- One move. -/
def step (σ : ConsSys ι) : ConsMove ι → ConsSys ι
  | .intr cs => cs.foldl intrChar σ
  | .read i target =>
    if σ.tasks i = .idle then
      { σ with tasks := Function.update σ.tasks i (.reading target target []) }
    else σ
  | .pass i =>
    match σ.tasks i with
    | .idle => σ
    | .reading target n dst => σ.readPass i target n dst
  | .kill i => { σ with killed := Function.update σ.killed i true }

/-- The states that runs from `σ₀` reach, moves in any order and number. -/
def Reachable (σ₀ : ConsSys ι) : ConsSys ι → Prop :=
  Relation.ReflTransGen (fun σ σ' => ∃ m, σ' = σ.step m) σ₀

omit [DecidableEq ι] in
/-- An interrupt's move runs `consoleintr` on the input. -/
lemma input_foldl_intrChar (cs : List UInt8) (σ : ConsSys ι) :
    (cs.foldl intrChar σ).input = consoleintr cs σ.input := by
  induction cs generalizing σ with
  | nil => rfl
  | cons c cs ih => exact ih (σ.intrChar c)

/-! ## The invariant -/

/-- The invariant: the counters are bounded, the bytes taken followed by the pending ones
are the bytes committed, a call in progress has stored no `^D` and wants the bytes it has
not stored, and each call returned what `ConsCall.Delivers` says, and `-1` only to a killed
process. -/
structure Sound (σ : ConsSys ι) : Prop where
  bounded : σ.input.Bounded
  queue : σ.taken ++ σ.input.pending = σ.committed
  tasks : ∀ i target n dst, σ.tasks i = .reading target n dst →
    dst.length + n = target ∧ C 'D' ∉ dst
  calls : ∀ c ∈ σ.returned, c.Delivers ∧ c.bytes.length ≤ c.target ∧
    (c.ret = -1 → σ.killed c.reader = true)

omit [DecidableEq ι] in
lemma sound_boot : (boot : ConsSys ι).Sound := by
  have hb : Input.Bounded ⟨fun _ => 0, 0, 0, 0⟩ := by decide
  have hq : ([] : List UInt8) ++ Input.pending ⟨fun _ => 0, 0, 0, 0⟩ = [] := by decide
  refine ⟨hb, hq, fun i target n dst h => ?_, fun c hc => ?_⟩
  · cases h
  · cases hc

/-! ## One move -/

omit [DecidableEq ι] in
/-- The history of commits only grows, and so does that of the bytes taken. -/
lemma intrChar_history (σ : ConsSys ι) (c : UInt8) :
    σ.committed <+: (σ.intrChar c).committed ∧ (σ.intrChar c).taken = σ.taken :=
  ⟨List.prefix_append _ _, rfl⟩

omit [DecidableEq ι] in
/-- A character keeps the invariant: the bytes it commits join the queue and the history
alike. -/
lemma Sound.intrChar {σ : ConsSys ι} (h : σ.Sound) (c : UInt8) : (σ.intrChar c).Sound := by
  obtain ⟨hb, -, hpending⟩ := intr_spec h.bounded c
  refine ⟨hb, ?_, h.tasks, h.calls⟩
  show σ.taken ++ (intr σ.input c).pending = σ.committed ++ _
  rw [hpending, ← List.append_assoc, h.queue]

omit [DecidableEq ι] in
/-- An interrupt keeps the invariant, and the history of commits only grows.  The induction
is on the characters, with `Sound.intrChar` at each. -/
lemma Sound.foldl_intrChar (cs : List UInt8) {σ : ConsSys ι} (h : σ.Sound) :
    (cs.foldl ConsSys.intrChar σ).Sound ∧ σ.committed <+: (cs.foldl ConsSys.intrChar σ).committed ∧
      (cs.foldl ConsSys.intrChar σ).taken = σ.taken := by
  induction cs generalizing σ with
  | nil => exact ⟨h, List.prefix_refl _, rfl⟩
  | cons c cs ih =>
    obtain ⟨hσ', hcommitted, htaken⟩ := ih (h.intrChar c)
    obtain ⟨hc, htc⟩ := intrChar_history σ c
    exact ⟨hσ', hc.trans hcommitted, htaken.trans htc⟩

/-- The bytes a pass took are those the queue lost at its front. -/
lemma tookBy_eq {s s' : Input} {took : List UInt8} (h : s.pending = took ++ s'.pending) :
    tookBy s s' = took := by
  unfold tookBy
  rw [h, List.length_append, Nat.add_sub_cancel, List.take_left' rfl]

/-- A pass keeps the invariant: the bytes it takes leave the front of the queue for the
history, and a call that ends returns what `readLoop_spec` says it stored. -/
lemma Sound.readPass {σ : ConsSys ι} (h : σ.Sound) {i : ι} {target n : ℕ} {dst : List UInt8}
    (htask : σ.tasks i = .reading target n dst) : (σ.readPass i target n dst).Sound := by
  obtain ⟨hlen, hdst⟩ := h.tasks i target n dst htask
  rcases hloop : readLoop (σ.killed i) target n dst σ.input with ⟨e, dst', s'⟩
  obtain ⟨hb, -, -, -, hcounts, took, hpending, hstores⟩ := readLoop_spec h.bounded hlen hloop
  have htook := tookBy_eq hpending
  -- the queue: what the pass took moves from the front of the queue to the history
  have hqueue : (σ.taken ++ took) ++ s'.pending = σ.committed := by
    rw [List.append_assoc, ← hpending, h.queue]
  -- the bytes stored so far: those taken, none a `^D`, unless the call took a lone `^D`
  have hstored : (dst' = dst ++ took ∧ C 'D' ∉ dst') ∨
      (dst' = [] ∧ dst ++ took = [C 'D'] ∧ ∃ m, e = .done m) := by
    rcases hstores with ⟨rfl, hnotD⟩ | ⟨rfl, rfl, rfl, hdone⟩
    · exact .inl ⟨rfl, by rw [List.mem_append, not_or]; exact ⟨hdst, hnotD⟩⟩
    · exact .inr ⟨rfl, rfl, hdone⟩
  -- the other tasks stay as they were
  have hothers : ∀ t : ConsTask, ∀ j target n dst,
      Function.update σ.tasks i t j = .reading target n dst →
        t = .reading target n dst ∨ σ.tasks j = .reading target n dst := by
    intro t j target n dst hj
    by_cases hji : j = i
    · subst hji
      rw [Function.update_self] at hj
      exact .inl hj
    · rw [Function.update_of_ne hji] at hj
      exact .inr hj
  -- an ended call leaves no task behind it
  have hidle : ∀ j target' n' dst'', Function.update σ.tasks i .idle j = .reading target' n' dst'' →
      dst''.length + n' = target' ∧ C 'D' ∉ dst'' := by
    intro j target' n' dst'' hj
    rcases hothers _ j target' n' dst'' hj with ht | hj'
    · cases ht
    · exact h.tasks j target' n' dst'' hj'
  unfold ConsSys.readPass
  rw [hloop]
  dsimp only
  rw [htook]
  cases e with
  | sleeps m =>
    obtain ⟨hcount, -⟩ := hcounts
    refine ⟨hb, hqueue, fun j target' n' dst'' hj => ?_, h.calls⟩
    rcases hothers _ j target' n' dst'' hj with ht | hj'
    · cases ht
      rcases hstored with ⟨-, hnotD⟩ | ⟨-, -, _, hne⟩
      · exact ⟨hcount, hnotD⟩
      · cases hne
    · exact h.tasks j target' n' dst'' hj'
  | failed =>
    obtain ⟨hkilled, hcount⟩ := hcounts
    refine ⟨hb, hqueue, hidle, fun c hc => ?_⟩
    rcases List.mem_append.mp hc with hc | hc
    · exact h.calls c hc
    · rw [List.mem_singleton] at hc
      subst hc
      rcases hstored with ⟨hdst', hnotD⟩ | ⟨-, -, _, hne⟩
      · exact ⟨.inl ⟨hdst'.symm, hnotD, .inr rfl⟩, Nat.le_of_lt hcount, fun _ => hkilled⟩
      · cases hne
  | done m =>
    refine ⟨hb, hqueue, hidle, fun c hc => ?_⟩
    rcases List.mem_append.mp hc with hc | hc
    · exact h.calls c hc
    · rw [List.mem_singleton] at hc
      subst hc
      -- the call returns `target - m`, the number of bytes it stored
      have hcount : dst'.length + m = target := hcounts
      have hret : ((target - m : ℕ) : ℤ) = dst'.length := by omega
      have hle : dst'.length ≤ target := by omega
      refine ⟨?_, hle, fun hneg => ?_⟩
      · rcases hstored with ⟨hdst', hnotD⟩ | ⟨hnil, htook', -⟩
        · exact .inl ⟨hdst'.symm, hnotD, .inl hret⟩
        · subst hnil
          exact .inr ⟨htook', rfl, hret⟩
      · -- a count is never `-1`
        show σ.killed i = true
        have : ((target - m : ℕ) : ℤ) = -1 := hneg
        omega

/-- A pass leaves the history of commits alone and adds to that of the bytes taken. -/
lemma readPass_history (σ : ConsSys ι) (i : ι) (target n : ℕ) (dst : List UInt8) :
    (σ.readPass i target n dst).committed = σ.committed ∧
      σ.taken <+: (σ.readPass i target n dst).taken := by
  unfold ConsSys.readPass
  rcases readLoop (σ.killed i) target n dst σ.input with ⟨e, dst', s'⟩
  dsimp only
  cases e <;> exact ⟨rfl, List.prefix_append _ _⟩

/-- Every move keeps the invariant, and neither history loses a byte. -/
theorem Sound.step {σ : ConsSys ι} (h : σ.Sound) (m : ConsMove ι) :
    (σ.step m).Sound ∧ σ.committed <+: (σ.step m).committed ∧ σ.taken <+: (σ.step m).taken := by
  cases m with
  | intr cs =>
    obtain ⟨hs, hc, ht⟩ := h.foldl_intrChar cs
    exact ⟨hs, hc, ht ▸ List.prefix_refl _⟩
  | read i target =>
    dsimp only [ConsSys.step]
    split_ifs with hidle
    · -- the new call has stored nothing and wants all its bytes
      refine ⟨⟨h.bounded, h.queue, fun j target' n' dst hj => ?_, h.calls⟩, List.prefix_refl _,
        List.prefix_refl _⟩
      dsimp only at hj
      by_cases hji : j = i
      · subst hji
        rw [Function.update_self] at hj
        cases hj
        exact ⟨Nat.zero_add target, List.not_mem_nil⟩
      · rw [Function.update_of_ne hji] at hj
        exact h.tasks j _ _ _ hj
    · exact ⟨h, List.prefix_refl _, List.prefix_refl _⟩
  | pass i =>
    dsimp only [ConsSys.step]
    split
    · exact ⟨h, List.prefix_refl _, List.prefix_refl _⟩
    · rename_i target n dst htask
      obtain ⟨hc, ht⟩ := readPass_history σ i target n dst
      exact ⟨h.readPass htask, hc ▸ List.prefix_refl _, ht⟩
  | kill i =>
    refine ⟨⟨h.bounded, h.queue, h.tasks, fun c hc => ?_⟩, List.prefix_refl _, List.prefix_refl _⟩
    obtain ⟨hd, hle, hk⟩ := h.calls c hc
    refine ⟨hd, hle, fun hneg => ?_⟩
    -- a process once killed stays killed
    show Function.update σ.killed i true c.reader = true
    by_cases hci : c.reader = i
    · rw [hci, Function.update_self]
    · rw [Function.update_of_ne hci]
      exact hk hneg

/-- Every run from a state with the invariant keeps it, and the histories only grow.  The
induction is on the run. -/
theorem Sound.reachable {σ₀ σ : ConsSys ι} (h₀ : σ₀.Sound) (h : Reachable σ₀ σ) :
    σ.Sound ∧ σ₀.committed <+: σ.committed ∧ σ₀.taken <+: σ.taken := by
  induction h with
  | refl => exact ⟨h₀, List.prefix_refl _, List.prefix_refl _⟩
  | tail _ hmove ih =>
    obtain ⟨m, rfl⟩ := hmove
    obtain ⟨hs, hc, ht⟩ := ih
    obtain ⟨hs', hc', ht'⟩ := hs.step m
    exact ⟨hs', hc.trans hc', ht.trans ht'⟩

/-! ## Runs -/

/-- In every state that a run reaches from a sound one, with interrupts and calls of
`consoleread` by any processes in any order: `w - r <= e - r <= INPUT_BUF` as `uint`s; what
was committed stays committed, in order; the bytes taken by the reads, in order, followed
by the committed bytes not yet taken, are the committed bytes in the order of their commits;
and every call that returned either returned the bytes it took, none of them a `^D`, with
their number or, for a killed process only, `-1`, or took a lone `^D` as its first byte and
returned `0`. -/
theorem console_of_reachable {σ₀ σ : ConsSys ι} (h₀ : σ₀.Sound) (h : Reachable σ₀ σ) :
    ((σ.input.w - σ.input.r).toNat ≤ (σ.input.e - σ.input.r).toNat ∧
        (σ.input.e - σ.input.r).toNat ≤ INPUT_BUF) ∧
      σ₀.committed <+: σ.committed ∧ σ.committed = σ.taken ++ σ.input.pending ∧
      ∀ c ∈ σ.returned, c.Delivers ∧ c.bytes.length ≤ c.target ∧
        (c.ret = -1 → σ.killed c.reader = true) := by
  obtain ⟨hs, hc, -⟩ := h₀.reachable h
  exact ⟨hs.bounded, hc, hs.queue.symm, hs.calls⟩

/-- The one process of the runs below is `Fin 1`; its numeral takes this instance. -/
theorem neZero_one : NeZero (1 : ℕ) := ⟨by decide⟩

attribute [local instance] neZero_one

/-- An empty input whose counters are two bytes short of `2^32`, with one idle process. -/
def nearWrap : ConsSys (Fin 1) :=
  ⟨⟨fun _ => 0, 0xFFFFFFFE, 0xFFFFFFFE, 0xFFFFFFFE⟩, fun _ => .idle, fun _ => false, [], [], []⟩

/-- The keys `a`, `b`, return and `^D` across the wrap of the counters, and two calls of
`consoleread` for ten bytes: the first returns the line, the second the end of file. -/
def wrapRun : ConsSys (Fin 1) :=
  ((((nearWrap.step (.intr [97, 98, 13, C 'D'])).step (.read 0 10)).step (.pass 0)).step
    (.read 0 10)).step (.pass 0)

/-- After the boot, the keys `h`, `i` and return, and a call of `consoleread` for ten bytes,
which returns the line. -/
def bootRun : ConsSys (Fin 1) :=
  (((boot.step (.intr [104, 105, 13])).step (.read 0 10)).step (.pass 0))

/-- `console_of_reachable` from the boot, and across the wrap of the counters. -/
theorem console_of_reachable_bootAndWrap :
    (Reachable boot bootRun ∧ bootRun.returned = [⟨0, 10, 3, [104, 105, 10], [104, 105, 10]⟩] ∧
      (((bootRun.input.w - bootRun.input.r).toNat ≤ (bootRun.input.e - bootRun.input.r).toNat ∧
          (bootRun.input.e - bootRun.input.r).toNat ≤ INPUT_BUF) ∧
        (boot : ConsSys (Fin 1)).committed <+: bootRun.committed ∧
        bootRun.committed = bootRun.taken ++ bootRun.input.pending ∧
        ∀ c ∈ bootRun.returned, c.Delivers ∧ c.bytes.length ≤ c.target ∧
          (c.ret = -1 → bootRun.killed c.reader = true))) ∧
    (nearWrap.Sound ∧ Reachable nearWrap wrapRun ∧
      wrapRun.returned = [⟨0, 10, 3, [97, 98, 10], [97, 98, 10]⟩, ⟨0, 10, 0, [], [C 'D']⟩] ∧
      (((wrapRun.input.w - wrapRun.input.r).toNat ≤ (wrapRun.input.e - wrapRun.input.r).toNat ∧
          (wrapRun.input.e - wrapRun.input.r).toNat ≤ INPUT_BUF) ∧
        nearWrap.committed <+: wrapRun.committed ∧
        wrapRun.committed = wrapRun.taken ++ wrapRun.input.pending ∧
        ∀ c ∈ wrapRun.returned, c.Delivers ∧ c.bytes.length ≤ c.target ∧
          (c.ret = -1 → wrapRun.killed c.reader = true))) := by
  have hboot : Reachable boot bootRun :=
    .tail (.tail (.tail .refl ⟨.intr [104, 105, 13], rfl⟩) ⟨.read 0 10, rfl⟩) ⟨.pass 0, rfl⟩
  have hsound : nearWrap.Sound := by
    refine ⟨by decide, by decide, fun i target n dst h => ?_, fun c hc => ?_⟩
    · cases h
    · cases hc
  have hreach : Reachable nearWrap wrapRun :=
    .tail (.tail (.tail (.tail (.tail .refl ⟨.intr [97, 98, 13, C 'D'], rfl⟩) ⟨.read 0 10, rfl⟩)
      ⟨.pass 0, rfl⟩) ⟨.read 0 10, rfl⟩) ⟨.pass 0, rfl⟩
  exact ⟨⟨hboot, by decide, console_of_reachable sound_boot hboot⟩,
    ⟨hsound, hreach, by decide, console_of_reachable hsound hreach⟩⟩

/-- A process reads after a full line of `INPUT_BUF` bytes without a newline was typed: it
takes them all and sleeps for more, is killed, and returns `-1`. -/
def lossRun : ConsSys (Fin 1) :=
  ((((boot.step (.intr (List.replicate INPUT_BUF 97))).step (.read 0 200)).step (.pass 0)).step
    (.kill 0)).step (.pass 0)

/-- The bytes of a full buffer committed at boot are never returned: the one call that took
them returned `-1`, and they are no longer pending, so no later call takes them. -/
theorem console_killed_read_loses_bytes :
    Reachable boot lossRun ∧ lossRun.committed = List.replicate INPUT_BUF 97 ∧
      lossRun.taken = lossRun.committed ∧ lossRun.input.pending = [] ∧
      lossRun.returned.map ConsCall.ret = [-1] := by
  have hreach : Reachable boot lossRun :=
    .tail (.tail (.tail (.tail (.tail .refl ⟨.intr (List.replicate INPUT_BUF 97), rfl⟩)
      ⟨.read 0 200, rfl⟩) ⟨.pass 0, rfl⟩) ⟨.kill 0, rfl⟩) ⟨.pass 0, rfl⟩
  exact ⟨hreach, by decide +kernel⟩

end ConsSys

end Xv6
