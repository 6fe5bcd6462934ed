import Xv6.Log.Defs
import Mathlib.Data.Fintype.Card

/-!
# The log under concurrent file-system calls

The functions of log.c run inside a machine with any number of processes and a buffer
cache.  This file puts them together as one executable step function: a process begins
an operation (`begin_op`, which may have to sleep), writes a home block (it modifies the
buffer and calls `log_write`), or ends its operation (`end_op`, whose last call commits);
the cache reads a block in or recycles a clean buffer (`bget` never recycles a buffer
marked `B_DIRTY`); and a stopped machine boots (`initlog` runs `recover_from_log`).

Each process's place in its code is part of the state: `ops p` is `some bs` while `p` is
between its `begin_op` and its `end_op`, `bs` being the distinct blocks it has passed to
`log_write`.  A machine that loses power keeps only its disk; `Reachable` closes the
boots of any disk under the steps and under a power loss after any prefix of a step's
sector writes.
-/

namespace Xv6.FsLog

/-- A cached copy of a home block: the buffer's data and its `B_DIRTY` flag. -/
structure Buf (α : Type*) where
  data : α
  dirty : Bool

/-- The file-system machine, for processes `ι` and block contents `α`. -/
structure Machine (ι α : Type*) where
  /-- The disk. -/
  disk : Disk α
  /-- The global `struct log`. -/
  log : Log
  /-- The buffer cache, by home block number. -/
  cache : ℕ → Option (Buf α)
  /-- For each process: inside an operation, with the distinct blocks it has logged. -/
  ops : ι → Option (List ℕ)
  /-- The machine is running (it has booted since its last power loss). -/
  up : Bool

/-- The actions of the machine. -/
inductive Act (ι α : Type*) where
  /-- Process `p` calls `begin_op`. -/
  | beginOp (p : ι)
  /-- Process `p` sets the data of block `b` to `v` and calls `log_write`. -/
  | logWrite (p : ι) (b : ℕ) (v : α)
  /-- Process `p` calls `end_op`. -/
  | endOp (p : ι)
  /-- `bread` brings block `b` into the cache. -/
  | bread (b : ℕ)
  /-- `bget` recycles the buffer of block `b`. -/
  | evict (b : ℕ)
  /-- The stopped machine boots: `initlog` and `recover_from_log`. -/
  | recover

/-- What one action does: it cannot run now, it panics, or it issues some sector writes
and leaves a new machine. -/
inductive Result (ι α : Type*) where
  | blocked
  | panic (msg : String)
  | next (ws : List (DWrite α)) (m : Machine ι α)

/-- The in-memory header of a freshly booted kernel (`struct log` is zeroed). -/
def LogHeader.zero : LogHeader := ⟨0, fun _ => 0⟩

/-- The disk after a boot's recovery. -/
def recovered {α : Type*} (d : Disk α) : Disk α :=
  d.writes (recoverFromLog LogHeader.zero d).2

/-- The home blocks that survive a power loss: the home blocks after recovery. -/
def durable {α : Type*} (d : Disk α) : ℕ → α :=
  (recovered d).home

variable {ι α : Type*} [DecidableEq ι]

namespace Machine

/-- What `bread` of home block `b` returns: the cached copy, else the disk block. -/
def view (m : Machine ι α) (b : ℕ) : α :=
  match m.cache b with
  | some buf => buf.data
  | none => m.disk.home b

/-- The machine after a power loss that left the disk `d`: only the disk survives. -/
def crashed (size : ℕ) (d : Disk α) : Machine ι α where
  disk := d
  log := { size := size, outstanding := 0, committing := false, lh := LogHeader.zero }
  cache := fun _ => none
  ops := fun _ => none
  up := false

/-- The cache after `install_trans`: each installed block's buffer holds the log data and
is clean (`bwrite` cleared `B_DIRTY`). -/
def installCache (lh : LogHeader) (log : ℕ → α) (cache : ℕ → Option (Buf α)) :
    ℕ → Option (Buf α) :=
  Replay.updates cache ((installPairs lh log).map fun p => (p.1, some ⟨p.2, false⟩))

/-- The machine after the boot of a stopped machine. -/
def boot (m : Machine ι α) : Machine ι α :=
  let lh₁ := readHead m.log.lh m.disk
  { m with
    disk := m.disk.writes (recoverFromLog m.log.lh m.disk).2
    log := { m.log with lh := (recoverFromLog m.log.lh m.disk).1 }
    cache := installCache lh₁ m.disk.log m.cache
    up := true }

/-- The machine after the `end_op` of `p` that commits, from the log `lg` that `end_op`
left before calling `commit`. -/
def committed (m : Machine ι α) (lg : Log) (p : ι) : Machine ι α :=
  let d₂ := (m.disk.writes (writeLog lg.lh m.view)).write
    (writeHead lg.lh (m.disk.writes (writeLog lg.lh m.view)))
  { m with
    disk := m.disk.writes (commit lg.lh m.view m.disk)
    log := afterCommit lg
    cache := if 0 < lg.lh.n then installCache lg.lh d₂.log m.cache else m.cache
    ops := Function.update m.ops p none }

end Machine

open Machine

/-- One action of the machine. -/
def step (m : Machine ι α) : Act ι α → Result ι α
  | .beginOp p =>
    match m.up, m.ops p with
    | true, none =>
      match beginOp m.log with
      | some lg => .next [] { m with log := lg, ops := Function.update m.ops p (some []) }
      | none => .blocked
    | _, _ => .blocked
  | .logWrite p b v =>
    match m.up, m.ops p with
    | true, some bs =>
      match logWrite m.log b with
      | .ok lg => .next [] { m with
          log := lg
          cache := Function.update m.cache b (some ⟨v, true⟩)
          ops := Function.update m.ops p (some (bs.insert b)) }
      | .error msg => .panic msg
    | _, _ => .blocked
  | .endOp p =>
    match m.up, m.ops p with
    | true, some _ =>
      match endOp m.log with
      | .ok (lg, false) => .next [] { m with log := lg, ops := Function.update m.ops p none }
      | .ok (lg, true) => .next (commit lg.lh m.view m.disk) (m.committed lg p)
      | .error msg => .panic msg
    | _, _ => .blocked
  | .bread b =>
    match m.up, m.cache b with
    | true, none => .next [] { m with
        cache := Function.update m.cache b (some ⟨m.disk.home b, false⟩) }
    | _, _ => .blocked
  | .evict b =>
    match m.up, m.cache b with
    | true, some ⟨_, false⟩ => .next [] { m with cache := Function.update m.cache b none }
    | _, _ => .blocked
  | .recover =>
    match m.up with
    | false => .next (recoverFromLog m.log.lh m.disk).2 m.boot
    | true => .blocked

/-! ## What one action does -/

section Inversion

variable {m m' : Machine ι α} {ws : List (DWrite α)}

lemma step_beginOp_inv {p : ι} (h : step m (.beginOp p) = .next ws m') :
    m.up = true ∧ m.ops p = none ∧ ws = [] ∧ ∃ lg, beginOp m.log = some lg ∧
      m' = { m with log := lg, ops := Function.update m.ops p (some []) } := by
  cases hup : m.up <;> cases hp : m.ops p <;> simp only [step, hup, hp, reduceCtorEq] at h
  cases hb : beginOp m.log with
  | none => simp [hb] at h
  | some lg =>
    simp only [hb, Result.next.injEq] at h
    obtain ⟨rfl, rfl⟩ := h
    exact ⟨rfl, rfl, rfl, lg, rfl, rfl⟩

lemma step_logWrite_inv {p : ι} {b : ℕ} {v : α} (h : step m (.logWrite p b v) = .next ws m') :
    m.up = true ∧ ∃ bs lg, m.ops p = some bs ∧ logWrite m.log b = .ok lg ∧ ws = [] ∧
      m' = { m with
        log := lg
        cache := Function.update m.cache b (some ⟨v, true⟩)
        ops := Function.update m.ops p (some (bs.insert b)) } := by
  cases hup : m.up <;> cases hp : m.ops p <;> simp only [step, hup, hp, reduceCtorEq] at h
  rename_i bs
  cases hw : logWrite m.log b with
  | error msg => simp [hw] at h
  | ok lg =>
    simp only [hw, Result.next.injEq] at h
    obtain ⟨rfl, rfl⟩ := h
    exact ⟨rfl, bs, lg, rfl, rfl, rfl, rfl⟩

lemma step_endOp_inv {p : ι} (h : step m (.endOp p) = .next ws m') :
    m.up = true ∧ (∃ bs, m.ops p = some bs) ∧
      ((∃ lg, endOp m.log = .ok (lg, false) ∧ ws = [] ∧
          m' = { m with log := lg, ops := Function.update m.ops p none }) ∨
        (∃ lg, endOp m.log = .ok (lg, true) ∧ ws = commit lg.lh m.view m.disk ∧
          m' = m.committed lg p)) := by
  cases hup : m.up <;> cases hp : m.ops p <;> simp only [step, hup, hp, reduceCtorEq] at h
  rename_i bs
  rcases he : endOp m.log with msg | ⟨lg, _ | _⟩
  · simp [he] at h
  · simp only [he, Result.next.injEq] at h
    obtain ⟨rfl, rfl⟩ := h
    exact ⟨rfl, ⟨bs, rfl⟩, Or.inl ⟨lg, rfl, rfl, rfl⟩⟩
  · simp only [he, Result.next.injEq] at h
    obtain ⟨rfl, rfl⟩ := h
    exact ⟨rfl, ⟨bs, rfl⟩, Or.inr ⟨lg, rfl, rfl, rfl⟩⟩

lemma step_bread_inv {b : ℕ} (h : step m (.bread b) = .next ws m') :
    m.up = true ∧ m.cache b = none ∧ ws = [] ∧
      m' = { m with cache := Function.update m.cache b (some ⟨m.disk.home b, false⟩) } := by
  cases hup : m.up <;> cases hc : m.cache b <;> simp only [step, hup, hc, reduceCtorEq] at h
  simp only [Result.next.injEq] at h
  obtain ⟨rfl, rfl⟩ := h
  exact ⟨rfl, rfl, rfl, rfl⟩

lemma step_evict_inv {b : ℕ} (h : step m (.evict b) = .next ws m') :
    m.up = true ∧ (∃ v, m.cache b = some ⟨v, false⟩) ∧ ws = [] ∧
      m' = { m with cache := Function.update m.cache b none } := by
  rcases hc : m.cache b with _ | ⟨v, _ | _⟩ <;> cases hup : m.up <;>
    simp only [step, hup, hc, reduceCtorEq] at h
  simp only [Result.next.injEq] at h
  obtain ⟨rfl, rfl⟩ := h
  exact ⟨rfl, ⟨v, rfl⟩, rfl, rfl⟩

lemma step_recover_inv (h : step m .recover = .next ws m') :
    m.up = false ∧ ws = (recoverFromLog m.log.lh m.disk).2 ∧ m' = m.boot := by
  cases hup : m.up <;> simp only [step, hup, reduceCtorEq] at h
  simp only [Result.next.injEq] at h
  obtain ⟨rfl, rfl⟩ := h
  exact ⟨rfl, rfl, rfl⟩

end Inversion

/-- The machines reachable from a boot of any disk with a log of `size` blocks, through
the actions that `adm` admits, and through power losses: after any prefix of the sector
writes of an action, or between actions. -/
inductive Reachable (size : ℕ) (adm : Machine ι α → Act ι α → Prop) : Machine ι α → Prop
  | boot (d : Disk α) : Reachable size adm (crashed size d)
  | step {m m' : Machine ι α} {a : Act ι α} {ws : List (DWrite α)} :
      Reachable size adm m → adm m a → step m a = .next ws m' → Reachable size adm m'
  | crash {m m' : Machine ι α} {a : Act ι α} {ws : List (DWrite α)} (k : ℕ) :
      Reachable size adm m → adm m a → step m a = .next ws m' →
      Reachable size adm (crashed size (m.disk.writes (ws.take k)))

/-- Run the actions in order, each from the machine the previous one left, while `adm`
admits them: `none` as soon as one is not admitted or cannot run. -/
def runActs (adm : Machine ι α → Act ι α → Bool) (m : Machine ι α) :
    List (Act ι α) → Option (Machine ι α)
  | [] => some m
  | a :: as =>
    if adm m a then
      match step m a with
      | .next _ m' => runActs adm m' as
      | _ => none
    else none

/-- A run of admitted actions from a reachable machine ends in a reachable machine. -/
lemma Reachable.runActs {size : ℕ} {adm : Machine ι α → Act ι α → Bool} {m m' : Machine ι α}
    {acts : List (Act ι α)} (hr : Reachable size (fun m a => adm m a = true) m)
    (h : FsLog.runActs adm m acts = some m') : Reachable size (fun m a => adm m a = true) m' := by
  induction acts generalizing m with
  | nil =>
    cases h
    exact hr
  | cons a as ih =>
    simp only [FsLog.runActs] at h
    split_ifs at h with hadm
    split at h
    · exact ih (hr.step hadm ‹_›) h
    · cases h

/-- No step changes the log's size. -/
lemma step_log_size {m m' : Machine ι α} {a : Act ι α} {ws : List (DWrite α)}
    (hs : step m a = .next ws m') : m'.log.size = m.log.size := by
  cases a with
  | beginOp p =>
    obtain ⟨-, -, -, lg, hb, rfl⟩ := step_beginOp_inv hs
    obtain ⟨-, -, rfl⟩ := beginOp_eq_some hb
    rfl
  | logWrite p b v =>
    obtain ⟨-, bs, lg, -, hw, -, rfl⟩ := step_logWrite_inv hs
    obtain ⟨-, -, -, rfl⟩ := logWrite_eq_ok hw
    rfl
  | endOp p =>
    obtain ⟨-, -, ⟨lg, he, -, rfl⟩ | ⟨lg, he, -, rfl⟩⟩ := step_endOp_inv hs <;>
      obtain ⟨-, -, rfl⟩ := endOp_eq_ok he <;> rfl
  | bread b => obtain ⟨-, -, -, rfl⟩ := step_bread_inv hs; rfl
  | evict b => obtain ⟨-, -, -, rfl⟩ := step_evict_inv hs; rfl
  | recover => obtain ⟨-, -, rfl⟩ := step_recover_inv hs; rfl

lemma log_size_of_reachable {size : ℕ} {adm : Machine ι α → Act ι α → Prop} {m : Machine ι α}
    (hr : Reachable size adm m) : m.log.size = size := by
  induction hr with
  | boot d => rfl
  | step _ _ hs ih => rw [step_log_size hs, ih]
  | crash k _ _ _ _ => rfl

end Xv6.FsLog
