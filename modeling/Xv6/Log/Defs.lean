import Xv6.Lib.Replay

/-!
# The on-disk log (log.c)

The file system's crash safety rests on a physical redo log: a system call brackets its
block writes with `begin_op` and `end_op`, each write goes through `log_write`, which only
records the block number in the in-memory header and pins the buffer, and the last
`end_op` of a group commits: `write_log` copies the cached blocks into the log area,
`write_head` writes the header (the commit point), `install_trans` copies the log to the
home blocks, and a second `write_head` clears the header.  After a crash,
`recover_from_log` replays a committed header.

This file translates log.c.  The disk is seen as three regions: the header block at
`log.start`, the log blocks `log.start + 1 + i`, and the home blocks, which the file
system's operations write and which lie outside the log region.  Every function that
writes the disk returns the list of single-sector writes it issues, in order, each
computed from the disk as the earlier writes left it; a crash can stop that list
anywhere.
-/

namespace Xv6.FsLog

/-- `MAXOPBLOCKS` (param.h): the most blocks one file-system operation writes. -/
def MAXOPBLOCKS : ℕ := 10

/-- `LOGSIZE` (param.h): the size of the log that `begin_op` reserves against. -/
def LOGSIZE : ℕ := MAXOPBLOCKS * 3

/-- `struct logheader`: the number of logged blocks and their home block numbers. -/
@[ext] structure LogHeader where
  /-- `n`: how many entries of `block` are in use. -/
  n : ℕ
  /-- `block[LOGSIZE]`: the home block number of each log slot. -/
  block : ℕ → ℕ

/-- The disk as the log sees it. -/
@[ext] structure Disk (α : Type*) where
  /-- The header block `log.start`, decoded as `read_head` decodes it. -/
  head : LogHeader
  /-- The log block `log.start + 1 + i`, for slot `i`. -/
  log : ℕ → α
  /-- The home blocks of the file system. -/
  home : ℕ → α

/-- One single-sector write issued through `bwrite`. -/
inductive DWrite (α : Type*) where
  | head (h : LogHeader)
  | log (i : ℕ) (v : α)
  | home (b : ℕ) (v : α)

variable {α : Type*}

namespace Disk

/-- The effect of one sector write. -/
def write (d : Disk α) : DWrite α → Disk α
  | .head h => { d with head := h }
  | .log i v => { d with log := Function.update d.log i v }
  | .home b v => { d with home := Function.update d.home b v }

/-- The disk after a list of sector writes. -/
def writes (d : Disk α) (ws : List (DWrite α)) : Disk α :=
  Replay.replay write d ws

@[simp] lemma write_head_head (d : Disk α) (h : LogHeader) : (d.write (.head h)).head = h := rfl
@[simp] lemma write_head_log (d : Disk α) (h : LogHeader) : (d.write (.head h)).log = d.log := rfl
@[simp] lemma write_head_home (d : Disk α) (h : LogHeader) :
    (d.write (.head h)).home = d.home := rfl
@[simp] lemma write_log_head (d : Disk α) (i : ℕ) (v : α) :
    (d.write (.log i v)).head = d.head := rfl
@[simp] lemma write_log_log (d : Disk α) (i : ℕ) (v : α) :
    (d.write (.log i v)).log = Function.update d.log i v := rfl
@[simp] lemma write_log_home (d : Disk α) (i : ℕ) (v : α) :
    (d.write (.log i v)).home = d.home := rfl
@[simp] lemma write_home_head (d : Disk α) (b : ℕ) (v : α) :
    (d.write (.home b v)).head = d.head := rfl
@[simp] lemma write_home_log (d : Disk α) (b : ℕ) (v : α) :
    (d.write (.home b v)).log = d.log := rfl
@[simp] lemma write_home_home (d : Disk α) (b : ℕ) (v : α) :
    (d.write (.home b v)).home = Function.update d.home b v := rfl

@[simp] lemma writes_nil (d : Disk α) : d.writes [] = d := rfl

@[simp] lemma writes_cons (d : Disk α) (w : DWrite α) (ws : List (DWrite α)) :
    d.writes (w :: ws) = (d.write w).writes ws := rfl

lemma writes_append (d : Disk α) (xs ys : List (DWrite α)) :
    d.writes (xs ++ ys) = (d.writes xs).writes ys :=
  Replay.replay_append _ d xs ys

/-- Home-block writes change only the home blocks, as `updates` of their pairs. -/
lemma writes_map_home (d : Disk α) (l : List (ℕ × α)) :
    d.writes (l.map fun p => .home p.1 p.2) = { d with home := Replay.updates d.home l } := by
  induction l generalizing d with
  | nil => rfl
  | cons p l ih => exact ih (d.write (.home p.1 p.2))

/-- Log-block writes change only the log blocks. -/
lemma writes_map_log (d : Disk α) (l : List (ℕ × α)) :
    d.writes (l.map fun p => .log p.1 p.2) = { d with log := Replay.updates d.log l } := by
  induction l generalizing d with
  | nil => rfl
  | cons p l ih => exact ih (d.write (.log p.1 p.2))

end Disk

/-- `struct log`, less its lock and the fields that name the device and the log's place on
it. -/
structure Log where
  /-- `size`: the number of log blocks, header included, read from the superblock. -/
  size : ℕ
  /-- `outstanding`: how many file-system calls are executing. -/
  outstanding : ℕ
  /-- `committing`: `commit` is running; `begin_op` must wait. -/
  committing : Bool
  /-- `lh`: the in-memory header of the current transaction. -/
  lh : LogHeader

/-! ## The functions of log.c -/

/-- The pairs (home block, log slot contents) that `install_trans` copies: slot `tail`
goes to `lh.block[tail]`, for `tail < lh.n`. -/
def installPairs (lh : LogHeader) (log : ℕ → α) : List (ℕ × α) :=
  (List.range lh.n).map fun tail => (lh.block tail, log tail)

/-- `install_trans`: copy each committed log block to its home location. -/
def installTrans (lh : LogHeader) (d : Disk α) : List (DWrite α) :=
  (installPairs lh d.log).map fun p => .home p.1 p.2

/-- `read_head`: the in-memory header after reading the on-disk one.  Only the first `n`
entries are copied; the others keep their in-memory values. -/
def readHead (lh : LogHeader) (d : Disk α) : LogHeader :=
  { n := d.head.n, block := fun i => if i < d.head.n then d.head.block i else lh.block i }

/-- `write_head`: the header block after copying the in-memory header into it.  Only the
first `n` entries are written; the block keeps its other entries. -/
def writeHead (lh : LogHeader) (d : Disk α) : DWrite α :=
  .head { n := lh.n, block := fun i => if i < lh.n then lh.block i else d.head.block i }

/-- The header block after `write_head`. -/
lemma write_writeHead (lh : LogHeader) (d : Disk α) :
    d.write (writeHead lh d) =
      { d with head := ⟨lh.n, fun i => if i < lh.n then lh.block i else d.head.block i⟩ } :=
  rfl

/-- `write_log`: copy each logged block, as the cache holds it, into its log slot. -/
def writeLog (lh : LogHeader) (cached : ℕ → α) : List (DWrite α) :=
  (List.range lh.n).map fun tail => .log tail (cached (lh.block tail))

/-- `commit`: the sector writes of a commit, each phase computed from the disk that the
earlier phases left.  A transaction with no logged block writes nothing. -/
def commit (lh : LogHeader) (cached : ℕ → α) (d : Disk α) : List (DWrite α) :=
  if 0 < lh.n then
    let d₁ := d.writes (writeLog lh cached)
    let d₂ := d₁.write (writeHead lh d₁)
    let d₃ := d₂.writes (installTrans lh d₂)
    writeLog lh cached ++ [writeHead lh d₁] ++ installTrans lh d₂ ++
      [writeHead { lh with n := 0 } d₃]
  else []

/-- `recover_from_log`: the in-memory header it leaves and the sector writes it issues
(`read_head`, `install_trans`, `log.lh.n = 0`, `write_head`). -/
def recoverFromLog (lh : LogHeader) (d : Disk α) : LogHeader × List (DWrite α) :=
  let lh₁ := readHead lh d
  let d₁ := d.writes (installTrans lh₁ d)
  ({ lh₁ with n := 0 }, installTrans lh₁ d ++ [writeHead { lh₁ with n := 0 } d₁])

/-- `begin_op`: `none` while the call must sleep (a commit is running, or the log might
run out of space), and the log with one more outstanding call once it may go on. -/
def beginOp (lg : Log) : Option Log :=
  if lg.committing then none
  else if lg.lh.n + (lg.outstanding + 1) * MAXOPBLOCKS > LOGSIZE then none
  else some { lg with outstanding := lg.outstanding + 1 }

/-- The slot `log_write` uses for block `b`: the first slot below `n` that already holds
`b` (log absorption), else slot `n`. -/
def absorbSlot (lh : LogHeader) (b : ℕ) : ℕ :=
  ((List.range lh.n).find? fun i => lh.block i = b).getD lh.n

/-- `log_write`: record block `b` in the in-memory header, or panic. -/
def logWrite (lg : Log) (b : ℕ) : Except String Log :=
  if lg.lh.n ≥ LOGSIZE ∨ lg.lh.n ≥ lg.size - 1 then .error "too big a transaction"
  else if lg.outstanding < 1 then .error "log_write outside of trans"
  else
    let i := absorbSlot lg.lh b
    .ok { lg with lh := { n := if i = lg.lh.n then lg.lh.n + 1 else lg.lh.n,
                          block := Function.update lg.lh.block i b } }

/-- The home blocks that the header `lh` names, slot by slot. -/
def logged (lh : LogHeader) : List ℕ :=
  (List.range lh.n).map lh.block

/-- `end_op` up to its commit: the log after the call, and `do_commit`. -/
def endOp (lg : Log) : Except String (Log × Bool) :=
  let lg₁ := { lg with outstanding := lg.outstanding - 1 }
  if lg₁.committing then .error "log.committing"
  else if lg₁.outstanding = 0 then .ok ({ lg₁ with committing := true }, true)
  else .ok (lg₁, false)

/-- The log once `end_op`'s commit is over: `commit` cleared the header and `end_op`
cleared `committing`. -/
def afterCommit (lg : Log) : Log :=
  { lg with lh := { lg.lh with n := 0 }, committing := false }

/-! ## What the functions do -/

lemma mem_logged {lh : LogHeader} {b : ℕ} : b ∈ logged lh ↔ ∃ t < lh.n, lh.block t = b := by
  simp [logged]

lemma beginOp_eq_some {lg lg' : Log} (h : beginOp lg = some lg') :
    lg.committing = false ∧ lg.lh.n + (lg.outstanding + 1) * MAXOPBLOCKS ≤ LOGSIZE ∧
      lg' = { lg with outstanding := lg.outstanding + 1 } := by
  unfold beginOp at h
  split at h
  · cases h
  · split at h
    · cases h
    · refine ⟨by simpa using ‹¬lg.committing = true›, by omega, ?_⟩
      exact (Option.some.inj h).symm

/-- An absorbed block keeps its slot. -/
lemma absorbSlot_of_mem {lh : LogHeader} {b : ℕ} (h : b ∈ logged lh) :
    absorbSlot lh b < lh.n ∧ lh.block (absorbSlot lh b) = b := by
  obtain ⟨t, ht, htb⟩ := Iff.mp mem_logged h
  have hfind : ((List.range lh.n).find? fun i => lh.block i = b).isSome := by
    rw [List.find?_isSome]
    exact ⟨t, List.mem_range.mpr ht, by simpa using htb⟩
  obtain ⟨i, hi⟩ := Option.isSome_iff_exists.mp hfind
  have hmem := List.mem_of_find?_eq_some hi
  have hp := List.find?_some hi
  simp only [absorbSlot, hi, Option.getD_some]
  exact ⟨List.mem_range.mp hmem, by simpa using hp⟩

/-- A new block takes the first free slot. -/
lemma absorbSlot_of_not_mem {lh : LogHeader} {b : ℕ} (h : b ∉ logged lh) :
    absorbSlot lh b = lh.n := by
  have hnone : ((List.range lh.n).find? fun i => lh.block i = b) = none := by
    rw [List.find?_eq_none]
    intro t ht htb
    exact h (Iff.mpr mem_logged ⟨t, List.mem_range.mp ht, by simpa using htb⟩)
  simp [absorbSlot, hnone]

/-- The header that `log_write` leaves for block `b`. -/
def LogHeader.absorb (lh : LogHeader) (b : ℕ) : LogHeader :=
  { n := if absorbSlot lh b = lh.n then lh.n + 1 else lh.n,
    block := Function.update lh.block (absorbSlot lh b) b }

/-- Logging a block already in the header changes nothing. -/
lemma absorb_of_mem {lh : LogHeader} {b : ℕ} (h : b ∈ logged lh) : lh.absorb b = lh := by
  obtain ⟨hlt, hblock⟩ := absorbSlot_of_mem h
  ext i
  · simp [LogHeader.absorb, Nat.ne_of_lt hlt]
  · have hupd : Function.update lh.block (absorbSlot lh b) b = lh.block :=
      calc Function.update lh.block (absorbSlot lh b) b
          = Function.update lh.block (absorbSlot lh b) (lh.block (absorbSlot lh b)) := by
            rw [hblock]
        _ = lh.block := Function.update_eq_self _ _
    simp [LogHeader.absorb, hupd]

/-- Logging a new block appends it. -/
lemma absorb_of_not_mem {lh : LogHeader} {b : ℕ} (h : b ∉ logged lh) :
    lh.absorb b = { n := lh.n + 1, block := Function.update lh.block lh.n b } := by
  simp [LogHeader.absorb, absorbSlot_of_not_mem h]

lemma logged_absorb_of_not_mem {lh : LogHeader} {b : ℕ} (h : b ∉ logged lh) :
    logged (lh.absorb b) = logged lh ++ [b] := by
  rw [absorb_of_not_mem h, logged, List.range_succ, List.map_append]
  congr 1
  · refine List.map_congr_left fun t ht => ?_
    exact Function.update_of_ne (Nat.ne_of_lt (List.mem_range.mp ht)) _ _
  · simp

lemma mem_logged_absorb {lh : LogHeader} {b b' : ℕ} :
    b' ∈ logged (lh.absorb b) ↔ b' = b ∨ b' ∈ logged lh := by
  by_cases h : b ∈ logged lh
  · rw [absorb_of_mem h]
    constructor
    · exact Or.inr
    · rintro (rfl | h')
      · exact h
      · exact h'
  · rw [logged_absorb_of_not_mem h]
    simp [or_comm]

lemma absorb_n_le (lh : LogHeader) (b : ℕ) : (lh.absorb b).n ≤ lh.n + 1 := by
  simp only [LogHeader.absorb]
  split <;> omega

lemma logWrite_eq_ok {lg lg' : Log} {b : ℕ} (h : logWrite lg b = .ok lg') :
    lg.lh.n < LOGSIZE ∧ lg.lh.n < lg.size - 1 ∧ 1 ≤ lg.outstanding ∧
      lg' = { lg with lh := lg.lh.absorb b } := by
  unfold logWrite at h
  split at h
  · cases h
  · split at h
    · cases h
    · refine ⟨by omega, by omega, by omega, ?_⟩
      cases h
      rfl

/-- `log_write` panics exactly when the header is full, for either bound, or no call is
outstanding. -/
lemma logWrite_eq_error_iff {lg : Log} {b : ℕ} :
    (∃ msg, logWrite lg b = .error msg) ↔
      (lg.lh.n ≥ LOGSIZE ∨ lg.lh.n ≥ lg.size - 1) ∨ lg.outstanding < 1 := by
  unfold logWrite
  split
  · simp_all
  · split
    · simp_all
    · simp_all

lemma endOp_eq_ok {lg lg' : Log} {c : Bool} (h : endOp lg = .ok (lg', c)) :
    lg.committing = false ∧ (c = true ↔ lg.outstanding - 1 = 0) ∧
      lg' = { lg with outstanding := lg.outstanding - 1, committing := c } := by
  simp only [endOp] at h
  split at h
  · cases h
  · split at h
    · cases h
      exact ⟨by simpa using ‹¬lg.committing = true›, by simpa, rfl⟩
    · cases h
      exact ⟨by simpa using ‹¬lg.committing = true›, by simpa, by simp_all⟩

end Xv6.FsLog
