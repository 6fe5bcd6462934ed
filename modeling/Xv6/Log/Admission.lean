import Xv6.Log.Crash
import Mathlib.Algebra.BigOperators.Group.Finset.Basic
import Mathlib.Algebra.Order.BigOperators.Group.Finset
import Mathlib.Algebra.Group.Action.Defs

/-!
# Admission control of the log

`begin_op` admits a call only if every outstanding call, this one included, could still
log `MAXOPBLOCKS` new blocks within `LOGSIZE` header slots.  Under the rule that an
operation passes at most `MAXOPBLOCKS` distinct blocks to `log_write`, this reservation
is an invariant of every run (`reserved_of_reachable`): the logged blocks plus what the
outstanding operations may still claim never exceed `LOGSIZE`.

`log_write` however refuses a block once the header holds `log.size - 1` of them, since
the header itself occupies the first of the `nlog` blocks that mkfs allots and
`nlog = LOGSIZE`.  The two bounds differ by one: a log of `LOGSIZE + 1` blocks would never
make a budgeted `log_write` panic (`logWrite_ok_of_budget`), while the log that mkfs
writes does, once the reservation is exactly full (`logWrite_panics_at_full_reservation`).
-/

namespace Xv6.FsLog

variable {ι α : Type*} [DecidableEq ι] [Fintype ι]

open Machine

/-- The budget of an operation: an action is admitted unless it is a `log_write` that
would take its operation past `MAXOPBLOCKS` distinct blocks. -/
def withinBudget (m : Machine ι α) : Act ι α → Bool
  | .logWrite p b _ =>
    match m.ops p with
    | some bs => decide ((bs.insert b).length ≤ MAXOPBLOCKS)
    | none => true
  | _ => true

/-- The header slots that one process may still claim: what is left of its budget while
it is inside an operation. -/
def claim : Option (List ℕ) → ℕ
  | some bs => MAXOPBLOCKS - bs.length
  | none => 0

/-- The reservation invariant: the logged blocks and the claims of the outstanding
operations fit in `LOGSIZE`, and every block an outstanding operation has passed to
`log_write` is in the header. -/
structure Reserved (m : Machine ι α) : Prop where
  fits : m.log.lh.n + ∑ p, claim (m.ops p) ≤ LOGSIZE
  logged : ∀ p bs, m.ops p = some bs → ∀ b ∈ bs, b ∈ logged m.log.lh

section Claims

@[simp] lemma claim_none : claim none = 0 := rfl

@[simp] lemma claim_some (bs : List ℕ) : claim (some bs) = MAXOPBLOCKS - bs.length := rfl

lemma claim_le (o : Option (List ℕ)) : claim o ≤ MAXOPBLOCKS := by
  cases o <;> simp [claim]

/-- Changing one process's state changes the sum of the claims by the difference of its
claims. -/
lemma sum_claim_update (ops : ι → Option (List ℕ)) (p : ι) (o : Option (List ℕ)) :
    ∑ q, claim (Function.update ops p o q) + claim (ops p) = ∑ q, claim (ops q) + claim o := by
  have hrest : ∀ q ∈ Finset.univ.erase p, claim (Function.update ops p o q) = claim (ops q) :=
    fun q hq => by rw [Function.update_of_ne (Finset.ne_of_mem_erase hq)]
  rw [← Finset.add_sum_erase _ _ (Finset.mem_univ p), ← Finset.add_sum_erase _ _ (Finset.mem_univ p),
    Finset.sum_congr rfl hrest, Function.update_self]
  omega

omit [DecidableEq ι] in
/-- The outstanding operations claim at most `MAXOPBLOCKS` slots each. -/
lemma sum_claim_le (ops : ι → Option (List ℕ)) :
    ∑ q, claim (ops q) ≤ MAXOPBLOCKS * (active ops).card := by
  have hidle : ∀ q ∈ Finset.univ, claim (ops q) ≠ 0 → (ops q).isSome := by
    intro q _ hq
    cases h : ops q
    · simp [h, claim] at hq
    · rfl
  calc ∑ q, claim (ops q)
      = ∑ q ∈ active ops, claim (ops q) := (Finset.sum_filter_of_ne hidle).symm
    _ ≤ (active ops).card • MAXOPBLOCKS :=
        Finset.sum_le_card_nsmul _ _ _ fun q _ => claim_le (ops q)
    _ = MAXOPBLOCKS * (active ops).card := by rw [smul_eq_mul, Nat.mul_comm]

end Claims

/-! ## Every budgeted step keeps the reservation -/

section Preservation

variable {m m' : Machine ι α} {ws : List (DWrite α)}

omit [DecidableEq ι] in
lemma reserved_crashed (size : ℕ) (d : Disk α) : Reserved (crashed size d : Machine ι α) :=
  { fits := by simp [crashed, LogHeader.zero, claim]
    logged := fun p bs h => by simp [crashed] at h }

lemma Reserved.beginOp (h : Reserved m) (hc : Coherent m) {p : ι}
    (hs : step m (.beginOp p) = .next ws m') : Reserved m' := by
  obtain ⟨-, hp, -, lg, hb, rfl⟩ := step_beginOp_inv hs
  obtain ⟨-, hroom, rfl⟩ := beginOp_eq_some hb
  have hsum := sum_claim_update m.ops p (some [])
  have hle := sum_claim_le m.ops
  rw [hp] at hsum
  rw [← hc.outstanding] at hle
  refine { fits := ?_, logged := ?_ }
  · -- the new operation claims a whole budget, which `begin_op` has just reserved
    simp only [claim_none, claim_some, List.length_nil, Nat.sub_zero] at hsum ⊢
    have : m.log.lh.n + (∑ q, claim (m.ops q) + MAXOPBLOCKS) ≤ LOGSIZE := by
      calc m.log.lh.n + (∑ q, claim (m.ops q) + MAXOPBLOCKS)
          ≤ m.log.lh.n + (MAXOPBLOCKS * m.log.outstanding + MAXOPBLOCKS) := by omega
        _ = m.log.lh.n + (m.log.outstanding + 1) * MAXOPBLOCKS := by
            rw [Nat.add_mul, Nat.one_mul, Nat.mul_comm]
        _ ≤ LOGSIZE := hroom
    omega
  · intro q bs hq
    by_cases hqp : q = p
    · subst hqp
      simp only [Function.update_self, Option.some.injEq] at hq
      subst hq
      simp
    · exact h.logged q bs (by simpa [Function.update_of_ne hqp] using hq)

lemma Reserved.logWrite (h : Reserved m) {p : ι} {b : ℕ} {v : α}
    (hbud : withinBudget m (.logWrite p b v) = true)
    (hs : step m (.logWrite p b v) = .next ws m') : Reserved m' := by
  obtain ⟨-, bs, lg, hp, hw, -, rfl⟩ := step_logWrite_inv hs
  obtain ⟨-, -, -, rfl⟩ := logWrite_eq_ok hw
  have hbs : (bs.insert b).length ≤ MAXOPBLOCKS := by simpa [withinBudget, hp] using hbud
  refine { fits := ?_, logged := ?_ }
  · -- a block new to the operation takes at most one slot, paid from its own claim
    have hsum := sum_claim_update m.ops p (some (bs.insert b))
    have hn := absorb_n_le m.log.lh b
    have hfits := h.fits
    rw [hp] at hsum
    simp only [claim_some] at hsum
    by_cases hb : b ∈ bs
    · rw [List.insert_of_mem hb] at hsum hbs ⊢
      have habs : m.log.lh.absorb b = m.log.lh := absorb_of_mem (h.logged p bs hp b hb)
      simp only [habs]
      omega
    · rw [List.length_insert_of_not_mem hb] at hsum hbs
      simp only
      omega
  · intro q bs' hq b' hb'
    rw [mem_logged_absorb]
    by_cases hqp : q = p
    · subst hqp
      simp only [Function.update_self, Option.some.injEq] at hq
      rw [← hq, List.mem_insert_iff] at hb'
      rcases hb' with rfl | hb'
      · exact Or.inl rfl
      · exact Or.inr (h.logged q bs hp b' hb')
    · exact Or.inr (h.logged q bs' (by simpa [Function.update_of_ne hqp] using hq) b' hb')

lemma Reserved.endOp (h : Reserved m) (hc : Coherent m) {p : ι}
    (hs : step m (.endOp p) = .next ws m') : Reserved m' := by
  obtain ⟨-, hp, ⟨lg, he, -, rfl⟩ | ⟨lg, he, -, rfl⟩⟩ := step_endOp_inv hs
  · obtain ⟨-, -, rfl⟩ := endOp_eq_ok he
    have hsum := sum_claim_update m.ops p none
    have hfits := h.fits
    refine { fits := ?_, logged := fun q bs hq => ?_ }
    · simp only [claim_none] at hsum ⊢
      omega
    · by_cases hqp : q = p
      · subst hqp; simp at hq
      · exact h.logged q bs (by simpa [Function.update_of_ne hqp] using hq)
  · -- after a commit the header is empty and no operation is outstanding
    obtain ⟨-, -, rfl⟩ := endOp_eq_ok he
    have hidle := hc.others_idle_of_commit hp he
    have hnone : ∀ q, Function.update m.ops p none q = none := by
      intro q
      by_cases hqp : q = p
      · subst hqp; simp
      · rw [Function.update_of_ne hqp, hidle q hqp]
    refine { fits := ?_, logged := fun q bs hq => by simp [committed, hnone q] at hq }
    simp [committed, afterCommit, hnone, claim]

lemma Reserved.step (h : Reserved m) (hsound : Sound size m) {a : Act ι α}
    (hbud : withinBudget m a = true) (hs : step m a = .next ws m') : Reserved m' := by
  cases a with
  | beginOp p => exact h.beginOp (hsound.1 (step_beginOp_inv hs).1) hs
  | logWrite p b v => exact h.logWrite hbud hs
  | endOp p => exact h.endOp (hsound.1 (step_endOp_inv hs).1) hs
  | bread b =>
    obtain ⟨-, -, -, rfl⟩ := step_bread_inv hs
    exact { fits := h.fits, logged := h.logged }
  | evict b =>
    obtain ⟨-, -, -, rfl⟩ := step_evict_inv hs
    exact { fits := h.fits, logged := h.logged }
  | recover =>
    -- a boot starts from a crashed machine, which has no operation
    obtain ⟨hdown, -, rfl⟩ := step_recover_inv hs
    rw [hsound.2 hdown]
    exact { fits := by simp [crashed, boot, recoverFromLog, claim]
            logged := fun p bs hp => by simp [crashed, boot] at hp }

/-- **The reservation invariant.** In every run in which each operation passes at most
`MAXOPBLOCKS` distinct blocks to `log_write`, the header and the claims of the outstanding
operations fit in `LOGSIZE`. -/
theorem reserved_of_reachable {size : ℕ} {m : Machine ι α}
    (hr : Reachable size (fun m a => withinBudget m a = true) m) : Reserved m := by
  induction hr with
  | boot d => exact reserved_crashed size d
  | step hr' hadm hs ih => exact ih.step (sound_of_reachable hr') hadm hs
  | crash k _ _ _ _ => exact reserved_crashed size _

end Preservation

/-- With one log block more than mkfs allots, a budgeted `log_write` of a block new to its
operation never panics: the reservation leaves a free header slot below `log.size - 1`. -/
theorem logWrite_ok_of_budget {size : ℕ} {m : Machine ι α} {p : ι} {bs : List ℕ} {b : ℕ}
    (hr : Reachable size (fun m a => withinBudget m a = true) m) (hsize : LOGSIZE < size)
    (hup : m.up = true) (hp : m.ops p = some bs) (hb : b ∉ bs)
    (hbud : (bs.insert b).length ≤ MAXOPBLOCKS) :
    ∃ lg, logWrite m.log b = .ok lg := by
  have hc := (sound_of_reachable hr).1 hup
  have hfits := (reserved_of_reachable hr).fits
  have hlen := log_size_of_reachable hr
  rw [List.length_insert_of_not_mem hb] at hbud
  -- the operation still claims a slot, so the header holds at most `LOGSIZE - 1` blocks
  have hclaim : 1 ≤ claim (m.ops p) := by rw [hp, claim_some]; omega
  have hone : claim (m.ops p) ≤ ∑ q, claim (m.ops q) :=
    Finset.single_le_sum (fun q _ => Nat.zero_le (claim (m.ops q))) (Finset.mem_univ p)
  have hout : 1 ≤ m.log.outstanding := by
    rw [hc.outstanding]
    exact Finset.card_pos.mpr ⟨p, Iff.mpr mem_active (by simp [hp])⟩
  cases hw : logWrite m.log b with
  | ok lg => exact ⟨lg, rfl⟩
  | error msg =>
    have := Iff.mp logWrite_eq_error_iff ⟨msg, hw⟩
    simp only [LOGSIZE, MAXOPBLOCKS] at this hfits hbud hsize
    omega

/-! ## The log that mkfs writes -/

/-- Three operations admitted together, the first two logging ten blocks of their own
each and the third nine: the header then holds `LOGSIZE - 1` blocks, and the reservation
is full. -/
def fullReservation : List (Act (Fin 3) ℕ) :=
  [.recover, .beginOp 0, .beginOp 1, .beginOp 2] ++
    (List.range 10).map (fun i => .logWrite 0 (100 + i) 0) ++
    (List.range 10).map (fun i => .logWrite 1 (200 + i) 0) ++
    (List.range 9).map (fun i => .logWrite 2 (300 + i) 0)

/-- With `log.size = LOGSIZE`, a budgeted run reaches a machine where the third
operation's tenth block, within its budget, makes `log_write` panic. -/
theorem logWrite_panics_at_full_reservation :
    ∃ m : Machine (Fin 3) ℕ, Reachable LOGSIZE (fun m a => withinBudget m a = true) m ∧
      withinBudget m (.logWrite 2 309 0) = true ∧
      step m (.logWrite 2 309 0) = .panic "too big a transaction" := by
  refine ⟨(runActs withinBudget (crashed LOGSIZE ⟨LogHeader.zero, fun _ => 0, fun _ => 0⟩)
      fullReservation).get (by decide), (Reachable.boot _).runActs (Option.some_get _).symm,
    by decide, by rfl⟩

end Xv6.FsLog
