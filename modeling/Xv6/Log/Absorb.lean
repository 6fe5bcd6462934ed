import Xv6.Log.Machine

/-!
# Log absorption keeps the header a set

Between two commits, the header that `log_write` builds names each block written since
the first of them once, and each of those blocks sits in a dirty buffer: `log_write`
appends a block only when its scan ran off the end of the header (`absorbSlot`) and sets
`B_DIRTY`, `bget` recycles only clean buffers, and only the commit's `install_trans`
(`installCache`) cleans them.

`QuietRun m acts m'` is a run of the running machine from `m` to `m'` through the actions
`acts`, none of which commits.  `HeaderSet` is what such a run keeps (`HeaderSet.step`);
`logged_of_quietRun` is the result, from a machine whose header is empty, as a commit or a
boot leaves it.
-/

namespace Xv6.FsLog

variable {ι α : Type*} [DecidableEq ι]

/-- The action is an `end_op` whose call commits. -/
def commits (m : Machine ι α) : Act ι α → Bool
  | .endOp _ =>
    match endOp m.log with
    | .ok (_, true) => true
    | _ => false
  | _ => false

/-- A run from `m` to `m'` through `acts`: each action runs, neither blocked nor a panic,
and none commits. -/
inductive QuietRun : Machine ι α → List (Act ι α) → Machine ι α → Prop
  | nil (m : Machine ι α) : QuietRun m [] m
  | cons {m m₁ m' : Machine ι α} {a : Act ι α} {as : List (Act ι α)} {ws : List (DWrite α)} :
      step m a = .next ws m₁ → commits m a = false → QuietRun m₁ as m' → QuietRun m (a :: as) m'

/-- The blocks that the actions pass to `log_write`, in order. -/
def written : List (Act ι α) → List ℕ
  | [] => []
  | .logWrite _ b _ :: as => b :: written as
  | _ :: as => written as

/-- A run of `runActs` that admits only the actions that do not commit is a quiet run. -/
lemma QuietRun.of_runActs {m m' : Machine ι α} {acts : List (Act ι α)}
    (h : runActs (fun m a => !commits m a) m acts = some m') : QuietRun m acts m' := by
  induction acts generalizing m with
  | nil =>
    cases h
    exact .nil _
  | cons a as ih =>
    simp only [runActs] at h
    split_ifs at h with hadm
    split at h
    · exact .cons ‹_› (by simpa using hadm) (ih h)
    · cases h

/-! ## What a quiet step keeps -/

/-- The invariant of a quiet run: the machine runs, the header names distinct blocks, and
each of them is cached in a dirty buffer. -/
structure HeaderSet (m : Machine ι α) : Prop where
  up : m.up = true
  nodup : (logged m.log.lh).Nodup
  dirty : ∀ b ∈ logged m.log.lh, ∃ v, m.cache b = some ⟨v, true⟩

variable {m m' : Machine ι α} {ws : List (DWrite α)}

omit [DecidableEq ι] in
/-- A step that leaves the header and the dirty buffers alone keeps the invariant. -/
lemma HeaderSet.of_eq (h : HeaderSet m) (hup : m'.up = true) (hlh : m'.log.lh = m.log.lh)
    (hcache : ∀ b ∈ logged m.log.lh, m'.cache b = m.cache b) : HeaderSet m' := by
  refine ⟨hup, hlh ▸ h.nodup, fun b hb => ?_⟩
  rw [hlh] at hb
  rw [hcache b hb]
  exact h.dirty b hb

/-- `log_write` of `b` appends `b` to the header unless the header names it already, and
leaves it dirty. -/
lemma HeaderSet.logWrite (h : HeaderSet m) {p : ι} {b : ℕ} {v : α}
    (hs : step m (.logWrite p b v) = .next ws m') :
    HeaderSet m' ∧ ∀ b', b' ∈ logged m'.log.lh ↔ b' = b ∨ b' ∈ logged m.log.lh := by
  obtain ⟨hup, bs, lg, -, hw, -, rfl⟩ := step_logWrite_inv hs
  obtain ⟨-, -, -, rfl⟩ := logWrite_eq_ok hw
  refine ⟨⟨hup, ?_, fun b' hb' => ?_⟩, fun b' => mem_logged_absorb⟩
  · -- the scan runs off the end exactly for a block the header does not name
    by_cases hb : b ∈ logged m.log.lh
    · simpa only [absorb_of_mem hb] using h.nodup
    · rw [logged_absorb_of_not_mem hb]
      exact h.nodup.append (List.nodup_singleton b) (by simpa using hb)
  · show ∃ v', Function.update m.cache b (some ⟨v, true⟩) b' = some ⟨v', true⟩
    by_cases hbb : b' = b
    · subst hbb
      exact ⟨v, Function.update_self ..⟩
    · rw [Function.update_of_ne hbb]
      exact h.dirty b' ((Iff.mp mem_logged_absorb hb').resolve_left hbb)

/-- Every step that does not commit keeps the invariant, and the header gains at most the
block the step writes. -/
theorem HeaderSet.step (h : HeaderSet m) {a : Act ι α} (hs : step m a = .next ws m')
    (hq : commits m a = false) :
    HeaderSet m' ∧ ∀ b, b ∈ logged m'.log.lh ↔ b ∈ written [a] ∨ b ∈ logged m.log.lh := by
  cases a with
  | beginOp p =>
    obtain ⟨hup, -, -, lg, hb, rfl⟩ := step_beginOp_inv hs
    obtain ⟨-, -, rfl⟩ := beginOp_eq_some hb
    exact ⟨h.of_eq hup rfl fun _ _ => rfl, fun b => by simp [written]⟩
  | logWrite p b v =>
    obtain ⟨h', hmem⟩ := h.logWrite hs
    exact ⟨h', fun b' => by simpa [written] using hmem b'⟩
  | endOp p =>
    obtain ⟨hup, -, ⟨lg, he, -, rfl⟩ | ⟨lg, he, -, -⟩⟩ := step_endOp_inv hs
    · obtain ⟨-, -, rfl⟩ := endOp_eq_ok he
      exact ⟨h.of_eq hup rfl fun _ _ => rfl, fun b => by simp [written]⟩
    · -- the step that commits is not quiet
      simp [commits, he] at hq
  | bread b =>
    obtain ⟨hup, hnone, -, rfl⟩ := step_bread_inv hs
    -- a block read in is not one of the dirty, logged ones
    refine ⟨h.of_eq hup rfl fun b' hb' => Function.update_of_ne ?_ _ _, fun b => by
      simp [written]⟩
    rintro rfl
    obtain ⟨v, hv⟩ := h.dirty b' hb'
    rw [hnone] at hv
    cases hv
  | evict b =>
    obtain ⟨hup, ⟨v, hclean⟩, -, rfl⟩ := step_evict_inv hs
    -- `bget` recycles a clean buffer, never a logged one
    refine ⟨h.of_eq hup rfl fun b' hb' => Function.update_of_ne ?_ _ _, fun b => by
      simp [written]⟩
    rintro rfl
    obtain ⟨v', hv⟩ := h.dirty b' hb'
    rw [hclean] at hv
    cases hv
  | recover =>
    obtain ⟨hdown, -, -⟩ := step_recover_inv hs
    rw [h.up] at hdown
    cases hdown

/-- A quiet run keeps the invariant, and the header gains the blocks the run writes.  The
induction is on the run, with `HeaderSet.step` at each action. -/
theorem HeaderSet.quietRun {acts : List (Act ι α)} (hrun : QuietRun m acts m') (hm : HeaderSet m) :
    HeaderSet m' ∧ ∀ b, b ∈ logged m'.log.lh ↔ b ∈ written acts ∨ b ∈ logged m.log.lh := by
  induction hrun with
  | nil m => exact ⟨hm, fun b => by simp [written]⟩
  | @cons m m₁ m' a as ws hs hq _ ih =>
    obtain ⟨hm₁, hmem₁⟩ := hm.step hs hq
    obtain ⟨hm', hmem'⟩ := ih hm₁
    refine ⟨hm', fun b => ?_⟩
    rw [hmem', hmem₁]
    -- the blocks of `a :: as` are those of `a` and those of `as`
    have hwa : b ∈ written (a :: as) ↔ b ∈ written [a] ∨ b ∈ written as := by
      cases a <;> simp [written]
    rw [hwa]
    tauto

/-- Log absorption keeps the header a set: after any quiet run from a running machine
whose header is empty, `log.lh.block[0..lh.n)` are pairwise distinct, they are exactly the
blocks passed to `log_write` during the run, and each of them is cached in a buffer with
`B_DIRTY` set. -/
theorem logged_of_quietRun {acts : List (Act ι α)} (hup : m.up = true)
    (hempty : m.log.lh.n = 0) (hrun : QuietRun m acts m') :
    (logged m'.log.lh).Nodup ∧ (∀ b, b ∈ logged m'.log.lh ↔ b ∈ written acts) ∧
      ∀ b ∈ logged m'.log.lh, ∃ v, m'.cache b = some ⟨v, true⟩ := by
  have hlogged : logged m.log.lh = [] := by simp [logged, hempty]
  obtain ⟨hs, hmem⟩ := HeaderSet.quietRun hrun ⟨hup, by simp [hlogged], by simp [hlogged]⟩
  exact ⟨hs.nodup, fun b => by simpa [hlogged] using hmem b, hs.dirty⟩

/-- A booted machine with one process that begins an operation and writes blocks `5`, `7`
and `5` again: the header holds `5` and `7`, once each. -/
def absorbStart : Machine (Fin 1) ℕ :=
  (Machine.crashed LOGSIZE ⟨LogHeader.zero, fun _ => 0, fun _ => 0⟩).boot

/-- The actions of that run. -/
def absorbActs : List (Act (Fin 1) ℕ) :=
  [.beginOp 0, .logWrite 0 5 1, .logWrite 0 7 2, .logWrite 0 5 3]

theorem logged_of_quietRun_absorbActs :
    ∃ m' : Machine (Fin 1) ℕ, absorbStart.up = true ∧ absorbStart.log.lh.n = 0 ∧
      QuietRun absorbStart absorbActs m' ∧ logged m'.log.lh = [5, 7] ∧
      ((logged m'.log.lh).Nodup ∧ (∀ b, b ∈ logged m'.log.lh ↔ b ∈ written absorbActs) ∧
        ∀ b ∈ logged m'.log.lh, ∃ v, m'.cache b = some ⟨v, true⟩) := by
  have hrun := QuietRun.of_runActs (Option.some_get (h := by decide)
    (x := runActs (fun m a => !commits m a) absorbStart absorbActs)).symm
  exact ⟨_, rfl, rfl, hrun, by decide, logged_of_quietRun rfl rfl hrun⟩

end Xv6.FsLog
