import Xv6.Log.Recovery

/-!
# A power loss never leaves half a transaction

The invariant of a running machine (`Coherent`): between steps the on-disk header is
clear, the dirty buffers are exactly the blocks that the in-memory header names, every
clean buffer holds what the disk holds, and `outstanding` counts the processes inside an
operation.  A stopped machine is a crashed one.  Every step keeps this
(`sound_of_reachable`).

From it: the sector writes of a commit, cut after any number of them, recover to the home
blocks as they were before the commit or as the file system saw them when it committed
(`durable_commit_take`); the commit runs only when no other process is inside an
operation; and every other step leaves the disk alone.  `crash_atomic` puts these
together for every step of every reachable machine.
-/

namespace Xv6.FsLog

variable {ι α : Type*} [DecidableEq ι]

open Machine

/-! ## The processes inside an operation -/

section Active

variable [Fintype ι]

/-- The processes between their `begin_op` and their `end_op`. -/
def active (ops : ι → Option (List ℕ)) : Finset ι :=
  Finset.univ.filter fun p => (ops p).isSome

omit [DecidableEq ι] in
lemma mem_active {ops : ι → Option (List ℕ)} {p : ι} : p ∈ active ops ↔ (ops p).isSome := by
  simp [active]

lemma card_active_update_some {ops : ι → Option (List ℕ)} {p : ι} (bs : List ℕ)
    (h : ops p = none) :
    (active (Function.update ops p (some bs))).card = (active ops).card + 1 := by
  have hins : active (Function.update ops p (some bs)) = insert p (active ops) := by
    ext q
    by_cases hq : q = p
    · subst hq; simp [mem_active]
    · simp [mem_active, hq]
  rw [hins, Finset.card_insert_of_notMem (by simp [mem_active, h])]

lemma active_update_some_of_some {ops : ι → Option (List ℕ)} {p : ι} {bs : List ℕ}
    (bs' : List ℕ) (h : ops p = some bs) :
    active (Function.update ops p (some bs')) = active ops := by
  ext q
  by_cases hq : q = p
  · subst hq; simp [mem_active, h]
  · simp [mem_active, Function.update_of_ne hq]

lemma card_active_update_none {ops : ι → Option (List ℕ)} {p : ι} {bs : List ℕ}
    (h : ops p = some bs) :
    (active (Function.update ops p none)).card + 1 = (active ops).card := by
  have hins : active ops = insert p (active (Function.update ops p none)) := by
    ext q
    by_cases hq : q = p
    · subst hq; simp [mem_active, h]
    · simp [mem_active, hq]
  rw [hins, Finset.card_insert_of_notMem (by simp [mem_active])]

end Active

/-! ## The invariant of a running machine -/

/-- The invariant of a running machine, between steps. -/
structure Coherent [Fintype ι] (m : Machine ι α) : Prop where
  /-- The on-disk header is clear. -/
  head_clear : m.disk.head.n = 0
  /-- A clean buffer holds what its block holds on disk. -/
  clean : ∀ b v, m.cache b = some ⟨v, false⟩ → v = m.disk.home b
  /-- The dirty buffers are exactly the blocks that the in-memory header names. -/
  dirty : ∀ b, (∃ v, m.cache b = some ⟨v, true⟩) ↔ b ∈ logged m.log.lh
  /-- No commit is running. -/
  not_committing : m.log.committing = false
  /-- `outstanding` counts the processes inside an operation. -/
  outstanding : m.log.outstanding = (active m.ops).card

section View

variable [Fintype ι] {m : Machine ι α}

omit [DecidableEq ι] in
/-- A block the header does not name reads as the disk holds it. -/
lemma Coherent.view_of_not_logged (h : Coherent m) {b : ℕ} (hb : b ∉ logged m.log.lh) :
    m.view b = m.disk.home b := by
  rcases hc : m.cache b with _ | ⟨v, _ | _⟩
  · simp [view, hc]
  · simp only [view, hc]
    exact h.clean b v hc
  · exact absurd ((h.dirty b).mp ⟨v, hc⟩) hb

omit [DecidableEq ι] in
/-- The file system's view is the disk with the logged blocks replaced by their cached
copies. -/
lemma Coherent.updates_logged_view (h : Coherent m) :
    Replay.updates m.disk.home ((logged m.log.lh).map fun b => (b, m.view b)) = m.view := by
  funext b
  by_cases hb : b ∈ logged m.log.lh
  · apply Replay.updates_apply_of_forall_eq
    · exact ⟨(b, m.view b), List.mem_map_of_mem hb, rfl⟩
    · intro p hp hpb
      obtain ⟨b', -, rfl⟩ := List.mem_map.mp hp
      subst hpb
      rfl
  · rw [Replay.updates_apply_of_forall_ne, h.view_of_not_logged hb]
    intro p hp hpb
    obtain ⟨b', hb', rfl⟩ := List.mem_map.mp hp
    exact hb (hpb ▸ hb')

end View

/-! ## The cache after an install -/

lemma mem_keys_installPairs {lh : LogHeader} {log : ℕ → α} {b : ℕ} :
    (∃ p ∈ installPairs lh log, p.1 = b) ↔ b ∈ logged lh := by
  simp [installPairs, mem_logged]

lemma installCache_of_logged {lh : LogHeader} {log : ℕ → α} {cache : ℕ → Option (Buf α)}
    {b : ℕ} (hb : b ∈ logged lh) (f : ℕ → α) :
    installCache lh log cache b =
      some ⟨Replay.updates f (installPairs lh log) b, false⟩ := by
  have hkey : ∃ p ∈ (installPairs lh log).map (fun p => (p.1, some (⟨p.2, false⟩ : Buf α))),
      p.1 = b := by
    obtain ⟨p, hp, hpb⟩ := Iff.mpr mem_keys_installPairs hb
    exact ⟨_, List.mem_map_of_mem hp, hpb⟩
  rw [installCache, Replay.updates_apply_of_mem hkey _ ((fun v => some ⟨v, false⟩) ∘ f),
    Replay.updates_map_snd]
  rfl

lemma installCache_of_not_logged {lh : LogHeader} {log : ℕ → α} {cache : ℕ → Option (Buf α)}
    {b : ℕ} (hb : b ∉ logged lh) : installCache lh log cache b = cache b := by
  apply Replay.updates_apply_of_forall_ne
  intro p hp hpb
  obtain ⟨q, hq, rfl⟩ := List.mem_map.mp hp
  exact hb (Iff.mp mem_keys_installPairs ⟨q, hq, hpb⟩)

/-! ## The commit, phase by phase -/

section Commit

variable {lh : LogHeader} {cached : ℕ → α} {d : Disk α}

/-- The slots that `write_log` fills: slot `t` gets the cached copy of `lh.block[t]`. -/
def logSlots (lh : LogHeader) (cached : ℕ → α) : List (ℕ × α) :=
  (List.range lh.n).map fun t => (t, cached (lh.block t))

/-- The pairs (logged block, cached copy) that a commit installs. -/
def commitPairs (lh : LogHeader) (cached : ℕ → α) : List (ℕ × α) :=
  (logged lh).map fun b => (b, cached b)

lemma writeLog_eq : writeLog lh cached = (logSlots lh cached).map fun p => .log p.1 p.2 := by
  simp [writeLog, logSlots]

lemma writeLog_length : (writeLog lh cached).length = lh.n := by
  simp [writeLog]

lemma writes_writeLog_take (k : ℕ) :
    d.writes ((writeLog lh cached).take k) =
      { d with log := Replay.updates d.log ((logSlots lh cached).take k) } := by
  rw [writeLog_eq, ← List.map_take, Disk.writes_map_log]

/-- After `write_log`, slot `t` holds the cached copy of its block. -/
lemma writes_writeLog_log {t : ℕ} (ht : t < lh.n) :
    (d.writes (writeLog lh cached)).log t = cached (lh.block t) := by
  rw [writeLog_eq, Disk.writes_map_log]
  apply Replay.updates_apply_of_forall_eq
  · exact ⟨(t, cached (lh.block t)), List.mem_map_of_mem (List.mem_range.mpr ht), rfl⟩
  · intro p hp hpt
    obtain ⟨t', -, rfl⟩ := List.mem_map.mp hp
    subst hpt
    rfl

/-- A header written from `lh` names the same slots as `lh`, whatever the block kept in
its other entries. -/
lemma installPairs_written (g : ℕ → ℕ) (log : ℕ → α) :
    installPairs ⟨lh.n, fun i => if i < lh.n then lh.block i else g i⟩ log =
      installPairs lh log := by
  simp only [installPairs]
  refine List.map_congr_left fun t ht => ?_
  simp [List.mem_range.mp ht]

/-- What `install_trans` copies after `write_log`: each logged block's cached copy. -/
lemma installPairs_writeLog :
    installPairs lh (d.writes (writeLog lh cached)).log = commitPairs lh cached := by
  simp only [installPairs, commitPairs, logged, List.map_map]
  refine List.map_congr_left fun t ht => ?_
  simp [writes_writeLog_log (List.mem_range.mp ht)]

lemma writes_writeLog_home : (d.writes (writeLog lh cached)).home = d.home := by
  rw [writeLog_eq, Disk.writes_map_log]

/-- After the commit point, `install_trans` copies each logged block's cached copy. -/
lemma installTrans_after_head :
    installTrans lh ((d.writes (writeLog lh cached)).write
        (writeHead lh (d.writes (writeLog lh cached)))) =
      (commitPairs lh cached).map fun p => .home p.1 p.2 := by
  rw [installTrans, write_writeHead]
  exact congrArg _ installPairs_writeLog

/-- The header of the commit point names the transaction's pairs. -/
lemma installPairs_after_head :
    installPairs ((d.writes (writeLog lh cached)).write
        (writeHead lh (d.writes (writeLog lh cached)))).head
      ((d.writes (writeLog lh cached)).write
        (writeHead lh (d.writes (writeLog lh cached)))).log = commitPairs lh cached := by
  rw [write_writeHead]
  simp only
  rw [installPairs_written, installPairs_writeLog]

/-- The writes of a commit with something to commit, in their four phases. -/
lemma commit_of_pos (hn : 0 < lh.n) :
    commit lh cached d =
      writeLog lh cached ++
        (writeHead lh (d.writes (writeLog lh cached)) ::
          (installTrans lh ((d.writes (writeLog lh cached)).write
              (writeHead lh (d.writes (writeLog lh cached)))) ++
            [writeHead { lh with n := 0 }
              (((d.writes (writeLog lh cached)).write
                  (writeHead lh (d.writes (writeLog lh cached)))).writes
                (installTrans lh ((d.writes (writeLog lh cached)).write
                  (writeHead lh (d.writes (writeLog lh cached))))))])) := by
  simp [commit, hn]

/-- The disk once a commit is over: the header is clear and the logged blocks hold their
cached copies. -/
lemma writes_commit (lh : LogHeader) (cached : ℕ → α) (hd : d.head.n = 0) :
    (d.writes (commit lh cached d)).head.n = 0 ∧
      (d.writes (commit lh cached d)).home = Replay.updates d.home (commitPairs lh cached) := by
  rcases Nat.eq_zero_or_pos lh.n with hn | hn
  · have hp : commitPairs lh cached = [] := by simp [commitPairs, logged, hn]
    simp [commit, hn, hd, hp]
  · rw [commit_of_pos hn, Disk.writes_append, Disk.writes_cons, Disk.writes_append,
      installTrans_after_head, Disk.writes_map_home]
    refine ⟨rfl, ?_⟩
    simp only [Disk.writes_cons, Disk.writes_nil, write_writeHead]
    rw [writes_writeLog_home]

/-- **The commit point.** Cut after any number of its sector writes, a commit leaves a
disk that recovers to the home blocks as they were, or to the home blocks with every
logged block replaced by its cached copy. -/
lemma durable_commit_take (lh : LogHeader) (cached : ℕ → α) (hd : d.head.n = 0) (k : ℕ) :
    durable (d.writes ((commit lh cached d).take k)) = d.home ∨
      durable (d.writes ((commit lh cached d).take k)) =
        Replay.updates d.home (commitPairs lh cached) := by
  rcases Nat.eq_zero_or_pos lh.n with hn | hn
  · left
    simp [commit, hn, durable_of_clear hd]
  by_cases hk : k ≤ lh.n
  · -- the power went off during `write_log`: the header is still clear
    left
    rw [commit_of_pos hn, List.take_append_of_le_length (by rw [writeLog_length]; exact hk),
      writes_writeLog_take]
    exact durable_of_clear hd
  by_cases hk' : k < (commit lh cached d).length
  · -- the header was written and not yet cleared: recovery installs the transaction
    right
    obtain ⟨j, rfl⟩ : ∃ j, k = lh.n + 1 + j := ⟨k - lh.n - 1, by omega⟩
    rw [commit_of_pos hn] at hk' ⊢
    set d₂ := (d.writes (writeLog lh cached)).write (writeHead lh (d.writes (writeLog lh cached)))
    have hj : j ≤ (installTrans lh d₂).length := by
      simp only [List.length_append, List.length_cons, List.length_nil,
        writeLog_length] at hk'
      omega
    have htake : (writeLog lh cached ++ (writeHead lh (d.writes (writeLog lh cached)) ::
        (installTrans lh d₂ ++ [writeHead { lh with n := 0 } (d₂.writes (installTrans lh d₂))]))).take
          (lh.n + 1 + j) =
        writeLog lh cached ++ (writeHead lh (d.writes (writeLog lh cached)) ::
          (installTrans lh d₂).take j) := by
      rw [List.take_append, List.take_of_length_le (by rw [writeLog_length]; omega),
        writeLog_length, show lh.n + 1 + j - lh.n = j + 1 by omega, List.take_succ_cons,
        List.take_append_of_le_length hj]
    rw [htake, Disk.writes_append, Disk.writes_cons, installTrans_after_head, ← List.map_take,
      Disk.writes_map_home, durable_eq]
    simp only
    rw [installPairs_after_head, Replay.updates_updates_take, write_writeHead]
    simp only
    rw [writes_writeLog_home]
  · -- the header was cleared too: the commit is over
    right
    rw [List.take_of_length_le (by omega), durable_of_clear (writes_commit lh cached hd).1]
    exact (writes_commit lh cached hd).2

end Commit

/-! ## Every step keeps the invariant -/

section Preservation

variable [Fintype ι] {m m' : Machine ι α} {ws : List (DWrite α)}

lemma Coherent.beginOp (h : Coherent m) {p : ι} (hs : step m (.beginOp p) = .next ws m') :
    Coherent m' := by
  obtain ⟨-, hp, -, lg, hb, rfl⟩ := step_beginOp_inv hs
  obtain ⟨hc, -, rfl⟩ := beginOp_eq_some hb
  exact { head_clear := h.head_clear, clean := h.clean, dirty := h.dirty,
          not_committing := hc,
          outstanding := by simp [h.outstanding, card_active_update_some _ hp] }

lemma Coherent.logWrite (h : Coherent m) {p : ι} {b : ℕ} {v : α}
    (hs : step m (.logWrite p b v) = .next ws m') : Coherent m' := by
  obtain ⟨-, bs, lg, hp, hw, -, rfl⟩ := step_logWrite_inv hs
  obtain ⟨-, -, -, rfl⟩ := logWrite_eq_ok hw
  refine { head_clear := h.head_clear, clean := ?_, dirty := ?_,
           not_committing := h.not_committing,
           outstanding := by simp [h.outstanding, active_update_some_of_some _ hp] }
  · -- the written buffer is dirty; the others are as they were
    intro b' v' hc
    by_cases hb : b' = b
    · subst hb; simp at hc
    · exact h.clean b' v' (by simpa [Function.update_of_ne hb] using hc)
  · intro b'
    by_cases hb : b' = b
    · subst hb; simp [mem_logged_absorb]
    · simp only [Function.update_of_ne hb, mem_logged_absorb, hb, false_or]
      exact h.dirty b'

lemma Coherent.endOp_of_false (h : Coherent m) {p : ι} {lg : Log}
    (hp : ∃ bs, m.ops p = some bs) (he : endOp m.log = .ok (lg, false)) :
    Coherent { m with log := lg, ops := Function.update m.ops p none } := by
  obtain ⟨bs, hp⟩ := hp
  obtain ⟨-, -, rfl⟩ := endOp_eq_ok he
  have hcard := card_active_update_none hp
  have hout := h.outstanding
  exact { head_clear := h.head_clear, clean := h.clean, dirty := h.dirty, not_committing := rfl,
          outstanding := by simp only; omega }

/-- The cache after a commit: each logged block's buffer is clean and holds what the file
system saw; the other buffers are as they were. -/
lemma committed_cache (h : Coherent m) (p : ι) {lg : Log} (hlh : lg.lh = m.log.lh) (b : ℕ) :
    (m.committed lg p).cache b =
      if b ∈ logged m.log.lh then some ⟨m.view b, false⟩ else m.cache b := by
  simp only [committed, hlh]
  split_ifs with hn hb hb
  · rw [installCache_of_logged hb m.disk.home, write_writeHead]
    simp only
    rw [installPairs_writeLog, commitPairs, h.updates_logged_view]
  · exact installCache_of_not_logged hb
  · exact absurd hb (by simp [logged, Nat.eq_zero_of_not_pos hn])
  · rfl

lemma committed_disk (h : Coherent m) (p : ι) {lg : Log} (hlh : lg.lh = m.log.lh) :
    (m.committed lg p).disk.head.n = 0 ∧ (m.committed lg p).disk.home = m.view := by
  simp only [committed, hlh]
  obtain ⟨hn, hhome⟩ := writes_commit m.log.lh m.view h.head_clear
  exact ⟨hn, hhome.trans h.updates_logged_view⟩

omit [DecidableEq ι] in
/-- The commit runs when its process is the only one inside an operation. -/
lemma Coherent.others_idle_of_commit (h : Coherent m) {p : ι} {lg : Log}
    (hp : ∃ bs, m.ops p = some bs) (he : endOp m.log = .ok (lg, true)) :
    ∀ q, q ≠ p → m.ops q = none := by
  obtain ⟨bs, hp⟩ := hp
  obtain ⟨-, hlast, -⟩ := endOp_eq_ok he
  have hpa : p ∈ active m.ops := Iff.mpr mem_active (by simp [hp])
  have hone : (active m.ops).card = 1 := by
    have := Finset.card_pos.mpr ⟨p, hpa⟩
    have := hlast.mp rfl
    rw [h.outstanding] at this
    omega
  obtain ⟨r, hr⟩ := Finset.card_eq_one.mp hone
  have hrp : r = p := by rw [hr] at hpa; exact (Finset.mem_singleton.mp hpa).symm
  intro q hq
  have hqa : q ∉ active m.ops := by rw [hr, hrp]; simpa using hq
  simpa [mem_active] using hqa

lemma Coherent.commit (h : Coherent m) {p : ι} {lg : Log}
    (hp : ∃ bs, m.ops p = some bs) (he : endOp m.log = .ok (lg, true)) :
    Coherent (m.committed lg p) := by
  obtain ⟨bs, hp'⟩ := hp
  obtain ⟨-, hlast, hlg⟩ := endOp_eq_ok he
  have hlh : lg.lh = m.log.lh := by rw [hlg]
  obtain ⟨hn, hhome⟩ := committed_disk h p hlh
  refine { head_clear := hn, clean := ?_, dirty := ?_, not_committing := rfl, outstanding := ?_ }
  · -- installed buffers hold the new home contents; the others still match the disk
    intro b v hc
    rw [committed_cache h p hlh] at hc
    rw [hhome]
    split_ifs at hc with hb
    · cases hc; rfl
    · rw [h.view_of_not_logged hb]
      exact h.clean b v hc
  · -- the header is empty and no buffer is dirty any more
    intro b
    have hnil : logged (m.committed lg p).log.lh = [] := by simp [committed, afterCommit, logged]
    rw [hnil, committed_cache h p hlh]
    split_ifs with hb
    · simp
    · simp only [List.not_mem_nil, iff_false, not_exists]
      intro v hv
      exact hb ((h.dirty b).mp ⟨v, hv⟩)
  · have hcard := card_active_update_none hp'
    have hout := h.outstanding
    have := hlast.mp rfl
    simp only [committed, afterCommit, hlg]
    omega

lemma Coherent.bread (h : Coherent m) {b : ℕ} (hs : step m (.bread b) = .next ws m') :
    Coherent m' := by
  obtain ⟨-, hc, -, rfl⟩ := step_bread_inv hs
  have hb : b ∉ logged m.log.lh := fun hb => by
    obtain ⟨v, hv⟩ := (h.dirty b).mpr hb
    simp [hc] at hv
  refine { head_clear := h.head_clear, clean := ?_, dirty := ?_,
           not_committing := h.not_committing, outstanding := h.outstanding }
  · intro b' v hv
    by_cases hb' : b' = b
    · subst hb'; simp at hv; exact hv.symm
    · exact h.clean b' v (by simpa [Function.update_of_ne hb'] using hv)
  · intro b'
    by_cases hb' : b' = b
    · subst hb'; simpa using hb
    · simpa [Function.update_of_ne hb'] using h.dirty b'

lemma Coherent.evict (h : Coherent m) {b : ℕ} (hs : step m (.evict b) = .next ws m') :
    Coherent m' := by
  obtain ⟨-, ⟨v, hc⟩, -, rfl⟩ := step_evict_inv hs
  have hb : b ∉ logged m.log.lh := fun hb => by
    obtain ⟨v', hv⟩ := (h.dirty b).mpr hb
    simp [hc] at hv
  refine { head_clear := h.head_clear, clean := ?_, dirty := ?_,
           not_committing := h.not_committing, outstanding := h.outstanding }
  · intro b' v' hv
    by_cases hb' : b' = b
    · subst hb'; simp at hv
    · exact h.clean b' v' (by simpa [Function.update_of_ne hb'] using hv)
  · intro b'
    by_cases hb' : b' = b
    · subst hb'; simpa using hb
    · simpa [Function.update_of_ne hb'] using h.dirty b'

omit [DecidableEq ι] in
/-- A boot leaves a coherent machine. -/
lemma coherent_boot (size : ℕ) (d : Disk α) : Coherent ((crashed size d).boot : Machine ι α) := by
  have hzero : (active (fun _ => none : ι → Option (List ℕ))).card = 0 := by simp [active]
  refine { head_clear := recovered_head_n d, clean := ?_, dirty := ?_, not_committing := rfl,
           outstanding := hzero.symm }
  · intro b v hc
    simp only [boot, crashed] at hc ⊢
    by_cases hb : b ∈ logged (readHead LogHeader.zero d)
    · rw [installCache_of_logged hb d.home] at hc
      cases hc
      rw [show d.writes (recoverFromLog LogHeader.zero d).2 = recovered d from rfl,
        recovered_eq, installPairs_readHead]
    · rw [installCache_of_not_logged hb] at hc
      cases hc
  · intro b
    have hnil : logged ((crashed size d : Machine ι α).boot.log.lh) = [] := by
      simp [boot, recoverFromLog, logged]
    rw [hnil]
    simp only [List.not_mem_nil, iff_false, not_exists]
    intro v hv
    simp only [boot, crashed] at hv
    by_cases hb : b ∈ logged (readHead LogHeader.zero d)
    · rw [installCache_of_logged hb d.home] at hv
      simp at hv
    · rw [installCache_of_not_logged hb] at hv
      simp at hv

/-- What every reachable machine satisfies: a running machine is coherent, and a stopped
machine is a crashed one. -/
def Sound (size : ℕ) (m : Machine ι α) : Prop :=
  (m.up = true → Coherent m) ∧ (m.up = false → m = crashed size m.disk)

omit [DecidableEq ι] in
lemma sound_crashed (size : ℕ) (d : Disk α) : Sound size (crashed size d : Machine ι α) :=
  ⟨fun h => by simp [crashed] at h, fun _ => rfl⟩

lemma Sound.step {size : ℕ} {a : Act ι α} (h : Sound size m) (hs : step m a = .next ws m') :
    Sound size m' := by
  cases hup : m.up
  · -- a stopped machine can only boot
    have hm := h.2 hup
    cases a with
    | recover =>
      obtain ⟨-, -, rfl⟩ := step_recover_inv hs
      rw [hm]
      exact ⟨fun _ => coherent_boot size _, fun h' => by simp [boot] at h'⟩
    | beginOp p => exact absurd (step_beginOp_inv hs).1 (by simp [hup])
    | logWrite p b v => exact absurd (step_logWrite_inv hs).1 (by simp [hup])
    | endOp p => exact absurd (step_endOp_inv hs).1 (by simp [hup])
    | bread b => exact absurd (step_bread_inv hs).1 (by simp [hup])
    | evict b => exact absurd (step_evict_inv hs).1 (by simp [hup])
  · have hc := h.1 hup
    have keep : Coherent m' → m'.up = true → Sound size m' :=
      fun hc' hup' => ⟨fun _ => hc', fun h' => by simp [hup'] at h'⟩
    cases a with
    | beginOp p =>
      obtain ⟨-, -, -, lg, -, rfl⟩ := step_beginOp_inv hs
      exact keep (hc.beginOp hs) hup
    | logWrite p b v =>
      obtain ⟨-, bs, lg, -, -, -, rfl⟩ := step_logWrite_inv hs
      exact keep (hc.logWrite hs) hup
    | endOp p =>
      obtain ⟨-, hp, ⟨lg, he, -, rfl⟩ | ⟨lg, he, -, rfl⟩⟩ := step_endOp_inv hs
      · exact keep (hc.endOp_of_false hp he) hup
      · exact keep (hc.commit hp he) hup
    | bread b =>
      obtain ⟨-, -, -, rfl⟩ := step_bread_inv hs
      exact keep (hc.bread hs) hup
    | evict b =>
      obtain ⟨-, -, -, rfl⟩ := step_evict_inv hs
      exact keep (hc.evict hs) hup
    | recover => exact absurd (step_recover_inv hs).1 (by simp [hup])

/-- Every reachable machine is sound. -/
theorem sound_of_reachable {size : ℕ} {adm : Machine ι α → Act ι α → Prop}
    (hr : Reachable size adm m) : Sound size m := by
  induction hr with
  | boot d => exact sound_crashed size d
  | step _ _ hs ih => exact ih.step hs
  | crash k _ _ _ _ => exact sound_crashed size _

end Preservation

end Xv6.FsLog
