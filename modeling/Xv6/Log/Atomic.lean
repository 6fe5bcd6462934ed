import Xv6.Log.Crash

/-!
# Transactions are atomic across power losses

The claim of log.c's opening comment, for every reachable machine and every step it can
take: a power loss after any prefix of the step's sector writes, followed by a boot,
leaves the home blocks that survived the step's start or those that survive its end
(`crash_atomic`).  What survives changes only at a commit, and then to the home blocks as
the file system saw them, at a moment when no other process was inside an operation.  So
the recovered disk is always the file system as some group of whole operations left it.
-/

namespace Xv6.FsLog

variable {ι α : Type*} [DecidableEq ι] [Fintype ι]

open Machine

/-- **Atomicity of the log.** For every machine reachable from a boot of any disk, through
any interleaving of the processes' operations, the cache's reads and recyclings, boots,
and power losses at any point, and for every step `a` it takes:

* a power loss after any prefix of the step's sector writes recovers to what survived
  before the step or to what survives after it;
* what survives changes only if the step is the `end_op` of a process `p` that commits,
  and then it becomes the file system's view of the home blocks, while every other
  process is outside its operation;
* if the step is itself a boot, a power loss during its recovery followed by a new boot
  leaves the same disk as one boot (recovery is idempotent). -/
theorem crash_atomic {size : ℕ} {adm : Machine ι α → Act ι α → Prop}
    {m m' : Machine ι α} {a : Act ι α} {ws : List (DWrite α)}
    (hr : Reachable size adm m) (hs : step m a = .next ws m') :
    (∀ k, durable (m.disk.writes (ws.take k)) = durable m.disk ∨
        durable (m.disk.writes (ws.take k)) = durable m'.disk) ∧
      (durable m'.disk = durable m.disk ∨
        ∃ p, a = .endOp p ∧ durable m'.disk = m.view ∧ ∀ q, q ≠ p → m.ops q = none) ∧
      (a = .recover → ∀ k, recovered (m.disk.writes (ws.take k)) = recovered m.disk) := by
  have hsound := sound_of_reachable hr
  -- the steps that issue no sector write and keep the disk
  have quiet : ws = [] → m'.disk = m.disk → a ≠ .recover →
      (∀ k, durable (m.disk.writes (ws.take k)) = durable m.disk ∨
          durable (m.disk.writes (ws.take k)) = durable m'.disk) ∧
        (durable m'.disk = durable m.disk ∨
          ∃ p, a = .endOp p ∧ durable m'.disk = m.view ∧ ∀ q, q ≠ p → m.ops q = none) ∧
        (a = .recover → ∀ k, recovered (m.disk.writes (ws.take k)) = recovered m.disk) := by
    rintro rfl hd ha
    exact ⟨fun k => Or.inl (by simp), Or.inl (by rw [hd]), fun h => absurd h ha⟩
  cases a with
  | beginOp p =>
    obtain ⟨-, -, rfl, lg, -, rfl⟩ := step_beginOp_inv hs
    exact quiet rfl rfl (by simp)
  | logWrite p b v =>
    obtain ⟨-, bs, lg, -, -, rfl, rfl⟩ := step_logWrite_inv hs
    exact quiet rfl rfl (by simp)
  | bread b =>
    obtain ⟨-, -, rfl, rfl⟩ := step_bread_inv hs
    exact quiet rfl rfl (by simp)
  | evict b =>
    obtain ⟨-, -, rfl, rfl⟩ := step_evict_inv hs
    exact quiet rfl rfl (by simp)
  | endOp p =>
    obtain ⟨hup, hp, ⟨lg, -, rfl, rfl⟩ | ⟨lg, he, rfl, rfl⟩⟩ := step_endOp_inv hs
    · exact quiet rfl rfl (by simp)
    · -- the last `end_op` of a group commits
      have hc := hsound.1 hup
      obtain ⟨-, -, hlg⟩ := endOp_eq_ok he
      have hlh : lg.lh = m.log.lh := by rw [hlg]
      obtain ⟨hn, hhome⟩ := committed_disk hc p hlh
      have hafter : durable (m.committed lg p).disk = m.view := by
        rw [durable_of_clear hn, hhome]
      refine ⟨fun k => ?_, Or.inr ⟨p, rfl, hafter, hc.others_idle_of_commit hp he⟩,
        fun h => by simp at h⟩
      have key := durable_commit_take m.log.lh m.view hc.head_clear k
      rw [commitPairs, hc.updates_logged_view] at key
      rw [durable_of_clear hc.head_clear, hafter, hlh]
      exact key
  | recover =>
    obtain ⟨hdown, rfl, rfl⟩ := step_recover_inv hs
    have hm := hsound.2 hdown
    have hlh : m.log.lh = LogHeader.zero := by rw [hm]; rfl
    have hidem : ∀ k, recovered (m.disk.writes ((recoverFromLog m.log.lh m.disk).2.take k)) =
        recovered m.disk := by
      rw [hlh]
      exact recovered_writes_take_recover m.disk
    refine ⟨fun k => Or.inl ?_, Or.inl ?_, fun _ => hidem⟩
    · exact congrArg Disk.home (hidem k)
    · have hfull := congrArg Disk.home (hidem (recoverFromLog m.log.lh m.disk).2.length)
      rw [List.take_length] at hfull
      exact hfull

/-- `crash_atomic` at a committing `end_op`: a machine boots on a clean disk whose blocks hold
`5`, and process `0` begins an operation, writes `9` to block `7` and ends it.  A power loss
before the commit leaves `5` in block `7`, one after it `9`. -/
theorem crash_atomic_commitOp :
    ∃ (m : Machine (Fin 1) ℕ) (ws : List (DWrite ℕ)) (m' : Machine (Fin 1) ℕ),
      Reachable 30 (fun _ _ => True) m ∧ step m (.endOp 0) = .next ws m' ∧
      durable m.disk 7 = 5 ∧ durable m'.disk 7 = 9 ∧
      ((∀ k, durable (m.disk.writes (ws.take k)) = durable m.disk ∨
          durable (m.disk.writes (ws.take k)) = durable m'.disk) ∧
        (durable m'.disk = durable m.disk ∨
          ∃ p, (Act.endOp 0 : Act (Fin 1) ℕ) = .endOp p ∧ durable m'.disk = m.view ∧
            ∀ q, q ≠ p → m.ops q = none) ∧
        ((Act.endOp 0 : Act (Fin 1) ℕ) = .recover →
          ∀ k, recovered (m.disk.writes (ws.take k)) = recovered m.disk)) := by
  have hr : Reachable 30 (fun _ _ => True) _ :=
    (((Reachable.boot (⟨LogHeader.zero, fun _ => 0, fun _ => 5⟩ : Disk ℕ)).step (a := .recover)
      trivial rfl).step (a := .beginOp (0 : Fin 1)) trivial rfl).step (a := .logWrite 0 7 9)
      trivial rfl
  have hs := @crash_atomic (Fin 1) ℕ _ _ 30 (fun _ _ => True) _ _ (.endOp 0) _ hr rfl
  exact ⟨_, _, _, hr, rfl, by decide, by decide, hs⟩

end Xv6.FsLog
