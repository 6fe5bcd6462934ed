import Xv6.Log.Machine

/-!
# Recovery

`recover_from_log` installs whatever the on-disk header names and then clears the header.
This file computes the disk it leaves (`recovered_eq`), shows that a disk whose header is
clear is its own recovery, and that a power loss in the middle of recovery is harmless:
booting again leaves the same disk (`recovered_writes_take_recover`).
-/

namespace Xv6.FsLog

variable {α : Type*}

/-- `read_head` copies exactly the slots that `install_trans` then reads. -/
lemma installPairs_readHead (lh : LogHeader) (d : Disk α) (log : ℕ → α) :
    installPairs (readHead lh d) log = installPairs d.head log := by
  simp only [installPairs, readHead]
  refine List.map_congr_left fun t ht => ?_
  simp [List.mem_range.mp ht]

lemma writes_installTrans (lh : LogHeader) (d : Disk α) :
    d.writes (installTrans lh d) =
      { d with home := Replay.updates d.home (installPairs lh d.log) } :=
  Disk.writes_map_home d _

/-- The disk that a boot's recovery leaves: the header cleared (its block numbers kept),
the log untouched, and the logged home blocks installed. -/
lemma recovered_eq (d : Disk α) :
    recovered d = { head := { n := 0, block := d.head.block }, log := d.log,
                    home := Replay.updates d.home (installPairs d.head d.log) } := by
  simp only [recovered, recoverFromLog, Disk.writes_append, writes_installTrans,
    installPairs_readHead, writeHead]
  ext <;> simp [Disk.writes, Disk.write]

@[simp] lemma recovered_head_n (d : Disk α) : (recovered d).head.n = 0 := by
  rw [recovered_eq]

lemma durable_eq (d : Disk α) :
    durable d = Replay.updates d.home (installPairs d.head d.log) := by
  rw [durable, recovered_eq]

/-- A disk whose header is clear is its own recovery. -/
lemma recovered_of_clear {d : Disk α} (h : d.head.n = 0) : recovered d = d := by
  rw [recovered_eq]
  have hp : installPairs d.head d.log = [] := by simp [installPairs, h]
  ext <;> simp [hp, h]

lemma durable_of_clear {d : Disk α} (h : d.head.n = 0) : durable d = d.home := by
  rw [durable, recovered_of_clear h]

/-- **Recovery is idempotent.** A power loss after any prefix of the sector writes of
`recover_from_log`, followed by a new boot, leaves the disk that one uninterrupted
recovery leaves. -/
theorem recovered_writes_take_recover (d : Disk α) (k : ℕ) :
    recovered (d.writes ((recoverFromLog LogHeader.zero d).2.take k)) = recovered d := by
  set lh₁ := readHead LogHeader.zero d
  have hws : (recoverFromLog LogHeader.zero d).2 =
      installTrans lh₁ d ++
        [writeHead { lh₁ with n := 0 } (d.writes (installTrans lh₁ d))] := rfl
  by_cases hk : k ≤ (installTrans lh₁ d).length
  · -- the power went off during `install_trans`: the header still names the transaction
    have hcut : d.writes ((installTrans lh₁ d).take k) =
        { d with home := Replay.updates d.home ((installPairs d.head d.log).take k) } := by
      rw [installTrans, ← List.map_take, Disk.writes_map_home, installPairs_readHead]
    rw [hws, List.take_append_of_le_length hk, hcut, recovered_eq, recovered_eq]
    simp only
    rw [Replay.updates_updates_take]
  · -- the power went off after the header was cleared: the disk is already recovered
    rw [List.take_of_length_le (by rw [hws]; simp; omega)]
    exact recovered_of_clear (recovered_head_n d)

end Xv6.FsLog
