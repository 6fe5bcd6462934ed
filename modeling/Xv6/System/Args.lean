import Xv6.System.Run

/-!
# System-call arguments (syscall.c)

A system call finds its arguments on the user stack, above the saved `%esp`.  The kernel
reads them, and the memory they point at, through the caller's page table.  `fetchint`,
`fetchstr`, `argint`, `argptr` and `argstr` first check each address against `p->sz`, in
32-bit unsigned arithmetic.

The checks keep every access inside `[0, p->sz)` as long as `p->sz ≤ KERNBASE`: then
neither `addr + 4` nor `(uint)i + size` can wrap around.  Above that bound they could (with
`p->sz = 0xFFFFFFFF`, a pointer near the top of the address space would pass `argptr`'s check
with a range that runs past `2^32`), but no run of the kernel gets there: every size stays
below `KERNBASE` (`sizeOk_of_reachable`).  `fetchstr` needs no bound, since its scan stops at
`p->sz`.

The trap frame is not part of the model, so the saved `%esp` is an argument, `esp`.
-/

namespace Xv6

open Prog

/-- A byte load by the kernel at user address `va`, through the current process's page
table: the page must be present, and otherwise the load faults in the kernel. -/
def kernelLoadByte (va : UInt32) : Prog Kernel UInt8 := do
  let k ← get
  if mmuAllows k va PTE_P then pure ((byteAt k (k.procs k.cur).pgdir va).getD 0)
  else do
    pageFaultTrap false
    pure 0

/-- `*(int*)addr` in the kernel: the four bytes from `addr`, little-endian. -/
def loadInt (addr : UInt32) : Prog Kernel Int32 := do
  let b0 ← kernelLoadByte addr
  let b1 ← kernelLoadByte (addr + 1)
  let b2 ← kernelLoadByte (addr + 2)
  let b3 ← kernelLoadByte (addr + 3)
  pure (b0.toUInt32 ||| b1.toUInt32 <<< 8 ||| b2.toUInt32 <<< 16 ||| b3.toUInt32 <<< 24).toInt32

/-- `fetchint(addr, ip)`: `some v` for a return of `0` with `*ip = v`, `none` for `-1`. -/
def fetchint (addr : UInt32) : Prog Kernel (Option Int32) := do
  let curproc ← myproc
  let p ← getProc curproc
  if addr ≥ p.sz ∨ addr + 4 > p.sz then pure none
  else do
    let v ← loadInt addr
    pure (some v)

/-- The loop of `fetchstr` at `s`, for the string at `pp` and the end `ep = p->sz`: the
length `s - *pp` at the first `0`, and `-1` at `ep`.  `fuel` counts the bytes from `s` to
`ep`. -/
def fetchstrLoop (pp ep : UInt32) : ℕ → UInt32 → Prog Kernel Int32
  | 0, _ => pure (-1)
  | fuel + 1, s =>
    if s < ep then do
      let c ← kernelLoadByte s
      if c = 0 then pure (s - pp).toInt32 else fetchstrLoop pp ep fuel (s + 1)
    else pure (-1)

/-- `fetchstr(addr, pp)`: the length of the string at `addr`, or `-1`; `*pp` is `addr`. -/
def fetchstr (addr : UInt32) : Prog Kernel Int32 := do
  let curproc ← myproc
  let p ← getProc curproc
  if addr ≥ p.sz then pure (-1)
  else fetchstrLoop addr p.sz (p.sz - addr).toNat addr

/-- `argint(n, ip)`: the `n`th argument word, at `esp + 4 + 4*n`, the `int` product added
to the `uint` as C adds them. -/
def argint (esp : UInt32) (n : Int32) : Prog Kernel (Option Int32) :=
  fetchint (esp + 4 + (4 * n).toUInt32)

/-- `argptr(n, pp, size)`: `some` of the pointer for a return of `0` with `*pp` set, `none`
for `-1`. -/
def argptr (esp : UInt32) (n size : Int32) : Prog Kernel (Option UInt32) := do
  let curproc ← myproc
  match ← argint esp n with
  | none => pure none
  | some i => do
    let p ← getProc curproc
    if size < 0 ∨ i.toUInt32 ≥ p.sz ∨ i.toUInt32 + size.toUInt32 > p.sz then pure none
    else pure (some i.toUInt32)

/-- `argstr(n, pp)`: the length of the string the `n`th argument points at, or `-1`. -/
def argstr (esp : UInt32) (n : Int32) : Prog Kernel Int32 := do
  match ← argint esp n with
  | none => pure (-1)
  | some addr => fetchstr addr.toUInt32

/-! ## What a returning call has read -/

/-- `mmuAllows` found the table entry of `va`, so the page table names a byte there. -/
lemma isSome_byteAt_of_mmuAllows {k : Kernel} {va perm : UInt32} (h : mmuAllows k va perm) :
    (byteAt k (k.procs k.cur).pgdir va).isSome := by
  unfold byteAt pteOf
  cases hwalk : walk k (k.procs k.cur).pgdir va with
  | none => simp [mmuAllows, hwalk] at h
  | some pte => rfl

/-- A byte load returns only where the MMU let it through, with the byte the page table
names there, and changes nothing. -/
lemma kernelLoadByte_eq_ok {va : UInt32} {k k' : Kernel} {b : UInt8}
    (h : kernelLoadByte va k = .ok b k') :
    k' = k ∧ byteAt k (k.procs k.cur).pgdir va = some b := by
  unfold kernelLoadByte at h
  rw [bind_of_ok (get_apply k), run_ite] at h
  split at h
  · rename_i hmmu
    cases h
    obtain ⟨c, hc⟩ := Option.isSome_iff_exists.mp (isSome_byteAt_of_mmuAllows hmmu)
    rw [hc]
    exact ⟨rfl, rfl⟩
  · obtain ⟨⟨⟩, k₁, hfault, -⟩ := Iff.mp bind_eq_ok h
    exact absurd hfault (pageFaultTrap_ne_ok _ _ _ _)

/-- `*(int*)addr` returns only in the state it started from. -/
lemma loadInt_eq_ok {addr : UInt32} {k k' : Kernel} {v : Int32} (h : loadInt addr k = .ok v k') :
    k' = k := by
  unfold loadInt at h
  obtain ⟨b0, k₀, h0, h⟩ := Iff.mp bind_eq_ok h
  obtain ⟨b1, k₁, h1, h⟩ := Iff.mp bind_eq_ok h
  obtain ⟨b2, k₂, h2, h⟩ := Iff.mp bind_eq_ok h
  obtain ⟨b3, k₃, h3, h⟩ := Iff.mp bind_eq_ok h
  cases h
  rw [(kernelLoadByte_eq_ok h3).1, (kernelLoadByte_eq_ok h2).1, (kernelLoadByte_eq_ok h1).1,
    (kernelLoadByte_eq_ok h0).1]

/-- A return of `0` from `fetchint` means that both of its checks passed. -/
lemma fetchint_eq_some {addr : UInt32} {k k' : Kernel} {v : Int32}
    (h : fetchint addr k = .ok (some v) k') :
    k' = k ∧ addr < (k.procs k.cur).sz ∧ addr + 4 ≤ (k.procs k.cur).sz := by
  unfold fetchint at h
  rw [bind_of_ok (myproc_apply k), bind_of_ok (getProc_apply _ _), run_ite] at h
  split at h
  · cases h
  · rename_i hcheck
    obtain ⟨w, k₁, hload, h⟩ := Iff.mp bind_eq_ok h
    cases h
    obtain ⟨hlt, hle⟩ := not_or.mp hcheck
    exact ⟨loadInt_eq_ok hload, UInt32.not_le.mp hlt, UInt32.not_lt.mp hle⟩

/-- The address `j` bytes on from `s + 1`. -/
lemma add_one_add_toUInt32 (s : UInt32) (j : ℕ) : s + 1 + j.toUInt32 = s + (j + 1).toUInt32 := by
  simp only [Nat.toUInt32, UInt32.ofNat_add]
  rw [UInt32.add_assoc, UInt32.add_comm 1]
  rfl

/-- What a return of the scan from `s` says: it changed nothing, and a result other than
`-1` is `s + j - pp` for the first `0` at or after `s`, `j` bytes on and below `ep`. -/
lemma fetchstrLoop_eq_ok {pp ep : UInt32} {k k' : Kernel} {r : Int32} :
    ∀ {fuel : ℕ} {s : UInt32}, fetchstrLoop pp ep fuel s k = .ok r k' →
      k' = k ∧ (r = -1 ∨ ∃ j, s.toNat + j < ep.toNat ∧ r = (s + j.toUInt32 - pp).toInt32 ∧
        byteAt k (k.procs k.cur).pgdir (s + j.toUInt32) = some 0 ∧
        ∀ i < j, ∃ b, byteAt k (k.procs k.cur).pgdir (s + i.toUInt32) = some b ∧ b ≠ 0)
  | 0, s, h => by
    cases h
    exact ⟨rfl, .inl rfl⟩
  | fuel + 1, s, h => by
    unfold fetchstrLoop at h
    rw [run_ite] at h
    split at h
    · rename_i hs
      have hs' := UInt32.lt_iff_toNat_lt.mp hs
      obtain ⟨c, k₁, hload, hnext⟩ := Iff.mp bind_eq_ok h
      obtain ⟨rfl, hc⟩ := kernelLoadByte_eq_ok hload
      rw [run_ite] at hnext
      split at hnext
      · -- the byte at `s` ends the string
        rename_i hc0
        cases hnext
        refine ⟨rfl, .inr ⟨0, by simpa using hs', by simp, by simpa [hc0] using hc, ?_⟩⟩
        intro i hi
        exact absurd hi (Nat.not_lt_zero i)
      · -- the string goes on from `s + 1`, which does not wrap below `ep`
        rename_i hc0
        have hsucc : (s + 1).toNat = s.toNat + 1 := by
          have hep := ep.toNat_lt
          rw [UInt32.toNat_add, UInt32.toNat_one]
          omega
        obtain ⟨rfl, hr⟩ := fetchstrLoop_eq_ok hnext
        refine ⟨rfl, hr.imp id fun ⟨j, hj, hrj, hz, hnz⟩ => ⟨j + 1, by omega, ?_, ?_, ?_⟩⟩
        · rwa [← add_one_add_toUInt32]
        · rwa [← add_one_add_toUInt32]
        · intro i hi
          cases i with
          | zero => exact ⟨c, by simpa using hc, hc0⟩
          | succ i =>
            rw [← add_one_add_toUInt32]
            exact hnz i (by omega)
    · cases h
      exact ⟨rfl, .inl rfl⟩

/-- What a return of `fetchstr` says: it changed nothing, and a result other than `-1` is
the distance `j` from `addr` to the first `0` at or after it, below `p->sz`. -/
lemma fetchstr_eq_ok {addr : UInt32} {k k' : Kernel} {r : Int32} (h : fetchstr addr k = .ok r k') :
    k' = k ∧ (r = -1 ∨ ∃ j, addr.toNat + j < (k.procs k.cur).sz.toNat ∧ r = j.toUInt32.toInt32 ∧
      byteAt k (k.procs k.cur).pgdir (addr + j.toUInt32) = some 0 ∧
      ∀ i < j, ∃ b, byteAt k (k.procs k.cur).pgdir (addr + i.toUInt32) = some b ∧ b ≠ 0) := by
  unfold fetchstr at h
  rw [bind_of_ok (myproc_apply k), bind_of_ok (getProc_apply _ _), run_ite] at h
  split at h
  · cases h
    exact ⟨rfl, .inl rfl⟩
  · obtain ⟨rfl, hr⟩ := fetchstrLoop_eq_ok h
    refine ⟨rfl, hr.imp id fun ⟨j, hj, hrj, hz, hnz⟩ => ⟨j, hj, ?_, hz, hnz⟩⟩
    rw [hrj, UInt32.add_comm, UInt32.add_sub_cancel]

/-- A return of `0` from `argptr` means that its argument was fetched and that its three
checks passed. -/
lemma argptr_eq_some {esp : UInt32} {n size : Int32} {k k' : Kernel} {pp : UInt32}
    (h : argptr esp n size k = .ok (some pp) k') :
    k' = k ∧ 0 ≤ size ∧ pp < (k.procs k.cur).sz ∧ pp + size.toUInt32 ≤ (k.procs k.cur).sz := by
  unfold argptr at h
  rw [bind_of_ok (myproc_apply k)] at h
  obtain ⟨a, k₁, harg, hrest⟩ := Iff.mp bind_eq_ok h
  cases a with
  | none => cases hrest
  | some i =>
    obtain ⟨rfl, -⟩ := fetchint_eq_some harg
    dsimp only at hrest
    rw [bind_of_ok (getProc_apply _ _), run_ite] at hrest
    split at hrest
    · cases hrest
    · rename_i hcheck
      cases hrest
      obtain ⟨hsize, hlt, hle⟩ := by simpa only [not_or] using hcheck
      exact ⟨rfl, Int32.not_lt.mp hsize, UInt32.not_le.mp hlt, UInt32.not_lt.mp hle⟩

/-! ## The checks below `KERNBASE` -/

/-- Below `KERNBASE` a check `a + b ≤ sz` in 32 bits, with `a < sz` and `b ≤ 2^31`, is the
check on the numbers: the sum cannot wrap. -/
lemma toNat_add_le_of_le_KERNBASE {a b sz : UInt32} (ha : a < sz) (hb : b.toNat ≤ 2 ^ 31)
    (hsz : sz ≤ KERNBASE) (h : a + b ≤ sz) : a.toNat + b.toNat ≤ sz.toNat := by
  have ha' := UInt32.lt_iff_toNat_lt.mp ha
  have hsz' : sz.toNat ≤ 2 ^ 31 := UInt32.le_iff_toNat_le.mp hsz
  have h' := UInt32.le_iff_toNat_le.mp h
  rw [UInt32.toNat_add] at h'
  rwa [Nat.mod_eq_of_lt (by omega)] at h'

/-- The length `fetchstr` returns, read back as a number. -/
lemma toNatClampNeg_toInt32 {j : ℕ} (hj : j < 2 ^ 32) (h : 0 ≤ j.toUInt32.toInt32) :
    j.toUInt32.toInt32.toNatClampNeg = j := by
  rw [← Int32.toNat_toUInt32_of_le h, UInt32.toUInt32_toInt32, Nat.toUInt32, UInt32.toNat_ofNat',
    Nat.mod_eq_of_lt hj]

/-- With `p->sz ≤ KERNBASE` the argument checks keep the kernel inside the caller's memory:
an `int` that `fetchint` fetches lies in `[0, p->sz)`, as does the block `argptr` hands
out, and the string `fetchstr` measures ends at the first `0`, below `p->sz`. -/
theorem args_inside_of_sz_le {k : Kernel} (hsz : (k.procs k.cur).sz ≤ KERNBASE) :
    (∀ addr v k', fetchint addr k = .ok (some v) k' →
      addr.toNat + 4 ≤ (k.procs k.cur).sz.toNat) ∧
    (∀ esp n size pp k', argptr esp n size k = .ok (some pp) k' →
      0 ≤ size ∧ pp.toNat + size.toNatClampNeg ≤ (k.procs k.cur).sz.toNat) ∧
    (∀ addr len k', fetchstr addr k = .ok len k' → 0 ≤ len →
      addr.toNat + len.toNatClampNeg < (k.procs k.cur).sz.toNat ∧
      byteAt k (k.procs k.cur).pgdir (addr + len.toNatClampNeg.toUInt32) = some 0 ∧
      ∀ i < len.toNatClampNeg,
        ∃ b, byteAt k (k.procs k.cur).pgdir (addr + i.toUInt32) = some b ∧ b ≠ 0) := by
  refine ⟨fun addr v k' h => ?_, fun esp n size pp k' h => ?_, fun addr len k' h hlen => ?_⟩
  · obtain ⟨-, hlt, hle⟩ := fetchint_eq_some h
    exact toNat_add_le_of_le_KERNBASE hlt (by decide) hsz hle
  · obtain ⟨-, hsize, hlt, hle⟩ := argptr_eq_some h
    have hbound : size.toUInt32.toNat ≤ 2 ^ 31 := by
      rw [Int32.toNat_toUInt32_of_le hsize]
      exact (Int32.toNatClampNeg_lt size).le
    refine ⟨hsize, ?_⟩
    rw [← Int32.toNat_toUInt32_of_le hsize]
    exact toNat_add_le_of_le_KERNBASE hlt hbound hsz hle
  · obtain ⟨-, hr⟩ := fetchstr_eq_ok h
    rcases hr with rfl | ⟨j, hj, rfl, hz, hnz⟩
    · exact absurd hlen (by decide)
    · have hj32 : j < 2 ^ 32 := by
        have := (k.procs k.cur).sz.toNat_lt
        omega
      rw [toNatClampNeg_toInt32 hj32 hlen]
      exact ⟨hj, hz, hnz⟩

/-- `execKernel` with the process's size at `0xFFFFFFFF`, above `KERNBASE`, and the word
`0xFFFFFF00` at the top of its stack page, at user address `0x2FFC`. -/
def hugeSizeKernel : Kernel :=
  { execKernel.writeWord 0x803FA000 0x3FF 0xFFFFFF00 with
    procs := Function.update execKernel.procs 0 { execProc with sz := 0xFFFFFFFF } }

-- Above `KERNBASE` the check of `argptr` wraps: with the saved `%esp` at `0x2FF8`, the first
-- argument, `0xFFFFFF00`, passes as a pointer to `0x200` bytes, which run past `p->sz`.
example :
    argptr 0x2FF8 0 0x200 hugeSizeKernel = .ok (some 0xFFFFFF00) hugeSizeKernel ∧
      (hugeSizeKernel.procs hugeSizeKernel.cur).sz.toNat <
        (0xFFFFFF00 : UInt32).toNat + (0x200 : Int32).toNatClampNeg :=
  ⟨rfl, by decide⟩

/-- In every state that a run reaches from one where every size is below `KERNBASE`, the
argument checks keep the kernel inside the caller's memory. -/
theorem args_inside_caller_memory {k₀ k : Kernel} (h₀ : SizeOk k₀) (hk : Reachable Call.run k₀ k) :
    (∀ addr v k', fetchint addr k = .ok (some v) k' →
      addr.toNat + 4 ≤ (k.procs k.cur).sz.toNat) ∧
    (∀ esp n size pp k', argptr esp n size k = .ok (some pp) k' →
      0 ≤ size ∧ pp.toNat + size.toNatClampNeg ≤ (k.procs k.cur).sz.toNat) ∧
    (∀ addr len k', fetchstr addr k = .ok len k' → 0 ≤ len →
      addr.toNat + len.toNatClampNeg < (k.procs k.cur).sz.toNat ∧
      byteAt k (k.procs k.cur).pgdir (addr + len.toNatClampNeg.toUInt32) = some 0 ∧
      ∀ i < len.toNatClampNeg,
        ∃ b, byteAt k (k.procs k.cur).pgdir (addr + i.toUInt32) = some b ∧ b ≠ 0) :=
  args_inside_of_sz_le (UInt32.le_of_lt (sizeOk_of_reachable h₀ hk k.cur))

/-- The state after `sbrk(4096)` in the process of `execKernel`. -/
def grownExecKernel : Kernel :=
  (Call.run (.sbrk 4096) execKernel).stateD execKernel

/-- After `sbrk(4096)` from `execKernel`, a run of one call. -/
theorem args_inside_caller_memory_afterSbrk :
    SizeOk execKernel ∧ Reachable Call.run execKernel grownExecKernel ∧
    (∀ addr v k', fetchint addr grownExecKernel = .ok (some v) k' →
      addr.toNat + 4 ≤ (grownExecKernel.procs grownExecKernel.cur).sz.toNat) ∧
    (∀ esp n size pp k', argptr esp n size grownExecKernel = .ok (some pp) k' →
      0 ≤ size ∧
        pp.toNat + size.toNatClampNeg ≤ (grownExecKernel.procs grownExecKernel.cur).sz.toNat) ∧
    (∀ addr len k', fetchstr addr grownExecKernel = .ok len k' → 0 ≤ len →
      addr.toNat + len.toNatClampNeg < (grownExecKernel.procs grownExecKernel.cur).sz.toNat ∧
      byteAt grownExecKernel (grownExecKernel.procs grownExecKernel.cur).pgdir
          (addr + len.toNatClampNeg.toUInt32) = some 0 ∧
      ∀ i < len.toNatClampNeg, ∃ b,
        byteAt grownExecKernel (grownExecKernel.procs grownExecKernel.cur).pgdir
          (addr + i.toUInt32) = some b ∧ b ≠ 0) :=
  have h₀ : SizeOk execKernel := by decide
  have hk : Reachable Call.run execKernel grownExecKernel :=
    Reachable.ok Relation.ReflTransGen.refl _ (Result.eq_ok_of_returned execKernel (by decide))
  ⟨h₀, hk, args_inside_caller_memory h₀ hk⟩

end Xv6
