import Xv6.Lib.Ring
import Mathlib.Data.UInt

/-!
# Console input (console.c)

The console's input is a buffer of `INPUT_BUF` bytes with three free-running `uint`
counters: `r` counts the bytes `consoleread` has taken, `w` the bytes committed, `e` the
bytes typed, the line being edited included; byte number `x` sits in
`buf[x % INPUT_BUF]`.  `consoleintr` takes the characters of an interrupt one by one
under `cons.lock` (`intr`): `^U` and backspace erase from the edited line, another
character is appended to it while the buffer has room, and a newline, a `^D` or a full
buffer commits the line (`w = e`).  `consoleread` takes committed bytes, and sleeps while
there are none (`readLoop` is its loop between two sleeps).

The committed bytes not yet taken are `Input.pending`, a ring over the counters
(`Ring.view`); since `INPUT_BUF` divides `2^32`, the counters may wrap.

* `intr_spec`: a character keeps `w - r <= e - r <= INPUT_BUF` (`Input.Bounded`) and adds to
  the pending bytes those it commits, leaving the others as they were;
* `readLoop_spec`: a pass of `consoleread`'s loop takes bytes from the front of the
  pending ones; it stores them all but a `^D`, which it takes only when it has stored
  nothing and otherwise leaves for the next read.
-/

namespace Xv6

/-- `INPUT_BUF` (console.c). -/
def INPUT_BUF : ℕ := 128

instance : NeZero INPUT_BUF := ⟨by decide⟩

/-- `C(x)`, the code of control-`x`: `x - '@'`. -/
def C (x : Char) : UInt8 := x.toNat.toUInt8 - '@'.toNat.toUInt8

/-- `struct { char buf[INPUT_BUF]; uint r, w, e; } input`. -/
structure Input where
  buf : Fin INPUT_BUF → UInt8
  /-- Read index. -/
  r : UInt32
  /-- Write index. -/
  w : UInt32
  /-- Edit index. -/
  e : UInt32

namespace Input

/-- The cell `x % INPUT_BUF` of the buffer. -/
def slot (x : UInt32) : Fin INPUT_BUF := Fin.ofNat INPUT_BUF x.toNat

end Input

open Input

/-! ## consoleintr -/

/-- `input.e--`, as `^U` and backspace erase a byte. -/
def erase (s : Input) : Input := { s with e := s.e - 1 }

/-- The `^U` loop, `while(input.e != input.w && input.buf[(input.e-1) % INPUT_BUF] != '\n')
input.e--;`, with a pass for each byte of the edited line. -/
def killLine : ℕ → Input → Input
  | 0, s => s
  | n + 1, s =>
    if s.e ≠ s.w ∧ s.buf (slot (s.e - 1)) ≠ 10 then killLine n (erase s) else s

/-- `input.buf[input.e++ % INPUT_BUF] = c;` -/
def store (s : Input) (c : UInt8) : Input :=
  { s with buf := Function.update s.buf (slot s.e) c, e := s.e + 1 }

/-- The `default:` case for a character the buffer has room for: `'\r'` becomes `'\n'`, the
byte is stored, and a newline, a `^D` or a full buffer commits the line. -/
def append (s : Input) (c : UInt8) : Input :=
  let c := if c = 13 then 10 else c
  let s := store s c
  if c = 10 ∨ c = C 'D' ∨ s.e = s.r + INPUT_BUF.toUInt32 then { s with w := s.e } else s

/-- One character `c` of `consoleintr`'s loop (`switch(c)`).  `C('P')` only asks for a
`procdump()` after the loop, and the echo by `consputc` is not part of the input. -/
def intr (s : Input) (c : UInt8) : Input :=
  if c = C 'P' then s
  else if c = C 'U' then killLine (s.e - s.w).toNat s
  else if c = C 'H' ∨ c = 0x7f then (if s.e ≠ s.w then erase s else s)
  else if c ≠ 0 ∧ s.e - s.r < INPUT_BUF.toUInt32 then append s c
  else s

/-- `consoleintr(getc)`, with `getc` returning the characters `cs` and then `-1`. -/
def consoleintr (cs : List UInt8) (s : Input) : Input := cs.foldl intr s

/-! ## consoleread -/

/-- How a pass of `consoleread`'s loop under `cons.lock` ends. -/
inductive ConsoleEnd where
  /-- No committed byte: the caller sleeps on `input.r` with `n` bytes still wanted, and
  runs the loop again once woken. -/
  | sleeps (n : ℕ)
  /-- No committed byte and a killed caller: `return -1`. -/
  | failed
  /-- The loop ended with `n` bytes still wanted: `return target - n`. -/
  | done (n : ℕ)
deriving DecidableEq, Repr

/-- `consoleread`'s loop `while(n > 0)` under `cons.lock` for a call that wanted `target`
bytes, with `n` still wanted and the bytes `dst` stored so far: how it ends, the bytes
stored, and the input it leaves.  A `^D` ends the call, and is put back (`input.r--`) when
bytes were stored before it. -/
def readLoop (killed : Bool) (target : ℕ) : ℕ → List UInt8 → Input → ConsoleEnd × List UInt8 × Input
  | 0, dst, s => (.done 0, dst, s)
  | n + 1, dst, s =>
    if s.r = s.w then
      if killed then (.failed, dst, s) else (.sleeps (n + 1), dst, s)
    else
      let c := s.buf (slot s.r)
      let s := { s with r := s.r + 1 }
      if c = C 'D' then
        (.done (n + 1), dst, if n + 1 < target then { s with r := s.r - 1 } else s)
      else if c = 10 then (.done n, dst ++ [c], s)
      else readLoop killed target n (dst ++ [c]) s

/-! ## The bytes the buffer holds -/

namespace Input

/-- The committed bytes not yet taken, in order. -/
def pending (s : Input) : List UInt8 := Ring.view s.buf s.r.toNat (s.w - s.r).toNat

/-- `w - r <= e - r <= INPUT_BUF`, as `uint`s. -/
def Bounded (s : Input) : Prop :=
  (s.w - s.r).toNat ≤ (s.e - s.r).toNat ∧ (s.e - s.r).toNat ≤ INPUT_BUF

instance (s : Input) : Decidable s.Bounded := inferInstanceAs (Decidable (_ ∧ _))

/-- A counter is another moved on by their difference, as cells of the ring. -/
lemma slot_eq_add (a b : UInt32) : slot b = Fin.ofNat INPUT_BUF (a.toNat + (b - a).toNat) := by
  have h := UInt32.toNat_add a (b - a)
  rw [add_sub_cancel] at h
  apply Fin.ext
  simp only [slot, Fin.val_ofNat, h]
  exact Nat.mod_mod_of_dvd _ (by decide)

/-- A queue read from counter `b` is the one read from `a` moved on by `b - a`. -/
lemma view_eq_add (buf : Fin INPUT_BUF → UInt8) (a b : UInt32) (n : ℕ) :
    Ring.view buf b.toNat n = Ring.view buf (a.toNat + (b - a).toNat) n := by
  have h := UInt32.toNat_add a (b - a)
  rw [add_sub_cancel] at h
  rw [h, Ring.view_mod buf (by decide)]

/-- Two different counters are a positive distance apart. -/
lemma toNat_sub_pos {a b : UInt32} (h : a ≠ b) : 0 < (a - b).toNat := by
  rw [Nat.pos_iff_ne_zero, Ne, ← UInt32.toNat_zero, UInt32.toNat_inj, sub_eq_zero]
  exact h

variable {s : Input}

/-- In a bounded input, the edited line lies after the committed bytes. -/
lemma Bounded.sub_e (h : s.Bounded) : (s.e - s.r).toNat = (s.w - s.r).toNat + (s.e - s.w).toNat := by
  have hsub : s.e - s.w = (s.e - s.r) - (s.w - s.r) := by
    rw [sub_sub_sub_cancel_right]
  have hle := h.1
  rw [hsub, UInt32.toNat_sub_of_le _ _ (UInt32.le_iff_toNat_le.mpr hle)]
  omega

/-- Erasing a byte of a non-empty edited line keeps the bounds. -/
lemma Bounded.erase (h : s.Bounded) (hne : s.e ≠ s.w) : (Xv6.erase s).Bounded := by
  have hsplit := h.sub_e
  have hpos := toNat_sub_pos hne
  have he : (Xv6.erase s).e - s.r = (s.e - s.r) - 1 := by
    simp only [Xv6.erase, sub_right_comm]
  have hdec : ((s.e - s.r) - 1).toNat = (s.e - s.r).toNat - 1 :=
    UInt32.toNat_sub_of_le _ _ (UInt32.le_iff_toNat_le.mpr (by rw [UInt32.toNat_one]; omega))
  have hb := h.2
  refine ⟨?_, ?_⟩ <;> simp only [Xv6.erase] at he ⊢ <;> rw [he, hdec] <;> omega

/-- The byte at `r` of a non-empty queue is its first, and taking it keeps the bounds. -/
lemma Bounded.pop (h : s.Bounded) (hne : s.r ≠ s.w) :
    s.pending = s.buf (slot s.r) :: ({ s with r := s.r + 1 } : Input).pending ∧
      ({ s with r := s.r + 1 } : Input).Bounded := by
  have hle := h.1
  have hpos := toNat_sub_pos (Ne.symm hne)
  -- both distances from the read counter shrink by one
  have hsub : ∀ x : UInt32, 0 < (x - s.r).toNat → (x - (s.r + 1)).toNat = (x - s.r).toNat - 1 := by
    intro x hx
    rw [← sub_sub, UInt32.toNat_sub_of_le _ _ (UInt32.le_iff_toNat_le.mpr
      (by rw [UInt32.toNat_one]; omega)), UInt32.toNat_one]
  have hw := hsub s.w hpos
  have he := hsub s.e (by omega)
  refine ⟨?_, ?_⟩
  · show Ring.view s.buf s.r.toNat (s.w - s.r).toNat =
      s.buf (slot s.r) :: Ring.view s.buf (s.r + 1).toNat (s.w - (s.r + 1)).toNat
    obtain ⟨k, hk⟩ : ∃ k, (s.w - s.r).toNat = k + 1 := ⟨_, (Nat.succ_pred_eq_of_pos hpos).symm⟩
    rw [hw, hk, Ring.view_pop, Nat.add_sub_cancel, UInt32.toNat_add, UInt32.toNat_one,
      Ring.view_mod _ (by decide)]
    rfl
  · show (s.w - (s.r + 1)).toNat ≤ (s.e - (s.r + 1)).toNat ∧ (s.e - (s.r + 1)).toNat ≤ INPUT_BUF
    have hb := h.2
    omega

end Input

/-! ## What a character does -/

section Intr

variable {s : Input}

/-- The `^U` loop only erases, down to `w` at the lowest. -/
lemma killLine_spec : ∀ (n : ℕ) {s : Input}, s.Bounded →
    (killLine n s).Bounded ∧ (killLine n s).buf = s.buf ∧ (killLine n s).r = s.r ∧
      (killLine n s).w = s.w
  | 0, s, h => ⟨h, rfl, rfl, rfl⟩
  | n + 1, s, h => by
    unfold killLine
    split_ifs with hc
    · exact killLine_spec n (h.erase hc.1)
    · exact ⟨h, rfl, rfl, rfl⟩

/-- A store at `e` leaves the committed bytes alone: it is in none of their cells, the
buffer having room. -/
lemma pending_store (h : s.Bounded) (hroom : (s.e - s.r).toNat < INPUT_BUF) (c : UInt8) :
    (store s c).pending = s.pending := by
  show Ring.view (Function.update s.buf (slot s.e) c) s.r.toNat (s.w - s.r).toNat =
    Ring.view s.buf s.r.toNat (s.w - s.r).toNat
  refine Ring.view_congr _ fun j hj => ?_
  have hle := h.1
  rw [Function.update_of_ne]
  rw [slot_eq_add s.r s.e]
  exact Ring.ofNat_add_ne (by omega) hroom

/-- A counter moved on by one stays at its distance plus one from another, while that
distance is below `INPUT_BUF`. -/
lemma toNat_add_one_sub {a b : UInt32} (h : (a - b).toNat < INPUT_BUF) :
    (a + 1 - b).toNat = (a - b).toNat + 1 := by
  rw [← sub_add_eq_add_sub, UInt32.toNat_add, UInt32.toNat_one]
  exact Nat.mod_eq_of_lt (by simp only [INPUT_BUF] at h; omega)

/-- A character stored with room: the bounds hold, and if it commits, the pending bytes gain
the edited line and the character. -/
theorem append_spec (h : s.Bounded) (hroom : s.e - s.r < INPUT_BUF.toUInt32) (c : UInt8) :
    (append s c).Bounded ∧ (append s c).r = s.r ∧
      (append s c).pending = s.pending ++ Ring.view (append s c).buf s.w.toNat ((append s c).w - s.w).toNat := by
  have hroom' : (s.e - s.r).toNat < INPUT_BUF := UInt32.lt_iff_toNat_lt.mp hroom
  have hsplit := h.sub_e
  have he := toNat_add_one_sub hroom'
  have hstore := pending_store h hroom' (if c = 13 then 10 else c)
  unfold append
  dsimp only
  generalize (if c = 13 then 10 else c) = c' at hstore ⊢
  split_ifs with hcommit
  · -- the line is committed: `w` moves to the new `e`
    have hw : (s.e + 1 - s.w).toNat = (s.e - s.w).toNat + 1 := toNat_add_one_sub (by omega)
    refine ⟨⟨Nat.le_refl _, ?_⟩, rfl, ?_⟩
    · show (s.e + 1 - s.r).toNat ≤ INPUT_BUF
      omega
    · show Ring.view _ s.r.toNat (s.e + 1 - s.r).toNat = s.pending ++ Ring.view _ s.w.toNat (s.e + 1 - s.w).toNat
      -- the new queue is the old one followed by the line from `w`
      rw [he, hsplit, Nat.add_assoc, Ring.view_add, ← view_eq_add, ← hw]
      exact congrArg (· ++ _) hstore
  · have hle := h.1
    refine ⟨⟨?_, ?_⟩, rfl, ?_⟩
    · show (s.w - s.r).toNat ≤ (s.e + 1 - s.r).toNat
      omega
    · show (s.e + 1 - s.r).toNat ≤ INPUT_BUF
      omega
    · show (store s c').pending = s.pending ++ Ring.view _ s.w.toNat (s.w - s.w).toNat
      rw [sub_self, UInt32.toNat_zero, Ring.view_zero, List.append_nil, hstore]

/-- What one character does: it keeps the bounds and the read counter, and the pending
bytes gain exactly the bytes between the old and the new `w`. -/
theorem intr_spec (h : s.Bounded) (c : UInt8) :
    (intr s c).Bounded ∧ (intr s c).r = s.r ∧
      (intr s c).pending = s.pending ++ Ring.view (intr s c).buf s.w.toNat ((intr s c).w - s.w).toNat := by
  -- a character that leaves `buf`, `r` and `w` alone commits nothing
  have hsame : ∀ s' : Input, s'.Bounded → s'.buf = s.buf → s'.r = s.r → s'.w = s.w →
      s'.Bounded ∧ s'.r = s.r ∧ s'.pending = s.pending ++ Ring.view s'.buf s.w.toNat (s'.w - s.w).toNat := by
    intro s' hb hbuf hr hw
    refine ⟨hb, hr, ?_⟩
    simp only [pending, hbuf, hr, hw, sub_self, UInt32.toNat_zero, Ring.view_zero, List.append_nil]
  unfold intr
  by_cases hP : c = C 'P'
  · rw [if_pos hP]
    exact hsame s h rfl rfl rfl
  rw [if_neg hP]
  by_cases hU : c = C 'U'
  · rw [if_pos hU]
    obtain ⟨hb, hbuf, hr, hw⟩ := killLine_spec _ h
    exact hsame _ hb hbuf hr hw
  rw [if_neg hU]
  by_cases hH : c = C 'H' ∨ c = 0x7f
  · rw [if_pos hH]
    split_ifs with hwe
    · exact hsame _ (h.erase hwe) rfl rfl rfl
    · exact hsame s h rfl rfl rfl
  rw [if_neg hH]
  split_ifs with happ
  · exact append_spec h happ.2 c
  · exact hsame s h rfl rfl rfl

end Intr

/-! ## What a pass of `consoleread` does -/

/-- The bytes `took` that a pass ending in `e` takes from the queue, as the call stores them,
from the bytes `dst` stored before to `dst'` after: all of them, none a `^D`; or a lone
`^D`, which a call takes only as its first byte, does not store, and returns on. -/
def Stores (dst took dst' : List UInt8) (e : ConsoleEnd) : Prop :=
  (dst' = dst ++ took ∧ C 'D' ∉ took) ∨
    (dst' = [] ∧ dst = [] ∧ took = [C 'D'] ∧ ∃ m, e = .done m)

/-- What the end of a pass says of a call that wanted `target` bytes and has stored `dst'`:
the bytes still wanted are the others, a sleeping call still wants some, and only a killed
caller fails. -/
def ConsoleEnd.Counts (killed : Bool) (target : ℕ) (dst' : List UInt8) : ConsoleEnd → Prop
  | .sleeps m => dst'.length + m = target ∧ 0 < m
  | .failed => killed = true ∧ dst'.length < target
  | .done m => dst'.length + m = target

section ReadLoop

variable {killed : Bool} {target : ℕ}

/-- A pass that takes no byte stores none. -/
lemma stores_nil (dst : List UInt8) (e : ConsoleEnd) : Stores dst [] dst e :=
  .inl ⟨(List.append_nil dst).symm, List.not_mem_nil⟩

/-- A pass of `consoleread`'s loop takes bytes from the front of the queue and stores them,
a `^D` apart, which it takes only as the call's first byte (`Stores`); it leaves the buffer,
`w` and `e` alone.  The induction is on the bytes still wanted; an empty queue, a `^D` or
a newline ends the pass. -/
theorem readLoop_spec : ∀ {n : ℕ} {dst dst' : List UInt8} {s s' : Input} {e : ConsoleEnd},
    s.Bounded → dst.length + n = target → readLoop killed target n dst s = (e, dst', s') →
      s'.Bounded ∧ s'.buf = s.buf ∧ s'.w = s.w ∧ s'.e = s.e ∧ e.Counts killed target dst' ∧
        ∃ took, s.pending = took ++ s'.pending ∧ Stores dst took dst' e
  | 0, dst, dst', s, s', e, hb, hlen, h => by
    cases h
    exact ⟨hb, rfl, rfl, rfl, hlen, [], rfl, stores_nil dst _⟩
  | n + 1, dst, dst', s, s', e, hb, hlen, h => by
    unfold readLoop at h
    by_cases hempty : s.r = s.w
    · -- nothing committed: the call fails or sleeps, taking nothing
      rw [if_pos hempty] at h
      split at h
      · cases h
        exact ⟨hb, rfl, rfl, rfl, ⟨‹_›, by omega⟩, [], rfl, stores_nil dst _⟩
      · cases h
        exact ⟨hb, rfl, rfl, rfl, ⟨hlen, Nat.succ_pos n⟩, [], rfl, stores_nil dst _⟩
    rw [if_neg hempty] at h
    obtain ⟨hpop, hb₁⟩ := Bounded.pop hb hempty
    dsimp only at h
    by_cases hD : s.buf (slot s.r) = C 'D'
    · rw [if_pos hD] at h
      cases h
      split_ifs with hstored
      · -- bytes stored before: the `^D` is put back for the next call
        have hback : ({ s with r := s.r + 1 - 1 } : Input) = s := by
          rw [add_sub_cancel_right]
        rw [hback]
        exact ⟨hb, rfl, rfl, rfl, hlen, [], rfl, stores_nil dst _⟩
      · -- the `^D` is the call's first byte: it is taken, and the call returns `0`
        have hdst : dst = [] := List.eq_nil_of_length_eq_zero (by omega)
        exact ⟨hb₁, rfl, rfl, rfl, hlen, [C 'D'], by rw [hpop, hD]; rfl, .inr ⟨hdst, hdst, rfl, _, rfl⟩⟩
    rw [if_neg hD] at h
    split_ifs at h with hnl
    · -- a newline ends the call, stored
      cases h
      have hcount : (dst ++ [s.buf (slot s.r)]).length + n = target := by
        rw [List.length_append, List.length_singleton]
        omega
      refine ⟨hb₁, rfl, rfl, rfl, hcount, [10],
        by rw [hpop, hnl]; rfl, .inl ⟨by rw [hnl], ?_⟩⟩
      rw [List.mem_singleton]
      decide
    · -- another byte is stored, and the pass goes on
      obtain ⟨hb', hbuf, hw, he, hcounts, took, hpending, hstores⟩ := readLoop_spec hb₁
        (by rw [List.length_append, List.length_singleton]; omega) h
      refine ⟨hb', hbuf, hw, he, hcounts, s.buf (slot s.r) :: took, by rw [hpop, hpending]; rfl, ?_⟩
      rcases hstores with ⟨hdst', hnotD⟩ | ⟨-, hnil, -⟩
      · refine .inl ⟨by rw [hdst', List.append_assoc]; rfl, ?_⟩
        rw [List.mem_cons, not_or]
        exact ⟨Ne.symm hD, hnotD⟩
      · exact absurd hnil (List.append_ne_nil_of_right_ne_nil dst (List.cons_ne_nil _ _))

end ReadLoop

end Xv6
