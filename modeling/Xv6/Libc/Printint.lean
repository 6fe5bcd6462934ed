import Mathlib

/-!
# printint (console.c, printf.c)

`cprintf` and the user library's `printf` print integers with the same routine.  The
digits of the unsigned value `x`, least significant first, go into `char buf[16]` by a
`do`-`while` loop; a `'-'` follows them for a negative signed value; and the buffer is sent
backwards, to `consputc` or to `putc(fd, ·)`.  The kernel's digits are lower case and the
user library's upper case; the kernel keeps the sign in its `sign` argument and the user
library in `neg`.  Both end in `formatDigits`.

`Buf16` is the array with its fill index: it holds at most 16 bytes, and a store past its
end is `none`.

* `digitLoop_eq`: the digit loop stores the digits of `Nat.toDigits`, last digit first;
* `printint_exact`: both routines print `toString` of a signed value in base 10 and
  `Nat.toDigits 16` of the unsigned value in base 16, and never store past the buffer.
-/

namespace Xv6

/-- `char buf[16]` up to its fill index `i`: the bytes `buf[0..i)`, at most 16. -/
structure Buf16 where
  cs : List Char
  le : cs.length ≤ 16

namespace Buf16

/-- The buffer with `i = 0`. -/
def empty : Buf16 := ⟨[], by decide⟩

/-- `buf[i++] = c`: `none` for a store past the end. -/
def push (b : Buf16) (c : Char) : Option Buf16 :=
  if h : b.cs.length < 16 then
    some ⟨b.cs ++ [c], by rw [List.length_append, List.length_singleton]; omega⟩
  else none

lemma push_cs {b : Buf16} (h : b.cs.length < 16) (c : Char) :
    (b.push c).map cs = some (b.cs ++ [c]) := by
  simp [push, h]

end Buf16

/-- `static char digits[] = "0123456789abcdef"` (console.c). -/
def digitsLower : List Char := "0123456789abcdef".toList

/-- `static char digits[] = "0123456789ABCDEF"` (printf.c). -/
def digitsUpper : List Char := "0123456789ABCDEF".toList

/-- The loop `do { buf[i++] = digits[x % base]; } while((x /= base) != 0);`.  Every pass
stores a byte, so the pass after 16 stores past the end: with 17 passes of fuel, `none` is
always that store and never the fuel running out. -/
def digitLoop (digits : List Char) (base : UInt32) : ℕ → UInt32 → Buf16 → Option Buf16
  | 0, _, _ => none
  | fuel + 1, x, b => do
    let b ← b.push (digits.getD (x % base).toNat '\x00')
    if x / base ≠ 0 then digitLoop digits base fuel (x / base) b else pure b

/-- The end of both routines, from the unsigned value `x` and the sign flag: the digit loop,
`if(neg) buf[i++] = '-';`, and `while(--i >= 0)`, which sends `buf[i-1], ..., buf[0]`. -/
def formatDigits (digits : List Char) (base x : UInt32) (neg : Bool) : Option (List Char) := do
  let b ← digitLoop digits base 17 x Buf16.empty
  let b ← if neg then b.push '-' else pure b
  pure b.cs.reverse

namespace Console

/-- `printint(xx, base, sign)` (console.c): the characters it passes to `consputc`, or
`none` for a store past the end of `buf`.  `if(sign && (sign = xx < 0)) x = -xx;` leaves in
`sign` whether `xx` is negative; `-xx` wraps for `INT_MIN`, and `base` is read as a `uint`
in `x % base`. -/
def printint (xx base sign : Int32) : Option (List Char) :=
  let sign := decide (sign ≠ 0) && decide (xx < 0)
  let x : UInt32 := if sign then (-xx).toUInt32 else xx.toUInt32
  formatDigits digitsLower base.toUInt32 x sign

end Console

namespace Printf

/-- `printint(fd, xx, base, sgn)` (printf.c): the one-byte writes of `putc(fd, c)`, as pairs
of the descriptor and the character, or `none` for a store past the end of `buf`. -/
def printint (fd xx base sgn : Int32) : Option (List (Int32 × Char)) :=
  let neg := decide (sgn ≠ 0) && decide (xx < 0)
  let x : UInt32 := if neg then (-xx).toUInt32 else xx.toUInt32
  (formatDigits digitsUpper base.toUInt32 x neg).map (List.map fun c => (fd, c))

end Printf

/-! ## The digit loop -/

lemma digitsLower_getD : ∀ k < 16, digitsLower.getD k '\x00' = Nat.digitChar k := by
  decide

lemma digitsUpper_getD : ∀ k < 16, digitsUpper.getD k '\x00' = (Nat.digitChar k).toUpper := by
  decide

section DigitLoop

variable {digits : List Char} {g : Char → Char}

/-- For a table whose digit `k` is `g` of `Nat.digitChar k`, and a base from 2 to 16, the
digit loop stores the digits of `x` from the last, as long as the buffer has room for all
of them.  The induction is on the passes; the digits of `x` are those of `x / base`
followed by `x % base` (`Nat.toDigits_eq_if`). -/
theorem digitLoop_eq (hd : ∀ k < 16, digits.getD k '\x00' = g (Nat.digitChar k))
    {base : UInt32} (hb : 2 ≤ base.toNat) (hb16 : base.toNat ≤ 16) :
    ∀ (fuel : ℕ) (x : UInt32) (b : Buf16),
      (Nat.toDigits base.toNat x.toNat).length ≤ fuel →
      b.cs.length + (Nat.toDigits base.toNat x.toNat).length ≤ 16 →
      (digitLoop digits base fuel x b).map Buf16.cs =
        some (b.cs ++ ((Nat.toDigits base.toNat x.toNat).map g).reverse) := by
  intro fuel
  induction fuel with
  | zero =>
    intro x b hfuel _
    exact absurd hfuel (Nat.not_le.mpr Nat.length_toDigits_pos)
  | succ fuel ih =>
    intro x b hfuel hroom
    have hpos := Nat.length_toDigits_pos (b := base.toNat) (n := x.toNat)
    have hmod : (x % base).toNat = x.toNat % base.toNat := UInt32.toNat_mod x base
    have hdiv : (x / base).toNat = x.toNat / base.toNat := UInt32.toNat_div x base
    -- the digit this pass stores
    have hdigit : digits.getD (x % base).toNat '\x00' = g (Nat.digitChar (x.toNat % base.toNat)) :=
      by rw [hmod]; exact hd _ (by have := Nat.mod_lt x.toNat (by omega : 0 < base.toNat); omega)
    obtain ⟨b₁, hpush, hb₁⟩ : ∃ b₁, b.push (digits.getD (x % base).toNat '\x00') = some b₁ ∧
        b₁.cs = b.cs ++ [g (Nat.digitChar (x.toNat % base.toNat))] := by
      obtain ⟨b₁, hb₁, hcs⟩ := Option.map_eq_some_iff.mp
        (Buf16.push_cs (b := b) (by omega) (digits.getD (x % base).toNat '\x00'))
      exact ⟨b₁, hb₁, by rw [hcs, hdigit]⟩
    simp only [digitLoop, hpush, Option.bind_eq_bind, Option.bind_some]
    by_cases hq : x / base = 0
    · -- the last digit: `x < base`
      have hlt : x.toNat < base.toNat := by
        have := congrArg UInt32.toNat hq
        rw [hdiv, UInt32.toNat_zero, Nat.div_eq_zero_iff] at this
        omega
      rw [if_neg (not_not.mpr hq), Nat.toDigits_of_lt_base hlt, Nat.mod_eq_of_lt hlt] at *
      simp [hb₁]
    · -- more digits: those of `x / base` come before this one
      have hle : base.toNat ≤ x.toNat := by
        by_contra hlt
        exact hq (UInt32.toNat_inj.mp (by rw [hdiv, Nat.div_eq_of_lt (by omega)]; rfl))
      have hsplit := Nat.toDigits_of_base_le (by omega) hle
      rw [if_pos hq]
      rw [hsplit, List.length_append, List.length_singleton] at hfuel hroom
      rw [ih (x / base) b₁ (by rw [hdiv]; omega) (by rw [hb₁, hdiv]; simp; omega), hb₁, hdiv,
        hsplit]
      simp

/-- The routines' common end prints the sign and then the digits, when they fit. -/
theorem formatDigits_eq (hd : ∀ k < 16, digits.getD k '\x00' = g (Nat.digitChar k))
    {base : UInt32} {b : ℕ} (hbase : base.toNat = b) (hb : 2 ≤ b) (hb16 : b ≤ 16) (x : UInt32)
    (neg : Bool) (hlen : (Nat.toDigits b x.toNat).length + (if neg then 1 else 0) ≤ 16) :
    formatDigits digits base x neg =
      some ((if neg then ['-'] else []) ++ (Nat.toDigits b x.toNat).map g) := by
  subst hbase
  have hloop := digitLoop_eq hd hb hb16 17 x Buf16.empty (by split at hlen <;> omega)
    (by show 0 + _ ≤ 16; split at hlen <;> omega)
  obtain ⟨b, hb, hcs⟩ := Option.map_eq_some_iff.mp hloop
  simp only [Buf16.empty, List.nil_append] at hcs
  simp only [formatDigits, hb, Option.bind_eq_bind, Option.bind_some]
  cases neg with
  | false => simp [hcs]
  | true =>
    have hroom : b.cs.length < 16 := by
      rw [hcs, List.length_reverse, List.length_map]
      simp only [if_true] at hlen
      omega
    obtain ⟨b₁, hb₁, hcs₁⟩ := Option.map_eq_some_iff.mp (Buf16.push_cs hroom '-')
    simp only [if_true, hb₁, Option.bind_some, Option.pure_def, hcs₁, hcs]
    simp

end DigitLoop

/-! ## Signed and unsigned values -/

/-- Two's complement: an `int` is its bits read as unsigned, less `2^32` when the top bit
is set. -/
lemma toInt_eq_cond (xx : Int32) :
    xx.toInt = if 2 * xx.toUInt32.toNat < 2 ^ 32 then (xx.toUInt32.toNat : ℤ)
      else xx.toUInt32.toNat - 2 ^ 32 := by
  rw [← Int32.toInt_toBitVec, BitVec.toInt_eq_toNat_cond, Int32.toNat_toBitVec]
  rfl

/-- `x = -xx` for a negative `xx` is its magnitude, `INT_MIN` included, where the negation
wraps. -/
lemma toNat_neg_toUInt32 {xx : Int32} (h : xx < 0) : (-xx).toUInt32.toNat = xx.toInt.natAbs := by
  have hlt : xx.toInt < 0 := Int32.lt_iff_toInt_lt.mp h
  have hc := toInt_eq_cond xx
  have hb := xx.toUInt32.toNat_lt
  rw [Int32.toUInt32_neg, UInt32.toNat_neg, show UInt32.size = 2 ^ 32 from rfl]
  split_ifs at hc <;> omega

/-- `x = xx` for a non-negative `xx` is its magnitude. -/
lemma toNat_toUInt32_of_not_neg {xx : Int32} (h : ¬xx < 0) : xx.toUInt32.toNat = xx.toInt.natAbs := by
  have hlt : ¬xx.toInt < 0 := fun h' => h (Int32.lt_iff_toInt_lt.mpr h')
  have hc := toInt_eq_cond xx
  have hb := xx.toUInt32.toNat_lt
  split_ifs at hc <;> omega

/-- The decimal text of an integer: a `'-'` for a negative one, then the digits of its
magnitude. -/
lemma toList_toString_int (v : ℤ) :
    (toString v).toList = (if v < 0 then ['-'] else []) ++ Nat.toDigits 10 v.natAbs := by
  cases v with
  | ofNat m => simp [toString, Int.repr, Nat.repr]
  | negSucc m => simp [toString, Int.repr, Nat.repr]

/-- A `uint` has at most 10 decimal digits and at most 8 hexadecimal ones. -/
lemma length_toDigits_le (x : UInt32) :
    (Nat.toDigits 10 x.toNat).length ≤ 10 ∧ (Nat.toDigits 16 x.toNat).length ≤ 8 := by
  have hx := x.toNat_lt
  exact ⟨(Nat.length_toDigits_le_iff (by decide) (by decide)).mpr (by omega),
    (Nat.length_toDigits_le_iff (by decide) (by decide)).mpr (by omega)⟩

/-- Upper-casing leaves a decimal digit alone. -/
lemma toUpper_of_isDigit {c : Char} (h : c.isDigit = true) : c.toUpper = c := by
  unfold Char.toUpper
  rw [dif_neg]
  simp only [Char.isDigit, Bool.and_eq_true, decide_eq_true_eq] at h
  intro h'
  have h1 : c.val.toNat ≤ 57 := UInt32.le_iff_toNat_le.mp h.2
  have h2 : 97 ≤ c.val.toNat := UInt32.le_iff_toNat_le.mp h'.1
  omega

section Printint

variable {digits : List Char} {g : Char → Char}

/-- Base 10 with the sign taken from `xx`: the text of `xx` as a signed integer, for a table
whose digits read as `g` of the digits, `g` leaving decimal digits alone. -/
theorem formatDigits_signed (hd : ∀ k < 16, digits.getD k '\x00' = g (Nat.digitChar k))
    (hg : ∀ c, c.isDigit = true → g c = c) (xx : Int32) :
    formatDigits digits 10 (if decide (xx < 0) then (-xx).toUInt32 else xx.toUInt32)
      (decide (xx < 0)) = some (toString xx.toInt).toList := by
  -- the unsigned value is the magnitude of `xx`, `INT_MIN` included
  have hx : (if decide (xx < 0) then (-xx).toUInt32 else xx.toUInt32).toNat = xx.toInt.natAbs := by
    by_cases h : xx < 0
    · simp only [h, decide_true, if_true]
      exact toNat_neg_toUInt32 h
    · simp only [h, decide_false]
      exact toNat_toUInt32_of_not_neg h
  have hneg : decide (xx < 0) = decide (xx.toInt < 0) := by
    rw [decide_eq_decide]
    exact Int32.lt_iff_toInt_lt
  generalize (if decide (xx < 0) then (-xx).toUInt32 else xx.toUInt32) = x at hx ⊢
  have hlen := (length_toDigits_le x).1
  have hsign : (if decide (xx < 0) then 1 else 0) ≤ 1 := by split <;> omega
  rw [formatDigits_eq hd (show (10 : UInt32).toNat = 10 from rfl) (by decide) (by decide) x _
    (by omega), hx, hneg, toList_toString_int]
  -- the table's case does not show in decimal digits
  rw [List.map_congr_left fun c hc => hg c (Nat.isDigit_of_mem_toDigits (by decide) (Nat.le_refl 10) hc),
    List.map_id']
  by_cases h : xx.toInt < 0 <;> simp [h]

/-- Base 16 without a sign: the hexadecimal digits of the unsigned value. -/
theorem formatDigits_hex (hd : ∀ k < 16, digits.getD k '\x00' = g (Nat.digitChar k))
    (x : UInt32) :
    formatDigits digits 16 x false = some ((Nat.toDigits 16 x.toNat).map g) := by
  rw [formatDigits_eq hd (show (16 : UInt32).toNat = 16 from rfl) (by decide) (by decide) x false
    (by have := (length_toDigits_le x).2; simp only [Bool.false_eq_true, if_false]; omega)]
  rfl

end Printint

/-- Integer formatting is exact: for every `int xx`, `printint(xx, 10, 1)` of the console and
`printint(fd, xx, 10, 1)` of the user library print `xx` as a signed decimal number, and
`printint` with base 16 and sign 0 prints the lower-case (console) or upper-case (user)
hexadecimal digits of `xx` read as a `uint`; none of them stores past `buf`. -/
theorem printint_exact (fd xx : Int32) :
    Console.printint xx 10 1 = some (toString xx.toInt).toList ∧
      Printf.printint fd xx 10 1 = some ((toString xx.toInt).toList.map fun c => (fd, c)) ∧
      Console.printint xx 16 0 = some (Nat.toDigits 16 xx.toUInt32.toNat) ∧
      Printf.printint fd xx 16 0 =
        some ((Nat.toDigits 16 xx.toUInt32.toNat).map fun c => (fd, c.toUpper)) := by
  have hsign : decide ((1 : Int32) ≠ 0) = true := by decide
  have hunsigned : decide ((0 : Int32) ≠ 0) = false := by decide
  have h10 : (10 : Int32).toUInt32 = 10 := rfl
  have h16 : (16 : Int32).toUInt32 = 16 := rfl
  refine ⟨?_, ?_, ?_, ?_⟩
  · simp only [Console.printint, hsign, Bool.true_and, h10]
    exact formatDigits_signed (g := id) digitsLower_getD (fun _ _ => rfl) xx
  · simp only [Printf.printint, hsign, Bool.true_and, h10]
    rw [formatDigits_signed digitsUpper_getD (fun _ h => toUpper_of_isDigit h) xx]
    rfl
  · simp only [Console.printint, hunsigned, Bool.false_and, Bool.false_eq_true, if_false, h16]
    rw [formatDigits_hex (g := id) digitsLower_getD, List.map_id]
  · simp only [Printf.printint, hunsigned, Bool.false_and, Bool.false_eq_true, if_false, h16]
    rw [formatDigits_hex digitsUpper_getD, Option.map_some, List.map_map]
    rfl

/-- The longest outputs: `INT_MIN` in decimal, and `-1` read as `0xffffffff` in hexadecimal. -/
example : Console.printint (-2147483648) 10 1 = some "-2147483648".toList ∧
    Printf.printint 1 (-1) 16 0 = some ("FFFFFFFF".toList.map fun c => (1, c)) := by
  decide

end Xv6
