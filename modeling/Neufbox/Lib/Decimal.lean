import Mathlib.Algebra.Group.Int.Defs
import Mathlib.Algebra.Group.Nat.Defs
import Mathlib.Data.List.TakeWhile
import Mathlib.Tactic.Common
import Neufbox.Lib.Numerals

/-!
# Decimal numbers in C strings

`strtol` with base 10 and the conversion `%nd` of `sscanf`, on the characters of a string, and what
they make of a number as it is printed (`Nat.toDigits 10`) and followed by something else
(`strtol_toDigits`, `scanD_toDigits`), and of any text without blanks and signs (`converts_scanD`).
-/

namespace Neufbox.Decimal

/-- `isspace` -/
def isSpace (c : Char) : Bool := c = ' ' || ('\t' ≤ c && c ≤ '\r')

/-- The sign of a number, and what follows it. -/
def splitSign : List Char → Bool × List Char
  | '-' :: cs => (true, cs)
  | '+' :: cs => (false, cs)
  | cs => (false, cs)

/-- A number with its sign, if there is one, and what follows it. -/
def signedDigits (cs : List Char) : Option (Int × List Char) :=
  let (negative, body) := splitSign cs
  let digits := body.takeWhile Char.isDigit
  let value : Int := Nat.ofDigitChars 10 digits 0
  if digits = [] then none
  else some (if negative then -value else value, body.dropWhile Char.isDigit)

/-- What `strtol` returns, the end of the number and whether `errno` is set. -/
structure Strtol where
  value : Int
  endptr : List Char
  errno : Bool

/-- `LONG_MAX` and `LONG_MIN` -/
def longMax : Int := 2 ^ 31 - 1
def longMin : Int := -2 ^ 31

/-- `strtol` with base 10. -/
def strtol (cs : List Char) : Strtol :=
  match signedDigits (cs.dropWhile isSpace) with
  | none => ⟨0, cs, false⟩
  | some (value, endptr) =>
    if longMax < value then ⟨longMax, endptr, true⟩
    else if value < longMin then ⟨longMin, endptr, true⟩
    else ⟨value, endptr, false⟩

/-- The conversion `%nd` of `sscanf`, for the width `n`: the number and what follows it. -/
def scanD (width : ℕ) (cs : List Char) : Option (Int × List Char) :=
  let body := cs.dropWhile isSpace
  (signedDigits (body.take width)).map fun (value, rest) => (value, rest ++ body.drop width)

/-! ### Printed numbers -/

/-- The text does not begin with a digit. -/
def NoDigit (cs : List Char) : Prop := ∀ c ∈ cs.head?, c.isDigit = false

theorem noDigit_nil : NoDigit [] := fun _ h => nomatch h

theorem noDigit_cons {c : Char} (h : c.isDigit = false) (cs : List Char) : NoDigit (c :: cs) := by
  intro c' hc'
  obtain rfl := Option.some.inj hc'
  exact h

theorem NoDigit.takeWhile {cs : List Char} (h : NoDigit cs) : cs.takeWhile Char.isDigit = [] := by
  cases cs with
  | nil => rfl
  | cons c cs => rw [List.takeWhile_cons_of_neg (by simp [h c rfl])]

theorem NoDigit.dropWhile {cs : List Char} (h : NoDigit cs) : cs.dropWhile Char.isDigit = cs := by
  cases cs with
  | nil => rfl
  | cons c cs => rw [List.dropWhile_cons_of_neg (by simp [h c rfl])]

/-- A number, without a sign. -/
structure Digits (ds : List Char) : Prop where
  ne_nil : ds ≠ []
  isDigit : ∀ c ∈ ds, c.isDigit = true

theorem digits_toDigits (n : ℕ) : Digits (Nat.toDigits 10 n) :=
  ⟨Nat.toDigits_ne_nil, fun _ => Nat.isDigit_of_mem_toDigits (by decide) (by decide)⟩

theorem isSpace_of_isDigit {c : Char} (h : c.isDigit = true) : isSpace c = false := by
  -- The digits are above the blank and the control characters.
  have hlow : '0' ≤ c := by
    rw [Char.isDigit, Bool.and_eq_true, decide_eq_true_eq] at h
    exact h.1
  have hblank : c ≠ ' ' := by
    rintro rfl
    exact absurd hlow (by decide)
  have hcontrol : ¬c ≤ '\r' := by
    intro hle
    exact absurd (Char.le_trans hlow hle) (by decide)
  simp [isSpace, hblank, hcontrol]

theorem digitValue_le {c : Char} (h : c.isDigit = true) : c.toNat - '0'.toNat ≤ 9 := by
  rw [Char.isDigit, Bool.and_eq_true, decide_eq_true_eq, decide_eq_true_eq] at h
  have hle : c.toNat ≤ '9'.toNat := UInt32.le_iff_toNat_le.mp h.2
  have hnine : '9'.toNat = 57 := rfl
  have hzero : '0'.toNat = 48 := rfl
  omega

/-- A number is below the power of its length. -/
theorem ofDigitChars_lt {ds : List Char} (h : ∀ c ∈ ds, c.isDigit = true) :
    Nat.ofDigitChars 10 ds 0 < 10 ^ ds.length := by
  induction ds with
  | nil => decide
  | cons c ds ih =>
    obtain ⟨hc, hds⟩ := List.forall_mem_cons.mp h
    have hvalue := digitValue_le hc
    have hrest := ih hds
    have hmul : 10 ^ ds.length * (c.toNat - '0'.toNat) ≤ 10 ^ ds.length * 9 :=
      Nat.mul_le_mul_left _ hvalue
    rw [Nat.ofDigitChars_cons, Nat.mul_zero, Nat.zero_add,
      Nat.ofDigitChars_eq_ofDigitChars_zero, List.length_cons, Nat.pow_succ]
    omega

theorem splitSign_of_isDigit {c : Char} (h : c.isDigit = true) (cs : List Char) :
    splitSign (c :: cs) = (false, c :: cs) := by
  have hminus : c ≠ '-' := by
    rintro rfl
    exact absurd h (by decide)
  have hplus : c ≠ '+' := by
    rintro rfl
    exact absurd h (by decide)
  rw [splitSign]
  · exact fun cs' heq => hminus (List.cons.inj heq).1
  · exact fun cs' heq => hplus (List.cons.inj heq).1

namespace Digits

variable {ds rest : List Char} (hds : Digits ds)
include hds

/-- The number and what follows it are told apart. -/
theorem takeWhile_append (h : NoDigit rest) : (ds ++ rest).takeWhile Char.isDigit = ds := by
  rw [List.takeWhile_append_of_pos hds.isDigit, h.takeWhile, List.append_nil]

theorem dropWhile_append (h : NoDigit rest) : (ds ++ rest).dropWhile Char.isDigit = rest := by
  rw [List.dropWhile_append_of_pos hds.isDigit, h.dropWhile]

theorem eq_cons : ∃ c cs, ds = c :: cs ∧ c.isDigit = true := by
  cases ds with
  | nil => exact absurd rfl hds.ne_nil
  | cons c cs => exact ⟨c, cs, rfl, hds.isDigit c (List.mem_cons_self ..)⟩

theorem dropWhile_isSpace (rest : List Char) : (ds ++ rest).dropWhile isSpace = ds ++ rest := by
  obtain ⟨c, cs, rfl, hdigit⟩ := hds.eq_cons
  rw [List.cons_append, List.dropWhile_cons_of_neg (by simp [isSpace_of_isDigit hdigit])]

theorem signedDigits_append (h : NoDigit rest) :
    signedDigits (ds ++ rest) = some ((Nat.ofDigitChars 10 ds 0 : Int), rest) := by
  obtain ⟨c, cs, heq, hdigit⟩ := hds.eq_cons
  have hsign : splitSign (ds ++ rest) = (false, ds ++ rest) := by
    rw [heq, List.cons_append, splitSign_of_isDigit hdigit]
  rw [signedDigits, hsign]
  dsimp only
  rw [hds.takeWhile_append h, hds.dropWhile_append h, if_neg hds.ne_nil]
  rfl

/-- `strtol` reads a number that fits in a `long`. -/
theorem strtol_append (hlt : Nat.ofDigitChars 10 ds 0 < 2 ^ 31) (h : NoDigit rest) :
    strtol (ds ++ rest) = ⟨Nat.ofDigitChars 10 ds 0, rest, false⟩ := by
  have hmax : ¬longMax < (Nat.ofDigitChars 10 ds 0 : Int) := by
    simp only [longMax]
    omega
  have hmin : ¬(Nat.ofDigitChars 10 ds 0 : Int) < longMin := by
    simp only [longMin]
    omega
  rw [strtol, hds.dropWhile_isSpace, hds.signedDigits_append h]
  dsimp only
  rw [if_neg hmax, if_neg hmin]

end Digits

theorem takeWhile_toDigits (n : ℕ) {rest : List Char} (h : NoDigit rest) :
    (Nat.toDigits 10 n ++ rest).takeWhile Char.isDigit = Nat.toDigits 10 n :=
  (digits_toDigits n).takeWhile_append h

theorem dropWhile_toDigits (n : ℕ) {rest : List Char} (h : NoDigit rest) :
    (Nat.toDigits 10 n ++ rest).dropWhile Char.isDigit = rest :=
  (digits_toDigits n).dropWhile_append h

/-- `strtol` reads back what is printed. -/
theorem strtol_toDigits {n : ℕ} (hn : n < 2 ^ 31) {rest : List Char} (h : NoDigit rest) :
    strtol (Nat.toDigits 10 n ++ rest) = ⟨n, rest, false⟩ := by
  have hvalue : Nat.ofDigitChars 10 (Nat.toDigits 10 n) 0 = n := Nat.ofDigitChars_ten_toDigits
  rw [(digits_toDigits n).strtol_append (by rwa [hvalue]) h, hvalue]

/-- So does `%nd`, for a number of at most `n` digits. -/
theorem scanD_toDigits {width n : ℕ} (hwidth : (Nat.toDigits 10 n).length ≤ width)
    {rest : List Char} (h : NoDigit rest) :
    scanD width (Nat.toDigits 10 n ++ rest) = some ((n : Int), rest) := by
  have htake : (Nat.toDigits 10 n ++ rest).take width
      = Nat.toDigits 10 n ++ rest.take (width - (Nat.toDigits 10 n).length) := by
    rw [List.take_append, List.take_of_length_le hwidth]
  have hdrop : (Nat.toDigits 10 n ++ rest).drop width
      = rest.drop (width - (Nat.toDigits 10 n).length) := by
    rw [List.drop_append, List.drop_eq_nil_of_le hwidth, List.nil_append]
  have hrest : NoDigit (rest.take (width - (Nat.toDigits 10 n).length)) := by
    intro c hc
    rw [List.head?_take] at hc
    split_ifs at hc
    · exact nomatch hc
    · exact h c hc
  rw [scanD, (digits_toDigits n).dropWhile_isSpace]
  dsimp only
  rw [htake, hdrop, (digits_toDigits n).signedDigits_append hrest, Option.map_some,
    List.take_append_drop, Nat.ofDigitChars_ten_toDigits]

/-! ### Texts without blanks and signs -/

/-- The text begins neither with a blank nor with a sign. -/
def Unsigned (cs : List Char) : Prop := ∀ c ∈ cs.head?, isSpace c = false ∧ c ≠ '-' ∧ c ≠ '+'

theorem Unsigned.dropWhile_isSpace {cs : List Char} (h : Unsigned cs) :
    cs.dropWhile isSpace = cs := by
  cases cs with
  | nil => rfl
  | cons c cs => rw [List.dropWhile_cons_of_neg (by simp [(h c rfl).1])]

theorem Unsigned.take {cs : List Char} (h : Unsigned cs) (width : ℕ) :
    Unsigned (cs.take width) := by
  intro c hc
  rw [List.head?_take] at hc
  split_ifs at hc
  · exact nomatch hc
  · exact h c hc

theorem Unsigned.splitSign_eq {cs : List Char} (h : Unsigned cs) : splitSign cs = (false, cs) := by
  cases cs with
  | nil => rfl
  | cons c cs =>
    rw [splitSign]
    · exact fun cs' heq => (h c rfl).2.1 (List.cons.inj heq).1
    · exact fun cs' heq => (h c rfl).2.2 (List.cons.inj heq).1

/-- `%nd` reads digits, where there can be no blank and no sign. -/
theorem converts_scanD {alphabet : Char → Prop}
    (halphabet : ∀ c, alphabet c → isSpace c = false ∧ c ≠ '-' ∧ c ≠ '+') (width : ℕ) :
    Numerals.Converts alphabet (scanD width) Char.isDigit width
      fun ds => (Nat.ofDigitChars 10 ds 0 : Int) := by
  intro cs hcs
  have hplain : Unsigned cs := fun c hc => halphabet c (hcs c (List.mem_of_mem_head? hc))
  rw [scanD, hplain.dropWhile_isSpace, signedDigits, (hplain.take width).splitSign_eq]
  dsimp only
  rw [← Numerals.takeDigits]
  by_cases hnil : Numerals.takeDigits Char.isDigit width cs = []
  · rw [if_pos hnil, if_pos hnil, Option.map_none]
  · rw [if_neg hnil, if_neg hnil, Option.map_some, Numerals.dropWhile_take_append_drop]
    rfl

end Neufbox.Decimal
