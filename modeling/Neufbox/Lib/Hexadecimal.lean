import Mathlib.Tactic.IntervalCases
import Neufbox.Lib.CStrings
import Neufbox.Lib.Decimal

/-!
# Hexadecimal numbers in C strings

The conversion `%nx` of `sscanf` and `strtol` with base 16, on the characters of a string.  The base
may be written in front, as `0x`; without a digit behind it, C libraries differ in what `%nx` makes
of it, so that this is an argument.

* `converts_scanX`: `%nx` reads digits where there can be no blank, no sign and no prefix;
* `hexByte_hexValue`: a number of two digits is printed in upper case;
* `strtolHex_hexByte`: a byte that was printed is read again.
-/

namespace Neufbox.Hexadecimal

open Decimal CStrings Numerals

/-- `isxdigit` -/
def isHexDigit (c : Char) : Bool :=
  c.isDigit || ('a' ≤ c && c ≤ 'f') || ('A' ≤ c && c ≤ 'F')

/-- The value of a digit. -/
def hexDigitValue (c : Char) : ℕ :=
  if c.isDigit then c.toNat - '0'.toNat
  else if 'a' ≤ c then c.toNat - 'a'.toNat + 10
  else c.toNat - 'A'.toNat + 10

/-- The value of a number. -/
def hexValue (ds : List Char) : ℕ := ds.foldl (fun value c => 16 * value + hexDigitValue c) 0

/-- Whether the base is written in front, and what follows it. -/
def splitBase : List Char → Bool × List Char
  | '0' :: 'x' :: cs => (true, cs)
  | '0' :: 'X' :: cs => (true, cs)
  | cs => (false, cs)

/-- The conversion `%nx` of `sscanf`, for the width `n`: the number, which is an `unsigned int`, and
what follows it.  `bareBase` says whether the base alone is read as zero. -/
def scanX (bareBase : Bool) (width : ℕ) (cs : List Char) : Option (BitVec 32 × List Char) :=
  let body := cs.dropWhile isSpace
  let (negative, item) := splitSign (body.take width)
  let (based, item) := splitBase item
  let digits := item.takeWhile isHexDigit
  let value := BitVec.ofNat 32 (hexValue digits)
  if digits = [] ∧ ¬(based ∧ bareBase) then none
  else some (if negative then -value else value, item.dropWhile isHexDigit ++ body.drop width)

/-- The digits of a number for `strtol`, to which the base in front belongs if a digit follows. -/
def afterBase (cs : List Char) : List Char :=
  let (based, body) := splitBase cs
  if based ∧ body.head?.any isHexDigit then body else cs

/-- `strtol` with base 16. -/
def strtolHex (cs : List Char) : Strtol :=
  let (negative, body) := splitSign (cs.dropWhile isSpace)
  let digits := (afterBase body).takeWhile isHexDigit
  let endptr := (afterBase body).dropWhile isHexDigit
  let value : Int := if negative then -(hexValue digits : Int) else hexValue digits
  if digits = [] then ⟨0, cs, false⟩
  else if longMax < value then ⟨longMax, endptr, true⟩
  else if value < longMin then ⟨longMin, endptr, true⟩
  else ⟨value, endptr, false⟩

/-! ### Digits -/

/-- What holds of each digit. -/
theorem forall_hexDigit (P : Char → Prop) [DecidablePred P]
    (h : "0123456789abcdefABCDEF".toList.all (fun c => decide (P c)) = true) {c : Char}
    (hc : isHexDigit c = true) : P c := by
  have hbounds : 48 ≤ c.toNat ∧ c.toNat ≤ 57 ∨ 97 ≤ c.toNat ∧ c.toNat ≤ 102 ∨
      65 ≤ c.toNat ∧ c.toNat ≤ 70 := by
    have hzero : '0'.toNat = 48 := rfl
    have hnine : '9'.toNat = 57 := rfl
    have ha : 'a'.toNat = 97 := rfl
    have hf : 'f'.toNat = 102 := rfl
    have hA : 'A'.toNat = 65 := rfl
    have hF : 'F'.toNat = 70 := rfl
    simp only [isHexDigit, Char.isDigit, Bool.or_eq_true, Bool.and_eq_true, decide_eq_true_eq,
      ge_iff_le, Char.le_def, UInt32.le_iff_toNat_le, Char.toNat_val] at hc
    omega
  have hmem (n : ℕ) (hn : Char.ofNat n ∈ "0123456789abcdefABCDEF".toList) (hc : c.toNat = n) :
      P c := by
    rw [← Char.ofNat_toNat c, hc]
    exact of_decide_eq_true (List.all_eq_true.mp h _ hn)
  rcases hbounds with ⟨hlow, hhigh⟩ | ⟨hlow, hhigh⟩ | ⟨hlow, hhigh⟩
  all_goals
    generalize hn : c.toNat = n at hlow hhigh
    interval_cases n <;> exact hmem _ (by decide) hn

theorem hexDigitValue_lt {c : Char} (h : isHexDigit c = true) : hexDigitValue c < 16 :=
  forall_hexDigit (hexDigitValue · < 16) (by decide) h

/-- A digit is printed in upper case. -/
theorem hexUpper_hexDigitValue {c : Char} (h : isHexDigit c = true) :
    hexUpper (hexDigitValue c) = c.toUpper :=
  forall_hexDigit (fun c => hexUpper (hexDigitValue c) = c.toUpper) (by decide) h

theorem hexUpper_spec :
    ∀ i : Fin 16, isHexDigit (hexUpper i) = true ∧ hexDigitValue (hexUpper i) = i := by
  decide

/-- What is printed of a byte are digits, in upper case. -/
theorem hexByte_spec (b : UInt8) :
    (∀ c ∈ hexByte hexUpper b, isHexDigit c = true) ∧
      (hexByte hexUpper b).map Char.toUpper = hexByte hexUpper b := by
  have hlt := b.toNat_lt
  have hupper : ∀ i : Fin 16, (hexUpper i).toUpper = hexUpper i := by decide
  have hhigh := (hexUpper_spec ⟨b.toNat / 16, by omega⟩).1
  have hlow := (hexUpper_spec ⟨b.toNat % 16, by omega⟩).1
  refine ⟨List.forall_mem_cons.mpr ⟨hhigh, List.forall_mem_singleton.mpr hlow⟩, ?_⟩
  have hhigh := hupper ⟨b.toNat / 16, by omega⟩
  have hlow := hupper ⟨b.toNat % 16, by omega⟩
  rw [hexByte, List.map_cons, List.map_singleton]
  exact congrArg₂ (fun c d => [c, d]) hhigh hlow

/-- A digit is no blank, no sign, and does not belong to the base. -/
theorem isHexDigit_spec {c : Char} (h : isHexDigit c = true) :
    (isSpace c = false ∧ c ≠ '-' ∧ c ≠ '+') ∧ c ≠ 'x' ∧ c ≠ 'X' :=
  forall_hexDigit (fun c => (isSpace c = false ∧ c ≠ '-' ∧ c ≠ '+') ∧ c ≠ 'x' ∧ c ≠ 'X')
    (by decide) h

/-! ### Numbers -/

theorem hexValue_pair (c d : Char) : hexValue [c, d] = 16 * hexDigitValue c + hexDigitValue d := by
  rw [hexValue, List.foldl_cons, List.foldl_cons, List.foldl_nil, Nat.mul_zero, Nat.zero_add]

/-- **Two digits** are printed in upper case. -/
theorem hexByte_hexValue {c d : Char} (hc : isHexDigit c = true) (hd : isHexDigit d = true) :
    hexByte hexUpper (UInt8.ofNat (hexValue [c, d])) = [c.toUpper, d.toUpper] := by
  have hclt := hexDigitValue_lt hc
  have hdlt := hexDigitValue_lt hd
  have hvalue : (UInt8.ofNat (hexValue [c, d])).toNat
      = 16 * hexDigitValue c + hexDigitValue d := by
    rw [UInt8.toNat_ofNat', hexValue_pair]
    omega
  rw [hexByte, hvalue, ← hexUpper_hexDigitValue hc, ← hexUpper_hexDigitValue hd]
  congr 2
  · omega
  · congr 1
    omega

theorem splitBase_of_forall_ne {cs : List Char} (h : ∀ c ∈ cs, c ≠ 'x' ∧ c ≠ 'X') :
    splitBase cs = (false, cs) := by
  rw [splitBase]
  · rintro cs' rfl
    exact (h 'x' (by simp)).1 rfl
  · rintro cs' rfl
    exact (h 'X' (by simp)).2 rfl

/-- `%nx` reads digits, where there can be no blank, no sign and no base in front. -/
theorem converts_scanX {alphabet : Char → Prop}
    (halphabet : ∀ c, alphabet c →
      (isSpace c = false ∧ c ≠ '-' ∧ c ≠ '+') ∧ c ≠ 'x' ∧ c ≠ 'X')
    (bareBase : Bool) (width : ℕ) :
    Converts alphabet (scanX bareBase width) isHexDigit width
      fun ds => BitVec.ofNat 32 (hexValue ds) := by
  intro cs hcs
  have hplain : Unsigned cs := fun c hc => (halphabet c (hcs c (List.mem_of_mem_head? hc))).1
  have hbase : splitBase (cs.take width) = (false, cs.take width) :=
    splitBase_of_forall_ne fun c hc => (halphabet c (hcs c (List.mem_of_mem_take hc))).2
  rw [scanX, hplain.dropWhile_isSpace, (hplain.take width).splitSign_eq]
  dsimp only
  rw [hbase]
  dsimp only
  rw [← takeDigits]
  by_cases hnil : takeDigits isHexDigit width cs = []
  · rw [if_pos hnil, if_pos ⟨hnil, fun h => Bool.false_ne_true h.1⟩]
  · rw [if_neg hnil, if_neg fun h => hnil h.1, dropWhile_take_append_drop]
    rfl

/-- `strtol` reads a number that fits in a `long`. -/
theorem strtolHex_digits {ds : List Char} (hne : ds ≠ [])
    (hds : ∀ c ∈ ds, isHexDigit c = true) (hlt : hexValue ds < 2 ^ 31) :
    strtolHex ds = ⟨hexValue ds, [], false⟩ := by
  have hplain : Unsigned ds := fun c hc => (isHexDigit_spec (hds c (List.mem_of_mem_head? hc))).1
  have hbase : splitBase ds = (false, ds) :=
    splitBase_of_forall_ne fun c hc => (isHexDigit_spec (hds c hc)).2
  have hafter : afterBase ds = ds := by
    rw [afterBase, hbase]
    exact if_neg fun h => Bool.false_ne_true h.1
  have hmax : ¬longMax < (hexValue ds : Int) := by
    simp only [longMax]
    omega
  have hmin : ¬(hexValue ds : Int) < longMin := by
    simp only [longMin]
    omega
  rw [strtolHex, hplain.dropWhile_isSpace, hplain.splitSign_eq]
  dsimp only
  rw [hafter, List.takeWhile_eq_self_iff.mpr hds, List.dropWhile_eq_nil_iff.mpr hds, if_neg hne]
  exact (if_neg hmax).trans (if_neg hmin)

/-- **A byte** that was printed is read again. -/
theorem strtolHex_hexByte (b : UInt8) :
    strtolHex (hexByte hexUpper b) = ⟨b.toNat, [], false⟩ := by
  have hlt := b.toNat_lt
  have hhigh := (hexUpper_spec ⟨b.toNat / 16, by omega⟩).2
  have hlow := (hexUpper_spec ⟨b.toNat % 16, by omega⟩).2
  have hvalue : hexValue (hexByte hexUpper b) = b.toNat := by
    rw [hexByte, hexValue_pair]
    dsimp only at hhigh hlow
    rw [hhigh, hlow]
    omega
  have hne : hexByte hexUpper b ≠ [] := List.cons_ne_nil _ _
  rw [strtolHex_digits hne (hexByte_spec b).1 (by omega), hvalue]

end Neufbox.Hexadecimal
