import Neufbox.Lib.Decimal
import Neufbox.Libnbu.String

/-!
# Theme versions

Model of `ewf_theme_check_compatibility` (`core/ewf_theme.c`).  Strings are given by their
characters.  `int` and `long` have 32 bits; a sum or a shift that does not fit wraps, as the
compiler for the box has it.
-/

namespace Neufbox.Libewf

open Libnbu Decimal

/-- Why the check does not succeed: it returns `EWF_ERROR`, or what it does is not defined. -/
inductive Failure where
  | error
  | undefined
  deriving DecidableEq

/-- `THEME_REGEX_VERSION`, `^[0-9]+\.[0-9]+$`: the end is also found before a last newline. -/
def themeRegexVersion (str : List Char) : Bool :=
  let line := if str.getLast? = some '\n' then str.dropLast else str
  line.takeWhile Char.isDigit ≠ [] &&
    match line.dropWhile Char.isDigit with
    | '.' :: minor => minor ≠ [] && minor.all Char.isDigit
    | _ => false

/-- `FIRST_GLUE_FOR_LAZY_DEV`: a version without the blanks around it, in a buffer of 32 bytes. -/
def trimVersion (item : List Char) : Except Failure (List Char) :=
  match nbuStringTrim 32 item with
  | none => throw .undefined
  | some (true, ver) => pure ver
  | some (false, _) => throw .error

/-- The loop of `SECOND_GLUE_FOR_LAZY_DEV`, which adds up the numbers of a version. -/
def packLoop : List (List Char) → ℕ → BitVec 32 → Except Failure (BitVec 32)
  | [], _, i => pure i
  | ver :: list, decalator, i =>
    let num := strtol ver
    if num.errno then throw .error
    else packLoop list (decalator - 8) (i + BitVec.ofInt 32 num.value <<< decalator)

/-- `SECOND_GLUE_FOR_LAZY_DEV`: the number a version is compared by. -/
def packVersion (name : List Char) : Except Failure (BitVec 32) :=
  if themeRegexVersion name then
    match nbuStringSplit name ['.'] with
    | none => throw .undefined
    | some list => packLoop list 24 0
  else throw .error

/-- `ewf_theme_check_compatibility`, for the target of the theme and the version of the box. -/
def ewfThemeCheckCompatibility (target : Option (List Char)) (curVer : List Char) :
    Except Failure Unit := do
  let some target := target | throw .error
  let some listVer := nbuStringSplit target [','] | throw .undefined
  let [min, max] := listVer | throw .error
  let minVer ← trimVersion min
  let maxVer ← trimVersion max
  let iMinVer ← packVersion minVer
  let iMaxVer ← packVersion maxVer
  let iCurVer ← packVersion curVer
  if iCurVer.toInt ≥ iMinVer.toInt ∧ iCurVer.toInt ≤ iMaxVer.toInt then pure ()
  else throw .error

end Neufbox.Libewf
