import Neufbox.Libnbu.Buffer

/-!
# libnbu: `nbu_string_trim`

Model of `nbu_string_trim` on the memory, with the addresses that are read: the two scans compare a
pointer with `NULL` only, and not with the ends of the string.

A scan upwards, and `strlen`, end at the NUL at the latest; they are given a number of rounds, and
are `none` if that is not enough.  The scan downwards ends at `NULL` at the latest.
-/

namespace Neufbox.Libnbu

open Memory

variable (m : ℕ → UInt8)

/-- A byte that is taken off. -/
def blankByte (b : UInt8) : Bool := isBlank (Char.ofNat b.toNat)

/-- `strlen` -/
def strlen : ℕ → ℕ → Option ℕ
  | 0, _ => none
  | fuel + 1, p => if m p = 0 then some 0 else (strlen fuel (p + 1)).map (· + 1)

/-- `TRIM(p_str, ++)`: where the pointer stops, and what is read. -/
def trimStart : ℕ → ℕ → Option (ℕ × List ℕ)
  | 0, _ => none
  | fuel + 1, p =>
    if p = 0 then some (p, [])
    else if blankByte (m p) then
      (trimStart fuel (p + 1)).map fun (q, reads) => (q, p :: reads)
    else some (p, [p])

/-- `TRIM(p_str, --)` -/
def trimEnd : ℕ → ℕ × List ℕ
  | 0 => (0, [])
  | p + 1 =>
    if blankByte (m (p + 1)) then
      let (q, reads) := trimEnd p
      (q, (p + 1) :: reads)
    else (p + 1, [p + 1])

/-- `"%.*s"` for the string at `p`: the text, and what is read. -/
def printPrecision (precision p : ℕ) : List UInt8 × List ℕ :=
  let text := (read m p precision).takeWhile (· ≠ 0)
  -- the NUL is read, unless the precision is reached before it
  (text, List.range' p (min precision (text.length + 1)))

/-- `nbu_string_trim` for the string at `str`, with a buffer that holds `buf`: what is read, what is
returned, and what the buffer holds. -/
def nbuStringTrimAt (fuel str : ℕ) (buf : List UInt8) (bufSize : BitVec 32) :
    Option (List ℕ × NbuRet × List UInt8) := do
  let len ← strlen m fuel str
  let (pStrSta, readsSta) ← trimStart m fuel str
  -- `strlen(str) - 1` wraps around for the empty string
  let (pStrEnd, readsEnd) := trimEnd m (str + len - 1)
  -- a negative difference, as an `int`, counts as zero
  let diff := (BitVec.ofInt 32 ((pStrEnd : Int) - pStrSta + 1)).toInt.toNat
  let (text, readsText) := printPrecision m diff pStrSta
  let (ret, buf) ← nbuStringPrintfTo buf bufSize text
  some (List.range' str (len + 1) ++ readsSta ++ readsEnd ++ readsText, ret, buf)

end Neufbox.Libnbu
