import Neufbox.Lib.Hexadecimal
import Neufbox.Libnbu.String

/-!
# libnbu Ethernet addresses

Model of `nbu_net_validate_mac` and `nbu_net_split_mac` of `src/net.c`.  Both copy the text into a
buffer and read it with the same format, but the buffers have different sizes, and only the second
one looks at the characters.
-/

namespace Neufbox.Libnbu

open Hexadecimal CStrings Numerals

variable (bareBase : Bool)

/-- `sscanf` with `"%2x:%2x:%2x:%2x:%2x:%2x"`: the numbers, and what is left unread. -/
def scanMac (cs : List Char) : Option (List (BitVec 32) × List Char) :=
  scanFields (scanX bareBase 2) ':' 5 cs

/-- `nbu_net_validate_mac` -/
def nbuNetValidateMac (mac : String) : Bool :=
  let buffer := (nbuStringCopy 18 mac).toList
  buffer.length = 17 && (scanMac bareBase buffer).isSome

/-- `((p0 | p1 | …) & 0xffffff00) == 0` -/
def partsBelow256 (parts : List (BitVec 32)) : Bool :=
  parts.foldr (· ||| ·) 0 &&& 0xffffff00#32 = 0

/-- `"%02X"`, for a number below 256. -/
def macPartText (p : BitVec 32) : String :=
  String.ofList (hexByte hexUpper (UInt8.ofNat p.toNat))

/-- `nbu_net_split_mac` -/
def nbuNetSplitMac (mac : String) : Option (List String) :=
  let buffer := (nbuStringCopy 19 mac).toList
  if 10 < buffer.length ∧ buffer.length < 18 ∧
      buffer.all (fun c => isHexDigit c || c = ':') then
    match scanMac bareBase buffer with
    | none => none
    | some (mparts, _) =>
      if partsBelow256 mparts then some (mparts.map macPartText) else none
  else none

end Neufbox.Libnbu
