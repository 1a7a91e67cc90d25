import Neufbox.Lib.Inet
import Neufbox.Libnbu.String

/-!
# libnbu addresses

Model of the functions of `src/net.c` for IP addresses.  `inet_addr` is the one of the C library
(uClibc): four decimal numbers up to 255, and `INADDR_NONE` for everything else.  It is the number
of the address, without regard to the byte order, which all that is computed from it has.
-/

namespace Neufbox.Libnbu

open Decimal CStrings Inet

/-! ### Parts -/

/-- `((p0 | p1 | p2 | p3) & 0xffffff00) == 0` -/
def partsInRange (p0 p1 p2 p3 : Int) : Bool :=
  (BitVec.ofInt 32 p0 ||| BitVec.ofInt 32 p1 ||| BitVec.ofInt 32 p2 ||| BitVec.ofInt 32 p3)
    &&& 0xffffff00#32 = 0

/-- The address of four parts. -/
def ipOfParts (p0 p1 p2 p3 : Int) : Ipv4 :=
  ⟨UInt8.ofNat p0.toNat, UInt8.ofNat p1.toNat, UInt8.ofNat p2.toNat, UInt8.ofNat p3.toNat⟩

/-- A dot of the format. -/
def scanDot : List Char → Option (List Char)
  | '.' :: cs => some cs
  | _ => none

/-- `sscanf` with `"%3d.%3d.%3d.%3d"`; what follows is not looked at. -/
def scanQuad (cs : List Char) : Option (Int × Int × Int × Int) := do
  let (p0, cs) ← scanD 3 cs
  let (p1, cs) ← scanD 3 (← scanDot cs)
  let (p2, cs) ← scanD 3 (← scanDot cs)
  let (p3, _) ← scanD 3 (← scanDot cs)
  some (p0, p1, p2, p3)

/-- What `nbu_net_validate_ip` and `nbu_net_split_ip` have in common. -/
def scanIp (ip : String) : Option Ipv4 :=
  let buffer := (nbuStringCopy 17 ip).toList
  if 6 < buffer.length ∧ buffer.length < 16 ∧ buffer.all (fun c => c.isDigit || c = '.') then
    match scanQuad buffer with
    | none => none
    | some (p0, p1, p2, p3) =>
      if partsInRange p0 p1 p2 p3 then some (ipOfParts p0 p1 p2 p3) else none
  else none

/-- `nbu_net_validate_ip` -/
def nbuNetValidateIp (ip : String) : Bool := (scanIp ip).isSome

/-- `"%d"` -/
def octetText (n : UInt8) : String := String.ofList (Nat.toDigits 10 n.toNat)

/-- `nbu_net_split_ip` -/
def nbuNetSplitIp (ip : String) : Option (String × String × String × String) :=
  (scanIp ip).map fun ip => (octetText ip.a, octetText ip.b, octetText ip.c, octetText ip.d)

/-- The test after `strtol`. -/
def strtolFailed (r : Strtol) : Bool :=
  r.errno && (r.value = longMax || r.value = longMin) || r.errno && r.value = 0

/-- A round of the loop of `nbu_net_join_ip`. -/
def parsePart (ipLen : ℕ) (p : String) : Option Int :=
  let ip := (nbuStringCopy ipLen p).toList
  if ip.length < 1 ∨ 3 < ip.length then none
  else
    let r := strtol ip
    if r.endptr = ip ∨ r.endptr ≠ [] ∨ strtolFailed r then none else some r.value

/-- `nbu_net_join_ip`; `ipLen` is the size of the buffer. -/
def nbuNetJoinIp (p0 p1 p2 p3 : String) (ipLen : ℕ) : Option String := do
  let v0 ← parsePart ipLen p0
  let v1 ← parsePart ipLen p1
  let v2 ← parsePart ipLen p2
  let v3 ← parsePart ipLen p3
  if partsInRange v0 v1 v2 v3 then some (nbuStringCopy ipLen (ipOfParts v0 v1 v2 v3).text)
  else none

/-! ### Masks -/

/-- The loop of `nbu_net_validate_netmask`: the mask, unless a number is not valid. -/
def sumParts (p0 p1 p2 p3 : String) : Option (BitVec 32) :=
  let r0 := strtol p0.toList
  let r1 := strtol p1.toList
  let r2 := strtol p2.toList
  let r3 := strtol p3.toList
  if strtolFailed r0 || strtolFailed r1 || strtolFailed r2 || strtolFailed r3 then none
  else some (BitVec.ofInt 32 r0.value <<< 24 + BitVec.ofInt 32 r1.value <<< 16
    + BitVec.ofInt 32 r2.value <<< 8 + BitVec.ofInt 32 r3.value)

/-- `nbu_net_validate_netmask` -/
def nbuNetValidateNetmask (netmask : String) : Bool :=
  match nbuNetSplitIp netmask with
  | none => false
  | some (p0, p1, p2, p3) =>
    match sumParts p0 p1 p2 p3 with
    | none => false
    | some nm => -(nm &&& -nm) = nm

/-! ### Addresses with masks -/

/-- A number of `inet_aton`, and what follows it. -/
def inetPart (cs : List Char) : Option (ℕ × List Char) :=
  let digits := cs.takeWhile Char.isDigit
  let value := Nat.ofDigitChars 10 digits 0
  if digits = [] ∨ 255 < value then none else some (value, cs.dropWhile Char.isDigit)

/-- `inet_aton`; white space may follow. -/
def inetAton (cs : List Char) : Option (BitVec 32) := do
  let (v0, cs) ← inetPart cs
  let (v1, cs) ← inetPart (← scanDot cs)
  let (v2, cs) ← inetPart (← scanDot cs)
  let (v3, cs) ← inetPart (← scanDot cs)
  if cs.head?.all isSpace then
    some (BitVec.ofNat 32 (v0 * 2 ^ 24 + v1 * 2 ^ 16 + v2 * 2 ^ 8 + v3))
  else none

/-- `INADDR_NONE` -/
def inaddrNone : BitVec 32 := BitVec.allOnes 32

/-- `inet_addr` -/
def inetAddr (cp : String) : BitVec 32 := (inetAton cp.toList).getD inaddrNone

/-- What `nbu_net_validate_full_ip` returns. -/
inductive FullIp where
  | success
  | errInvalidIp
  | errInvalidMask
  | errIpIsNetwork
  | errIpIsBroadcast
  deriving DecidableEq

/-- `nbu_net_validate_full_ip` -/
def nbuNetValidateFullIp (ip netmask : String) : FullIp :=
  if nbuNetValidateIp ip = false then .errInvalidIp
  else if nbuNetValidateNetmask netmask = false then .errInvalidMask
  else if inetAddr ip = inaddrNone then .errInvalidIp
  else if inetAddr netmask = inaddrNone then .errInvalidMask
  else if inetAddr ip &&& inetAddr netmask = inetAddr ip then .errIpIsNetwork
  else if (inetAddr ip &&& inetAddr netmask) ||| ~~~inetAddr netmask = inetAddr ip then
    .errIpIsBroadcast
  else .success

/-! ### Networks -/

/-- `inet_aton`, with the octets that it stores. -/
def inetAtonOctets (cp : String) : Option Ipv4 := (inetAton cp.toList).map .ofAddr

/-- `nbu_net_get_network`, with any `inet_aton`: the memory from `network` on, unless an address is
not valid (`NBU_ERROR`). -/
def nbuNetGetNetwork (inetAton : String → Option Ipv4) (host : Endian) (ip netmask : String)
    (network : ℕ → UInt8) (networkSize : ℕ) : Option (ℕ → UInt8) := do
  let inIpaddr ← inetAton ip
  let inNetmask ← inetAton netmask
  let inIpaddr := ntohl host (inAddr host inIpaddr)
  let inNetmask := ntohl host (inAddr host inNetmask)
  let mask := maskBitsUnsigned inNetmask
  let inNetwork := htonl host (inIpaddr &&& inNetmask)
  let text := (Inet.octets host inNetwork).chars ++ '/' :: Nat.toDigits 10 mask.toNat ++ ['\n']
  return snprintf network 0 networkSize (ascii text)

end Neufbox.Libnbu
