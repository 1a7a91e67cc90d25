import Neufbox.Libnbu.List
import Neufbox.Libnbu.Mac
import Neufbox.Libnbu.Net

/-!
# libnbu buffers

Model of `nbu_string_copy` and `nbu_string_printf` of `src/string.c` for buffers of any size, and of
the functions of `src/net.c` that write names and addresses into buffers of their callers.  A buffer
is described by the string that it holds, as characters or as bytes; sizes are `size_t`, of 32 bits
as `int` is.

With a size that is negative as an `int` nothing is written and the buffer keeps what it holds.
With a size of zero the byte in front of the buffer is written: `none`.  What the two functions
return is not looked at by those of `src/net.c`.
-/

namespace Neufbox.Libnbu

open Decimal Hexadecimal CStrings

/-! ### Strings -/

section

variable {α : Type*}

/-- `nbu_string_copy`: what it returns, and the string in the buffer, which held `str`. -/
def nbuStringCopyTo (str : List α) (size : BitVec 32) (src : List α) :
    Option (NbuRet × List α) :=
  if size.toInt < 0 then some (.error, str)
  else if size = 0 then none
  -- the byte at the end of the buffer is overwritten if the source reaches it
  else if size.toNat ≤ src.length then some (.error, src.take (size.toNat - 1))
  else some (.success, src)

/-- What `vsnprintf` returns for a text of `n` characters: an error when that is no `int`. -/
def vsnprintfRet (n : ℕ) : Int := if n < 2 ^ 31 then n else -1

/-- `nbu_string_printf`, for the text that the format gives. -/
def nbuStringPrintfTo (str : List α) (size : BitVec 32) (text : List α) :
    Option (NbuRet × List α) :=
  if size.toInt < 0 then some (.error, str)
  else if size = 0 then none
  else
    let str := text.take (size.toNat - 1)
    let ret := vsnprintfRet text.length
    if ret < 0 then some (.error, str)
    else if size.toInt - 1 < ret then some (.error, str)
    else some (.success, str)

end

/-- `"%.*s"`; a negative precision counts as none. -/
def precisionText (precision : Int) (s : List Char) : List Char :=
  if precision < 0 then s else s.take precision.toNat

/-! ### Host names -/

/-- `nbu_net_split_hostname`, with what the two buffers hold. -/
def nbuNetSplitHostname (hostname host : List Char) (hostLen : BitVec 32) (domain : List Char)
    (domainLen : BitVec 32) : Option (NbuRet × List Char × List Char) :=
  match strstr ['.'] hostname with
  | some (before, after) =>
    if after ≠ [] then do
      -- `c - hostname` is passed as an `int`
      let precision := (BitVec.ofNat 32 before.length).toInt
      let (_, host) ← nbuStringPrintfTo host hostLen (precisionText precision hostname)
      let (_, domain) ← nbuStringCopyTo domain domainLen after
      some (.success, host, domain)
    else some (.error, host, domain)
  | none => some (.error, host, domain)

/-- `nbu_net_join_hostname`, with what the buffer holds. -/
def nbuNetJoinHostname (host domain hostname : List Char) (hostnameLen : BitVec 32) :
    Option (NbuRet × List Char) :=
  let n := (BitVec.ofNat 32 host.length).toInt
  if 0 < n ∧ n < 21 then do
    let (_, hostname) ← nbuStringPrintfTo hostname hostnameLen (host ++ '.' :: domain)
    some (.success, hostname)
  else some (.error, hostname)

/-! ### Addresses -/

/-- The loop of `nbu_net_join_ip` and `nbu_net_join_mac`, which reads each part from the buffer that
it was copied to: what the buffer holds at the end, and the numbers, unless a part is not valid. -/
def joinLoop (maxLen : ℕ) (strtol : List Char → Strtol) (size : BitVec 32) :
    List Char → List (List Char) → Option (List Char × Option (List Int))
  | str, [] => some (str, some [])
  | str, p :: ps => do
    let (_, str) ← nbuStringCopyTo str size p
    if str.length < 1 ∨ maxLen < str.length then some (str, none)
    else
      let r := strtol str
      if r.endptr = str ∨ r.endptr ≠ [] ∨ strtolFailed r then some (str, none)
      else do
        let (str, parts) ← joinLoop maxLen strtol size str ps
        some (str, parts.map (r.value :: ·))

/-- What the two functions do with the numbers: when they are below 256, they are printed. -/
def joinParts (print : Int → List Char) (sep : Char) (size : BitVec 32) (str : List Char)
    (parts : Option (List Int)) : Option (NbuRet × List Char) :=
  match parts with
  | none => some (.error, str)
  | some parts =>
    if partsBelow256 (parts.map (BitVec.ofInt 32)) then do
      let (_, str) ← nbuStringPrintfTo str size ([sep].intercalate (parts.map print))
      some (.success, str)
    else some (.error, str)

/-- `nbu_net_join_ip`, with what the buffer holds. -/
def nbuNetJoinIpTo (p0 p1 p2 p3 ip : List Char) (ipLen : BitVec 32) :
    Option (NbuRet × List Char) := do
  let (ip, parts) ← joinLoop 3 strtol ipLen ip [p0, p1, p2, p3]
  joinParts decimal '.' ipLen ip parts

/-- `nbu_net_join_mac`, with what the buffer holds. -/
def nbuNetJoinMac (p0 p1 p2 p3 p4 p5 mac : List Char) (macLen : BitVec 32) :
    Option (NbuRet × List Char) := do
  let (mac, parts) ← joinLoop 2 strtolHex macLen mac [p0, p1, p2, p3, p4, p5]
  joinParts (fun p => hexByte hexUpper (UInt8.ofNat p.toNat)) ':' macLen mac parts

end Neufbox.Libnbu
