import Neufbox.Lib.CStrings
import Neufbox.Lib.Inet

/-!
# Printing addresses and networks

Model of `net_sprint.c`.  `inet_aton` is the one of the C library, whatever texts it takes: the
octets of the address, which are `s_addr` in memory.  `buf` is the memory from the buffer on.
-/

namespace Neufbox.Libetk

open CStrings Inet

variable (inetAton : String → Option Ipv4)

/-- `"01:00:5E:"` -/
def mcEthernetHead : List Char := ['0', '1', ':', '0', '0', ':', '5', 'E', ':']

/-- The text of `ip_mc_ethernet`.  `s_addr` is not brought into host order. -/
def ipMcEthernetText (host : Endian) (ipMc : Ipv4) : List Char :=
  let sAddr := inAddr host ipMc
  let byte (x : BitVec 32) : List Char := hexByte hexUpper (UInt8.ofNat x.toNat)
  mcEthernetHead ++ byte ((sAddr >>> 16) &&& 0x7f) ++ ':' :: byte ((sAddr >>> 8) &&& 0xff)
    ++ ':' :: byte (sAddr &&& 0xff)

/-- `ip_mc_ethernet`: the value returned and the memory. -/
def ipMcEthernet (host : Endian) (mcIpAddr : String)
    (mcEthernet : ℕ → UInt8) (len : ℕ) : Int × (ℕ → UInt8) :=
  match inetAton mcIpAddr with
  | none => (-1, mcEthernet)
  | some ipMc => (0, snprintf mcEthernet 0 len (ascii (ipMcEthernetText host ipMc)))

/-- `return snprintf(buf, len, ...)`, unless an address is not valid. -/
def sprint (buf : ℕ → UInt8) (len : ℕ) : Option (List Char) → Int × (ℕ → UInt8)
  | none => (0, buf)
  | some text => (snprintfRet (ascii text), snprintf buf 0 len (ascii text))

/-- The text of `ipnet_sprint`. -/
def ipnetText (host : Endian) (ipaddr netmask : String)
    (printIp : Bool) : Option (List Char) := do
  let ipaddr ← inetAton ipaddr
  let netmask ← inetAton netmask
  let ipaddr := ntohl host (inAddr host ipaddr)
  let netmask := ntohl host (inAddr host netmask)
  let mask := maskBitsUnsigned netmask
  -- the address is printed in host order, the network is brought back into network order
  let sAddr := if printIp then ipaddr else htonl host (ipaddr &&& netmask)
  return (Inet.octets host sAddr).chars ++ '/' :: Nat.toDigits 10 mask.toNat

/-- `ip_sprint` -/
def ipSprint (host : Endian) (buf : ℕ → UInt8) (len : ℕ)
    (ipaddr netmask : String) : Int × (ℕ → UInt8) :=
  sprint buf len (ipnetText inetAton host ipaddr netmask true)

/-- `net_sprint` -/
def netSprint (host : Endian) (buf : ℕ → UInt8) (len : ℕ)
    (ipaddr netmask : String) : Int × (ℕ → UInt8) :=
  sprint buf len (ipnetText inetAton host ipaddr netmask false)

/-- The text of `broadcast_sprint`.  Both addresses are in network order when they are combined. -/
def broadcastText (host : Endian) (ipaddr netmask : String) :
    Option (List Char) := do
  let ipaddr := inAddr host (← inetAton ipaddr)
  let netmask := inAddr host (← inetAton netmask)
  return (Inet.octets host (htonl host (ipaddr &&& ~~~netmask))).chars

/-- `broadcast_sprint` -/
def broadcastSprint (host : Endian) (buf : ℕ → UInt8) (len : ℕ)
    (ipaddr netmask : String) : Int × (ℕ → UInt8) :=
  sprint buf len (broadcastText inetAton host ipaddr netmask)

end Neufbox.Libetk
