import Neufbox.Lib.CStrings
import Neufbox.Lib.Inet
import Neufbox.Libnbd.Query

/-!
# Sequential files

Model of `seq_file.c` and `seq_file.h`: texts are printed one behind the other into a buffer.
`size_t` has `w` bits.  `buf` is the memory from `m->buf` on, of which `size` bytes belong to the
buffer.

What `vsnprintf` makes of a format and its arguments is given as the text.  `inet_aton` is the one
of the C library, whatever texts it takes: the octets of the address.
-/

namespace Neufbox.Libetk

open Memory CStrings Inet Libnbd

/-- `struct seq_file` -/
structure SeqFile (w : ℕ) where
  buf : ℕ → UInt8
  size : BitVec w
  /-- The current position. -/
  count : BitVec w

variable {w : ℕ}

/-- `min`, on `size_t`. -/
def minSize (x y : BitVec w) : BitVec w := if x < y then x else y

/-- `seq_printf`: the value returned and the file. -/
def seqPrintf (m : SeqFile w) (text : List UInt8) : Int × SeqFile w :=
  if m.count < m.size then
    let buf := snprintf m.buf m.count.toNat (m.size - m.count).toNat text
    -- an `int`, converted to `size_t`
    let len := BitVec.ofInt w (snprintfRet text)
    if m.count + len < m.size then (0, { m with buf := buf, count := m.count + len })
    else (-1, { m with buf := buf, count := m.size })
  else (-1, { m with count := m.size })

/-- `hex_ascii` -/
def hexAscii (x : UInt8) : UInt8 := UInt8.ofNat (hexLower x.toNat).toNat

/-- The loop of `seq_print_hex`; `to_` is an offset from `buf`. -/
def seqPrintHexLoop (maxCount : BitVec w) (m : SeqFile w) (to_ : ℕ) : List UInt8 → SeqFile w
  | [] => m
  | p :: ps =>
    if m.count < maxCount then
      let m := { m with
        buf := Function.update m.buf to_ (hexAscii (p >>> 4))
        count := m.count + 1 }
      let m := { m with
        buf := Function.update m.buf (to_ + 1) (hexAscii (p &&& 0x0f))
        count := m.count + 1 }
      seqPrintHexLoop maxCount m (to_ + 2) ps
    else m

/-- `seq_print_hex` -/
def seqPrintHex (m : SeqFile w) (bin : ℕ → UInt8) (len : BitVec w) : SeqFile w :=
  let maxCount := m.size - 1
  let len := minSize len (m.size - m.count)
  let m := seqPrintHexLoop maxCount m m.count.toNat (read bin 0 len.toNat)
  { m with buf := Function.update m.buf (minSize m.count maxCount).toNat 0 }

/-- `struct ether_addr` -/
structure EtherAddr where
  octet0 : UInt8
  octet1 : UInt8
  octet2 : UInt8
  octet3 : UInt8
  octet4 : UInt8
  octet5 : UInt8
  deriving DecidableEq

def EtherAddr.octets (e : EtherAddr) : List UInt8 :=
  [e.octet0, e.octet1, e.octet2, e.octet3, e.octet4, e.octet5]

/-- `enum mac_addr_format` -/
inductive MacAddrFormat where
  | system
  | voip
  | compact
  deriving DecidableEq

/-- The text that `seq_print_mac_addr` prints.  The offset is added to the last four octets. -/
def macAddrText (host : Endian) (mac : EtherAddr) (fmt : MacAddrFormat) (off : Int) : List Char :=
  let last8digit := inAddr host ⟨mac.octet2, mac.octet3, mac.octet4, mac.octet5⟩
  let last8digit := ntohl host last8digit + BitVec.ofInt 32 off
  let last := Inet.octets host (htonl host last8digit)
  let e : EtherAddr := ⟨mac.octet0, mac.octet1, last.a, last.b, last.c, last.d⟩
  match fmt with
  | .voip => List.intercalate ['-'] (e.octets.map (hexByte hexLower))
  | .compact => (e.octets.map (hexByte hexUpper)).flatten
  | .system => List.intercalate [':'] (e.octets.map (hexByte hexUpper))

/-- `seq_print_mac_addr` -/
def seqPrintMacAddr (host : Endian) (m : SeqFile w) (mac : EtherAddr) (fmt : MacAddrFormat)
    (off : Int) : SeqFile w :=
  (seqPrintf m (ascii (macAddrText host mac fmt off))).2

/-- The text that `seq_print_net` prints, unless an address is not valid. -/
def seqNetText (inetAton : String → Option Ipv4) (host : Endian) (ipaddr netmask : String) :
    Option (List Char) := do
  let ipaddr ← inetAton ipaddr
  let netmask ← inetAton netmask
  let ipaddr := ntohl host (inAddr host ipaddr)
  let netmask := ntohl host (inAddr host netmask)
  let mask : Int := 32 - ((ffs netmask : Int) - 1)
  -- the mask 0.0.0.0 has no lowest bit
  let mask : Int := if mask > 32 then 0 else mask
  let network := htonl host (ipaddr &&& netmask)
  return (Inet.octets host network).chars ++ '/' :: decimal mask

/-- `seq_print_net`: the value returned and the file. -/
def seqPrintNet (inetAton : String → Option Ipv4) (host : Endian) (m : SeqFile w)
    (ipaddr netmask : String) : Int × SeqFile w :=
  match seqNetText inetAton host ipaddr netmask with
  | none => (0, m)
  | some text => seqPrintf m (ascii text)

/-- `seq_clear` -/
def seqClear (m : SeqFile w) : SeqFile w := { m with count := 0 }

/-- `seq_full` -/
def seqFull (m : SeqFile w) : Bool := m.count = m.size

/-- A call on a file. -/
inductive SeqOp (w : ℕ) where
  | printf (text : CString)
  | printHex (bin : ℕ → UInt8) (len : BitVec w)
  | printMacAddr (mac : EtherAddr) (fmt : MacAddrFormat) (off : Int)
  | printNet (ipaddr netmask : String)
  | clear

/-- The file after a call, and what the call returns. -/
def seqStep (inetAton : String → Option Ipv4) (host : Endian) (m : SeqFile w) :
    SeqOp w → SeqFile w × List Int
  | .printf text =>
    let (ret, m) := seqPrintf m text.bytes
    (m, [ret])
  | .printHex bin len => (seqPrintHex m bin len, [])
  | .printMacAddr mac fmt off => (seqPrintMacAddr host m mac fmt off, [])
  | .printNet ipaddr netmask =>
    let (ret, m) := seqPrintNet inetAton host m ipaddr netmask
    (m, [ret])
  | .clear => (seqClear m, [])

end Neufbox.Libetk
