import Neufbox.Lib.Bytes
import Neufbox.Lib.CStrings
import Neufbox.Lib.Ipv4

/-!
# Addresses in network and host byte order

An address lies in memory as its four octets, on every host.  Read as one word of 32 bits it is the
number of the address on a big-endian host, and the number with its bytes swapped on a little-endian
one (`inAddr`); `ntohl` and `htonl` go between the two.

* `ntohl_inAddr`: an address that was read and brought into host order;
* `octets_htonl`: a number that was brought into network order and printed.
-/

namespace Neufbox

namespace Ipv4

/-- The octets in the opposite order. -/
def reverse (ip : Ipv4) : Ipv4 := ⟨ip.d, ip.c, ip.b, ip.a⟩

/-- The octets of a number. -/
def ofAddr (x : BitVec 32) : Ipv4 :=
  ⟨UInt8.ofNat (x.toNat / 2 ^ 24), UInt8.ofNat (x.toNat / 2 ^ 16), UInt8.ofNat (x.toNat / 2 ^ 8),
    UInt8.ofNat x.toNat⟩

theorem reverse_reverse (ip : Ipv4) : ip.reverse.reverse = ip := rfl

theorem addr_ofAddr (x : BitVec 32) : (ofAddr x).addr = x := by
  apply BitVec.eq_of_toNat_eq
  have hlt := x.isLt
  rw [toNat_addr]
  simp only [ofAddr, UInt8.toNat_ofNat']
  omega

theorem addr_injective {ip ip' : Ipv4} (h : ip.addr = ip'.addr) : ip = ip' := by
  have hnum := congrArg BitVec.toNat h
  have ha := ip.a.toNat_lt
  have hb := ip.b.toNat_lt
  have hc := ip.c.toNat_lt
  have hd := ip.d.toNat_lt
  have ha' := ip'.a.toNat_lt
  have hb' := ip'.b.toNat_lt
  have hc' := ip'.c.toNat_lt
  have hd' := ip'.d.toNat_lt
  rw [toNat_addr, toNat_addr] at hnum
  cases ip
  cases ip'
  simp only [mk.injEq, ← UInt8.toNat_inj]
  dsimp only at *
  omega

theorem ofAddr_addr (ip : Ipv4) : ofAddr ip.addr = ip := addr_injective (addr_ofAddr ip.addr)

/-! ### Octet by octet -/

theorem ofNat_and_div (x y : BitVec 32) (j : ℕ) :
    UInt8.ofNat ((x &&& y).toNat / 2 ^ j)
      = UInt8.ofNat (x.toNat / 2 ^ j) &&& UInt8.ofNat (y.toNat / 2 ^ j) := by
  apply UInt8.toNat_inj.mp
  rw [UInt8.toNat_and, UInt8.toNat_ofNat', UInt8.toNat_ofNat', UInt8.toNat_ofNat',
    BitVec.toNat_and, Nat.and_div_two_pow, Nat.and_mod_two_pow]

theorem ofNat_or_div (x y : BitVec 32) (j : ℕ) :
    UInt8.ofNat ((x ||| y).toNat / 2 ^ j)
      = UInt8.ofNat (x.toNat / 2 ^ j) ||| UInt8.ofNat (y.toNat / 2 ^ j) := by
  apply UInt8.toNat_inj.mp
  rw [UInt8.toNat_or, UInt8.toNat_ofNat', UInt8.toNat_ofNat', UInt8.toNat_ofNat',
    BitVec.toNat_or, Nat.or_div_two_pow, Nat.or_mod_two_pow]

theorem ofAddr_and (x y : BitVec 32) :
    ofAddr (x &&& y) = ⟨(ofAddr x).a &&& (ofAddr y).a, (ofAddr x).b &&& (ofAddr y).b,
      (ofAddr x).c &&& (ofAddr y).c, (ofAddr x).d &&& (ofAddr y).d⟩ := by
  have hlast := ofNat_and_div x y 0
  simp only [Nat.pow_zero, Nat.div_one] at hlast
  simp only [ofAddr, ofNat_and_div, hlast]

theorem ofAddr_or (x y : BitVec 32) :
    ofAddr (x ||| y) = ⟨(ofAddr x).a ||| (ofAddr y).a, (ofAddr x).b ||| (ofAddr y).b,
      (ofAddr x).c ||| (ofAddr y).c, (ofAddr x).d ||| (ofAddr y).d⟩ := by
  have hlast := ofNat_or_div x y 0
  simp only [Nat.pow_zero, Nat.div_one] at hlast
  simp only [ofAddr, ofNat_or_div, hlast]

theorem ofAddr_not (x : BitVec 32) :
    ofAddr (~~~x) = ⟨~~~(ofAddr x).a, ~~~(ofAddr x).b, ~~~(ofAddr x).c, ~~~(ofAddr x).d⟩ := by
  have hlt := x.isLt
  simp only [ofAddr, mk.injEq, ← UInt8.toNat_inj, UInt8.toNat_not, UInt8.toNat_ofNat',
    BitVec.toNat_not, UInt8.size]
  omega

end Ipv4

namespace Inet

open Ipv4 Subnet Decimal CStrings

/-- The octets in memory, read as one `uint32_t`. -/
def inAddr : Endian → Ipv4 → BitVec 32
  | .big, ip => ip.addr
  | .little, ip => ip.reverse.addr

/-- The octets of one `uint32_t` in memory. -/
def octets : Endian → BitVec 32 → Ipv4
  | .big, x => ofAddr x
  | .little, x => (ofAddr x).reverse

/-- `ntohl`: the octets in memory are taken as a number with the highest one first. -/
def ntohl (e : Endian) (x : BitVec 32) : BitVec 32 := (octets e x).addr

/-- `htonl` -/
def htonl (e : Endian) (x : BitVec 32) : BitVec 32 := inAddr e (ofAddr x)

/-- `ffs`: the number of the lowest bit that is set, counted from 1, or 0. -/
def ffs (x : BitVec 32) : ℕ := if x = 0 then 0 else x.ctz.toNat + 1

theorem octets_inAddr (e : Endian) (ip : Ipv4) : octets e (inAddr e ip) = ip := by
  cases e with
  | big => exact ofAddr_addr ip
  | little =>
    show (ofAddr ip.reverse.addr).reverse = ip
    rw [ofAddr_addr, reverse_reverse]

theorem ntohl_inAddr (e : Endian) (ip : Ipv4) : ntohl e (inAddr e ip) = ip.addr := by
  rw [ntohl, octets_inAddr]

theorem octets_htonl (e : Endian) (x : BitVec 32) : octets e (htonl e x) = ofAddr x :=
  octets_inAddr e (ofAddr x)

theorem ffs_le (x : BitVec 32) : ffs x ≤ 32 := by
  unfold ffs
  split_ifs with h
  · exact Nat.zero_le _
  · have hlt : x.ctz < 32 := BitVec.ctz_lt_iff_ne_zero.mpr h
    exact BitVec.lt_def.mp hlt

theorem ffs_eq_zero_iff {x : BitVec 32} : ffs x = 0 ↔ x = 0 := by
  unfold ffs
  by_cases h : x = 0
  · rw [if_pos h]
    exact iff_of_true rfl h
  · rw [if_neg h]
    exact iff_of_false (Nat.succ_ne_zero _) h

/-! ### The length of a prefix -/

/-- The number of bits from the lowest one that is set on. -/
def maskBits (x : BitVec 32) : ℕ := if x = 0 then 0 else 33 - ffs x

theorem maskBits_le (x : BitVec 32) : maskBits x ≤ 32 := by
  unfold maskBits
  split_ifs with h
  · exact Nat.zero_le _
  · have hpos : ffs x ≠ 0 := mt ffs_eq_zero_iff.mp h
    omega

/-- The same as it is computed with `unsigned int`: without a bit that is set the difference wraps
to 33, and is taken as 0. -/
def maskBitsUnsigned (x : BitVec 32) : BitVec 32 :=
  let mask : BitVec 32 := 32 - (BitVec.ofNat 32 (ffs x) - 1)
  if 32 < mask then 0 else mask

theorem toNat_maskBitsUnsigned (x : BitVec 32) : (maskBitsUnsigned x).toNat = maskBits x := by
  have hle := ffs_le x
  have hdiff : (32 - (BitVec.ofNat 32 (ffs x) - 1) : BitVec 32).toNat = 33 - ffs x := by
    bv_omega
  unfold maskBitsUnsigned maskBits
  dsimp only
  by_cases h : x = 0
  · rw [ffs_eq_zero_iff.mpr h, if_pos h]
    rfl
  · have hpos : ffs x ≠ 0 := mt ffs_eq_zero_iff.mp h
    have hsmall : ¬ (32 : BitVec 32) < 32 - (BitVec.ofNat 32 (ffs x) - 1) := by
      rw [BitVec.lt_def, hdiff]
      show ¬ 32 < 33 - ffs x
      omega
    rw [if_neg hsmall, if_neg h, hdiff]

/-- In a prefix all of them are set. -/
theorem maskBits_prefixMask {k : ℕ} (hk : k ≤ 32) :
    maskBits (prefixMask 32 k) = k ∧ (prefixMask 32 k).cpop.toNat = k := by
  have hall : ∀ k : Fin 33, maskBits (prefixMask 32 k) = k ∧
      (prefixMask 32 k).cpop.toNat = k := by decide +kernel
  exact hall ⟨k, by omega⟩

/-! ### Texts -/

/-- The address in dotted form, followed by a slash and the number. -/
def cidr (ip : Ipv4) (bits : ℕ) : List Char := ip.chars ++ '/' :: Nat.toDigits 10 bits

theorem printable_of_isDigit {cs : List Char} (h : ∀ c ∈ cs, c.isDigit = true) : Printable cs := by
  intro c hc
  obtain ⟨hlo, hhi⟩ := Char.isDigit_iff_toNat.mp (h c hc)
  have h0 : '0'.toNat = 48 := rfl
  have h9 : '9'.toNat = 57 := rfl
  omega

theorem printable_chars (ip : Ipv4) : Printable ip.chars := by
  intro c hc
  rcases isDigit_or_dot_of_mem_chars hc with hdigit | rfl
  · have hsingle : Printable [c] := printable_of_isDigit (List.forall_mem_singleton.mpr hdigit)
    exact hsingle c List.mem_cons_self
  · decide

theorem printable_cidr (ip : Ipv4) (bits : ℕ) : Printable (cidr ip bits) := by
  refine List.forall_mem_append.mpr ⟨printable_chars ip, List.forall_mem_cons.mpr ⟨by decide, ?_⟩⟩
  exact printable_of_isDigit (digits_toDigits bits).isDigit

theorem length_cidr_le (ip : Ipv4) {bits : ℕ} (h : bits ≤ 32) : (cidr ip bits).length ≤ 18 := by
  have hchars := (length_chars ip).2
  have hbits : (Nat.toDigits 10 bits).length ≤ 2 :=
    (Nat.length_toDigits_le_iff (by decide) (by decide)).mpr (by omega)
  rw [cidr, List.length_append, List.length_cons]
  omega

end Inet

end Neufbox
