import Neufbox.Lib.Decimal
import Neufbox.Lib.Subnet

/-!
# IPv4 addresses

An address as four octets, as a number of 32 bits and as dotted decimal text.  The text determines
the address (`text_injective`).  Addresses that differ in the last octet only agree under a prefix
of 24 bits and less, and under a longer one exactly if the last octets do
(`and_prefixMask_last_iff`).
-/

namespace Neufbox

open Decimal Subnet

structure Ipv4 where
  a : UInt8
  b : UInt8
  c : UInt8
  d : UInt8
  deriving DecidableEq

namespace Ipv4

/-- The address as a number. -/
def addr (ip : Ipv4) : BitVec 32 :=
  BitVec.ofNat 32
    (ip.a.toNat * 2 ^ 24 + ip.b.toNat * 2 ^ 16 + ip.c.toNat * 2 ^ 8 + ip.d.toNat)

/-- The characters of the dotted decimal form. -/
def chars (ip : Ipv4) : List Char :=
  Nat.toDigits 10 ip.a.toNat ++ '.' :: (Nat.toDigits 10 ip.b.toNat ++ '.' ::
    (Nat.toDigits 10 ip.c.toNat ++ '.' :: Nat.toDigits 10 ip.d.toNat))

def text (ip : Ipv4) : String := String.ofList ip.chars

/-! ### Numbers -/

theorem toNat_addr (ip : Ipv4) :
    ip.addr.toNat
      = ip.a.toNat * 2 ^ 24 + ip.b.toNat * 2 ^ 16 + ip.c.toNat * 2 ^ 8 + ip.d.toNat := by
  have ha := ip.a.toNat_lt
  have hb := ip.b.toNat_lt
  have hc := ip.c.toNat_lt
  have hd := ip.d.toNat_lt
  rw [addr, BitVec.toNat_ofNat]
  apply Nat.mod_eq_of_lt
  omega

/-- Addresses that differ in the last octet only. -/
theorem and_prefixMask_last_iff (ip : Ipv4) (p : UInt8) (k : ℕ) :
    { ip with d := p }.addr &&& prefixMask 32 k = ip.addr &&& prefixMask 32 k ↔
      k ≤ 24 ∨ p.toNat / 2 ^ (32 - k) = ip.d.toNat / 2 ^ (32 - k) := by
  have hd := ip.d.toNat_lt
  have hp := p.toNat_lt
  obtain ⟨high, hip⟩ : ∃ high, ip.addr.toNat = high * 2 ^ 8 + ip.d.toNat :=
    ⟨ip.a.toNat * 2 ^ 16 + ip.b.toNat * 2 ^ 8 + ip.c.toNat, by rw [toNat_addr]; omega⟩
  have hother : { ip with d := p }.addr.toNat = high * 2 ^ 8 + p.toNat := by
    rw [toNat_addr] at hip ⊢
    dsimp only
    omega
  rw [and_prefixMask_eq_iff, hip, hother]
  rcases Nat.lt_or_ge 24 k with hk | hk
  · -- The prefix reaches into the last octet.
    have hpow : high * 2 ^ 8 = 2 ^ (32 - k) * (high * 2 ^ (8 - (32 - k))) := by
      rw [Nat.mul_left_comm, ← Nat.pow_add]
      congr 2
      omega
    have hpos : 0 < 2 ^ (32 - k) := Nat.two_pow_pos _
    rw [hpow, Nat.mul_add_div hpos, Nat.mul_add_div hpos, Nat.add_left_cancel_iff]
    exact (or_iff_right (Nat.not_le.mpr hk)).symm
  · have hpow : 2 ^ (32 - k) = 2 ^ 8 * 2 ^ (24 - k) := by
      rw [← Nat.pow_add]
      congr 1
      omega
    refine iff_of_true ?_ (.inl hk)
    rw [hpow, ← Nat.div_div_eq_div_mul, ← Nat.div_div_eq_div_mul]
    congr 1
    omega

/-! ### Texts -/

theorem noDigit_dot (cs : List Char) : NoDigit ('.' :: cs) := noDigit_cons (by decide) cs

/-- A number before a dot is determined. -/
theorem toDigits_dot_inj {m n : ℕ} {r s : List Char}
    (h : Nat.toDigits 10 m ++ '.' :: r = Nat.toDigits 10 n ++ '.' :: s) : m = n ∧ r = s := by
  have hdigits : Nat.toDigits 10 m = Nat.toDigits 10 n := by
    rw [← takeWhile_toDigits m (noDigit_dot r), h, takeWhile_toDigits n (noDigit_dot s)]
  refine ⟨?_, ?_⟩
  · rw [← @Nat.ofDigitChars_ten_toDigits m, hdigits, Nat.ofDigitChars_ten_toDigits]
  · rw [hdigits] at h
    exact (List.cons.inj (List.append_cancel_left h)).2

theorem chars_injective {ip ip' : Ipv4} (h : ip.chars = ip'.chars) : ip = ip' := by
  obtain ⟨ha, hchars⟩ := toDigits_dot_inj h
  obtain ⟨hb, hchars⟩ := toDigits_dot_inj hchars
  obtain ⟨hc, hdigits⟩ := toDigits_dot_inj hchars
  have hd : ip.d.toNat = ip'.d.toNat := by
    rw [← @Nat.ofDigitChars_ten_toDigits ip.d.toNat, hdigits, Nat.ofDigitChars_ten_toDigits]
  cases ip
  cases ip'
  rw [UInt8.toNat_inj] at ha hb hc hd
  dsimp only at ha hb hc hd
  rw [ha, hb, hc, hd]

theorem text_injective {ip ip' : Ipv4} (h : ip.text = ip'.text) : ip = ip' := by
  have hchars := congrArg String.toList h
  rw [text, text, String.toList_ofList, String.toList_ofList] at hchars
  exact chars_injective hchars

theorem length_toDigits_octet (n : UInt8) :
    1 ≤ (Nat.toDigits 10 n.toNat).length ∧ (Nat.toDigits 10 n.toNat).length ≤ 3 := by
  have hlt := n.toNat_lt
  refine ⟨Nat.length_toDigits_pos, (Nat.length_toDigits_le_iff (by decide) (by decide)).mpr ?_⟩
  omega

theorem length_chars (ip : Ipv4) : 7 ≤ ip.chars.length ∧ ip.chars.length ≤ 15 := by
  have ha := length_toDigits_octet ip.a
  have hb := length_toDigits_octet ip.b
  have hc := length_toDigits_octet ip.c
  have hd := length_toDigits_octet ip.d
  simp only [chars, List.length_append, List.length_cons]
  omega

theorem isDigit_or_dot_of_mem_chars {ip : Ipv4} {c : Char} (h : c ∈ ip.chars) :
    c.isDigit = true ∨ c = '.' := by
  simp only [chars, List.mem_append, List.mem_cons] at h
  rcases h with h | rfl | h | rfl | h | rfl | h
  · exact .inl ((digits_toDigits _).isDigit _ h)
  · exact .inr rfl
  · exact .inl ((digits_toDigits _).isDigit _ h)
  · exact .inr rfl
  · exact .inl ((digits_toDigits _).isDigit _ h)
  · exact .inr rfl
  · exact .inl ((digits_toDigits _).isDigit _ h)

end Ipv4

end Neufbox
