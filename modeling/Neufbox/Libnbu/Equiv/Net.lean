import Neufbox.Libnbu.Net

/-!
# What libnbu makes of addresses

The functions of `net.c` on texts of addresses.

* `nbuNetSplitIp_text`: the parts of an address are its octets;
* `nbuNetJoinIp_eq_some`: what is joined is the text of an address, and each part is read as its
  octet;
* `nbuNetValidateNetmask_text`: the masks that are accepted are the prefixes;
* `nbuNetValidateFullIp_text`: an address is accepted with a mask exactly if the mask is a prefix
  and the address is a host of its subnet.
-/

namespace Neufbox.Libnbu

open Decimal Subnet Ipv4

/-! ### Parts -/

theorem and_high_eq_zero_iff (x : BitVec 32) : x &&& 0xffffff00#32 = 0 ↔ x.toNat < 256 := by
  have hmask : 0xffffff00#32 = prefixMask 32 24 := by decide
  have hzero : (0 : BitVec 32).toNat = 0 := rfl
  rw [hmask, BitVec.toNat_eq, toNat_and_prefixMask, hzero]
  show x.toNat / 2 ^ 8 * 2 ^ 8 = 0 ↔ x.toNat < 256
  omega

/-- A number in the range of `long`, which is that of `int`. -/
def IsLong (p : Int) : Prop := longMin ≤ p ∧ p ≤ longMax

theorem isLong_zero : IsLong 0 := by
  show longMin ≤ 0 ∧ 0 ≤ longMax
  decide

/-- What `strtol` returns for a number that may be out of range. -/
theorem isLong_clip (value : Int) (endptr : List Char) :
    IsLong (if longMax < value then (⟨longMax, endptr, true⟩ : Strtol)
      else if value < longMin then ⟨longMin, endptr, true⟩ else ⟨value, endptr, false⟩).value := by
  have hle : longMin ≤ longMax := by decide
  split_ifs with hmax hmin
  · exact ⟨hle, Int.le_refl _⟩
  · exact ⟨Int.le_refl _, hle⟩
  · exact ⟨Int.not_lt.mp hmin, Int.not_lt.mp hmax⟩

theorem isLong_strtol (cs : List Char) : IsLong (strtol cs).value := by
  unfold strtol
  split
  · exact isLong_zero
  · exact isLong_clip _ _

theorem isLong_octet (n : UInt8) : IsLong n.toNat := by
  have hlt := n.toNat_lt
  simp only [IsLong, longMin, longMax]
  omega

theorem toNat_ofInt_lt_iff {p : Int} (h : IsLong p) :
    (BitVec.ofInt 32 p).toNat < 256 ↔ ∃ n : UInt8, p = n.toNat := by
  have hvalue : (BitVec.ofInt 32 p).toNat = (p % 2 ^ 32).toNat := BitVec.toNat_ofInt ..
  simp only [IsLong, longMin, longMax] at h
  constructor
  · intro hlt
    refine ⟨UInt8.ofNat p.toNat, ?_⟩
    rw [UInt8.toNat_ofNat']
    omega
  · rintro ⟨n, rfl⟩
    have hn := n.toNat_lt
    omega

/-- The test of the parts: each of them is an octet. -/
theorem partsInRange_iff {p0 p1 p2 p3 : Int} (h0 : IsLong p0) (h1 : IsLong p1) (h2 : IsLong p2)
    (h3 : IsLong p3) :
    partsInRange p0 p1 p2 p3 = true ↔ ∃ ip : Ipv4,
      p0 = ip.a.toNat ∧ p1 = ip.b.toNat ∧ p2 = ip.c.toNat ∧ p3 = ip.d.toNat := by
  rw [partsInRange, decide_eq_true_eq, BitVec.and_or_distrib_right, BitVec.and_or_distrib_right,
    BitVec.and_or_distrib_right]
  have hzero : (0 : BitVec 32) = 0#32 := rfl
  simp only [hzero, BitVec.or_eq_zero_iff]
  simp only [← hzero, and_high_eq_zero_iff, toNat_ofInt_lt_iff h0, toNat_ofInt_lt_iff h1,
    toNat_ofInt_lt_iff h2, toNat_ofInt_lt_iff h3]
  constructor
  · rintro ⟨⟨⟨⟨a, ha⟩, b, hb⟩, c, hc⟩, d, hd⟩
    exact ⟨⟨a, b, c, d⟩, ha, hb, hc, hd⟩
  · rintro ⟨ip, ha, hb, hc, hd⟩
    exact ⟨⟨⟨⟨ip.a, ha⟩, ip.b, hb⟩, ip.c, hc⟩, ip.d, hd⟩

theorem partsInRange_octets (ip : Ipv4) :
    partsInRange ip.a.toNat ip.b.toNat ip.c.toNat ip.d.toNat = true := by
  apply (partsInRange_iff (isLong_octet _) (isLong_octet _) (isLong_octet _)
    (isLong_octet _)).mpr
  exact ⟨ip, rfl, rfl, rfl, rfl⟩

theorem ipOfParts_octets (ip : Ipv4) :
    ipOfParts ip.a.toNat ip.b.toNat ip.c.toNat ip.d.toNat = ip := by
  simp only [ipOfParts, Int.toNat_natCast, UInt8.ofNat_toNat]

/-! ### Joining -/

theorem toList_text (ip : Ipv4) : ip.text.toList = ip.chars := String.toList_ofList ..

theorem toList_octetText (n : UInt8) : (octetText n).toList = Nat.toDigits 10 n.toNat :=
  String.toList_ofList ..

/-- `strtol` reads an octet back, and does not set `errno`. -/
theorem strtol_octet (n : UInt8) : strtol (Nat.toDigits 10 n.toNat) = ⟨n.toNat, [], false⟩ := by
  have hlt : n.toNat < 2 ^ 31 := by
    have := n.toNat_lt
    omega
  have := strtol_toDigits hlt noDigit_nil
  rwa [List.append_nil] at this

theorem nbuStringCopy_text {size : ℕ} (hsize : 16 ≤ size) (ip : Ipv4) :
    nbuStringCopy size ip.text = ip.text := by
  apply nbuStringCopy_of_lt
  have hlength := (length_chars ip).2
  rw [text, String.length_ofList]
  omega

/-- A part is read as `strtol` reads it, without its copy being cut. -/
theorem parsePart_eq_some {size : ℕ} (hsize : 16 ≤ size) {p : String} {v : Int}
    (h : parsePart size p = some v) : (strtol p.toList).value = v := by
  unfold parsePart at h
  dsimp only at h
  split_ifs at h with hlength hfailed
  have hcopy : nbuStringCopy size p = p := by
    apply nbuStringCopy_of_lt
    rw [nbuStringCopy, String.toList_ofList, List.length_take, String.length_toList] at hlength
    omega
  rw [hcopy] at h
  exact Option.some.inj h

theorem parsePart_octetText (n : UInt8) : parsePart 16 (octetText n) = some (n.toNat : Int) := by
  have hlength := length_toDigits_octet n
  have hcopy : nbuStringCopy 16 (octetText n) = octetText n := by
    apply nbuStringCopy_of_lt
    rw [octetText, String.length_ofList]
    omega
  have hdigits : Nat.toDigits 10 n.toNat ≠ [] := Nat.toDigits_ne_nil
  unfold parsePart
  rw [hcopy, toList_octetText]
  dsimp only
  rw [strtol_octet, if_neg (by omega), if_neg (by simp [strtolFailed, hdigits.symm])]

/-- **What is joined** is an address; each part is read as one of its octets. -/
theorem nbuNetJoinIp_eq_some {size : ℕ} (hsize : 16 ≤ size) {p0 p1 p2 p3 t : String}
    (h : nbuNetJoinIp p0 p1 p2 p3 size = some t) :
    ∃ ip : Ipv4, t = ip.text ∧ parsePart size p0 = some (ip.a.toNat : Int) ∧
      parsePart size p1 = some (ip.b.toNat : Int) ∧ parsePart size p2 = some (ip.c.toNat : Int) ∧
      parsePart size p3 = some (ip.d.toNat : Int) := by
  obtain ⟨v0, h0, h⟩ := Option.bind_eq_some_iff.mp h
  obtain ⟨v1, h1, h⟩ := Option.bind_eq_some_iff.mp h
  obtain ⟨v2, h2, h⟩ := Option.bind_eq_some_iff.mp h
  obtain ⟨v3, h3, h⟩ := Option.bind_eq_some_iff.mp h
  have hlong : ∀ {p : String} {v : Int}, parsePart size p = some v → IsLong v := by
    intro p v hv
    rw [← parsePart_eq_some hsize hv]
    exact isLong_strtol _
  split_ifs at h with hrange
  obtain ⟨ip, rfl, rfl, rfl, rfl⟩ :=
    (partsInRange_iff (hlong h0) (hlong h1) (hlong h2) (hlong h3)).mp hrange
  refine ⟨ip, ?_, h0, h1, h2, h3⟩
  rw [ipOfParts_octets, nbuStringCopy_text hsize] at h
  exact (Option.some.inj h).symm

/-! ### Splitting -/

theorem scanQuad_chars (ip : Ipv4) :
    scanQuad ip.chars
      = some ((ip.a.toNat : Int), (ip.b.toNat : Int), (ip.c.toNat : Int), (ip.d.toNat : Int)) := by
  have hscan : ∀ (n : UInt8) {rest : List Char}, NoDigit rest →
      scanD 3 (Nat.toDigits 10 n.toNat ++ rest) = some ((n.toNat : Int), rest) :=
    fun n rest h => scanD_toDigits (length_toDigits_octet n).2 h
  have hlast : scanD 3 (Nat.toDigits 10 ip.d.toNat) = some ((ip.d.toNat : Int), []) := by
    have := hscan ip.d noDigit_nil
    rwa [List.append_nil] at this
  simp only [scanQuad, chars, hscan _ (noDigit_dot _), hlast, scanDot, Option.bind_eq_bind,
    Option.bind_some]

theorem scanIp_text (ip : Ipv4) : scanIp ip.text = some ip := by
  have hlength := length_chars ip
  have hall : ip.chars.all (fun c => c.isDigit || c = '.') = true := by
    rw [List.all_eq_true]
    intro c hc
    rw [Bool.or_eq_true, decide_eq_true_eq]
    exact isDigit_or_dot_of_mem_chars hc
  have hbounds : 6 < ip.chars.length ∧ ip.chars.length < 16 := by omega
  unfold scanIp
  rw [nbuStringCopy_text (by decide), toList_text]
  dsimp only
  rw [if_pos ⟨hbounds.1, hbounds.2, hall⟩, scanQuad_chars]
  dsimp only
  rw [if_pos (partsInRange_octets ip), ipOfParts_octets]

theorem nbuNetSplitIp_text (ip : Ipv4) :
    nbuNetSplitIp ip.text
      = some (octetText ip.a, octetText ip.b, octetText ip.c, octetText ip.d) := by
  rw [nbuNetSplitIp, scanIp_text, Option.map_some]

/-! ### Masks -/

theorem sumParts_octets (ip : Ipv4) :
    sumParts (octetText ip.a) (octetText ip.b) (octetText ip.c) (octetText ip.d)
      = some ip.addr := by
  have ha := ip.a.toNat_lt
  have hb := ip.b.toNat_lt
  have hc := ip.c.toNat_lt
  have hd := ip.d.toNat_lt
  have hok : ∀ n : UInt8, strtolFailed ⟨n.toNat, [], false⟩ = false := fun n => rfl
  unfold sumParts
  simp only [toList_octetText, strtol_octet, hok, Bool.or_self, Bool.false_eq_true, if_false]
  congr 1
  apply BitVec.eq_of_toNat_eq
  rw [toNat_addr]
  simp only [BitVec.ofInt_natCast, BitVec.toNat_add, BitVec.toNat_shiftLeft, BitVec.toNat_ofNat,
    Nat.shiftLeft_eq]
  omega

/-- **The masks** that are accepted are the prefixes. -/
theorem nbuNetValidateNetmask_text (mask : Ipv4) :
    nbuNetValidateNetmask mask.text = true ↔ ∃ k ≤ 32, mask.addr = prefixMask 32 k := by
  unfold nbuNetValidateNetmask
  rw [nbuNetSplitIp_text]
  dsimp only
  rw [sumParts_octets]
  dsimp only
  rw [decide_eq_true_eq]
  exact contiguous_iff mask.addr

/-! ### Addresses with masks -/

theorem inetPart_octet (n : UInt8) {rest : List Char} (h : NoDigit rest) :
    inetPart (Nat.toDigits 10 n.toNat ++ rest) = some (n.toNat, rest) := by
  have hlt := n.toNat_lt
  unfold inetPart
  rw [takeWhile_toDigits _ h, dropWhile_toDigits _ h]
  dsimp only
  rw [Nat.ofDigitChars_ten_toDigits, if_neg]
  rintro (hnil | hgt)
  · exact Nat.toDigits_ne_nil hnil
  · omega

theorem inetAddr_text (ip : Ipv4) : inetAddr ip.text = ip.addr := by
  have hlast : inetPart (Nat.toDigits 10 ip.d.toNat) = some (ip.d.toNat, []) := by
    have := inetPart_octet ip.d noDigit_nil
    rwa [List.append_nil] at this
  have haton : inetAton ip.chars = some ip.addr := by
    simp only [inetAton, chars, inetPart_octet _ (noDigit_dot _), hlast, scanDot,
      Option.bind_eq_bind, Option.bind_some, List.head?_nil, Option.all_none, if_true]
    rfl
  rw [inetAddr, toList_text, haton, Option.getD_some]

/-- The broadcast address of every subnet it is in. -/
theorem not_isHost_allOnes {w : ℕ} (m : BitVec w) : ¬IsHost (BitVec.allOnes w) m := by
  rintro ⟨-, hbroadcast⟩
  apply hbroadcast
  rw [BitVec.allOnes_and]
  apply BitVec.eq_of_getElem_eq
  intro i hi
  simp

/-- All ones are neither a host nor a mask that has hosts. -/
theorem ne_inaddrNone_of_isHost {a m : BitVec 32} (h : IsHost a m) :
    a ≠ inaddrNone ∧ m ≠ inaddrNone := by
  constructor
  · rintro rfl
    exact not_isHost_allOnes _ h
  · rintro rfl
    apply h.1
    rw [inaddrNone, BitVec.and_allOnes]

/-- **An address is accepted with a mask** exactly if the mask is a prefix and the address a host
of its subnet. -/
theorem nbuNetValidateFullIp_text (ip mask : Ipv4) :
    nbuNetValidateFullIp ip.text mask.text = .success ↔
      (∃ k ≤ 32, mask.addr = prefixMask 32 k) ∧ IsHost ip.addr mask.addr := by
  have hip : nbuNetValidateIp ip.text = true := by
    rw [nbuNetValidateIp, scanIp_text, Option.isSome_some]
  rw [← nbuNetValidateNetmask_text]
  unfold nbuNetValidateFullIp
  rw [hip, inetAddr_text, inetAddr_text]
  constructor
  · intro h
    rw [if_neg (by decide)] at h
    split_ifs at h with hmask hnone hnoneMask hnetwork hbroadcast
    refine ⟨Bool.of_not_eq_false hmask, ?_, ?_⟩
    · exact fun heq => hnetwork heq.symm
    · exact fun heq => hbroadcast heq.symm
  · rintro ⟨hmask, hhost⟩
    obtain ⟨hnone, hnoneMask⟩ := ne_inaddrNone_of_isHost hhost
    rw [hmask, if_neg (by decide), if_neg (by decide), if_neg hnone, if_neg hnoneMask,
      if_neg hhost.1.symm, if_neg hhost.2.symm]

end Neufbox.Libnbu
