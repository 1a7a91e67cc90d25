import Mathlib.Data.List.Forall2
import Neufbox.Libnbu.Equiv.Buffer
import Neufbox.Libnbu.Equiv.Mac

/-!
# Splitting and joining addresses

`nbu_net_join_ip` and `nbu_net_join_mac` read each part with `strtol` and print the numbers, in the
spelling that `nbu_net_split_ip` and `nbu_net_split_mac` give.  They refuse a buffer whose size is
negative as an `int`.

* `join_eq_success_iff`: the parts that are joined, and the text;
* `nbuNetJoinIpTo_eq_success_iff`, `nbuNetJoinMac_eq_success_iff`: the same for the two functions;
* `split_join_iff`: splitting and joining normalise addresses, with every buffer that is large
  enough and not refused.
-/

namespace Neufbox.Libnbu

open Decimal Hexadecimal CStrings Numerals Ipv4

/-! ### Parts -/

/-- A part of at most `maxLen` characters is read to its end, as this number. -/
structure ReadsPart (maxLen : ℕ) (strtol : List Char → Strtol) (p : List Char) (v : Int) :
    Prop where
  length_pos : 0 < p.length
  length_le : p.length ≤ maxLen
  endptr : (strtol p).endptr = []
  ok : strtolFailed (strtol p) = false
  value : (strtol p).value = v

section

variable {maxLen : ℕ} {strtol : List Char → Strtol} {size : BitVec 32} {ps : List (List Char)}

/-- The tests of what `strtol` read. -/
theorem ReadsPart.not_failed {p : List Char} {v : Int} (hp : ReadsPart maxLen strtol p v) :
    ¬((strtol p).endptr = p ∨ (strtol p).endptr ≠ [] ∨ strtolFailed (strtol p) = true) := by
  have hpos := hp.length_pos
  rw [hp.endptr, hp.ok]
  rintro (hnil | hend | hfailed)
  · rw [← hnil] at hpos
    exact Nat.lt_irrefl 0 hpos
  · exact hend rfl
  · exact Bool.false_ne_true hfailed

/-- A part that is read is copied whole, and its number comes first. -/
theorem joinLoop_cons_of_reads (hsize : maxLen + 1 < size.toNat) (hlt : size.toNat < 2 ^ 31)
    {p : List Char} {v : Int} (hp : ReadsPart maxLen strtol p v) (str : List Char)
    (ps : List (List Char)) :
    joinLoop maxLen strtol size str (p :: ps)
      = (joinLoop maxLen strtol size p ps).map fun r => (r.1, r.2.map (v :: ·)) := by
  have hne := ne_zero_of_lt_toNat hsize
  have hpos := hp.length_pos
  have hle := hp.length_le
  obtain ⟨ret, hcopy⟩ := exists_nbuStringCopyTo hne str p
  have hwritten : written str size p = p := by
    rw [written, if_pos hlt]
    exact List.take_of_length_le (by omega)
  rw [hwritten] at hcopy
  rw [joinLoop, hcopy, Option.bind_eq_bind, Option.bind_some]
  dsimp only
  rw [if_neg (by omega), if_neg hp.not_failed, hp.value, Option.bind_eq_bind, Option.map_eq_bind]
  rfl

/-- Any other part ends the loop. -/
theorem joinLoop_cons_of_not_reads (hsize : maxLen + 1 < size.toNat) (hlt : size.toNat < 2 ^ 31)
    {p : List Char} (hp : ∀ v, ¬ReadsPart maxLen strtol p v) (str : List Char)
    (ps : List (List Char)) :
    ∃ str', joinLoop maxLen strtol size str (p :: ps) = some (str', none) := by
  have hne := ne_zero_of_lt_toNat hsize
  obtain ⟨ret, hcopy⟩ := exists_nbuStringCopyTo hne str p
  rw [joinLoop, hcopy, Option.bind_eq_bind, Option.bind_some]
  dsimp only
  by_cases hlength : (written str size p).length < 1 ∨ maxLen < (written str size p).length
  · exact ⟨_, if_pos hlength⟩
  -- a part that was cut is too long
  have hwhole : written str size p = p := by
    rw [written, if_pos hlt, List.length_take] at hlength
    rw [written, if_pos hlt]
    exact List.take_of_length_le (by omega)
  rw [if_neg hlength, hwhole]
  rw [hwhole, not_or, Nat.not_lt, Nat.not_lt] at hlength
  refine ⟨p, if_pos ?_⟩
  by_contra hread
  rw [not_or, not_or, not_not, Bool.not_eq_true] at hread
  exact hp _ ⟨hlength.1, hlength.2, hread.2.1, hread.2.2, rfl⟩

/-- **The loop** reads the parts, each of them whole or not at all. -/
theorem joinLoop_spec (strtol : List Char → Strtol) (hsize : maxLen + 1 < size.toNat)
    (hlt : size.toNat < 2 ^ 31) (ps : List (List Char)) (str : List Char) :
    ∃ str' parts, joinLoop maxLen strtol size str ps = some (str', parts) ∧
      ∀ vs, parts = some vs ↔ List.Forall₂ (ReadsPart maxLen strtol) ps vs := by
  induction ps generalizing str with
  | nil =>
    refine ⟨str, some [], rfl, fun vs => ?_⟩
    rw [List.forall₂_nil_left_iff, Option.some_inj, eq_comm]
  | cons p ps ih =>
    by_cases hreads : ∃ v, ReadsPart maxLen strtol p v
    · obtain ⟨v, hp⟩ := hreads
      obtain ⟨str', parts, hloop, hparts⟩ := ih p
      refine ⟨str', parts.map (v :: ·), ?_, fun vs => ?_⟩
      · rw [joinLoop_cons_of_reads hsize hlt hp, hloop, Option.map_some]
      rw [Option.map_eq_some_iff, List.forall₂_cons_left_iff]
      constructor
      · rintro ⟨vs', hvs', rfl⟩
        exact ⟨v, vs', hp, (hparts vs').mp hvs', rfl⟩
      · rintro ⟨v', vs', hp', hreads, rfl⟩
        exact ⟨vs', (hparts vs').mpr hreads, by rw [← hp.value, hp'.value]⟩
    · obtain ⟨str', hloop⟩ := joinLoop_cons_of_not_reads hsize hlt (not_exists.mp hreads) str ps
      refine ⟨str', none, hloop, fun vs => ?_⟩
      rw [List.forall₂_cons_left_iff]
      refine iff_of_false (fun h => Option.some_ne_none vs h.symm) ?_
      rintro ⟨v, -, hp, -⟩
      exact hreads ⟨v, hp⟩

/-- With a size that is refused, the first part is looked for in what the buffer held. -/
theorem joinLoop_refused (maxLen : ℕ) (strtol : List Char → Strtol) {size : BitVec 32}
    (hsize : 2 ^ 31 ≤ size.toNat) (p : List Char) (ps : List (List Char)) :
    joinLoop maxLen strtol size [] (p :: ps) = some ([], none) := by
  rw [joinLoop, nbuStringCopyTo_refused hsize, Option.bind_eq_bind, Option.bind_some]
  exact if_pos (.inl Nat.zero_lt_one)

theorem values_of_reads {vs : List Int} (h : List.Forall₂ (ReadsPart maxLen strtol) ps vs) :
    ps.map (fun p => (strtol p).value) = vs := by
  induction h with
  | nil => rfl
  | cons hp _ ih => rw [List.map_cons, hp.value, ih]

theorem isLong_of_reads {vs : List Int} (hlong : ∀ cs, IsLong (strtol cs).value)
    (h : List.Forall₂ (ReadsPart maxLen strtol) ps vs) : ∀ v ∈ vs, IsLong v := by
  rw [← values_of_reads h, List.forall_mem_map]
  exact fun p _ => hlong p

/-- Numbers below 256 are those of bytes. -/
theorem partsBelow256_ofInt_iff {vs : List Int} (hlong : ∀ v ∈ vs, IsLong v) :
    partsBelow256 (vs.map (BitVec.ofInt 32)) = true ↔
      ∃ bs : List UInt8, vs = bs.map fun b => (b.toNat : Int) := by
  rw [partsBelow256_iff, List.forall_mem_map]
  constructor
  · intro h
    refine ⟨vs.map fun v => UInt8.ofNat v.toNat, ?_⟩
    rw [List.map_map]
    conv_lhs => rw [← List.map_id vs]
    apply List.map_congr_left
    intro v hv
    obtain ⟨b, rfl⟩ := (toNat_ofInt_lt_iff (hlong v hv)).mp (h v hv)
    simp
  · rintro ⟨bs, rfl⟩
    rw [List.forall_mem_map]
    intro b hb
    exact (toNat_ofInt_lt_iff (isLong_octet b)).mpr ⟨b, rfl⟩

/-- **What is joined**: parts that are read as bytes, and their text. -/
theorem join_eq_success_iff {print : Int → List Char} {sep : Char} {str t : List Char}
    (hlong : ∀ cs, IsLong (strtol cs).value) (hsize : maxLen + 1 < size.toNat)
    (hlt : size.toNat < 2 ^ 31) :
    (joinLoop maxLen strtol size str ps).bind (fun r => joinParts print sep size r.1 r.2)
        = some (.success, t) ↔
      ∃ bs : List UInt8,
        List.Forall₂ (ReadsPart maxLen strtol) ps (bs.map fun b => (b.toNat : Int)) ∧
        t = ([sep].intercalate (bs.map fun b => print b.toNat)).take (size.toNat - 1) := by
  have hne := ne_zero_of_lt_toNat hsize
  obtain ⟨str', parts, hloop, hparts⟩ := joinLoop_spec strtol hsize hlt ps str
  rw [hloop, Option.bind_some]
  cases parts with
  | none =>
    refine iff_of_false (fun h => nomatch h) ?_
    rintro ⟨bs, hreads, -⟩
    exact nomatch (hparts _).mpr hreads
  | some vs =>
    have hreads := (hparts vs).mp rfl
    have hvs := isLong_of_reads hlong hreads
    obtain ⟨ret, hprint⟩ := exists_nbuStringPrintfTo hne str' ([sep].intercalate (vs.map print))
    have hwritten : written str' size ([sep].intercalate (vs.map print))
        = ([sep].intercalate (vs.map print)).take (size.toNat - 1) := if_pos hlt
    dsimp only [joinParts]
    by_cases hrange : partsBelow256 (vs.map (BitVec.ofInt 32)) = true
    · obtain ⟨bs, rfl⟩ := (partsBelow256_ofInt_iff hvs).mp hrange
      rw [if_pos hrange, hprint, Option.bind_eq_bind, Option.bind_some, hwritten, List.map_map]
      constructor
      · intro h
        exact ⟨bs, hreads, (Prod.mk.inj (Option.some.inj h)).2.symm⟩
      · rintro ⟨bs', hreads', rfl⟩
        have heq := Option.some.inj ((hparts _).mpr hreads')
        have hbytes : Function.Injective fun b : UInt8 => (b.toNat : Int) :=
          fun b b' h => UInt8.toNat_inj.mp (Int.ofNat.inj h)
        rw [List.map_injective_iff.mpr hbytes heq]
        rfl
    · rw [if_neg hrange]
      refine iff_of_false (fun h => nomatch h) ?_
      rintro ⟨bs, hreads', -⟩
      refine hrange ((partsBelow256_ofInt_iff hvs).mpr ⟨bs, ?_⟩)
      exact Option.some.inj ((hparts _).mpr hreads')

end

/-! ### IP addresses -/

theorem readsPart_octet (n : UInt8) : ReadsPart 3 strtol (Nat.toDigits 10 n.toNat) n.toNat := by
  have hlength := length_toDigits_octet n
  refine ⟨hlength.1, hlength.2, ?_, ?_, ?_⟩
  all_goals rw [strtol_octet]
  rfl

theorem intercalate_octets (ip : Ipv4) :
    ['.'].intercalate ([ip.a, ip.b, ip.c, ip.d].map fun n => decimal n.toNat) = ip.chars := by
  simp [decimal_natCast, chars]

section

variable {ipLen : BitVec 32} {p0 p1 p2 p3 buffer t : List Char}

/-- **What `nbu_net_join_ip` joins** is an address; each part is read as one of its octets. -/
theorem nbuNetJoinIpTo_eq_success_iff (hsize : 16 ≤ ipLen.toNat) (hlt : ipLen.toNat < 2 ^ 31) :
    nbuNetJoinIpTo p0 p1 p2 p3 buffer ipLen = some (.success, t) ↔
      ∃ ip : Ipv4, t = ip.chars ∧
        ReadsPart 3 strtol p0 ip.a.toNat ∧ ReadsPart 3 strtol p1 ip.b.toNat ∧
        ReadsPart 3 strtol p2 ip.c.toNat ∧ ReadsPart 3 strtol p3 ip.d.toNat := by
  have hchars (ip : Ipv4) : ip.chars.take (ipLen.toNat - 1) = ip.chars := by
    have := (length_chars ip).2
    exact List.take_of_length_le (by omega)
  refine (join_eq_success_iff isLong_strtol (by omega) hlt).trans ⟨?_, ?_⟩
  · rintro ⟨bs, hreads, rfl⟩
    have hlength := hreads.length_eq
    rw [List.length_map] at hlength
    obtain ⟨a, b, c, d, rfl⟩ := List.length_eq_four.mp hlength.symm
    rcases hreads with _ | ⟨ha, _ | ⟨hb, _ | ⟨hc, _ | ⟨hd, -⟩⟩⟩⟩
    refine ⟨⟨a, b, c, d⟩, ?_, ha, hb, hc, hd⟩
    rw [intercalate_octets ⟨a, b, c, d⟩, hchars]
  · rintro ⟨ip, rfl, ha, hb, hc, hd⟩
    refine ⟨[ip.a, ip.b, ip.c, ip.d], .cons ha (.cons hb (.cons hc (.cons hd .nil))), ?_⟩
    rw [intercalate_octets, hchars]

end

/-- What is expected of `nbu_net_split_ip` and `nbu_net_join_ip` with a buffer of this size: an
address that is split is joined, and split into the same parts again; and parts that are joined are
split into parts with the same values. -/
structure NormalisesIp (ipLen : BitVec 32) : Prop where
  join_split : ∀ (s : String) (p0 p1 p2 p3 : String), nbuNetSplitIp s = some (p0, p1, p2, p3) →
    ∀ buffer, ∃ t,
      nbuNetJoinIpTo p0.toList p1.toList p2.toList p3.toList buffer ipLen = some (.success, t) ∧
      nbuNetSplitIp (String.ofList t) = some (p0, p1, p2, p3)
  split_join : ∀ p0 p1 p2 p3 buffer t,
    nbuNetJoinIpTo p0 p1 p2 p3 buffer ipLen = some (.success, t) →
      ∃ q0 q1 q2 q3, nbuNetSplitIp (String.ofList t) = some (q0, q1, q2, q3) ∧
        (strtol q0.toList).value = (strtol p0).value ∧
        (strtol q1.toList).value = (strtol p1).value ∧
        (strtol q2.toList).value = (strtol p2).value ∧
        (strtol q3.toList).value = (strtol p3).value

theorem normalisesIp {ipLen : BitVec 32} (hsize : 16 ≤ ipLen.toNat) (hlt : ipLen.toNat < 2 ^ 31) :
    NormalisesIp ipLen := by
  constructor
  · intro s p0 p1 p2 p3 hsplit buffer
    obtain ⟨ip, -, heq⟩ := Option.map_eq_some_iff.mp hsplit
    refine ⟨ip.chars, (nbuNetJoinIpTo_eq_success_iff hsize hlt).mpr ⟨ip, rfl, ?_⟩, ?_⟩
    · simp only [Prod.mk.injEq] at heq
      obtain ⟨rfl, rfl, rfl, rfl⟩ := heq
      simp only [toList_octetText]
      exact ⟨readsPart_octet _, readsPart_octet _, readsPart_octet _, readsPart_octet _⟩
    · rw [← heq]
      exact nbuNetSplitIp_text ip
  · intro p0 p1 p2 p3 buffer t hjoin
    obtain ⟨ip, rfl, ha, hb, hc, hd⟩ := (nbuNetJoinIpTo_eq_success_iff hsize hlt).mp hjoin
    refine ⟨_, _, _, _, nbuNetSplitIp_text ip, ?_⟩
    simp only [toList_octetText, strtol_octet, ha.value, hb.value, hc.value, hd.value, and_self]

/-! ### Ethernet addresses -/

theorem isLong_strtolHex (cs : List Char) : IsLong (strtolHex cs).value := by
  unfold strtolHex
  dsimp only
  split
  · exact isLong_zero
  · exact isLong_clip _ _

theorem readsPart_hexByte (b : UInt8) : ReadsPart 2 strtolHex (hexByte hexUpper b) b.toNat := by
  refine ⟨Nat.zero_lt_two, Nat.le_refl 2, ?_, ?_, ?_⟩
  all_goals rw [strtolHex_hexByte]
  rfl

/-- The text of an address. -/
def macChars (bs : List UInt8) : List Char := [':'].intercalate (bs.map (hexByte hexUpper))

theorem isMacText_macChars {bs : List UInt8} (h : bs.length = 6) :
    IsMacText (String.ofList (macChars bs)) (bs.map (hexByte hexUpper)) := by
  refine ⟨by rw [List.length_map, h], ?_, String.toList_ofList ..⟩
  rw [List.forall_mem_map]
  exact fun b _ => ⟨rfl, (hexByte_spec b).1⟩

/-- The parts of an address are its bytes. -/
theorem nbuNetSplitMac_macChars (bareBase : Bool) {bs : List UInt8} (h : bs.length = 6) :
    nbuNetSplitMac bareBase (String.ofList (macChars bs))
      = some (bs.map fun b => String.ofList (hexByte hexUpper b)) := by
  rw [(isMacText_macChars h).nbuNetSplitMac_eq, List.map_map]
  congr 1
  apply List.map_congr_left
  intro b _
  exact congrArg String.ofList (hexByte_spec b).2

theorem exists_six_of_length {bs : List UInt8} (h : bs.length = 6) :
    ∃ b0 b1 b2 b3 b4 b5, bs = [b0, b1, b2, b3, b4, b5] := by
  match bs, h with
  | [b0, b1, b2, b3, b4, b5], _ => exact ⟨b0, b1, b2, b3, b4, b5, rfl⟩

/-- What is split has six parts, which are bytes. -/
theorem exists_bytes_of_nbuNetSplitMac {bareBase : Bool} {s : String} {ps : List String}
    (h : nbuNetSplitMac bareBase s = some ps) :
    ∃ bs : List UInt8, bs.length = 6 ∧ ps = bs.map fun b => String.ofList (hexByte hexUpper b) := by
  unfold nbuNetSplitMac at h
  dsimp only at h
  split_ifs at h
  split at h
  · exact nomatch h
  rename_i mparts rest hscan
  split_ifs at h
  refine ⟨mparts.map fun p => UInt8.ofNat p.toNat, ?_, ?_⟩
  · rw [List.length_map]
    exact length_of_scanFields hscan
  · rw [← Option.some.inj h, List.map_map]
    rfl

section

variable {macLen : BitVec 32} {p0 p1 p2 p3 p4 p5 buffer t : List Char}

/-- **What `nbu_net_join_mac` joins** is an address; each part is read as one of its bytes. -/
theorem nbuNetJoinMac_eq_success_iff (hsize : 18 ≤ macLen.toNat) (hlt : macLen.toNat < 2 ^ 31) :
    nbuNetJoinMac p0 p1 p2 p3 p4 p5 buffer macLen = some (.success, t) ↔
      ∃ bs : List UInt8, t = macChars bs ∧
        List.Forall₂ (ReadsPart 2 strtolHex) [p0, p1, p2, p3, p4, p5]
          (bs.map fun b => (b.toNat : Int)) := by
  have hprint (bs : List UInt8) (hlength : bs.length = 6) :
      ([':'].intercalate
          (bs.map fun b => hexByte hexUpper (UInt8.ofNat (b.toNat : Int).toNat))).take
        (macLen.toNat - 1) = macChars bs := by
    have hlength := (isMacText_macChars hlength).length_eq
    rw [String.length_ofList] at hlength
    simp only [Int.toNat_natCast, UInt8.ofNat_toNat]
    exact List.take_of_length_le (by rw [← macChars]; omega)
  refine (join_eq_success_iff isLong_strtolHex (by omega) hlt).trans (exists_congr fun bs => ?_)
  rw [and_comm, and_congr_left_iff]
  intro hreads
  have hlength := hreads.length_eq
  rw [List.length_map] at hlength
  rw [hprint bs hlength.symm]

end

/-- What is expected of `nbu_net_split_mac` and `nbu_net_join_mac` with a buffer of this size. -/
structure NormalisesMac (bareBase : Bool) (macLen : BitVec 32) : Prop where
  join_split : ∀ (s : String) (ps : List String), nbuNetSplitMac bareBase s = some ps →
    ∃ p0 p1 p2 p3 p4 p5, ps = [p0, p1, p2, p3, p4, p5] ∧ ∀ buffer, ∃ t,
      nbuNetJoinMac p0.toList p1.toList p2.toList p3.toList p4.toList p5.toList buffer macLen
        = some (.success, t) ∧
      nbuNetSplitMac bareBase (String.ofList t) = some ps
  split_join : ∀ p0 p1 p2 p3 p4 p5 buffer t,
    nbuNetJoinMac p0 p1 p2 p3 p4 p5 buffer macLen = some (.success, t) →
      ∃ qs, nbuNetSplitMac bareBase (String.ofList t) = some qs ∧
        qs.map (fun q => (strtolHex q.toList).value)
          = [p0, p1, p2, p3, p4, p5].map fun p => (strtolHex p).value

theorem normalisesMac (bareBase : Bool) {macLen : BitVec 32} (hsize : 18 ≤ macLen.toNat)
    (hlt : macLen.toNat < 2 ^ 31) : NormalisesMac bareBase macLen := by
  constructor
  · intro s ps hsplit
    obtain ⟨bs, hlength, rfl⟩ := exists_bytes_of_nbuNetSplitMac hsplit
    have hagain := nbuNetSplitMac_macChars bareBase hlength
    obtain ⟨b0, b1, b2, b3, b4, b5, rfl⟩ := exists_six_of_length hlength
    refine ⟨_, _, _, _, _, _, rfl, fun buffer => ⟨macChars [b0, b1, b2, b3, b4, b5], ?_, hagain⟩⟩
    rw [nbuNetJoinMac_eq_success_iff hsize hlt]
    refine ⟨[b0, b1, b2, b3, b4, b5], rfl, ?_⟩
    simp only [String.toList_ofList, List.map_cons, List.map_nil, List.forall₂_cons,
      readsPart_hexByte, List.Forall₂.nil, and_self]
  · intro p0 p1 p2 p3 p4 p5 buffer t hjoin
    obtain ⟨bs, rfl, hreads⟩ := (nbuNetJoinMac_eq_success_iff hsize hlt).mp hjoin
    have hlength := hreads.length_eq
    rw [List.length_map] at hlength
    refine ⟨_, nbuNetSplitMac_macChars bareBase hlength.symm, ?_⟩
    rw [List.map_map, values_of_reads hreads]
    apply List.map_congr_left
    intro b _
    simp only [Function.comp_apply, String.toList_ofList, strtolHex_hexByte]

/-! ### Both -/

/-- **Splitting and joining.**  With every buffer of at least 16 (18) bytes, a text that
`nbu_net_split_ip` (`nbu_net_split_mac`) accepts is joined and split into the same parts again, and
parts that `nbu_net_join_ip` (`nbu_net_join_mac`) accepts give a text that is split into parts with
the same values, if and only if the size is not negative as an `int`. -/
theorem split_join_iff :
    (∀ ipLen : BitVec 32, 16 ≤ ipLen.toNat → (NormalisesIp ipLen ↔ ipLen.toNat < 2 ^ 31)) ∧
    ∀ (bareBase : Bool) (macLen : BitVec 32), 18 ≤ macLen.toNat →
      (NormalisesMac bareBase macLen ↔ macLen.toNat < 2 ^ 31) := by
  constructor
  · intro ipLen hsize
    refine ⟨fun h => ?_, normalisesIp hsize⟩
    by_contra hlt
    have hsplit : nbuNetSplitIp "1.2.3.4" = some ("1", "2", "3", "4") := by decide
    obtain ⟨t, hjoin, -⟩ := h.join_split _ _ _ _ _ hsplit []
    rw [nbuNetJoinIpTo, joinLoop_refused 3 strtol (Nat.not_lt.mp hlt)] at hjoin
    exact nomatch hjoin
  · intro bareBase macLen hsize
    refine ⟨fun h => ?_, normalisesMac bareBase hsize⟩
    by_contra hlt
    have hsix : (List.replicate 6 (0 : UInt8)).length = 6 := rfl
    have hsplit := nbuNetSplitMac_macChars bareBase hsix
    obtain ⟨p0, p1, p2, p3, p4, p5, -, hjoin⟩ := h.join_split _ _ hsplit
    obtain ⟨t, hjoin, -⟩ := hjoin []
    rw [nbuNetJoinMac, joinLoop_refused 2 strtolHex (Nat.not_lt.mp hlt)] at hjoin
    exact nomatch hjoin

/-- A buffer of `2 ^ 31` bytes is refused. -/
theorem split_join_refused :
    nbuNetSplitIp "1.2.3.4" = some ("1", "2", "3", "4") ∧
      nbuNetJoinIpTo ['1'] ['2'] ['3'] ['4'] [] 0x80000000#32 = some (.error, []) := by
  decide

end Neufbox.Libnbu
