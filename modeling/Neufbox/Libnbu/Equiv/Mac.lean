import Neufbox.Libnbu.Equiv.Net
import Neufbox.Libnbu.Mac

/-!
# Texts that libnbu takes for Ethernet addresses

`nbu_net_validate_mac` cuts a text to 17 characters and accepts it if six numbers can be read from
it.  `sscanf` skips blanks in front of a number, and accepts one digit, a sign, or the base; what
follows the sixth number is left unread.

* `IsMacText.scanMac_eq`, `exists_isMacText`: without all that, what is read is an address;
* `mac_text_iff`: exactly addresses are accepted, and taken apart, if none of that is in the text.
-/

namespace Neufbox.Libnbu

open Hexadecimal CStrings Numerals

/-- Six groups of two digits each, with colons between them. -/
structure IsMacText (s : String) (gs : List (List Char)) : Prop where
  length : gs.length = 6
  groups : ∀ g ∈ gs, g.length = 2 ∧ ∀ c ∈ g, isHexDigit c = true
  text : s.toList = [':'].intercalate gs

/-- The characters that an address may have. -/
def MacChar (c : Char) : Prop := isHexDigit c = true ∨ c = ':'

theorem converts_mac (bareBase : Bool) :
    Converts MacChar (scanX bareBase 2) isHexDigit 2 fun ds => BitVec.ofNat 32 (hexValue ds) := by
  refine converts_scanX ?_ bareBase 2
  rintro c (hdigit | rfl)
  · exact isHexDigit_spec hdigit
  · decide

section

variable {s : String} {gs : List (List Char)} {bareBase : Bool}

theorem IsMacText.chars (h : IsMacText s gs) : ∀ c ∈ s.toList, MacChar c := by
  intro c hc
  rw [h.text] at hc
  rcases mem_intercalate hc with rfl | ⟨g, hg, hmem⟩
  · exact .inr rfl
  · exact .inl ((h.groups g hg).2 c hmem)

theorem length_intercalate_six {g0 g1 g2 g3 g4 g5 : List Char} :
    ([':'].intercalate [g0, g1, g2, g3, g4, g5]).length
      = g0.length + g1.length + g2.length + g3.length + g4.length + g5.length + 5 := by
  simp only [List.intercalate_cons_cons, List.intercalate_singleton, List.length_append,
    List.length_singleton]
  omega

theorem IsMacText.length_eq (h : IsMacText s gs) : s.length = 17 := by
  obtain ⟨hsix, hgroups, htext⟩ := h
  match gs, hsix with
  | [g0, g1, g2, g3, g4, g5], _ =>
  simp only [List.forall_mem_cons] at hgroups
  obtain ⟨⟨h0, -⟩, ⟨h1, -⟩, ⟨h2, -⟩, ⟨h3, -⟩, ⟨h4, -⟩, ⟨h5, -⟩, -⟩ := hgroups
  rw [← String.length_toList, htext, length_intercalate_six, h0, h1, h2, h3, h4, h5]

/-- An address is read as its groups. -/
theorem IsMacText.scanMac_eq (h : IsMacText s gs) (bareBase : Bool) :
    scanMac bareBase s.toList = some (gs.map fun g => BitVec.ofNat 32 (hexValue g), []) := by
  refine (scanFields_eq_some_iff (converts_mac bareBase) (by decide) h.chars).mpr
    ⟨gs, ⟨h.length, ?_, fun g hg => ?_, fun g hg => .inr ?_⟩, rfl⟩
  · rw [h.text, List.append_nil]
  · obtain ⟨hlength, hdigits⟩ := h.groups g hg
    refine ⟨?_, hdigits, Nat.le_of_eq hlength⟩
    rintro rfl
    exact nomatch hlength
  · exact fun c hc => nomatch hc

/-- **What is read to its end**, of digits and colons only, is an address. -/
theorem exists_isMacText (hchars : ∀ c ∈ s.toList, MacChar c) (hlength : s.length = 17)
    {vs : List (BitVec 32)} (h : scanMac bareBase s.toList = some (vs, [])) :
    ∃ gs, IsMacText s gs := by
  obtain ⟨gs, ⟨hsix, htext, hnumbers, -⟩, -⟩ :=
    (scanFields_eq_some_iff (converts_mac bareBase) (by decide) hchars).mp h
  rw [List.append_nil] at htext
  -- the six groups share twelve characters
  have htwo : ∀ g ∈ gs, g.length = 2 := by
    rw [← String.length_toList, htext] at hlength
    match gs, hsix with
    | [g0, g1, g2, g3, g4, g5], _ =>
    simp only [List.forall_mem_cons] at hnumbers ⊢
    obtain ⟨h0, h1, h2, h3, h4, h5, -⟩ := hnumbers
    have := h0.length_le
    have := h1.length_le
    have := h2.length_le
    have := h3.length_le
    have := h4.length_le
    have := h5.length_le
    rw [length_intercalate_six] at hlength
    refine ⟨by omega, by omega, by omega, by omega, by omega, by omega, fun g hg => nomatch hg⟩
  exact ⟨gs, hsix, fun g hg => ⟨htwo g hg, (hnumbers g hg).digits⟩, htext⟩

end

/-! ### Parts -/

/-- The test of the parts: each of them is below 256. -/
theorem partsBelow256_iff {parts : List (BitVec 32)} :
    partsBelow256 parts = true ↔ ∀ p ∈ parts, p.toNat < 256 := by
  rw [partsBelow256, decide_eq_true_eq]
  induction parts with
  | nil => exact iff_of_true rfl fun p hp => nomatch hp
  | cons p parts ih =>
    rw [List.foldr_cons, BitVec.and_or_distrib_right, List.forall_mem_cons,
      ← and_high_eq_zero_iff, ← ih]
    exact BitVec.or_eq_zero_iff

/-- Two digits, as a part, are in upper case. -/
theorem macPartText_pair {g : List Char} (hlength : g.length = 2)
    (hdigits : ∀ c ∈ g, isHexDigit c = true) :
    (BitVec.ofNat 32 (hexValue g)).toNat < 256 ∧
      macPartText (BitVec.ofNat 32 (hexValue g)) = String.ofList (g.map Char.toUpper) := by
  match g, hlength with
  | [c, d], _ =>
  obtain ⟨hc, hd⟩ := List.forall_mem_cons.mp hdigits
  have hd : isHexDigit d = true := hd d (List.mem_singleton_self d)
  have hclt := hexDigitValue_lt hc
  have hdlt := hexDigitValue_lt hd
  have hvalue : (BitVec.ofNat 32 (hexValue [c, d])).toNat = hexValue [c, d] := by
    rw [BitVec.toNat_ofNat, hexValue_pair]
    omega
  rw [macPartText, hvalue, hexByte_hexValue hc hd, hexValue_pair]
  exact ⟨by omega, rfl⟩

/-- **An address is taken apart** into its groups, in upper case. -/
theorem IsMacText.nbuNetSplitMac_eq {s : String} {gs : List (List Char)} (h : IsMacText s gs)
    (bareBase : Bool) :
    nbuNetSplitMac bareBase s = some (gs.map fun g => String.ofList (g.map Char.toUpper)) := by
  have hlength := h.length_eq
  have hcopy : nbuStringCopy 19 s = s := nbuStringCopy_of_lt (by omega)
  have hbounds : 10 < s.toList.length ∧ s.toList.length < 18 := by
    rw [String.length_toList]
    omega
  have hall : s.toList.all (fun c => isHexDigit c || c = ':') = true := by
    rw [List.all_eq_true]
    intro c hc
    rw [Bool.or_eq_true, decide_eq_true_eq]
    exact h.chars c hc
  have hrange : partsBelow256 (gs.map fun g => BitVec.ofNat 32 (hexValue g)) = true := by
    rw [partsBelow256_iff, List.forall_mem_map]
    exact fun g hg => (macPartText_pair (h.groups g hg).1 (h.groups g hg).2).1
  unfold nbuNetSplitMac
  rw [hcopy]
  dsimp only
  rw [if_pos ⟨hbounds.1, hbounds.2, hall⟩, h.scanMac_eq]
  dsimp only
  rw [if_pos hrange, List.map_map]
  congr 1
  apply List.map_congr_left
  exact fun g hg => (macPartText_pair (h.groups g hg).1 (h.groups g hg).2).2

/-! ### Texts of addresses -/

/-- What is expected of the two functions for the text `s`: the first one accepts it exactly if it
is an address, and the second one then gives its groups in upper case. -/
structure MacTextSpec (bareBase : Bool) (s : String) : Prop where
  validate : nbuNetValidateMac bareBase s = true ↔ ∃ gs, IsMacText s gs
  split : nbuNetValidateMac bareBase s = true → ∃ gs, IsMacText s gs ∧
    nbuNetSplitMac bareBase s = some (gs.map fun g => String.ofList (g.map Char.toUpper))

theorem nbuNetValidateMac_iff {bareBase : Bool} {s : String} :
    nbuNetValidateMac bareBase s = true ↔
      17 ≤ s.length ∧ ∃ vs rest, scanMac bareBase (s.toList.take 17) = some (vs, rest) := by
  have hbuffer : (nbuStringCopy 18 s).toList = s.toList.take 17 := String.toList_ofList ..
  have hlength : (s.toList.take 17).length = 17 ↔ 17 ≤ s.length := by
    rw [List.length_take, String.length_toList]
    omega
  unfold nbuNetValidateMac
  dsimp only
  rw [hbuffer, Bool.and_eq_true, decide_eq_true_eq, hlength, Option.isSome_iff_exists, Prod.exists]

/-- **Texts of Ethernet addresses.**  For every text, `nbu_net_validate_mac` accepts exactly six
groups of two digits with colons between them, and `nbu_net_split_mac` then gives the groups in
upper case, if and only if a text from whose first 17 characters six numbers are read has no other
characters, consists of digits and colons, and is read to its end. -/
theorem mac_text_iff (bareBase : Bool) (s : String) :
    MacTextSpec bareBase s ↔ ∀ vs rest, 17 ≤ s.length →
      scanMac bareBase (s.toList.take 17) = some (vs, rest) →
        s.length = 17 ∧ (∀ c ∈ s.toList, MacChar c) ∧ rest = [] := by
  have htake (h : s.length = 17) : s.toList.take 17 = s.toList := by
    rw [List.take_of_length_le (by rw [String.length_toList, h])]
  constructor
  · intro hspec vs rest hlength hscan
    obtain ⟨gs, hmac⟩ :=
      hspec.validate.mp (nbuNetValidateMac_iff.mpr ⟨hlength, vs, rest, hscan⟩)
    rw [htake hmac.length_eq, hmac.scanMac_eq] at hscan
    exact ⟨hmac.length_eq, hmac.chars, (Prod.mk.inj (Option.some.inj hscan)).2.symm⟩
  · intro hread
    have hmac : nbuNetValidateMac bareBase s = true → ∃ gs, IsMacText s gs := by
      intro haccepted
      obtain ⟨hlength, vs, rest, hscan⟩ := nbuNetValidateMac_iff.mp haccepted
      obtain ⟨hlength, hchars, rfl⟩ := hread vs rest hlength hscan
      rw [htake hlength] at hscan
      exact exists_isMacText hchars hlength hscan
    refine ⟨⟨hmac, ?_⟩, fun haccepted => ?_⟩
    · rintro ⟨gs, h⟩
      have hscan := h.scanMac_eq bareBase
      rw [← htake h.length_eq] at hscan
      exact nbuNetValidateMac_iff.mpr ⟨Nat.le_of_eq h.length_eq.symm, _, _, hscan⟩
    · obtain ⟨gs, h⟩ := hmac haccepted
      exact ⟨gs, h, h.nbuNetSplitMac_eq bareBase⟩

/-- A text of 18 characters is accepted, and not taken apart. -/
theorem mac_text_eighteen :
    nbuNetValidateMac false "00:11:22:33:44:555" = true ∧
      nbuNetSplitMac false "00:11:22:33:44:555" = none ∧
      ¬∃ gs, IsMacText "00:11:22:33:44:555" gs := by
  refine ⟨by decide, by decide, ?_⟩
  rintro ⟨gs, h⟩
  exact absurd h.length_eq (by decide)

end Neufbox.Libnbu
