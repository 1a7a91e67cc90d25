import Neufbox.Libnbu.Equiv.Net

/-!
# Texts that libnbu takes for addresses

`nbu_net_validate_ip` and `nbu_net_split_ip` read a text of up to 15 digits and dots with `sscanf`,
which leaves what follows the third digit of the last number unread (`SplitReads`).  `inet_addr`
reads the whole text (`InetReads`).

* `scanIp_eq_some_iff`: the texts that are accepted, and what is read;
* `ip_text_iff`: they are four numbers and nothing else, unless something is left unread;
* `netmask_accepted_iff`: the masks that are accepted, as patterns of bits;
* `SplitReads.exists_spells`: the two readings differ by digits of the last number;
* `full_ip_iff`: an address that is accepted with a mask is a host of its subnet, unless these
  digits make a difference.
-/

namespace Neufbox.Libnbu

open Decimal Numerals Subnet Ipv4

/-! ### Masks -/

/-- The bits of a prefix. -/
theorem eq_prefixMask_iff {x : BitVec 32} {k : ℕ} (hk : k ≤ 32) :
    x = prefixMask 32 k ↔ ∀ i < 32, x.getMsbD i = decide (i < k) := by
  have hbit : ∀ i, (prefixMask 32 k).getMsbD i = decide (i < k) := by
    intro i
    rw [prefixMask, BitVec.getMsbD_shiftLeft, BitVec.getMsbD_allOnes]
    exact decide_eq_decide.mpr (by omega)
  constructor
  · rintro rfl i -
    exact hbit i
  · intro h
    apply BitVec.eq_of_getMsbD_eq
    intro i hi
    rw [h i hi, hbit i]

/-- **Netmasks.**  A text of four decimal numbers up to 255 without leading zeros is accepted
exactly if its value is a run of ones, of any length, followed by zeros. -/
theorem netmask_accepted_iff (mask : Ipv4) :
    nbuNetValidateNetmask mask.text = true ↔
      ∃ k ≤ 32, ∀ i < 32, mask.addr.getMsbD i = decide (i < k) := by
  rw [nbuNetValidateNetmask_text]
  refine exists_congr fun k => and_congr_right fun hk => ?_
  exact eq_prefixMask_iff hk

/-! ### Four numbers -/

/-- The value of a number. -/
def groupValue (g : List Char) : ℕ := Nat.ofDigitChars 10 g 0

/-- Four groups of one to three digits, with values up to 255. -/
structure IsQuad (gs : List (List Char)) : Prop where
  length : gs.length = 4
  numbers : ∀ g ∈ gs, IsNumber Char.isDigit 3 g
  le_255 : ∀ g ∈ gs, groupValue g ≤ 255

/-- The characters that an address may have. -/
def IpChar (c : Char) : Prop := c.isDigit = true ∨ c = '.'

/-- The text of four groups is followed by `rest`, which `sscanf` leaves unread. -/
structure Leaves (s : String) (gs : List (List Char)) (rest : List Char) : Prop where
  quad : IsQuad gs
  stops : ∀ g ∈ gs.getLast?, Stops Char.isDigit 3 g rest
  chars : ∀ c ∈ rest, IpChar c
  text : s.toList = ['.'].intercalate gs ++ rest
  length_le : s.length ≤ 15

/-- The octets of four groups. -/
def quadOctets (gs : List (List Char)) (ip : Ipv4) : Prop :=
  gs.map groupValue = [ip.a.toNat, ip.b.toNat, ip.c.toNat, ip.d.toNat]

/-- The octets with the values of four groups. -/
theorem quadOctets_ofNat {g0 g1 g2 g3 : List Char}
    (hle : ∀ g ∈ [g0, g1, g2, g3], groupValue g ≤ 255) :
    quadOctets [g0, g1, g2, g3] ⟨.ofNat (groupValue g0), .ofNat (groupValue g1),
      .ofNat (groupValue g2), .ofNat (groupValue g3)⟩ := by
  have hoctet {g : List Char} (h : groupValue g ≤ 255) :
      (UInt8.ofNat (groupValue g)).toNat = groupValue g :=
    UInt8.toNat_ofNat_of_lt' (Nat.lt_succ_of_le h)
  simp only [List.forall_mem_cons] at hle
  obtain ⟨h0, h1, h2, h3, -⟩ := hle
  simp only [quadOctets, List.map_cons, List.map_nil, hoctet h0, hoctet h1, hoctet h2, hoctet h3]

/-- The number of an address, from its groups. -/
theorem addr_of_quadOctets {g0 g1 g2 g3 : List Char} {ip : Ipv4}
    (h : quadOctets [g0, g1, g2, g3] ip) :
    ip.addr = BitVec.ofNat 32 (groupValue g0 * 2 ^ 24 + groupValue g1 * 2 ^ 16
      + groupValue g2 * 2 ^ 8 + groupValue g3) := by
  obtain ⟨ha, hb, hc, hd⟩ : groupValue g0 = ip.a.toNat ∧ groupValue g1 = ip.b.toNat ∧
      groupValue g2 = ip.c.toNat ∧ groupValue g3 = ip.d.toNat := by
    simpa [quadOctets] using h
  rw [addr, ha, hb, hc, hd]

theorem converts_ip : Converts IpChar (scanD 3) Char.isDigit 3
    fun ds => (Nat.ofDigitChars 10 ds 0 : Int) := by
  apply converts_scanD
  rintro c (hdigit | rfl)
  · refine ⟨isSpace_of_isDigit hdigit, ?_, ?_⟩
    all_goals
      rintro rfl
      exact absurd hdigit (by decide)
  · decide

theorem scanDot_eq_expect (cs : List Char) : scanDot cs = expect '.' cs := by
  cases cs with
  | nil => rfl
  | cons c cs =>
    by_cases hc : c = '.'
    · rw [hc, expect, if_pos rfl]
      rfl
    · rw [expect, if_neg hc, scanDot]
      exact fun cs' heq => hc (List.cons.inj heq).1

/-- The format with its four conversions. -/
theorem scanQuad_eq_some_iff {cs : List Char} {p0 p1 p2 p3 : Int} :
    scanQuad cs = some (p0, p1, p2, p3) ↔
      ∃ rest, scanFields (scanD 3) '.' 3 cs = some ([p0, p1, p2, p3], rest) := by
  constructor
  · intro h
    obtain ⟨⟨v0, cs0⟩, h0, h⟩ := Option.bind_eq_some_iff.mp h
    obtain ⟨cs0', hdot0, h⟩ := Option.bind_eq_some_iff.mp h
    obtain ⟨⟨v1, cs1⟩, h1, h⟩ := Option.bind_eq_some_iff.mp h
    obtain ⟨cs1', hdot1, h⟩ := Option.bind_eq_some_iff.mp h
    obtain ⟨⟨v2, cs2⟩, h2, h⟩ := Option.bind_eq_some_iff.mp h
    obtain ⟨cs2', hdot2, h⟩ := Option.bind_eq_some_iff.mp h
    obtain ⟨⟨v3, rest⟩, h3, h⟩ := Option.bind_eq_some_iff.mp h
    obtain ⟨rfl, rfl, rfl, rfl⟩ : v0 = p0 ∧ v1 = p1 ∧ v2 = p2 ∧ v3 = p3 := by simpa using h
    rw [scanDot_eq_expect] at hdot0 hdot1 hdot2
    refine ⟨rest, ?_⟩
    simp only [scanFields, Option.bind_eq_bind, h0, hdot0, h1, hdot1, h2, hdot2, h3,
      Option.bind_some, Option.map_some]
  · rintro ⟨rest, h⟩
    simp only [scanFields, Option.bind_eq_bind, Option.bind_eq_some_iff, Option.map_eq_some_iff,
      Option.some.injEq, Prod.mk.injEq, Prod.exists, List.cons.injEq] at h
    obtain ⟨v0, cs0, h0, cs0', hdot0, _, _, ⟨v1, cs1, h1, cs1', hdot1, _, _,
      ⟨v2, cs2, h2, cs2', hdot2, _, _, ⟨v3, cs3, h3, rfl, rfl⟩, rfl, rfl⟩, rfl, rfl⟩,
      ⟨rfl, rfl, rfl, rfl, -⟩, rfl⟩ := h
    rw [← scanDot_eq_expect] at hdot0 hdot1 hdot2
    simp only [scanQuad, Option.bind_eq_bind, h0, hdot0, h1, hdot1, h2, hdot2, h3,
      Option.bind_some]

theorem isLong_groupValue {g : List Char} (h : IsNumber Char.isDigit 3 g) :
    IsLong (groupValue g : Int) := by
  have hlt : groupValue g < 10 ^ g.length := ofDigitChars_lt h.digits
  have hpow : 10 ^ g.length ≤ 10 ^ 3 := Nat.pow_le_pow_right (by decide) h.length_le
  simp only [IsLong, longMin, longMax]
  omega

/-- The test of four numbers that were read: they are up to 255. -/
theorem partsInRange_groups {g0 g1 g2 g3 : List Char}
    (h : ∀ g ∈ [g0, g1, g2, g3], IsNumber Char.isDigit 3 g) :
    partsInRange (groupValue g0) (groupValue g1) (groupValue g2) (groupValue g3) = true ↔
      ∀ g ∈ [g0, g1, g2, g3], groupValue g ≤ 255 := by
  simp only [List.forall_mem_cons] at h
  obtain ⟨h0, h1, h2, h3, -⟩ := h
  rw [partsInRange_iff (isLong_groupValue h0) (isLong_groupValue h1) (isLong_groupValue h2)
    (isLong_groupValue h3)]
  simp only [List.forall_mem_cons]
  constructor
  · rintro ⟨ip, ha, hb, hc, hd⟩
    have := ip.a.toNat_lt
    have := ip.b.toNat_lt
    have := ip.c.toNat_lt
    have := ip.d.toNat_lt
    refine ⟨by omega, by omega, by omega, by omega, fun g hg => nomatch hg⟩
  · rintro ⟨ha, hb, hc, hd, -⟩
    refine ⟨⟨.ofNat (groupValue g0), .ofNat (groupValue g1), .ofNat (groupValue g2),
      .ofNat (groupValue g3)⟩, ?_⟩
    simp only [UInt8.toNat_ofNat']
    omega

/-- Four groups have four to twelve digits. -/
theorem IsQuad.length_text {gs : List (List Char)} (h : IsQuad gs) :
    6 < (['.'].intercalate gs).length ∧ (['.'].intercalate gs).length ≤ 15 := by
  obtain ⟨hfour, hnumbers, -⟩ := h
  obtain ⟨g0, g1, g2, g3, rfl⟩ := List.length_eq_four.mp hfour
  simp only [List.forall_mem_cons] at hnumbers
  obtain ⟨h0, h1, h2, h3, -⟩ := hnumbers
  have := List.length_pos_of_ne_nil h0.ne_nil
  have := List.length_pos_of_ne_nil h1.ne_nil
  have := List.length_pos_of_ne_nil h2.ne_nil
  have := List.length_pos_of_ne_nil h3.ne_nil
  have := h0.length_le
  have := h1.length_le
  have := h2.length_le
  have := h3.length_le
  simp only [List.intercalate_cons_cons, List.intercalate_singleton, List.length_append,
    List.length_singleton]
  omega

section Leaves

variable {s : String} {gs gs' : List (List Char)} {rest rest' : List Char}

theorem Leaves.chars_toList (h : Leaves s gs rest) : ∀ c ∈ s.toList, IpChar c := by
  intro c hc
  rw [h.text] at hc
  rcases List.mem_append.mp hc with hc | hc
  · rcases mem_intercalate hc with rfl | ⟨g, hg, hmem⟩
    · exact .inr rfl
    · exact .inl ((h.quad.numbers g hg).digits c hmem)
  · exact h.chars c hc

theorem Leaves.fields (h : Leaves s gs rest) : Fields Char.isDigit 3 '.' 3 gs s.toList rest :=
  ⟨h.quad.length, h.text, h.quad.numbers, h.stops⟩

theorem Leaves.lt_length (h : Leaves s gs rest) : 6 < s.length := by
  have hlength := congrArg List.length h.text
  have hquad := h.quad.length_text.1
  rw [String.length_toList, List.length_append] at hlength
  omega

/-- A text is read in one way only. -/
theorem Leaves.unique (h : Leaves s gs rest) (h' : Leaves s gs' rest') : rest = rest' := by
  have hfields := (scanFields_eq_some_iff converts_ip (by decide) h.chars_toList).mpr
    ⟨gs, h.fields, rfl⟩
  have hfields' := (scanFields_eq_some_iff converts_ip (by decide) h.chars_toList).mpr
    ⟨gs', h'.fields, rfl⟩
  rw [hfields] at hfields'
  exact (Prod.mk.inj (Option.some.inj hfields')).2

end Leaves

theorem toList_nbuStringCopy_17 {s : String} (h : s.length ≤ 15) :
    (nbuStringCopy 17 s).toList = s.toList := by
  rw [nbuStringCopy_of_lt (by omega)]

/-- The digits and dots that pass the test of the characters. -/
theorem all_digit_or_dot_iff {cs : List Char} :
    cs.all (fun c => c.isDigit || c = '.') = true ↔ ∀ c ∈ cs, IpChar c := by
  simp only [List.all_eq_true, Bool.or_eq_true, decide_eq_true_eq, IpChar]

theorem exists_leaves_of_scanIp {s : String} {ip : Ipv4} (h : scanIp s = some ip) :
    ∃ gs rest, Leaves s gs rest ∧ quadOctets gs ip := by
  unfold scanIp at h
  dsimp only at h
  split_ifs at h with hbuffer
  obtain ⟨-, hlength, hall⟩ := hbuffer
  -- a text that was cut has 16 characters
  have hle : s.length ≤ 15 := by
    rw [nbuStringCopy, String.toList_ofList, List.length_take, String.length_toList] at hlength
    omega
  rw [toList_nbuStringCopy_17 hle] at h hall
  have hchars := all_digit_or_dot_iff.mp hall
  split at h
  · cases h
  · next p0 p1 p2 p3 hscan =>
    obtain ⟨rest, hfields⟩ := scanQuad_eq_some_iff.mp hscan
    obtain ⟨gs, ⟨hfour, htext, hnumbers, hstops⟩, hvalues⟩ :=
      (scanFields_eq_some_iff converts_ip (by decide) hchars).mp hfields
    obtain ⟨g0, g1, g2, g3, rfl⟩ := List.length_eq_four.mp hfour
    obtain ⟨rfl, rfl, rfl, rfl, -⟩ :
        (groupValue g0 : Int) = p0 ∧ (groupValue g1 : Int) = p1 ∧ (groupValue g2 : Int) = p2 ∧
          (groupValue g3 : Int) = p3 ∧ True := by
      simpa [groupValue] using hvalues
    split_ifs at h with hrange
    have hle255 := (partsInRange_groups hnumbers).mp hrange
    refine ⟨[g0, g1, g2, g3], rest, ⟨⟨rfl, hnumbers, hle255⟩, hstops, ?_, htext, hle⟩, ?_⟩
    · intro c hc
      exact hchars c (by rw [htext]; exact List.mem_append_right _ hc)
    · obtain rfl := Option.some.inj h
      exact quadOctets_ofNat hle255

theorem Leaves.scanIp_eq {s : String} {gs : List (List Char)} {rest : List Char} {ip : Ipv4}
    (hleaves : Leaves s gs rest) (hoctets : quadOctets gs ip) : scanIp s = some ip := by
  have hchars := hleaves.chars_toList
  have hlength := hleaves.lt_length
  have hle := hleaves.length_le
  have hfields := (scanFields_eq_some_iff converts_ip (by decide) hchars).mpr
    ⟨gs, hleaves.fields, rfl⟩
  obtain ⟨hfour, hnumbers, hle255⟩ := hleaves.quad
  obtain ⟨g0, g1, g2, g3, rfl⟩ := List.length_eq_four.mp hfour
  have hscan : scanQuad s.toList = some ((groupValue g0 : Int), (groupValue g1 : Int),
      (groupValue g2 : Int), (groupValue g3 : Int)) :=
    scanQuad_eq_some_iff.mpr ⟨rest, hfields⟩
  have hbounds : 6 < s.toList.length ∧ s.toList.length < 16 := by
    rw [String.length_toList]
    omega
  obtain ⟨ha, hb, hc, hd⟩ : groupValue g0 = ip.a.toNat ∧ groupValue g1 = ip.b.toNat ∧
      groupValue g2 = ip.c.toNat ∧ groupValue g3 = ip.d.toNat := by
    simpa [quadOctets] using hoctets
  unfold scanIp
  rw [toList_nbuStringCopy_17 hle]
  dsimp only
  rw [if_pos ⟨hbounds.1, hbounds.2, all_digit_or_dot_iff.mpr hchars⟩, hscan]
  dsimp only
  rw [if_pos ((partsInRange_groups hnumbers).mpr hle255), ha, hb, hc, hd, ipOfParts_octets]

/-- **What is accepted**: four numbers up to 255 with dots between them, which more digits and dots
may follow, in at most 15 characters. -/
theorem scanIp_eq_some_iff {s : String} {ip : Ipv4} :
    scanIp s = some ip ↔ ∃ gs rest, Leaves s gs rest ∧ quadOctets gs ip := by
  refine ⟨exists_leaves_of_scanIp, ?_⟩
  rintro ⟨gs, rest, hleaves, hoctets⟩
  exact hleaves.scanIp_eq hoctets

/-! ### Texts of addresses -/

/-- Four groups of one to three digits with values up to 255, with single dots between them, and
nothing else. -/
def IsQuadText (s : String) : Prop := ∃ gs, IsQuad gs ∧ s.toList = ['.'].intercalate gs

/-- What is expected of the two functions for the text `s`: they accept it exactly if it is such a
text, and its parts are then its values. -/
structure IpTextSpec (s : String) : Prop where
  validate : nbuNetValidateIp s = true ↔ IsQuadText s
  split : (nbuNetSplitIp s).isSome = true ↔ IsQuadText s
  parts : ∀ gs, IsQuad gs → s.toList = ['.'].intercalate gs →
    ∃ p0 p1 p2 p3, nbuNetSplitIp s = some (p0, p1, p2, p3) ∧
      [p0, p1, p2, p3].map String.toList = gs.map fun g => Nat.toDigits 10 (groupValue g)

theorem leaves_nil {s : String} {gs : List (List Char)} (hquad : IsQuad gs)
    (htext : s.toList = ['.'].intercalate gs) : Leaves s gs [] := by
  refine ⟨hquad, fun g hg => .inr ?_, fun c hc => ?_, ?_, ?_⟩
  · exact fun c hc => nomatch hc
  · exact nomatch hc
  · rw [htext, List.append_nil]
  · rw [← String.length_toList, htext]
    exact hquad.length_text.2

/-- The octets of four groups, each up to 255. -/
theorem IsQuad.exists_octets {gs : List (List Char)} (h : IsQuad gs) : ∃ ip, quadOctets gs ip := by
  obtain ⟨g0, g1, g2, g3, rfl⟩ := List.length_eq_four.mp h.length
  exact ⟨_, quadOctets_ofNat h.le_255⟩

theorem isSome_scanIp_iff {s : String} :
    (scanIp s).isSome = true ↔ ∃ gs rest, Leaves s gs rest := by
  rw [Option.isSome_iff_exists]
  constructor
  · rintro ⟨ip, h⟩
    obtain ⟨gs, rest, hleaves, -⟩ := scanIp_eq_some_iff.mp h
    exact ⟨gs, rest, hleaves⟩
  · rintro ⟨gs, rest, h⟩
    obtain ⟨ip, hip⟩ := h.quad.exists_octets
    exact ⟨ip, scanIp_eq_some_iff.mpr ⟨gs, rest, h, hip⟩⟩

/-- **Texts of addresses.**  For every text, `nbu_net_validate_ip` and `nbu_net_split_ip` accept
exactly four numbers with dots between them, and the parts are the numbers, if and only if there is
nothing behind four such numbers that is left unread. -/
theorem ip_text_iff (s : String) :
    IpTextSpec s ↔ ¬∃ gs rest, Leaves s gs rest ∧ rest ≠ [] := by
  constructor
  · rintro hspec ⟨gs, rest, hleaves, hne⟩
    have haccepted : nbuNetValidateIp s = true := isSome_scanIp_iff.mpr ⟨gs, rest, hleaves⟩
    obtain ⟨gs', hquad, htext⟩ := hspec.validate.mp haccepted
    exact hne (hleaves.unique (leaves_nil hquad htext))
  · intro hnone
    have haccepted : (scanIp s).isSome = true ↔ IsQuadText s := by
      rw [isSome_scanIp_iff]
      constructor
      · rintro ⟨gs, rest, hleaves⟩
        obtain rfl : rest = [] := by
          by_contra hne
          exact hnone ⟨gs, rest, hleaves, hne⟩
        exact ⟨gs, hleaves.quad, by rw [hleaves.text, List.append_nil]⟩
      · rintro ⟨gs, hquad, htext⟩
        exact ⟨gs, [], leaves_nil hquad htext⟩
    refine ⟨haccepted, ?_, ?_⟩
    · rw [nbuNetSplitIp, Option.isSome_map]
      exact haccepted
    · intro gs hquad htext
      obtain ⟨ip, hip⟩ := hquad.exists_octets
      have hscan := scanIp_eq_some_iff.mpr ⟨gs, [], leaves_nil hquad htext, hip⟩
      refine ⟨_, _, _, _, by rw [nbuNetSplitIp, hscan, Option.map_some], ?_⟩
      have hdigits := congrArg (List.map (Nat.toDigits 10)) hip
      rw [List.map_map] at hdigits
      rw [show (fun g => Nat.toDigits 10 (groupValue g)) = Nat.toDigits 10 ∘ groupValue from rfl,
        hdigits]
      simp only [List.map_cons, List.map_nil, toList_octetText]

/-- 1.2.3.4.5 is accepted, as the address 1.2.3.4. -/
theorem ip_text_five_numbers :
    nbuNetValidateIp "1.2.3.4.5" = true ∧
      nbuNetSplitIp "1.2.3.4.5" = some ("1", "2", "3", "4") ∧ ¬IsQuadText "1.2.3.4.5" := by
  refine ⟨by decide, by decide, ?_⟩
  rintro ⟨gs, hquad, htext⟩
  have hfive : Leaves "1.2.3.4.5" [['1'], ['2'], ['3'], ['4']] ['.', '5'] := by
    have hnumber (c : Char) (hc : c.isDigit = true) : IsNumber Char.isDigit 3 [c] :=
      ⟨List.cons_ne_nil _ _, List.forall_mem_singleton.mpr hc, by simp⟩
    refine ⟨⟨rfl, ?_, by decide⟩, ?_, ?_, by decide, by decide⟩
    · simp only [List.forall_mem_cons]
      exact ⟨hnumber _ (by decide), hnumber _ (by decide), hnumber _ (by decide),
        hnumber _ (by decide), fun g hg => nomatch hg⟩
    · rintro _ ⟨⟩
      refine .inr ?_
      rintro _ ⟨⟩
      decide
    · exact List.forall_mem_cons.mpr ⟨.inr rfl, List.forall_mem_singleton.mpr (.inl (by decide))⟩
  exact nomatch hfive.unique (leaves_nil hquad htext)

/-! ### The two readings -/

/-- `nbu_net_split_ip` reads the address: up to three digits of the last number, and nothing of what
follows. -/
def SplitReads (s : String) (ip : Ipv4) : Prop :=
  ∃ gs rest, Leaves s gs rest ∧ quadOctets gs ip

/-- `inet_addr` reads the address: four numbers up to 255, with any number of leading zeros. -/
def InetReads (s : String) (ip : Ipv4) : Prop :=
  ∃ gs, gs.length = 4 ∧ (∀ g ∈ gs, Digits g ∧ groupValue g ≤ 255) ∧
    s.toList = ['.'].intercalate gs ∧ quadOctets gs ip

theorem scanDot_eq_some_iff {cs cs' : List Char} : scanDot cs = some cs' ↔ cs = '.' :: cs' := by
  rw [scanDot_eq_expect, expect_eq_some_iff]

theorem inetPart_eq_some_iff {cs rest : List Char} {v : ℕ} :
    inetPart cs = some (v, rest) ↔
      ∃ ds, cs = ds ++ rest ∧ Digits ds ∧ NoDigit rest ∧ groupValue ds = v ∧ v ≤ 255 := by
  unfold inetPart
  dsimp only
  constructor
  · intro h
    split_ifs at h with hbad
    obtain ⟨rfl, rfl⟩ := Prod.mk.inj (Option.some.inj h)
    rw [not_or, Nat.not_lt] at hbad
    refine ⟨_, List.takeWhile_append_dropWhile.symm, ⟨hbad.1, ?_⟩, ?_, rfl, hbad.2⟩
    · exact fun c hc => List.mem_takeWhile_imp hc
    · intro c hc
      have := List.head?_dropWhile_not Char.isDigit cs
      rw [Option.mem_def.mp hc] at this
      exact this
  · rintro ⟨ds, rfl, hds, hrest, rfl, hle⟩
    rw [hds.takeWhile_append hrest, hds.dropWhile_append hrest]
    exact if_neg (not_or.mpr ⟨hds.ne_nil, Nat.not_lt.mpr hle⟩)

theorem not_isSpace_of_ipChar {c : Char} (h : IpChar c) : isSpace c = false := by
  rcases h with h | rfl
  · exact isSpace_of_isDigit h
  · decide

theorem exists_inetReads_of_inetAton {s : String} (hchars : ∀ c ∈ s.toList, IpChar c)
    {x : BitVec 32} (h : inetAton s.toList = some x) : ∃ ip, InetReads s ip ∧ ip.addr = x := by
  obtain ⟨⟨v0, cs0⟩, h0, h⟩ := Option.bind_eq_some_iff.mp h
  obtain ⟨cs0', hdot0, h⟩ := Option.bind_eq_some_iff.mp h
  obtain ⟨⟨v1, cs1⟩, h1, h⟩ := Option.bind_eq_some_iff.mp h
  obtain ⟨cs1', hdot1, h⟩ := Option.bind_eq_some_iff.mp h
  obtain ⟨⟨v2, cs2⟩, h2, h⟩ := Option.bind_eq_some_iff.mp h
  obtain ⟨cs2', hdot2, h⟩ := Option.bind_eq_some_iff.mp h
  obtain ⟨⟨v3, rest⟩, h3, hx⟩ := Option.bind_eq_some_iff.mp h
  obtain rfl := scanDot_eq_some_iff.mp hdot0
  obtain rfl := scanDot_eq_some_iff.mp hdot1
  obtain rfl := scanDot_eq_some_iff.mp hdot2
  obtain ⟨g0, htext, hd0, -, rfl, hle0⟩ := inetPart_eq_some_iff.mp h0
  obtain ⟨g1, rfl, hd1, -, rfl, hle1⟩ := inetPart_eq_some_iff.mp h1
  obtain ⟨g2, rfl, hd2, -, rfl, hle2⟩ := inetPart_eq_some_iff.mp h2
  obtain ⟨g3, rfl, hd3, hrest, rfl, hle3⟩ := inetPart_eq_some_iff.mp h3
  dsimp only at hx
  split_ifs at hx with hspace
  -- only a blank could follow
  obtain rfl : rest = [] := by
    cases rest with
    | nil => rfl
    | cons c rest =>
      have hc : IpChar c := hchars c (by rw [htext]; simp)
      have hblank : isSpace c = true := hspace
      rw [not_isSpace_of_ipChar hc] at hblank
      exact absurd hblank Bool.false_ne_true
  have hgroups : ∀ g ∈ [g0, g1, g2, g3], Digits g ∧ groupValue g ≤ 255 := by
    simp only [List.forall_mem_cons]
    exact ⟨⟨hd0, hle0⟩, ⟨hd1, hle1⟩, ⟨hd2, hle2⟩, ⟨hd3, hle3⟩, by simp⟩
  have hoctets := quadOctets_ofNat fun g hg => (hgroups g hg).2
  refine ⟨_, ⟨[g0, g1, g2, g3], rfl, hgroups, ?_, hoctets⟩, ?_⟩
  · rw [htext]
    simp [List.intercalate_cons_cons]
  · rw [addr_of_quadOctets hoctets, ← Option.some.inj hx]

theorem InetReads.inetAton_eq {s : String} {ip : Ipv4} (h : InetReads s ip) :
    inetAton s.toList = some ip.addr := by
  obtain ⟨gs, hfour, hgroups, htext, hoctets⟩ := h
  obtain ⟨g0, g1, g2, g3, rfl⟩ := List.length_eq_four.mp hfour
  simp only [List.forall_mem_cons] at hgroups
  obtain ⟨⟨hd0, hle0⟩, ⟨hd1, hle1⟩, ⟨hd2, hle2⟩, ⟨hd3, hle3⟩, -⟩ := hgroups
  have hpart {g : List Char} (hg : Digits g) (hle : groupValue g ≤ 255) (cs : List Char) :
      inetPart (g ++ '.' :: cs) = some (groupValue g, '.' :: cs) :=
    inetPart_eq_some_iff.mpr ⟨g, rfl, hg, noDigit_dot cs, rfl, hle⟩
  have hlast : inetPart g3 = some (groupValue g3, []) :=
    inetPart_eq_some_iff.mpr ⟨g3, (List.append_nil g3).symm, hd3, noDigit_nil, rfl, hle3⟩
  have htext' : s.toList = g0 ++ '.' :: (g1 ++ '.' :: (g2 ++ '.' :: g3)) := by
    rw [htext]
    simp [List.intercalate_cons_cons]
  simp only [htext', inetAton, hpart hd0 hle0, hpart hd1 hle1, hpart hd2 hle2, hlast, scanDot,
    Option.bind_eq_bind, Option.bind_some, List.head?_nil, Option.all_none, if_true,
    addr_of_quadOctets hoctets]

/-! ### The last number -/

/-- The text is four numbers with the values of the octets.  The last one has `k` digits behind its
third digit, the others have at most three. -/
def Spells (s : String) (ip : Ipv4) (k : ℕ) : Prop :=
  ∃ g0 g1 g2 g3, (∀ g ∈ [g0, g1, g2], IsNumber Char.isDigit 3 g) ∧ Digits g3 ∧ g3.length - 3 = k ∧
    s.toList = ['.'].intercalate [g0, g1, g2, g3] ∧ s.length ≤ 15 ∧
    quadOctets [g0, g1, g2, g3] ip

/-- The address without the last `k` digits of its last number. -/
def dropDigits (k : ℕ) (ip : Ipv4) : Ipv4 := { ip with d := .ofNat (ip.d.toNat / 10 ^ k) }

theorem dropDigits_zero (ip : Ipv4) : dropDigits 0 ip = ip := by
  rw [dropDigits, pow_zero, Nat.div_one, UInt8.ofNat_toNat]

/-- What is left of a number. -/
theorem groupValue_append_div (g : List Char) {rest : List Char}
    (h : ∀ c ∈ rest, c.isDigit = true) :
    groupValue (g ++ rest) / 10 ^ rest.length = groupValue g := by
  rw [groupValue, Nat.ofDigitChars_append, Nat.ofDigitChars_eq_ofDigitChars_zero,
    Nat.mul_add_div (Nat.pow_pos (by decide)), Nat.div_eq_of_lt (ofDigitChars_lt h)]
  rfl

/-- The number before the first dot. -/
theorem digits_dot_inj {g h cs cs' : List Char} (hg : Digits g) (hh : Digits h)
    (heq : g ++ '.' :: cs = h ++ '.' :: cs') : g = h ∧ cs = cs' := by
  have hsame := congrArg (List.takeWhile Char.isDigit) heq
  rw [hg.takeWhile_append (noDigit_dot cs), hh.takeWhile_append (noDigit_dot cs')] at hsame
  subst hsame
  exact ⟨rfl, (List.cons.inj (List.append_cancel_left heq)).2⟩

/-- The octets of four groups, when only the last one differs. -/
theorem quadOctets_dropDigits_iff {g0 g1 g2 g3 rest : List Char} {a a' : Ipv4}
    (h : ∀ c ∈ rest, c.isDigit = true) (hoctets : quadOctets [g0, g1, g2, g3 ++ rest] a') :
    quadOctets [g0, g1, g2, g3] a ↔ a = dropDigits rest.length a' := by
  obtain ⟨ha, hb, hc, hd⟩ : groupValue g0 = a'.a.toNat ∧ groupValue g1 = a'.b.toNat ∧
      groupValue g2 = a'.c.toNat ∧ groupValue (g3 ++ rest) = a'.d.toNat := by
    simpa [quadOctets] using hoctets
  have hlast : (UInt8.ofNat (a'.d.toNat / 10 ^ rest.length)).toNat = groupValue g3 := by
    rw [UInt8.toNat_ofNat_of_lt', ← hd, groupValue_append_div g3 h]
    exact (Nat.div_le_self _ _).trans_lt a'.d.toNat_lt
  obtain ⟨a, b, c, d⟩ := a
  simp only [quadOctets, List.map_cons, List.map_nil, ha, hb, hc, ← hlast, List.cons.injEq,
    and_true, dropDigits, Ipv4.mk.injEq, UInt8.toNat_inj, eq_comm]

theorem le_255_of_quadOctets {gs : List (List Char)} {ip : Ipv4} (h : quadOctets gs ip) :
    ∀ g ∈ gs, groupValue g ≤ 255 := by
  intro g hg
  have hmem := List.mem_map_of_mem (f := groupValue) hg
  rw [show gs.map groupValue = _ from h] at hmem
  simp only [List.mem_cons, List.not_mem_nil, or_false] at hmem
  have := ip.a.toNat_lt
  have := ip.b.toNat_lt
  have := ip.c.toNat_lt
  have := ip.d.toNat_lt
  omega

/-- A text that both read is such a text. -/
theorem SplitReads.exists_spells {s : String} {a a' : Ipv4} (h : SplitReads s a)
    (h' : InetReads s a') : ∃ k, Spells s a' k ∧ a = dropDigits k a' := by
  obtain ⟨gs, rest, ⟨⟨hfour, hnumbers, -⟩, hstops, -, htext, hle⟩, hoctets⟩ := h
  obtain ⟨gs', hfour', hgroups, htext', hoctets'⟩ := h'
  obtain ⟨g0, g1, g2, g3, rfl⟩ := List.length_eq_four.mp hfour
  obtain ⟨h0, h1, h2, h3, rfl⟩ := List.length_eq_four.mp hfour'
  have hsame := htext'.symm.trans htext
  simp only [List.forall_mem_cons] at hnumbers hgroups
  obtain ⟨hn0, hn1, hn2, hn3, -⟩ := hnumbers
  obtain ⟨⟨hd0, -⟩, ⟨hd1, -⟩, ⟨hd2, -⟩, ⟨hd3, -⟩, -⟩ := hgroups
  simp only [List.intercalate_cons_cons, List.intercalate_singleton, List.append_assoc,
    List.cons_append, List.nil_append] at hsame
  obtain ⟨rfl, hsame₁⟩ := digits_dot_inj hd0 ⟨hn0.ne_nil, hn0.digits⟩ hsame
  obtain ⟨rfl, hsame₂⟩ := digits_dot_inj hd1 ⟨hn1.ne_nil, hn1.digits⟩ hsame₁
  obtain ⟨rfl, rfl⟩ := digits_dot_inj hd2 ⟨hn2.ne_nil, hn2.digits⟩ hsame₂
  have hrest : ∀ c ∈ rest, c.isDigit = true := fun c hc =>
    hd3.isDigit c (List.mem_append_right g3 hc)
  -- a digit is left unread only behind the third one
  have hlength : (g3 ++ rest).length - 3 = rest.length := by
    have := hn3.length_le
    rw [List.length_append]
    rcases hstops g3 rfl with hthree | hnone
    · omega
    · cases rest with
      | nil => exact Nat.sub_eq_zero_of_le this
      | cons c rest =>
        exact absurd ((hnone c rfl).symm.trans (hrest c List.mem_cons_self)) Bool.false_ne_true
  refine ⟨rest.length, ⟨h0, h1, h2, g3 ++ rest, ?_, hd3, hlength, htext', hle, hoctets'⟩, ?_⟩
  · simp only [List.forall_mem_cons]
    exact ⟨hn0, hn1, hn2, List.forall_mem_nil _⟩
  · exact (quadOctets_dropDigits_iff hrest hoctets').mp hoctets

/-- Such a text is read by both, and `nbu_net_split_ip` does without the digits. -/
theorem Spells.reads {s : String} {ip : Ipv4} {k : ℕ} (h : Spells s ip k) :
    SplitReads s (dropDigits k ip) ∧ InetReads s ip := by
  obtain ⟨g0, g1, g2, g3, hnumbers, hd3, rfl, htext, hle, hoctets⟩ := h
  have hcut : g3.take 3 ++ g3.drop 3 = g3 := List.take_append_drop 3 g3
  have hrest : ∀ c ∈ g3.drop 3, c.isDigit = true := fun c hc =>
    hd3.isDigit c (List.mem_of_mem_drop hc)
  have hlast : IsNumber Char.isDigit 3 (g3.take 3) := by
    refine ⟨fun hnil => hd3.ne_nil ?_, fun c hc => hd3.isDigit c (List.mem_of_mem_take hc),
      List.length_take_le 3 g3⟩
    exact (List.take_eq_nil_iff.mp hnil).resolve_left (by decide)
  have hoctets' : quadOctets [g0, g1, g2, g3.take 3] (dropDigits (g3.length - 3) ip) :=
    (quadOctets_dropDigits_iff hrest (by rwa [hcut])).mpr (by rw [List.length_drop])
  simp only [List.forall_mem_cons] at hnumbers
  obtain ⟨hn0, hn1, hn2, -⟩ := hnumbers
  constructor
  · refine ⟨[g0, g1, g2, g3.take 3], g3.drop 3, ⟨⟨rfl, ?_, le_255_of_quadOctets hoctets'⟩, ?_,
      fun c hc => .inl (hrest c hc), ?_, hle⟩, hoctets'⟩
    · simp only [List.forall_mem_cons]
      exact ⟨hn0, hn1, hn2, hlast, List.forall_mem_nil _⟩
    · rintro _ ⟨⟩
      rcases Nat.lt_or_ge g3.length 3 with hshort | hlong
      · refine .inr ?_
        rw [List.drop_eq_nil_of_le hshort.le]
        exact noDigit_nil
      · exact .inl (List.length_take_of_le hlong)
    · rw [htext]
      simp only [List.intercalate_cons_cons, List.intercalate_singleton, List.append_assoc, hcut]
  · refine ⟨[g0, g1, g2, g3], rfl, fun g hg => ⟨?_, le_255_of_quadOctets hoctets g hg⟩, htext,
      hoctets⟩
    simp only [List.mem_cons, List.not_mem_nil, or_false] at hg
    rcases hg with rfl | rfl | rfl | rfl
    · exact ⟨hn0.ne_nil, hn0.digits⟩
    · exact ⟨hn1.ne_nil, hn1.digits⟩
    · exact ⟨hn2.ne_nil, hn2.digits⟩
    · exact hd3

/-! ### Addresses with masks -/

/-- The parts of an address. -/
def ipParts (ip : Ipv4) : String × String × String × String :=
  (octetText ip.a, octetText ip.b, octetText ip.c, octetText ip.d)

theorem octetText_injective {m n : UInt8} (h : octetText m = octetText n) : m = n := by
  have hdigits := congrArg String.toList h
  rw [toList_octetText, toList_octetText] at hdigits
  apply UInt8.toNat_inj.mp
  rw [← @Nat.ofDigitChars_ten_toDigits m.toNat, hdigits, Nat.ofDigitChars_ten_toDigits]

theorem nbuNetSplitIp_eq_parts_iff {s : String} {ip : Ipv4} :
    nbuNetSplitIp s = some (ipParts ip) ↔ SplitReads s ip := by
  have hsplit : nbuNetSplitIp s = (scanIp s).map ipParts := rfl
  rw [hsplit, Option.map_eq_some_iff, SplitReads, ← scanIp_eq_some_iff]
  constructor
  · rintro ⟨ip', hscan, hparts⟩
    obtain ⟨ha, hb, hc, hd⟩ := Prod.mk.inj hparts |>.imp_right fun h =>
      (Prod.mk.inj h).imp_right Prod.mk.inj
    obtain rfl : ip' = ip := by
      cases ip
      cases ip'
      rw [Ipv4.mk.injEq]
      exact ⟨octetText_injective ha, octetText_injective hb, octetText_injective hc,
        octetText_injective hd⟩
    exact hscan
  · exact fun hscan => ⟨ip, hscan, rfl⟩

/-- A mask is a run of ones followed by zeros. -/
def Contiguous (mask : Ipv4) : Prop := ∃ k ≤ 32, mask.addr = prefixMask 32 k

theorem nbuNetValidateNetmask_iff {netmask : String} :
    nbuNetValidateNetmask netmask = true ↔ ∃ m, SplitReads netmask m ∧ Contiguous m := by
  have hsplit : nbuNetSplitIp netmask = (scanIp netmask).map ipParts := rfl
  unfold nbuNetValidateNetmask
  rw [hsplit]
  cases hscan : scanIp netmask with
  | none =>
    refine iff_of_false nofun ?_
    rintro ⟨m, hreads, -⟩
    rw [SplitReads, ← scanIp_eq_some_iff, hscan] at hreads
    exact nomatch hreads
  | some m =>
    rw [Option.map_some]
    dsimp only [ipParts]
    rw [sumParts_octets]
    dsimp only
    rw [decide_eq_true_eq, contiguous_iff]
    constructor
    · exact fun h => ⟨m, scanIp_eq_some_iff.mp hscan, h⟩
    · rintro ⟨m', hreads, h⟩
      rw [SplitReads, ← scanIp_eq_some_iff, hscan] at hreads
      rwa [Option.some.inj hreads]

theorem SplitReads.chars {s : String} {ip : Ipv4} (h : SplitReads s ip) :
    ∀ c ∈ s.toList, IpChar c := by
  obtain ⟨gs, rest, hleaves, -⟩ := h
  exact hleaves.chars_toList

theorem SplitReads.unique {s : String} {ip ip' : Ipv4} (h : SplitReads s ip)
    (h' : SplitReads s ip') : ip = ip' := by
  rw [SplitReads, ← scanIp_eq_some_iff] at h h'
  rw [h] at h'
  exact Option.some.inj h'

theorem InetReads.inetAddr_eq {s : String} {ip : Ipv4} (h : InetReads s ip) :
    inetAddr s = ip.addr := by
  rw [inetAddr, h.inetAton_eq, Option.getD_some]

theorem exists_inetReads {s : String} {ip : Ipv4} (h : SplitReads s ip)
    (hne : inetAddr s ≠ inaddrNone) : ∃ ip', InetReads s ip' ∧ ip'.addr = inetAddr s := by
  unfold inetAddr at hne ⊢
  cases haton : inetAton s.toList with
  | none =>
    rw [haton] at hne
    exact absurd rfl hne
  | some x => exact exists_inetReads_of_inetAton h.chars haton

theorem nbuNetValidateIp_iff {s : String} :
    nbuNetValidateIp s = true ↔ ∃ ip, SplitReads s ip := by
  rw [nbuNetValidateIp, Option.isSome_iff_exists]
  exact exists_congr fun ip => scanIp_eq_some_iff

/-- **When the check succeeds**: both texts are accepted and read to their ends by `inet_addr`, the
mask is contiguous as `nbu_net_split_ip` reads it, and the address is a host as `inet_addr` reads
both. -/
theorem nbuNetValidateFullIp_eq_success_iff {ip netmask : String} :
    nbuNetValidateFullIp ip netmask = .success ↔
      ∃ a m a' m' : Ipv4, SplitReads ip a ∧ SplitReads netmask m ∧ InetReads ip a' ∧
        InetReads netmask m' ∧ Contiguous m ∧ IsHost a'.addr m'.addr := by
  unfold nbuNetValidateFullIp
  constructor
  · intro h
    split_ifs at h with hip hmask hnone hnoneMask hnetwork hbroadcast
    obtain ⟨a, ha⟩ := nbuNetValidateIp_iff.mp (Bool.of_not_eq_false hip)
    obtain ⟨m, hm, hcontiguous⟩ := nbuNetValidateNetmask_iff.mp (Bool.of_not_eq_false hmask)
    obtain ⟨a', ha', haddr⟩ := exists_inetReads ha hnone
    obtain ⟨m', hm', hmaddr⟩ := exists_inetReads hm hnoneMask
    refine ⟨a, m, a', m', ha, hm, ha', hm', hcontiguous, ?_⟩
    rw [haddr, hmaddr]
    exact ⟨fun heq => hnetwork heq.symm, fun heq => hbroadcast heq.symm⟩
  · rintro ⟨a, m, a', m', ha, hm, ha', hm', hcontiguous, hhost⟩
    have hip : nbuNetValidateIp ip = true := nbuNetValidateIp_iff.mpr ⟨a, ha⟩
    have hmask : nbuNetValidateNetmask netmask = true :=
      nbuNetValidateNetmask_iff.mpr ⟨m, hm, hcontiguous⟩
    obtain ⟨hnone, hnoneMask⟩ := ne_inaddrNone_of_isHost hhost
    rw [hip, hmask, ha'.inetAddr_eq, hm'.inetAddr_eq,
      if_neg (by decide), if_neg (by decide), if_neg hnone, if_neg hnoneMask,
      if_neg hhost.1.symm, if_neg hhost.2.symm]

/-- What is expected of `nbu_net_validate_full_ip`: when it succeeds, the mask is contiguous and the
address a host of its subnet, for the octets that `nbu_net_split_ip` gives. -/
def FullIpSpec (ip netmask : String) : Prop :=
  nbuNetValidateFullIp ip netmask = .success →
    ∃ a m : Ipv4, nbuNetSplitIp ip = some (ipParts a) ∧ nbuNetSplitIp netmask = some (ipParts m) ∧
      Contiguous m ∧ IsHost a.addr m.addr

/-- Without more than three digits in a number, the two readings are the same. -/
theorem IsQuadText.reads_eq {s : String} (h : IsQuadText s) {ip ip' : Ipv4}
    (hsplit : SplitReads s ip) (hinet : InetReads s ip') : ip = ip' := by
  obtain ⟨gs, hquad, htext⟩ := h
  obtain ⟨ip₁, hip₁⟩ := hquad.exists_octets
  have hsplit₁ : SplitReads s ip₁ := ⟨gs, [], leaves_nil hquad htext, hip₁⟩
  have hinet₁ : InetReads s ip₁ := by
    refine ⟨gs, hquad.length, fun g hg => ⟨⟨?_, ?_⟩, hquad.le_255 g hg⟩, htext, hip₁⟩
    · exact (hquad.numbers g hg).ne_nil
    · exact (hquad.numbers g hg).digits
  have haddr : ip₁.addr = ip'.addr := by
    rw [← hinet₁.inetAddr_eq, hinet.inetAddr_eq]
  rw [hsplit.unique hsplit₁]
  exact addr_injective haddr

/-- **Addresses with masks.**  For every pair of texts: the address that is accepted is a host of
its subnet, and the mask is contiguous, in the octets of `nbu_net_split_ip`, if and only if the
digits behind the third one of the last numbers make no difference: where there are such digits and
the address is a host, it is one without them.  So it is if both texts are four numbers of at most
three digits. -/
theorem full_ip_iff (ip netmask : String) :
    (FullIpSpec ip netmask ↔ ∀ (a m : Ipv4) (k l : ℕ), Spells ip a k → Spells netmask m l →
      0 < k + l → Contiguous (dropDigits l m) → IsHost a.addr m.addr →
        IsHost (dropDigits k a).addr (dropDigits l m).addr) ∧
      (IsQuadText ip → IsQuadText netmask → FullIpSpec ip netmask) := by
  simp only [FullIpSpec, nbuNetSplitIp_eq_parts_iff, nbuNetValidateFullIp_eq_success_iff]
  refine ⟨⟨?_, ?_⟩, ?_⟩
  · intro h a m k l ha hm _ hcontiguous hhost
    obtain ⟨a₁, m₁, ha₁, hm₁, -, hhost₁⟩ :=
      h ⟨_, _, a, m, ha.reads.1, hm.reads.1, ha.reads.2, hm.reads.2, hcontiguous, hhost⟩
    rwa [ha.reads.1.unique ha₁, hm.reads.1.unique hm₁]
  · rintro h ⟨a, m, a', m', ha, hm, ha', hm', hcontiguous, hhost⟩
    refine ⟨a, m, ha, hm, hcontiguous, ?_⟩
    obtain ⟨k, hspells, rfl⟩ := ha.exists_spells ha'
    obtain ⟨l, hspells', rfl⟩ := hm.exists_spells hm'
    rcases Nat.eq_zero_or_pos (k + l) with hzero | hpos
    · obtain ⟨rfl, rfl⟩ := Nat.add_eq_zero_iff.mp hzero
      rwa [dropDigits_zero, dropDigits_zero]
    · exact h a' m' k l hspells hspells' hpos hcontiguous hhost
  · rintro hip hnetmask ⟨a, m, a', m', ha, hm, ha', hm', hcontiguous, hhost⟩
    refine ⟨a, m, ha, hm, hcontiguous, ?_⟩
    rwa [hip.reads_eq ha ha', hnetmask.reads_eq hm hm']

/-- The last number of 192.168.1.0001 is 0 for `nbu_net_split_ip`, and the address that of the
network. -/
theorem full_ip_leading_zeros :
    nbuNetValidateFullIp "192.168.1.0001" "255.255.255.0" = .success ∧
      nbuNetSplitIp "192.168.1.0001" = some (ipParts ⟨192, 168, 1, 0⟩) ∧
      nbuNetSplitIp "255.255.255.0" = some (ipParts ⟨255, 255, 255, 0⟩) ∧
      ¬IsHost (Ipv4.mk 192 168 1 0).addr (Ipv4.mk 255 255 255 0).addr := by
  decide

end Neufbox.Libnbu
