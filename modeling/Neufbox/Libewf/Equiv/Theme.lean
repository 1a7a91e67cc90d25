import Neufbox.Libewf.Theme

/-!
# The order of theme versions

A version is two numbers.  The check packs them into one, with the first number shifted by 24 bits
and the second one by 16: that leaves 16 bits of `256 * first + second`, with a sign
(`Version.packed`, `packVersion_text`).  They compare like the versions as long as the first numbers
are below 128 and the second ones below 256.
-/

namespace Neufbox.Libewf

open Libnbu Decimal

/-- A decimal number that fits in an `int`. -/
structure Number where
  digits : List Char
  isNumber : Digits digits
  fits : Nat.ofDigitChars 10 digits 0 < 2 ^ 31

def Number.value (n : Number) : ℕ := Nat.ofDigitChars 10 n.digits 0

/-- A version that matches the pattern. -/
structure Version where
  major : Number
  minor : Number

namespace Version

def text (v : Version) : List Char := v.major.digits ++ '.' :: v.minor.digits

/-- The first numbers are compared, and if they are the same the second ones. -/
def le (v w : Version) : Prop :=
  v.major.value < w.major.value ∨
    v.major.value = w.major.value ∧ v.minor.value ≤ w.minor.value

/-- What the check compares. -/
def packed (v : Version) : Int := (BitVec.ofNat 16 (256 * v.major.value + v.minor.value)).toInt

end Version

/-! ### The text of a version -/

theorem notMem_of_isDigit {ds : List Char} (hds : Digits ds) {c : Char} (h : c.isDigit = false) :
    c ∉ ds := by
  intro hmem
  have := hds.isDigit c hmem
  rw [h] at this
  exact absurd this (by decide)

/-- What may stand behind a version for the pattern. -/
def IsLineEnd (tail : List Char) : Prop := tail = [] ∨ tail = ['\n']

theorem IsLineEnd.noDigit {tail : List Char} (h : IsLineEnd tail) : NoDigit tail := by
  rcases h with rfl | rfl
  · exact noDigit_nil
  · exact noDigit_cons (by decide) []

/-- A version ends in a digit. -/
theorem getLast?_text_ne (v : Version) : v.text.getLast? ≠ some '\n' := by
  intro hlast
  have hmem : '\n' ∈ v.text := List.mem_of_getLast? hlast
  rw [Version.text, List.mem_append, List.mem_cons] at hmem
  rcases hmem with hmem | hdot | hmem
  · exact notMem_of_isDigit v.major.isNumber (by decide) hmem
  · exact absurd hdot (by decide)
  · exact notMem_of_isDigit v.minor.isNumber (by decide) hmem

theorem themeRegexVersion_text (v : Version) {tail : List Char} (h : IsLineEnd tail) :
    themeRegexVersion (v.text ++ tail) = true := by
  have hline : (if (v.text ++ tail).getLast? = some '\n' then (v.text ++ tail).dropLast
      else v.text ++ tail) = v.text := by
    rcases h with rfl | rfl
    · rw [List.append_nil, if_neg (getLast?_text_ne v)]
    · rw [List.getLast?_concat, if_pos rfl, List.dropLast_concat]
  have hdot : NoDigit ('.' :: v.minor.digits) := noDigit_cons (by decide) _
  have hminor : v.minor.digits.all Char.isDigit = true :=
    List.all_eq_true.mpr v.minor.isNumber.isDigit
  unfold themeRegexVersion
  rw [hline]
  dsimp only
  rw [Version.text, v.major.isNumber.takeWhile_append hdot,
    v.major.isNumber.dropWhile_append hdot]
  simp [v.major.isNumber.ne_nil, v.minor.isNumber.ne_nil, hminor]

theorem add_shiftLeft_eq (a b : ℕ) :
    (0 : BitVec 32) + BitVec.ofInt 32 a <<< 24 + BitVec.ofInt 32 b <<< (24 - 8)
      = BitVec.ofNat 32 ((256 * a + b) * 2 ^ 16) := by
  apply BitVec.eq_of_toNat_eq
  rw [BitVec.ofInt_natCast, BitVec.ofInt_natCast, show (0 : BitVec 32) = 0#32 from rfl,
    BitVec.zero_add, BitVec.toNat_add, BitVec.toNat_shiftLeft, BitVec.toNat_shiftLeft,
    BitVec.toNat_ofNat, BitVec.toNat_ofNat, BitVec.toNat_ofNat, Nat.shiftLeft_eq, Nat.shiftLeft_eq]
  omega

/-- **The packed number** of a version. -/
theorem packVersion_text (v : Version) {tail : List Char} (h : IsLineEnd tail) :
    packVersion (v.text ++ tail)
      = .ok (BitVec.ofNat 32 ((256 * v.major.value + v.minor.value) * 2 ^ 16)) := by
  have htail : '.' ∉ v.minor.digits ++ tail := by
    rw [List.mem_append, not_or]
    refine ⟨notMem_of_isDigit v.minor.isNumber (by decide), ?_⟩
    rcases h with rfl | rfl <;> decide
  have htext : v.text ++ tail = v.major.digits ++ '.' :: (v.minor.digits ++ tail) := by
    rw [Version.text, List.append_assoc, List.cons_append]
  have hmajor : strtol v.major.digits = ⟨v.major.value, [], false⟩ := by
    have := v.major.isNumber.strtol_append v.major.fits noDigit_nil
    rwa [List.append_nil] at this
  have hminor : strtol (v.minor.digits ++ tail) = ⟨v.minor.value, tail, false⟩ :=
    v.minor.isNumber.strtol_append v.minor.fits h.noDigit
  have hsplit : nbuStringSplit (v.text ++ tail) ['.']
      = some [v.major.digits, v.minor.digits ++ tail] := by
    rw [htext]
    exact nbuStringSplit_append (notMem_of_isDigit v.major.isNumber (by decide)) htail
  rw [packVersion, if_pos (themeRegexVersion_text v h), hsplit]
  simp only [packLoop, hmajor, hminor]
  exact congrArg Except.ok (add_shiftLeft_eq v.major.value v.minor.value)

/-- Its order is the one of the 16 bits that are left. -/
theorem toInt_pack (n : ℕ) :
    (BitVec.ofNat 32 (n * 2 ^ 16)).toInt = 2 ^ 16 * (BitVec.ofNat 16 n).toInt := by
  rw [BitVec.toInt_eq_toNat_bmod, BitVec.toInt_eq_toNat_bmod, BitVec.toNat_ofNat,
    BitVec.toNat_ofNat, Int.bmod, Int.bmod]
  omega

/-- With small numbers they are not more than there are. -/
theorem packed_eq {v : Version} (hmajor : v.major.value < 128) (hminor : v.minor.value < 256) :
    v.packed = 256 * v.major.value + v.minor.value := by
  rw [Version.packed, BitVec.toInt_eq_toNat_bmod, BitVec.toNat_ofNat, Int.bmod]
  omega

theorem packed_le_iff {v w : Version} (hv : v.major.value < 128 ∧ v.minor.value < 256)
    (hw : w.major.value < 128 ∧ w.minor.value < 256) : v.packed ≤ w.packed ↔ v.le w := by
  rw [packed_eq hv.1 hv.2, packed_eq hw.1 hw.2, Version.le]
  omega

/-! ### The target of a theme -/

theorem isBlank_of_isDigit {c : Char} (h : c.isDigit = true) : isBlank c = false := by
  rw [← Bool.not_eq_true]
  intro hblank
  simp only [isBlank, Bool.or_eq_true, decide_eq_true_eq] at hblank
  rcases hblank with ((rfl | rfl) | rfl) | rfl <;> exact absurd h (by decide)

theorem isBlank_of_mem_text (v : Version) : ∀ c ∈ v.text, isBlank c = false := by
  intro c hc
  rw [Version.text, List.mem_append, List.mem_cons] at hc
  rcases hc with hc | rfl | hc
  · exact isBlank_of_isDigit (v.major.isNumber.isDigit c hc)
  · decide
  · exact isBlank_of_isDigit (v.minor.isNumber.isDigit c hc)

theorem trimVersion_text (v : Version) {before after : List Char}
    (hbefore : ∀ c ∈ before, isBlank c = true) (hafter : ∀ c ∈ after, isBlank c = true)
    (hlength : v.text.length ≤ 31) : trimVersion (before ++ (v.text ++ after)) = .ok v.text := by
  have hne : v.text ≠ [] := by
    rw [Version.text]
    exact List.append_ne_nil_of_right_ne_nil _ (List.cons_ne_nil _ _)
  have htrim := nbuStringTrim_append 32 hbefore hafter (isBlank_of_mem_text v) hne
  rw [decide_eq_true (by omega), List.take_of_length_le (by omega)] at htrim
  rw [trimVersion, htrim]
  rfl

/-- A version and the blanks around it. -/
structure Item where
  version : Version
  before : List Char
  after : List Char
  before_blank : ∀ c ∈ before, isBlank c = true
  after_blank : ∀ c ∈ after, isBlank c = true
  length_le : version.text.length ≤ 31

def Item.text (item : Item) : List Char := item.before ++ (item.version.text ++ item.after)

theorem trimVersion_item (item : Item) : trimVersion item.text = .ok item.version.text :=
  trimVersion_text item.version item.before_blank item.after_blank item.length_le

theorem comma_notMem_text (item : Item) : ',' ∉ item.text := by
  have hblank {cs : List Char} (h : ∀ c ∈ cs, isBlank c = true) : ',' ∉ cs :=
    fun hmem => absurd (h ',' hmem) (by decide)
  have hdigits (n : Number) : ',' ∉ n.digits := notMem_of_isDigit n.isNumber (by decide)
  simp only [Item.text, Version.text, List.mem_append, List.mem_cons, not_or]
  exact ⟨hblank item.before_blank, ⟨hdigits _, by decide, hdigits _⟩, hblank item.after_blank⟩

/-- What the check does with a target and a version. -/
theorem checkCompatibility_eq_ok_iff (min max : Item) (cur : Version) {tail : List Char}
    (htail : IsLineEnd tail) :
    ewfThemeCheckCompatibility (some (min.text ++ ',' :: max.text)) (cur.text ++ tail) = .ok () ↔
      min.version.packed ≤ cur.packed ∧ cur.packed ≤ max.version.packed := by
  have hsplit := nbuStringSplit_append (comma_notMem_text min) (comma_notMem_text max)
  have hpack (v : Version) := packVersion_text v (.inl rfl)
  simp only [List.append_nil] at hpack
  have hle (v w : Version) :
      (BitVec.ofNat 32 ((256 * v.major.value + v.minor.value) * 2 ^ 16)).toInt
        ≤ (BitVec.ofNat 32 ((256 * w.major.value + w.minor.value) * 2 ^ 16)).toInt ↔
      v.packed ≤ w.packed := by
    rw [toInt_pack, toInt_pack, Version.packed, Version.packed]
    omega
  simp only [ewfThemeCheckCompatibility, hsplit, trimVersion_item, hpack,
    packVersion_text cur htail, bind, Except.bind]
  rw [← hle min.version cur, ← hle cur max.version]
  split_ifs with h
  · exact iff_of_true rfl h
  · exact iff_of_false (fun herror => nomatch herror) h

/-- The version lies between the two of the target. -/
def Version.Between (min cur max : Version) : Prop := min.le cur ∧ cur.le max

/-- What the check compares does. -/
def Version.PackedBetween (min cur max : Version) : Prop :=
  min.packed ≤ cur.packed ∧ cur.packed ≤ max.packed

/-- **Theme compatibility.**  For every target of two versions with any blanks around them and every
current version: the check succeeds exactly if the packed numbers are in order.  Where the first
numbers are below 128 and the second ones below 256, that is the order of the versions. -/
theorem compatibility_iff (min max : Item) (cur : Version) (tail : List Char)
    (htail : IsLineEnd tail) :
    let succeeds := ewfThemeCheckCompatibility (some (min.text ++ ',' :: max.text))
      (cur.text ++ tail) = .ok ()
    (succeeds ↔ Version.PackedBetween min.version cur max.version) ∧
      ((∀ v ∈ [min.version, cur, max.version], v.major.value < 128 ∧ v.minor.value < 256) →
        (succeeds ↔ Version.Between min.version cur max.version)) := by
  intro succeeds
  have hpacked : succeeds ↔ Version.PackedBetween min.version cur max.version :=
    checkCompatibility_eq_ok_iff min max cur htail
  refine ⟨hpacked, fun hsmall => hpacked.trans ?_⟩
  simp only [List.forall_mem_cons] at hsmall
  exact and_congr (packed_le_iff hsmall.1 hsmall.2.1) (packed_le_iff hsmall.2.1 hsmall.2.2.1)

/-- The number written with these digits, for concrete versions. -/
def decimal (n : ℕ) (h : n < 2 ^ 31) : Number :=
  ⟨Nat.toDigits 10 n, digits_toDigits n, by rwa [Nat.ofDigitChars_ten_toDigits]⟩

/-- Version 2.1 for a theme of 1.0 to 3.0. -/
theorem compatibility_of_small :
    ewfThemeCheckCompatibility (some "1.0 , 3.0".toList) "2.1".toList = .ok () := by
  have h := (compatibility_iff
    ⟨⟨decimal 1 (by decide), decimal 0 (by decide)⟩, [], [' '], List.forall_mem_nil _,
      List.forall_mem_singleton.mpr rfl, by decide⟩
    ⟨⟨decimal 3 (by decide), decimal 0 (by decide)⟩, [' '], [],
      List.forall_mem_singleton.mpr rfl, List.forall_mem_nil _, by decide⟩
    ⟨decimal 2 (by decide), decimal 1 (by decide)⟩ [] (.inl rfl)).2 (by decide)
  exact h.mpr ⟨.inl (by decide), .inl (by decide)⟩

/-- Version 1.300 is taken for one behind 2.0. -/
theorem compatibility_of_large_minor :
    ewfThemeCheckCompatibility (some "1.0,2.0".toList) "1.300".toList = .error .error ∧
      ewfThemeCheckCompatibility (some "2.0,3.0".toList) "1.300".toList = .ok () := by
  decide

end Neufbox.Libewf
