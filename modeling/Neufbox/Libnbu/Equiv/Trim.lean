import Neufbox.Libnbu.Equiv.Buffer
import Neufbox.Libnbu.Trim

/-!
# What `nbu_string_trim` reads and writes

The scan from the end of the string stops at a character that is no blank, wherever that is.

* `strlen_eq`, `trimStart_eq`: the scans upwards stay inside the string;
* `trimEnd_eq`, `mem_trimEnd`: the scan downwards does if there is a character that is no blank, and
  otherwise reads what is in front of the string;
* `text_eq_trimmed`: what is printed is the trimmed string in each case;
* `string_trim_iff`: trimming is right exactly if the string is not blank.
-/

namespace Neufbox.Libnbu

open Memory CStrings

/-- The string without the blanks at its ends. -/
def trimmed (s : List UInt8) : List UInt8 := (s.dropWhile blankByte).rdropWhile blankByte

variable {m : ℕ → UInt8} {str : ℕ} {s : List UInt8}

/-! ### Scans upwards -/

theorem strlen_eq {p fuel : ℕ} (h : StringAt m p s) (hfuel : s.length < fuel) :
    strlen m fuel p = some s.length := by
  induction s generalizing p fuel with
  | nil =>
    obtain ⟨fuel, rfl⟩ := Nat.exists_eq_add_one.mpr hfuel
    exact if_pos h.nul
  | cons b s ih =>
    obtain ⟨fuel, rfl⟩ := Nat.exists_eq_add_one.mpr (Nat.zero_lt_of_lt hfuel)
    obtain ⟨hne, hb, htail⟩ := stringAt_cons_iff.mp h
    rw [strlen, if_neg (by rwa [hb]), ih htail (Nat.lt_of_succ_lt_succ hfuel), Option.map_some,
      List.length_cons]

/-- **The scan upwards** skips the blanks, and reads the character behind them. -/
theorem trimStart_eq {p fuel : ℕ} (h : StringAt m p s) (hp : 0 < p) (hfuel : s.length < fuel) :
    trimStart m fuel p = some (p + (s.takeWhile blankByte).length,
      List.range' p ((s.takeWhile blankByte).length + 1)) := by
  induction s generalizing p fuel with
  | nil =>
    obtain ⟨fuel, rfl⟩ := Nat.exists_eq_add_one.mpr hfuel
    have hnul : m p = 0 := h.nul
    have hstop : blankByte (m p) = false := by
      rw [hnul]
      decide
    rw [trimStart, if_neg (by omega), hstop, if_neg Bool.false_ne_true]
    rfl
  | cons b s ih =>
    obtain ⟨fuel, rfl⟩ := Nat.exists_eq_add_one.mpr (Nat.zero_lt_of_lt hfuel)
    obtain ⟨-, hb, htail⟩ := stringAt_cons_iff.mp h
    rw [trimStart, if_neg (by omega), hb]
    by_cases hblank : blankByte b = true
    · have haddr : p + 1 + (s.takeWhile blankByte).length
          = p + ((s.takeWhile blankByte).length + 1) := by omega
      rw [if_pos hblank, ih htail (by omega) (Nat.lt_of_succ_lt_succ hfuel), Option.map_some,
        List.takeWhile_cons_of_pos hblank, List.length_cons, haddr]
      rfl
    · rw [if_neg hblank, List.takeWhile_cons_of_neg hblank]
      rfl

/-! ### The scan downwards -/

theorem mem_trimEnd_bounds {q i : ℕ} (h : i ∈ (trimEnd m q).2) : 0 < i ∧ i ≤ q := by
  induction q with
  | zero => exact nomatch h
  | succ q ih =>
    rw [trimEnd] at h
    split_ifs at h
    · rcases List.mem_cons.mp h with rfl | h
      · exact ⟨by omega, by omega⟩
      · have := ih h
        omega
    · rw [List.mem_singleton.mp h]
      omega

/-- **The scan downwards** stops at the last character that is no blank. -/
theorem trimEnd_eq {a q : ℕ} (ha : 0 < a) (hle : a ≤ q) (hstop : blankByte (m a) = false)
    (hblank : ∀ i, a < i → i ≤ q → blankByte (m i) = true) :
    (trimEnd m q).1 = a ∧ ∀ i ∈ (trimEnd m q).2, a ≤ i := by
  induction q with
  | zero => omega
  | succ q ih =>
    rw [trimEnd]
    rcases Nat.lt_or_eq_of_le hle with hlt | rfl
    · obtain ⟨hend, hreads⟩ := ih (by omega) fun i hlow hhigh => hblank i hlow (by omega)
      rw [if_pos (hblank (q + 1) hlt (Nat.le_refl _))]
      exact ⟨hend, List.forall_mem_cons.mpr ⟨by omega, hreads⟩⟩
    · rw [hstop, if_neg Bool.false_ne_true]
      exact ⟨rfl, List.forall_mem_singleton.mpr (Nat.le_refl _)⟩

/-- It reads each byte that has only blanks behind it. -/
theorem mem_trimEnd {b q : ℕ} (hb : 0 < b) (hle : b ≤ q)
    (hblank : ∀ i, b < i → i ≤ q → blankByte (m i) = true) : b ∈ (trimEnd m q).2 := by
  induction q with
  | zero => omega
  | succ q ih =>
    rw [trimEnd]
    rcases Nat.lt_or_eq_of_le hle with hlt | rfl
    · rw [if_pos (hblank (q + 1) hlt (Nat.le_refl _))]
      exact List.mem_cons_of_mem _
        (ih (by omega) fun i hlow hhigh => hblank i hlow (by omega))
    · split_ifs
      · exact List.mem_cons_self ..
      · exact List.mem_singleton_self _

/-! ### Trimmed strings -/

/-- The blanks in front of the string, what is left of it, and the blanks behind. -/
theorem takeWhile_append_trimmed (s : List UInt8) :
    s.takeWhile blankByte ++ (trimmed s ++ (s.dropWhile blankByte).rtakeWhile blankByte) = s := by
  rw [trimmed, List.rdropWhile_append_rtakeWhile, List.takeWhile_append_dropWhile]

theorem trimmed_eq_nil_iff : trimmed s = [] ↔ ∀ b ∈ s, blankByte b = true := by
  rw [trimmed, List.rdropWhile_eq_nil_iff]
  constructor
  · intro h b hb
    rw [← List.takeWhile_append_dropWhile (p := blankByte) (l := s), List.mem_append] at hb
    exact hb.elim List.mem_takeWhile_imp (h b)
  · exact fun h b hb => h b ((List.dropWhile_suffix _).subset hb)

theorem trimmed_trimmed (s : List UInt8) : trimmed (trimmed s) = trimmed s := by
  have hstart : (trimmed s).dropWhile blankByte = trimmed s := by
    rw [List.dropWhile_eq_self_iff]
    intro hpos
    have hkept := List.rdropWhile_prefix blankByte (s.dropWhile blankByte)
    have hpos' : 0 < (s.dropWhile blankByte).length := Nat.lt_of_lt_of_le hpos hkept.length_le
    have hhead : (trimmed s)[0] = (s.dropWhile blankByte)[0] := hkept.getElem hpos
    rw [hhead]
    exact List.dropWhile_get_zero_not blankByte s hpos'
  rw [trimmed, hstart]
  exact List.rdropWhile_idempotent _ _

/-! ### What is read -/

section

variable (h : StringAt m str s)
include h

/-- What is left of the string, and the blanks behind it, in the memory. -/
theorem read_trimmed :
    read m (str + (s.takeWhile blankByte).length) (trimmed s).length = trimmed s ∧
      read m (str + (s.takeWhile blankByte).length + (trimmed s).length)
        ((s.dropWhile blankByte).rtakeWhile blankByte).length
        = (s.dropWhile blankByte).rtakeWhile blankByte := by
  have hchars := h.chars
  have hsplit := takeWhile_append_trimmed s
  generalize s.takeWhile blankByte = before, (s.dropWhile blankByte).rtakeWhile blankByte = after,
    trimmed s = text at hsplit
  rw [← hsplit, read_eq_append_iff, read_eq_append_iff] at hchars
  exact hchars.2

/-- The last character that is no blank, and the blanks behind it. -/
theorem last_spec (hne : trimmed s ≠ []) {a : ℕ}
    (ha : a + 1 = str + (s.takeWhile blankByte).length + (trimmed s).length) :
    blankByte (m a) = false ∧ a + 1 ≤ str + s.length ∧
      ∀ i, a < i → i ≤ str + s.length - 1 → blankByte (m i) = true := by
  obtain ⟨htext, hafter⟩ := read_trimmed h
  have hlength := congrArg List.length (takeWhile_append_trimmed s)
  rw [List.length_append, List.length_append] at hlength
  have hpos : 0 < (trimmed s).length := List.length_pos_iff.mpr hne
  refine ⟨?_, by omega, fun i hlow hhigh => ?_⟩
  · have hlast := apply_add_of_read_eq htext (Nat.sub_one_lt_of_lt hpos)
    rw [← List.getLast_eq_getElem hne] at hlast
    have haddr : str + (s.takeWhile blankByte).length + ((trimmed s).length - 1) = a := by omega
    rw [← haddr, hlast]
    exact Bool.eq_false_iff.mpr (List.rdropWhile_last_not blankByte _ hne)
  · obtain ⟨j, rfl⟩ := Nat.exists_eq_add_of_le hlow
    rw [Nat.succ_eq_add_one, ha]
    have hj : j < ((s.dropWhile blankByte).rtakeWhile blankByte).length := by omega
    rw [apply_add_of_read_eq hafter hj]
    exact List.mem_rtakeWhile_imp (List.getElem_mem hj)

/-- **The scan from the end** stays inside the string exactly if there is a character that is no
blank, or no memory in front of the string. -/
theorem trimEnd_reads_iff (hstr : 0 < str) :
    (∀ p ∈ (trimEnd m (str + s.length - 1)).2, str ≤ p ∧ p ≤ str + s.length) ↔
      str = 1 ∨ ∃ b ∈ s, blankByte b = false := by
  constructor
  · intro hreads
    by_contra hblank
    simp only [not_or, not_exists, not_and, Bool.not_eq_false] at hblank
    obtain ⟨hone, hblank⟩ := hblank
    have hmem : str - 1 ∈ (trimEnd m (str + s.length - 1)).2 := by
      refine mem_trimEnd (by omega) (by omega) fun i hlow hhigh => ?_
      obtain ⟨j, rfl⟩ := Nat.exists_eq_add_of_le (show str ≤ i by omega)
      have hj : j < s.length := by omega
      rw [apply_add_of_read_eq h.chars hj]
      exact hblank _ (List.getElem_mem hj)
    have := hreads _ hmem
    omega
  · rintro (rfl | ⟨b, hb, hstop⟩) p hp
    · have := mem_trimEnd_bounds hp
      omega
    · have hne : trimmed s ≠ [] := by
        intro hnil
        exact Bool.false_ne_true (hstop.symm.trans (trimmed_eq_nil_iff.mp hnil b hb))
      have hpos : 0 < (trimmed s).length := List.length_pos_iff.mpr hne
      obtain ⟨a, ha⟩ : ∃ a, a + 1 = str + (s.takeWhile blankByte).length + (trimmed s).length :=
        ⟨_, Nat.sub_add_cancel (by omega)⟩
      obtain ⟨hlast, hle, hblank⟩ := last_spec h hne ha
      have hlow := (trimEnd_eq (by omega) (by omega) hlast hblank).2 p hp
      have := mem_trimEnd_bounds hp
      omega

/-- **What is printed** is the trimmed string. -/
theorem text_eq_trimmed (hstr : 0 < str) (hlt : (trimmed s).length < 2 ^ 31) :
    (printPrecision m
      (BitVec.ofInt 32 (((trimEnd m (str + s.length - 1)).1 : Int)
        - (str + (s.takeWhile blankByte).length : ℕ) + 1)).toInt.toNat
      (str + (s.takeWhile blankByte).length)).1 = trimmed s := by
  unfold printPrecision
  dsimp only
  by_cases hne : trimmed s = []
  · -- the scan from the front stops at the NUL, and nothing is printed
    have hall := List.takeWhile_eq_self_iff.mpr (trimmed_eq_nil_iff.mp hne)
    rw [hall, hne]
    generalize (BitVec.ofInt 32 _).toInt.toNat = n
    cases n with
    | zero => rfl
    | succ n => rw [read_succ, h.nul, List.takeWhile_cons_of_neg (by decide)]
  · have hpos : 0 < (trimmed s).length := List.length_pos_iff.mpr hne
    obtain ⟨a, ha⟩ : ∃ a, a + 1 = str + (s.takeWhile blankByte).length + (trimmed s).length :=
      ⟨_, Nat.sub_add_cancel (by omega)⟩
    obtain ⟨hlast, hle, hblank⟩ := last_spec h hne ha
    have hend := (trimEnd_eq (by omega) (by omega) hlast hblank).1
    have hdiff : (a : Int) - (str + (s.takeWhile blankByte).length : ℕ) + 1
        = (trimmed s).length := by omega
    have hnat : (BitVec.ofNat 32 (trimmed s).length).toNat = (trimmed s).length := by
      rw [BitVec.toNat_ofNat]
      omega
    have hint : (BitVec.ofNat 32 (trimmed s).length).toInt.toNat = (trimmed s).length := by
      rw [BitVec.toInt_eq_toNat_of_lt (by omega), hnat, Int.toNat_natCast]
    rw [hend, hdiff, BitVec.ofInt_natCast, hint, (read_trimmed h).1]
    refine List.takeWhile_eq_self_iff.mpr fun b hb => ?_
    have hmem : b ∈ s := by
      rw [← takeWhile_append_trimmed s]
      simp [hb]
    refine decide_eq_true ?_
    rintro rfl
    exact h.nul_free hmem

/-- Printing reads no more than the string and its NUL. -/
theorem mem_range_of_mem_printed (hstr : 0 < str) (hlt : (trimmed s).length < 2 ^ 31) {p : ℕ}
    (hp : p ∈ (printPrecision m
      (BitVec.ofInt 32 (((trimEnd m (str + s.length - 1)).1 : Int)
        - (str + (s.takeWhile blankByte).length : ℕ) + 1)).toInt.toNat
      (str + (s.takeWhile blankByte).length)).2) : str ≤ p ∧ p ≤ str + s.length := by
  have htext := text_eq_trimmed h hstr hlt
  have hlength := congrArg List.length (takeWhile_append_trimmed s)
  rw [List.length_append, List.length_append] at hlength
  rw [printPrecision, List.mem_range'_1] at hp
  rw [printPrecision] at htext
  dsimp only at htext hp
  rw [htext] at hp
  omega

/-- **`nbu_string_trim`** prints the trimmed string, and reads nothing outside the string exactly if
there is a character that is no blank, or no memory in front of the string. -/
theorem exists_nbuStringTrimAt (hstr : 0 < str) (hlt : (trimmed s).length < 2 ^ 31) {fuel : ℕ}
    (hfuel : s.length < fuel) :
    ∃ reads, (∀ buf bufSize, nbuStringTrimAt m fuel str buf bufSize
        = (nbuStringPrintfTo buf bufSize (trimmed s)).map fun (ret, buf) => (reads, ret, buf)) ∧
      ((∀ p ∈ reads, str ≤ p ∧ p ≤ str + s.length) ↔
        str = 1 ∨ ∃ b ∈ s, blankByte b = false) := by
  have htext := text_eq_trimmed h hstr hlt
  have hlength := congrArg List.length (takeWhile_append_trimmed s)
  rw [List.length_append, List.length_append] at hlength
  have hreads := fun p => mem_range_of_mem_printed h hstr hlt (p := p)
  generalize hdiff : (BitVec.ofInt 32 _).toInt.toNat = diff at htext hreads
  refine ⟨List.range' str (s.length + 1)
      ++ List.range' str ((s.takeWhile blankByte).length + 1)
      ++ (trimEnd m (str + s.length - 1)).2
      ++ (printPrecision m diff (str + (s.takeWhile blankByte).length)).2,
    fun buf bufSize => ?_, ?_⟩
  · rw [nbuStringTrimAt, strlen_eq h hfuel, trimStart_eq h hstr hfuel]
    simp only [Option.bind_eq_bind, Option.bind_some, hdiff, htext]
    cases nbuStringPrintfTo buf bufSize (trimmed s) <;> rfl
  · rw [← trimEnd_reads_iff h hstr]
    constructor
    · exact fun hwithin p hp => hwithin p (by simp [hp])
    · intro hwithin p hp
      rw [List.mem_append, List.mem_append, List.mem_append] at hp
      rcases hp with ((hp | hp) | hp) | hp
      · rw [List.mem_range'_1] at hp
        omega
      · rw [List.mem_range'_1] at hp
        omega
      · exact hwithin p hp
      · exact hreads p hp

end

/-- What is expected of `nbu_string_trim` for the string `s` at `str`: it writes the trimmed string
and reads nothing outside `s` and its NUL, and what it wrote is not changed by trimming it again. -/
structure TrimSpec (m : ℕ → UInt8) (str : ℕ) (s : List UInt8) (bufSize : BitVec 32) : Prop where
  trim : ∀ fuel, s.length < fuel → ∀ buf, ∃ reads,
    nbuStringTrimAt m fuel str buf bufSize = some (reads, .success, trimmed s) ∧
      ∀ p ∈ reads, str ≤ p ∧ p ≤ str + s.length
  again : ∀ (m' : ℕ → UInt8) (str' fuel : ℕ), 0 < str' → StringAt m' str' (trimmed s) →
    (trimmed s).length < fuel → ∀ buf, ∃ reads,
      nbuStringTrimAt m' fuel str' buf bufSize = some (reads, .success, trimmed s)

/-- **Trimming.**  For every string and every buffer that the trimmed string fits into, the function
writes the trimmed string, reads nothing outside the string and its NUL, and trimming the result
changes nothing, if and only if the size of the buffer is not negative as an `int`, and the string
has a character that is no blank.  (Without one, the last byte that is read is the first one in
front of the string that is no blank, unless the string is at the lowest address.) -/
theorem string_trim_iff (hstr : 0 < str) (h : StringAt m str s) {bufSize : BitVec 32}
    (hbuf : (trimmed s).length < bufSize.toNat) :
    TrimSpec m str s bufSize ↔
      bufSize.toNat < 2 ^ 31 ∧ (str = 1 ∨ ∃ b ∈ s, blankByte b = false) := by
  constructor
  · intro hspec
    obtain ⟨reads, heq, hwithin⟩ := hspec.trim _ (Nat.lt_succ_self _) []
    have hsize : bufSize.toNat < 2 ^ 31 := by
      by_contra hge
      rw [nbuStringTrimAt, strlen_eq h (Nat.lt_succ_self _),
        trimStart_eq h hstr (Nat.lt_succ_self _)] at heq
      simp only [Option.bind_eq_bind, Option.bind_some, nbuStringPrintfTo_eq,
        nbuStringCopyTo_refused (Nat.not_lt.mp hge)] at heq
      exact nomatch heq
    refine ⟨hsize, ?_⟩
    obtain ⟨reads', heq', hiff⟩ :=
      exists_nbuStringTrimAt h hstr (Nat.lt_trans hbuf hsize) (Nat.lt_succ_self _)
    rw [heq', nbuStringPrintfTo_of_fits ⟨hbuf, hsize⟩] at heq
    obtain ⟨rfl, -⟩ := Prod.mk.inj (Option.some.inj heq)
    exact hiff.mp hwithin
  · rintro ⟨hsize, hchar⟩
    have hlt := Nat.lt_trans hbuf hsize
    constructor
    · intro fuel hfuel buf
      obtain ⟨reads, heq, hiff⟩ := exists_nbuStringTrimAt h hstr hlt hfuel
      refine ⟨reads, ?_, hiff.mpr hchar⟩
      rw [heq, nbuStringPrintfTo_of_fits ⟨hbuf, hsize⟩, Option.map_some]
    · intro m' str' fuel hstr' h' hfuel buf
      have htwice := trimmed_trimmed s
      obtain ⟨reads, heq, -⟩ := exists_nbuStringTrimAt h' hstr' (by rwa [htwice]) hfuel
      refine ⟨reads, ?_⟩
      rw [heq, htwice, nbuStringPrintfTo_of_fits ⟨hbuf, hsize⟩, Option.map_some]

/-- An empty string: the byte in front of it is read. -/
theorem string_trim_empty :
    StringAt (fun i => if i = 1 then 97 else 0) 2 [] ∧
      ∃ reads, nbuStringTrimAt (fun i => if i = 1 then 97 else 0) 1 2 [] 16
        = some (reads, .success, []) ∧ 1 ∈ reads :=
  ⟨⟨by decide, by decide, by decide⟩, _, rfl, by decide⟩

/-- The letter a with blanks around it. -/
theorem string_trim_blanks :
    TrimSpec (fun i => if i = 3 then 97 else if i = 2 ∨ i = 4 then 32 else 0) 2 [32, 97, 32] 16 :=
  (string_trim_iff (by decide) ⟨by decide, by decide, by decide⟩ (by decide)).mpr
    ⟨by decide, .inr ⟨97, by decide, by decide⟩⟩

/-! ### The string alone -/

section

variable {cs : List Char}

theorem blankByte_ofNat {c : Char} (h : c.toNat < 256) :
    blankByte (UInt8.ofNat c.toNat) = isBlank c := by
  rw [blankByte, UInt8.toNat_ofNat', Nat.mod_eq_of_lt h, Char.ofNat_toNat]

theorem dropWhile_ascii (h : ∀ c ∈ cs, c.toNat < 256) :
    (ascii cs).dropWhile blankByte = ascii (cs.dropWhile isBlank) := by
  induction cs with
  | nil => rfl
  | cons c cs ih =>
    obtain ⟨hc, hcs⟩ := List.forall_mem_cons.mp h
    have hblank := blankByte_ofNat hc
    by_cases hb : isBlank c = true
    · rw [List.dropWhile_cons_of_pos hb, ← ih hcs]
      exact List.dropWhile_cons_of_pos (hblank.trans hb)
    · rw [List.dropWhile_cons_of_neg hb]
      exact List.dropWhile_cons_of_neg (by rwa [hblank])

theorem trimmed_ascii (h : ∀ c ∈ cs, c.toNat < 256) :
    trimmed (ascii cs) = ascii ((cs.dropWhile isBlank).rdropWhile isBlank) := by
  have hdrop : ∀ c ∈ (cs.dropWhile isBlank).reverse, c.toNat < 256 := by
    intro c hc
    exact h c ((List.dropWhile_suffix _).subset (List.mem_reverse.mp hc))
  rw [trimmed, dropWhile_ascii h, List.rdropWhile, List.rdropWhile, ascii, ← List.map_reverse,
    ← ascii, dropWhile_ascii hdrop, ascii, ← List.map_reverse, ← ascii]

/-- The model of `nbu_string_trim` that leaves the memory out gives what is returned and written. -/
theorem exists_nbuStringTrimAt_ascii (hcs : Printable cs) (h : StringAt m str (ascii cs))
    (hstr : 0 < str) (hlt : cs.length < 2 ^ 31) {fuel : ℕ} (hfuel : cs.length < fuel)
    {bufSize : BitVec 32} (hpos : bufSize ≠ 0) (hsize : bufSize.toNat < 2 ^ 31) {ok : Bool}
    {text : List Char} (htrim : nbuStringTrim bufSize.toNat cs = some (ok, text))
    (buf : List UInt8) :
    ∃ reads, nbuStringTrimAt m fuel str buf bufSize
      = some (reads, if ok then .success else .error, ascii text) := by
  have hbytes : ∀ c ∈ cs, c.toNat < 256 := fun c hc => (hcs c hc).2
  have hkept := (List.rdropWhile_prefix isBlank (cs.dropWhile isBlank)).length_le.trans
    (List.dropWhile_suffix isBlank).length_le
  obtain ⟨reads, heq, -⟩ := exists_nbuStringTrimAt h hstr
    (by rw [trimmed_ascii hbytes, length_ascii]; omega) (by rwa [length_ascii])
  refine ⟨reads, ?_⟩
  unfold nbuStringTrim at htrim
  dsimp only at htrim
  split_ifs at htrim
  obtain ⟨rfl, rfl⟩ := Prod.mk.inj (Option.some.inj htrim)
  rw [heq, nbuStringPrintfTo_eq, nbuStringCopyTo_eq hpos hsize, trimmed_ascii hbytes,
    length_ascii, Option.map_some, ascii, ascii, List.map_take]
  simp only [decide_eq_true_eq]

end

end Neufbox.Libnbu
