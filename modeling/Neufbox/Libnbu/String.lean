import Mathlib.Data.List.Basic
import Mathlib.Data.List.DropRight

/-!
# libnbu strings

Model of `src/string.c`.  A C string is a Lean string, one character for each byte; its buffer's
size is passed where the source passes it.  The characters of a string that is taken apart are
given as a list.  `nbu_string_compare` and `nbu_string_matches` are
equality and are written as such.
-/

namespace Neufbox.Libnbu

/-- `nbu_string_copy`: what the buffer of `size` bytes holds after it. -/
def nbuStringCopy (size : ℕ) (src : String) : String := String.ofList (src.toList.take (size - 1))

/-- `nbu_string_printf`: what the buffer of `size` bytes holds after it, for the text that the
format gives. -/
def nbuStringPrintf (size : ℕ) (text : String) : String :=
  String.ofList (text.toList.take (size - 1))

/-- `nbu_string_ncompare`, as whether the strings are equal in their first `maxsize` bytes. -/
def nbuStringNcompare (str1 : String) (maxsize : ℕ) (str2 : String) : Bool :=
  str1.toList.take maxsize = str2.toList.take maxsize

/-- The bytes printed with `"%02x"` each. -/
def hexString (bytes : List UInt8) : String :=
  String.ofList
    (bytes.flatMap fun b => [Nat.digitChar (b.toNat / 16), Nat.digitChar (b.toNat % 16)])

/-- `strstr(str, sep)`: what is in front of the first `sep` in the string, and behind it. -/
def strstr (sep : List Char) : List Char → Option (List Char × List Char)
  | [] => if sep = [] then some ([], []) else none
  | c :: str =>
    if sep <+: c :: str then some ([], (c :: str).drop sep.length)
    else (strstr sep str).map fun (item, rest) => (c :: item, rest)

/-- The loop of `nbu_string_split`: the items, or `none` if it does not end within `fuel` rounds. -/
def splitLoop (sep : List Char) : ℕ → List Char → Option (List (List Char))
  | 0, _ => none
  | fuel + 1, saveptr =>
    match strstr sep saveptr with
    | some (item, saveptr) => (splitLoop sep fuel saveptr).map (item :: ·)
    | none => some [saveptr]

/-- `nbu_string_split`, when there is memory for the list and the items.  With an empty separator
the loop does not end. -/
def nbuStringSplit (str sep : List Char) : Option (List (List Char)) :=
  splitLoop sep (str.length + 1) str

/-- The characters that `nbu_string_trim` takes off. -/
def isBlank (c : Char) : Bool := c = ' ' || c = '\t' || c = '\n' || c = '\r'

/-- `nbu_string_trim`: whether it returns `NBU_SUCCESS`, and the string in the buffer.  Without a
character that is no blank, the search for the last one leaves the string at its beginning, and
goes on in the memory before it: `none`. -/
def nbuStringTrim (bufSize : ℕ) (str : List Char) : Option (Bool × List Char) :=
  let start := str.dropWhile isBlank
  if start = [] then none
  else
    let text := start.rdropWhile isBlank
    some (decide (text.length < bufSize), text.take (bufSize - 1))

theorem nbuStringCopy_of_lt {size : ℕ} {s : String} (h : s.length < size) :
    nbuStringCopy size s = s := by
  rw [nbuStringCopy, List.take_of_length_le (by rw [String.length_toList]; omega),
    String.ofList_toList]

/-- A buffer that a string just fits into holds the beginning of a longer one. -/
theorem nbuStringCopy_append {n : ℕ} {str : String} (h : str.length = n) (rest : String) :
    nbuStringCopy (n + 1) (str ++ rest) = str := by
  rw [nbuStringCopy, String.toList_append, Nat.add_sub_cancel,
    List.take_left' (by rw [String.length_toList, h]), String.ofList_toList]

/-- A string of length `2 n` is copied out in two halves. -/
theorem nbuStringCopy_halves {n : ℕ} {str left right : String} (hstr : str.length = 2 * n)
    (hleft : left.length = n) :
    (nbuStringCopy (n + 1) str = left ∧
      nbuStringCopy (n + 1) (String.ofList (str.toList.drop n)) = right) ↔
      str = left ++ right := by
  have hdrop : (str.toList.drop n).take n = str.toList.drop n := by
    apply List.take_of_length_le
    rw [List.length_drop, String.length_toList]
    omega
  unfold nbuStringCopy
  rw [String.toList_ofList, Nat.add_sub_cancel, hdrop]
  constructor
  · rintro ⟨rfl, rfl⟩
    rw [← String.toList_inj]
    simp
  · rintro rfl
    have hlength : left.toList.length = n := by rw [String.length_toList, hleft]
    rw [String.toList_append, List.take_left' hlength, List.drop_left' hlength,
      String.ofList_toList, String.ofList_toList]
    exact ⟨rfl, rfl⟩

/-! ### Splitting at a character -/

section

variable {c : Char} {xs ys : List Char}

theorem strstr_of_notMem (h : c ∉ xs) : strstr [c] xs = none := by
  induction xs with
  | nil => rfl
  | cons x xs ih =>
    rw [List.mem_cons, not_or] at h
    have hstart : ¬ [c] <+: x :: xs := fun hstart => h.1 (List.cons_prefix_cons.mp hstart).1
    rw [strstr, if_neg hstart, ih h.2, Option.map_none]

theorem strstr_append (h : c ∉ xs) (ys : List Char) :
    strstr [c] (xs ++ c :: ys) = some (xs, ys) := by
  induction xs with
  | nil =>
    have hstart : [c] <+: c :: ys := ⟨ys, rfl⟩
    rw [List.nil_append, strstr, if_pos hstart]
    rfl
  | cons x xs ih =>
    rw [List.mem_cons, not_or] at h
    have hstart : ¬ [c] <+: x :: (xs ++ c :: ys) :=
      fun hstart => h.1 (List.cons_prefix_cons.mp hstart).1
    rw [List.cons_append, strstr, if_neg hstart, ih h.2, Option.map_some]

/-- A string with one separator has two items. -/
theorem nbuStringSplit_append (hx : c ∉ xs) (hy : c ∉ ys) :
    nbuStringSplit (xs ++ c :: ys) [c] = some [xs, ys] := by
  obtain ⟨fuel, hfuel⟩ : ∃ fuel, (xs ++ c :: ys).length = fuel + 1 :=
    ⟨xs.length + ys.length, by rw [List.length_append, List.length_cons]; omega⟩
  rw [nbuStringSplit, hfuel, splitLoop, strstr_append hx ys]
  show (splitLoop [c] (fuel + 1) ys).map (xs :: ·) = _
  rw [splitLoop, strstr_of_notMem hy, Option.map_some]

end

/-! ### Trimming -/

/-- The blanks around a text without blanks are taken off. -/
theorem nbuStringTrim_append {before text after : List Char} (bufSize : ℕ)
    (hbefore : ∀ c ∈ before, isBlank c = true) (hafter : ∀ c ∈ after, isBlank c = true)
    (htext : ∀ c ∈ text, isBlank c = false) (hne : text ≠ []) :
    nbuStringTrim bufSize (before ++ (text ++ after))
      = some (decide (text.length < bufSize), text.take (bufSize - 1)) := by
  have hkeep (cs : List Char) (hcs : ∀ c ∈ cs, isBlank c = false) (hne : cs ≠ [])
      (rest : List Char) : (cs ++ rest).dropWhile isBlank = cs ++ rest := by
    obtain ⟨c, cs, rfl⟩ := List.exists_cons_of_ne_nil hne
    rw [List.cons_append, List.dropWhile_cons_of_neg (by simp [hcs c (List.mem_cons_self ..)])]
  have hstart : (before ++ (text ++ after)).dropWhile isBlank = text ++ after := by
    rw [List.dropWhile_append_of_pos hbefore, hkeep text htext hne]
  have hend : (text ++ after).rdropWhile isBlank = text := by
    have hreverse : text.reverse.dropWhile isBlank = text.reverse := by
      have := hkeep text.reverse (by simpa using htext) (by simpa using hne) []
      rwa [List.append_nil] at this
    rw [List.rdropWhile, List.reverse_append,
      List.dropWhile_append_of_pos (by simpa using hafter), hreverse, List.reverse_reverse]
  rw [nbuStringTrim, hstart, if_neg (by simp [hne]), hend]

theorem length_hexString (bytes : List UInt8) : (hexString bytes).length = 2 * bytes.length := by
  rw [hexString, String.length_ofList]
  induction bytes with
  | nil => rfl
  | cons b bytes ih =>
    rw [List.flatMap_cons, List.length_append, ih, List.length_cons]
    show 2 + 2 * bytes.length = 2 * (bytes.length + 1)
    omega

end Neufbox.Libnbu
