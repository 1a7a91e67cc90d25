import Neufbox.Lib.Memory
import Neufbox.Lib.Words
import Neufbox.Libewf.Request
import Mathlib.Data.List.TakeWhile

/-!
# Referer, page and values of a request

* The check of the referer compares as many characters as the referer has before its first one that
  is no small letter, digit or underscore.  Behind `http` there is a colon: no more than that is
  ever compared (`checkReferer_eq_true_iff`).
* The page is chosen by the path alone, except for the paths of the index, which are recognised
  before the query string is cut off (`getpage_query_iff`).
* A value is escaped character by character (`escapeInput_spec`).
-/

namespace Neufbox.Libewf

open Libnbu Libnbd Memory Words

/-! ### The referer -/

/-- The text in front of a referer of the server's own pages. -/
def ownPages (serverName : String) : List Char := ("http://" ++ serverName ++ "/").toList

/-- A word ends before a character that is not in it. -/
theorem isPrefix_append_cons_iff {word s rest : List Char} {c : Char} (hc : c ∉ word) :
    word <+: s ++ c :: rest ↔ word <+: s := by
  constructor
  · intro hstart
    by_cases hlength : word.length ≤ s.length
    · exact List.prefix_of_prefix_length_le hstart (List.prefix_append _ _) hlength
    · -- the word would have the character in it
      have hmore : s ++ [c] <+: word := by
        refine List.prefix_of_prefix_length_le ⟨rest, List.append_cons s c rest ▸ rfl⟩ hstart ?_
        rw [List.length_append, List.length_singleton]
        omega
      have hmem : c ∈ word := hmore.subset (List.mem_append_right _ (List.mem_singleton_self c))
      exact absurd hmem hc
  · intro hstart
    exact hstart.trans (List.prefix_append _ _)

/-- What the check accepts: a referer whose first word is a beginning of `http`. -/
theorem checkReferer_eq_true_iff (serverName referer : String) :
    ewfUtilsCheckReferer serverName referer = true ↔
      referer.toList.takeWhile inWord <+: "http".toList := by
  obtain ⟨rest, hbuf⟩ : ∃ rest,
      (nbuStringPrintf (64 + 1) ("http://" ++ serverName ++ "/")).toList
        = "http".toList ++ ':' :: rest := by
    refine ⟨("//".toList ++ serverName.toList ++ "/".toList).take 59, ?_⟩
    rw [nbuStringPrintf, String.toList_ofList, String.toList_append, String.toList_append]
    rfl
  have hcolon : ':' ∉ referer.toList.takeWhile inWord :=
    fun hmem => absurd (List.mem_takeWhile_imp hmem) (by decide)
  have htake : referer.toList.take (referer.toList.takeWhile inWord).length
      = referer.toList.takeWhile inWord :=
    (List.prefix_iff_eq_take.mp ⟨_, List.takeWhile_append_dropWhile⟩).symm
  rw [ewfUtilsCheckReferer, nbuStringNcompare, decide_eq_true_iff, hbuf, htake,
    ← isPrefix_append_cons_iff hcolon, List.prefix_iff_eq_take]
  exact eq_comm

/-- **The referer.**  For every server name and referer: that a referer is accepted only if it
begins with `http://`, the name and `/` holds if and only if this one does, or its first word is no
beginning of `http`. -/
theorem checkReferer_iff (serverName referer : String) :
    (ewfUtilsCheckReferer serverName referer = true → ownPages serverName <+: referer.toList) ↔
      ownPages serverName <+: referer.toList ∨
        ¬ referer.toList.takeWhile inWord <+: "http".toList := by
  rw [checkReferer_eq_true_iff]
  exact imp_iff_or_not

/-- A page of another server, and no referer at all, pass the check. -/
theorem checkReferer_accepts_others :
    ewfUtilsCheckReferer "192.168.1.1" "http://example.org/" = true ∧
      ewfUtilsCheckReferer "192.168.1.1" "" = true ∧
      ¬ ownPages "192.168.1.1" <+: "http://example.org/".toList ∧
      ¬ ownPages "192.168.1.1" <+: "".toList := by
  decide

/-! ### The page -/

/-- The paths of the index. -/
def IsIndexPath (path : String) : Prop := path = "" ∨ path = "/"

instance (path : String) : Decidable (IsIndexPath path) :=
  inferInstanceAs (Decidable (_ ∨ _))

/-- A path, cut off behind 127 characters and at a question mark, when there is one behind it. -/
theorem takeWhile_take_path {path : List Char} (hmark : '?' ∉ path) (hlength : path.length ≤ 127)
    {query : List Char} (hquery : query = [] ∨ query.head? = some '?') :
    ((path ++ query).take 127).takeWhile (· ≠ '?') = path := by
  have hpath : ∀ c ∈ path, decide (c ≠ '?') = true :=
    fun c hc => decide_eq_true (ne_of_mem_of_not_mem hc hmark)
  have hrest : (query.take (127 - path.length)).takeWhile (· ≠ '?') = [] := by
    rcases hquery with rfl | hhead
    · rw [List.take_nil, List.takeWhile_nil]
    · cases query with
      | nil => exact absurd hhead (by simp)
      | cons c query =>
        obtain rfl : c = '?' := Option.some.inj hhead
        cases 127 - path.length with
        | zero => rfl
        | succ n => rw [List.take_succ_cons, List.takeWhile_cons_of_neg (by simp)]
  rw [List.take_append, List.take_of_length_le hlength, List.takeWhile_append_of_pos hpath, hrest,
    List.append_nil]

/-- The name of a path, with or without a query string behind it. -/
theorem pgname_of_not_index {path uri : String} {query : List Char} (hmark : '?' ∉ path.toList)
    (hlength : path.length ≤ 127) (hquery : query = [] ∨ query.head? = some '?')
    (huri : uri.toList = path.toList ++ query) (hindex : ¬ IsIndexPath uri) :
    pgname uri = path := by
  have hcopy : (if uri = "" ∨ uri = "/" then nbuStringCopy 128 uriPageIndex
      else nbuStringCopy 128 uri) = nbuStringCopy 128 uri := if_neg hindex
  rw [pgname, hcopy, nbuStringCopy, String.toList_ofList, huri,
    takeWhile_take_path hmark (by rwa [String.length_toList]) hquery, String.ofList_toList]

theorem pgname_of_index {uri : String} (hindex : IsIndexPath uri) : pgname uri = uriPageIndex := by
  rcases hindex with rfl | rfl <;> decide

variable {H : Type}

/-- **The query string and the page.**  For every table of pages, every path of at most 127
characters without `?` and every query string: the same page is found for the path with the query
string as for the path alone, if and only if the path is none of the index, or the table has under
this path what it has under `/index`. -/
theorem getpage_query_iff (pages : List (Page H)) (path query : String)
    (hmark : '?' ∉ path.toList) (hlength : path.length ≤ 127) :
    ewfDispatcherGetpage pages (some (path ++ "?" ++ query))
        = ewfDispatcherGetpage pages (some path) ↔
      ¬ IsIndexPath path ∨
        (pages.find? fun page => page.name = path)
          = pages.find? fun page => page.name = uriPageIndex := by
  have huri : (path ++ "?" ++ query).toList = path.toList ++ '?' :: query.toList := by
    rw [String.toList_append, String.toList_append, List.append_assoc]
    rfl
  have hnot : ¬ IsIndexPath (path ++ "?" ++ query) := by
    have hmem : '?' ∈ (path ++ "?" ++ query).toList := by
      rw [huri]
      exact List.mem_append_right _ (List.mem_cons_self ..)
    rintro (h | h)
    · rw [h] at hmem
      exact absurd hmem (by decide)
    · rw [h] at hmem
      exact absurd hmem (by decide)
  show (pages.find? fun page => page.name = pgname (path ++ "?" ++ query))
    = (pages.find? fun page => page.name = pgname path) ↔ _
  rw [pgname_of_not_index hmark hlength (.inr rfl) huri hnot]
  by_cases hindex : IsIndexPath path
  · rw [pgname_of_index hindex]
    exact (or_iff_right (not_not_intro hindex)).symm
  · rw [pgname_of_not_index hmark hlength (.inl rfl) (List.append_nil _).symm hindex]
    exact iff_of_true rfl (.inl hindex)

/-- A page is found with a query string. -/
theorem getpage_query_login :
    let pages : List (Page Unit) := [⟨uriPageLogin, .public_, none, none, none⟩]
    ewfDispatcherGetpage pages (some "/login?a=b") = ewfDispatcherGetpage pages (some "/login") :=
  (getpage_query_iff _ "/login" "a=b" (by decide) (by decide)).mpr (.inl (by decide))

/-- The index is not found with one. -/
theorem getpage_query_of_index :
    let pages : List (Page Unit) := [⟨uriPageIndex, .public_, none, none, none⟩]
    (ewfDispatcherGetpage pages (some "/")).isSome = true ∧
      (ewfDispatcherGetpage pages (some "/?a=b")).isSome = false ∧
      (ewfDispatcherGetpage pages (some "")).isSome = true ∧
      (ewfDispatcherGetpage pages (some "?a=b")).isSome = false := by
  decide

/-! ### The values -/

/-- The characters that are replaced: those outside of the printable ASCII range, and the quotation
marks. -/
def Forbidden (c : UInt8) : Prop := c.toNat < 0x20 ∨ 0x7e < c.toNat ∨ c ∈ forbiddenAsciiChars

instance (c : UInt8) : Decidable (Forbidden c) := inferInstanceAs (Decidable (_ ∨ _ ∨ _))

/-- It does not matter whether `char` is signed: a negative one is below the blank. -/
theorem escapeChar_eq (signed : Bool) (c : UInt8) :
    escapeChar signed c = if Forbidden c then censureChar else c := by
  have hrange : (charToInt signed c < 0x20 ∨ charToInt signed c > 0x7e) ↔
      c.toNat < 0x20 ∨ 0x7e < c.toNat := by
    have hlt : c.toNat < 256 := c.toNat_lt
    unfold charToInt
    split_ifs <;> omega
  have hforbidden : Forbidden c ↔
      (c.toNat < 0x20 ∨ 0x7e < c.toNat) ∨ c ∈ forbiddenAsciiChars := or_assoc.symm
  rw [escapeChar]
  by_cases hout : c.toNat < 0x20 ∨ 0x7e < c.toNat
  · rw [if_pos (hrange.mpr hout), if_pos (hforbidden.mpr (.inl hout))]
  rw [if_neg (mt hrange.mp hout)]
  by_cases hmark : c ∈ forbiddenAsciiChars
  · rw [if_pos hmark, if_pos (hforbidden.mpr (.inr hmark))]
  · rw [if_neg hmark, if_neg (mt hforbidden.mp (not_or_intro hout hmark))]

theorem not_forbidden_escapeChar (signed : Bool) (c : UInt8) :
    ¬ Forbidden (escapeChar signed c) := by
  rw [escapeChar_eq]
  split_ifs with h
  · decide
  · exact h

/-- What is escaped is not escaped further. -/
theorem escapeChar_of_not_forbidden (signed : Bool) {c : UInt8} (h : ¬ Forbidden c) :
    escapeChar signed c = c := by
  rw [escapeChar_eq, if_neg h]

/-- **The loop** stores the escaped characters as far as there is room, and a NUL behind them. -/
theorem escapeLoop_eq (signed : Bool) (bufSize : BitVec 32) (val : List UInt8) (i : ℕ)
    (buf : ℕ → UInt8) (hi : i ≤ (bufSize - 1).toNat) :
    escapeLoop signed bufSize val i buf
      = (decide (i + val.length ≤ (bufSize - 1).toNat),
        write buf i ((val.take ((bufSize - 1).toNat - i)).map (escapeChar signed) ++ [0])) := by
  induction val generalizing i buf with
  | nil =>
    rw [escapeLoop, List.take_nil, List.map_nil, List.nil_append, write_cons, write_nil]
    simpa using hi
  | cons c val ih =>
    unfold escapeLoop
    split_ifs with hlt
    · have htake : (bufSize - 1).toNat - i = (bufSize - 1).toNat - (i + 1) + 1 := by omega
      rw [ih (i + 1) _ hlt, htake, List.take_succ_cons, List.map_cons, List.cons_append, write_cons,
        List.length_cons, show i + 1 + val.length = i + (val.length + 1) by omega]
    · have hzero : (bufSize - 1).toNat - i = 0 := by omega
      rw [hzero, List.take_zero, List.map_nil, List.nil_append, write_cons, write_nil,
        List.length_cons, decide_eq_false (by omega)]

/-- The memory holds the string, and a NUL behind it. -/
def HoldsString (m : ℕ → UInt8) (str : CString) : Prop :=
  read m 0 (str.bytes ++ [0]).length = str.bytes ++ [0]

/-- The string that a value becomes in a buffer. -/
def escaped (signed : Bool) (val : CString) (bufSize : BitVec 32) : CString where
  bytes := (val.bytes.take (bufSize.toNat - 1)).map (escapeChar signed)
  nul_free := by
    intro hmem
    obtain ⟨c, -, hc⟩ := List.mem_map.mp hmem
    exact not_forbidden_escapeChar signed c (hc ▸ by decide)

section

variable (signed : Bool) (val : CString) (buf : ℕ → UInt8) {bufSize : BitVec 32}

theorem ewfSecureEscapeInput_eq (hsize : 1 ≤ bufSize.toNat) :
    ewfSecureEscapeInput signed val buf bufSize
      = (decide (val.bytes.length ≤ bufSize.toNat - 1),
        write buf 0 ((escaped signed val bufSize).bytes ++ [0])) := by
  have hlimit : (bufSize - 1).toNat = bufSize.toNat - 1 :=
    toNat_sub_one hsize
  rw [ewfSecureEscapeInput, escapeLoop_eq _ _ _ _ _ (Nat.zero_le _), hlimit, Nat.zero_add,
    Nat.sub_zero, escaped]

theorem length_escaped (bufSize : BitVec 32) :
    (escaped signed val bufSize).bytes.length = min val.bytes.length (bufSize.toNat - 1) := by
  rw [escaped, List.length_map, List.length_take, Nat.min_comm]

theorem holdsString_escapeInput (hsize : 1 ≤ bufSize.toNat) :
    HoldsString (ewfSecureEscapeInput signed val buf bufSize).2 (escaped signed val bufSize) := by
  rw [ewfSecureEscapeInput_eq signed val buf hsize]
  exact read_write_self buf 0 ((escaped signed val bufSize).bytes ++ [0])

theorem not_forbidden_of_mem_escaped (bufSize : BitVec 32) {c : UInt8}
    (hc : c ∈ (escaped signed val bufSize).bytes) : ¬ Forbidden c := by
  obtain ⟨c', -, rfl⟩ := List.mem_map.mp hc
  exact not_forbidden_escapeChar signed c'

/-- An escaped string stays as it is. -/
theorem escaped_escaped (bufSize : BitVec 32) :
    escaped signed (escaped signed val bufSize) bufSize = escaped signed val bufSize := by
  have hlength : (escaped signed val bufSize).bytes.length ≤ bufSize.toNat - 1 := by
    rw [length_escaped]
    exact Nat.min_le_right _ _
  have hmap : (escaped signed val bufSize).bytes.map (escapeChar signed)
      = (escaped signed val bufSize).bytes := by
    conv_rhs => rw [← List.map_id (escaped signed val bufSize).bytes]
    apply List.map_congr_left
    intro c hc
    exact escapeChar_of_not_forbidden signed (not_forbidden_of_mem_escaped signed val bufSize hc)
  have hbytes : (escaped signed (escaped signed val bufSize) bufSize).bytes
      = (escaped signed val bufSize).bytes := by
    show ((escaped signed val bufSize).bytes.take (bufSize.toNat - 1)).map (escapeChar signed) = _
    rw [List.take_of_length_le hlength, hmap]
  exact CString.ext hbytes

end

/-- **Escaping.**  For every string and every buffer of at least one byte: the buffer holds a string
of `min (length of the input) (size - 1)` characters, which are those of the input but for forbidden
ones, of which it has none.  Success means that nothing was cut off, nothing behind the buffer is
written, and the string escaped again, into any buffer of the size or in place, stays as it is. -/
theorem escapeInput_spec (signed : Bool) (val : CString) (buf : ℕ → UInt8) (bufSize : BitVec 32)
    (hsize : 1 ≤ bufSize.toNat) :
    let (ret, out) := ewfSecureEscapeInput signed val buf bufSize
    ∃ str, HoldsString out str ∧ str.bytes.length = min val.bytes.length (bufSize.toNat - 1) ∧
      List.Forall₂ (fun c c' => c' = c ∨ Forbidden c ∧ c' = censureChar)
        (val.bytes.take (bufSize.toNat - 1)) str.bytes ∧
      (∀ c ∈ str.bytes, ¬ Forbidden c) ∧
      (ret = true ↔ str.bytes.length = val.bytes.length) ∧
      (∀ j ≥ bufSize.toNat, out j = buf j) ∧
      (∀ buf', HoldsString (ewfSecureEscapeInput signed str buf' bufSize).2 str) ∧
      ewfSecureEscapeInput signed str out bufSize = (true, out) := by
  have hlength := length_escaped signed val bufSize
  have hholds (buf' : ℕ → UInt8) := holdsString_escapeInput signed val buf' hsize
  have hagain (buf' : ℕ → UInt8) :
      ewfSecureEscapeInput signed (escaped signed val bufSize) buf' bufSize
        = (true, write buf' 0 ((escaped signed val bufSize).bytes ++ [0])) := by
    rw [ewfSecureEscapeInput_eq _ _ _ hsize, escaped_escaped, decide_eq_true (by omega)]
  simp only [ewfSecureEscapeInput_eq signed val _ hsize] at hholds ⊢
  refine ⟨escaped signed val bufSize, hholds buf, hlength, ?_, ?_, ?_, ?_, ?_, ?_⟩
  · rw [escaped, List.forall₂_map_right_iff, List.forall₂_same]
    intro c _
    rw [escapeChar_eq]
    split_ifs with hc
    · exact .inr ⟨hc, rfl⟩
    · exact .inl rfl
  · exact fun c hc => not_forbidden_of_mem_escaped signed val bufSize hc
  · rw [hlength, decide_eq_true_iff]
    omega
  · intro j hj
    apply write_apply_of_ge
    rw [List.length_append, List.length_singleton]
    omega
  · intro buf'
    rw [hagain]
    exact hholds buf'
  · rw [hagain, write_of_read_eq (hholds buf)]

/-- A value that does not fit is cut, and its quotation mark replaced. -/
theorem escapeInput_of_quote :
    let val : CString := ⟨[0x61, 0x22, 0x62, 0x63], by decide⟩
    let (ret, out) := ewfSecureEscapeInput true val (fun _ => 1) 4
    ret = false ∧ read out 0 5 = [0x61, 0x20, 0x62, 0, 1] ∧
      ∃ str, HoldsString out str ∧ str.bytes.length = 3 := by
  intro val
  obtain ⟨str, hholds, hlength, -⟩ := escapeInput_spec true val (fun _ => 1) 4 (by decide)
  exact ⟨by decide, by decide, str, hholds, hlength⟩

end Neufbox.Libewf
