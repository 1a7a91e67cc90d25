import Neufbox.Libetk.Equiv.SeqFile
import Neufbox.Libetk.Text

/-!
# Digits to bytes and back, and spaces in URLs

`pack` undoes what `seq_print_hex` prints.  It takes two characters at a time and looks for the NUL
at every second one only: the NUL of a text with an odd number of characters is taken for a digit,
and the loop goes on behind it.

`http_encode` counts three characters for a space, also when there are only one or two left.  The
number of those that are left then wraps, and everything that follows is stored behind the buffer.
-/

namespace Neufbox.Libetk

open Memory CStrings Libnbd Words

/-! ### Digits -/

variable {s : ℕ → UInt8} {i : ℕ}

theorem hex_hexPair (p : UInt8) :
    (hex (hexAscii (p >>> 4)) <<< 4) ||| hex (hexAscii (p &&& 0x0f)) = p := by
  revert p
  exact forall_byte (by decide +kernel)

theorem packLoop_of_eq_zero (h : s i = 0) (len : ℕ) : packLoop s i len = ([], i + 1) := by
  cases len with
  | zero => rfl
  | succ len => rw [packLoop, if_neg (not_not.mpr h)]

theorem packLoop_of_ne_zero (h : s i ≠ 0) (len : ℕ) :
    packLoop s i (len + 1)
      = (((hex (s i) <<< 4) ||| hex (s (i + 1))) :: (packLoop s (i + 2) len).1,
        (packLoop s (i + 2) len).2) := by
  rw [packLoop, if_pos h]

theorem apply_ne_zero {x : UInt8} {text : List UInt8} (h : StringAt s i (x :: text)) :
    s i ≠ 0 := by
  obtain ⟨hne, hx, -⟩ := stringAt_cons_iff.mp h
  rwa [hx]

/-- A string without its first two characters. -/
theorem stringAt_tail {x y : UInt8} {text : List UInt8} (h : StringAt s i (x :: y :: text)) :
    s i = x ∧ s (i + 1) = y ∧ StringAt s (i + 2) text := by
  obtain ⟨-, hx, h⟩ := stringAt_cons_iff.mp h
  obtain ⟨-, hy, h⟩ := stringAt_cons_iff.mp h
  exact ⟨hx, hy, h⟩

/-- **Digits are packed** into the bytes they were printed from. -/
theorem packLoop_digits (bin : List UInt8) :
    ∀ {i len : ℕ}, StringAt s i (bin.map hexPair).flatten → bin.length ≤ len →
      (packLoop s i len).1 = bin := by
  induction bin with
  | nil =>
    intro i len h _
    have hnul : s i = 0 := h.nul
    rw [packLoop_of_eq_zero hnul]
  | cons p bin ih =>
    intro i len h hlen
    obtain ⟨len, rfl⟩ := Nat.exists_eq_succ_of_ne_zero (Nat.ne_zero_of_lt hlen)
    obtain ⟨hhigh, hlow, hrest⟩ := stringAt_tail h
    have hne : s i ≠ 0 := apply_ne_zero h
    rw [Nat.succ_eq_add_one, packLoop_of_ne_zero hne, hhigh, hlow, hex_hexPair,
      ih hrest (Nat.le_of_succ_le_succ hlen)]

/-- The character at the start is always read. -/
theorem lt_packLoop_top (s : ℕ → UInt8) (len : ℕ) : ∀ i, i < (packLoop s i len).2 := by
  induction len with
  | zero => exact fun i => Nat.lt_succ_self i
  | succ len ih =>
    intro i
    by_cases h : s i = 0
    · rw [packLoop_of_eq_zero h]
      exact Nat.lt_succ_self i
    · rw [packLoop_of_ne_zero h]
      have := ih (i + 2)
      show i < (packLoop s (i + 2) len).2
      omega

/-- **How far `pack` reads**: up to the NUL, unless it takes the NUL for a second digit. -/
theorem packLoop_top_iff : ∀ (text : List UInt8) {i len : ℕ}, StringAt s i text →
    ((packLoop s i len).2 ≤ i + text.length + 1 ↔ text.length % 2 = 0 ∨ len ≤ text.length / 2)
  | [], i, len, h => by
    have hnul : s i = 0 := h.nul
    rw [packLoop_of_eq_zero hnul]
    exact iff_of_true (Nat.le_refl _) (.inl rfl)
  | [x], i, 0, _ => iff_of_true (Nat.le_succ (i + 1)) (.inr (Nat.zero_le _))
  | [x], i, len + 1, h => by
    rw [packLoop_of_ne_zero (apply_ne_zero h)]
    -- the loop goes on at the character behind the NUL
    have htop := lt_packLoop_top s len (i + 2)
    refine iff_of_false (fun hle => ?_) ?_
    · have : (packLoop s (i + 2) len).2 ≤ i + 1 + 1 := hle
      omega
    · rintro (hparity | hlen)
      · exact Nat.one_ne_zero hparity
      · have : len + 1 ≤ 1 / 2 := hlen
        omega
  | x :: y :: text, i, 0, _ => by
    refine iff_of_true ?_ (.inr (Nat.zero_le _))
    show i + 1 ≤ i + (x :: y :: text).length + 1
    omega
  | x :: y :: text, i, len + 1, h => by
    obtain ⟨-, -, hrest⟩ := stringAt_tail h
    have ih : (packLoop s (i + 2) len).2 ≤ i + 2 + text.length + 1 ↔
        text.length % 2 = 0 ∨ len ≤ text.length / 2 := packLoop_top_iff text hrest
    rw [packLoop_of_ne_zero (apply_ne_zero h), List.length_cons, List.length_cons]
    have hbound : i + (text.length + 1 + 1) + 1 = i + 2 + text.length + 1 := by omega
    rw [hbound]
    refine ih.trans ?_
    omega

/-- **`pack`.**  The text of bytes that `seq_print_hex` has printed whole is packed into these
bytes, with zeros behind them.  For every string and every number of bytes: no character behind the
NUL is read if and only if the string has an even number of characters, or there is no room for the
byte that its last one begins. -/
theorem pack_iff {w : ℕ} :
    (∀ (m : SeqFile w) (bin : ℕ → UInt8) (n : BitVec w) (len : ℕ),
      m.count.toNat + 2 * n.toNat < m.size.toNat → n.toNat ≤ len →
        let text := fun i => (seqPrintHex m bin n).buf (m.count.toNat + i)
        (pack text len).1 = read bin 0 n.toNat ++ List.replicate (len - n.toNat) 0) ∧
    ∀ (s : ℕ → UInt8) (text : List UInt8) (len : ℕ), StringAt s 0 text →
      ((pack s len).2 ≤ text.length + 1 ↔ text.length % 2 = 0 ∨ len ≤ text.length / 2) := by
  constructor
  · intro m bin n len hfits hlen text
    have hstring : StringAt text 0 ((read bin 0 n.toNat).map hexPair).flatten :=
      .shift (stringAt_seqPrintHex bin hfits)
    have hbytes : (packLoop text 0 len).1 = read bin 0 n.toNat :=
      packLoop_digits _ hstring (by rwa [length_read])
    rw [pack]
    dsimp only
    rw [hbytes, length_read]
  · intro s text len h
    have htop : (packLoop s 0 len).2 ≤ 0 + text.length + 1 ↔
        text.length % 2 = 0 ∨ len ≤ text.length / 2 := packLoop_top_iff text h
    rwa [Nat.zero_add] at htop

/-- Two bytes are printed and packed into three; four characters are read, and the NUL. -/
theorem pack_two_bytes :
    let m : SeqFile 32 := ⟨fun _ => 0xff, 5, 0⟩
    let text := fun i => (seqPrintHex m (fun i => .ofNat (0xab + 0x22 * i)) 2).buf (0 + i)
    (pack text 3).1 = [0xab, 0xcd, 0x00] ∧ (pack text 3).2 ≤ 5 := by
  intro m text
  have hstring : StringAt text 0 (ascii ['a', 'b', 'c', 'd']) :=
    ⟨by decide, by decide, by decide⟩
  obtain ⟨hround, htop⟩ := pack_iff (w := 32)
  exact ⟨(hround m _ 2 3 (by decide) (by decide)).trans (by decide),
    (htop text _ 3 hstring).mpr (.inl rfl)⟩

/-- One character: the NUL behind it is taken for a digit, and what follows is read and packed. -/
theorem pack_past_nul :
    let s : ℕ → UInt8 := fun i => if i = 0 then 0x61 else if i = 1 then 0 else 0x31
    StringAt s 0 (ascii ['a']) ∧ pack s 3 = ([0xff, 0x11, 0x11], 7) ∧
      ¬ (pack s 3).2 ≤ (ascii ['a']).length + 1 := by
  intro s
  exact ⟨⟨by decide, by decide, by decide⟩, by decide, by decide⟩

/-! ### Spaces -/

/-- The text with `%20` for every space. -/
def urlEncoded (text : List UInt8) : List UInt8 :=
  text.flatMap fun c => if c = space then escapedSpace else [c]

/-- What is meant by encoding into a buffer of `len` bytes: nothing behind it is written, there is a
string that ends in it, a part of the encoded text from its start on, and all of it if it fits. -/
structure Encodes (buf : ℕ → UInt8) (top len : ℕ) (text : List UInt8) : Prop where
  top_le : top ≤ len
  string : ∃ shown, shown <+: urlEncoded text ∧ StringAt buf 0 shown ∧ shown.length < len ∧
    ((urlEncoded text).length < len → shown = urlEncoded text)

/-- No space is met where one or two bytes of the buffer are left. -/
def NoTightSpace (len : ℕ) (text : List UInt8) : Prop :=
  ∀ before after, text = before ++ space :: after →
    (urlEncoded before).length + 1 ≠ len ∧ (urlEncoded before).length + 2 ≠ len

theorem noTightSpace_iff {len : ℕ} {text : List UInt8} :
    NoTightSpace len text ↔ ∀ i < text.length, text[i]? = some space →
      (urlEncoded (text.take i)).length + 1 ≠ len ∧
        (urlEncoded (text.take i)).length + 2 ≠ len := by
  constructor
  · intro h i hi hspace
    refine h (text.take i) (text.drop (i + 1)) ?_
    rw [List.getElem?_eq_getElem hi] at hspace
    rw [← Option.some.inj hspace, List.getElem_cons_drop, List.take_append_drop]
  · rintro h before after rfl
    have hi := h before.length (by simp) (by simp)
    rwa [List.take_left] at hi

instance (len : ℕ) (text : List UInt8) : Decidable (NoTightSpace len text) :=
  decidable_of_iff' _ noTightSpace_iff

theorem urlEncoded_append (xs ys : List UInt8) :
    urlEncoded (xs ++ ys) = urlEncoded xs ++ urlEncoded ys := List.flatMap_append

theorem urlEncoded_space : urlEncoded [space] = escapedSpace := rfl

theorem urlEncoded_of_ne {c : UInt8} (h : c ≠ space) : urlEncoded [c] = [c] := by
  show (if c = space then escapedSpace else [c]) ++ [] = [c]
  rw [if_neg h, List.append_nil]

theorem nul_notMem_urlEncoded {text : List UInt8} (h : 0 ∉ text) : 0 ∉ urlEncoded text := by
  intro hmem
  obtain ⟨c, hc, hzero⟩ := List.mem_flatMap.mp hmem
  split_ifs at hzero
  · exact absurd hzero (by decide)
  · exact h (List.mem_singleton.mp hzero ▸ hc)

variable {w n : ℕ} {e : Encoding w} {done : List UInt8}

/-- The loop has encoded `done` into a buffer of `n` bytes, of which the last one is kept for the
NUL in the end. -/
structure Encoded (n : ℕ) (e : Encoding w) (done : List UInt8) : Prop where
  to_ : e.to_ = (urlEncoded done).length
  len : e.to_ + e.len.toNat = n
  top_le : e.top ≤ n
  chars : read e.buf 0 (min e.to_ (n - 1)) = (urlEncoded done).take (n - 1)

/-- There is room for a character exactly if all of the text is in the buffer. -/
theorem Encoded.len_ne_zero_iff (h : Encoded n e done) : e.len ≠ 0 ↔ e.to_ < n := by
  have hsum := h.len
  rw [Ne, ← BitVec.toNat_inj, BitVec.ofNat_eq_ofNat, BitVec.toNat_zero]
  omega

theorem Encoded.to_lt (h : Encoded n e done) (hlen : e.len ≠ 0) : e.to_ < n :=
  h.len_ne_zero_iff.mp hlen

/-- More characters in the cells behind. -/
theorem Encoded.chars_append (h : Encoded n e done) (hlen : e.len ≠ 0) (new : List UInt8)
    {buf : ℕ → UInt8}
    (hbuf : ∀ j < min (e.to_ + new.length) (n - 1), buf j = write e.buf e.to_ new j) :
    read buf 0 (min (e.to_ + new.length) (n - 1)) = (urlEncoded done ++ new).take (n - 1) := by
  have hlt := h.to_lt hlen
  have hdone : read e.buf 0 e.to_ = urlEncoded done := by
    have hchars := h.chars
    rwa [Nat.min_eq_left (by omega), List.take_of_length_le (by rw [← h.to_]; omega)] at hchars
  have hall := read_write_append e.buf 0 e.to_ new
  rw [Nat.zero_add] at hall
  rw [← hdone, ← hall, take_read]
  apply read_congr
  intro i hi
  rw [Nat.zero_add]
  exact hbuf i hi

/-- **A character** takes one byte. -/
theorem Encoded.char (h : Encoded n e done) (hlen : e.len ≠ 0) {c : UInt8}
    (hc : c ≠ space) : Encoded n (httpEncodeChar e c) (done ++ [c]) := by
  have hlt := h.to_lt hlen
  have hsum := h.len
  have htop := h.top_le
  rw [httpEncodeChar, if_neg hc]
  refine ⟨?_, ?_, ?_, ?_⟩
  · rw [urlEncoded_append, urlEncoded_of_ne hc, List.length_append, h.to_]
    rfl
  · have hone : (e.len - 1).toNat = e.len.toNat - 1 := toNat_sub_one (by omega)
    show e.to_ + 1 + (e.len - 1).toNat = n
    omega
  · exact Nat.max_le.mpr ⟨htop, hlt⟩
  · rw [urlEncoded_append, urlEncoded_of_ne hc]
    refine h.chars_append hlen [c] fun j _ => ?_
    rw [write_cons, write_nil]

/-- **A space** takes three bytes, if they are there. -/
theorem Encoded.space (h : Encoded n e done) (hlen : 3 ≤ e.len.toNat) :
    Encoded n (httpEncodeChar e space) (done ++ [space]) := by
  have hne : e.len ≠ 0 := by
    intro hzero
    rw [hzero, BitVec.ofNat_eq_ofNat, BitVec.toNat_zero] at hlen
    omega
  have hsum := h.len
  have htop := h.top_le
  have hthree : escapedSpace.length = 3 := rfl
  rw [httpEncodeChar, if_pos rfl]
  refine ⟨?_, ?_, ?_, ?_⟩
  · rw [urlEncoded_append, urlEncoded_space, List.length_append, h.to_, hthree]
  · have hdiff : (e.len - 3).toNat = e.len.toNat - 3 := toNat_sub_ofNat hlen
    show e.to_ + 3 + (e.len - 3).toNat = n
    omega
  · refine Nat.max_le.mpr ⟨htop, ?_⟩
    omega
  · rw [urlEncoded_append, urlEncoded_space]
    refine h.chars_append hne escapedSpace fun j hj => ?_
    rw [hthree] at hj
    -- the NUL of `snprintf` is behind the three bytes, or in the last byte of the buffer
    rcases Nat.lt_or_ge j e.to_ with hbefore | hge
    · rw [write_apply_of_lt _ _ _ hbefore]
      exact snprintf_apply_of_lt e.buf _ _ hbefore
    · obtain ⟨i, rfl⟩ := Nat.exists_eq_add_of_le hge
      have hi : i < escapedSpace.length := by omega
      rw [write_apply_add _ _ _ hi]
      exact snprintf_apply_add e.buf e.to_ hi (by omega)

/-- **One round**, with room for what the character takes. -/
theorem Encoded.next (h : Encoded n e done) (hlen : e.len ≠ 0) {c : UInt8}
    (hroom : c = Libetk.space → 3 ≤ e.len.toNat) :
    Encoded n (httpEncodeChar e c) (done ++ [c]) := by
  by_cases hc : c = Libetk.space
  · have hthree := hroom hc
    subst hc
    exact h.space hthree
  · exact h.char hlen hc

/-- **The loop** encodes some of the text, all of it unless the buffer is full. -/
theorem Encoded.loop (from_ : List UInt8) : ∀ {e : Encoding w} {done : List UInt8},
    Encoded n e done → NoTightSpace n (done ++ from_) →
      ∃ done', Encoded n (httpEncodeLoop e from_) done' ∧ done' <+: done ++ from_ ∧
        ((httpEncodeLoop e from_).len = 0 ∨ done' = done ++ from_) := by
  induction from_ with
  | nil =>
    intro e done h _
    rw [List.append_nil]
    exact ⟨done, h, List.prefix_rfl, .inr rfl⟩
  | cons c from_ ih =>
    intro e done h htight
    have hsplit : done ++ c :: from_ = done ++ [c] ++ from_ := by
      rw [List.append_assoc, List.singleton_append]
    by_cases hlen : e.len = 0
    · rw [httpEncodeLoop, if_neg (not_not.mpr hlen)]
      exact ⟨done, h, List.prefix_append _ _, .inl hlen⟩
    · have hnext : Encoded n (httpEncodeChar e c) (done ++ [c]) := by
        refine h.next hlen ?_
        rintro rfl
        obtain ⟨hone, htwo⟩ := htight done from_ rfl
        have hto := h.to_
        have hsum := h.len
        have hlt := h.to_lt hlen
        omega
      rw [httpEncodeLoop, if_pos hlen, hsplit]
      exact ih hnext (hsplit ▸ htight)

/-- **The end** puts the NUL behind the text, or over its last character if the buffer is full. -/
theorem Encoded.encodes (h : Encoded n e done) (hn : 0 < n) {text : List UInt8}
    (htext : 0 ∉ text) (hdone : done <+: text) (hall : e.len = 0 ∨ done = text) :
    Encodes (httpEncodeEnd e).buf (httpEncodeEnd e).top n text := by
  have hsum := h.len
  have hto := h.to_
  have hend : (if e.len = 0 then e.to_ - 1 else e.to_) = min e.to_ (n - 1) := by
    split_ifs with hlen
    · rw [hlen, BitVec.ofNat_eq_ofNat, BitVec.toNat_zero] at hsum
      omega
    · have := h.to_lt hlen
      omega
  obtain ⟨rest, rfl⟩ := hdone
  have hlength : ((urlEncoded done).take (n - 1)).length = min e.to_ (n - 1) := by
    rw [List.length_take, hto, Nat.min_comm]
  rw [httpEncodeEnd]
  dsimp only
  rw [hend]
  refine ⟨?_, (urlEncoded done).take (n - 1), ?_, ?_, ?_, ?_⟩
  · have := h.top_le
    exact Nat.max_le.mpr ⟨this, by omega⟩
  · refine ⟨(urlEncoded done).drop (n - 1) ++ urlEncoded rest, ?_⟩
    rw [← List.append_assoc, List.take_append_drop, ← urlEncoded_append]
  · have hnul : 0 ∉ (urlEncoded done).take (n - 1) := fun hmem =>
      nul_notMem_urlEncoded (fun hzero => htext (List.mem_append_left _ hzero))
        (List.mem_of_mem_take hmem)
    have hchars : read e.buf 0 ((urlEncoded done).take (n - 1)).length
        = (urlEncoded done).take (n - 1) := by rw [hlength, h.chars]
    have hstring := stringAt_update hnul hchars hlength.ge
    rwa [List.take_of_length_le hlength.le, Nat.zero_add] at hstring
  · omega
  · intro hfits
    rcases hall with hlen | hall
    · -- a full buffer has no room for all of the text
      rw [hlen, BitVec.ofNat_eq_ofNat, BitVec.toNat_zero] at hsum
      rw [urlEncoded_append, List.length_append] at hfits
      omega
    · rw [← hall] at hfits ⊢
      exact List.take_of_length_le (by omega)

/-! ### A space with one or two bytes left -/

theorem top_le_httpEncodeChar (e : Encoding w) (c : UInt8) : e.top ≤ (httpEncodeChar e c).top := by
  unfold httpEncodeChar
  split_ifs
  · exact Nat.le_max_left _ _
  · exact Nat.le_max_left _ _

theorem top_le_httpEncodeLoop (from_ : List UInt8) :
    ∀ e : Encoding w, e.top ≤ (httpEncodeLoop e from_).top := by
  induction from_ with
  | nil => exact fun e => Nat.le_refl _
  | cons c from_ ih =>
    intro e
    rw [httpEncodeLoop]
    split_ifs
    · exact (top_le_httpEncodeChar e c).trans (ih _)
    · exact Nat.le_refl _

theorem top_le_httpEncodeEnd (e : Encoding w) : e.top ≤ (httpEncodeEnd e).top :=
  Nat.le_max_left _ _

/-- Whatever comes first, a character or the NUL, is stored at `to_`. -/
theorem to_lt_top (from_ : List UInt8) (hlen : e.len ≠ 0) :
    e.to_ < (httpEncodeEnd (httpEncodeLoop e from_)).top := by
  cases from_ with
  | nil =>
    show e.to_ < max e.top ((if e.len = 0 then e.to_ - 1 else e.to_) + 1)
    rw [if_neg hlen]
    omega
  | cons c from_ =>
    have hchar : e.to_ < (httpEncodeChar e c).top := by
      have hpos : e.len.toNat ≠ 0 := fun hzero => hlen (BitVec.eq_of_toNat_eq hzero)
      unfold httpEncodeChar
      split_ifs
      · show e.to_ < max e.top (e.to_ + min e.len.toNat 4)
        omega
      · show e.to_ < max e.top (e.to_ + 1)
        omega
    rw [httpEncodeLoop, if_pos hlen]
    exact hchar.trans_le ((top_le_httpEncodeLoop from_ _).trans (top_le_httpEncodeEnd _))

theorem sub_three_ne_zero (hw : 32 ≤ w) {len : BitVec w} (h : len.toNat < 3) : len - 3 ≠ 0 := by
  intro hzero
  have hthree : len = 3 := by
    rw [← BitVec.sub_add_cancel len 3, hzero]
    exact BitVec.zero_add 3
  have htoNat : len.toNat = 3 % 2 ^ w := congrArg BitVec.toNat hthree
  have hpow : 2 ^ 32 ≤ 2 ^ w := Nat.pow_le_pow_right (by omega) hw
  rw [Nat.mod_eq_of_lt (by omega)] at htoNat
  omega

/-- **The number of bytes that are left wraps**, and there is a store behind the buffer. -/
theorem Encoded.lt_top (hw : 32 ≤ w) (before after : List UInt8) :
    ∀ {e : Encoding w} {done : List UInt8}, Encoded n e done →
      ((urlEncoded (done ++ before)).length + 1 = n ∨
        (urlEncoded (done ++ before)).length + 2 = n) →
      n < (httpEncodeEnd (httpEncodeLoop e (before ++ Libetk.space :: after))).top := by
  induction before with
  | nil =>
    intro e done h htight
    rw [List.append_nil, ← h.to_] at htight
    have hsum := h.len
    have hlen : e.len ≠ 0 := h.len_ne_zero_iff.mpr (by omega)
    have hwrap : e.len - 3 ≠ 0 := sub_three_ne_zero hw (by omega)
    have hlt := to_lt_top (e := httpEncodeChar e Libetk.space) after hwrap
    have hthird : (httpEncodeChar e Libetk.space).to_ = e.to_ + 3 := rfl
    rw [List.nil_append, httpEncodeLoop, if_pos hlen]
    omega
  | cons c before ih =>
    intro e done h htight
    have hsplit : done ++ c :: before = done ++ [c] ++ before := by
      rw [List.append_assoc, List.singleton_append]
    rw [hsplit] at htight
    have hsum := h.len
    have hto := h.to_
    have hlonger : (urlEncoded (done ++ [c] ++ before)).length
        = e.to_ + (urlEncoded [c]).length + (urlEncoded before).length := by
      rw [urlEncoded_append, urlEncoded_append, List.length_append, List.length_append, hto]
    have hlen : e.len ≠ 0 := h.len_ne_zero_iff.mpr (by omega)
    have hnext : Encoded n (httpEncodeChar e c) (done ++ [c]) := by
      refine h.next hlen ?_
      rintro rfl
      have hthree : (urlEncoded [Libetk.space]).length = 3 := rfl
      omega
    rw [List.cons_append, httpEncodeLoop, if_pos hlen]
    exact ih hnext htight

/-- **`http_encode`.**  For every string and every buffer of at least one byte: it writes inside the
buffer only and leaves a string that ends there and is the beginning of the encoded text, all of it
if it fits, if and only if no space is met where one or two bytes are left.  It always ends. -/
theorem httpEncode_iff (hw : 32 ≤ w) (from_ : CString) (buf : ℕ → UInt8) {len : BitVec w}
    (hlen : 1 ≤ len.toNat) :
    let e := httpEncode from_ buf len
    Encodes e.buf e.top len.toNat from_.bytes ↔ NoTightSpace len.toNat from_.bytes := by
  have hstart : Encoded len.toNat ⟨buf, 0, len, 0⟩ [] := by
    refine ⟨rfl, Nat.zero_add _, Nat.zero_le _, ?_⟩
    rw [Nat.zero_min]
    exact List.take_nil.symm
  constructor
  · rintro ⟨htop, -⟩ before after heq
    have hlt := hstart.lt_top hw before after
    rw [← heq] at hlt
    refine ⟨fun hone => ?_, fun htwo => ?_⟩
    · exact absurd (hlt (.inl hone)) (Nat.not_lt.mpr htop)
    · exact absurd (hlt (.inr htwo)) (Nat.not_lt.mpr htop)
  · intro htight
    obtain ⟨done, hdone, hpart, hall⟩ := hstart.loop from_.bytes htight
    exact hdone.encodes hlen from_.nul_free hpart hall

/-- A space in the middle of a buffer that is large enough. -/
theorem httpEncode_space :
    let from_ : CString := ⟨ascii ['a', ' ', 'b'], by decide⟩
    let e := httpEncode (w := 32) from_ (fun _ => 0xff) 6
    Encodes e.buf e.top 6 from_.bytes ∧
      read e.buf 0 6 = ascii ['a', '%', '2', '0', 'b', '\x00'] := by
  intro from_ e
  have htight : NoTightSpace (6 : BitVec 32).toNat from_.bytes := by decide
  exact ⟨(httpEncode_iff (Nat.le_refl 32) from_ (fun _ => 0xff) (by decide)).mpr htight,
    by decide⟩

/-- One byte is left when the space is met: the NUL is stored at offset 4, in somebody else's
memory. -/
theorem httpEncode_past_buffer :
    let from_ : CString := ⟨ascii ['a', ' '], by decide⟩
    let e := httpEncode (w := 32) from_ (fun _ => 0xff) 2
    e.top = 5 ∧ read e.buf 0 5 = [0x61, 0x00, 0xff, 0xff, 0x00] ∧
      ¬ Encodes e.buf e.top 2 from_.bytes := by
  intro from_ e
  have htop : e.top = 5 := by decide
  refine ⟨htop, by decide, fun h => ?_⟩
  have := h.top_le
  omega

end Neufbox.Libetk
