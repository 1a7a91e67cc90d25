import Neufbox.LanTopology.Ssdp

/-!
# What an SSDP announcement depends on

`ssdp_event` takes the buffer for a string, which ends with the datagram only if there is a NUL in
it.  It looks at no more lines when it has both headers, so that a datagram which has them in lines
that end inside is safe; with any other the lines behind it are looked at, and a value there may be
too long for `buf2`, as one in the datagram may be.  `ssdp_depends_iff` says which datagrams are
handled the same way whatever the stack held.
-/

namespace Neufbox.LanTopology

open CharBuffers Tokens

/-! ### The condition -/

/-- What is behind the datagram: the rest of the buffer, and a NUL at some place. -/
def RealStack (datagram stack : List Char) : Prop :=
  nul ∈ stack ∧ sizeofBuf ≤ datagram.length + stack.length

/-- The lines that end inside the datagram. -/
def lines (datagram : List Char) : List (List Char) := (tokens nul lineSep [] datagram).1

/-- One of the lines is a header with the name. -/
def HasHeader (s : String) (lines : List (List Char)) : Prop :=
  ∃ line ∈ lines, ∃ header ∈ scanHeader line, sameName (strtrim header.1) s

/-- The value of the header, if the line is one, has room in `buf2`. -/
def Short (line : List Char) : Prop := ∀ header ∈ scanHeader line, header.2.length < sizeofBuf2

/-- The condition for a datagram: it can be told from `NOTIFY`, and if it starts with it, it has a
NUL or both headers in lines that end inside, and the values up to there are short. -/
def FitsSsdp (datagram : List Char) : Prop :=
  ¬datagram <+: "NOTIFY".toList ∧
    ("NOTIFY".toList <+: datagram →
      (nul ∈ datagram ∨ HasHeader "nt" (lines datagram) ∧ HasHeader "nts" (lines datagram)) ∧
      ∀ before line after, lines datagram = before ++ line :: after →
        ¬(HasHeader "nt" before ∧ HasHeader "nts" before) → Short line)

/-! ### The loop -/

/-- Both headers are there, or in the lines. -/
def Found (nt nts : Option (List Char)) (lines : List (List Char)) : Prop :=
  (nt.isSome ∨ HasHeader "nt" lines) ∧ (nts.isSome ∨ HasHeader "nts" lines)

section

variable {nt nts : Option (List Char)} {line : List Char} {lines : List (List Char)}

theorem hasHeader_nil (s : String) : ¬HasHeader s [] := by
  rintro ⟨line, hline, -⟩
  exact List.not_mem_nil hline

theorem hasHeader_cons {s : String} :
    HasHeader s (line :: lines) ↔
      (∃ header ∈ scanHeader line, sameName (strtrim header.1) s) ∨ HasHeader s lines := by
  simp [HasHeader]

theorem found_cons_of_none (h : scanHeader line = none) :
    Found nt nts (line :: lines) ↔ Found nt nts lines := by
  simp [Found, hasHeader_cons, h]

theorem isSome_noteHeader_fst (nt nts : Option (List Char)) (name value : List Char) :
    (noteHeader nt nts name value).1.isSome ↔ nt.isSome ∨ sameName name "nt" := by
  unfold noteHeader
  cases nt <;> split_ifs <;> simp_all

theorem isSome_noteHeader_snd (nt nts : Option (List Char)) (name value : List Char) :
    (noteHeader nt nts name value).2.isSome ↔ nts.isSome ∨ sameName name "nts" := by
  have hdiff : sameName name "nt" = true → sameName name "nts" = false := by
    intro h
    simp only [sameName, decide_eq_true_eq] at h
    simp only [sameName, h]
    decide
  unfold noteHeader
  cases nts <;> split_ifs <;> simp_all

theorem found_cons_of_some {name value : List Char} (h : scanHeader line = some (name, value)) :
    Found nt nts (line :: lines) ↔
      Found (noteHeader nt nts (strtrim name) (strtrim value)).1
        (noteHeader nt nts (strtrim name) (strtrim value)).2 lines := by
  simp [Found, hasHeader_cons, h, isSome_noteHeader_fst, isSome_noteHeader_snd, or_assoc]

theorem notifyLoop_cons_of_none (h : scanHeader line = none) (ended : Bool) :
    notifyLoop nt nts ended (line :: lines) = notifyLoop nt nts ended lines := by
  rw [notifyLoop, h]

theorem notifyLoop_cons_of_some {name value : List Char} (h : scanHeader line = some (name, value))
    (ended : Bool) :
    notifyLoop nt nts ended (line :: lines) =
      if sizeofBuf2 < value.length + 1 then none
      else
        let noted := noteHeader nt nts (strtrim name) (strtrim value)
        if noted.1.isSome ∧ noted.2.isSome then some noted
        else notifyLoop noted.1 noted.2 ended lines := by
  rw [notifyLoop, h]

/-- A condition on the lines that have certain lines before them, line by line. -/
theorem forall_split_cons {F : List (List Char) → Prop} {S : List Char → Prop} :
    (∀ before l after, line :: lines = before ++ l :: after → ¬F before → S l) ↔
      (¬F [] → S line) ∧
        ∀ before l after, lines = before ++ l :: after → ¬F (line :: before) → S l := by
  constructor
  · intro h
    refine ⟨h [] line lines rfl, ?_⟩
    rintro before l after rfl
    exact h (line :: before) l after rfl
  · rintro ⟨hline, hlines⟩ (- | ⟨first, before⟩) l after heq
    · obtain ⟨rfl, -⟩ := List.cons.inj heq
      exact hline
    · obtain ⟨rfl, rfl⟩ := List.cons.inj heq
      exact hlines before l after rfl

/-- The loop comes to its end exactly if the string does or both headers are found, and the values
up to there are short. -/
theorem isSome_notifyLoop (hfirst : ¬(nt.isSome ∧ nts.isSome)) (ended : Bool) :
    (notifyLoop nt nts ended lines).isSome ↔
      (ended = true ∨ Found nt nts lines) ∧
        ∀ before l after, lines = before ++ l :: after → ¬Found nt nts before → Short l := by
  have hnil : ∀ {nt nts : Option (List Char)}, ¬(nt.isSome ∧ nts.isSome) → ¬Found nt nts [] := by
    intro nt nts h hfound
    exact h ⟨hfound.1.resolve_right (hasHeader_nil _), hfound.2.resolve_right (hasHeader_nil _)⟩
  induction lines generalizing nt nts with
  | nil => cases ended <;> simp [notifyLoop, hnil hfirst]
  | cons line lines ih =>
    rw [forall_split_cons]
    cases hscan : scanHeader line with
    | none =>
      have hshort : Short line := by simp [Short, hscan]
      simp only [notifyLoop_cons_of_none hscan, ih hfirst, found_cons_of_none hscan, hshort,
        imp_true_iff, true_and]
    | some header =>
      obtain ⟨name, value⟩ := header
      have hshort : Short line ↔ value.length < sizeofBuf2 := by simp [Short, hscan]
      simp only [notifyLoop_cons_of_some hscan, found_cons_of_some hscan, hshort, hnil hfirst,
        not_false_iff, true_imp_iff]
      split_ifs with hlong hboth
      · exact iff_of_false (by simp) fun h => absurd h.2.1 (by omega)
      · have hfound : ∀ lines, Found (noteHeader nt nts (strtrim name) (strtrim value)).1
            (noteHeader nt nts (strtrim name) (strtrim value)).2 lines :=
          fun _ => ⟨.inl hboth.1, .inl hboth.2⟩
        exact iff_of_true rfl ⟨.inr (hfound lines), by omega,
          fun before _ _ _ hnot => absurd (hfound before) hnot⟩
      · have hlt : value.length < sizeofBuf2 := by omega
        exact (ih hboth).trans (and_congr_right' (and_iff_right hlt).symm)

/-- What was found does not change with more lines. -/
theorem notifyLoop_append {result : Option (List Char) × Option (List Char)}
    (h : notifyLoop nt nts false lines = some result) (ended : Bool) (more : List (List Char)) :
    notifyLoop nt nts ended (lines ++ more) = some result := by
  induction lines generalizing nt nts with
  | nil => exact absurd h (by simp [notifyLoop])
  | cons line lines ih =>
    rw [List.cons_append]
    cases hscan : scanHeader line with
    | none =>
      rw [notifyLoop_cons_of_none hscan] at h ⊢
      exact ih h
    | some header =>
      rw [notifyLoop_cons_of_some hscan] at h ⊢
      dsimp only at h ⊢
      split_ifs at h ⊢ with hlong hboth
      · exact h
      · exact ih h

/-- Otherwise there is no way to come to an end, or the loop goes on. -/
theorem notifyLoop_append_of_none (h : notifyLoop nt nts false lines = none) :
    (∀ ended more, notifyLoop nt nts ended (lines ++ more) = none) ∨
      ∃ nt' nts', ∀ ended more,
        notifyLoop nt nts ended (lines ++ more) = notifyLoop nt' nts' ended more := by
  induction lines generalizing nt nts with
  | nil => exact .inr ⟨nt, nts, fun _ _ => rfl⟩
  | cons line lines ih =>
    simp only [List.cons_append]
    cases hscan : scanHeader line with
    | none =>
      rw [notifyLoop_cons_of_none hscan] at h
      simp only [notifyLoop_cons_of_none hscan]
      exact ih h
    | some header =>
      rw [notifyLoop_cons_of_some hscan] at h
      simp only [notifyLoop_cons_of_some hscan]
      dsimp only at h ⊢
      split_ifs at h ⊢ with hlong hboth
      · exact .inl fun _ _ => rfl
      · exact ih h

end

/-! ### Stacks that are too long -/

theorem scanHeader_eq_some {line name value : List Char} :
    scanHeader line = some (name, value) ↔
      ∃ rest, line = name ++ ':' :: rest ∧ name ≠ [] ∧ name.length ≤ 15 ∧ ':' ∉ name ∧
        value = (rest.takeWhile fun c => !lineSep c).take 127 ∧ value ≠ [] := by
  unfold scanHeader
  dsimp only
  constructor
  · intro h
    split_ifs at h with hname
    cases hdrop : line.drop ((line.takeWhile (· ≠ ':')).take 15).length with
    | nil =>
      rw [hdrop] at h
      exact nomatch h
    | cons c rest =>
      simp only [hdrop] at h
      split_ifs at h with hcolon hvalue
      obtain ⟨rfl, rfl⟩ := Prod.mk.inj (Option.some.inj h)
      have hbegins : (line.takeWhile (· ≠ ':')).take 15 <+: line :=
        (List.take_prefix ..).trans (List.takeWhile_prefix _)
      refine ⟨rest, ?_, hname, List.length_take_le .., fun hmem => ?_, rfl, hvalue⟩
      · calc line
            = line.take ((line.takeWhile (· ≠ ':')).take 15).length ++
                line.drop ((line.takeWhile (· ≠ ':')).take 15).length :=
              (List.take_append_drop ..).symm
          _ = (line.takeWhile (· ≠ ':')).take 15 ++ ':' :: rest := by
            rw [← List.prefix_iff_eq_take.mp hbegins, hdrop, hcolon]
      · exact absurd (List.mem_takeWhile_imp (List.mem_of_mem_take hmem)) (by simp)
  · rintro ⟨rest, rfl, hname, hle, hcolon, rfl, hvalue⟩
    have hwhile : (name ++ ':' :: rest).takeWhile (· ≠ ':') = name := by
      rw [List.takeWhile_append_of_pos fun c hc => by simpa using ne_of_mem_of_not_mem hc hcolon,
        List.takeWhile_cons_of_neg (by simp), List.append_nil]
    rw [hwhile, List.take_of_length_le hle, if_neg hname, List.drop_left]
    simp [hvalue]

/-- The characters of a word can be checked one by one. -/
theorem word_of_all {word : List Char} (h : (word.all fun c => c ≠ nul && !lineSep c) = true) :
    ∀ c ∈ word, c ≠ nul ∧ lineSep c = false := by
  simpa [List.all_eq_true] using h

/-- Sixty-four characters. -/
def filler : List Char := List.replicate sizeofBuf2 'a'

theorem word_filler : ∀ c ∈ filler, c ≠ nul ∧ lineSep c = false := word_of_all (by decide)

/-- The value of a header that goes on is too long. -/
theorem scanHeader_append_filler {line : List Char} (hline : ∀ c ∈ line, lineSep c = false)
    {header : List Char × List Char} (h : scanHeader line = some header) :
    ∃ value, scanHeader (line ++ filler) = some (header.1, value) ∧ sizeofBuf2 ≤ value.length := by
  obtain ⟨name, value⟩ := header
  obtain ⟨rest, rfl, hne, hle, hcolon, -, -⟩ := scanHeader_eq_some.mp h
  have hwhile : ((rest ++ filler).takeWhile fun c => !lineSep c) = rest ++ filler := by
    rw [List.takeWhile_eq_self_iff]
    intro c hc
    rcases List.mem_append.mp hc with hc | hc
    · simp [hline c (by simp [hc])]
    · simp [(word_filler c hc).2]
  have hlength : sizeofBuf2 ≤ ((rest ++ filler).take 127).length := by
    rw [List.length_take, List.length_append, filler, List.length_replicate, sizeofBuf2]
    omega
  refine ⟨(rest ++ filler).take 127, scanHeader_eq_some.mpr ⟨rest ++ filler, by simp, hne, hle,
    hcolon, by rw [hwhile], ?_⟩, hlength⟩
  intro hnil
  rw [hnil] at hlength
  exact absurd hlength (by decide)

theorem notifyLoop_of_overlong {nt nts : Option (List Char)} {line name value : List Char}
    (h : scanHeader line = some (name, value)) (hle : sizeofBuf2 ≤ value.length) (ended : Bool)
    (lines : List (List Char)) : notifyLoop nt nts ended (line :: lines) = none := by
  rw [notifyLoop_cons_of_some h, if_pos (by omega)]

/-- A stack of NULs. -/
def zeros : List Char := nul :: List.replicate sizeofBuf nul

theorem realStack_append_zeros (datagram word : List Char) :
    RealStack datagram (word ++ zeros) := by
  refine ⟨by simp [zeros], ?_⟩
  rw [List.length_append, zeros, List.length_cons, List.length_replicate]
  omega

theorem tokens_zeros (token : List Char) : tokens nul lineSep token zeros = (emit token [], true) :=
  if_pos rfl

/-- Whatever was read of a line, there is a stack with a value that is too long. -/
theorem exists_overlong (datagram : List Char) {token : List Char}
    (htoken : ∀ c ∈ token, lineSep c = false) (nt nts : Option (List Char)) :
    ∃ stack, RealStack datagram stack ∧
      notifyLoop nt nts (tokens nul lineSep token stack).2 (tokens nul lineSep token stack).1
        = none := by
  cases hscan : scanHeader token with
  | some header =>
    -- The line goes on.
    obtain ⟨value, hvalue, hle⟩ := scanHeader_append_filler htoken hscan
    refine ⟨filler ++ zeros, realStack_append_zeros datagram filler, ?_⟩
    rw [tokens_word word_filler, tokens_zeros, emit, if_neg (by simp [filler, sizeofBuf2])]
    exact notifyLoop_of_overlong hvalue hle _ _
  | none =>
    -- The line ends, and another one follows.
    have hnext : scanHeader ("x:".toList ++ filler) = some (['x'], filler) := by decide
    have hword : tokens nul lineSep [] (("x:".toList ++ filler) ++ zeros)
        = (["x:".toList ++ filler], true) := by
      rw [tokens_word (word_of_all (by decide)), tokens_zeros]
      rfl
    refine ⟨'\n' :: ("x:".toList ++ filler) ++ zeros, realStack_append_zeros _ _, ?_⟩
    rw [List.cons_append, tokens, if_neg (by decide), if_pos (by decide), hword, emit]
    split_ifs
    · exact notifyLoop_of_overlong hnext le_rfl _ _
    · rw [notifyLoop_cons_of_none hscan]
      exact notifyLoop_of_overlong hnext le_rfl _ _

/-! ### Datagrams -/

theorem notify_isPrefixOf {buf : List Char} :
    "NOTIFY".toList.isPrefixOf buf = true ↔ "NOTIFY".toList <+: buf :=
  List.isPrefixOf_iff_prefix

section

variable {ip2mac : String → Option String} {ipaddr : String} {datagram : List Char}

/-- A datagram that is neither the beginning of `NOTIFY` nor begins with it. -/
theorem ssdpEvent_of_not_prefix (h : ¬datagram <+: "NOTIFY".toList)
    (h' : ¬"NOTIFY".toList <+: datagram) (stack : List Char) :
    ssdpEvent ip2mac ipaddr datagram stack = some [] := by
  refine if_neg fun hbegins => ?_
  rcases List.prefix_or_prefix_of_prefix (List.prefix_append datagram stack)
    (notify_isPrefixOf.mp hbegins) with hle | hle
  exacts [h hle, h' hle]

end

/-- What the loop gives for a buffer. -/
def notifyHeaders (buf : List Char) : Option (Option (List Char) × Option (List Char)) :=
  notifyLoop none none (tokens nul lineSep [] buf).2 (tokens nul lineSep [] buf).1

theorem ssdpNotifyEvent_eq (ip2mac : String → Option String) (ipaddr : String) (buf : List Char) :
    ssdpNotifyEvent ip2mac ipaddr buf = (notifyHeaders buf).map (announce ip2mac ipaddr) := rfl

section

variable {datagram : List Char}

theorem isSome_notifyHeaders :
    (notifyHeaders datagram).isSome ↔
      (nul ∈ datagram ∨ HasHeader "nt" (lines datagram) ∧ HasHeader "nts" (lines datagram)) ∧
      ∀ before line after, lines datagram = before ++ line :: after →
        ¬(HasHeader "nt" before ∧ HasHeader "nts" before) → Short line := by
  rw [notifyHeaders, isSome_notifyLoop (by simp), tokens_snd]
  simp [Found, lines]

/-- Headers that are found inside the datagram are found whatever is behind it. -/
theorem notifyHeaders_append {headers : Option (List Char) × Option (List Char)}
    (h : notifyHeaders datagram = some headers) (stack : List Char) :
    notifyHeaders (datagram ++ stack) = some headers := by
  by_cases hnul : nul ∈ datagram
  · rwa [notifyHeaders, tokens_append_of_mem hnul]
  · rw [notifyHeaders, tokens_snd, decide_eq_false hnul] at h
    rw [notifyHeaders, tokens_append hnul]
    exact notifyLoop_append h _ _

/-- Otherwise a value that is too long may be there. -/
theorem exists_notifyHeaders_none (h : notifyHeaders datagram = none) :
    ∃ stack, RealStack datagram stack ∧ notifyHeaders (datagram ++ stack) = none := by
  by_cases hnul : nul ∈ datagram
  · exact ⟨[] ++ zeros, realStack_append_zeros _ _,
      by rwa [notifyHeaders, tokens_append_of_mem hnul]⟩
  · rw [notifyHeaders, tokens_snd, decide_eq_false hnul] at h
    have hpending : ∀ c ∈ pending lineSep [] datagram, lineSep c = false :=
      not_sep_of_mem_pending (by simp)
    simp only [notifyHeaders, tokens_append hnul]
    rcases notifyLoop_append_of_none h with hnone | ⟨nt, nts, heq⟩
    · exact ⟨[] ++ zeros, realStack_append_zeros _ _, hnone _ _⟩
    · obtain ⟨stack, hreal, hnone⟩ := exists_overlong datagram hpending nt nts
      exact ⟨stack, hreal, (heq _ _).trans hnone⟩

/-- The beginning of `NOTIFY` may go on with the rest of it, and with a value that is too long. -/
theorem exists_notify_none (h : datagram <+: "NOTIFY".toList) :
    ∃ stack, RealStack datagram stack ∧ "NOTIFY".toList <+: datagram ++ stack ∧
      notifyHeaders (datagram ++ stack) = none := by
  obtain ⟨rest, hrest⟩ := h
  have hword : ∀ c ∈ "NOTIFY".toList, c ≠ nul ∧ lineSep c = false :=
    word_of_all (by decide)
  obtain ⟨stack, hreal, hnone⟩ := exists_overlong datagram (fun c hc => (hword c hc).2) none none
  refine ⟨rest ++ stack, ⟨List.mem_append_right rest hreal.1, ?_⟩, ?_⟩
  · have := hreal.2
    rw [List.length_append]
    omega
  · rw [← List.append_assoc, hrest, notifyHeaders, tokens_word hword, List.nil_append]
    exact ⟨List.prefix_append _ _, hnone⟩

end

/-- **What an announcement depends on**: a datagram is handled the same way with any stack, and no
value is too long for its buffer, exactly if it meets the condition. -/
theorem ssdp_depends_iff (ip2mac : String → Option String) (ipaddr : String)
    (datagram : List Char) :
    (∃ requests, ∀ stack, RealStack datagram stack →
      ssdpEvent ip2mac ipaddr datagram stack = some requests) ↔ FitsSsdp datagram := by
  constructor
  · rintro ⟨requests, h⟩
    have hevent : ∀ stack, RealStack datagram stack → "NOTIFY".toList <+: datagram ++ stack →
        notifyHeaders (datagram ++ stack) ≠ none := by
      intro stack hreal hbegins hnone
      have heq := h stack hreal
      rw [ssdpEvent, if_pos (notify_isPrefixOf.mpr hbegins), ssdpNotifyEvent_eq, hnone] at heq
      exact nomatch heq
    refine ⟨fun hbegins => ?_, fun hbegins => isSome_notifyHeaders.mp ?_⟩
    · obtain ⟨stack, hreal, hnotify, hnone⟩ := exists_notify_none hbegins
      exact hevent stack hreal hnotify hnone
    · rw [← Option.ne_none_iff_isSome]
      intro hnone
      obtain ⟨stack, hreal, hnone⟩ := exists_notifyHeaders_none hnone
      exact hevent stack hreal (hbegins.trans (List.prefix_append _ _)) hnone
  · rintro ⟨hshort, hnotify⟩
    by_cases hbegins : "NOTIFY".toList <+: datagram
    · obtain ⟨headers, hheaders⟩ :=
        Option.isSome_iff_exists.mp (isSome_notifyHeaders.mpr (hnotify hbegins))
      refine ⟨announce ip2mac ipaddr headers, fun stack _ => ?_⟩
      have hbegins' := hbegins.trans (List.prefix_append datagram stack)
      rw [ssdpEvent, if_pos (notify_isPrefixOf.mpr hbegins'), ssdpNotifyEvent_eq,
        notifyHeaders_append hheaders, Option.map_some]
    · exact ⟨[], fun stack _ => ssdpEvent_of_not_prefix hshort hbegins stack⟩

/-- An announcement, without a NUL or an end of line after it. -/
def announcement : List Char :=
  "NOTIFY * HTTP/1.1\r\nNT: urn:neufboxtv-org:device:SetTopBox:1\r\nNTS: ssdp:alive".toList

/-- What is behind it decides whether the box is registered, and a longer value of a header is
stored past the end of its buffer. -/
theorem announcement_depends_on_stack :
    ssdpEvent (fun _ => some "00:17:33:00:00:01") "192.168.1.20" announcement zeros
      = some [.lanIp2mac "192.168.1.20", .stbAdd "00:17:33:00:00:01" "192.168.1.20" ""] ∧
    ssdpEvent (fun _ => some "00:17:33:00:00:01") "192.168.1.20" announcement ('!' :: zeros)
      = some [] ∧
    ssdpEvent (fun _ => some "00:17:33:00:00:01") "192.168.1.20"
        ("NOTIFY\r\nx:".toList ++ filler ++ [nul]) zeros
      = none := by
  decide

end Neufbox.LanTopology
