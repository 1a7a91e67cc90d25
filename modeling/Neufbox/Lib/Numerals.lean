import Mathlib.Data.List.TakeWhile
import Mathlib.Tactic.Common

/-!
# Numbers in formatted input

`sscanf` with a format of numbers, each of at most `width` digits, and a separator between them.
What a conversion leaves unread is looked at by the next part of the format only, so that a text is
described together with what follows it: reading stops behind a number that has `width` digits, or
that is followed by something else than a digit (`Stops`).

A conversion skips blanks and accepts a sign, or a prefix of the base.  On texts over an alphabet
without those it reads digits, and nothing but digits (`Converts`).

* `Converts.eq_some_iff`: what one conversion reads;
* `scanFields_eq_some_iff`: what the whole format reads, as texts with separators between them.
-/

namespace Neufbox.Numerals

variable {β : Type}

/-- The digits at the beginning of a text, at most `width` of them. -/
def takeDigits (digit : Char → Bool) (width : ℕ) (cs : List Char) : List Char :=
  (cs.take width).takeWhile digit

/-- A number of at most `width` digits. -/
structure IsNumber (digit : Char → Bool) (width : ℕ) (ds : List Char) : Prop where
  ne_nil : ds ≠ []
  digits : ∀ c ∈ ds, digit c = true
  length_le : ds.length ≤ width

/-- Reading stops behind the digits: there are `width` of them, or no other one follows. -/
def Stops (digit : Char → Bool) (width : ℕ) (ds rest : List Char) : Prop :=
  ds.length = width ∨ ∀ c ∈ rest.head?, digit c = false

/-- A separator of the format. -/
def expect (sep : Char) : List Char → Option (List Char)
  | [] => none
  | c :: cs => if c = sep then some cs else none

/-- `sscanf` with one conversion, and `n` more of them behind a separator each: the values, and what
is left unread. -/
def scanFields (conv : List Char → Option (β × List Char)) (sep : Char) :
    ℕ → List Char → Option (List β × List Char)
  | 0, cs => (conv cs).map fun (v, cs) => ([v], cs)
  | n + 1, cs => do
    let (v, cs) ← conv cs
    let cs ← expect sep cs
    let (vs, cs) ← scanFields conv sep n cs
    some (v :: vs, cs)

/-! ### One number -/

section

variable {digit : Char → Bool} {width : ℕ} {cs ds rest : List Char}

theorem takeDigits_append (hds : ∀ c ∈ ds, digit c = true) (hlength : ds.length ≤ width)
    (hstops : Stops digit width ds rest) : takeDigits digit width (ds ++ rest) = ds := by
  have htake : (ds ++ rest).take width = ds ++ rest.take (width - ds.length) := by
    rw [List.take_append, List.take_of_length_le hlength]
  have hrest : (rest.take (width - ds.length)).takeWhile digit = [] := by
    rcases hstops with heq | hhead
    · rw [heq, Nat.sub_self, List.take_zero, List.takeWhile_nil]
    · cases rest with
      | nil => rw [List.take_nil, List.takeWhile_nil]
      | cons c rest =>
        have hc : digit c = false := hhead c rfl
        cases width - ds.length with
        | zero => rw [List.take_zero, List.takeWhile_nil]
        | succ k => rw [List.take_succ_cons, List.takeWhile_cons_of_neg (by simp [hc])]
  rw [takeDigits, htake, List.takeWhile_append_of_pos hds, hrest, List.append_nil]

theorem length_takeDigits_le (digit : Char → Bool) (width : ℕ) (cs : List Char) :
    (takeDigits digit width cs).length ≤ width :=
  (List.takeWhile_prefix digit).length_le.trans (List.length_take_le width cs)

/-- The text is the digits and what is behind them. -/
theorem takeDigits_append_drop (digit : Char → Bool) (width : ℕ) (cs : List Char) :
    takeDigits digit width cs ++ cs.drop (takeDigits digit width cs).length = cs := by
  have hstart : takeDigits digit width cs <+: cs :=
    (List.takeWhile_prefix digit).trans (List.take_prefix width cs)
  exact List.prefix_iff_eq_append.mp hstart

/-- What is behind the digits, when they are taken off the first `width` characters. -/
theorem dropWhile_take_append_drop (digit : Char → Bool) (width : ℕ) (cs : List Char) :
    (cs.take width).dropWhile digit ++ cs.drop width
      = cs.drop (takeDigits digit width cs).length := by
  have happend : takeDigits digit width cs ++ ((cs.take width).dropWhile digit ++ cs.drop width)
      = takeDigits digit width cs ++ cs.drop (takeDigits digit width cs).length := by
    rw [takeDigits_append_drop, takeDigits, ← List.append_assoc, List.takeWhile_append_dropWhile,
      List.take_append_drop]
  exact List.append_cancel_left happend

theorem stops_takeDigits (digit : Char → Bool) (width : ℕ) (cs : List Char) :
    Stops digit width (takeDigits digit width cs)
      (cs.drop (takeDigits digit width cs).length) := by
  induction cs generalizing width with
  | nil => exact .inr (by simp)
  | cons c cs ih =>
    cases width with
    | zero => exact .inl rfl
    | succ width =>
      by_cases hc : digit c = true
      · have hcons : takeDigits digit (width + 1) (c :: cs) = c :: takeDigits digit width cs :=
          List.takeWhile_cons_of_pos hc
        rw [hcons]
        rcases ih width with heq | hhead
        · exact .inl (congrArg (· + 1) heq)
        · exact .inr hhead
      · have hnil : takeDigits digit (width + 1) (c :: cs) = [] :=
          List.takeWhile_cons_of_neg hc
        rw [hnil]
        refine .inr fun c' hc' => ?_
        obtain rfl := Option.some.inj hc'
        exact Bool.eq_false_iff.mpr hc

end

/-- On texts over the alphabet, the conversion reads a number of at most `width` digits. -/
def Converts (alphabet : Char → Prop) (conv : List Char → Option (β × List Char))
    (digit : Char → Bool) (width : ℕ) (value : List Char → β) : Prop :=
  ∀ cs, (∀ c ∈ cs, alphabet c) →
    conv cs = if takeDigits digit width cs = [] then none
      else some (value (takeDigits digit width cs),
        cs.drop (takeDigits digit width cs).length)

section

variable {alphabet : Char → Prop} {conv : List Char → Option (β × List Char)}
  {digit : Char → Bool} {width : ℕ} {value : List Char → β} {cs rest : List Char}

/-- **One conversion** reads the digits up to where it stops. -/
theorem Converts.eq_some_iff (h : Converts alphabet conv digit width value)
    (hcs : ∀ c ∈ cs, alphabet c) {v : β} :
    conv cs = some (v, rest) ↔
      ∃ ds, cs = ds ++ rest ∧ IsNumber digit width ds ∧ Stops digit width ds rest ∧
        value ds = v := by
  rw [h cs hcs]
  constructor
  · intro heq
    split_ifs at heq with hnil
    obtain ⟨rfl, rfl⟩ := Prod.mk.inj (Option.some.inj heq)
    refine ⟨_, (takeDigits_append_drop digit width cs).symm, ⟨hnil, ?_, ?_⟩,
      stops_takeDigits digit width cs, rfl⟩
    · exact fun c hc => List.mem_takeWhile_imp hc
    · exact length_takeDigits_le digit width cs
  · rintro ⟨ds, rfl, hnumber, hstops, rfl⟩
    rw [takeDigits_append hnumber.digits hnumber.length_le hstops, if_neg hnumber.ne_nil,
      List.drop_left]

/-! ### The format -/

theorem expect_eq_some_iff {sep : Char} {cs' : List Char} :
    expect sep cs = some cs' ↔ cs = sep :: cs' := by
  cases cs with
  | nil => simp [expect]
  | cons c cs =>
    rw [expect]
    split_ifs with hc
    · rw [hc, Option.some.injEq, List.cons.injEq, eq_self_iff_true, true_and]
    · simp [hc]

theorem scanFields_zero_eq_some_iff {sep : Char} {vs : List β} :
    scanFields conv sep 0 cs = some (vs, rest) ↔ ∃ v, conv cs = some (v, rest) ∧ [v] = vs := by
  rw [scanFields, Option.map_eq_some_iff]
  constructor
  · rintro ⟨⟨v, rest'⟩, hconv, heq⟩
    obtain ⟨hvs, rfl⟩ := Prod.mk.inj heq
    exact ⟨v, hconv, hvs⟩
  · rintro ⟨v, hconv, rfl⟩
    exact ⟨(v, rest), hconv, rfl⟩

/-- A format with more than one conversion. -/
theorem scanFields_succ_eq_some_iff {sep : Char} {n : ℕ} {vs : List β} :
    scanFields conv sep (n + 1) cs = some (vs, rest) ↔
      ∃ v cs' vs', conv cs = some (v, sep :: cs') ∧
        scanFields conv sep n cs' = some (vs', rest) ∧ v :: vs' = vs := by
  rw [scanFields]
  constructor
  · intro h
    obtain ⟨⟨v, cs₁⟩, hconv, h⟩ := Option.bind_eq_some_iff.mp h
    obtain ⟨cs₂, hexpect, h⟩ := Option.bind_eq_some_iff.mp h
    obtain ⟨⟨vs', rest'⟩, hfields, h⟩ := Option.bind_eq_some_iff.mp h
    obtain ⟨hvs, rfl⟩ := Prod.mk.inj (Option.some.inj h)
    rw [expect_eq_some_iff.mp hexpect] at hconv
    exact ⟨v, cs₂, vs', hconv, hfields, hvs⟩
  · rintro ⟨v, cs', vs', hconv, hfields, rfl⟩
    have hexpect : expect sep (sep :: cs') = some cs' := expect_eq_some_iff.mpr rfl
    rw [hconv, Option.bind_eq_bind, Option.bind_some]
    dsimp only
    rw [hexpect, Option.bind_eq_bind, Option.bind_some, hfields, Option.bind_eq_bind,
      Option.bind_some]

theorem length_of_scanFields {sep : Char} {n : ℕ} {vs : List β}
    (h : scanFields conv sep n cs = some (vs, rest)) : vs.length = n + 1 := by
  induction n generalizing cs vs with
  | zero =>
    obtain ⟨v, -, rfl⟩ := scanFields_zero_eq_some_iff.mp h
    rfl
  | succ n ih =>
    obtain ⟨v, cs', vs', -, hfields, rfl⟩ := scanFields_succ_eq_some_iff.mp h
    rw [List.length_cons, ih hfields]

theorem mem_intercalate {sep c : Char} {gs : List (List Char)} (h : c ∈ [sep].intercalate gs) :
    c = sep ∨ ∃ g ∈ gs, c ∈ g := by
  induction gs with
  | nil => exact nomatch h
  | cons g gs ih =>
    cases gs with
    | nil =>
      rw [List.intercalate_singleton] at h
      exact .inr ⟨g, List.mem_singleton_self g, h⟩
    | cons g' gs =>
      rw [List.intercalate_cons_cons, List.mem_append, List.mem_append, List.mem_singleton] at h
      rcases h with (h | rfl) | h
      · exact .inr ⟨g, List.mem_cons_self .., h⟩
      · exact .inl rfl
      · rcases ih h with rfl | ⟨g'', hg'', hc⟩
        · exact .inl rfl
        · exact .inr ⟨g'', List.mem_cons_of_mem _ hg'', hc⟩

/-- The text is that of `n + 1` numbers with the separator between them, and `rest` behind the last
one. -/
structure Fields (digit : Char → Bool) (width : ℕ) (sep : Char) (n : ℕ) (gs : List (List Char))
    (cs rest : List Char) : Prop where
  length : gs.length = n + 1
  text : cs = [sep].intercalate gs ++ rest
  numbers : ∀ g ∈ gs, IsNumber digit width g
  stops : ∀ g ∈ gs.getLast?, Stops digit width g rest

theorem fields_zero_iff {sep : Char} {gs : List (List Char)} :
    Fields digit width sep 0 gs cs rest ↔
      ∃ g, gs = [g] ∧ cs = g ++ rest ∧ IsNumber digit width g ∧ Stops digit width g rest := by
  constructor
  · rintro ⟨hlength, htext, hnumbers, hstops⟩
    obtain ⟨g, rfl⟩ := List.length_eq_one_iff.mp hlength
    rw [List.intercalate_singleton] at htext
    exact ⟨g, rfl, htext, hnumbers g (List.mem_singleton_self g), hstops g rfl⟩
  · rintro ⟨g, rfl, rfl, hnumber, hstops⟩
    refine ⟨rfl, ?_, List.forall_mem_singleton.mpr hnumber, ?_⟩
    · rw [List.intercalate_singleton]
    · rintro _ ⟨⟩
      exact hstops

/-- The first number, and the text behind its separator. -/
theorem fields_succ_iff {sep : Char} {n : ℕ} {gs : List (List Char)} :
    Fields digit width sep (n + 1) gs cs rest ↔
      ∃ g gs' cs', gs = g :: gs' ∧ cs = g ++ sep :: cs' ∧ IsNumber digit width g ∧
        Fields digit width sep n gs' cs' rest := by
  have hsplit (g g' : List Char) (gs : List (List Char)) :
      [sep].intercalate (g :: g' :: gs) ++ rest
        = g ++ sep :: ([sep].intercalate (g' :: gs) ++ rest) := by
    rw [List.intercalate_cons_cons]
    simp
  constructor
  · rintro ⟨hlength, rfl, hnumbers, hstops⟩
    obtain ⟨g, gs, rfl⟩ := List.exists_cons_of_length_eq_add_one hlength
    have hlength' : gs.length = n + 1 := Nat.succ.inj hlength
    obtain ⟨g', gs, rfl⟩ := List.exists_cons_of_length_eq_add_one hlength'
    obtain ⟨hnumber, hnumbers⟩ := List.forall_mem_cons.mp hnumbers
    rw [List.getLast?_cons_cons] at hstops
    exact ⟨g, g' :: gs, _, rfl, hsplit g g' gs, hnumber, hlength', rfl, hnumbers, hstops⟩
  · rintro ⟨g, gs, cs', rfl, rfl, hnumber, hlength, rfl, hnumbers, hstops⟩
    obtain ⟨g', gs, rfl⟩ := List.exists_cons_of_length_eq_add_one hlength
    refine ⟨by rw [List.length_cons, hlength], (hsplit g g' gs).symm, ?_, ?_⟩
    · exact List.forall_mem_cons.mpr ⟨hnumber, hnumbers⟩
    · rwa [List.getLast?_cons_cons]

/-- **The format**: numbers with the separator between them.  Each but the last ends at a separator,
and the last one is followed by what is left unread. -/
theorem scanFields_eq_some_iff (h : Converts alphabet conv digit width value) {sep : Char}
    (hsep : digit sep = false) {n : ℕ} (hcs : ∀ c ∈ cs, alphabet c) {vs : List β} :
    scanFields conv sep n cs = some (vs, rest) ↔
      ∃ gs, Fields digit width sep n gs cs rest ∧ gs.map value = vs := by
  induction n generalizing cs vs with
  | zero =>
    rw [scanFields_zero_eq_some_iff]
    constructor
    · rintro ⟨v, hconv, rfl⟩
      obtain ⟨ds, hds, hnumber, hstops, rfl⟩ := (h.eq_some_iff hcs).mp hconv
      exact ⟨[ds], fields_zero_iff.mpr ⟨ds, rfl, hds, hnumber, hstops⟩, rfl⟩
    · rintro ⟨gs, hfields, rfl⟩
      obtain ⟨g, rfl, hg, hnumber, hstops⟩ := fields_zero_iff.mp hfields
      exact ⟨value g, (h.eq_some_iff hcs).mpr ⟨g, hg, hnumber, hstops, rfl⟩, rfl⟩
  | succ n ih =>
    rw [scanFields_succ_eq_some_iff]
    constructor
    · rintro ⟨v, cs', vs', hconv, hscan, rfl⟩
      obtain ⟨ds, rfl, hnumber, -, rfl⟩ := (h.eq_some_iff hcs).mp hconv
      have hcs' : ∀ c ∈ cs', alphabet c := fun c hc => hcs c (by simp [hc])
      obtain ⟨gs, hfields, rfl⟩ := (ih hcs').mp hscan
      exact ⟨ds :: gs, fields_succ_iff.mpr ⟨ds, gs, cs', rfl, rfl, hnumber, hfields⟩, rfl⟩
    · rintro ⟨gs, hfields, rfl⟩
      obtain ⟨g, gs, cs', rfl, rfl, hnumber, hfields⟩ := fields_succ_iff.mp hfields
      have hcs' : ∀ c ∈ cs', alphabet c := fun c hc => hcs c (by simp [hc])
      -- a separator is no digit
      have hstops : Stops digit width g (sep :: cs') := by
        refine .inr ?_
        rintro _ ⟨⟩
        exact hsep
      exact ⟨value g, cs', gs.map value, (h.eq_some_iff hcs).mpr ⟨g, rfl, hnumber, hstops, rfl⟩,
        (ih hcs').mpr ⟨gs, hfields, rfl⟩, rfl⟩

end

end Neufbox.Numerals
