import Mathlib.Data.List.Infix
import Neufbox.Libnbu.Equiv.Sort
import Neufbox.Libnbu.Split

/-!
# The pieces of a string

`strstr` finds the first occurrence of the separator, so that the piece in front of it has none.

* `strstr_eq_some`, `strstr_eq_none`: what is found, and what is not;
* `exists_splitLoop`: the loop ends, and its pieces, joined by the separator, are the string;
* `exists_splitListLoop`: the list that is made of them, as far as there is memory;
* `string_split_iff`: the list has all the pieces exactly if there is memory.
-/

namespace Neufbox.Libnbu

/-! ### The first separator -/

section

variable {sep str item rest : List Char}

/-- **What `strstr` finds**: no other occurrence begins earlier. -/
theorem strstr_eq_some (h : strstr sep str = some (item, rest)) :
    str = item ++ (sep ++ rest) ∧
      ∀ before after, str = before ++ (sep ++ after) → item.length ≤ before.length := by
  induction str generalizing item with
  | nil =>
    rw [strstr] at h
    split_ifs at h with hsep
    obtain ⟨rfl, rfl⟩ := Prod.mk.inj (Option.some.inj h)
    exact ⟨by rw [hsep]; rfl, fun _ _ _ => Nat.zero_le _⟩
  | cons c str ih =>
    rw [strstr] at h
    split_ifs at h with hstart
    · obtain ⟨rfl, rfl⟩ := Prod.mk.inj (Option.some.inj h)
      exact ⟨List.prefix_iff_eq_append.mp hstart |>.symm, fun _ _ _ => Nat.zero_le _⟩
    · obtain ⟨⟨item', rest'⟩, hrest, heq⟩ := Option.map_eq_some_iff.mp h
      obtain ⟨rfl, rfl⟩ := Prod.mk.inj heq
      obtain ⟨hsplit, hfirst⟩ := ih hrest
      refine ⟨by rw [hsplit]; rfl, fun before after hother => ?_⟩
      cases before with
      | nil => exact absurd ⟨after, hother.symm⟩ hstart
      | cons c' before =>
        exact Nat.succ_le_succ (hfirst before after (List.cons.inj hother).2)

theorem strstr_eq_none (h : strstr sep str = none) : ¬sep <:+: str := by
  induction str with
  | nil =>
    rw [strstr] at h
    split_ifs at h with hsep
    exact fun hinfix => hsep (List.infix_nil.mp hinfix)
  | cons c str ih =>
    rw [strstr] at h
    split_ifs at h with hstart
    rw [List.infix_cons_iff, not_or]
    exact ⟨hstart, ih (Option.map_eq_none_iff.mp h)⟩

/-- The piece in front of the separator does not contain it. -/
theorem not_infix_of_strstr (hsep : sep ≠ []) (h : strstr sep str = some (item, rest)) :
    ¬sep <:+: item := by
  obtain ⟨rfl, hfirst⟩ := strstr_eq_some h
  rintro ⟨before, after, rfl⟩
  have hle := hfirst before (after ++ (sep ++ rest)) (by simp)
  have hpos : 0 < sep.length := List.length_pos_iff.mpr hsep
  rw [List.length_append, List.length_append] at hle
  omega

end

/-! ### The pieces -/

/-- The number of separators that the loop finds. -/
def separatorsFound (sep : List Char) : ℕ → List Char → ℕ
  | 0, _ => 0
  | fuel + 1, saveptr =>
    match strstr sep saveptr with
    | some (_, saveptr) => separatorsFound sep fuel saveptr + 1
    | none => 0

/-- The pieces of a string: one more than separators were found, none with a separator in it, and
the string when they are joined by it. -/
structure IsSplit (sep : List Char) (fuel : ℕ) (str : List Char) (pieces : List (List Char)) :
    Prop where
  length : pieces.length = separatorsFound sep fuel str + 1
  not_infix : ∀ p ∈ pieces, ¬sep <:+: p
  intercalate : sep.intercalate pieces = str

/-- **The loop ends**, with the pieces of the string. -/
theorem exists_splitLoop {sep : List Char} (hsep : sep ≠ []) {fuel : ℕ} {str : List Char}
    (hfuel : str.length < fuel) :
    ∃ pieces, splitLoop sep fuel str = some pieces ∧ IsSplit sep fuel str pieces := by
  induction fuel generalizing str with
  | zero => exact absurd hfuel (Nat.not_lt_zero _)
  | succ fuel ih =>
    rcases hstr : strstr sep str with - | ⟨item, rest⟩
    · refine ⟨[str], by rw [splitLoop, hstr], ?_, ?_, List.intercalate_singleton⟩
      · rw [separatorsFound, hstr]
        rfl
      · exact List.forall_mem_singleton.mpr (strstr_eq_none hstr)
    · obtain ⟨hsplit, -⟩ := strstr_eq_some hstr
      -- the separator is not empty, so that the rest is shorter
      have hpos : 0 < sep.length := List.length_pos_iff.mpr hsep
      have hrest : rest.length < fuel := by
        rw [hsplit, List.length_append, List.length_append] at hfuel
        omega
      obtain ⟨pieces, hloop, hpieces⟩ := ih hrest
      refine ⟨item :: pieces, ?_, ?_, ?_, ?_⟩
      · rw [splitLoop, hstr]
        show (splitLoop sep fuel rest).map (item :: ·) = _
        rw [hloop, Option.map_some]
      · rw [separatorsFound, hstr, List.length_cons, hpieces.length]
      · exact List.forall_mem_cons.mpr ⟨not_infix_of_strstr hsep hstr, hpieces.not_infix⟩
      · obtain ⟨p, ps, rfl⟩ := List.exists_cons_of_length_eq_add_one hpieces.length
        rw [List.intercalate_cons_cons, hpieces.intercalate, hsplit, List.append_assoc]

/-! ### The list -/

section

variable {ι : Type} {mem : SplitMemory ι}

/-- The items of the list that is made of the pieces, from the `n`-th on. -/
def storedItems (mem : SplitMemory ι) : ℕ → List (List Char) → List (Option (List Char))
  | _, [] => []
  | n, p :: pieces =>
    (mem.calloc n).toList.map (fun _ => mem.copy n p) ++ storedItems mem (n + 1) pieces

theorem length_storedItems_le (mem : SplitMemory ι) (n : ℕ) (pieces : List (List Char)) :
    (storedItems mem n pieces).length ≤ pieces.length := by
  induction pieces generalizing n with
  | nil => exact Nat.le_refl _
  | cons p pieces ih =>
    have hle := ih (n + 1)
    have hone : (mem.calloc n).toList.length ≤ 1 := by cases mem.calloc n <;> simp
    rw [storedItems, List.length_append, List.length_map, List.length_cons]
    omega

/-- There is memory for the items from the `n`-th on. -/
def Stored (mem : SplitMemory ι) (n k : ℕ) : Prop :=
  ∀ i < k, mem.strdup (n + i) = true ∧ mem.calloc (n + i) ≠ none

theorem stored_succ_iff {n k : ℕ} :
    Stored mem n (k + 1) ↔
      (mem.strdup n = true ∧ mem.calloc n ≠ none) ∧ Stored mem (n + 1) k := by
  rw [Stored, Nat.forall_lt_succ_left, Nat.add_zero]
  simp only [Stored, Nat.add_assoc, Nat.add_comm 1]

theorem storedItems_of_stored {n : ℕ} {pieces : List (List Char)}
    (h : Stored mem n pieces.length) : storedItems mem n pieces = pieces.map some := by
  induction pieces generalizing n with
  | nil => rfl
  | cons p pieces ih =>
    obtain ⟨⟨hcopy, hnode⟩, hrest⟩ := stored_succ_iff.mp h
    obtain ⟨a, ha⟩ := Option.ne_none_iff_exists'.mp hnode
    rw [storedItems, ha, ih hrest, SplitMemory.copy, if_pos hcopy]
    rfl

/-- **Nothing is lost** if there is memory, and only then. -/
theorem stored_of_storedItems {n : ℕ} {pieces pieces' : List (List Char)}
    (h : storedItems mem n pieces = pieces'.map some) (hlength : pieces'.length = pieces.length) :
    Stored mem n pieces.length := by
  induction pieces generalizing n pieces' with
  | nil => exact fun i hi => absurd hi (Nat.not_lt_zero i)
  | cons p pieces ih =>
    obtain ⟨q, pieces', rfl⟩ := List.exists_cons_of_length_eq_add_one hlength
    have hle := length_storedItems_le mem (n + 1) pieces
    have hlength' : pieces'.length = pieces.length := Nat.succ.inj hlength
    rw [storedItems] at h
    cases hnode : mem.calloc n with
    | none =>
      rw [hnode] at h
      have hshort := congrArg List.length h
      simp only [Option.toList_none, List.map_nil, List.nil_append, List.length_map,
        List.length_cons] at hshort
      omega
    | some a =>
      rw [hnode] at h
      obtain ⟨hcopy, htail⟩ := List.cons.inj h
      rw [SplitMemory.copy] at hcopy
      split_ifs at hcopy with hdup
      exact stored_succ_iff.mpr ⟨⟨hdup, by rw [hnode]; exact nofun⟩, ih htail hlength'⟩

variable [DecidableEq ι] {list : NbuList ι (Option (List Char))}
  {t : Cursored (ι × Option (List Char))} {n fuel : ℕ} {sep str : List Char}

/-- **One piece** is put at the end of the list, if there is a node for it. -/
theorem exists_insertPiece
    (hcalloc : ∀ i j a, mem.calloc i = some a → mem.calloc j = some a → i = j)
    (h : Holds list t) (haddr : ∀ b ∈ t.items.map Prod.fst, ∃ i < n, mem.calloc i = some b)
    (piece : Option (List Char)) :
    ∃ list' ret t', nbuListInsertEnd list piece (mem.calloc n) = some (list', ret) ∧
      Holds list' t' ∧ (∀ b ∈ t'.items.map Prod.fst, ∃ i < n + 1, mem.calloc i = some b) ∧
      t'.items.map Prod.snd
        = t.items.map Prod.snd ++ (mem.calloc n).toList.map fun _ => piece := by
  have hnew : ∀ a ∈ mem.calloc n, list.heap a = none :=
    fun a ha => h.heap_eq_none (notMem_of_calloc hcalloc haddr a ha)
  obtain ⟨list', ret, t', heq, h', -, hitems⟩ := exists_insertEnd h hnew piece
  refine ⟨list', ret, t', heq, h', ?_, ?_⟩
  · exact exists_calloc_round (l := t.items) (r := []) haddr (List.append_nil _).symm
      (by rw [List.append_nil, hitems])
  · rw [hitems, List.map_append, newNodes, List.map_map]
    rfl

/-- **The list** gets the pieces that there is memory for. -/
theorem exists_splitListLoop
    (hcalloc : ∀ i j a, mem.calloc i = some a → mem.calloc j = some a → i = j)
    (h : Holds list t) (haddr : ∀ b ∈ t.items.map Prod.fst, ∃ i < n, mem.calloc i = some b)
    {pieces : List (List Char)} (hloop : splitLoop sep fuel str = some pieces) :
    ∃ list' t', splitListLoop mem sep fuel n list str = some list' ∧ Holds list' t' ∧
      t'.items.map Prod.snd = t.items.map Prod.snd ++ storedItems mem n pieces := by
  induction fuel generalizing list t n str pieces with
  | zero => exact nomatch hloop
  | succ fuel ih =>
    rw [splitLoop] at hloop
    rcases hstr : strstr sep str with - | ⟨item, rest⟩
    · rw [hstr] at hloop
      obtain rfl := Option.some.inj hloop
      obtain ⟨list₁, ret, t₁, heq, h₁, -, hitems₁⟩ :=
        exists_insertPiece hcalloc h haddr (mem.copy n str)
      refine ⟨list₁, t₁, ?_, h₁, ?_⟩
      · rw [splitListLoop, hstr]
        dsimp only
        rw [heq]
        rfl
      · rw [hitems₁, storedItems, storedItems, List.append_nil]
    · rw [hstr] at hloop
      obtain ⟨pieces, hrest, rfl⟩ := Option.map_eq_some_iff.mp hloop
      obtain ⟨list₁, ret, t₁, heq, h₁, haddr₁, hitems₁⟩ :=
        exists_insertPiece hcalloc h haddr (mem.copy n item)
      obtain ⟨list', t', heq', h', hitems'⟩ := ih h₁ haddr₁ hrest
      refine ⟨list', t', ?_, h', ?_⟩
      · rw [splitListLoop, hstr]
        dsimp only
        rw [heq]
        exact heq'
      · rw [hitems', hitems₁, storedItems, List.append_assoc]

/-! ### The function -/

/-- The list of the pieces was made. -/
def Splits (sep str : List Char) (fuel : ℕ)
    (result : Option (NbuList ι (Option (List Char)) × NbuRet)) : Prop :=
  ∃ list s pieces, result = some (list, .success) ∧ Represents list s ∧
    s.items = pieces.map some ∧ IsSplit sep fuel str pieces

/-- **Splitting a string.**  For every string and every separator that is not empty, the function
returns a list of one more piece than separators were found, no piece contains the separator, and
the pieces joined by it are the string, if and only if there is memory for the list, and for a copy
and a node per piece.  The blocks that `calloc` returns are different ones. -/
theorem string_split_iff (mem : SplitMemory ι)
    (hcalloc : ∀ i j a, mem.calloc i = some a → mem.calloc j = some a → i = j)
    {sep : List Char} (hsep : sep ≠ []) (str : List Char) {fuel : ℕ} (hfuel : str.length < fuel) :
    Splits sep str fuel (nbuStringSplitTo mem fuel str sep) ↔
      mem.list = true ∧ ∀ i ≤ separatorsFound sep fuel str,
        mem.strdup i = true ∧ mem.calloc i ≠ none := by
  obtain ⟨pieces, hloop, hpieces⟩ := exists_splitLoop hsep hfuel
  have hstored : Stored mem 0 pieces.length ↔ ∀ i ≤ separatorsFound sep fuel str,
      mem.strdup i = true ∧ mem.calloc i ≠ none := by
    rw [hpieces.length]
    simp only [Stored, Nat.zero_add, Nat.lt_succ_iff]
  rw [← hstored, nbuStringSplitTo]
  by_cases hlist : mem.list = true
  · rw [if_pos hlist]
    obtain ⟨list, t, heq, h, hitems⟩ :=
      exists_splitListLoop hcalloc (holds_new 4) (by exact nofun) hloop
    rw [heq, Option.bind_eq_bind, Option.bind_some]
    have hrep : Represents list (t.map Prod.snd) := ⟨t, rfl, h⟩
    have hlist' : (t.map Prod.snd).items = storedItems mem 0 pieces := by
      rw [Cursored.items_map, hitems]
      rfl
    constructor
    · rintro ⟨list', s, pieces', hresult, hrep', hitems', hpieces'⟩
      obtain ⟨rfl, -⟩ := Prod.mk.inj (Option.some.inj hresult)
      -- a loop over the list sees both
      have hsame := (hrep'.forEach (Nat.lt_succ_self _)).symm.trans
        (hrep.forEach (Nat.lt_succ_self _))
      rw [Option.some_inj, hitems', hlist'] at hsame
      exact ⟨hlist, stored_of_storedItems hsame.symm (hpieces'.length.trans hpieces.length.symm)⟩
    · rintro ⟨-, hmem⟩
      exact ⟨list, _, pieces, rfl, hrep, hlist'.trans (storedItems_of_stored hmem), hpieces⟩
  · rw [if_neg hlist]
    refine iff_of_false ?_ fun h => hlist h.1
    rintro ⟨list, s, pieces', hresult, -⟩
    exact nomatch hresult

end

/-- Separators that overlap: the first one of them counts. -/
theorem string_split_overlap :
    Splits "aa".toList "xaaay".toList 6
      (nbuStringSplitTo ⟨true, fun _ => true, some⟩ 6 "xaaay".toList "aa".toList
        : Option (NbuList ℕ (Option (List Char)) × NbuRet)) :=
  (string_split_iff ⟨true, fun _ => true, some⟩
      (fun _ _ _ hi hj => Option.some.inj (hi.trans hj.symm)) (by decide) _ (by decide)).mpr
    ⟨rfl, fun _ _ => ⟨rfl, by exact nofun⟩⟩

/-- A piece for which there is no node is left out, and the call succeeds. -/
theorem string_split_loses_piece :
    (nbuStringSplitTo ⟨true, fun _ => true, fun n => if n = 0 then some n else none⟩ 4
        "a,b".toList ",".toList).bind
          (fun r => (nbuListForEach 4 r.1).map fun items => (items, r.2))
      = some ([some ['a']], .success) := by
  decide

end Neufbox.Libnbu
