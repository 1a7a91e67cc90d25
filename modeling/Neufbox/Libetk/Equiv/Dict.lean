import Neufbox.Lib.Dictionary
import Neufbox.Lib.Ring
import Neufbox.Lib.Run
import Neufbox.Libetk.Dict

/-!
# A dictionary is a map

`Chained dict entries` says that the entries of a dictionary form a ring over its head, in both
directions, that they hold the strings of `entries`, in order, under their addresses, and that
nothing else is allocated.  It does not look at the cursor: every function starts by moving it to
the first entry.  `Represents dict d` forgets the addresses.

* `listAddTail_ring`, `listDel_ring`: the two changes to a list, on the rings of the library;
* `dictPutLoop_skip`, `dictRemoveLoop_skip`: a loop passes the entries with other keys;
* `represents_callDict`: one call does to the dictionary what it does to the association list.

`dict_refines` is the refinement over every sequence of calls.
-/

namespace Neufbox.Libetk

open Function (update update_self update_of_ne update_comm update_idem update_eq_self_iff)
open Libnbd (CString)
open Machine

/-! ### Lists -/

section Lists

variable {ν : Type} {heads : Heads ν} {r head x : ν} {nodes l₁ l₂ : List ν}

namespace Heads

def next (heads : Heads ν) (r : ν) : Option ν := (heads r).bind ListHead.next

def prev (heads : Heads ν) (r : ν) : Option ν := (heads r).bind ListHead.prev

theorem exists_of_next {b : ν} (h : heads.next r = some b) :
    ∃ n, heads r = some n ∧ n.next = some b := Option.bind_eq_some_iff.mp h

theorem exists_of_prev {b : ν} (h : heads.prev r = some b) :
    ∃ n, heads r = some n ∧ n.prev = some b := Option.bind_eq_some_iff.mp h

variable [DecidableEq ν]

/-- A field of the list heads when one of them is stored or freed. -/
theorem bind_update (f : ListHead ν → Option ν) (heads : Heads ν) (r : ν)
    (n : Option (ListHead ν)) :
    (fun r' => (update heads r n r').bind f)
      = update (fun r' => (heads r').bind f) r (n.bind f) := by
  funext r'
  by_cases h : r' = r
  · subst h
    rw [update_self, update_self]
  · rw [update_of_ne h, update_of_ne h]

theorem next_update (heads : Heads ν) (r : ν) (n : Option (ListHead ν)) :
    next (update heads r n) = update heads.next r (n.bind ListHead.next) := bind_update ..

theorem prev_update (heads : Heads ν) (r : ν) (n : Option (ListHead ν)) :
    prev (update heads r n) = update heads.prev r (n.bind ListHead.prev) := bind_update ..

end Heads

variable [DecidableEq ν]

theorem update_eq_none_iff {n : ListHead ν} (h : heads r ≠ none) (r' : ν) :
    update heads r (some n) r' = none ↔ heads r' = none := by
  by_cases heq : r' = r
  · subst heq
    rw [update_self]
    exact iff_of_false (by exact nofun) h
  · rw [update_of_ne heq]

/-- **An assignment to `next`.** -/
theorem exists_setNext (h : heads r ≠ none) (v : Option ν) :
    ∃ heads', setNext heads r v = some heads' ∧ heads'.next = update heads.next r v ∧
      heads'.prev = heads.prev ∧ ∀ r', heads' r' = none ↔ heads r' = none := by
  obtain ⟨n, hn⟩ := Option.ne_none_iff_exists'.mp h
  refine ⟨update heads r (some { n with next := v }), ?_, Heads.next_update .., ?_,
    update_eq_none_iff h⟩
  · rw [setNext, hn, Option.map_some]
  · rw [Heads.prev_update, update_eq_self_iff, Heads.prev, hn]
    rfl

/-- **An assignment to `prev`.** -/
theorem exists_setPrev (h : heads r ≠ none) (v : Option ν) :
    ∃ heads', setPrev heads r v = some heads' ∧ heads'.next = heads.next ∧
      heads'.prev = update heads.prev r v ∧ ∀ r', heads' r' = none ↔ heads r' = none := by
  obtain ⟨n, hn⟩ := Option.ne_none_iff_exists'.mp h
  refine ⟨update heads r (some { n with prev := v }), ?_, ?_, Heads.prev_update ..,
    update_eq_none_iff h⟩
  · rw [setPrev, hn, Option.map_some]
  · rw [Heads.next_update, update_eq_self_iff, Heads.next, hn]
    rfl

/-- A ring over the head, by the links of the list heads. -/
abbrev HeadRing (heads : Heads ν) (head : ν) (nodes : List ν) : Prop :=
  Ring heads.next heads.prev head nodes

omit [DecidableEq ν] in
/-- The list heads on both sides of a cut are allocated. -/
theorem HeadRing.ne_none (h : HeadRing heads head (l₁ ++ l₂)) :
    heads (lastOr head l₁) ≠ none ∧ heads (firstOr head l₂) ≠ none := by
  obtain ⟨n, hn, -⟩ := Heads.exists_of_next h.next_last
  obtain ⟨n', hn', -⟩ := Heads.exists_of_prev h.prev_first
  exact ⟨by rw [hn]; exact nofun, by rw [hn']; exact nofun⟩

theorem exists_initListHead (h : heads head ≠ none) :
    ∃ heads', initListHead heads head = some heads' ∧ HeadRing heads' head [] := by
  obtain ⟨heads₁, heq₁, hnext₁, hprev₁, hnone₁⟩ := exists_setNext h (some head)
  obtain ⟨heads₂, heq₂, hnext₂, hprev₂, -⟩ := exists_setPrev (mt (hnone₁ head).mp h) (some head)
  refine ⟨heads₂, by rw [initListHead, heq₁]; exact heq₂, List.nodup_singleton head, ?_⟩
  intro e he
  obtain rfl : e = (head, head) := by simpa [edges] using he
  exact ⟨by rw [hnext₂, hnext₁, update_self], by rw [hprev₂, update_self]⟩

/-- **Insertion at the end** of a list. -/
theorem listAddTail_ring (h : HeadRing heads head nodes) (hx : x ∉ head :: nodes)
    (n : ListHead ν) :
    ∃ heads', listAddTail (update heads x (some n)) x head = some heads' ∧
      HeadRing heads' head (nodes ++ [x]) := by
  have hring : HeadRing heads head (nodes ++ []) := by rwa [List.append_nil]
  have hne : x ≠ head := fun heq => hx (heq ▸ List.mem_cons_self ..)
  obtain ⟨n₀, hn₀, hprev₀⟩ := Heads.exists_of_prev (r := head) hring.prev_first
  -- all three list heads are allocated
  have hheads : ∀ r ∈ [x, head, lastOr head nodes], update heads x (some n) r ≠ none := by
    intro r hr
    by_cases heq : r = x
    · rw [heq, update_self]
      exact nofun
    · rw [update_of_ne heq]
      simp only [List.mem_cons, List.not_mem_nil, or_false] at hr
      rcases hr with rfl | rfl | rfl
      · exact absurd rfl heq
      · rw [hn₀]
        exact nofun
      · exact hring.ne_none.1
  obtain ⟨heads₁, heq₁, hnext₁, hprev₁, hnone₁⟩ := exists_setPrev (hheads head (by simp)) (some x)
  obtain ⟨heads₂, heq₂, hnext₂, hprev₂, hnone₂⟩ :=
    exists_setNext (mt (hnone₁ x).mp (hheads x (by simp))) (some head)
  have hnone₂' := fun r => (hnone₂ r).trans (hnone₁ r)
  obtain ⟨heads₃, heq₃, hnext₃, hprev₃, hnone₃⟩ :=
    exists_setPrev (mt (hnone₂' x).mp (hheads x (by simp))) (some (lastOr head nodes))
  have hnone₃' := fun r => (hnone₃ r).trans (hnone₂' r)
  obtain ⟨heads₄, heq₄, hnext₄, hprev₄, -⟩ :=
    exists_setNext (mt (hnone₃' (lastOr head nodes)).mp (hheads _ (by simp))) (some x)
  refine ⟨heads₄, ?_, ?_⟩
  · simp only [listAddTail, listAddBetween, update_of_ne (Ne.symm hne), hn₀, hprev₀, heq₁, heq₂,
      heq₃, heq₄, Option.bind_some, bind]
  · have hnext : heads₄.next
        = update (update heads.next x (some head)) (lastOr head nodes) (some x) := by
      rw [hnext₄, hnext₃, hnext₂, hnext₁, Heads.next_update, update_idem]
    have hprev : heads₄.prev
        = update (update heads.prev x (some (lastOr head nodes))) head (some x) := by
      rw [hprev₄, hprev₃, hprev₂, hprev₁, Heads.prev_update, update_comm hne, update_idem,
        update_comm hne.symm]
    show Ring heads₄.next heads₄.prev head (nodes ++ [x])
    rw [hnext, hprev]
    exact Ring.insert hring (by rwa [List.append_nil])

/-- **Removal** from a list. -/
theorem listDel_ring (h : HeadRing heads head (l₁ ++ x :: l₂)) :
    ∃ heads', listDel heads x = some heads' ∧
      HeadRing (update heads' x none) head (l₁ ++ l₂) := by
  have h' : HeadRing heads head (l₁ ++ [x] ++ l₂) := by rwa [List.append_assoc]
  have hprev : heads.prev x = some (lastOr head l₁) := h.prev_first
  have hnext : heads.next x = some (firstOr head l₂) := by
    have := h'.next_last
    rwa [lastOr_concat] at this
  obtain ⟨n, hn, hnprev⟩ := Heads.exists_of_prev hprev
  have hnnext : n.next = some (firstOr head l₂) := by
    rwa [Heads.next, hn, Option.bind_some] at hnext
  obtain ⟨heads₁, heq₁, hnext₁, hprev₁, hnone₁⟩ :=
    exists_setPrev h'.ne_none.2 (some (lastOr head l₁))
  obtain ⟨heads₂, heq₂, hnext₂, hprev₂, hnone₂⟩ :=
    exists_setNext (mt (hnone₁ _).mp h.ne_none.1) (some (firstOr head l₂))
  have hx : heads x ≠ none := by rw [hn]; exact nofun
  have hnone₂' := fun r => (hnone₂ r).trans (hnone₁ r)
  obtain ⟨heads₃, heq₃, hnext₃, hprev₃, hnone₃⟩ := exists_setNext (mt (hnone₂' x).mp hx) none
  have hnone₃' := fun r => (hnone₃ r).trans (hnone₂' r)
  obtain ⟨heads₄, heq₄, hnext₄, hprev₄, -⟩ := exists_setPrev (mt (hnone₃' x).mp hx) none
  refine ⟨heads₄, ?_, ?_⟩
  · simp only [listDel, listDelBetween, hn, hnprev, hnnext, heq₁, heq₂, heq₃, heq₄,
      Option.bind_some, bind]
  · show Ring (Heads.next _) (Heads.prev _) head (l₁ ++ l₂)
    rw [Heads.next_update, Heads.prev_update, hnext₄, hnext₃, hnext₂, hnext₁, hprev₄, hprev₃,
      hprev₂, hprev₁]
    show Ring (update (update _ x none) x none) (update (update _ x none) x none) head (l₁ ++ l₂)
    rw [update_idem, update_idem]
    exact Ring.erase h

end Lists

/-! ### Entries -/

variable {ι : Type}

/-- Pointers to the entries. -/
def entryRefs (entries : List (ι × DictEntry)) : List (DictRef ι) := entries.map fun e => .entry e.1

@[simp] theorem entryRefs_append (l₁ l₂ : List (ι × DictEntry)) :
    entryRefs (l₁ ++ l₂) = entryRefs l₁ ++ entryRefs l₂ := List.map_append

@[simp] theorem entryRefs_cons (e : ι × DictEntry) (l : List (ι × DictEntry)) :
    entryRefs (e :: l) = .entry e.1 :: entryRefs l := rfl

@[simp] theorem entryRefs_nil : entryRefs ([] : List (ι × DictEntry)) = [] := rfl

/-- The entries of the dictionary form a ring over its head. -/
structure Chained (dict : Dict ι) (entries : List (ι × DictEntry)) : Prop where
  ring : HeadRing dict.heads .head (entryRefs entries)
  stored : ∀ e ∈ entries, dict.entries e.1 = some e.2
  unused : ∀ a ∉ entries.map Prod.fst, dict.entries a = none

section Chained

variable {dict : Dict ι} {entries l₁ l₂ : List (ι × DictEntry)} {a : ι} {e : DictEntry}

/-- The cursor may be anywhere. -/
theorem Chained.withEntry (h : Chained dict entries) (entry : Option (DictRef ι)) :
    Chained { dict with entry } entries := ⟨h.ring, h.stored, h.unused⟩

/-- What follows the entries of the first part. -/
theorem Chained.exists_next (h : Chained dict (l₁ ++ l₂)) :
    ∃ n, dict.heads (lastOr .head (entryRefs l₁)) = some n ∧
      n.next = some (firstOr .head (entryRefs l₂)) := by
  have hring := h.ring
  rw [entryRefs_append] at hring
  exact Heads.exists_of_next hring.next_last

/-- What follows is allocated. -/
theorem Chained.first_ne_none (h : Chained dict (l₁ ++ l₂)) :
    dict.heads (firstOr .head (entryRefs l₂)) ≠ none := by
  have hring := h.ring
  rw [entryRefs_append] at hring
  exact HeadRing.ne_none hring |>.2

theorem Chained.exists_first (h : Chained dict entries) :
    ∃ n, dict.heads .head = some n ∧ n.next = some (firstOr .head (entryRefs entries)) :=
  Chained.exists_next (show Chained dict ([] ++ entries) from h)

theorem Chained.exists_entry_next (h : Chained dict (l₁ ++ (a, e) :: l₂)) :
    ∃ n, dict.heads (.entry a) = some n ∧ n.next = some (firstOr .head (entryRefs l₂)) := by
  have h' : Chained dict (l₁ ++ [(a, e)] ++ l₂) := by rwa [List.append_assoc]
  have hnext := h'.exists_next
  rwa [entryRefs_append, entryRefs_cons, entryRefs_nil, lastOr_concat] at hnext

theorem Chained.next_entry (h : Chained dict (l₁ ++ (a, e) :: l₂)) :
    dict.heads.next (.entry a) = some (firstOr .head (entryRefs l₂)) := by
  obtain ⟨n, hn, hnext⟩ := h.exists_entry_next
  rw [Heads.next, hn]
  exact hnext

theorem Chained.stored_middle (h : Chained dict (l₁ ++ (a, e) :: l₂)) :
    dict.entries a = some e := h.stored (a, e) (by simp)

/-- An entry is at one place only. -/
theorem Chained.notMem (h : Chained dict (l₁ ++ (a, e) :: l₂)) :
    a ∉ (l₁ ++ l₂).map Prod.fst := by
  have hnodup := h.ring.nodup
  rw [entryRefs_append, entryRefs_cons] at hnodup
  have hnot := (nodup_append_cons_iff.mp hnodup).1
  intro hmem
  obtain ⟨e', he', rfl⟩ := List.mem_map.mp hmem
  refine hnot (List.mem_cons_of_mem _ ?_)
  rw [← entryRefs_append]
  exact List.mem_map_of_mem (f := fun e => DictRef.entry e.1) he'

/-- A block that is not in use is none of the entries. -/
theorem Chained.notMem_entryRefs (h : Chained dict entries) (ha : dict.entries a = none) :
    DictRef.entry a ∉ DictRef.head :: entryRefs entries := by
  intro hmem
  rcases List.mem_cons.mp hmem with heq | hmem
  · exact nomatch heq
  · obtain ⟨e, he, heq⟩ := List.mem_map.mp hmem
    obtain rfl := DictRef.entry.inj heq
    have hstored := h.stored e he
    rw [ha] at hstored
    exact nomatch hstored

variable [DecidableEq ι]

/-- The data of an entry is replaced. -/
theorem Chained.replace (h : Chained dict (l₁ ++ (a, e) :: l₂)) (e' : DictEntry) :
    Chained { dict with entries := update dict.entries a (some e') } (l₁ ++ (a, e') :: l₂) where
  ring := by
    have hring := h.ring
    rw [entryRefs_append, entryRefs_cons] at hring ⊢
    exact hring
  stored := by
    have hnot := h.notMem
    intro e'' he''
    show update dict.entries a (some e') e''.1 = some e''.2
    by_cases heq : e'' = (a, e')
    · rw [heq, update_self]
    · have hold : e'' ∈ l₁ ++ l₂ := by
        simp only [List.mem_append, List.mem_cons] at he'' ⊢
        tauto
      rw [update_of_ne (ne_of_mem_of_not_mem (List.mem_map_of_mem (f := Prod.fst) hold) hnot)]
      refine h.stored e'' ?_
      simp only [List.mem_append, List.mem_cons] at hold ⊢
      tauto
  unused := by
    intro b hb
    have hne : b ≠ a := by
      rintro rfl
      exact hb (by simp)
    show update dict.entries a (some e') b = none
    rw [update_of_ne hne]
    refine h.unused b ?_
    simpa using hb

/-- **A new entry** at the end. -/
theorem Chained.exists_append (h : Chained dict entries) (ha : dict.entries a = none)
    (e : DictEntry) :
    ∃ heads, listAddTail (update dict.heads (.entry a) (some ⟨none, none⟩)) (.entry a) .head
        = some heads ∧
      ∀ entry, Chained { entry, heads, entries := update dict.entries a (some e) }
        (entries ++ [(a, e)]) := by
  have hnot := h.notMem_entryRefs ha
  obtain ⟨heads, heq, hring⟩ := listAddTail_ring h.ring hnot ⟨none, none⟩
  refine ⟨heads, heq, fun entry => ⟨?_, ?_, ?_⟩⟩
  · rw [entryRefs_append]
    exact hring
  · intro e' he'
    show update dict.entries a (some e) e'.1 = some e'.2
    rcases List.mem_append.mp he' with hold | hnew
    · have hstored := h.stored e' hold
      have hne : e'.1 ≠ a := by
        rintro heq
        rw [heq, ha] at hstored
        exact nomatch hstored
      rw [update_of_ne hne, hstored]
    · obtain rfl := List.mem_singleton.mp hnew
      exact update_self ..
  · intro b hb
    rw [List.map_append, List.mem_append, not_or] at hb
    have hne : b ≠ a := fun heq => hb.2 (heq ▸ List.mem_singleton_self _)
    show update dict.entries a (some e) b = none
    rw [update_of_ne hne, h.unused b hb.1]

/-- **The end of an entry.** -/
theorem Chained.exists_dictDelete (h : Chained dict (l₁ ++ (a, e) :: l₂)) :
    ∃ dict', dictDelete dict a = some dict' ∧ Chained dict' (l₁ ++ l₂) := by
  have hring := h.ring
  rw [entryRefs_append, entryRefs_cons] at hring
  obtain ⟨heads, heq, hring'⟩ := listDel_ring hring
  have hnot := h.notMem
  refine ⟨_, by rw [dictDelete, heq]; rfl, ?_, ?_, ?_⟩
  · rw [entryRefs_append]
    exact hring'
  · intro e' he'
    have hne : e'.1 ≠ a := ne_of_mem_of_not_mem (List.mem_map_of_mem (f := Prod.fst) he') hnot
    show update dict.entries a none e'.1 = some e'.2
    rw [update_of_ne hne]
    refine h.stored e' ?_
    simp only [List.mem_append, List.mem_cons] at he' ⊢
    tauto
  · intro b hb
    show update dict.entries a none b = none
    by_cases heq : b = a
    · rw [heq, update_self]
    · rw [update_of_ne heq]
      refine h.unused b ?_
      simp only [List.map_append, List.map_cons, List.mem_append, List.mem_cons] at hb ⊢
      tauto

end Chained

/-! ### Loops -/

section Loops

variable {dict : Dict ι} {entries l₁ l₂ m : List (ι × DictEntry)} {a : ι} {e : DictEntry}
  {key data : CString} {fuel : ℕ}

/-- How the loops of `dict_remove` and `dict_free` start. -/
theorem Chained.exists_start (h : Chained dict entries) :
    ∃ n n', dict.heads .head = some n ∧ n.next = some (firstOr .head (entryRefs entries)) ∧
      dict.heads (firstOr .head (entryRefs entries)) = some n' ∧
      n'.next = dict.heads.next (firstOr .head (entryRefs entries)) := by
  obtain ⟨n, hn, hnext⟩ := h.exists_first
  obtain ⟨n', hn'⟩ := Option.ne_none_iff_exists'.mp
    (Chained.first_ne_none (show Chained dict ([] ++ entries) from h))
  refine ⟨n, n', hn, hnext, hn', ?_⟩
  rw [Heads.next, hn']
  rfl

/-- **The loop of `dict_for_each_entry`** sees all entries, in order. -/
theorem dictVisit_eq (h : Chained dict (l₁ ++ l₂)) (hfuel : l₂.length < fuel) :
    dictVisit fuel { dict with entry := some (firstOr .head (entryRefs l₂)) }
      = some ({ dict with entry := some .head }, l₂.map fun e => (e.2.key, e.2.data)) := by
  obtain ⟨fuel, rfl⟩ := Nat.exists_eq_succ_of_ne_zero (Nat.ne_zero_of_lt hfuel)
  induction l₂ generalizing l₁ fuel with
  | nil => rfl
  | cons x l₂ ih =>
    obtain ⟨a, e⟩ := x
    have hstored := h.stored_middle
    obtain ⟨n, hn, hnext⟩ := h.exists_entry_next
    obtain ⟨k, rfl⟩ : ∃ k, fuel = k + 1 :=
      Nat.exists_eq_succ_of_ne_zero (by rw [List.length_cons] at hfuel; omega)
    have h' : Chained dict (l₁ ++ [(a, e)] ++ l₂) := by rwa [List.append_assoc]
    have hrest := ih h' k (Nat.lt_of_succ_lt_succ hfuel)
    rw [dictVisit]
    simp only [entryRefs_cons, firstOr_cons, Option.bind_some, bind, hstored, hn, hnext, hrest,
      List.map_cons]

theorem dictForEachEntry_eq (h : Chained dict entries) (hfuel : entries.length < fuel) :
    dictForEachEntry fuel dict
      = some ({ dict with entry := some .head }, entries.map fun e => (e.2.key, e.2.data)) := by
  obtain ⟨n, hn, hnext⟩ := h.exists_first
  have hvisit := dictVisit_eq (show Chained dict ([] ++ entries) from h) hfuel
  simp only [dictForEachEntry, hn, hnext, Option.bind_some, bind]
  exact hvisit

variable [DecidableEq ι]

/-- **The loop of `dict_put`** passes entries with other keys. -/
theorem dictPutLoop_skip (h : Chained dict (l₁ ++ (m ++ l₂))) (hm : ∀ e ∈ m, e.2.key ≠ key)
    (data : CString) (fuel : ℕ) :
    dictPutLoop key data (m.length + fuel)
        { dict with entry := some (firstOr .head (entryRefs (m ++ l₂))) }
      = dictPutLoop key data fuel { dict with entry := some (firstOr .head (entryRefs l₂)) } := by
  induction m generalizing l₁ with
  | nil => rw [List.length_nil, Nat.zero_add, List.nil_append]
  | cons x m ih =>
    obtain ⟨a, e⟩ := x
    have h : Chained dict (l₁ ++ (a, e) :: (m ++ l₂)) := h
    have hstored := h.stored_middle
    obtain ⟨n, hn, hnext⟩ := h.exists_entry_next
    have hkey : e.key ≠ key := hm (a, e) (List.mem_cons_self ..)
    have h' : Chained dict (l₁ ++ [(a, e)] ++ (m ++ l₂)) := by rwa [List.append_assoc]
    have hrest := ih h' fun x hx => hm x (List.mem_cons_of_mem _ hx)
    rw [← hrest, List.length_cons, Nat.add_right_comm, dictPutLoop]
    simp only [List.cons_append, entryRefs_cons, firstOr_cons, Option.bind_some, bind, hstored,
      if_neg hkey, hn, hnext]

theorem exists_dictPut_of_forall_ne (h : Chained dict entries)
    (hkey : ∀ e ∈ entries, e.2.key ≠ key) (hfuel : entries.length < fuel)
    (ha : dict.entries a = none) :
    ∃ dict', dictPut fuel dict key data (some a) = some dict' ∧
      Chained dict' (entries ++ [(a, ⟨key, data⟩)]) := by
  obtain ⟨n, hn, hnext⟩ := h.exists_first
  obtain ⟨k, rfl⟩ : ∃ k, fuel = entries.length + (k + 1) := Nat.exists_eq_add_of_lt hfuel
  have hloop : dictPutLoop key data (entries.length + (k + 1)) { dict with entry := n.next }
      = some ({ dict with entry := some .head }, false) := by
    have hskip := dictPutLoop_skip
      (show Chained dict ([] ++ (entries ++ [])) by rwa [List.append_nil]) hkey data (k + 1)
    rw [List.append_nil] at hskip
    rw [hnext, hskip]
    rfl
  obtain ⟨heads, heq, hchained⟩ := h.exists_append ha ⟨key, data⟩
  refine ⟨_, ?_, hchained (some (.entry a))⟩
  simp only [dictPut, hn, hloop, heq, Option.bind_some, bind, Bool.false_eq_true, if_false]

theorem exists_dictPut_of_eq (h : Chained dict (l₁ ++ (a, e) :: l₂))
    (hl₁ : ∀ e ∈ l₁, e.2.key ≠ key) (hkey : e.key = key)
    (hfuel : (l₁ ++ (a, e) :: l₂).length < fuel) (calloc : Option ι) :
    ∃ dict', dictPut fuel dict key data calloc = some dict' ∧
      Chained dict' (l₁ ++ (a, { e with data }) :: l₂) := by
  obtain ⟨n, hn, hnext⟩ := h.exists_first
  have hlength : l₁.length < fuel := by
    rw [List.length_append] at hfuel
    omega
  obtain ⟨k, rfl⟩ : ∃ k, fuel = l₁.length + (k + 1) := Nat.exists_eq_add_of_lt hlength
  have hstored := h.stored_middle
  have hloop : dictPutLoop key data (l₁.length + (k + 1)) { dict with entry := n.next }
      = some ({ dict with
          entry := some (.entry a)
          entries := update dict.entries a (some { e with data }) }, true) := by
    rw [hnext, dictPutLoop_skip (show Chained dict ([] ++ (l₁ ++ (a, e) :: l₂)) from h) hl₁,
      dictPutLoop]
    simp only [entryRefs_cons, firstOr_cons, Option.bind_some, bind, hstored, if_pos hkey]
  refine ⟨_, ?_, (h.replace { e with data }).withEntry (some (.entry a))⟩
  simp only [dictPut, hn, hloop, Option.bind_some, bind, if_true]

/-- **The loop of `dict_remove`** passes entries with other keys; it knows one entry more. -/
theorem dictRemoveLoop_skip (h : Chained dict (l₁ ++ (m ++ l₂))) (hm : ∀ e ∈ m, e.2.key ≠ key)
    (fuel : ℕ) :
    dictRemoveLoop key (m.length + fuel)
        { dict with entry := some (firstOr .head (entryRefs (m ++ l₂))) }
        (dict.heads.next (firstOr .head (entryRefs (m ++ l₂))))
      = dictRemoveLoop key fuel { dict with entry := some (firstOr .head (entryRefs l₂)) }
        (dict.heads.next (firstOr .head (entryRefs l₂))) := by
  induction m generalizing l₁ with
  | nil => rw [List.length_nil, Nat.zero_add, List.nil_append]
  | cons x m ih =>
    obtain ⟨a, e⟩ := x
    have h : Chained dict (l₁ ++ (a, e) :: (m ++ l₂)) := h
    have hstored := h.stored_middle
    have hkey : e.key ≠ key := hm (a, e) (List.mem_cons_self ..)
    have h' : Chained dict (l₁ ++ [(a, e)] ++ (m ++ l₂)) := by rwa [List.append_assoc]
    have hrest := ih h' fun x hx => hm x (List.mem_cons_of_mem _ hx)
    have hnext := h.next_entry
    obtain ⟨n, hn⟩ := Option.ne_none_iff_exists'.mp h'.first_ne_none
    rw [← hrest, List.length_cons, Nat.add_right_comm, dictRemoveLoop]
    simp only [List.cons_append, entryRefs_cons, firstOr_cons, Option.bind_some, bind, hstored,
      if_neg hkey, hnext, hn]
    rw [Heads.next, hn]
    rfl

theorem exists_dictRemove_of_forall_ne (h : Chained dict entries)
    (hkey : ∀ e ∈ entries, e.2.key ≠ key) (hfuel : entries.length < fuel) :
    ∃ dict', dictRemove fuel dict key = some (dict', -1) ∧ Chained dict' entries := by
  obtain ⟨n, n', hn, hnext, hn', hnext'⟩ := h.exists_start
  obtain ⟨k, rfl⟩ : ∃ k, fuel = entries.length + (k + 1) := Nat.exists_eq_add_of_lt hfuel
  have hskip := dictRemoveLoop_skip
    (show Chained dict ([] ++ (entries ++ [])) by rwa [List.append_nil]) hkey (k + 1)
  rw [List.append_nil] at hskip
  refine ⟨_, ?_, h.withEntry (some .head)⟩
  simp only [dictRemove, hn, hnext, hn', hnext', Option.bind_some, bind]
  rw [hskip]
  rfl

theorem exists_dictRemove_of_eq (h : Chained dict (l₁ ++ (a, e) :: l₂))
    (hl₁ : ∀ e ∈ l₁, e.2.key ≠ key) (hkey : e.key = key)
    (hfuel : (l₁ ++ (a, e) :: l₂).length < fuel) :
    ∃ dict', dictRemove fuel dict key = some (dict', 0) ∧ Chained dict' (l₁ ++ l₂) := by
  obtain ⟨n, n', hn, hnext, hn', hnext'⟩ := h.exists_start
  have hlength : l₁.length < fuel := by
    rw [List.length_append] at hfuel
    omega
  obtain ⟨k, rfl⟩ : ∃ k, fuel = l₁.length + (k + 1) := Nat.exists_eq_add_of_lt hlength
  have hstored := h.stored_middle
  obtain ⟨dict', heq, hchained⟩ := (h.withEntry (some (.entry a))).exists_dictDelete
  refine ⟨dict', ?_, hchained⟩
  simp only [dictRemove, hn, hnext, hn', hnext', Option.bind_some, bind]
  rw [dictRemoveLoop_skip (show Chained dict ([] ++ (l₁ ++ (a, e) :: l₂)) from h) hl₁,
    dictRemoveLoop]
  simp only [entryRefs_cons, firstOr_cons, Option.bind_some, bind, hstored, if_pos hkey, heq]

/-- **The loop of `dict_free`** ends all entries. -/
theorem exists_dictFreeLoop (h : Chained dict entries) (hfuel : entries.length < fuel) :
    ∃ dict', dictFreeLoop fuel { dict with entry := some (firstOr .head (entryRefs entries)) }
        (dict.heads.next (firstOr .head (entryRefs entries))) = some dict' ∧
      Chained dict' [] := by
  obtain ⟨fuel, rfl⟩ := Nat.exists_eq_succ_of_ne_zero (Nat.ne_zero_of_lt hfuel)
  induction entries generalizing dict fuel with
  | nil => exact ⟨_, rfl, h.withEntry (some .head)⟩
  | cons x entries ih =>
    obtain ⟨a, e⟩ := x
    have h : Chained dict ([] ++ (a, e) :: entries) := h
    have hnext := h.next_entry
    obtain ⟨dict₁, heq₁, hchained₁⟩ := (h.withEntry (some (.entry a))).exists_dictDelete
    rw [List.nil_append] at hchained₁
    obtain ⟨-, n', -, -, hn', hnext'⟩ := hchained₁.exists_start
    obtain ⟨k, rfl⟩ : ∃ k, fuel = k + 1 :=
      Nat.exists_eq_succ_of_ne_zero (by rw [List.length_cons] at hfuel; omega)
    obtain ⟨dict', heq, hchained⟩ := ih hchained₁ k (Nat.lt_of_succ_lt_succ hfuel)
    refine ⟨dict', ?_, hchained⟩
    rw [← heq, dictFreeLoop]
    simp only [entryRefs_cons, firstOr_cons, Option.bind_some, bind, heq₁, hnext, hn',
      hnext']

theorem exists_dictFree (h : Chained dict entries) (hfuel : entries.length < fuel) :
    ∃ dict', dictFree fuel dict = some dict' ∧ Chained dict' [] := by
  obtain ⟨n, n', hn, hnext, hn', hnext'⟩ := h.exists_start
  obtain ⟨dict', heq, hchained⟩ := exists_dictFreeLoop h hfuel
  refine ⟨dict', ?_, hchained⟩
  simp only [dictFree, hn, hnext, hn', hnext', Option.bind_some, bind]
  exact heq

end Loops

/-! ### Refinement -/

/-- The strings of the entries. -/
def strings (entries : List (ι × DictEntry)) : List (Σ _ : CString, CString) :=
  entries.map fun e => ⟨e.2.key, e.2.data⟩

/-- **The dictionary represents an association list**, at some addresses. -/
def Represents (dict : Dict ι) (d : Dictionary CString CString) : Prop :=
  ∃ entries, Chained dict entries ∧ d.entries = strings entries

/-- What a call does to the association list. -/
def callDictionary (d : Dictionary CString CString) :
    DictOp ι → Dictionary CString CString × List DictRet
  | .put key data _ => (d.put key data, [])
  | .remove key => if key ∈ d then (d.erase key, [.removed 0]) else (d, [.removed (-1)])
  | .free => (∅, [])
  | .forEachEntry => (d, [.visited d.pairs])

/-- `calloc` returns a block, and one that is not in use. -/
def HasMemory (dict : Dict ι) : DictOp ι → Prop
  | .put _ _ calloc => ∃ a ∈ calloc, dict.entries a = none
  | .remove _ | .free | .forEachEntry => True

instance (dict : Dict ι) : DecidablePred (HasMemory dict) := by
  intro op
  cases op <;> unfold HasMemory <;> infer_instance

/-- The change that a call is. -/
def DictOp.change : DictOp ι → Option (Change CString CString)
  | .put key data _ => some (.put key data)
  | .remove key => some (.remove key)
  | .free => some .clear
  | .forEachEntry => none

section Represents

variable {dict : Dict ι} {d : Dictionary CString CString} {entries : List (ι × DictEntry)}
  {key data : CString} {fuel : ℕ}

theorem length_strings (entries : List (ι × DictEntry)) :
    (strings entries).length = entries.length := List.length_map ..

/-- Where a key is found, or that it is not there. -/
theorem exists_find (hd : d.entries = strings entries) (key : CString) :
    (key ∉ d ∧ ∀ e ∈ entries, e.2.key ≠ key) ∨
      ∃ l₁ a e l₂, entries = l₁ ++ (a, e) :: l₂ ∧ e.key = key ∧ (∀ e ∈ l₁, e.2.key ≠ key) ∧
        d.entries = strings l₁ ++ ⟨key, e.data⟩ :: strings l₂ := by
  cases hfind : entries.find? fun e => e.2.key = key with
  | none =>
    have hne : ∀ e ∈ entries, e.2.key ≠ key := by simpa using hfind
    refine .inl ⟨?_, hne⟩
    intro hmem
    have hmem : key ∈ d.entries.keys := hmem
    rw [hd, strings, List.keys, List.map_map] at hmem
    obtain ⟨e, he, heq⟩ := List.mem_map.mp hmem
    exact hne e he heq
  | some x =>
    obtain ⟨a, e⟩ := x
    obtain ⟨hkey, l₁, l₂, rfl, hl₁⟩ := List.find?_eq_some_iff_append.mp hfind
    have hkey : e.key = key := by simpa using hkey
    refine .inr ⟨l₁, a, e, l₂, rfl, hkey, by simpa using hl₁, ?_⟩
    rw [hd, ← hkey, strings, List.map_append]
    rfl

theorem represents_init [DecidableEq ι] (entry : Option (DictRef ι))
    (head : ListHead (DictRef ι)) :
    ∃ dict, dictInit (uninitialised entry head) = some dict ∧ Represents dict ∅ := by
  have hhead : (uninitialised entry head).heads .head ≠ none := by exact nofun
  obtain ⟨heads, heq, hring⟩ := exists_initListHead hhead
  refine ⟨{ uninitialised entry head with heads }, by rw [dictInit, heq]; rfl, [], ⟨hring, ?_, ?_⟩,
    rfl⟩
  · exact nofun
  · exact fun _ _ => rfl

theorem Represents.forEachEntry (h : Represents dict d) (hfuel : d.entries.length < fuel) :
    ∃ dict', dictForEachEntry fuel dict = some (dict', d.pairs) ∧ Represents dict' d := by
  obtain ⟨entries, hchained, hd⟩ := h
  rw [hd, length_strings] at hfuel
  refine ⟨_, ?_, entries, hchained.withEntry (some .head), hd⟩
  rw [dictForEachEntry_eq hchained hfuel, Dictionary.pairs, hd, strings, List.map_map]
  rfl

variable [DecidableEq ι]

theorem Represents.put (h : Represents dict d) (hfuel : d.entries.length < fuel) {a : ι}
    (ha : dict.entries a = none) :
    ∃ dict', dictPut fuel dict key data (some a) = some dict' ∧
      Represents dict' (d.put key data) := by
  obtain ⟨entries, hchained, hd⟩ := h
  rw [hd, length_strings] at hfuel
  rcases exists_find hd key with ⟨hkey, hne⟩ | ⟨l₁, b, e, l₂, rfl, hkey, hl₁, hsplit⟩
  · obtain ⟨dict', heq, hchained'⟩ := exists_dictPut_of_forall_ne hchained hne hfuel ha
    refine ⟨dict', heq, _, hchained', ?_⟩
    rw [Dictionary.entries_put_of_notMem hkey, hd, strings, strings, List.map_append]
    rfl
  · obtain ⟨dict', heq, hchained'⟩ := exists_dictPut_of_eq hchained hl₁ hkey hfuel (some a)
    refine ⟨dict', heq, _, hchained', ?_⟩
    rw [Dictionary.entries_put_of_eq hsplit, ← hkey, strings, strings, strings, List.map_append]
    rfl

theorem Represents.remove (h : Represents dict d) (hfuel : d.entries.length < fuel)
    (key : CString) :
    ∃ dict', dictRemove fuel dict key = some (dict', if key ∈ d then 0 else -1) ∧
      Represents dict' (d.erase key) := by
  obtain ⟨entries, hchained, hd⟩ := h
  rw [hd, length_strings] at hfuel
  rcases exists_find hd key with ⟨hkey, hne⟩ | ⟨l₁, b, e, l₂, rfl, hkey, hl₁, hsplit⟩
  · obtain ⟨dict', heq, hchained'⟩ := exists_dictRemove_of_forall_ne hchained hne hfuel
    refine ⟨dict', by rw [if_neg hkey, heq], entries, hchained', ?_⟩
    rw [Dictionary.erase_of_notMem hkey, hd]
  · obtain ⟨dict', heq, hchained'⟩ := exists_dictRemove_of_eq hchained hl₁ hkey hfuel
    refine ⟨dict', by rw [if_pos (Dictionary.mem_of_entries_eq hsplit), heq], _, hchained', ?_⟩
    rw [Dictionary.entries_erase_of_eq hsplit, strings, strings, strings, List.map_append]

theorem Represents.free (h : Represents dict d) (hfuel : d.entries.length < fuel) :
    ∃ dict', dictFree fuel dict = some dict' ∧ Represents dict' ∅ := by
  obtain ⟨entries, hchained, hd⟩ := h
  rw [hd, length_strings] at hfuel
  obtain ⟨dict', heq, hchained'⟩ := exists_dictFree hchained hfuel
  exact ⟨dict', heq, [], hchained', rfl⟩

/-- **One call** does to the dictionary what it does to the association list, and returns the
same. -/
theorem represents_callDict (h : Represents dict d) (hfuel : d.entries.length < fuel)
    {op : DictOp ι} (hop : HasMemory dict op) :
    ∃ dict', (callDict fuel dict op).1 = some dict' ∧ Represents dict' (callDictionary d op).1 ∧
      (callDict fuel dict op).2 = (callDictionary d op).2 := by
  cases op with
  | put key data calloc =>
    obtain ⟨a, rfl, ha⟩ := hop
    obtain ⟨dict', heq, h'⟩ := h.put hfuel ha
    exact ⟨dict', heq, h', rfl⟩
  | remove key =>
    obtain ⟨dict', heq, h'⟩ := h.remove hfuel key
    refine ⟨dict', by rw [callDict, heq]; rfl, ?_, ?_⟩
    · rw [callDictionary]
      split_ifs with hkey
      · exact h'
      · rwa [Dictionary.erase_of_notMem hkey] at h'
    · rw [callDict, callDictionary, heq]
      split_ifs <;> rfl
  | free =>
    obtain ⟨dict', heq, h'⟩ := h.free hfuel
    exact ⟨dict', heq, h', rfl⟩
  | forEachEntry =>
    obtain ⟨dict', heq, h'⟩ := h.forEachEntry hfuel
    refine ⟨dict', by rw [callDict, heq]; rfl, h', ?_⟩
    rw [callDict, heq]
    rfl

omit [DecidableEq ι] in
/-- A call adds one entry at most. -/
theorem length_callDictionary_le (d : Dictionary CString CString) (op : DictOp ι) :
    (callDictionary d op).1.entries.length ≤ d.entries.length + 1 := by
  have hkeys : ∀ d : Dictionary CString CString, d.entries.length = d.keys.length :=
    fun d => (List.length_map ..).symm
  rw [hkeys, hkeys]
  cases op with
  | put key data calloc =>
    rw [callDictionary, Dictionary.keys_put]
    split_ifs
    · exact Nat.le_succ _
    · rw [List.length_append, List.length_singleton]
  | remove key =>
    rw [callDictionary]
    split_ifs
    · rw [AList.keys_erase]
      exact (List.length_erase_le ..).trans (Nat.le_succ _)
    · exact Nat.le_succ _
  | free => exact Nat.zero_le _
  | forEachEntry => exact Nat.le_succ _

/-- **A run** of calls, when the loops may take that many rounds. -/
theorem represents_run (h : Represents dict d) {ops : List (DictOp ι)}
    (hfuel : d.entries.length + ops.length < fuel)
    (hmemory : Meets (dictStep fuel) (fun dict op => ∀ d ∈ dict, HasMemory d op) (some dict) ops) :
    ∃ dict', run (dictStep fuel) (some dict) ops = (some dict', (run callDictionary d ops).2) ∧
      Represents dict' (run callDictionary d ops).1 ∧
      (run callDictionary d ops).1.entries.length ≤ d.entries.length + ops.length := by
  induction ops generalizing dict d with
  | nil => exact ⟨dict, rfl, h, Nat.le_refl _⟩
  | cons op ops ih =>
    rw [List.length_cons] at hfuel
    have hfuel₀ : d.entries.length < fuel := by omega
    obtain ⟨dict₁, heq₁, h₁, hrets₁⟩ := represents_callDict h hfuel₀ (hmemory.1 dict rfl)
    have hlength := length_callDictionary_le d op
    have hstep : dictStep fuel (some dict) op = (some dict₁, (callDictionary d op).2) :=
      Prod.ext heq₁ hrets₁
    have hrest := hmemory.2
    rw [hstep] at hrest
    have hfuel₁ : (callDictionary d op).1.entries.length + ops.length < fuel := by omega
    obtain ⟨dict', heq, h', hle⟩ := ih h₁ hfuel₁ hrest
    refine ⟨dict', ?_, h', ?_⟩
    · rw [run_cons, run_cons, hstep, heq]
    · rw [run_cons, List.length_cons]
      refine hle.trans ?_
      omega

omit [DecidableEq ι] in
/-- The association list after a run is that of the changes. -/
theorem run_callDictionary (d : Dictionary CString CString) (ops : List (DictOp ι)) :
    (run callDictionary d ops).1 = (ops.filterMap DictOp.change).foldl Change.apply d := by
  induction ops generalizing d with
  | nil => rfl
  | cons op ops ih =>
    rw [run_cons, ih, List.filterMap_cons]
    cases op with
    | put key data calloc => rfl
    | remove key =>
      show _ = (ops.filterMap DictOp.change).foldl Change.apply (d.erase key)
      rw [callDictionary]
      split_ifs with hkey
      · rfl
      · rw [Dictionary.erase_of_notMem hkey]
    | free => rfl
    | forEachEntry => rfl

end Represents

/-- **A dictionary is a map.**  After every sequence of calls on an initialised dictionary, wherever
its cursor is: nothing undefined has happened, the removals returned, and the loops over the
dictionary saw, what the association list has, and the dictionary represents that list.  A loop over
it sees each key once, with the value of its last put, in the order of insertion. -/
theorem dict_refines [DecidableEq ι] (entry : Option (DictRef ι)) (head : ListHead (DictRef ι))
    (ops : List (DictOp ι)) (fuel : ℕ) (hfuel : ops.length < fuel)
    (hmemory : Meets (dictStep fuel) (fun dict op => ∀ d ∈ dict, HasMemory d op)
      (dictInit (uninitialised entry head)) ops) :
    let d := (run callDictionary ∅ ops).1
    let changes := ops.filterMap DictOp.change
    ∃ dict, run (dictStep fuel) (dictInit (uninitialised entry head)) ops
        = (some dict, (run callDictionary ∅ ops).2) ∧ Represents dict d ∧
      (∃ dict', dictForEachEntry fuel dict = some (dict', d.pairs) ∧ Represents dict' d) ∧
      (d.pairs.map Prod.fst).Nodup ∧
      (∀ key data, (key, data) ∈ d.pairs ↔ Change.lastPut changes key = some data) ∧
      (d.pairs.map Prod.fst).Pairwise (Change.InsertedBefore changes) := by
  intro d changes
  obtain ⟨dict₀, hinit, h₀⟩ := represents_init entry head
  rw [hinit] at hmemory
  obtain ⟨dict, heq, h, hlength⟩ := represents_run h₀ (by simpa using hfuel) hmemory
  have hd : d = Change.applyAll changes := run_callDictionary ∅ ops
  refine ⟨dict, by rw [hinit, heq], h, h.forEachEntry ?_, ?_, ?_, ?_⟩
  · exact lt_of_le_of_lt hlength (by simpa using hfuel)
  · rw [Dictionary.map_fst_pairs]
    exact d.keys_nodup
  · intro key data
    rw [Dictionary.mem_pairs_iff, hd, Change.lookup_applyAll]
  · rw [Dictionary.map_fst_pairs, hd]
    exact Change.pairwise_keys_applyAll changes

/-- A key is put again, another one is removed and put again, behind the others then. -/
theorem dict_refines_reordered :
    let a : CString := ⟨[97], by decide⟩
    let b : CString := ⟨[98], by decide⟩
    let c : CString := ⟨[99], by decide⟩
    let ops : List (DictOp ℕ) := [.put a a (some 0), .put b b (some 1), .put c a (some 2),
      .put a c (some 3), .remove b, .forEachEntry, .remove b, .put b c (some 1)]
    let start := dictInit (uninitialised none ⟨none, none⟩)
    (run (dictStep 9) start ops).2
        = [.removed 0, .visited [(a, c), (c, a)], .removed (-1)] ∧
      ((run (dictStep 9) start ops).1.bind (dictForEachEntry 9)).map Prod.snd
        = some [(a, c), (c, a), (b, c)] := by
  intro a b c ops start
  have hrets : (run callDictionary ∅ ops).2
      = [.removed 0, .visited [(a, c), (c, a)], .removed (-1)] := by decide
  have hpairs : (run callDictionary ∅ ops).1.pairs = [(a, c), (c, a), (b, c)] := by
    decide
  obtain ⟨dict, hrun, -, ⟨dict', hvisit, -⟩, -⟩ :=
    dict_refines none ⟨none, none⟩ ops 9 (by decide) (by decide)
  have hrun : run (dictStep 9) start ops = (some dict, (run callDictionary ∅ ops).2) := hrun
  constructor
  · rw [hrun]
    exact hrets
  · rw [hrun, Option.bind_some, hvisit, Option.map_some, hpairs]

end Neufbox.Libetk
