import Neufbox.Libnbu.Equiv.Sort
import Neufbox.Libnbu.Iterator

/-!
# The iterator of a list in use

A program that uses one list in any way keeps its iterator at `NULL`, at the root node or at a node
of the list, and frees only nodes of the list, exactly as long as it is careful (`Careful`): it does
not delete at the iterator when that is at the root node, and does not delete the first or last node
when there is none any more or the iterator is at it.

* `represents_or_ended`: what a careful use leaves is a sequence with a cursor again;
* `not_iteratorSafe`: what any other use leaves is not safe;
* `iterator_safe_iff`: the two together, over every sequence of uses.
-/

namespace Neufbox.Libnbu

open Machine

variable {ι α : Type} [DecidableEq ι]

section Functions

variable {list : NbuList ι α} {s : Cursored α} {fuel : ℕ}

/-! ### Functions that look for an item -/

theorem containLoop_eq (data : α) (compare : α → α → ℤ) {l₁ l₂ : List (ι × α)}
    (h : Ringed list (l₁ ++ l₂)) (hfuel : l₂.length < fuel) :
    containLoop list data compare fuel (some (firstOr .root (refs l₂)))
      = some (if l₂.any fun e => compare e.2 data = 0 then .success else .error) := by
  induction l₂ generalizing l₁ fuel with
  | nil =>
    obtain ⟨fuel, rfl⟩ : ∃ k, fuel = k + 1 := ⟨fuel - 1, by omega⟩
    simp [containLoop]
  | cons e l₂ ih =>
    obtain ⟨fuel, rfl⟩ : ∃ k, fuel = k + 1 := ⟨fuel - 1, by omega⟩
    obtain ⟨n, hn, hnext, -, hdata⟩ := h.exists_node
    have h' : Ringed list ((l₁ ++ [e]) ++ l₂) := by simpa using h
    have hrest := ih h' (by simpa using hfuel)
    by_cases hcompare : compare e.2 data = 0
    · simp [containLoop, hn, hdata, hcompare]
    · rw [List.any_cons, decide_eq_false hcompare, Bool.false_or, ← hrest]
      simp [containLoop, hn, hdata, hcompare, hnext]

/-- **`nbu_list_contain`** finds an item that compares equal. -/
theorem nbuListContain_eq (h : Represents list s) (data : α) (compare : α → α → ℤ)
    (hfuel : s.items.length < fuel) :
    nbuListContain fuel list data compare
      = some (if s.items.any fun x => compare x data = 0 then .success else .error) := by
  obtain ⟨t, rfl, h⟩ := h
  rw [t.items_map] at hfuel ⊢
  by_cases ht : t = .fresh
  · subst ht
    obtain ⟨fuel, rfl⟩ : ∃ k, fuel = k + 1 := ⟨fuel - 1, by omega⟩
    simp [nbuListContain, containLoop, h.shape.1, Cursored.items]
  · have hring := h.ringed ht
    rw [nbuListContain, hring.rootnode_next, containLoop_eq data compare
      (show Ringed list ([] ++ t.items) from hring) (by simpa using hfuel), List.any_map]
    rfl

variable [DecidableEq α]

theorem exists_getAtIndexLoop (addr : α) (ind : ℕ) {left right : List α}
    (h : Represents list (.seek left right)) (i : ℕ) (data : Option α)
    (hfuel : right.length < fuel) :
    ∃ list' s' data', getAtIndexLoop addr ind fuel i data list = some (list', data') ∧
      Represents list' s' ∧ s'.items = left.reverse ++ right := by
  induction right generalizing list left i data fuel with
  | nil =>
    obtain ⟨fuel, rfl⟩ : ∃ k, fuel = k + 1 := ⟨fuel - 1, by omega⟩
    have hvalid : nbuListIteratorIsValid list = false := h.get.2
    refine ⟨list, _, data, ?_, h, Cursored.items_seek ..⟩
    rw [getAtIndexLoop, if_neg (by rw [hvalid]; exact Bool.false_ne_true)]
  | cons x right ih =>
    obtain ⟨fuel, rfl⟩ : ∃ k, fuel = k + 1 := ⟨fuel - 1, by omega⟩
    have hvalid : nbuListIteratorIsValid list = true := h.get.2
    have hget : nbuListGet list = some x := h.get.1
    rw [getAtIndexLoop, if_pos hvalid, hget]
    simp only [bind, Option.bind_some]
    by_cases hstop : x = addr ∨ i = ind
    · refine ⟨list, _, some x, ?_, h, Cursored.items_seek ..⟩
      rcases hstop with rfl | rfl
      · rw [if_neg (not_not.mpr rfl)]
      · rw [if_pos rfl, ite_self]
    · obtain ⟨hself, hi⟩ := not_or.mp hstop
      obtain ⟨list₁, heq₁, h₁⟩ := h.iteratorNext (iterator_ne_none_of_isValid hvalid)
      rw [show (Cursored.seek left (x :: right)).next = .seek (x :: left) right from
        Cursored.next_on left x right] at h₁
      obtain ⟨list', s', data', heq, h', hitems⟩ :=
        ih h₁ (i + 1) (some x) (by simpa using hfuel)
      refine ⟨list', s', data', ?_, h', by simpa using hitems⟩
      rw [if_pos hself, if_neg hi, heq₁, Option.bind_some, heq]

/-- **`nbu_list_get_at_index`** moves the iterator, and nothing else. -/
theorem exists_nbuListGetAtIndex (addr : α) (ind : ℕ) (h : Represents list s)
    (hfuel : s.items.length < fuel) :
    ∃ list' s' data, nbuListGetAtIndex fuel addr list ind = some (list', data) ∧
      Represents list' s' ∧ s'.items = s.items := by
  rw [nbuListGetAtIndex, h.count]
  split_ifs with hind
  · exact ⟨list, s, none, rfl, h, rfl⟩
  · have hs : s ≠ .fresh := by
      rintro rfl
      exact hind (Nat.zero_le ind)
    have hstart := h.iteratorStart
    rw [Cursored.start_of_ne_fresh hs] at hstart
    exact exists_getAtIndexLoop addr ind hstart 0 none hfuel

end Functions

/-! ### Safe programs -/

/-- The node is in the list. -/
def InList (list : NbuList ι α) (a : ι) : Prop :=
  ∃ entries, Ringed list entries ∧ a ∈ entries.map Prod.fst

/-- The iterator is at `NULL`, at the root node or at a node of the list, and nothing undefined has
happened, such as freeing the root node or a node twice. -/
def IteratorSafe : ListProgram ι α → Prop
  | .running _ list => ∀ a, list.iterator = some (.node a) → InList list a
  | .ended => True
  | .undefined => False

/-- What `calloc` guarantees: a new block is none of the nodes of the list, and a new list none of
its items. -/
def Unused : ListProgram ι α → ListUse ι α → Prop
  | .running _ list, .call op =>
    match op with
    | .insertBegin _ calloc | .insertEnd _ calloc | .insertBefore _ calloc
    | .insertAfter _ calloc => ∀ a ∈ calloc, list.heap a = none
    | _ => True
  | .running _ list, .sort call =>
    ∀ sortedAddr ∈ call.callocList, ∀ a n, list.heap a = some n → n.data ≠ some sortedAddr
  | _, _ => True

/-- A deletion at the iterator is not made at the root node.  The first or last node is not deleted
when the root node has been linked to itself, and not when the iterator is at it. -/
def CarefulCall (list : NbuList ι α) : ListOp ι α → Prop
  | .deleteForward | .deleteBackward => list.iterator ≠ some .root
  | .deleteBegin => list.rootnode.next = none ∨
      list.rootnode.next ≠ some .root ∧ list.rootnode.next ≠ list.iterator
  | .deleteEnd => list.rootnode.prev = none ∨
      list.rootnode.prev ≠ some .root ∧ list.rootnode.prev ≠ list.iterator
  | _ => True

instance (list : NbuList ι α) : DecidablePred (CarefulCall list)
  | .deleteForward | .deleteBackward => inferInstanceAs (Decidable (list.iterator ≠ some .root))
  | .deleteBegin => inferInstanceAs (Decidable (list.rootnode.next = none ∨
      list.rootnode.next ≠ some .root ∧ list.rootnode.next ≠ list.iterator))
  | .deleteEnd => inferInstanceAs (Decidable (list.rootnode.prev = none ∨
      list.rootnode.prev ≠ some .root ∧ list.rootnode.prev ≠ list.iterator))
  | .insertBegin .. | .insertEnd .. | .insertBefore .. | .insertAfter .. | .iteratorStart
  | .iteratorEnd | .iteratorNext | .iteratorPrevious => isTrue trivial

/-- The use is a careful one. -/
def Careful : ListProgram ι α → ListUse ι α → Prop
  | .running _ list, .call op => CarefulCall list op
  | _, _ => True

instance : ∀ (program : ListProgram ι α) (use : ListUse ι α), Decidable (Careful program use)
  | .running _ list, .call op => inferInstanceAs (Decidable (CarefulCall list op))
  | .running _ _, .look | .running _ _, .contain .. | .running _ _, .getAtIndex _
  | .running _ _, .sort _ | .running _ _, .destroy | .ended, _ | .undefined, _ => isTrue trivial

/-- The program still has a list, or has ended. -/
def Tracked : ListProgram ι α → Prop
  | .running _ list => ∃ s, Represents list s
  | .ended => True
  | .undefined => False

section Uses

variable {list : NbuList ι α} {s : Cursored α} {addr : α}

omit [DecidableEq ι] in
theorem Tracked.iteratorSafe {program : ListProgram ι α} (h : Tracked program) :
    IteratorSafe program := by
  cases program with
  | ended => trivial
  | undefined => exact h
  | running addr list =>
    obtain ⟨_, t, rfl, hholds⟩ := h
    intro a ha
    rw [hholds.iterator] at ha
    cases t with
    | on left e right =>
      obtain rfl := Ref.node.inj (Option.some.inj ha)
      exact ⟨_, hholds.shape, by simp [Cursored.items]⟩
    | fresh | unset | off => exact absurd ha (by simp [iteratorRef])

/-! ### Careful uses -/

/-- A call that is careful, does not fail and is given unused memory may be made. -/
theorem legal_of_carefulCall {op : ListOp ι α} (hunused : Unused (.running addr list) (.call op))
    (hfails : assertionFails list op = false) (hcareful : CarefulCall list op) :
    Legal list op := by
  cases op with
  | insertBegin | insertEnd | insertBefore | insertAfter => exact hunused
  | deleteForward | deleteBackward =>
    simp only [assertionFails, decide_eq_false_iff_not] at hfails
    simp only [Legal, nbuListIteratorIsValid, decide_eq_true_eq]
    exact ⟨hfails, hcareful⟩
  | deleteBegin | deleteEnd =>
    simp only [assertionFails, decide_eq_false_iff_not] at hfails
    exact ⟨hfails, hcareful.resolve_left hfails⟩
  | iteratorStart | iteratorEnd => trivial
  | iteratorNext | iteratorPrevious =>
    simp only [assertionFails, decide_eq_false_iff_not] at hfails
    exact hfails

omit [DecidableEq ι] in
/-- A new list is none of the items. -/
theorem not_mem_items_of_unused (h : Represents list s) {sortedAddr : α}
    (hunused : ∀ a n, list.heap a = some n → n.data ≠ some sortedAddr) :
    sortedAddr ∉ s.items := by
  obtain ⟨t, rfl, h⟩ := h
  rw [t.items_map]
  intro hmem
  obtain ⟨e, he, rfl⟩ := List.mem_map.mp hmem
  have ht : t ≠ .fresh := by
    rintro rfl
    exact List.not_mem_nil he
  obtain ⟨n, hn, hdata⟩ := Option.bind_eq_some_iff.mp ((h.ringed ht).data e he)
  exact hunused e.1 n hn hdata

/-- **A careful use** leaves a sequence with a cursor, or ends the program. -/
theorem represents_or_ended [DecidableEq α] (h : Represents list s) {use : ListUse ι α}
    (hunused : Unused (.running addr list) use) (hcareful : Careful (.running addr list) use) :
    Tracked (useList addr list use) := by
  have hfuel : s.items.length < list.count + 1 := by
    rw [h.count]
    exact Nat.lt_succ_self _
  cases use with
  | call op =>
    cases hfails : assertionFails list op with
    | true =>
      rw [useList, if_pos hfails]
      trivial
    | false =>
      obtain ⟨list', heq, h', -⟩ :=
        represents_call h (legal_of_carefulCall hunused hfails hcareful)
      rw [useList, if_neg (by rw [hfails]; exact Bool.false_ne_true), heq]
      exact ⟨_, h'⟩
  | look =>
    rw [useList]
    rcases hiterator : list.iterator with - | (- | a)
    · trivial
    · exact ⟨s, h⟩
    · -- the iterator is at a node of the list
      obtain ⟨entries, hring, hmem⟩ :=
        Tracked.iteratorSafe (show Tracked (.running addr list) from ⟨s, h⟩) a hiterator
      obtain ⟨n, hn⟩ := Option.ne_none_iff_exists'.mp ((hring.node a).mpr hmem)
      simp only [hn, Option.map_some]
      exact ⟨s, h⟩
  | contain data compare =>
    rw [useList, nbuListContain_eq h data compare hfuel]
    exact ⟨s, h⟩
  | getAtIndex ind =>
    obtain ⟨list', s', data, heq, h', -⟩ := exists_nbuListGetAtIndex addr ind h hfuel
    rw [useList, heq]
    exact ⟨s', h'⟩
  | sort call =>
    rw [useList]
    cases hlist : call.callocList with
    | none => trivial
    | some sortedAddr =>
      have hself := not_mem_items_of_unused h (hunused sortedAddr hlist)
      obtain ⟨list', s', heq, h', -⟩ :=
        exists_nbuListSort call.sortFunc addr h hself call.distinct hfuel
      simp only [heq, Option.map_some]
      exact ⟨s', h'⟩
  | destroy =>
    obtain ⟨list', heq, -⟩ := exists_nbuListDestroy h hfuel
    rw [useList, heq]
    trivial

/-! ### Careless uses -/

/-- The root node cannot be freed. -/
theorem nbuListDestroyNode_root (list : NbuList ι α) :
    nbuListDestroyNode list (some .root) = none := by
  simp only [nbuListDestroyNode, NbuList.free, bind, Option.bind_some, NbuList.node,
    Option.bind_none, Option.bind_fun_none]
  cases list.rootnode.next with
  | none =>
    refine Option.bind_eq_none_iff.mpr fun list' _ => ?_
    cases list'.rootnode.prev <;> rfl
  | some next =>
    refine Option.bind_eq_none_iff.mpr fun list' _ => ?_
    cases list'.rootnode.prev <;> rfl

omit [DecidableEq ι] in
/-- The iterator stays at a node that is taken out of the list. -/
theorem not_iteratorSafe_of_erased {list' : NbuList ι α} {l₁ l₂ : List (ι × α)} {e : ι × α}
    (h : Ringed list (l₁ ++ e :: l₂)) (h' : Ringed list' (l₁ ++ l₂))
    (hiterator : list'.iterator = some (.node e.1)) : ¬IteratorSafe (.running addr list') := by
  intro hsafe
  obtain ⟨entries, hring, hmem⟩ := hsafe e.1 hiterator
  have hleft : e.1 ∈ (l₁ ++ l₂).map Prod.fst := (h'.node e.1).mp ((hring.node e.1).mpr hmem)
  have hnodup := h.ring.nodup
  rw [refs_append, refs_cons] at hnodup
  refine (nodup_append_cons_iff.mp hnodup).1 ?_
  rw [← refs_append]
  exact node_mem_refs_iff.mpr hleft

omit [DecidableEq ι] in
/-- The program does not go on after something undefined. -/
theorem not_iteratorSafe_goOn {r : Option (NbuList ι α)} (hnone : r = none) :
    ¬IteratorSafe (.goOn addr r) := by
  subst hnone
  exact id

/-- The node that is destroyed is the root node, or the iterator stays at it. -/
theorem not_iteratorSafe_destroyNode {t : Cursored (ι × α)} (h : Holds list t)
    {ref : Option (Ref ι)} (hcareful : ¬(ref = none ∨ ref ≠ some .root ∧ ref ≠ list.iterator)) :
    ¬IteratorSafe (.goOn addr (nbuListDestroyNode list ref)) := by
  obtain ⟨hnode, hends⟩ := not_or.mp hcareful
  by_cases hroot : ref = some .root
  · rw [hroot]
    exact not_iteratorSafe_goOn (nbuListDestroyNode_root list)
  · obtain rfl : ref = list.iterator := not_not.mp fun hne => hends ⟨hroot, hne⟩
    have hiterator := h.iterator
    cases t with
    | fresh | unset => exact absurd hiterator hnode
    | off => exact absurd hiterator hroot
    | on left e right =>
      obtain ⟨list', heq, hring, hit, -⟩ := exists_destroyNode h.shape
      rw [hiterator, show nbuListDestroyNode list (iteratorRef (.on left e right)) = _ from heq]
      exact not_iteratorSafe_of_erased h.shape hring (hit.trans hiterator)

/-- **A careless use** frees the root node or leaves the iterator at a node that was freed. -/
theorem not_iteratorSafe [DecidableEq α] (h : Represents list s) {use : ListUse ι α}
    (hcareful : ¬Careful (.running addr list) use) : ¬IteratorSafe (useList addr list use) := by
  obtain ⟨t, -, hholds⟩ := h
  cases use with
  | look | contain | getAtIndex | sort | destroy => exact absurd trivial hcareful
  | call op =>
    cases op with
    | deleteForward | deleteBackward =>
      have hroot : list.iterator = some .root := not_not.mp hcareful
      rw [useList, if_neg (by simp [assertionFails, hroot])]
      refine not_iteratorSafe_goOn ?_
      simp [callList, returnsNothing, nbuListDeleteForward, nbuListDeleteBackward, hroot,
        NbuList.node, nbuListDestroyNode_root]
    | deleteBegin | deleteEnd =>
      have hnode := (not_or.mp hcareful).1
      rw [useList, if_neg (by simpa [assertionFails] using hnode)]
      exact not_iteratorSafe_destroyNode hholds hcareful
    | _ => exact absurd trivial hcareful

end Uses

/-! ### Runs -/

variable [DecidableEq α]

/-- **The iterator of a list.**  A program uses a new list in any way, and `calloc` returns blocks
that are not in use.  The iterator is always at `NULL`, at the root node or at a node of the list,
and neither the root node is freed nor a node twice, if and only if all uses are careful: none
deletes at the iterator when that is at the root node, and none deletes the first or last node when
the list was emptied again or the iterator is at that node. -/
theorem iterator_safe_iff (addr : α) (dataSize : ℕ) (uses : List (ListUse ι α))
    (hblocks : Meets listProgramStep Unused (.running addr (nbuListNew dataSize)) uses) :
    (∀ before, before <+: uses →
      IteratorSafe (run listProgramStep (.running addr (nbuListNew dataSize)) before).1) ↔
    Meets listProgramStep Careful (.running addr (nbuListNew dataSize)) uses := by
  have hstart : Tracked (.running addr (nbuListNew dataSize : NbuList ι α)) :=
    ⟨.fresh, .fresh, rfl, holds_new dataSize⟩
  have hstep : ∀ (program : ListProgram ι α) (use : ListUse ι α), Unused program use →
      Tracked program → Careful program use → Tracked (listProgramStep program use).1 := by
    intro program use hunused htracked hcareful
    cases program with
    | running addr list =>
      obtain ⟨s, h⟩ := htracked
      exact represents_or_ended h hunused hcareful
    | ended => trivial
    | undefined => exact htracked
  refine forall_prefix_iff_meets_of_meets listProgramStep (fun _ _ => ()) (γ := Unit)
    (I := fun program _ => Tracked program) (P := fun program _ => IteratorSafe program)
    ?_ (fun program _ use => hstep program use) uses _ () hblocks hstart hstart.iteratorSafe
  intro program _ use hunused htracked
  refine ⟨fun hsafe => ?_, fun hcareful =>
    (hstep program use hunused htracked hcareful).iteratorSafe⟩
  cases program with
  | running addr list =>
    obtain ⟨s, h⟩ := htracked
    exact not_not.mp fun hcareless => not_iteratorSafe h hcareless hsafe
  | ended => trivial
  | undefined => exact absurd htracked id

/-- A list is filled, emptied at the iterator and filled again. -/
theorem iterator_safe_refill :
    let uses : List (ListUse ℕ ℕ) := [.call (.insertEnd 7 (some 1)), .call (.insertEnd 8 (some 2)),
      .call .iteratorEnd, .call .deleteBegin, .look, .call .deleteForward,
      .call (.insertBegin 9 (some 1)), .getAtIndex 0]
    IteratorSafe (run listProgramStep (.running 0 (nbuListNew 4)) uses).1 := by
  refine (iterator_safe_iff 0 4 _ ?_).mpr (by decide) _ List.prefix_rfl
  refine ⟨?_, ?_, trivial, trivial, trivial, trivial, ?_, trivial, trivial⟩
  all_goals
    rintro a ⟨⟩
    rfl

/-- The first node is deleted while the iterator is at it: the iterator dangles, and the next
deletion frees the node again.  In a list that was emptied, the deletion frees the root node. -/
theorem iterator_dangles :
    let filled : List (ListUse ℕ ℕ) := [.call (.insertEnd 7 (some 1)), .call .iteratorStart]
    let start : ListProgram ℕ ℕ := .running 0 (nbuListNew 4)
    ¬IteratorSafe (run listProgramStep start (filled ++ [.call .deleteBegin])).1 ∧
      (run listProgramStep start (filled ++ [.call .deleteBegin, .call .deleteForward])).1
        = .undefined ∧
      (run listProgramStep start (filled ++ [.call .deleteForward, .call .deleteBegin])).1
        = .undefined := by
  refine ⟨fun hsafe => ?_, rfl, rfl⟩
  obtain ⟨entries, hring, hmem⟩ := hsafe 1 rfl
  exact (hring.node 1).mpr hmem rfl

end Neufbox.Libnbu
