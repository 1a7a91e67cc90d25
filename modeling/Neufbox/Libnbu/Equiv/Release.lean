import Neufbox.Libnbu.Equiv.Sort
import Neufbox.Libnbu.Release

/-!
# What is released with a list

* `nbuListDestroyReleasing_eq`: destroying a list releases each item once;
* `nbuListSortReleasing_eq`: sorting releases nothing, and leaves a list that never will;
* `sort_release_iff`: so that the items of a list are released once exactly if it was not sorted, or
  has none.
-/

namespace Neufbox.Libnbu

variable {φ ι α : Type} [DecidableEq ι]

/-- The releases of all items, each once. -/
def releases (terminator : Terminator φ) (items : List α) : List (Release φ α) :=
  items.flatMap fun x => terminator.release (some x)

section

variable {list : NbuList ι α} {s : Cursored α} {fuel : ℕ}

/-! ### Destroying a list -/

/-- A round of `nbu_list_destroy` is a deletion at the cursor, which releases the item there. -/
theorem destroyLoopReleasing_succ (terminator : Terminator φ) (fuel : ℕ) (list : NbuList ι α) :
    destroyLoopReleasing terminator (fuel + 1) list
      = if nbuListIteratorIsValid list then
          (nbuListDeleteForward list).bind fun list' =>
            (destroyLoopReleasing terminator fuel list').map
              (terminator.release (nbuListGet list) ++ ·)
        else some [] := by
  rw [destroyLoopReleasing, nbuListDeleteForward, nbuListGet]
  congr 1
  rcases hiterator : list.iterator with - | ref
  · rfl
  rcases hnode : list.node ref with - | node
  · simp only [bind, Option.bind_some, hnode, Option.bind_none]
  simp only [destroyNodeReleasing, bind, Option.bind_some, hnode, Option.bind_assoc,
    Option.map_eq_bind]
  rfl

/-- **Destroying a list** releases each of its items once. -/
theorem nbuListDestroyReleasing_eq (terminator : Terminator φ) (h : Represents list s)
    (hfuel : s.items.length < fuel) :
    nbuListDestroyReleasing fuel ⟨list, terminator⟩ = some (releases terminator s.items) := by
  have hdrains := h.drains
  rw [nbuListDestroyReleasing]
  generalize nbuListIteratorStart list = start, s.items = items at hdrains hfuel ⊢
  induction hdrains generalizing fuel with
  | done hvalid _ =>
    obtain ⟨fuel, rfl⟩ := Nat.exists_eq_add_one.mpr (Nat.zero_lt_of_lt hfuel)
    rw [destroyLoopReleasing_succ, hvalid]
    rfl
  | round hvalid hget hdelete _ ih =>
    obtain ⟨fuel, rfl⟩ := Nat.exists_eq_add_one.mpr (Nat.zero_lt_of_lt hfuel)
    rw [destroyLoopReleasing_succ, if_pos hvalid, hdelete, Option.bind_some,
      ih (Nat.lt_of_succ_lt_succ hfuel), hget, Option.map_some]
    rfl

/-- The terminator function that does nothing. -/
theorem destroyLoopReleasing_void (fuel : ℕ) (list : NbuList ι α) :
    destroyLoopReleasing (.void : Terminator φ) fuel list
      = (nbuListDestroyLoop fuel list).map fun _ => [] := by
  induction fuel generalizing list with
  | zero => rfl
  | succ fuel ih =>
    rw [destroyLoopReleasing_succ, nbuListDestroyLoop_succ]
    split_ifs
    · cases nbuListDeleteForward list with
      | none => rfl
      | some list' =>
        rw [Option.bind_some, Option.bind_some, ih, Option.map_map]
        rfl
    · rfl

/-! ### Sorting a list -/

variable [DecidableEq α]

/-- **Sorting a list** releases nothing, and leaves a list that does not release anything either. -/
theorem nbuListSortReleasing_eq (fuel : ℕ) (tosortAddr : α) (call : SortCall ι α)
    (owning : OwningList φ ι α) :
    nbuListSortReleasing fuel tosortAddr call owning
      = (nbuListSort call.sortFunc fuel tosortAddr call.callocList call.calloc owning.list).map
        fun r => (⟨r.1, .void⟩, []) := by
  simp only [nbuListSortReleasing, nbuListSort, nbuListDestroyReleasing, nbuListDestroy,
    destroyLoopReleasing_void, bind, Option.map_bind, Option.map_some, Option.bind_map,
    Function.comp_def]

/-- Any number of sorts releases nothing; after at least one, the list does not release anything. -/
theorem sortsReleasing_spec {addr : α} {calls : List (SortCall ι α)}
    {owning owning' : OwningList φ ι α} {released : List (Release φ α)}
    (h : sortsReleasing fuel addr owning calls = some (owning', released)) :
    released = [] ∧ (∀ call ∈ calls, call.callocList ≠ none) ∧
      (calls ≠ [] → owning'.terminator = .void) ∧ (calls = [] → owning' = owning) := by
  induction calls generalizing addr owning released with
  | nil =>
    obtain ⟨rfl, rfl⟩ := Prod.mk.inj (Option.some.inj h)
    exact ⟨rfl, fun call hcall => (nomatch hcall), fun hne => absurd rfl hne, fun _ => rfl⟩
  | cons call calls ih =>
    rw [sortsReleasing, nbuListSortReleasing_eq] at h
    obtain ⟨⟨owning₁, released₁⟩, hsort, h⟩ := Option.bind_eq_some_iff.mp h
    obtain ⟨addr₁, haddr, h⟩ := Option.bind_eq_some_iff.mp h
    obtain ⟨⟨owning₂, released₂⟩, hrest, hend⟩ := Option.bind_eq_some_iff.mp h
    obtain ⟨⟨list₁, ret⟩, -, heq⟩ := Option.map_eq_some_iff.mp hsort
    obtain ⟨rfl, rfl⟩ := Prod.mk.inj heq
    obtain ⟨rfl, rfl⟩ := Prod.mk.inj (Option.some.inj hend)
    obtain ⟨rfl, hlists, hvoid, hsame⟩ := ih hrest
    refine ⟨rfl, List.forall_mem_cons.mpr ⟨?_, hlists⟩, fun _ => ?_, fun hnil => nomatch hnil⟩
    · rw [haddr]
      exact nofun
    · by_cases hnil : calls = []
      · rw [hsame hnil]
      · exact hvoid hnil

/-- An empty list is sorted any number of times. -/
theorem exists_sortsReleasing_nil {calls : List (SortCall ι α)} (addr : α)
    {owning : OwningList φ ι α} (h : Represents owning.list s) (hs : s.items = [])
    (hfuel : 0 < fuel) (hlists : ∀ call ∈ calls, call.callocList ≠ none) :
    ∃ owning' s', sortsReleasing fuel addr owning calls = some (owning', []) ∧
      Represents owning'.list s' ∧ s'.items = [] := by
  induction calls generalizing addr owning s with
  | nil => exact ⟨owning, s, rfl, h, hs⟩
  | cons call calls ih =>
    obtain ⟨hlist, hlists⟩ := List.forall_mem_cons.mp hlists
    obtain ⟨addr₁, haddr⟩ := Option.ne_none_iff_exists'.mp hlist
    have hself : addr₁ ∉ s.items := by
      rw [hs]
      exact List.not_mem_nil
    have hlength : s.items.length < fuel := by rwa [hs]
    obtain ⟨list₁, s₁, hsort, h₁, hitems, -⟩ :=
      exists_nbuListSort call.sortFunc addr h hself call.distinct hlength
    rw [hs] at hitems
    have h₁ : Represents (⟨list₁, .void⟩ : OwningList φ ι α).list s₁ := h₁
    obtain ⟨owning', s', heq, h', hs'⟩ := ih addr₁ h₁ hitems hlists
    refine ⟨owning', s', ?_, h', hs'⟩
    rw [sortsReleasing, nbuListSortReleasing_eq, haddr, hsort]
    simp only [bind, Option.map_some, Option.bind_some, heq, List.append_nil]

end

/-! ### Sorting and destroying -/

omit [DecidableEq ι] in
theorem releases_eq_nil_iff {terminator : Terminator φ} (hown : terminator ≠ .void)
    {items : List α} : releases terminator items = [] ↔ items = [] := by
  cases items with
  | nil => exact iff_of_true rfl rfl
  | cons x items =>
    refine iff_of_false ?_ (List.cons_ne_nil x items)
    cases terminator with
    | void => exact absurd rfl hown
    | null => exact List.cons_ne_nil _ _
    | func f => exact List.cons_ne_nil _ _

/-- What is expected of a list that is sorted any number of times and then destroyed: sorting
releases nothing, and destroying releases each item once, in the way of the list. -/
def ReleasesOnce [DecidableEq α] (fuel : ℕ) (addr : α) (owning : OwningList φ ι α)
    (calls : List (SortCall ι α)) (items : List α) : Prop :=
  ∃ owning' released, sortsReleasing fuel addr owning calls = some (owning', []) ∧
    nbuListDestroyReleasing fuel owning' = some released ∧
    released.Perm (releases owning.terminator items)

/-- **Releasing the data of a list.**  For every well-formed list with any terminator function, or
none: after any number of sorts, destroying the list releases each item once, in the way of the
list, if and only if it was not sorted at all, or it has no items and there is memory for the new
lists.  Sorting itself never releases anything, and an unsorted list releases each item once. -/
theorem sort_release_iff [DecidableEq α] {list : NbuList ι α} {s : Cursored α}
    (hrep : Represents list s) {terminator : Terminator φ} (hown : terminator ≠ .void) (addr : α)
    (calls : List (SortCall ι α)) {fuel : ℕ} (hfuel : list.count < fuel) :
    (ReleasesOnce fuel addr ⟨list, terminator⟩ calls s.items ↔
      calls = [] ∨ s.items = [] ∧ ∀ call ∈ calls, call.callocList ≠ none) ∧
    (∀ owning' released,
      sortsReleasing fuel addr ⟨list, terminator⟩ calls = some (owning', released) →
        released = []) ∧
    nbuListDestroyReleasing fuel ⟨list, terminator⟩ = some (releases terminator s.items) := by
  rw [hrep.count] at hfuel
  have hdestroy := nbuListDestroyReleasing_eq terminator hrep hfuel
  refine ⟨⟨?_, ?_⟩, fun owning' released h => (sortsReleasing_spec h).1, hdestroy⟩
  · rintro ⟨owning', released, hsorts, hreleased, hperm⟩
    obtain ⟨-, hlists, hvoid, -⟩ := sortsReleasing_spec hsorts
    by_cases hcalls : calls = []
    · exact .inl hcalls
    -- the sorted list releases nothing
    rw [nbuListDestroyReleasing, hvoid hcalls, destroyLoopReleasing_void] at hreleased
    obtain ⟨-, -, rfl⟩ := Option.map_eq_some_iff.mp hreleased
    exact .inr ⟨(releases_eq_nil_iff hown).mp hperm.nil_eq.symm, hlists⟩
  · rintro (rfl | ⟨hs, hlists⟩)
    · exact ⟨_, _, rfl, hdestroy, .refl _⟩
    · obtain ⟨owning', s', hsorts, h', hs'⟩ := exists_sortsReleasing_nil addr
        (show Represents (⟨list, terminator⟩ : OwningList φ ι α).list s from hrep) hs
        (Nat.zero_lt_of_lt hfuel) hlists
      have hlength : s'.items.length < fuel := by
        rw [hs']
        exact Nat.zero_lt_of_lt hfuel
      refine ⟨owning', _, hsorts, nbuListDestroyReleasing_eq owning'.terminator h' hlength, ?_⟩
      rw [hs, hs']
      exact .refl _

theorem eq_of_some_eq (i j a : ℕ) (hi : some i = some a) (hj : some j = some a) : i = j :=
  Option.some.inj (hi.trans hj.symm)

/-- A sort in ascending order, with memory for everything. -/
def ascending : SortCall ℕ ℕ where
  sortFunc a b := (a : ℤ) - b
  callocList := some 8
  calloc := some
  distinct := eq_of_some_eq

/-- Three items that are not sorted. -/
theorem sort_release_unsorted :
    ∃ (list : NbuList ℕ ℕ) (s : Cursored ℕ), Represents list s ∧ s.items = [3, 1, 2] ∧
      ReleasesOnce 4 7 (⟨list, .func ()⟩ : OwningList Unit ℕ ℕ) [] s.items := by
  obtain ⟨list, s, hrep, hitems⟩ := exists_represents (ι := ℕ) [3, 1, 2]
  have hcount : list.count < 4 := by
    rw [hrep.count, hitems]
    decide
  exact ⟨list, s, hrep, hitems,
    (sort_release_iff hrep (by exact nofun) 7 [] hcount).1.mpr (.inl rfl)⟩

/-- One item: it is freed with the list, and not at all after the list was sorted. -/
theorem sort_release_leaks :
    let list : NbuList ℕ ℕ := ((nbuListInsertEnd (nbuListNew 4) 5 (some 0)).map Prod.fst).getD
      (nbuListNew 4)
    nbuListDestroyReleasing 2 (⟨list, .null⟩ : OwningList Unit ℕ ℕ) = some [.free (some 5)] ∧
      (sortsReleasing 2 7 (⟨list, .null⟩ : OwningList Unit ℕ ℕ) [ascending]).bind
        (fun r => nbuListDestroyReleasing 2 r.1) = some [] := by
  decide

end Neufbox.Libnbu
