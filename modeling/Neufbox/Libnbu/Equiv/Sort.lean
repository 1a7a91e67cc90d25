import Mathlib.Data.List.Sort
import Neufbox.Libnbu.Equiv.List
import Neufbox.Libnbu.Sort

/-!
# The sorted list

The outer loop of `nbu_list_sort` keeps the sorted list what `List.insertionSort` makes of the items
before the cursor, in reverse: one round inserts with `List.orderedInsert`.  That the result is
sorted and a permutation is then a fact about these functions.

An item can get lost on the way: `insertedItems` are those that come to be in the sorted list.  The
loop ends at an item that is the address of the list, and an insertion for which there is no memory
is refused, which the function does not notice.  `nbuListSort_iff` says that these are the only
ways.

* `nbuListSortInner_spec`, `exists_nbuListSortBody`: where the inner loop ends, and one round;
* `SortedSoFar`, `SortedSoFar.round`, `exists_nbuListSortLoop`: the invariant of the outer loop;
* `exists_nbuListDestroy`: the old list is taken apart.
-/

namespace Neufbox.Libnbu

variable {ι α : Type}

/-! ### Comparison functions -/

variable (sortFunc : α → α → ℤ)

/-- The order of a comparison function. -/
def NotAfter (a b : α) : Prop := sortFunc a b ≤ 0

instance (sortFunc : α → α → ℤ) : DecidableRel (NotAfter sortFunc) :=
  fun a b => inferInstanceAs (Decidable (sortFunc a b ≤ 0))

/-- The order is a total preorder. -/
structure Compares (sortFunc : α → α → ℤ) : Prop where
  total : ∀ a b, NotAfter sortFunc a b ∨ NotAfter sortFunc b a
  trans : ∀ a b c, NotAfter sortFunc a b → NotAfter sortFunc b c → NotAfter sortFunc a c

theorem orderedInsert_append {r : α → α → Prop} [DecidableRel r] {x : α} {l₁ l₂ : List α}
    (h₁ : ∀ y ∈ l₁, ¬r x y) (h₂ : ∀ y ∈ l₂.head?, r x y) :
    (l₁ ++ l₂).orderedInsert r x = l₁ ++ x :: l₂ := by
  induction l₁ with
  | nil =>
    cases l₂ with
    | nil => rfl
    | cons y l₂ => exact List.orderedInsert_cons_of_le r l₂ (h₂ y rfl)
  | cons y l₁ ih =>
    rw [List.cons_append, List.orderedInsert_of_not_le r _ (h₁ y (List.mem_cons_self ..)),
      ih fun z hz => h₁ z (List.mem_cons_of_mem _ hz), List.cons_append]

/-! ### The old list -/

section Destroy

variable [DecidableEq ι] {list : NbuList ι α} {s : Cursored α} {fuel : ℕ}

theorem Represents.deleteForward (h : Represents list s)
    (hvalid : nbuListIteratorIsValid list = true) :
    ∃ list', nbuListDeleteForward list = some list' ∧ Represents list' s.deleteForward := by
  obtain ⟨t, rfl, h⟩ := h
  obtain ⟨list', heq, h'⟩ := h.deleteForward hvalid
  exact ⟨list', heq, t.deleteForward, t.map_deleteForward _, h'⟩

/-- A round of `nbu_list_destroy` is a deletion at the cursor. -/
theorem nbuListDestroyLoop_succ (fuel : ℕ) (list : NbuList ι α) :
    nbuListDestroyLoop (fuel + 1) list
      = if nbuListIteratorIsValid list then
          (nbuListDeleteForward list).bind (nbuListDestroyLoop fuel)
        else some list := by
  rw [nbuListDestroyLoop, nbuListDeleteForward]
  simp only [bind, Option.bind_assoc, Option.bind_some]

/-- The rounds of `nbu_list_destroy`, with the item at the cursor in each. -/
inductive Drains : NbuList ι α → List α → Prop
  | done {list : NbuList ι α} (hvalid : nbuListIteratorIsValid list = false)
      (hcount : list.count = 0) : Drains list []
  | round {list list' : NbuList ι α} {x items} (hvalid : nbuListIteratorIsValid list = true)
      (hget : nbuListGet list = some x) (hdelete : nbuListDeleteForward list = some list')
      (h : Drains list' items) : Drains list (x :: items)

theorem drains_ofFirst {items : List α} (h : Represents list (.ofFirst items)) :
    Drains list items := by
  induction items generalizing list with
  | nil => exact .done h.get.2 h.count
  | cons x items ih =>
    obtain ⟨list', hdelete, h'⟩ := h.deleteForward h.get.2
    have hnext : (Cursored.ofFirst (x :: items)).deleteForward = .ofFirst items := by
      cases items <;> rfl
    rw [hnext] at h'
    exact .round h.get.2 h.get.1 hdelete (ih h')

theorem Represents.drains (h : Represents list s) : Drains (nbuListIteratorStart list) s.items := by
  have hstart := h.iteratorStart
  cases s with
  | fresh => exact .done hstart.get.2 hstart.count
  | _ => exact drains_ofFirst hstart

/-- **The old list** is taken apart; no node of it is left. -/
theorem exists_nbuListDestroy (h : Represents list s) (hfuel : s.items.length < fuel) :
    ∃ list', nbuListDestroy fuel list = some list' ∧ list'.count = 0 := by
  have hdrains := h.drains
  rw [nbuListDestroy]
  generalize nbuListIteratorStart list = start, s.items = items at hdrains hfuel ⊢
  induction hdrains generalizing fuel with
  | done hvalid hcount =>
    obtain ⟨fuel, rfl⟩ := Nat.exists_eq_add_one.mpr (Nat.zero_lt_of_lt hfuel)
    exact ⟨_, by rw [nbuListDestroyLoop_succ, hvalid]; rfl, hcount⟩
  | round hvalid _ hdelete _ ih =>
    obtain ⟨fuel, rfl⟩ := Nat.exists_eq_add_one.mpr (Nat.zero_lt_of_lt hfuel)
    rw [nbuListDestroyLoop_succ, if_pos hvalid, hdelete]
    exact ih (Nat.lt_of_succ_lt_succ hfuel)

end Destroy

/-! ### One insertion -/

section Insertion

variable [DecidableEq ι] [DecidableEq α] {sortedAddr : α} {x : α}
  {calloc : Option ι} {list : NbuList ι α} {t : Cursored (ι × α)} {fuel : ℕ}

omit [DecidableEq ι] [DecidableEq α] in
theorem dataSize_iteratorNext {list' : NbuList ι α} (h : nbuListIteratorNext list = some list') :
    list'.dataSize = list.dataSize := by
  rw [nbuListIteratorNext] at h
  obtain ⟨iterator, -, h⟩ := Option.bind_eq_some_iff.mp h
  obtain ⟨node, -, h⟩ := Option.bind_eq_some_iff.mp h
  obtain rfl := Option.some.inj h
  rfl

/-- **The inner loop** ends at the first item that the new one does not go behind: it inserts there,
or is at the end. -/
theorem nbuListSortInner_spec (x : α) (calloc : Option ι)
    {left right : List (ι × α)} (h : Holds list (.seek left right))
    (hself : ∀ e ∈ right, e.2 ≠ sortedAddr) (hfuel : right.length < fuel) :
    ∃ l r list', right = l ++ r ∧ (∀ e ∈ l, ¬NotAfter sortFunc x e.2) ∧
      (∀ e ∈ r.head?, NotAfter sortFunc x e.2) ∧ Holds list' (.seek (l.reverse ++ left) r) ∧
      list'.dataSize = list.dataSize ∧
      nbuListSortInner sortFunc sortedAddr x calloc fuel list
        = if r = [] then some (list', false)
          else (nbuListInsertBefore list' x calloc).map fun p => (p.1, true) := by
  induction right generalizing list left fuel with
  | nil =>
    obtain ⟨fuel, rfl⟩ : ∃ k, fuel = k + 1 := ⟨fuel - 1, by omega⟩
    have hvalid : nbuListIteratorIsValid list = false := h.get.2
    refine ⟨[], [], list, rfl, by exact nofun, by exact nofun, h, rfl, ?_⟩
    rw [nbuListSortInner, if_neg (by rw [hvalid]; exact Bool.false_ne_true), if_pos rfl]
  | cons e right ih =>
    obtain ⟨fuel, rfl⟩ : ∃ k, fuel = k + 1 := ⟨fuel - 1, by omega⟩
    have hvalid : nbuListIteratorIsValid list = true := h.get.2
    have hget : nbuListGet list = some e.2 := h.get.1
    have hne : e.2 ≠ sortedAddr := hself e (List.mem_cons_self ..)
    by_cases hbehind : sortFunc x e.2 > 0
    · obtain ⟨list₁, heq₁, h₁⟩ := h.iteratorNext (iterator_ne_none_of_isValid hvalid)
      rw [show Cursored.seek left (e :: right) = .on left e right from rfl, Cursored.next_on] at h₁
      obtain ⟨l, r, list', rfl, hl, hr, h', hsize, heq⟩ := ih h₁
        (fun e' he' => hself e' (List.mem_cons_of_mem _ he')) (by simpa using hfuel)
      refine ⟨e :: l, r, list', rfl, ?_, hr, ?_, hsize.trans (dataSize_iteratorNext heq₁), ?_⟩
      · intro e' he'
        rcases List.mem_cons.mp he' with rfl | he'
        · exact not_le.mpr hbehind
        · exact hl e' he'
      · rwa [List.reverse_cons, List.append_assoc]
      · rw [nbuListSortInner, if_pos hvalid]
        simp only [hget, Option.bind_some, bind, if_pos hne, if_pos hbehind, heq₁, heq]
    · refine ⟨[], e :: right, list, rfl, by exact nofun, ?_, h, rfl, ?_⟩
      · rintro _ ⟨⟩
        exact not_lt.mp hbehind
      · rw [nbuListSortInner, if_pos hvalid, if_neg (List.cons_ne_nil _ _)]
        simp only [hget, Option.bind_some, bind, if_pos hne, if_neg hbehind, Option.map_eq_bind]
        rfl

/-- The node of an insertion, if there is memory for it. -/
def newNodes (calloc : Option ι) (x : α) : List (ι × α) := calloc.toList.map fun a => (a, x)

omit [DecidableEq α] in
theorem exists_insertEnd (h : Holds list t) (ha : ∀ a ∈ calloc, list.heap a = none) (x : α) :
    ∃ list' ret t', nbuListInsertEnd list x calloc = some (list', ret) ∧ Holds list' t' ∧
      list'.dataSize = list.dataSize ∧ t'.items = t.items ++ newNodes calloc x := by
  cases calloc with
  | none => exact ⟨list, .error, t, rfl, h, rfl, (List.append_nil _).symm⟩
  | some a =>
    obtain ⟨list', heq, h', hsize⟩ := h.insertEnd (ha a rfl) x
    exact ⟨list', .success, _, heq, h', hsize, Cursored.items_insertEnd _ _⟩

omit [DecidableEq α] in
theorem exists_insertBefore {left right : List (ι × α)} {e : ι × α}
    (h : Holds list (.on left e right)) (ha : ∀ a ∈ calloc, list.heap a = none) (x : α) :
    ∃ list' ret t', nbuListInsertBefore list x calloc = some (list', ret) ∧ Holds list' t' ∧
      list'.dataSize = list.dataSize ∧
      t'.items = left.reverse ++ (newNodes calloc x ++ e :: right) := by
  cases calloc with
  | none => exact ⟨list, .error, _, rfl, h, rfl, rfl⟩
  | some a =>
    obtain ⟨list', heq, h', hsize⟩ := h.insertBefore (ha a rfl) x
    exact ⟨list', .success, _, heq, h', hsize, by simp [Cursored.items, newNodes]⟩

/-- **One round** of the outer loop: the item goes before the first one that it is not behind. -/
theorem exists_nbuListSortBody (x : α) (h : Holds list t)
    (hself : ∀ e ∈ t.items, e.2 ≠ sortedAddr)
    (hfuel : t.items.length < fuel) (ha : ∀ a ∈ calloc, a ∉ t.items.map Prod.fst) :
    ∃ list' t' l r, nbuListSortBody sortFunc fuel sortedAddr x calloc list = some list' ∧
      Holds list' t' ∧ list'.dataSize = list.dataSize ∧ t.items = l ++ r ∧
      (∀ e ∈ l, ¬NotAfter sortFunc x e.2) ∧ (∀ e ∈ r.head?, NotAfter sortFunc x e.2) ∧
      t'.items = l ++ (newNodes calloc x ++ r) := by
  have hstart := h.iteratorStart
  by_cases ht : t = .fresh
  · subst ht
    obtain ⟨fuel, rfl⟩ : ∃ k, fuel = k + 1 := ⟨fuel - 1, by omega⟩
    have hvalid : nbuListIteratorIsValid (nbuListIteratorStart list) = false := hstart.get.2
    have ha₀ : ∀ a ∈ calloc, (nbuListIteratorStart list).heap a = none :=
      fun a _ => hstart.heap_eq_none (by exact nofun)
    obtain ⟨list', ret, t', heq, h', hsize, hitems⟩ := exists_insertEnd hstart ha₀ x
    refine ⟨list', t', [], [], ?_, h', hsize, rfl, by exact nofun, by exact nofun, ?_⟩
    · rw [nbuListSortBody, nbuListSortInner, if_neg (by rw [hvalid]; exact Bool.false_ne_true)]
      simp only [Option.bind_some, bind, Bool.false_eq_true, if_false, heq]
    · rw [hitems, List.append_nil]
      rfl
  · rw [Cursored.start_of_ne_fresh ht] at hstart
    obtain ⟨l, r, list₁, hsplit, hl, hr, h₁, hsize₁, heq₁⟩ :=
      nbuListSortInner_spec sortFunc x calloc hstart hself hfuel
    rw [List.append_nil] at h₁
    have ha₁ : ∀ a ∈ calloc, list₁.heap a = none := by
      intro a hmem
      refine h₁.heap_eq_none ?_
      rw [Cursored.items_seek, List.reverse_reverse, ← hsplit]
      exact ha a hmem
    cases r with
    | nil =>
      obtain ⟨list', ret, t', heq, h', hsize, hitems⟩ := exists_insertEnd h₁ ha₁ x
      refine ⟨list', t', l, [], ?_, h', hsize.trans hsize₁, hsplit, hl, hr, ?_⟩
      · rw [nbuListSortBody, heq₁, if_pos rfl]
        simp only [Option.bind_some, bind, Bool.false_eq_true, if_false, heq]
      · rw [hitems, Cursored.items_seek, List.reverse_reverse, List.append_nil, List.append_nil]
    | cons e r =>
      obtain ⟨list', ret, t', heq, h', hsize, hitems⟩ :=
        exists_insertBefore (show Holds list₁ (.on l.reverse e r) from h₁) ha₁ x
      refine ⟨list', t', l, e :: r, ?_, h', hsize.trans hsize₁, hsplit, hl, hr, ?_⟩
      · rw [nbuListSortBody, heq₁, if_neg (List.cons_ne_nil _ _), heq]
        rfl
      · rw [hitems, List.reverse_reverse]

end Insertion

/-! ### The outer loop -/

/-- The items that get into the sorted list, of those that follow after `n` rounds: the loop ends at
the address of the list, and an item is lost when there is no memory for its node. -/
def insertedItems [DecidableEq α] (tosortAddr : α) (calloc : ℕ → Option ι) : ℕ → List α → List α
  | _, [] => []
  | n, x :: items =>
    if x = tosortAddr then []
    else (calloc n).toList.map (fun _ => x) ++ insertedItems tosortAddr calloc (n + 1) items

section Loop

variable [DecidableEq α] {calloc : ℕ → Option ι} {n : ℕ}

theorem insertedItems_sublist (tosortAddr : α) (calloc : ℕ → Option ι) (n : ℕ) (items : List α) :
    (insertedItems tosortAddr calloc n items).Sublist items := by
  induction items generalizing n with
  | nil => exact List.Sublist.refl _
  | cons x items ih =>
    rw [insertedItems]
    split_ifs
    · exact List.nil_sublist _
    · cases calloc n with
      | none => exact (ih (n + 1)).cons x
      | some a => exact (ih (n + 1)).cons_cons x

/-- **Nothing is lost** if the address of the list is not among the items and there is memory for
all nodes, and only then. -/
theorem length_insertedItems_iff (tosortAddr : α) (calloc : ℕ → Option ι) (n : ℕ)
    (items : List α) :
    (insertedItems tosortAddr calloc n items).length = items.length ↔
      (∀ i < items.length, calloc (n + i) ≠ none) ∧ tosortAddr ∉ items := by
  induction items generalizing n with
  | nil => simp [insertedItems]
  | cons x items ih =>
    have hle := (insertedItems_sublist tosortAddr calloc (n + 1) items).length_le
    have hrest := ih (n + 1)
    have hall : (∀ i < (x :: items).length, calloc (n + i) ≠ none) ↔
        calloc n ≠ none ∧ ∀ i < items.length, calloc (n + 1 + i) ≠ none := by
      rw [List.length_cons, Nat.forall_lt_succ_left]
      simp only [Nat.add_zero, Nat.add_assoc, Nat.add_comm 1]
    rw [hall, List.mem_cons, not_or, List.length_cons, insertedItems]
    by_cases hx : x = tosortAddr
    · rw [if_pos hx]
      exact iff_of_false (Nat.succ_ne_zero _).symm fun h => h.2.1 hx.symm
    · rw [if_neg hx, List.length_append, List.length_map]
      cases hcalloc : calloc n with
      | none =>
        refine iff_of_false ?_ fun h => h.1.1 rfl
        rw [Option.toList_none, List.length_nil]
        omega
      | some a =>
        rw [Option.toList_some, List.length_singleton, Nat.add_comm 1, Nat.add_right_cancel_iff,
          hrest]
        refine and_congr ⟨fun h => ⟨by exact nofun, h⟩, And.right⟩
          ⟨fun h => ⟨fun heq => hx heq.symm, h⟩, And.right⟩

variable [DecidableEq ι] {sortedAddr : α} {listTosort listSorted : NbuList ι α}
  {t : Cursored (ι × α)} {done left right : List α} {fuel fuelInner : ℕ}

omit [DecidableEq α] [DecidableEq ι] in
/-- The data of the sorted list after a round. -/
theorem map_snd_round {sortFunc : α → α → ℤ} {x : α} {t₁ : Cursored (ι × α)}
    {l r : List (ι × α)}
    (hitems : t.items.map Prod.snd = done.reverse.insertionSort (NotAfter sortFunc))
    (hsplit : t.items = l ++ r) (hl : ∀ e ∈ l, ¬NotAfter sortFunc x e.2)
    (hr : ∀ e ∈ r.head?, NotAfter sortFunc x e.2)
    (hitems₁ : t₁.items = l ++ (newNodes (calloc n) x ++ r)) :
    t₁.items.map Prod.snd = (done ++ (calloc n).toList.map fun _ => x).reverse.insertionSort
      (NotAfter sortFunc) := by
  rw [hsplit, List.map_append] at hitems
  cases hcall : calloc n with
  | none =>
    rw [hitems₁, hcall, Option.toList_none, List.map_nil, List.append_nil, ← hitems,
      ← List.map_append]
    rfl
  | some a =>
    have hinsert : (l.map Prod.snd ++ r.map Prod.snd).orderedInsert (NotAfter sortFunc) x
        = l.map Prod.snd ++ x :: r.map Prod.snd := by
      refine orderedInsert_append ?_ ?_
      · exact List.forall_mem_map.mpr hl
      · intro y hy
        rw [List.head?_map] at hy
        obtain ⟨e, he, rfl⟩ := Option.mem_map.mp hy
        exact hr e he
    rw [Option.toList_some, List.map_singleton, List.reverse_append, List.reverse_singleton,
      List.singleton_append, List.insertionSort_cons, ← hitems, hinsert, hitems₁, hcall]
    exact List.map_append

omit [DecidableEq α] [DecidableEq ι] in
/-- The addresses of its nodes after a round. -/
theorem exists_calloc_round {x : α} {t₁ : Cursored (ι × α)} {l r : List (ι × α)}
    (haddr : ∀ b ∈ t.items.map Prod.fst, ∃ i < n, calloc i = some b) (hsplit : t.items = l ++ r)
    (hitems₁ : t₁.items = l ++ (newNodes (calloc n) x ++ r)) :
    ∀ b ∈ t₁.items.map Prod.fst, ∃ i < n + 1, calloc i = some b := by
  intro b hb
  obtain ⟨e, he, rfl⟩ := List.mem_map.mp hb
  rw [hitems₁, List.mem_append, List.mem_append] at he
  have hold : e ∈ t.items → ∃ i < n + 1, calloc i = some e.1 := by
    intro hmem
    obtain ⟨i, hi, heq⟩ := haddr e.1 (List.mem_map_of_mem hmem)
    exact ⟨i, Nat.lt_succ_of_lt hi, heq⟩
  rcases he with he | he | he
  · exact hold (hsplit ▸ List.mem_append_left _ he)
  · obtain ⟨a, ha, rfl⟩ := List.mem_map.mp he
    exact ⟨n, Nat.lt_succ_self n, Option.mem_toList.mp ha⟩
  · exact hold (hsplit ▸ List.mem_append_right _ he)

omit [DecidableEq α] [DecidableEq ι] in
/-- The next node is none of those before. -/
theorem notMem_of_calloc (hcalloc : ∀ i j a, calloc i = some a → calloc j = some a → i = j)
    (haddr : ∀ b ∈ t.items.map Prod.fst, ∃ i < n, calloc i = some b) :
    ∀ a ∈ calloc n, a ∉ t.items.map Prod.fst := by
  intro a ha hmem
  obtain ⟨i, hi, heq⟩ := haddr a hmem
  exact absurd (hcalloc i n a heq ha) (Nat.ne_of_lt hi)

/-- The sorted list after `n` rounds: what insertion sort makes of the items that got into it, in
nodes that `calloc` has returned. -/
structure SortedSoFar (sortFunc : α → α → ℤ) (calloc : ℕ → Option ι) (n : ℕ) (done : List α)
    (listSorted : NbuList ι α) (t : Cursored (ι × α)) : Prop where
  holds : Holds listSorted t
  items : t.items.map Prod.snd = done.reverse.insertionSort (NotAfter sortFunc)
  addr : ∀ b ∈ t.items.map Prod.fst, ∃ i < n, calloc i = some b

/-- **One round** of the outer loop. -/
theorem SortedSoFar.round {sortFunc : α → α → ℤ}
    (h : SortedSoFar sortFunc calloc n done listSorted t)
    (hcalloc : ∀ i j a, calloc i = some a → calloc j = some a → i = j)
    (hself : sortedAddr ∉ done) (hinner : done.length < fuelInner) (x : α) :
    ∃ listSorted' t',
      nbuListSortBody sortFunc fuelInner sortedAddr x (calloc n) listSorted = some listSorted' ∧
      SortedSoFar sortFunc calloc (n + 1) (done ++ (calloc n).toList.map fun _ => x)
        listSorted' t' ∧
      listSorted'.dataSize = listSorted.dataSize := by
  have hperm : (t.items.map Prod.snd).Perm done := by
    rw [h.items]
    exact (List.perm_insertionSort _ _).trans (List.reverse_perm done)
  have hself' : ∀ e ∈ t.items, e.2 ≠ sortedAddr := by
    rintro e he rfl
    exact hself (hperm.subset (List.mem_map_of_mem he))
  have hlength : t.items.length < fuelInner := by
    have hlength := hperm.length_eq
    rw [List.length_map] at hlength
    omega
  obtain ⟨listSorted', t', l, r, heq, h', hsize, hsplit, hl, hr, hitems⟩ :=
    exists_nbuListSortBody sortFunc x h.holds hself' hlength (notMem_of_calloc hcalloc h.addr)
  refine ⟨listSorted', t', heq, ⟨h', ?_, ?_⟩, hsize⟩
  · exact map_snd_round h.items hsplit hl hr hitems
  · exact exists_calloc_round h.addr hsplit hitems

/-- **The outer loop**: the sorted list holds what insertion sort makes of the items so far. -/
theorem exists_nbuListSortLoop {sortFunc : α → α → ℤ} (tosortAddr : α)
    (hcalloc : ∀ i j a, calloc i = some a → calloc j = some a → i = j)
    (htosort : Represents listTosort (.seek left right))
    (h : SortedSoFar sortFunc calloc n done listSorted t)
    (hself : sortedAddr ∉ done ++ right) (hfuel : right.length < fuel)
    (hinner : (done ++ right).length < fuelInner) :
    ∃ listTosort' s listSorted' t',
      nbuListSortLoop sortFunc tosortAddr sortedAddr calloc fuelInner fuel n listTosort listSorted
        = some (listTosort', listSorted') ∧
      Represents listTosort' s ∧ s.items = left.reverse ++ right ∧
      Holds listSorted' t' ∧ listSorted'.dataSize = listSorted.dataSize ∧
      t'.items.map Prod.snd
        = (done ++ insertedItems tosortAddr calloc n right).reverse.insertionSort
          (NotAfter sortFunc) := by
  induction right generalizing listTosort listSorted t done left fuel n with
  | nil =>
    obtain ⟨fuel, rfl⟩ : ∃ k, fuel = k + 1 := ⟨fuel - 1, by omega⟩
    have hvalid : nbuListIteratorIsValid listTosort = false := htosort.get.2
    refine ⟨listTosort, _, listSorted, t, ?_, htosort, Cursored.items_seek .., h.holds, rfl, ?_⟩
    · rw [nbuListSortLoop, if_neg (by rw [hvalid]; exact Bool.false_ne_true)]
    · rw [insertedItems, List.append_nil, h.items]
  | cons x right ih =>
    obtain ⟨fuel, rfl⟩ : ∃ k, fuel = k + 1 := ⟨fuel - 1, by omega⟩
    have hvalid : nbuListIteratorIsValid listTosort = true := htosort.get.2
    have hget : nbuListGet listTosort = some x := htosort.get.1
    by_cases hx : x = tosortAddr
    · refine ⟨listTosort, _, listSorted, t, ?_, htosort, Cursored.items_seek .., h.holds, rfl, ?_⟩
      · rw [nbuListSortLoop, if_pos hvalid]
        simp only [hget, Option.bind_some, bind, if_neg (not_not.mpr hx)]
      · rw [insertedItems, if_pos hx, List.append_nil, h.items]
    · have hdone := List.sublist_append_left done (x :: right)
      obtain ⟨listSorted₁, t₁, heq₁, h₁, hsize₁⟩ := h.round hcalloc
        (fun hmem => hself (hdone.subset hmem)) (hdone.length_le.trans_lt hinner) x
      obtain ⟨listTosort₁, hnext, htosort₁⟩ :=
        htosort.iteratorNext (iterator_ne_none_of_isValid hvalid)
      rw [show Cursored.seek left (x :: right) = .on left x right from rfl,
        Cursored.next_on] at htosort₁
      have hrest : (done ++ ((calloc n).toList.map fun _ => x) ++ right).Sublist
          (done ++ x :: right) := by
        cases calloc n with
        | none => simp
        | some a => simp
      obtain ⟨listTosort', s, listSorted', t', heq, htosort', hs, h', hsize, hitems'⟩ :=
        ih htosort₁ h₁ (fun hmem => hself (hrest.subset hmem)) (by simpa using hfuel)
          (hrest.length_le.trans_lt hinner)
      refine ⟨listTosort', s, listSorted', t', ?_, htosort', ?_, h', hsize.trans hsize₁, ?_⟩
      · rw [nbuListSortLoop, if_pos hvalid]
        simp only [hget, Option.bind_some, bind, if_pos hx, heq₁, hnext, heq]
      · rw [hs, List.reverse_cons, List.append_assoc, List.singleton_append]
      · rw [hitems', insertedItems, if_neg hx, List.append_assoc]

end Loop

/-! ### The function -/

/-- The list was sorted: the call succeeded, and its items are now in order, each as often as
before, in a list with the same `count` and `data_size`. -/
def Sorted (list : NbuList ι α) (s : Cursored α)
    (result : Option (NbuList ι α × NbuRet)) : Prop :=
  ∃ list' s', result = some (list', .success) ∧ Represents list' s' ∧ s'.items.Perm s.items ∧
    s'.items.Pairwise (NotAfter sortFunc) ∧ list'.count = list.count ∧
    list'.dataSize = list.dataSize

section Call

variable [DecidableEq ι] [DecidableEq α] {list : NbuList ι α} {s : Cursored α}
  {tosortAddr sortedAddr : α} {calloc : ℕ → Option ι} {fuel : ℕ}

/-- **What the call does**: it sorts the items that are not lost. -/
theorem exists_nbuListSort (tosortAddr : α) (hrep : Represents list s)
    (hself : sortedAddr ∉ s.items)
    (hcalloc : ∀ i j a, calloc i = some a → calloc j = some a → i = j)
    (hfuel : s.items.length < fuel) :
    ∃ list' s', nbuListSort sortFunc fuel tosortAddr (some sortedAddr) calloc list
        = some (list', .success) ∧ Represents list' s' ∧
      s'.items = (insertedItems tosortAddr calloc 0 s.items).reverse.insertionSort
        (NotAfter sortFunc) ∧ list'.dataSize = list.dataSize := by
  have hstart := hrep.iteratorStart
  have hnew : Holds (nbuListNew list.dataSize : NbuList ι α) .fresh := holds_new list.dataSize
  by_cases hs : s = .fresh
  · -- nothing to sort
    subst hs
    obtain ⟨fuel, rfl⟩ : ∃ k, fuel = k + 1 := ⟨fuel - 1, by omega⟩
    have hvalid : nbuListIteratorIsValid (nbuListIteratorStart list) = false := hstart.get.2
    obtain ⟨list₁, hdestroy, -⟩ := exists_nbuListDestroy hstart hfuel
    refine ⟨nbuListNew list.dataSize, .fresh, ?_, ⟨.fresh, rfl, hnew⟩, rfl, rfl⟩
    have hloop : nbuListSortLoop sortFunc tosortAddr sortedAddr calloc (fuel + 1) (fuel + 1) 0
        (nbuListIteratorStart list) (nbuListNew list.dataSize)
          = some (nbuListIteratorStart list, nbuListNew list.dataSize) := by
      rw [nbuListSortLoop, if_neg (by rw [hvalid]; exact Bool.false_ne_true)]
    simp only [nbuListSort, Option.bind_some, bind, hloop, hdestroy]
  · rw [Cursored.start_of_ne_fresh hs] at hstart
    have hnone : SortedSoFar sortFunc calloc 0 [] (nbuListNew list.dataSize) .fresh :=
      ⟨hnew, rfl, by exact nofun⟩
    obtain ⟨list₁, s₁, list', t', hloop, hrep₁, hitems₁, h', hsize, hitems'⟩ :=
      exists_nbuListSortLoop tosortAddr hcalloc hstart hnone hself hfuel hfuel
    have hfuel₁ : s₁.items.length < fuel := by rwa [hitems₁]
    obtain ⟨list₂, hdestroy, -⟩ := exists_nbuListDestroy hrep₁ hfuel₁
    refine ⟨list', t'.map Prod.snd, ?_, ⟨t', rfl, h'⟩, ?_, hsize⟩
    · simp only [nbuListSort, Option.bind_some, bind, hloop, hdestroy]
    · rw [Cursored.items_map, hitems']
      rfl

/-- **Sorting a list.**  For every well-formed list and every comparison function that is a total
preorder, the call sorts the list exactly if there is memory, for the new list and for a node per
item, and the address of the list is not one of its items.  The blocks that `calloc` returns are
different ones, and no item is the address of the new list. -/
theorem nbuListSort_iff {sortFunc : α → α → ℤ} (hcompares : Compares sortFunc)
    (hrep : Represents list s) (tosortAddr : α) {callocList : Option α}
    (hself : ∀ sortedAddr ∈ callocList, sortedAddr ∉ s.items)
    (hcalloc : ∀ i j a, calloc i = some a → calloc j = some a → i = j)
    (hfuel : list.count < fuel) :
    Sorted sortFunc list s (nbuListSort sortFunc fuel tosortAddr callocList calloc list) ↔
      callocList ≠ none ∧ (∀ i < list.count, calloc i ≠ none) ∧ tosortAddr ∉ s.items := by
  have hcount := hrep.count
  have hkept := length_insertedItems_iff tosortAddr calloc 0 s.items
  simp only [Nat.zero_add] at hkept
  rw [hcount] at hfuel ⊢
  cases callocList with
  | none =>
    refine iff_of_false ?_ fun h => h.1 rfl
    rintro ⟨list', s', heq, -⟩
    exact nomatch heq
  | some sortedAddr =>
    obtain ⟨list', s', heq, hrep', hitems', hsize⟩ :=
      exists_nbuListSort sortFunc tosortAddr hrep (hself sortedAddr rfl) hcalloc hfuel
    have hlength : s'.items.length = (insertedItems tosortAddr calloc 0 s.items).length := by
      rw [hitems', List.length_insertionSort, List.length_reverse]
    rw [← hkept, heq]
    constructor
    · rintro ⟨list'', s'', heq', -, -, -, hcount'', -⟩
      obtain ⟨rfl, -⟩ := Prod.mk.inj (Option.some.inj heq')
      refine ⟨by exact nofun, ?_⟩
      rw [← hlength, ← hrep'.count, hcount'', hcount]
    · rintro ⟨-, hall⟩
      have hall' := (insertedItems_sublist tosortAddr calloc 0 s.items).eq_of_length hall
      have : Std.Total (NotAfter sortFunc) := ⟨hcompares.total⟩
      have : IsTrans α (NotAfter sortFunc) := ⟨hcompares.trans⟩
      refine ⟨list', s', rfl, hrep', ?_, ?_, ?_, hsize⟩
      · rw [hitems', hall']
        exact (List.perm_insertionSort _ _).trans (List.reverse_perm _)
      · rw [hitems']
        exact List.pairwise_insertionSort _ _
      · rw [hrep'.count, hlength, hall, hcount]

end Call

theorem compares_sub : Compares fun a b : ℕ => (a : ℤ) - b where
  total a b := by
    simp only [NotAfter]
    omega
  trans a b c hab hbc := by
    simp only [NotAfter] at hab hbc ⊢
    omega

/-- Three items that are out of order. -/
theorem nbuListSort_iff_three :
    ∃ (list : NbuList ℕ ℕ) (s : Cursored ℕ), Represents list s ∧ s.items = [3, 1, 2] ∧
      Sorted (fun a b : ℕ => (a : ℤ) - b) list s
        (nbuListSort (fun a b : ℕ => (a : ℤ) - b) 4 7 (some 8) some list) := by
  obtain ⟨list, s, hrep, hitems⟩ := exists_represents (ι := ℕ) [3, 1, 2]
  have hcount : list.count = 3 := by rw [hrep.count, hitems]; rfl
  refine ⟨list, s, hrep, hitems, (nbuListSort_iff compares_sub hrep 7 ?_ ?_ ?_).mpr ⟨?_, ?_, ?_⟩⟩
  · rintro _ ⟨⟩
    rw [hitems]
    decide
  · intro i j a hi hj
    exact Option.some.inj (hi.trans hj.symm)
  · rw [hcount]
    decide
  · exact nofun
  · exact fun i _ => by exact nofun
  · rw [hitems]
    decide

/-- A list that has its own address as an item is empty after the call, and one whose node finds no
memory is as well; the call succeeds. -/
theorem nbuListSort_loses_item :
    ∃ list : NbuList ℕ ℕ, nbuListInsertEnd (nbuListNew 4) 7 (some 0) = some (list, .success) ∧
      Represents list (.unset [7]) ∧
      ¬Sorted (fun a b : ℕ => (a : ℤ) - b) list (.unset [7])
        (nbuListSort (fun a b : ℕ => (a : ℤ) - b) 2 7 (some 8) some list) ∧
      ¬Sorted (fun a b : ℕ => (a : ℤ) - b) list (.unset [7])
        (nbuListSort (fun a b : ℕ => (a : ℤ) - b) 2 9 (some 8) (fun _ => none) list) := by
  obtain ⟨list, heq, hholds, -⟩ := (holds_new 4).insertEnd (a := 0) rfl 7
  have hrep : Represents list (.unset [7]) := ⟨.unset [(0, 7)], rfl, hholds⟩
  have hlost : ∀ (addr : ℕ) (calloc : ℕ → Option ℕ),
      (∀ i j a, calloc i = some a → calloc j = some a → i = j) →
      insertedItems addr calloc 0 [7] = [] →
      ¬Sorted (fun a b : ℕ => (a : ℤ) - b) list (.unset [7])
        (nbuListSort (fun a b : ℕ => (a : ℤ) - b) 2 addr (some 8) calloc list) := by
    rintro addr calloc hcalloc hnone ⟨list'', s'', heq'', -, -, -, hcount'', -⟩
    have hself : 8 ∉ (Cursored.unset [7]).items := by decide
    have hfuel : (Cursored.unset [7]).items.length < 2 := by decide
    obtain ⟨list', s', heq', hrep', hitems', -⟩ :=
      exists_nbuListSort (fun a b : ℕ => (a : ℤ) - b) addr hrep hself hcalloc hfuel
    rw [heq'] at heq''
    obtain ⟨rfl, -⟩ := Prod.mk.inj (Option.some.inj heq'')
    have hitems : s'.items = [] := by
      rw [hitems', show (Cursored.unset [7]).items = [7] from rfl, hnone]
      rfl
    rw [hrep'.count, hrep.count, hitems] at hcount''
    exact nomatch hcount''
  refine ⟨list, heq, hrep, hlost 7 some ?_ rfl, hlost 9 (fun _ => none) ?_ rfl⟩
  · intro i j a hi hj
    exact Option.some.inj (hi.trans hj.symm)
  · exact fun _ _ _ h => nomatch h

end Neufbox.Libnbu
