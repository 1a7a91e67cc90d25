import Mathlib.Data.Set.Finite.Basic
import Neufbox.Lib.Cursored
import Neufbox.Lib.Ring
import Neufbox.Lib.Run
import Neufbox.Libnbu.List

/-!
# A list is a sequence with a cursor

`Ringed list entries` says that the nodes of a list form a ring, in both directions, that they hold
the data of `entries`, in order, under the addresses of `entries`, and that nothing else is
allocated and `count` is their number.  `Holds list s` adds the iterator, and the state before the
first insertion, in which the root node has no links.  The sequence has the addresses of the nodes
as well, and the abstract operations, which do not look at the items, move them along.

`nbuList_refines` is the refinement over every sequence of calls.
-/

namespace Neufbox.Libnbu

open Function (update update_self update_of_ne update_eq_self_iff)
open Machine

variable {ι α : Type}

/-! ### Fields of nodes -/

namespace NbuList

variable {list : NbuList ι α} {r : Ref ι}

def next (list : NbuList ι α) (r : Ref ι) : Option (Ref ι) := (list.node r).bind ListNode.next

def prev (list : NbuList ι α) (r : Ref ι) : Option (Ref ι) := (list.node r).bind ListNode.prev

def data (list : NbuList ι α) (r : Ref ι) : Option α := (list.node r).bind ListNode.data

theorem exists_node_of_next {b : Ref ι} (h : list.next r = some b) :
    ∃ n, list.node r = some n ∧ n.next = some b := Option.bind_eq_some_iff.mp h

theorem exists_node_of_prev {a : Ref ι} (h : list.prev r = some a) :
    ∃ n, list.node r = some n ∧ n.prev = some a := Option.bind_eq_some_iff.mp h

/-- What the assignment of a link leaves alone. -/
structure Relinked (list list' : NbuList ι α) : Prop where
  data : list'.data = list.data
  node : ∀ r, list'.node r = none ↔ list.node r = none
  count : list'.count = list.count
  iterator : list'.iterator = list.iterator
  dataSize : list'.dataSize = list.dataSize

theorem Relinked.trans {list₁ list₂ list₃ : NbuList ι α} (h₁ : Relinked list₁ list₂)
    (h₂ : Relinked list₂ list₃) : Relinked list₁ list₃ where
  data := h₂.data.trans h₁.data
  node r := (h₂.node r).trans (h₁.node r)
  count := h₂.count.trans h₁.count
  iterator := h₂.iterator.trans h₁.iterator
  dataSize := h₂.dataSize.trans h₁.dataSize

variable [DecidableEq ι]

theorem node_set (list : NbuList ι α) (n : ListNode ι α) (r : Ref ι) :
    (list.set n r).node = update list.node r (some n) := by
  funext r'
  cases r <;> cases r' <;> simp [set, node, update]

/-- A field of the stored node, as a function of the pointer. -/
theorem bind_node_set {γ : Type} (f : ListNode ι α → Option γ) (list : NbuList ι α)
    (n : ListNode ι α) (r : Ref ι) :
    (fun r' => ((list.set n r).node r').bind f)
      = update (fun r' => (list.node r').bind f) r (f n) := by
  funext r'
  rw [node_set]
  by_cases h : r' = r
  · subst h
    rw [update_self, update_self, Option.bind_some]
  · rw [update_of_ne h, update_of_ne h]

theorem next_set (list : NbuList ι α) (n : ListNode ι α) (r : Ref ι) :
    (list.set n r).next = update list.next r n.next := bind_node_set _ list n r

theorem prev_set (list : NbuList ι α) (n : ListNode ι α) (r : Ref ι) :
    (list.set n r).prev = update list.prev r n.prev := bind_node_set _ list n r

theorem data_set (list : NbuList ι α) (n : ListNode ι α) (r : Ref ι) :
    (list.set n r).data = update list.data r n.data := bind_node_set _ list n r

@[simp] theorem count_set (list : NbuList ι α) (n : ListNode ι α) (r : Ref ι) :
    (list.set n r).count = list.count := by
  cases r <;> rfl

@[simp] theorem iterator_set (list : NbuList ι α) (n : ListNode ι α) (r : Ref ι) :
    (list.set n r).iterator = list.iterator := by
  cases r <;> rfl

@[simp] theorem dataSize_set (list : NbuList ι α) (n : ListNode ι α) (r : Ref ι) :
    (list.set n r).dataSize = list.dataSize := by
  cases r <;> rfl

theorem relinked_set {n n' : ListNode ι α} (hn : list.node r = some n) (hdata : n'.data = n.data) :
    Relinked list (list.set n' r) where
  data := by
    rw [data_set, hdata, update_eq_self_iff]
    simp [NbuList.data, hn]
  node r' := by
    rw [node_set]
    by_cases h : r' = r
    · subst h
      simp [hn]
    · rw [update_of_ne h]
  count := count_set ..
  iterator := iterator_set ..
  dataSize := dataSize_set ..

/-- **An assignment to `prev`.** -/
theorem exists_setPrev (h : list.node r ≠ none) (v : Option (Ref ι)) :
    ∃ list', list.setPrev r v = some list' ∧ Relinked list list' ∧
      list'.next = list.next ∧ list'.prev = update list.prev r v := by
  obtain ⟨n, hn⟩ := Option.ne_none_iff_exists'.mp h
  refine ⟨list.set { n with prev := v } r, ?_, relinked_set hn rfl, ?_, prev_set ..⟩
  · rw [setPrev, modify, hn, Option.map_some]
  · rw [next_set, update_eq_self_iff]
    simp [next, hn]

/-- **An assignment to `next`.** -/
theorem exists_setNext (h : list.node r ≠ none) (v : Option (Ref ι)) :
    ∃ list', list.setNext r v = some list' ∧ Relinked list list' ∧
      list'.next = update list.next r v ∧ list'.prev = list.prev := by
  obtain ⟨n, hn⟩ := Option.ne_none_iff_exists'.mp h
  refine ⟨list.set { n with next := v } r, ?_, relinked_set hn rfl, next_set .., ?_⟩
  · rw [setNext, modify, hn, Option.map_some]
  · rw [prev_set, update_eq_self_iff]
    simp [prev, hn]

/-- A block that was freed. -/
theorem bind_node_release {γ : Type} (f : ListNode ι α → Option γ) (list : NbuList ι α) (a : ι) :
    (fun r => (({ list with heap := update list.heap a none } : NbuList ι α).node r).bind f)
      = update (fun r => (list.node r).bind f) (.node a) none := by
  funext r
  cases r with
  | root => rfl
  | node b =>
    by_cases hb : b = a
    · subst hb
      simp [node]
    · rw [update_of_ne (fun heq => hb (Ref.node.inj heq))]
      simp [node, hb]

end NbuList

open NbuList

/-! ### Rings -/

/-- Pointers to the nodes of the entries. -/
def refs (entries : List (ι × α)) : List (Ref ι) := entries.map fun e => .node e.1

@[simp] theorem refs_append (l₁ l₂ : List (ι × α)) : refs (l₁ ++ l₂) = refs l₁ ++ refs l₂ :=
  List.map_append

@[simp] theorem refs_cons (e : ι × α) (l : List (ι × α)) : refs (e :: l) = .node e.1 :: refs l :=
  rfl

@[simp] theorem refs_nil : refs ([] : List (ι × α)) = [] := rfl

/-- The nodes of the list form a ring that holds the entries. -/
structure Ringed (list : NbuList ι α) (entries : List (ι × α)) : Prop where
  ring : Ring list.next list.prev .root (refs entries)
  data : ∀ e ∈ entries, list.data (.node e.1) = some e.2
  root_data : list.data .root = none
  count : list.count = entries.length
  node : ∀ a, list.node (.node a) ≠ none ↔ a ∈ entries.map Prod.fst

section Ringed

variable {list list' : NbuList ι α} {l₁ l₂ : List (ι × α)} {a : ι} {x : α}

theorem Ringed.next_last (h : Ringed list (l₁ ++ l₂)) :
    list.next (lastOr .root (refs l₁)) = some (firstOr .root (refs l₂)) := by
  have := h.ring
  rw [refs_append] at this
  exact this.next_last

theorem Ringed.prev_first (h : Ringed list (l₁ ++ l₂)) :
    list.prev (firstOr .root (refs l₂)) = some (lastOr .root (refs l₁)) := by
  have := h.ring
  rw [refs_append] at this
  exact this.prev_first

theorem node_mem_refs_iff {entries : List (ι × α)} :
    Ref.node a ∈ Ref.root :: refs entries ↔ a ∈ entries.map Prod.fst := by
  simp [refs]

theorem Ringed.node_ne_none {entries : List (ι × α)} (h : Ringed list entries) {r : Ref ι}
    (hr : r ∈ Ref.root :: refs entries) : list.node r ≠ none := by
  cases r with
  | root => exact nofun
  | node a => exact (h.node a).mpr (node_mem_refs_iff.mp hr)

/-- A block that is not in use is none of the nodes. -/
theorem Ringed.not_mem_refs {entries : List (ι × α)} (h : Ringed list entries)
    (ha : list.heap a = none) : Ref.node a ∉ Ref.root :: refs entries :=
  fun hmem => (h.node a).mpr (node_mem_refs_iff.mp hmem) ha

variable [DecidableEq ι]

/-- A new node that is linked in between two neighbours. -/
theorem ringed_insert (h : Ringed list (l₁ ++ l₂)) (ha : list.heap a = none)
    (hrelinked : Relinked (list.set
      ⟨some (lastOr .root (refs l₁)), some (firstOr .root (refs l₂)), some x⟩ (.node a)) list')
    (hnext : list'.next = update (update list.next (.node a) (some (firstOr .root (refs l₂))))
      (lastOr .root (refs l₁)) (some (.node a)))
    (hprev : list'.prev = update (update list.prev (.node a) (some (lastOr .root (refs l₁))))
      (firstOr .root (refs l₂)) (some (.node a))) :
    Ringed { list' with count := list'.count + 1 } (l₁ ++ (a, x) :: l₂) where
  ring := by
    have hring := h.ring
    rw [refs_append] at hring
    rw [refs_append, refs_cons]
    show Ring list'.next list'.prev _ _
    rw [hnext, hprev]
    exact hring.insert (refs_append l₁ l₂ ▸ h.not_mem_refs ha)
  data := by
    intro e he
    show list'.data (.node e.1) = some e.2
    rw [hrelinked.data, data_set]
    by_cases heq : e = (a, x)
    · rw [heq, update_self]
    · have hold : e ∈ l₁ ++ l₂ := by
        simp only [List.mem_append, List.mem_cons] at he ⊢
        tauto
      have hne : Ref.node e.1 ≠ Ref.node a := ne_of_mem_of_not_mem
        (node_mem_refs_iff.mpr (List.mem_map_of_mem hold)) (h.not_mem_refs ha)
      rw [update_of_ne hne, h.data e hold]
  root_data := by
    show list'.data .root = none
    rw [hrelinked.data, data_set, update_of_ne (by exact nofun), h.root_data]
  count := by
    show list'.count + 1 = _
    rw [hrelinked.count, count_set, h.count]
    simp only [List.length_append, List.length_cons]
    omega
  node := by
    intro b
    show list'.node (.node b) ≠ none ↔ _
    rw [Ne, hrelinked.node, node_set]
    by_cases hb : b = a
    · subst hb
      simp
    · rw [update_of_ne (fun heq => hb (Ref.node.inj heq)), ← Ne, h.node b]
      simp [hb]

theorem node_set_ne_none {r : Ref ι} (h : list.node r ≠ none) (n : ListNode ι α) (r' : Ref ι) :
    (list.set n r').node r ≠ none := by
  rw [node_set]
  by_cases heq : r = r'
  · rw [heq, update_self]
    exact nofun
  · rwa [update_of_ne heq]

/-- The neighbour that an insertion between the entries goes by. -/
def neighbour (direction : Bool) (l₁ l₂ : List (ι × α)) : Ref ι :=
  if direction then lastOr .root (refs l₁) else firstOr .root (refs l₂)

/-- **Insertion** behind the one neighbour or before the other. -/
theorem exists_insert (h : Ringed list (l₁ ++ l₂)) (ha : list.heap a = none) (x : α)
    (direction : Bool) :
    ∃ list', nbuListInsert list x (some (neighbour direction l₁ l₂)) direction (some a)
        = some (list', .success) ∧
      Ringed list' (l₁ ++ (a, x) :: l₂) ∧ list'.iterator = list.iterator ∧
      list'.dataSize = list.dataSize := by
  obtain ⟨n, hn, hnext⟩ := exists_node_of_next h.next_last
  obtain ⟨n', hn', hprev⟩ := exists_node_of_prev h.prev_first
  let stored := list.set
    ⟨some (lastOr .root (refs l₁)), some (firstOr .root (refs l₂)), some x⟩ (.node a)
  have hlast : stored.node (lastOr .root (refs l₁)) ≠ none :=
    node_set_ne_none (by rw [hn]; exact nofun) _ _
  have hfirst : stored.node (firstOr .root (refs l₂)) ≠ none :=
    node_set_ne_none (by rw [hn']; exact nofun) _ _
  -- the two links are assigned in the one order or in the other
  obtain ⟨list₂, heq, hrelinked, hnext₂, hprev₂⟩ : ∃ list₂,
      nbuListInsert list x (some (neighbour direction l₁ l₂)) direction (some a)
          = some ({ list₂ with count := list₂.count + 1 }, .success) ∧
        Relinked stored list₂ ∧
        list₂.next = update stored.next (lastOr .root (refs l₁)) (some (.node a)) ∧
        list₂.prev = update stored.prev (firstOr .root (refs l₂)) (some (.node a)) := by
    cases direction with
    | true =>
      obtain ⟨list₁, hlist₁, hrelinked₁, hnext₁, hprev₁⟩ := exists_setPrev hfirst (some (.node a))
      obtain ⟨list₂, hlist₂, hrelinked₂, hnext₂, hprev₂⟩ :=
        exists_setNext (mt (hrelinked₁.node _).mp hlast) (some (.node a))
      refine ⟨list₂, ?_, hrelinked₁.trans hrelinked₂, by rw [hnext₂, hnext₁],
        by rw [hprev₂, hprev₁]⟩
      simp [nbuListInsert, neighbour, hn, hnext, stored, hlist₁, hlist₂]
    | false =>
      obtain ⟨list₁, hlist₁, hrelinked₁, hnext₁, hprev₁⟩ := exists_setNext hlast (some (.node a))
      obtain ⟨list₂, hlist₂, hrelinked₂, hnext₂, hprev₂⟩ :=
        exists_setPrev (mt (hrelinked₁.node _).mp hfirst) (some (.node a))
      refine ⟨list₂, ?_, hrelinked₁.trans hrelinked₂, by rw [hnext₂, hnext₁],
        by rw [hprev₂, hprev₁]⟩
      simp [nbuListInsert, neighbour, hn', hprev, stored, hlist₁, hlist₂]
  exact ⟨_, heq, ringed_insert h ha hrelinked (by rw [hnext₂, next_set]) (by rw [hprev₂, prev_set]),
    hrelinked.iterator.trans (iterator_set ..), hrelinked.dataSize.trans (dataSize_set ..)⟩

/-- A node that is freed after its neighbours were linked to each other. -/
theorem ringed_erase (h : Ringed list (l₁ ++ (a, x) :: l₂)) (hrelinked : Relinked list list')
    (hnext : list'.next
      = update list.next (lastOr .root (refs l₁)) (some (firstOr .root (refs l₂))))
    (hprev : list'.prev
      = update list.prev (firstOr .root (refs l₂)) (some (lastOr .root (refs l₁)))) :
    Ringed { list' with heap := update list'.heap a none, count := list'.count - 1 }
      (l₁ ++ l₂) := by
  have hring := h.ring
  rw [refs_append, refs_cons] at hring
  have hnot := (nodup_append_cons_iff.mp hring.nodup).1
  rw [← refs_append, node_mem_refs_iff] at hnot
  let freed : NbuList ι α :=
    { list' with heap := update list'.heap a none, count := list'.count - 1 }
  have hnext' : freed.next = update list'.next (.node a) none := bind_node_release _ list' a
  have hprev' : freed.prev = update list'.prev (.node a) none := bind_node_release _ list' a
  have hdata' : freed.data = update list'.data (.node a) none := bind_node_release _ list' a
  refine ⟨?_, ?_, ?_, ?_, ?_⟩
  · show Ring freed.next freed.prev _ _
    rw [hnext', hprev', hnext, hprev, refs_append]
    exact hring.erase
  · intro e he
    have hne : e.1 ≠ a := ne_of_mem_of_not_mem (List.mem_map_of_mem (f := Prod.fst) he) hnot
    show freed.data (.node e.1) = some e.2
    rw [hdata', update_of_ne (mt Ref.node.inj hne), hrelinked.data]
    exact h.data e (List.append_subset.mpr ⟨by simp, by simp⟩ he)
  · show freed.data .root = none
    rw [hdata', update_of_ne (by exact nofun), hrelinked.data, h.root_data]
  · show list'.count - 1 = _
    rw [hrelinked.count, h.count]
    simp
  · intro b
    show update list'.heap a none b ≠ none ↔ _
    by_cases hb : b = a
    · subst hb
      rw [update_self]
      exact iff_of_false (fun hne => hne rfl) hnot
    · rw [update_of_ne hb]
      show list'.node (.node b) ≠ none ↔ _
      rw [Ne, hrelinked.node, ← Ne, h.node b]
      simp [hb]

/-- **Removal of a node.** -/
theorem exists_destroyNode (h : Ringed list (l₁ ++ (a, x) :: l₂)) :
    ∃ list', nbuListDestroyNode list (some (.node a)) = some list' ∧
      Ringed list' (l₁ ++ l₂) ∧ list'.iterator = list.iterator ∧
      list'.dataSize = list.dataSize := by
  have hring := h.ring
  rw [refs_append, refs_cons] at hring
  have hnot := (nodup_append_cons_iff.mp hring.nodup).1
  have hfirst := ne_of_mem_of_not_mem (firstOr_mem_append .root (refs l₁) (refs l₂)) hnot
  have hprev : list.prev (.node a) = some (lastOr .root (refs l₁)) := h.prev_first
  have hnext : list.next (.node a) = some (firstOr .root (refs l₂)) := by
    have h' : Ringed list (l₁ ++ [(a, x)] ++ l₂) := by rwa [List.append_assoc]
    simpa using h'.next_last
  obtain ⟨n, hn, hnprev⟩ := exists_node_of_prev hprev
  have hnnext : n.next = some (firstOr .root (refs l₂)) := by simpa [next, hn] using hnext
  have hnode : ∀ r ∈ Ref.root :: (refs l₁ ++ refs l₂), list.node r ≠ none := by
    intro r hr
    refine h.node_ne_none ?_
    simp only [refs_append, refs_cons, List.mem_cons, List.mem_append] at hr ⊢
    tauto
  -- the neighbours are linked to each other
  obtain ⟨list₁, hlist₁, hrelinked₁, hnext₁, hprev₁⟩ := exists_setPrev
    (hnode _ (firstOr_mem_append ..)) (some (lastOr .root (refs l₁)))
  have hprev₁a : list₁.prev (.node a) = some (lastOr .root (refs l₁)) := by
    rw [hprev₁, update_of_ne hfirst.symm, hprev]
  obtain ⟨n₁, hn₁, hn₁prev⟩ := exists_node_of_prev hprev₁a
  have hn₁next : n₁.next = some (firstOr .root (refs l₂)) := by
    have : list₁.next (.node a) = n₁.next := by simp [next, hn₁]
    rw [← this, hnext₁, hnext]
  obtain ⟨list₂, hlist₂, hrelinked₂, hnext₂, hprev₂⟩ := exists_setNext
    (mt (hrelinked₁.node _).mp (hnode _ (lastOr_mem_append ..)))
    (some (firstOr .root (refs l₂)))
  have hrelinked := hrelinked₁.trans hrelinked₂
  obtain ⟨n₂, hn₂⟩ : ∃ n₂, list₂.heap a = some n₂ :=
    Option.ne_none_iff_exists'.mp
      (mt (hrelinked.node (.node a)).mp (by rw [hn]; exact nofun))
  refine ⟨{ list₂ with heap := update list₂.heap a none, count := list₂.count - 1 }, ?_, ?_,
    hrelinked.iterator, hrelinked.dataSize⟩
  · simp only [nbuListDestroyNode, hn, hnprev, hnnext, hlist₁, hn₁, hn₁prev, hn₁next, hlist₂, free,
      hn₂, Option.bind_some, Option.map_some, bind]
  · exact ringed_erase h hrelinked (by rw [hnext₂, hnext₁]) (by rw [hprev₂, hprev₁])

/-- **The first insertion** links the root node to the new one. -/
theorem exists_insert_first (hroot : list.rootnode = ⟨none, none, none⟩) (hcount : list.count = 0)
    (hheap : ∀ b, list.heap b = none) (a : ι) (x : α) (direction : Bool) :
    ∃ list', nbuListInsert list x none direction (some a) = some (list', .success) ∧
      Ringed list' [(a, x)] ∧ list'.iterator = list.iterator ∧
      list'.dataSize = list.dataSize := by
  refine ⟨{ list with
      count := list.count + 1
      rootnode := ⟨some (.node a), some (.node a), none⟩
      heap := update list.heap a (some ⟨some .root, some .root, some x⟩) }, ?_, ?_, rfl, rfl⟩
  · simp only [nbuListInsert]
    rw [if_pos (by rw [hroot]; exact ⟨rfl, rfl⟩)]
    simp only [NbuList.set, hroot]
  · refine ⟨⟨by simp [refs], ?_⟩, ?_, rfl, by simp [hcount], ?_⟩
    · intro e he
      have hcases : e = (.root, .node a) ∨ e = (.node a, .root) := by simpa [edges, refs] using he
      rcases hcases with rfl | rfl <;> simp [Linked, next, prev, node]
    · intro e he
      obtain rfl := List.mem_singleton.mp he
      simp [data, node]
    · intro b
      by_cases hb : b = a <;> simp [node, hb, hheap]

end Ringed

/-! ### Sequences with a cursor -/

/-- Where the iterator points to. -/
def iteratorRef : Cursored (ι × α) → Option (Ref ι)
  | .fresh => none
  | .unset _ => none
  | .off _ => some .root
  | .on _ e _ => some (.node e.1)

/-- The nodes of the list, once there was an insertion. -/
def Shape (list : NbuList ι α) : Cursored (ι × α) → Prop
  | .fresh => list.rootnode = ⟨none, none, none⟩ ∧ list.count = 0 ∧ ∀ a, list.heap a = none
  | s => Ringed list s.items

/-- The list holds the sequence, with the addresses of the nodes. -/
structure Holds (list : NbuList ι α) (s : Cursored (ι × α)) : Prop where
  shape : Shape list s
  iterator : list.iterator = iteratorRef s

/-- **The list represents a sequence with a cursor**, at some addresses. -/
def Represents (list : NbuList ι α) (s : Cursored α) : Prop :=
  ∃ t : Cursored (ι × α), t.map Prod.snd = s ∧ Holds list t

theorem holds_new (dataSize : ℕ) : Holds (nbuListNew dataSize : NbuList ι α) .fresh :=
  ⟨⟨rfl, rfl, fun _ => rfl⟩, rfl⟩

/-! ### What the functions do -/

section Calls

variable {list : NbuList ι α} {t : Cursored (ι × α)} {entries : List (ι × α)}

theorem Ringed.rootnode_next (h : Ringed list entries) :
    list.rootnode.next = some (firstOr .root (refs entries)) :=
  Ringed.next_last (show Ringed list ([] ++ entries) from h)

theorem Ringed.rootnode_prev (h : Ringed list entries) :
    list.rootnode.prev = some (lastOr .root (refs entries)) :=
  Ringed.prev_first (show Ringed list (entries ++ []) by rwa [List.append_nil])

theorem Holds.ringed (h : Holds list t) (ht : t ≠ .fresh) : Ringed list t.items := by
  cases t with
  | fresh => exact absurd rfl ht
  | _ => exact h.shape

theorem holds_of_ringed (ht : t ≠ .fresh) (h : Ringed list t.items)
    (hiterator : list.iterator = iteratorRef t) : Holds list t := by
  cases t with
  | fresh => exact absurd rfl ht
  | _ => exact ⟨h, hiterator⟩

theorem Ringed.withIterator (h : Ringed list entries) (iterator : Option (Ref ι)) :
    Ringed { list with iterator } entries := ⟨h.ring, h.data, h.root_data, h.count, h.node⟩

/-- The iterator at the first node of the second part. -/
theorem Ringed.holds_seek {left right : List (ι × α)} (h : Ringed list (left.reverse ++ right))
    {iterator : Option (Ref ι)} (hiterator : iterator = some (firstOr .root (refs right))) :
    Holds { list with iterator } (.seek left right) := by
  cases right with
  | nil =>
    rw [List.append_nil] at h
    exact ⟨h.withIterator _, hiterator⟩
  | cons e right => exact ⟨h.withIterator _, hiterator⟩

/-- The iterator at the last node of the first part. -/
theorem Ringed.holds_seekBack {left right : List (ι × α)}
    (h : Ringed list (left.reverse ++ right)) {iterator : Option (Ref ι)}
    (hiterator : iterator = some (lastOr .root (refs left.reverse))) :
    Holds { list with iterator } (.seekBack left right) := by
  cases left with
  | nil => exact ⟨h.withIterator _, hiterator⟩
  | cons e left =>
    rw [List.reverse_cons] at h hiterator
    rw [List.append_assoc] at h
    exact ⟨h.withIterator _, by simpa [Cursored.seekBack, iteratorRef] using hiterator⟩

theorem Ringed.iteratorStart (h : Ringed list entries) :
    Holds (nbuListIteratorStart list) (.ofFirst entries) := by
  rw [Cursored.ofFirst_eq_seek]
  exact Ringed.holds_seek (show Ringed list ([].reverse ++ entries) from h) h.rootnode_next

theorem Ringed.iteratorEnd (h : Ringed list entries) :
    Holds (nbuListIteratorEnd list) (.ofLast entries) := by
  rw [Cursored.ofLast_eq_seekBack]
  refine Ringed.holds_seekBack ?_ (by rw [List.reverse_reverse]; exact h.rootnode_prev)
  rwa [List.reverse_reverse, List.append_nil]

theorem Holds.iteratorStart (h : Holds list t) : Holds (nbuListIteratorStart list) t.start := by
  cases t with
  | fresh =>
    obtain ⟨hroot, hcount, hheap⟩ := h.shape
    exact ⟨⟨hroot, hcount, hheap⟩, by rw [nbuListIteratorStart, hroot]; rfl⟩
  | _ => exact (h.ringed nofun).iteratorStart

theorem Holds.iteratorEnd (h : Holds list t) : Holds (nbuListIteratorEnd list) t.toEnd := by
  cases t with
  | fresh =>
    obtain ⟨hroot, hcount, hheap⟩ := h.shape
    exact ⟨⟨hroot, hcount, hheap⟩, by rw [nbuListIteratorEnd, hroot]; rfl⟩
  | _ => exact (h.ringed nofun).iteratorEnd

/-- A node, with its neighbours and its data. -/
theorem Ringed.exists_node {l₁ l₂ : List (ι × α)} {e : ι × α} (h : Ringed list (l₁ ++ e :: l₂)) :
    ∃ n, list.node (.node e.1) = some n ∧ n.next = some (firstOr .root (refs l₂)) ∧
      n.prev = some (lastOr .root (refs l₁)) ∧ n.data = some e.2 := by
  obtain ⟨n, hn, hprev⟩ := exists_node_of_prev h.prev_first
  have hn : list.node (.node e.1) = some n := hn
  refine ⟨n, hn, ?_, hprev, ?_⟩
  · have h' : Ringed list (l₁ ++ [e] ++ l₂) := by rwa [List.append_assoc]
    simpa [next, hn] using h'.next_last
  · simpa [NbuList.data, hn] using h.data e (by simp)

theorem Holds.exists_node {left right : List (ι × α)} {e : ι × α}
    (h : Holds list (.on left e right)) :
    ∃ n, list.node (.node e.1) = some n ∧ n.next = some (firstOr .root (refs right)) ∧
      n.prev = some (lastOr .root (refs left.reverse)) ∧ n.data = some e.2 :=
  Ringed.exists_node (show Ringed list (left.reverse ++ e :: right) from h.shape)

theorem Holds.iteratorNext (h : Holds list t) (hiterator : list.iterator ≠ none) :
    ∃ list', nbuListIteratorNext list = some list' ∧ Holds list' t.next := by
  cases t with
  | fresh | unset => exact absurd h.iterator hiterator
  | off items =>
    refine ⟨nbuListIteratorStart list, ?_, h.iteratorStart⟩
    simp [nbuListIteratorNext, h.iterator, iteratorRef, node, nbuListIteratorStart]
  | on left e right =>
    obtain ⟨n, hn, hnext, -⟩ := h.exists_node
    refine ⟨{ list with iterator := n.next }, ?_, ?_⟩
    · simp [nbuListIteratorNext, h.iterator, iteratorRef, hn]
    · have hring : Ringed list ((e :: left).reverse ++ right) := by
        rw [List.reverse_cons, List.append_assoc]
        exact h.shape
      rw [Cursored.next_on]
      exact hring.holds_seek hnext

theorem Holds.iteratorPrevious (h : Holds list t) (hiterator : list.iterator ≠ none) :
    ∃ list', nbuListIteratorPrevious list = some list' ∧ Holds list' t.previous := by
  cases t with
  | fresh | unset => exact absurd h.iterator hiterator
  | off items =>
    refine ⟨nbuListIteratorEnd list, ?_, h.iteratorEnd⟩
    simp [nbuListIteratorPrevious, h.iterator, iteratorRef, node, nbuListIteratorEnd]
  | on left e right =>
    obtain ⟨n, hn, -, hprev, -⟩ := h.exists_node
    refine ⟨{ list with iterator := n.prev }, ?_, ?_⟩
    · simp [nbuListIteratorPrevious, h.iterator, iteratorRef, hn]
    · rw [Cursored.previous_on]
      exact Ringed.holds_seekBack h.shape hprev

theorem iteratorRef_insertBegin (e : ι × α) (t : Cursored (ι × α)) :
    iteratorRef (t.insertBegin e) = iteratorRef t := by
  cases t <;> rfl

theorem iteratorRef_insertEnd (e : ι × α) (t : Cursored (ι × α)) :
    iteratorRef (t.insertEnd e) = iteratorRef t := by
  cases t <;> rfl

variable [DecidableEq ι]

/-- What is at the iterator. -/
theorem Holds.get (h : Holds list t) :
    nbuListGet list = t.current.map Prod.snd ∧
      nbuListIteratorIsValid list = t.current.isSome := by
  cases t with
  | fresh | unset =>
    simp [nbuListGet, nbuListIteratorIsValid, h.iterator, iteratorRef, Cursored.current]
  | off items =>
    have hring : Ringed list items := h.shape
    have hdata : list.rootnode.data = none := hring.root_data
    simp [nbuListGet, nbuListIteratorIsValid, h.iterator, iteratorRef, Cursored.current, node,
      hdata]
  | on left e right =>
    obtain ⟨n, hn, -, -, hdata⟩ := h.exists_node
    simp [nbuListGet, nbuListIteratorIsValid, h.iterator, iteratorRef, Cursored.current, hn, hdata]

variable {a : ι}

theorem Holds.insert_fresh (h : Holds list .fresh) (a : ι) (x : α) (direction : Bool) :
    ∃ list', nbuListInsert list x none direction (some a) = some (list', .success) ∧
      Holds list' (.unset [(a, x)]) ∧ list'.dataSize = list.dataSize := by
  obtain ⟨hroot, hcount, hheap⟩ := h.shape
  obtain ⟨list', heq, hring, hiterator, hsize⟩ :=
    exists_insert_first hroot hcount hheap a x direction
  exact ⟨list', heq, ⟨hring, hiterator.trans h.iterator⟩, hsize⟩

/-- **Insertion** between two parts of the sequence. -/
theorem Holds.insert (h : Holds list t) (ht : t ≠ .fresh) {l₁ l₂ : List (ι × α)}
    (hitems : t.items = l₁ ++ l₂) (ha : list.heap a = none) (x : α) (t' : Cursored (ι × α))
    (ht' : t' ≠ .fresh) (hitems' : t'.items = l₁ ++ (a, x) :: l₂)
    (hiterator : iteratorRef t' = iteratorRef t) (direction : Bool) :
    ∃ list', nbuListInsert list x (some (neighbour direction l₁ l₂)) direction (some a)
        = some (list', .success) ∧ Holds list' t' ∧ list'.dataSize = list.dataSize := by
  obtain ⟨list', heq, hring, hit, hsize⟩ :=
    exists_insert (hitems ▸ h.ringed ht) ha x direction
  refine ⟨list', heq, holds_of_ringed ht' (hitems' ▸ hring) ?_, hsize⟩
  rw [hit, h.iterator, hiterator]

theorem Holds.insertBegin (h : Holds list t) (ha : list.heap a = none) (x : α) :
    ∃ list', nbuListInsertBegin list x (some a) = some (list', .success) ∧
      Holds list' (t.insertBegin (a, x)) ∧ list'.dataSize = list.dataSize := by
  by_cases ht : t = .fresh
  · subst ht
    rw [nbuListInsertBegin, h.shape.1]
    exact h.insert_fresh a x false
  · rw [nbuListInsertBegin, (h.ringed ht).rootnode_next]
    exact h.insert ht (List.nil_append _).symm ha x _ (by cases t <;> exact nofun)
      (Cursored.items_insertBegin ..) (iteratorRef_insertBegin ..) false

theorem Holds.insertEnd (h : Holds list t) (ha : list.heap a = none) (x : α) :
    ∃ list', nbuListInsertEnd list x (some a) = some (list', .success) ∧
      Holds list' (t.insertEnd (a, x)) ∧ list'.dataSize = list.dataSize := by
  by_cases ht : t = .fresh
  · subst ht
    rw [nbuListInsertEnd, h.shape.1]
    exact h.insert_fresh a x true
  · rw [nbuListInsertEnd, (h.ringed ht).rootnode_prev]
    exact h.insert ht (List.append_nil _).symm ha x _ (by cases t <;> exact nofun)
      (Cursored.items_insertEnd ..) (iteratorRef_insertEnd ..) true

/-- An insertion at the cursor is refused when it is unset and the list was used before. -/
theorem Holds.insertBefore (h : Holds list t) (ha : list.heap a = none) (x : α) :
    match t.insertBefore (a, x) with
    | some t' => ∃ list', nbuListInsertBefore list x (some a) = some (list', .success) ∧
        Holds list' t' ∧ list'.dataSize = list.dataSize
    | none => nbuListInsertBefore list x (some a) = some (list, .error) := by
  rw [nbuListInsertBefore, h.iterator]
  cases t with
  | fresh => exact h.insert_fresh a x false
  | unset items =>
    simp [Cursored.insertBefore, nbuListInsert, iteratorRef, (h.ringed (by simp)).rootnode_next]
  | off items =>
    exact h.insert (by simp) (List.append_nil items).symm ha x (.off (items ++ [(a, x)])) (by simp)
      rfl rfl false
  | on left e right =>
    exact h.insert (by simp) rfl ha x (.on ((a, x) :: left) e right) (by simp)
      (by simp [Cursored.items]) rfl false

theorem Holds.insertAfter (h : Holds list t) (ha : list.heap a = none) (x : α) :
    match t.insertAfter (a, x) with
    | some t' => ∃ list', nbuListInsertAfter list x (some a) = some (list', .success) ∧
        Holds list' t' ∧ list'.dataSize = list.dataSize
    | none => nbuListInsertAfter list x (some a) = some (list, .error) := by
  rw [nbuListInsertAfter, h.iterator]
  cases t with
  | fresh => exact h.insert_fresh a x true
  | unset items =>
    simp [Cursored.insertAfter, nbuListInsert, iteratorRef, (h.ringed (by simp)).rootnode_next]
  | off items =>
    exact h.insert (by simp) (List.nil_append items).symm ha x (.off ((a, x) :: items)) (by simp)
      rfl rfl true
  | on left e right =>
    have hlast : neighbour true (left.reverse ++ [e]) right = .node e.1 := by
      simp [neighbour]
    have hinsert := h.insert (by simp) (List.append_cons left.reverse e right) ha x
      (.on left e ((a, x) :: right)) (by simp) (by simp [Cursored.items]) rfl true
    rwa [hlast] at hinsert

/-- A valid iterator is at an item. -/
theorem Holds.eq_on (h : Holds list t) (hvalid : nbuListIteratorIsValid list = true) :
    ∃ left e right, t = .on left e right := by
  rw [h.get.2] at hvalid
  cases t with
  | on left e right => exact ⟨left, e, right, rfl⟩
  | fresh | unset | off => exact absurd hvalid Bool.false_ne_true

theorem Holds.deleteForward (h : Holds list t) (hvalid : nbuListIteratorIsValid list = true) :
    ∃ list', nbuListDeleteForward list = some list' ∧ Holds list' t.deleteForward := by
  obtain ⟨left, e, right, rfl⟩ := h.eq_on hvalid
  obtain ⟨n, hn, hnext, -⟩ := h.exists_node
  obtain ⟨list', heq, hring, -, -⟩ := exists_destroyNode h.shape
  refine ⟨{ list' with iterator := n.next }, ?_, ?_⟩
  · simp [nbuListDeleteForward, h.iterator, iteratorRef, hn, heq]
  · rw [Cursored.deleteForward_on]
    exact hring.holds_seek hnext

theorem Holds.deleteBackward (h : Holds list t) (hvalid : nbuListIteratorIsValid list = true) :
    ∃ list', nbuListDeleteBackward list = some list' ∧ Holds list' t.deleteBackward := by
  obtain ⟨left, e, right, rfl⟩ := h.eq_on hvalid
  obtain ⟨n, hn, -, hprev, -⟩ := h.exists_node
  obtain ⟨list', heq, hring, -, -⟩ := exists_destroyNode h.shape
  refine ⟨{ list' with iterator := n.prev }, ?_, ?_⟩
  · simp [nbuListDeleteBackward, h.iterator, iteratorRef, hn, heq]
  · rw [Cursored.deleteBackward_on]
    exact hring.holds_seekBack hprev

theorem exists_deleteBegin {e : ι × α} (h : Ringed list (e :: entries)) :
    ∃ list', nbuListDeleteBegin list = some list' ∧ Ringed list' entries ∧
      list'.iterator = list.iterator := by
  obtain ⟨list', heq, hring, hiterator, -⟩ :=
    exists_destroyNode (show Ringed list ([] ++ e :: entries) from h)
  exact ⟨list', by rw [nbuListDeleteBegin, h.rootnode_next]; exact heq, hring, hiterator⟩

theorem exists_deleteEnd {e : ι × α} (h : Ringed list (entries ++ [e])) :
    ∃ list', nbuListDeleteEnd list = some list' ∧ Ringed list' entries ∧
      list'.iterator = list.iterator := by
  obtain ⟨list', heq, hring, hiterator, -⟩ := exists_destroyNode h
  refine ⟨list', ?_, by rwa [List.append_nil] at hring, hiterator⟩
  rw [nbuListDeleteEnd, h.rootnode_prev, refs_append, refs_cons, refs_nil, lastOr_concat]
  exact heq

theorem Holds.deleteBegin (h : Holds list t) (hnode : list.rootnode.next ≠ none)
    (hroot : list.rootnode.next ≠ some .root)
    (hiterator : list.rootnode.next ≠ list.iterator) :
    ∃ list', nbuListDeleteBegin list = some list' ∧ Holds list' t.deleteBegin := by
  cases t with
  | fresh => exact absurd (congrArg ListNode.next h.shape.1) hnode
  | unset items | off items =>
    have hring : Ringed list items := h.shape
    cases items with
    | nil => exact absurd hring.rootnode_next hroot
    | cons e items =>
      obtain ⟨list', heq, hring', hit⟩ := exists_deleteBegin hring
      exact ⟨list', heq, hring', hit.trans h.iterator⟩
  | on left e right =>
    have hring : Ringed list (left.reverse ++ e :: right) := h.shape
    rcases List.eq_nil_or_concat left with rfl | ⟨left, e', rfl⟩
    · exact absurd (hring.rootnode_next.trans h.iterator.symm) hiterator
    · rw [List.concat_eq_append, List.reverse_append, List.reverse_singleton, List.append_assoc,
        List.singleton_append] at hring
      obtain ⟨list', heq, hring', hit⟩ := exists_deleteBegin hring
      refine ⟨list', heq, ?_⟩
      rw [List.concat_eq_append, Cursored.deleteBegin, List.dropLast_concat]
      exact ⟨hring', hit.trans h.iterator⟩

theorem Holds.deleteEnd (h : Holds list t) (hnode : list.rootnode.prev ≠ none)
    (hroot : list.rootnode.prev ≠ some .root)
    (hiterator : list.rootnode.prev ≠ list.iterator) :
    ∃ list', nbuListDeleteEnd list = some list' ∧ Holds list' t.deleteEnd := by
  cases t with
  | fresh => exact absurd (congrArg ListNode.prev h.shape.1) hnode
  | unset items | off items =>
    have hring : Ringed list items := h.shape
    rcases List.eq_nil_or_concat items with rfl | ⟨items, e, rfl⟩
    · exact absurd hring.rootnode_prev hroot
    · rw [List.concat_eq_append] at hring ⊢
      obtain ⟨list', heq, hring', hit⟩ := exists_deleteEnd hring
      rw [Cursored.deleteEnd, List.dropLast_concat]
      exact ⟨list', heq, hring', hit.trans h.iterator⟩
  | on left e right =>
    have hring : Ringed list (left.reverse ++ e :: right) := h.shape
    rcases List.eq_nil_or_concat right with rfl | ⟨right, e', rfl⟩
    · have hprev := hring.rootnode_prev
      rw [refs_append, refs_cons, refs_nil, lastOr_concat] at hprev
      exact absurd (hprev.trans h.iterator.symm) hiterator
    · rw [List.concat_eq_append, ← List.cons_append, ← List.append_assoc] at hring
      obtain ⟨list', heq, hring', hit⟩ := exists_deleteEnd hring
      refine ⟨list', heq, ?_⟩
      rw [List.concat_eq_append, Cursored.deleteEnd, List.dropLast_concat]
      exact ⟨hring', hit.trans h.iterator⟩

end Calls

/-! ### Refinement -/

/-- What a call does to the sequence.  An insertion is refused without memory. -/
def callSeq (s : Cursored α) : ListOp ι α → Cursored α × List NbuRet
  | .insertBegin data calloc =>
    if calloc.isSome then (s.insertBegin data, [.success]) else (s, [.error])
  | .insertEnd data calloc =>
    if calloc.isSome then (s.insertEnd data, [.success]) else (s, [.error])
  | .insertBefore data calloc =>
    match calloc, s.insertBefore data with
    | some _, some s => (s, [.success])
    | _, _ => (s, [.error])
  | .insertAfter data calloc =>
    match calloc, s.insertAfter data with
    | some _, some s => (s, [.success])
    | _, _ => (s, [.error])
  | .deleteForward => (s.deleteForward, [])
  | .deleteBackward => (s.deleteBackward, [])
  | .deleteBegin => (s.deleteBegin, [])
  | .deleteEnd => (s.deleteEnd, [])
  | .iteratorStart => (s.start, [])
  | .iteratorEnd => (s.toEnd, [])
  | .iteratorNext => (s.next, [])
  | .iteratorPrevious => (s.previous, [])

/-- The call may be made: `calloc` returns a block that is not in use, a deletion is of a node that
exists, and, for those that do not go by the iterator, of another one than the iterator's, and the
iterator is not moved on from `NULL`. -/
def Legal [DecidableEq ι] (list : NbuList ι α) : ListOp ι α → Prop
  | .insertBegin _ calloc | .insertEnd _ calloc | .insertBefore _ calloc | .insertAfter _ calloc =>
    ∀ a ∈ calloc, list.heap a = none
  | .deleteForward | .deleteBackward => nbuListIteratorIsValid list = true
  | .deleteBegin => list.rootnode.next ≠ none ∧ list.rootnode.next ≠ some .root ∧
      list.rootnode.next ≠ list.iterator
  | .deleteEnd => list.rootnode.prev ≠ none ∧ list.rootnode.prev ≠ some .root ∧
      list.rootnode.prev ≠ list.iterator
  | .iteratorStart | .iteratorEnd => True
  | .iteratorNext | .iteratorPrevious => list.iterator ≠ none

instance [DecidableEq ι] (list : NbuList ι α) : DecidablePred (Legal list) := by
  intro op
  cases op <;> unfold Legal <;> infer_instance

section Represents

variable {list : NbuList ι α} {s : Cursored α}

theorem Represents.iteratorStart (h : Represents list s) :
    Represents (nbuListIteratorStart list) s.start := by
  obtain ⟨t, rfl, h⟩ := h
  exact ⟨t.start, t.map_start _, h.iteratorStart⟩

theorem Represents.iteratorEnd (h : Represents list s) :
    Represents (nbuListIteratorEnd list) s.toEnd := by
  obtain ⟨t, rfl, h⟩ := h
  exact ⟨t.toEnd, t.map_toEnd _, h.iteratorEnd⟩

theorem Represents.iteratorNext (h : Represents list s) (hiterator : list.iterator ≠ none) :
    ∃ list', nbuListIteratorNext list = some list' ∧ Represents list' s.next := by
  obtain ⟨t, rfl, h⟩ := h
  obtain ⟨list', heq, h'⟩ := h.iteratorNext hiterator
  exact ⟨list', heq, t.next, t.map_next _, h'⟩

theorem Represents.iteratorPrevious (h : Represents list s) (hiterator : list.iterator ≠ none) :
    ∃ list', nbuListIteratorPrevious list = some list' ∧ Represents list' s.previous := by
  obtain ⟨t, rfl, h⟩ := h
  obtain ⟨list', heq, h'⟩ := h.iteratorPrevious hiterator
  exact ⟨list', heq, t.previous, t.map_previous _, h'⟩

theorem Represents.iterator_ne_none (h : Represents list s) (hs : s.isSet = true) :
    list.iterator ≠ none := by
  obtain ⟨t, rfl, h⟩ := h
  rw [h.iterator]
  cases t with
  | fresh => exact nomatch hs
  | unset items => exact nomatch hs
  | off items => exact nofun
  | on left e right => exact nofun

theorem Represents.count (h : Represents list s) : list.count = s.items.length := by
  obtain ⟨t, rfl, h⟩ := h
  rw [t.items_map, List.length_map]
  cases t with
  | fresh => exact h.shape.2.1
  | _ => exact Ringed.count h.shape

/-- The call that ended with a new list. -/
theorem represents_insert {r : Option (NbuList ι α × NbuRet)} {list' : NbuList ι α} {ret : NbuRet}
    (heq : r = some (list', ret)) (h : Represents list' s) :
    ∃ list', (returns r).1 = some list' ∧ Represents list' s ∧ (returns r).2 = [ret] := by
  subst heq
  exact ⟨list', rfl, h, rfl⟩

/-- An insertion at the cursor gave `o`, or was refused. -/
theorem represents_insertAt {t : Cursored (ι × α)} (hholds : Holds list t)
    {o : Option (Cursored (ι × α))} {r : Option (NbuList ι α × NbuRet)}
    (hinsert : match o with
      | some t' => ∃ list', r = some (list', .success) ∧ Holds list' t' ∧
          list'.dataSize = list.dataSize
      | none => r = some (list, .error)) :
    let s := (o.map (Cursored.map Prod.snd)).getD (t.map Prod.snd)
    ∃ list', (returns r).1 = some list' ∧ Represents list' s ∧
      (returns r).2 = [if o.isSome then .success else .error] := by
  cases o with
  | none => exact represents_insert hinsert ⟨t, rfl, hholds⟩
  | some t' =>
    obtain ⟨list', heq, h', -⟩ := hinsert
    exact represents_insert heq ⟨t', rfl, h'⟩

variable [DecidableEq ι]

theorem Represents.deleteBackward (h : Represents list s)
    (hvalid : nbuListIteratorIsValid list = true) :
    ∃ list', nbuListDeleteBackward list = some list' ∧ Represents list' s.deleteBackward := by
  obtain ⟨t, rfl, h⟩ := h
  obtain ⟨list', heq, h'⟩ := h.deleteBackward hvalid
  exact ⟨list', heq, t.deleteBackward, t.map_deleteBackward _, h'⟩

/-- What is at the cursor. -/
theorem Represents.get (h : Represents list s) :
    nbuListGet list = s.current ∧ nbuListIteratorIsValid list = s.current.isSome := by
  obtain ⟨t, rfl, h⟩ := h
  rw [t.current_map, Option.isSome_map]
  exact h.get

/-- **One call** does to the list what it does to the sequence, and returns the same. -/
theorem represents_call (h : Represents list s) {op : ListOp ι α} (hlegal : Legal list op) :
    ∃ list', (callList list op).1 = some list' ∧ Represents list' (callSeq s op).1 ∧
      (callList list op).2 = (callSeq s op).2 := by
  obtain ⟨t, rfl, hholds⟩ := h
  cases op with
  | insertBegin data calloc =>
    cases calloc with
    | none => exact ⟨list, rfl, ⟨t, rfl, hholds⟩, rfl⟩
    | some a =>
      obtain ⟨list', heq, h', -⟩ := hholds.insertBegin (hlegal a rfl) data
      exact represents_insert heq ⟨_, t.map_insertBegin _ _, h'⟩
  | insertEnd data calloc =>
    cases calloc with
    | none => exact ⟨list, rfl, ⟨t, rfl, hholds⟩, rfl⟩
    | some a =>
      obtain ⟨list', heq, h', -⟩ := hholds.insertEnd (hlegal a rfl) data
      exact represents_insert heq ⟨_, t.map_insertEnd _ _, h'⟩
  | insertBefore data calloc =>
    cases calloc with
    | none => exact ⟨list, rfl, ⟨t, rfl, hholds⟩, rfl⟩
    | some a =>
      have hinsert := represents_insertAt hholds (hholds.insertBefore (hlegal a rfl) data)
      simp only [callSeq, ← t.map_insertBefore Prod.snd (a, data)]
      cases h : t.insertBefore (a, data) <;> rw [h] at hinsert <;> exact hinsert
  | insertAfter data calloc =>
    cases calloc with
    | none => exact ⟨list, rfl, ⟨t, rfl, hholds⟩, rfl⟩
    | some a =>
      have hinsert := represents_insertAt hholds (hholds.insertAfter (hlegal a rfl) data)
      simp only [callSeq, ← t.map_insertAfter Prod.snd (a, data)]
      cases h : t.insertAfter (a, data) <;> rw [h] at hinsert <;> exact hinsert
  | deleteForward =>
    obtain ⟨list', heq, h'⟩ := hholds.deleteForward hlegal
    exact ⟨list', heq, ⟨_, t.map_deleteForward _, h'⟩, rfl⟩
  | deleteBackward =>
    obtain ⟨list', heq, h'⟩ := hholds.deleteBackward hlegal
    exact ⟨list', heq, ⟨_, t.map_deleteBackward _, h'⟩, rfl⟩
  | deleteBegin =>
    obtain ⟨list', heq, h'⟩ := hholds.deleteBegin hlegal.1 hlegal.2.1 hlegal.2.2
    exact ⟨list', heq, ⟨_, t.map_deleteBegin _, h'⟩, rfl⟩
  | deleteEnd =>
    obtain ⟨list', heq, h'⟩ := hholds.deleteEnd hlegal.1 hlegal.2.1 hlegal.2.2
    exact ⟨list', heq, ⟨_, t.map_deleteEnd _, h'⟩, rfl⟩
  | iteratorStart => exact ⟨_, rfl, Represents.iteratorStart ⟨t, rfl, hholds⟩, rfl⟩
  | iteratorEnd => exact ⟨_, rfl, Represents.iteratorEnd ⟨t, rfl, hholds⟩, rfl⟩
  | iteratorNext =>
    obtain ⟨list', heq, h'⟩ := Represents.iteratorNext ⟨t, rfl, hholds⟩ hlegal
    exact ⟨list', heq, h', rfl⟩
  | iteratorPrevious =>
    obtain ⟨list', heq, h'⟩ := Represents.iteratorPrevious ⟨t, rfl, hholds⟩ hlegal
    exact ⟨list', heq, h', rfl⟩

/-! ### Traversals -/

theorem iterator_ne_none_of_isValid (h : nbuListIteratorIsValid list = true) :
    list.iterator ≠ none := by
  simp only [nbuListIteratorIsValid, decide_eq_true_eq] at h
  exact h.1

/-- A loop over the list is a walk of the cursor. -/
theorem nbuListVisit_eq_walk {move : NbuList ι α → Option (NbuList ι α)}
    {move' : Cursored α → Cursored α}
    (hmove : ∀ (list : NbuList ι α) (s : Cursored α), Represents list s → list.iterator ≠ none →
      ∃ list', move list = some list' ∧ Represents list' (move' s)) (fuel : ℕ) :
    ∀ {list : NbuList ι α} {s : Cursored α}, Represents list s →
      nbuListVisit move fuel list = s.walk move' fuel := by
  induction fuel with
  | zero => exact fun _ => rfl
  | succ fuel ih =>
    intro list s h
    obtain ⟨hget, hvalid⟩ := h.get
    unfold nbuListVisit Cursored.walk
    rcases hcurrent : s.current with - | x
    · rw [hcurrent] at hvalid
      rw [if_neg (by simp [hvalid])]
    · rw [hcurrent] at hvalid hget
      obtain ⟨list', heq, h'⟩ := hmove list s h (iterator_ne_none_of_isValid hvalid)
      rw [if_pos (show nbuListIteratorIsValid list = true from hvalid)]
      simp [hget, heq, ih h', Option.map_eq_bind]

theorem Represents.forEach (h : Represents list s) {fuel : ℕ} (hfuel : list.count < fuel) :
    nbuListForEach fuel list = some s.items := by
  rw [nbuListForEach, nbuListVisit_eq_walk (fun _ _ => Represents.iteratorNext) fuel
    h.iteratorStart]
  exact s.walk_start (h.count ▸ hfuel)

theorem Represents.forEachRev (h : Represents list s) {fuel : ℕ} (hfuel : list.count < fuel) :
    nbuListForEachRev fuel list = some s.items.reverse := by
  rw [nbuListForEachRev, nbuListVisit_eq_walk (fun _ _ => Represents.iteratorPrevious) fuel
    h.iteratorEnd]
  exact s.walk_toEnd (h.count ▸ hfuel)

end Represents

/-- Every other block than those of the entries is not in use. -/
theorem Holds.heap_eq_none {list : NbuList ι α} {t : Cursored (ι × α)} (h : Holds list t) {a : ι}
    (ha : a ∉ t.items.map Prod.fst) : list.heap a = none := by
  by_cases ht : t = .fresh
  · subst ht
    exact h.shape.2.2 a
  · exact not_not.mp (mt ((h.ringed ht).node a).mp ha)

/-- There is always a block that is not in use. -/
theorem Holds.exists_unused [DecidableEq ι] [Infinite ι] {list : NbuList ι α}
    {t : Cursored (ι × α)} (h : Holds list t) : ∃ a, list.heap a = none := by
  obtain ⟨a, ha⟩ := Infinite.exists_notMem_finset (t.items.map Prod.fst).toFinset
  exact ⟨a, h.heap_eq_none (by rwa [List.mem_toFinset] at ha)⟩

variable [DecidableEq ι]

/-- **List refinement.**  After every sequence of calls on a new list that may be made: nothing
undefined has happened, the calls returned what they return on the sequence with a cursor, the
nodes form a ring over the root node that holds the items of the sequence, or the list is as new,
with the iterator where the cursor is, a loop over the list sees the items, a loop backward sees
them in reverse, and `count` is their number. -/
theorem nbuList_refines (dataSize : ℕ) (ops : List (ListOp ι α))
    (hlegal : Meets listStep (fun list op => ∀ l ∈ list, Legal l op)
      (some (nbuListNew dataSize)) ops) :
    let s : Cursored α := (run callSeq .fresh ops).1
    (run listStep (some (nbuListNew dataSize)) ops).2 = (run callSeq (.fresh : Cursored α) ops).2 ∧
      ∃ list, (run listStep (some (nbuListNew dataSize)) ops).1 = some list ∧ Represents list s ∧
        list.count = s.items.length ∧ nbuListGet list = s.current ∧
        ∀ fuel > list.count, nbuListForEach fuel list = some s.items ∧
          nbuListForEachRev fuel list = some s.items.reverse := by
  obtain ⟨⟨list, hlist, hrep⟩, hrets⟩ := run_sim_of_meets listStep callSeq
    (R := fun list s => ∃ l, list = some l ∧ Represents l s)
    (by
      rintro _ s op hop ⟨l, rfl, h⟩
      obtain ⟨l', heq, h', hrets⟩ := represents_call h (hop l rfl)
      exact ⟨⟨l', heq, h'⟩, hrets⟩)
    ⟨nbuListNew dataSize, rfl, .fresh, rfl, holds_new dataSize⟩ hlegal
  exact ⟨hrets, list, hlist, hrep, hrep.count, hrep.get.1,
    fun fuel hfuel => ⟨hrep.forEach hfuel, hrep.forEachRev hfuel⟩⟩

/-- Every sequence is represented by some list. -/
theorem exists_represents [Infinite ι] (items : List α) :
    ∃ (list : NbuList ι α) (s : Cursored α), Represents list s ∧ s.items = items := by
  induction items using List.reverseRecOn with
  | nil => exact ⟨nbuListNew 0, .fresh, ⟨.fresh, rfl, holds_new 0⟩, rfl⟩
  | append_singleton items x ih =>
    obtain ⟨list, _, ⟨t, rfl, h⟩, rfl⟩ := ih
    obtain ⟨a, ha⟩ := h.exists_unused
    obtain ⟨list', -, h', -⟩ := h.insertEnd ha x
    exact ⟨list', _, ⟨_, t.map_insertEnd _ _, h'⟩, Cursored.items_insertEnd _ _⟩

/-- A list is filled, emptied and filled again; the second block is used twice. -/
theorem nbuList_refines_refill :
    let ops : List (ListOp ℕ Char) := [.insertEnd 'a' (some 7), .insertBegin 'b' (some 3),
      .iteratorStart, .deleteForward, .deleteBackward, .insertAfter 'c' (some 3),
      .insertBefore 'd' (some 8), .iteratorEnd, .insertBefore 'e' none, .insertBefore 'f' (some 9)]
    let list := (run listStep (some (nbuListNew 1)) ops).1
    (run listStep (some (nbuListNew 1)) ops).2
        = [.success, .success, .success, .success, .error, .success] ∧
      list.bind (nbuListForEach 4) = some ['c', 'f', 'd'] ∧
      list.bind (nbuListForEachRev 4) = some ['d', 'f', 'c'] ∧ list.bind nbuListGet = some 'd' := by
  intro ops list
  obtain ⟨hrets, list', hlist, -, hcount, hget, hloops⟩ := nbuList_refines 1 ops (by decide)
  obtain ⟨hforward, hbackward⟩ := hloops 4 (by rw [hcount]; decide)
  have hlist : list = some list' := hlist
  rw [hrets, hlist, Option.bind_some, Option.bind_some, Option.bind_some, hforward, hbackward, hget]
  decide

end Neufbox.Libnbu
