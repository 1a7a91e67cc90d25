import Mathlib.Data.List.Basic
import Mathlib.Data.List.Nodup
import Mathlib.Logic.Function.Basic
import Mathlib.Tactic.Common

/-!
# Cyclic doubly linked lists

Nodes of a type `ν` are linked by two partial functions `next` and `prev`.  They form a ring over
`root` when the nodes of a list, with `root` before the first and behind the last, are linked in
both directions: `Ring next prev root nodes`.

* `Ring.next_last`, `Ring.prev_first`: the links where a ring is cut in two;
* `Ring.insert`: a new node is linked in between two neighbours;
* `Ring.erase`: a node is taken out by linking its neighbours to each other.
-/

namespace Neufbox

open Function (update update_of_ne update_self)

variable {ν : Type*} (root : ν)

/-- The node behind `root` when `nodes` follow it. -/
def firstOr (nodes : List ν) : ν := nodes.head?.getD root

/-- The node before `root` when `nodes` go before it. -/
def lastOr (nodes : List ν) : ν := nodes.getLast?.getD root

@[simp] theorem firstOr_nil : firstOr root [] = root := rfl

@[simp] theorem firstOr_cons (root x : ν) (nodes : List ν) : firstOr root (x :: nodes) = x := rfl

@[simp] theorem lastOr_nil : lastOr root [] = root := rfl

@[simp] theorem lastOr_concat (root x : ν) (nodes : List ν) :
    lastOr root (nodes ++ [x]) = x := by
  simp [lastOr]

theorem firstOr_mem (nodes : List ν) : firstOr root nodes ∈ root :: nodes := by
  cases nodes <;> simp

theorem cons_eq_dropLast_concat (nodes : List ν) :
    root :: nodes = (root :: nodes).dropLast ++ [lastOr root nodes] := by
  rcases List.eq_nil_or_concat nodes with rfl | ⟨nodes', x, rfl⟩
  · rfl
  · rw [List.concat_eq_append, lastOr_concat, ← List.cons_append, List.dropLast_concat]

theorem lastOr_mem (nodes : List ν) : lastOr root nodes ∈ root :: nodes := by
  rw [cons_eq_dropLast_concat]
  exact List.mem_append_right _ (List.mem_singleton_self _)

theorem concat_eq_cons_tail (nodes : List ν) :
    nodes ++ [root] = firstOr root nodes :: (nodes ++ [root]).tail := by
  cases nodes <;> rfl

/-! ### Edges -/

/-- The pairs of neighbours in a ring. -/
def edges (nodes : List ν) : List (ν × ν) := (root :: nodes).zip (nodes ++ [root])

/-- The neighbours up to `nodes`' end, without the last and `root`. -/
def edgesBefore (nodes : List ν) : List (ν × ν) := (root :: nodes).dropLast.zip nodes

/-- The neighbours from `nodes`' start on, without `root` and the first. -/
def edgesBehind (nodes : List ν) : List (ν × ν) := nodes.zip (nodes ++ [root]).tail

/-- A ring is cut between two lists of nodes. -/
theorem edges_append (l₁ l₂ : List ν) :
    edges root (l₁ ++ l₂)
      = edgesBefore root l₁ ++ (lastOr root l₁, firstOr root l₂) :: edgesBehind root l₂ := by
  unfold edges edgesBefore edgesBehind
  rw [← List.cons_append, cons_eq_dropLast_concat root l₁, List.append_assoc l₁,
    concat_eq_cons_tail root l₂, List.append_assoc, List.singleton_append,
    List.zip_append (by simp), List.zip_cons_cons]
  simp

theorem edges_append_cons (root x : ν) (l₁ l₂ : List ν) :
    edges root (l₁ ++ x :: l₂)
      = edgesBefore root l₁ ++
        (lastOr root l₁, x) :: (x, firstOr root l₂) :: edgesBehind root l₂ := by
  rw [edges_append, firstOr_cons, edgesBehind, List.cons_append, List.tail_cons,
    concat_eq_cons_tail root l₂, List.zip_cons_cons, edgesBehind]

/-- The other edges leave out the neighbours of the cut. -/
theorem ne_of_mem_edges {root : ν} {l₁ l₂ : List ν} (hnodup : (root :: (l₁ ++ l₂)).Nodup)
    {e : ν × ν} (he : e ∈ edgesBefore root l₁ ++ edgesBehind root l₂) :
    e.1 ≠ lastOr root l₁ ∧ e.2 ≠ firstOr root l₂ ∧
      e.1 ∈ root :: (l₁ ++ l₂) ∧ e.2 ∈ root :: (l₁ ++ l₂) := by
  obtain ⟨hroot, hl⟩ := List.nodup_cons.mp hnodup
  obtain ⟨hl₁, hl₂, hdisj⟩ := List.nodup_append.mp hl
  have hroot₁ : root ∉ l₁ := fun h => hroot (List.mem_append_left _ h)
  have hroot₂ : root ∉ l₂ := fun h => hroot (List.mem_append_right _ h)
  rcases List.mem_append.mp he with he | he
  · obtain ⟨h1, h2⟩ := List.of_mem_zip he
    have hfront : ((root :: l₁).dropLast ++ [lastOr root l₁]).Nodup := by
      rw [← cons_eq_dropLast_concat]
      exact List.nodup_cons.mpr ⟨hroot₁, hl₁⟩
    refine ⟨(List.nodup_append.mp hfront).2.2 _ h1 _ (List.mem_singleton_self _), ?_, ?_, ?_⟩
    · intro heq
      rcases List.mem_cons.mp (heq ▸ firstOr_mem root l₂) with h | h
      · exact hroot₁ (h ▸ h2)
      · exact hdisj _ h2 _ h rfl
    · exact List.mem_append_left l₂ (List.dropLast_subset _ h1)
    · exact List.mem_cons_of_mem _ (List.mem_append_left _ h2)
  · obtain ⟨h1, h2⟩ := List.of_mem_zip he
    have hrest : (firstOr root l₂ :: (l₂ ++ [root]).tail).Nodup := by
      rw [← concat_eq_cons_tail]
      exact List.nodup_append.mpr ⟨hl₂, List.nodup_singleton _, fun a ha b hb hab =>
        hroot₂ (List.mem_singleton.mp hb ▸ hab ▸ ha)⟩
    refine ⟨?_, ?_, ?_, ?_⟩
    · intro heq
      rcases List.mem_cons.mp (heq ▸ lastOr_mem root l₁) with h | h
      · exact hroot₂ (h ▸ h1)
      · exact hdisj _ h _ h1 rfl
    · rintro heq
      exact (List.nodup_cons.mp hrest).1 (heq ▸ h2)
    · exact List.mem_cons_of_mem _ (List.mem_append_right _ h1)
    · rcases List.mem_append.mp (List.mem_of_mem_tail h2) with h | h
      · exact List.mem_cons_of_mem _ (List.mem_append_right _ h)
      · exact List.mem_singleton.mp h ▸ List.mem_cons_self

theorem lastOr_mem_append (l₁ l₂ : List ν) :
    lastOr root l₁ ∈ root :: (l₁ ++ l₂) :=
  List.mem_append_left l₂ (lastOr_mem root l₁)

theorem firstOr_mem_append (l₁ l₂ : List ν) :
    firstOr root l₂ ∈ root :: (l₁ ++ l₂) := by
  rcases List.mem_cons.mp (firstOr_mem root l₂) with h | h
  · rw [h]
    exact List.mem_cons_self
  · exact List.mem_cons_of_mem _ (List.mem_append_right _ h)

/-- Where the new node stands does not matter. -/
theorem nodup_append_cons_iff {root x : ν} {l₁ l₂ : List ν} :
    (root :: (l₁ ++ x :: l₂)).Nodup ↔
      x ∉ root :: (l₁ ++ l₂) ∧ (root :: (l₁ ++ l₂)).Nodup := by
  have hperm : (root :: (l₁ ++ x :: l₂)).Perm (x :: root :: (l₁ ++ l₂)) :=
    (List.perm_middle.cons root).trans (List.Perm.swap x root _)
  rw [hperm.nodup_iff, List.nodup_cons]

/-! ### Rings -/

/-- The first node of the pair is followed by the second one. -/
def Linked (next prev : ν → Option ν) (e : ν × ν) : Prop :=
  next e.1 = some e.2 ∧ prev e.2 = some e.1

/-- The nodes are linked to a ring, with `root` before the first and behind the last. -/
structure Ring (next prev : ν → Option ν) (root : ν) (nodes : List ν) : Prop where
  nodup : (root :: nodes).Nodup
  links : ∀ e ∈ edges root nodes, Linked next prev e

namespace Ring

variable {next prev : ν → Option ν} {root x : ν} {nodes l₁ l₂ : List ν}

theorem linked_append (h : Ring next prev root (l₁ ++ l₂)) :
    Linked next prev (lastOr root l₁, firstOr root l₂) :=
  h.links _ (by rw [edges_append]; simp)

theorem next_last (h : Ring next prev root (l₁ ++ l₂)) :
    next (lastOr root l₁) = some (firstOr root l₂) := h.linked_append.1

theorem prev_first (h : Ring next prev root (l₁ ++ l₂)) :
    prev (firstOr root l₂) = some (lastOr root l₁) := h.linked_append.2

variable [DecidableEq ν]

/-- **Insertion** of a new node between two neighbours. -/
theorem insert (h : Ring next prev root (l₁ ++ l₂)) (hx : x ∉ root :: (l₁ ++ l₂)) :
    Ring (update (update next x (some (firstOr root l₂))) (lastOr root l₁) (some x))
      (update (update prev x (some (lastOr root l₁))) (firstOr root l₂) (some x)) root
      (l₁ ++ x :: l₂) where
  nodup := nodup_append_cons_iff.mpr ⟨hx, h.nodup⟩
  links := by
    have hlast := (ne_of_mem_of_not_mem (lastOr_mem_append root l₁ l₂) hx).symm
    have hfirst := (ne_of_mem_of_not_mem (firstOr_mem_append root l₁ l₂) hx).symm
    intro e he
    rw [edges_append_cons, List.mem_append, List.mem_cons, List.mem_cons] at he
    rcases he with he | rfl | rfl | he
    rotate_left
    · exact ⟨update_self .., by rw [update_of_ne hfirst, update_self]⟩
    · exact ⟨by rw [update_of_ne hlast, update_self], update_self ..⟩
    all_goals
      -- the other links are as they were
      obtain ⟨hne₁, hne₂, hmem₁, hmem₂⟩ := ne_of_mem_edges (e := e) h.nodup (by simp [he])
      have hlinked : Linked next prev e := h.links e (by rw [edges_append]; simp [he])
      exact ⟨by rw [update_of_ne hne₁, update_of_ne (ne_of_mem_of_not_mem hmem₁ hx), hlinked.1],
        by rw [update_of_ne hne₂, update_of_ne (ne_of_mem_of_not_mem hmem₂ hx), hlinked.2]⟩

/-- **Removal** of a node: its neighbours are linked to each other. -/
theorem erase (h : Ring next prev root (l₁ ++ x :: l₂)) :
    Ring (update (update next (lastOr root l₁) (some (firstOr root l₂))) x none)
      (update (update prev (firstOr root l₂) (some (lastOr root l₁))) x none) root
      (l₁ ++ l₂) := by
  obtain ⟨hx, hnodup⟩ := nodup_append_cons_iff.mp h.nodup
  have hlast := ne_of_mem_of_not_mem (lastOr_mem_append root l₁ l₂) hx
  have hfirst := ne_of_mem_of_not_mem (firstOr_mem_append root l₁ l₂) hx
  refine ⟨hnodup, ?_⟩
  intro e he
  rw [edges_append, List.mem_append, List.mem_cons] at he
  rcases he with he | rfl | he
  rotate_left
  · exact ⟨by rw [update_of_ne hlast, update_self], by rw [update_of_ne hfirst, update_self]⟩
  all_goals
    obtain ⟨hne₁, hne₂, hmem₁, hmem₂⟩ := ne_of_mem_edges (e := e) hnodup (by simp [he])
    have hlinked : Linked next prev e := h.links e (by rw [edges_append_cons]; simp [he])
    exact ⟨by rw [update_of_ne (ne_of_mem_of_not_mem hmem₁ hx), update_of_ne hne₁, hlinked.1],
      by rw [update_of_ne (ne_of_mem_of_not_mem hmem₂ hx), update_of_ne hne₂, hlinked.2]⟩

end Ring

end Neufbox
