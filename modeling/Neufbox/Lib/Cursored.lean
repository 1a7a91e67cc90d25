import Mathlib.Data.List.Basic
import Mathlib.Tactic.Common

/-!
# Sequences with a cursor

A sequence that is gone over with a cursor, which is unset until it is moved for the first time, and
is later on an item or off the sequence, between its end and its start.  On an item, the items
before it are kept in reverse, the nearest one first.

The operations commute with `map`: they move items around and do not look at them.
-/

namespace Neufbox

/-- A sequence with a cursor. -/
inductive Cursored (α : Type*) where
  /-- Nothing was put into the sequence yet, and the cursor is unset. -/
  | fresh
  | unset (items : List α)
  | off (items : List α)
  | on (left : List α) (item : α) (right : List α)

namespace Cursored

variable {α β : Type*}

def items : Cursored α → List α
  | fresh => []
  | unset items => items
  | off items => items
  | on left item right => left.reverse ++ item :: right

/-- The item that the cursor is on. -/
def current : Cursored α → Option α
  | on _ item _ => some item
  | _ => none

/-- The cursor was moved to somewhere. -/
def isSet : Cursored α → Bool
  | fresh => false
  | unset _ => false
  | off _ => true
  | on _ _ _ => true

/-! ### Insertion -/

/-- A new first item. -/
def insertBegin (x : α) : Cursored α → Cursored α
  | fresh => unset [x]
  | unset items => unset (x :: items)
  | off items => off (x :: items)
  | on left item right => on (left ++ [x]) item right

/-- A new last item. -/
def insertEnd (x : α) : Cursored α → Cursored α
  | fresh => unset [x]
  | unset items => unset (items ++ [x])
  | off items => off (items ++ [x])
  | on left item right => on left item (right ++ [x])

/-- A new item before the cursor.  With an unset cursor, only the first item has a place. -/
def insertBefore (x : α) : Cursored α → Option (Cursored α)
  | fresh => some (unset [x])
  | unset _ => none
  | off items => some (off (items ++ [x]))
  | on left item right => some (on (x :: left) item right)

/-- A new item behind the cursor.  With an unset cursor, only the first item has a place. -/
def insertAfter (x : α) : Cursored α → Option (Cursored α)
  | fresh => some (unset [x])
  | unset _ => none
  | off items => some (off (x :: items))
  | on left item right => some (on left item (x :: right))

/-! ### Moves -/

/-- The cursor on the first of the items, or off if there is none. -/
def ofFirst : List α → Cursored α
  | [] => off []
  | x :: items => on [] x items

/-- The cursor on the last of the items, or off if there is none. -/
def ofLast (items : List α) : Cursored α :=
  match items.reverse with
  | [] => off []
  | x :: left => on left x []

/-- The cursor moves to the start. -/
def start : Cursored α → Cursored α
  | fresh => fresh
  | s => ofFirst s.items

/-- The cursor moves to the end. -/
def toEnd : Cursored α → Cursored α
  | fresh => fresh
  | s => ofLast s.items

/-- The cursor moves one step forward, around the end if need be. -/
def next : Cursored α → Cursored α
  | off items => ofFirst items
  | on left item [] => off (left.reverse ++ [item])
  | on left item (x :: right) => on (item :: left) x right
  | s => s

/-- The cursor moves one step backward, around the start if need be. -/
def previous : Cursored α → Cursored α
  | off items => ofLast items
  | on [] item right => off (item :: right)
  | on (x :: left) item right => on left x (item :: right)
  | s => s

/-! ### Deletion -/

/-- The item at the cursor is deleted, and the cursor moves to the next one. -/
def deleteForward : Cursored α → Cursored α
  | on left _ [] => off left.reverse
  | on left _ (x :: right) => on left x right
  | s => s

/-- The item at the cursor is deleted, and the cursor moves to the one before. -/
def deleteBackward : Cursored α → Cursored α
  | on [] _ right => off right
  | on (x :: left) _ right => on left x right
  | s => s

/-- The first item, which the cursor is not on, is deleted. -/
def deleteBegin : Cursored α → Cursored α
  | fresh => fresh
  | unset items => unset items.tail
  | off items => off items.tail
  | on left item right => on left.dropLast item right

/-- The last item, which the cursor is not on, is deleted. -/
def deleteEnd : Cursored α → Cursored α
  | fresh => fresh
  | unset items => unset items.dropLast
  | off items => off items.dropLast
  | on left item right => on left item right.dropLast

/-- The cursor between two parts of the sequence: on the first item of the second, if there is
one. -/
def seek (left : List α) : List α → Cursored α
  | [] => off left.reverse
  | x :: right => on left x right

/-- The cursor between two parts of the sequence, the first one in reverse: on the last item of the
first, if there is one. -/
def seekBack : List α → List α → Cursored α
  | [], right => off right
  | x :: left, right => on left x right

theorem items_seek (left right : List α) : (seek left right).items = left.reverse ++ right := by
  cases right with
  | nil => exact (List.append_nil _).symm
  | cons x right => rfl

theorem ofFirst_eq_seek (items : List α) : ofFirst items = seek [] items := by
  cases items <;> rfl

theorem start_of_ne_fresh {s : Cursored α} (hs : s ≠ fresh) : s.start = seek [] s.items := by
  rw [← ofFirst_eq_seek]
  cases s with
  | fresh => exact absurd rfl hs
  | _ => rfl

theorem next_on (left : List α) (x : α) (right : List α) :
    (on left x right).next = seek (x :: left) right := by
  cases right <;> simp [next, seek]

theorem previous_on (left : List α) (x : α) (right : List α) :
    (on left x right).previous = seekBack left (x :: right) := by
  cases left <;> rfl

theorem ofLast_eq_seekBack (items : List α) : ofLast items = seekBack items.reverse [] := by
  unfold ofLast
  cases items.reverse <;> rfl

theorem deleteForward_on (left : List α) (x : α) (right : List α) :
    (on left x right).deleteForward = seek left right := by
  cases right <;> rfl

theorem deleteBackward_on (left : List α) (x : α) (right : List α) :
    (on left x right).deleteBackward = seekBack left right := by
  cases left <;> rfl

/-- Going on from where the deletion left the cursor. -/
theorem next_deleteBackward_on (left : List α) (x : α) (right : List α) :
    (on left x right).deleteBackward.next = seek left right := by
  cases left with
  | nil => exact ofFirst_eq_seek right
  | cons y left => exact next_on left y right

theorem isSet_deleteBackward_on (left : List α) (x : α) (right : List α) :
    (on left x right).deleteBackward.isSet = true := by
  cases left <;> rfl

/-! ### The items after an operation -/

@[simp] theorem items_insertBegin (x : α) (s : Cursored α) :
    (s.insertBegin x).items = x :: s.items := by
  cases s <;> simp [insertBegin, items]

@[simp] theorem items_insertEnd (x : α) (s : Cursored α) :
    (s.insertEnd x).items = s.items ++ [x] := by
  cases s <;> simp [insertEnd, items]

/-! ### Walks -/

/-- The items that the cursor comes by until it is off, moving up to `fuel` times. -/
def walk (move : Cursored α → Cursored α) : ℕ → Cursored α → Option (List α)
  | 0, _ => none
  | fuel + 1, s =>
    match s.current with
    | none => some []
    | some x => (walk move fuel (move s)).map (x :: ·)

theorem walk_next_on (left : List α) (x : α) (right : List α) {fuel : ℕ}
    (h : right.length + 1 < fuel) : walk next fuel (on left x right) = some (x :: right) := by
  induction right generalizing left x fuel with
  | nil =>
    obtain ⟨fuel, rfl⟩ : ∃ k, fuel = k + 2 := ⟨fuel - 2, by simp at h; omega⟩
    rfl
  | cons y right ih =>
    obtain ⟨fuel, rfl⟩ : ∃ k, fuel = k + 1 := ⟨fuel - 1, by omega⟩
    have hrest : walk next fuel (on (x :: left) y right) = some (y :: right) :=
      ih _ _ (by simpa using h)
    simp [walk, current, next, hrest]

theorem walk_previous_on (left : List α) (x : α) (right : List α) {fuel : ℕ}
    (h : left.length + 1 < fuel) : walk previous fuel (on left x right) = some (x :: left) := by
  induction left generalizing x right fuel with
  | nil =>
    obtain ⟨fuel, rfl⟩ : ∃ k, fuel = k + 2 := ⟨fuel - 2, by simp at h; omega⟩
    rfl
  | cons y left ih =>
    obtain ⟨fuel, rfl⟩ : ∃ k, fuel = k + 1 := ⟨fuel - 1, by omega⟩
    have hrest : walk previous fuel (on left y (x :: right)) = some (y :: left) :=
      ih _ _ (by simpa using h)
    simp [walk, current, previous, hrest]

theorem walk_ofFirst (items : List α) {fuel : ℕ} (h : items.length < fuel) :
    walk next fuel (ofFirst items) = some items := by
  obtain ⟨fuel, rfl⟩ : ∃ k, fuel = k + 1 := ⟨fuel - 1, by omega⟩
  cases items with
  | nil => rfl
  | cons x items => exact walk_next_on [] x items h

theorem walk_ofLast (items : List α) {fuel : ℕ} (h : items.length < fuel) :
    walk previous fuel (ofLast items) = some items.reverse := by
  obtain ⟨fuel, rfl⟩ : ∃ k, fuel = k + 1 := ⟨fuel - 1, by omega⟩
  rcases List.eq_nil_or_concat items with rfl | ⟨items, x, rfl⟩
  · rfl
  · have hlen : items.reverse.length + 1 < fuel + 1 := by simpa using h
    simpa [ofLast] using walk_previous_on items.reverse x [] hlen

/-- **Forward**, the cursor comes by all the items in order. -/
theorem walk_start (s : Cursored α) {fuel : ℕ} (h : s.items.length < fuel) :
    walk next fuel s.start = some s.items := by
  cases s with
  | fresh =>
    obtain ⟨fuel, rfl⟩ : ∃ k, fuel = k + 1 := ⟨fuel - 1, by omega⟩
    rfl
  | _ => exact walk_ofFirst _ h

/-- **Backward**, it comes by them in reverse. -/
theorem walk_toEnd (s : Cursored α) {fuel : ℕ} (h : s.items.length < fuel) :
    walk previous fuel s.toEnd = some s.items.reverse := by
  cases s with
  | fresh =>
    obtain ⟨fuel, rfl⟩ : ∃ k, fuel = k + 1 := ⟨fuel - 1, by omega⟩
    rfl
  | _ => exact walk_ofLast _ h

/-! ### Naturality -/

def map (f : α → β) : Cursored α → Cursored β
  | fresh => fresh
  | unset items => unset (items.map f)
  | off items => off (items.map f)
  | on left item right => on (left.map f) (f item) (right.map f)

section map

variable (f : α → β) (x : α) (s : Cursored α)

theorem items_map : (s.map f).items = s.items.map f := by
  cases s <;> simp [map, items]

theorem current_map : (s.map f).current = s.current.map f := by
  cases s <;> rfl

theorem map_insertBegin : (s.insertBegin x).map f = (s.map f).insertBegin (f x) := by
  cases s <;> simp [map, insertBegin]

theorem map_insertEnd : (s.insertEnd x).map f = (s.map f).insertEnd (f x) := by
  cases s <;> simp [map, insertEnd]

theorem map_insertBefore :
    (s.insertBefore x).map (map f) = (s.map f).insertBefore (f x) := by
  cases s <;> simp [map, insertBefore]

theorem map_insertAfter : (s.insertAfter x).map (map f) = (s.map f).insertAfter (f x) := by
  cases s <;> simp [map, insertAfter]

theorem map_ofFirst (items : List α) : (ofFirst items).map f = ofFirst (items.map f) := by
  cases items <;> rfl

theorem map_ofLast (items : List α) : (ofLast items).map f = ofLast (items.map f) := by
  unfold ofLast
  rw [← List.map_reverse]
  cases items.reverse <;> rfl

theorem map_start : s.start.map f = (s.map f).start := by
  cases s with
  | fresh => rfl
  | _ => simp only [start, map_ofFirst, ← items_map]; rfl

theorem map_toEnd : s.toEnd.map f = (s.map f).toEnd := by
  cases s with
  | fresh => rfl
  | _ => simp only [toEnd, map_ofLast, ← items_map]; rfl

theorem map_next : s.next.map f = (s.map f).next := by
  cases s with
  | off items => exact map_ofFirst f items
  | on left item right => cases right <;> simp [map, next]
  | _ => rfl

theorem map_previous : s.previous.map f = (s.map f).previous := by
  cases s with
  | off items => exact map_ofLast f items
  | on left item right => cases left <;> simp [map, previous]
  | _ => rfl

theorem map_deleteForward : s.deleteForward.map f = (s.map f).deleteForward := by
  cases s with
  | on left item right => cases right <;> simp [map, deleteForward]
  | _ => rfl

theorem map_deleteBackward : s.deleteBackward.map f = (s.map f).deleteBackward := by
  cases s with
  | on left item right => cases left <;> simp [map, deleteBackward]
  | _ => rfl

theorem map_deleteBegin : s.deleteBegin.map f = (s.map f).deleteBegin := by
  cases s <;> simp [map, deleteBegin, List.map_tail, List.map_dropLast]

theorem map_deleteEnd : s.deleteEnd.map f = (s.map f).deleteEnd := by
  cases s <;> simp [map, deleteEnd, List.map_dropLast]

end map

end Cursored

end Neufbox
