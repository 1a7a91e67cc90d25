import Mathlib.Data.List.Basic
import Mathlib.Tactic.Common

/-!
# Queues of bounded capacity

A queue of capacity `cap` takes as many items as there is room for and gives up its oldest ones.
-/

namespace Neufbox

/-- At most `cap` items, the oldest one first. -/
@[ext] structure Queue (α : Type*) (cap : ℕ) where
  items : List α
  length_le : items.length ≤ cap

namespace Queue

variable {α : Type*} {cap : ℕ}

def empty : Queue α cap := ⟨[], Nat.zero_le _⟩

variable (q : Queue α cap)

/-- How many items are still taken. -/
def room : ℕ := cap - q.items.length

/-- The first of the new items, as many as there is room for, become the newest ones. -/
def push (xs : List α) : Queue α cap where
  items := q.items ++ xs.take q.room
  length_le := by
    have := q.length_le
    rw [List.length_append, List.length_take, room]
    omega

/-- The `n` oldest items are given up, or all if there are fewer. -/
def pop (n : ℕ) : Queue α cap where
  items := q.items.drop n
  length_le := by
    have := q.length_le
    rw [List.length_drop]
    omega

theorem items_push (xs : List α) :
    (q.push xs).items = q.items ++ xs.take q.room := rfl

theorem items_pop (n : ℕ) : (q.pop n).items = q.items.drop n := rfl

theorem pop_min (n : ℕ) : q.pop (min n q.items.length) = q.pop n := by
  apply Queue.ext
  rw [items_pop, items_pop]
  rcases Nat.le_total n q.items.length with h | h
  · rw [Nat.min_eq_left h]
  · rw [Nat.min_eq_right h, List.drop_eq_nil_of_le (Nat.le_refl _), List.drop_eq_nil_of_le h]

theorem pop_of_length_le {n : ℕ} (h : q.items.length ≤ n) :
    q.pop n = empty :=
  Queue.ext (List.drop_eq_nil_of_le h)

end Queue

end Neufbox
