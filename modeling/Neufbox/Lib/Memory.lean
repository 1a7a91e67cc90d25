import Mathlib.Data.List.Basic
import Mathlib.Logic.Function.Basic
import Mathlib.Tactic.Common

/-!
# Block writes to an indexed memory

A memory is a function `ℕ → α`, from addresses to cells.  `write m a xs` stores the list `xs` from
address `a` on and `read m a n` loads `n` cells from `a` on.  A `read` sees a `write` on the cells
they share and nothing of it elsewhere (`read_write_self`, `read_write_of_disjoint`).
-/

namespace Neufbox.Memory

variable {α : Type*} (m : ℕ → α)

/-- The cells `xs` stored from address `a` on. -/
def write (a : ℕ) (xs : List α) : ℕ → α :=
  fun j => if j < a then m j else (xs[j - a]?).getD (m j)

/-- The `n` cells from address `a` on. -/
def read (a n : ℕ) : List α := (List.range n).map fun i => m (a + i)

@[simp] theorem length_read (a n : ℕ) : (read m a n).length = n := by
  simp [read]

theorem getElem_read (a n i : ℕ) (h : i < (read m a n).length) :
    (read m a n)[i] = m (a + i) := by
  simp [read]

theorem write_apply_of_lt (a : ℕ) (xs : List α) {j : ℕ} (h : j < a) :
    write m a xs j = m j := if_pos h

theorem write_apply_of_ge (a : ℕ) (xs : List α) {j : ℕ} (h : a + xs.length ≤ j) :
    write m a xs j = m j := by
  rw [write, if_neg (by omega), List.getElem?_eq_none (by omega), Option.getD_none]

/-- Inside the block the memory holds the list. -/
theorem write_apply_add (a : ℕ) (xs : List α) {i : ℕ} (h : i < xs.length) :
    write m a xs (a + i) = xs[i] := by
  rw [write, if_neg (by omega), Nat.add_sub_cancel_left, List.getElem?_eq_getElem h,
    Option.getD_some]

/-- Where two memories agree, or inside the block, the same write leaves them agreeing. -/
theorem write_apply_congr {m m' : ℕ → α} (a : ℕ) (xs : List α) {j : ℕ}
    (h : (a ≤ j ∧ j < a + xs.length) ∨ m j = m' j) : write m a xs j = write m' a xs j := by
  rcases h with ⟨hlo, hhi⟩ | heq
  · obtain ⟨i, rfl⟩ := Nat.exists_eq_add_of_le hlo
    rw [write_apply_add m a xs (by omega), write_apply_add m' a xs (by omega)]
  · rw [write, write, heq]

theorem write_nil (a : ℕ) : write m a [] = m := by
  funext j
  simp [write]

/-- A block is stored cell by cell. -/
theorem write_cons (a : ℕ) (x : α) (xs : List α) :
    write m a (x :: xs) = write (Function.update m a x) (a + 1) xs := by
  funext j
  rcases Nat.lt_trichotomy j a with h | rfl | h
  · rw [write_apply_of_lt _ _ _ h, write_apply_of_lt _ _ _ (by omega),
      Function.update_of_ne (by omega)]
  · rw [write_apply_of_lt _ _ _ (Nat.lt_succ_self j), Function.update_self]
    exact write_apply_add m j (x :: xs) (i := 0) (Nat.succ_pos _)
  · obtain ⟨i, rfl⟩ := Nat.exists_eq_add_of_lt h
    rw [write, write, if_neg (by omega), if_neg (by omega), Function.update_of_ne (by omega),
      show a + i + 1 - a = i + 1 by omega, show a + i + 1 - (a + 1) = i by omega,
      List.getElem?_cons_succ]

theorem read_add (a n k : ℕ) : read m a (n + k) = read m a n ++ read m (a + n) k := by
  simp only [read, List.range_add, List.map_append, List.map_map, Function.comp_def, Nat.add_assoc]

theorem read_succ (a n : ℕ) : read m a (n + 1) = m a :: read m (a + 1) n := by
  rw [Nat.add_comm, read_add]
  rfl

theorem apply_add_of_read_eq {m : ℕ → α} {a : ℕ} {xs : List α} (h : read m a xs.length = xs) {i : ℕ}
    (hi : i < xs.length) : m (a + i) = xs[i] := by
  have hread : i < (read m a xs.length).length := by rwa [length_read]
  rw [← getElem_read m a xs.length i hread]
  simp only [h]

theorem take_read (a n k : ℕ) : (read m a n).take k = read m a (min n k) := by
  rw [read, ← List.map_take, List.take_range, Nat.min_comm, read]

theorem drop_read (a n k : ℕ) :
    (read m a n).drop k = read m (a + min n k) (n - min n k) := by
  have h : n = min n k + (n - min n k) := by omega
  conv_lhs => rw [h, read_add]
  rcases Nat.le_total n k with hnk | hkn
  · rw [Nat.min_eq_left hnk, List.drop_eq_nil_of_le (by simpa using by omega)]
    simp [read]
  · rw [Nat.min_eq_right hkn, List.drop_append_of_le_length (by simp),
      List.drop_eq_nil_of_le (by simp), List.nil_append]

/-- A block inside a block that was read. -/
theorem take_drop_read (b : ℕ) {a k n : ℕ} (h : a + k ≤ n) :
    ((read m b n).drop a).take k = read m (b + a) k := by
  rw [drop_read, take_read, Nat.min_eq_right (by omega), Nat.min_eq_right (by omega)]

theorem read_congr {m m' : ℕ → α} {a n : ℕ} (h : ∀ i < n, m (a + i) = m' (a + i)) :
    read m a n = read m' a n := by
  apply List.map_congr_left
  intro i hi
  exact h i (List.mem_range.mp hi)

/-- Two blocks next to each other. -/
theorem read_eq_append_iff {m : ℕ → α} {a : ℕ} {xs ys : List α} :
    read m a (xs ++ ys).length = xs ++ ys ↔
      read m a xs.length = xs ∧ read m (a + xs.length) ys.length = ys := by
  rw [List.length_append, read_add]
  constructor
  · intro h
    exact List.append_inj h (length_read ..)
  · rintro ⟨hx, hy⟩
    rw [hx, hy]

theorem read_write_self (a : ℕ) (xs : List α) :
    read (write m a xs) a xs.length = xs := by
  apply List.ext_getElem (by simp)
  intro i _ h2
  rw [getElem_read, write_apply_add m a xs h2]

/-- Storing what is there already. -/
theorem write_of_read_eq {m : ℕ → α} {a : ℕ} {xs : List α} (h : read m a xs.length = xs) :
    write m a xs = m := by
  funext j
  by_cases hblock : a ≤ j ∧ j < a + xs.length
  · obtain ⟨i, rfl⟩ := Nat.exists_eq_add_of_le hblock.1
    have hi : i < (read m a xs.length).length := by
      rw [length_read]
      omega
    have hcell := getElem_read m a xs.length i hi
    rw [write_apply_add m a xs (by omega), ← hcell]
    simp only [h]
  · rcases Nat.lt_or_ge j a with hlt | hge
    · exact write_apply_of_lt m a xs hlt
    · exact write_apply_of_ge m a xs (by omega)

theorem read_write_of_disjoint (a : ℕ) (xs : List α) {b n : ℕ}
    (h : b + n ≤ a ∨ a + xs.length ≤ b) : read (write m a xs) b n = read m b n := by
  apply read_congr
  intro i hi
  rcases h with h | h
  · exact write_apply_of_lt m a xs (by omega)
  · exact write_apply_of_ge m a xs (by omega)

/-- A block stored right behind what was read. -/
theorem read_write_append (b n : ℕ) (xs : List α) :
    read (write m (b + n) xs) b (n + xs.length) = read m b n ++ xs := by
  rw [read_add, read_write_of_disjoint m _ xs (.inl (Nat.le_refl _)), read_write_self]

end Neufbox.Memory
