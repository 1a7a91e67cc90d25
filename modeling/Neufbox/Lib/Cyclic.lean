import Neufbox.Lib.Memory
import Mathlib.Data.Nat.ModEq
import Mathlib.Algebra.Order.Group.Nat
import Mathlib.Logic.Function.Basic

/-!
# Cyclic storage of the end of a log

A memory of `n` cells keeps the last `n` entries of a growing log when entry `p` is stored in cell
`p % n`.  `Retains n m log` says that it does.  Appending a block of at most `n` entries is done
with two block writes, one from the write position to the end of the cells and one from cell `0`
on (`put`); reading a range of positions walks the same two blocks (`slots_eq_split`).

* `retains_put`: the two writes append the block to the retained log;
* `map_slots_eq_of_retains`: reading a retained range of positions gives those entries;
* `map_slots_window`: reading everything retained gives `window n log`, the last `n` entries.

The same cells hold a queue of at most `n` entries, from some position on: `Queued n m p q`.  It is
appended to with `put` (`Queued.append`), given up from its front by moving the position
(`Queued.drop`), and read by the two block copies (`Queued.map_splitSlots`).
-/

namespace Neufbox.Cyclic

open Memory

variable {α : Type*}

/-- The cells of the `len` positions from `p` on. -/
def slots (n p len : ℕ) : List ℕ := (List.range len).map fun i => (p + i) % n

/-- The cells in the order two block copies visit them: from `p % n` to the end, then from `0`. -/
def splitSlots (n p len : ℕ) : List ℕ :=
  (List.range (min len (n - p % n))).map (fun i => p % n + i)
    ++ List.range (len - min len (n - p % n))

/-- Append `xs` at position `p` with two block writes. -/
def put (n : ℕ) (m : ℕ → α) (p : ℕ) (xs : List α) : ℕ → α :=
  write (write m (p % n) (xs.take (n - p % n))) 0 (xs.drop (n - p % n))

/-- The last `n` entries of a log. -/
def window (n : ℕ) (log : List α) : List α := log.drop (log.length - n)

/-- The memory holds the last `n` entries of `log`, entry `p` in cell `p % n`. -/
def Retains (n : ℕ) (m : ℕ → α) (log : List α) : Prop :=
  ∀ (p : ℕ) (h : p < log.length), log.length ≤ p + n → m (p % n) = log[p]

@[simp] theorem length_slots (n p len : ℕ) : (slots n p len).length = len := by
  simp [slots]

@[simp] theorem length_splitSlots (n p len : ℕ) : (splitSlots n p len).length = len := by
  simp only [splitSlots, List.length_append, List.length_map, List.length_range]
  omega

theorem retains_nil (n : ℕ) (m : ℕ → α) : Retains n m [] := by
  intro p h
  simp at h

/-! ### Cell arithmetic -/

theorem add_mod_eq_of_lt {n p i : ℕ} (h : p % n + i < n) : (p + i) % n = p % n + i := by
  rw [Nat.add_mod, Nat.mod_eq_of_lt (show i < n by omega), Nat.mod_eq_of_lt h]

theorem add_mod_eq_sub_of_ge {n p i : ℕ} (hi : i ≤ n) (h : n ≤ p % n + i) (hn : 0 < n) :
    (p + i) % n = p % n + i - n := by
  have hlt := Nat.mod_lt p hn
  rw [← Nat.mod_add_mod, Nat.mod_eq_sub_mod h, Nat.mod_eq_of_lt (by omega)]

/-- Positions less than `n` apart lie in different cells. -/
theorem mod_ne_mod_of_lt {n p q : ℕ} (hpq : p < q) (hqp : q < p + n) : p % n ≠ q % n := by
  intro h
  have hd : n ∣ q - p := (Nat.modEq_iff_dvd' hpq.le).mp h
  have := Nat.le_of_dvd (by omega) hd
  omega

/-- A range of at most `n` positions is visited by the two block copies in order. -/
theorem slots_eq_split {n p len : ℕ} (hn : 0 < n) (hlen : len ≤ n) :
    splitSlots n p len = slots n p len := by
  have hlt := Nat.mod_lt p hn
  apply List.ext_getElem (by simp)
  intro i h1 h2
  simp only [length_splitSlots] at h1
  simp only [splitSlots, slots, List.getElem_append, List.length_map, List.length_range,
    List.getElem_map, List.getElem_range]
  split_ifs with h
  · rw [add_mod_eq_of_lt (by omega)]
  · rw [add_mod_eq_sub_of_ge (by omega) (by omega) hn]
    omega

/-! ### Appending -/

/-- Cell `j` after `put`: the entry whose position falls in it, if there is one. -/
theorem put_apply_of_mem {n p : ℕ} {m : ℕ → α} {xs : List α} (hn : 0 < n)
    (hlen : xs.length ≤ n) {i : ℕ} (hi : i < xs.length) :
    put n m p xs ((p + i) % n) = xs[i] := by
  have hlt := Nat.mod_lt p hn
  unfold put
  by_cases h : p % n + i < n
  · -- first block: the second one ends below `p % n`
    rw [add_mod_eq_of_lt h, write_apply_of_ge _ _ _ (by rw [List.length_drop]; omega),
      write_apply_add _ _ _ (by rw [List.length_take]; omega), List.getElem_take]
  · have hcell : (p + i) % n = 0 + (i - (n - p % n)) := by
      rw [add_mod_eq_sub_of_ge (by omega) (by omega) hn]; omega
    rw [hcell, write_apply_add _ _ _ (by rw [List.length_drop]; omega), List.getElem_drop]
    congr 1
    omega

theorem put_apply_of_not_mem {n p : ℕ} {m : ℕ → α} {xs : List α} (hn : 0 < n)
    (hlen : xs.length ≤ n) {j : ℕ} (hj : j < n) (h : ∀ i < xs.length, (p + i) % n ≠ j) :
    put n m p xs j = m j := by
  have hlt := Nat.mod_lt p hn
  have hsecond : xs.length - (n - p % n) ≤ j := by
    by_contra hlt'
    refine h (j + (n - p % n)) (by omega) ?_
    rw [add_mod_eq_sub_of_ge (by omega) (by omega) hn]
    omega
  unfold put
  rw [write_apply_of_ge _ _ _ (by rw [List.length_drop]; omega)]
  by_cases hlo : j < p % n
  · exact write_apply_of_lt _ _ _ hlo
  · refine write_apply_of_ge _ _ _ ?_
    rw [List.length_take]
    by_contra hlt'
    refine h (j - p % n) (by omega) ?_
    rw [add_mod_eq_of_lt (by omega)]
    omega

/-- Nothing is written past the cells. -/
theorem put_apply_of_ge {n p : ℕ} {m : ℕ → α} {xs : List α} (hn : 0 < n) (hlen : xs.length ≤ n)
    {j : ℕ} (hj : n ≤ j) : put n m p xs j = m j := by
  have hlt := Nat.mod_lt p hn
  unfold put
  rw [write_apply_of_ge _ _ _ (by rw [List.length_drop]; omega),
    write_apply_of_ge _ _ _ (by rw [List.length_take]; omega)]

/-- Every cell has a position less than `n` behind `p`. -/
theorem exists_add_mod_eq {n : ℕ} (p : ℕ) {j : ℕ} (hj : j < n) : ∃ i < n, (p + i) % n = j := by
  have hlt := Nat.mod_lt p (show 0 < n by omega)
  by_cases h : p % n ≤ j
  · exact ⟨j - p % n, by omega, by rw [add_mod_eq_of_lt (by omega)]; omega⟩
  · exact ⟨j + n - p % n, by omega, by
      rw [add_mod_eq_sub_of_ge (by omega) (by omega) (by omega)]; omega⟩

/-- What `put` does, position by position. -/
theorem put_apply_add {n p : ℕ} (m : ℕ → α) {xs : List α} (hn : 0 < n) (hlen : xs.length ≤ n)
    {i : ℕ} (hi : i < n) :
    put n m p xs ((p + i) % n) = (xs[i]?).getD (m ((p + i) % n)) := by
  by_cases h : i < xs.length
  · rw [put_apply_of_mem hn hlen h, List.getElem?_eq_getElem h, Option.getD_some]
  · rw [List.getElem?_eq_none (by omega), Option.getD_none]
    apply put_apply_of_not_mem hn hlen (Nat.mod_lt _ hn)
    intro i' hi'
    exact mod_ne_mod_of_lt (by omega) (by omega)

/-- Two blocks that follow each other, the second one first. -/
theorem put_append {n p : ℕ} (m : ℕ → α) {xs ys : List α} (hn : 0 < n)
    (hlen : xs.length + ys.length ≤ n) :
    put n (put n m (p + xs.length) ys) p xs = put n m p (xs ++ ys) := by
  have happend : (xs ++ ys).length ≤ n := by rwa [List.length_append]
  funext j
  by_cases hj : n ≤ j
  · rw [put_apply_of_ge hn (by omega) hj, put_apply_of_ge hn (by omega) hj,
      put_apply_of_ge hn happend hj]
  obtain ⟨i, hi, rfl⟩ := exists_add_mod_eq p (Nat.lt_of_not_le hj)
  rw [put_apply_add _ hn (by omega) hi, put_apply_add m hn happend hi]
  by_cases hxs : i < xs.length
  · rw [List.getElem?_append_left hxs, List.getElem?_eq_getElem hxs, Option.getD_some,
      Option.getD_some]
  · -- the cell is `i - xs.length` positions behind the second block
    have hpos : p + i = p + xs.length + (i - xs.length) := by omega
    rw [List.getElem?_append_right (by omega), List.getElem?_eq_none (by omega), Option.getD_none,
      hpos, put_apply_add m hn (by omega) (by omega)]

theorem put_singleton {n p : ℕ} (m : ℕ → α) (x : α) (hn : 0 < n) :
    put n m p [x] = Function.update m (p % n) x := by
  have hlt : p % n < n := Nat.mod_lt p hn
  have htake : [x].take (n - p % n) = [x] := List.take_of_length_le (by simp; omega)
  have hdrop : [x].drop (n - p % n) = [] := List.drop_eq_nil_of_le (by simp; omega)
  funext j
  rw [put, htake, hdrop, write_apply_of_ge _ _ _ (Nat.zero_le _)]
  by_cases hj : j = p % n
  · rw [hj, Function.update_self]
    exact write_apply_add m (p % n) [x] (i := 0) (by simp)
  · rw [Function.update_of_ne hj]
    rcases Nat.lt_or_gt_of_ne hj with h | h
    · exact write_apply_of_lt _ _ _ h
    · exact write_apply_of_ge _ _ _ h

/-- **Appending**: `put` at the end of the log keeps the last `n` entries of the longer log. -/
theorem retains_put {n : ℕ} {m : ℕ → α} {log xs : List α} (hn : 0 < n) (hlen : xs.length ≤ n)
    (hret : Retains n m log) : Retains n (put n m log.length xs) (log ++ xs) := by
  intro p hp hwin
  rw [List.length_append] at hp hwin
  by_cases hnew : log.length ≤ p
  · -- a new entry
    obtain ⟨i, rfl⟩ := Nat.exists_eq_add_of_le hnew
    rw [put_apply_of_mem hn hlen (by omega), List.getElem_append_right (by omega)]
    congr 1
    omega
  · -- an old entry: the new ones are less than `n` positions away, so they miss its cell
    rw [put_apply_of_not_mem hn hlen (Nat.mod_lt p hn), hret p (by omega) (by omega),
      List.getElem_append_left (by omega)]
    intro i hi
    exact (mod_ne_mod_of_lt (by omega) (by omega)).symm

/-! ### Reading -/

/-- Reading the cells of retained positions gives their entries. -/
theorem map_slots_eq_of_retains {n : ℕ} {m : ℕ → α} {log : List α} (hret : Retains n m log)
    {p len : ℕ} (hlo : log.length ≤ p + n) (hhi : p + len ≤ log.length) :
    (slots n p len).map m = (log.drop p).take len := by
  apply List.ext_getElem (by simp; omega)
  intro i h1 h2
  simp only [List.length_map, length_slots] at h1
  simp only [slots, List.map_map, List.getElem_map, List.getElem_range, Function.comp_apply,
    List.getElem_take, List.getElem_drop]
  exact hret (p + i) (by omega) (by omega)

theorem map_slots_window {n : ℕ} {m : ℕ → α} {log : List α} (hret : Retains n m log) :
    (slots n (log.length - n) (min log.length n)).map m = window n log := by
  rw [map_slots_eq_of_retains hret (by omega) (by omega), window, List.take_of_length_le]
  rw [List.length_drop]
  omega

/-! ### Queues -/

/-- The cells from position `p` on hold the entries of `q`. -/
def Queued (n : ℕ) (m : ℕ → α) (p : ℕ) (q : List α) : Prop :=
  ∀ (i : ℕ) (h : i < q.length), m ((p + i) % n) = q[i]

section Queued

variable {n p p' : ℕ} {m : ℕ → α} {q xs : List α}

theorem queued_nil : Queued n m p [] := by
  intro i h
  exact absurd h (Nat.not_lt_zero i)

/-- Only the cell of the first entry counts. -/
theorem Queued.congr (h : Queued n m p q) (hp : p % n = p' % n) : Queued n m p' q := by
  intro i hi
  rw [← h i hi, Nat.add_mod, ← hp, ← Nat.add_mod]

theorem Queued.drop (h : Queued n m p q) (k : ℕ) : Queued n m (p + k) (q.drop k) := by
  intro i hi
  rw [List.length_drop] at hi
  rw [List.getElem_drop, Nat.add_assoc]
  exact h (k + i) (by omega)

/-- **Appending** to a queue that has room for the new entries. -/
theorem Queued.append (h : Queued n m p q) (hn : 0 < n) (hroom : q.length + xs.length ≤ n) :
    Queued n (put n m (p + q.length) xs) p (q ++ xs) := by
  intro i hi
  rw [List.length_append] at hi
  by_cases hnew : q.length ≤ i
  · obtain ⟨j, rfl⟩ := Nat.exists_eq_add_of_le hnew
    rw [← Nat.add_assoc, put_apply_of_mem hn (by omega) (by omega),
      List.getElem_append_right (by omega)]
    congr 1
    omega
  · -- the new entries are less than `n` positions behind this one
    rw [put_apply_of_not_mem hn (by omega) (Nat.mod_lt _ hn), h i (by omega),
      List.getElem_append_left (by omega)]
    intro j hj
    exact (mod_ne_mod_of_lt (by omega) (by omega)).symm

/-- The oldest entries, cell by cell. -/
theorem Queued.map_slots (h : Queued n m p q) {len : ℕ} (hlen : len ≤ q.length) :
    (slots n p len).map m = q.take len := by
  apply List.ext_getElem
  · rw [List.length_map, length_slots, List.length_take]
    omega
  · intro i hi _
    rw [List.length_map, length_slots] at hi
    simp only [slots, List.map_map, List.getElem_map, List.getElem_range, Function.comp_apply,
      List.getElem_take]
    exact h i (by omega)

/-- **Reading** the oldest entries. -/
theorem Queued.map_splitSlots (h : Queued n m p q) (hn : 0 < n) (hq : q.length ≤ n) {len : ℕ}
    (hlen : len ≤ q.length) : (splitSlots n p len).map m = q.take len := by
  rw [slots_eq_split hn (by omega)]
  exact h.map_slots hlen

end Queued

theorem put_congr {n p p' : ℕ} (m : ℕ → α) (xs : List α) (hp : p % n = p' % n) :
    put n m p xs = put n m p' xs := by
  rw [put, hp, ← put]

/-! ### Cells that hold a retained entry -/

/-- When the log is no longer than `n`, the cells in use are those below its length. -/
theorem mem_slots_iff_of_le {n p len : ℕ} (h : p + len ≤ n) (j : ℕ) :
    j ∈ slots n p len ↔ p ≤ j ∧ j < p + len := by
  simp only [slots, List.mem_map, List.mem_range]
  constructor
  · rintro ⟨i, hi, rfl⟩
    rw [Nat.mod_eq_of_lt (by omega)]
    omega
  · rintro ⟨h1, h2⟩
    exact ⟨j - p, by omega, by rw [Nat.mod_eq_of_lt (by omega)]; omega⟩

/-- `n` consecutive positions use every cell. -/
theorem mem_slots_self {n p j : ℕ} (hj : j < n) : j ∈ slots n p n := by
  simp only [slots, List.mem_map, List.mem_range]
  exact exists_add_mod_eq p hj

/-- The cells of `m` positions all lie below `b` only if they do not wrap. -/
theorem forall_slots_lt_iff {n p m b : ℕ} (hn : 0 < n) (hm : m ≤ n) (hb : b < n) :
    (∀ o ∈ slots n p m, o < b) ↔ m = 0 ∨ p % n + m ≤ b := by
  have hlt := Nat.mod_lt p hn
  constructor
  · intro hall
    by_contra hcon
    have hm0 : 0 < m := by omega
    by_cases hpb : p % n < b
    · -- the position that falls in cell `b` is among the `m`
      have hmem : (p + (b - p % n)) % n ∈ slots n p m :=
        List.mem_map.mpr ⟨b - p % n, by simpa using by omega, rfl⟩
      have := hall _ hmem
      rw [add_mod_eq_of_lt (by omega)] at this
      omega
    · have hmem : (p + 0) % n ∈ slots n p m := List.mem_map.mpr ⟨0, by simpa using hm0, rfl⟩
      have := hall _ hmem
      rw [Nat.add_zero] at this
      omega
  · rintro (rfl | hle) o ho
    · simp [slots] at ho
    · obtain ⟨i, hi, rfl⟩ := List.mem_map.mp ho
      have hi' : i < m := by simpa using hi
      rw [add_mod_eq_of_lt (by omega)]
      omega

end Neufbox.Cyclic
