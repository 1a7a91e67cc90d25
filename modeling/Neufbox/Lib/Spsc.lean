import Neufbox.Lib.Cyclic

/-!
# Copies that take time

A producer copies entries behind a queue in cyclic storage while a consumer copies entries out of
it, without excluding each other, one entry at a time and in any order.  `Copying P len todo` says
of either copy that `P i` holds for each of the `len` entries but those in `todo`.

* `queued_store`: what the producer stores is not in the way of the queue;
* `put_eq_self`: when all is stored, the block writes of `put` have nothing left to do.
-/

namespace Neufbox.Spsc

open Cyclic

/-- The entries of `todo` are left to be copied. -/
structure Copying (P : ℕ → Prop) (len : ℕ) (todo : List ℕ) : Prop where
  lt : ∀ i ∈ todo, i < len
  copied : ∀ i < len, i ∉ todo → P i

variable {P P' : ℕ → Prop} {len i : ℕ} {todo : List ℕ}

theorem copying_start (P : ℕ → Prop) (len : ℕ) : Copying P len (List.range len) :=
  ⟨fun _ => List.mem_range.mp, fun _ hi hnot => absurd (List.mem_range.mpr hi) hnot⟩

/-- One more entry is copied. -/
theorem Copying.next (h : Copying P len todo) (hi : P' i)
    (hothers : ∀ j < len, j ≠ i → P j → P' j) : Copying P' len (todo.filter (· ≠ i)) := by
  refine ⟨fun j hj => h.lt j (List.mem_of_mem_filter hj), fun j hj hnot => ?_⟩
  by_cases heq : j = i
  · rwa [heq]
  · apply hothers j hj heq
    exact h.copied j hj fun hmem => hnot (List.mem_filter.mpr ⟨hmem, by simpa using heq⟩)

theorem Copying.imp (h : Copying P len todo) (himp : ∀ i, P i → P' i) : Copying P' len todo :=
  ⟨h.lt, fun i hi hnot => himp i (h.copied i hi hnot)⟩

variable {α : Type*} {n p : ℕ} {m : ℕ → α} {q xs : List α}

/-- Cells of different entries of a block. -/
theorem add_mod_ne {j : ℕ} (hi : i < n) (hj : j < n) (hne : j ≠ i) : (p + j) % n ≠ (p + i) % n := by
  rcases Nat.lt_or_gt_of_ne hne with hlt | hlt
  · exact mod_ne_mod_of_lt (by omega) (by omega)
  · exact (mod_ne_mod_of_lt (by omega) (by omega)).symm

/-- **A store** behind a queue that has room for it. -/
theorem queued_store (h : Queued n m p q) (hroom : q.length + i < n) (x : α) :
    Queued n (Function.update m ((p + (q.length + i)) % n) x) p q := by
  intro j hj
  rw [Function.update_of_ne (add_mod_ne (by omega) (by omega) (by omega))]
  exact h j hj

/-- **Nothing is left to do** for `put` when the entries are in their cells. -/
theorem put_eq_self (hn : 0 < n) (hlen : xs.length ≤ n)
    (h : ∀ (i : ℕ) (hi : i < xs.length), m ((p + i) % n) = xs[i]) : put n m p xs = m := by
  funext j
  by_cases hmem : ∃ i < xs.length, (p + i) % n = j
  · obtain ⟨i, hi, rfl⟩ := hmem
    rw [put_apply_of_mem hn hlen hi, h i hi]
  · rcases Nat.lt_or_ge j n with hj | hj
    · exact put_apply_of_not_mem hn hlen hj fun i hi heq => hmem ⟨i, hi, heq⟩
    · exact put_apply_of_ge hn hlen hj

end Neufbox.Spsc
