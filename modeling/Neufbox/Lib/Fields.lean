import Mathlib.Data.BitVec

/-!
# Words cut into fields

A word of `n` bits, read as fields of `w` bits each.  Two words that agree in every field but one
agree in every bit outside it (`field_eq_off_iff`).
-/

namespace Neufbox.Fields

variable {n w : ℕ}

/-- The field at position `i`. -/
def field (w : ℕ) (x : BitVec n) (i : ℕ) : BitVec w := x.extractLsb' (i * w) w

theorem getLsbD_field (x : BitVec n) (i k : ℕ) :
    (field w x i).getLsbD k = (decide (k < w) && x.getLsbD (i * w + k)) :=
  BitVec.getLsbD_extractLsb' ..

/-- A bit is in the field of its position. -/
theorem mul_add_of_div_eq {i j : ℕ} (h : j / w = i) : i * w + j % w = j := by
  rw [← h, Nat.div_add_mod']

theorem div_eq_of_lt {i k : ℕ} (hk : k < w) : (i * w + k) / w = i := by
  rw [Nat.add_comm, Nat.add_mul_div_right _ _ (Nat.zero_lt_of_lt hk), Nat.div_eq_of_lt hk,
    Nat.zero_add]

theorem field_eq_iff (hw : 0 < w) {x y : BitVec n} {i : ℕ} :
    field w x i = field w y i ↔ ∀ j, j / w = i → x.getLsbD j = y.getLsbD j := by
  constructor
  · intro h j hj
    have hbit := congrArg (fun f => f.getLsbD (j % w)) h
    simpa only [getLsbD_field, Nat.mod_lt j hw, decide_true, Bool.true_and, mul_add_of_div_eq hj]
      using hbit
  · intro h
    refine BitVec.eq_of_getLsbD_eq fun k hk => ?_
    rw [getLsbD_field, getLsbD_field, h _ (div_eq_of_lt hk)]

/-- **Equal in every field but one, equal in every bit outside it.** -/
theorem field_eq_off_iff (hw : 0 < w) {m : ℕ} (hn : n ≤ m * w) {x y : BitVec n} {i : ℕ} :
    (∀ k < m, k ≠ i → field w x k = field w y k) ↔
      ∀ j < n, j / w ≠ i → x.getLsbD j = y.getLsbD j := by
  constructor
  · intro h j hj hne
    have hlt : j / w < m := Nat.div_lt_of_lt_mul (by rw [Nat.mul_comm]; exact hj.trans_le hn)
    exact (field_eq_iff hw).mp (h (j / w) hlt hne) j rfl
  · intro h k _ hne
    refine (field_eq_iff hw).mpr fun j hj => ?_
    by_cases hlt : j < n
    · exact h j hlt (hj ▸ hne)
    · rw [BitVec.getLsbD_of_ge _ _ (Nat.le_of_not_lt hlt),
        BitVec.getLsbD_of_ge _ _ (Nat.le_of_not_lt hlt)]

end Neufbox.Fields
