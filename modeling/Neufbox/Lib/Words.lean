import Mathlib.Algebra.Group.Nat.Defs
import Mathlib.Tactic.Common

/-!
# Unsigned machine words

The difference and the minimum of two words, as those of the numbers where nothing wraps around.
-/

namespace Neufbox.Words

variable {w : ℕ} {x y : BitVec w} {n : ℕ}

theorem toNat_ofNat_of_lt (h : n < 2 ^ w) : (BitVec.ofNat w n).toNat = n := by
  rw [BitVec.toNat_ofNat, Nat.mod_eq_of_lt h]

theorem toNat_sub_of_le (h : y.toNat ≤ x.toNat) : (x - y).toNat = x.toNat - y.toNat :=
  BitVec.toNat_sub_of_le (BitVec.le_def.mpr h)

theorem toNat_sub_ofNat (h : n ≤ x.toNat) : (x - BitVec.ofNat w n).toNat = x.toNat - n := by
  have hn := toNat_ofNat_of_lt (Nat.lt_of_le_of_lt h x.isLt)
  rw [toNat_sub_of_le (by rwa [hn]), hn]

theorem toNat_one (h : 1 < 2 ^ w) : (1 : BitVec w).toNat = 1 := toNat_ofNat_of_lt h

theorem toNat_sub_one (h : 0 < x.toNat) : (x - 1).toNat = x.toNat - 1 := toNat_sub_ofNat h

/-- The smaller of two words, as the macro `min` computes it. -/
theorem toNat_ite_lt (x y : BitVec w) : (if x < y then x else y).toNat = min x.toNat y.toNat := by
  split_ifs with h
  · have := BitVec.lt_def.mp h
    omega
  · have := mt BitVec.lt_def.mpr h
    omega

end Neufbox.Words
