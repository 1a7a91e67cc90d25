import Mathlib.Algebra.Group.Nat.Defs
import Mathlib.Data.Set.Lattice
import Mathlib.Order.CompletePartialOrder
import Neufbox.Lib.Words

/-!
# Subnets

Addresses of `w` bits and masks.  `prefixMask w k` is the mask of the first `k` bits, `subnet a m`
has the addresses that agree with `a` under `m`, and a host of a subnet is neither its first nor its
last address.

* `and_prefixMask_eq_iff`: agreement under a prefix as an equation of numbers;
* `contiguous_iff`: the test by which a mask is recognised as a prefix;
* `disjoint_subnet_iff`: two subnets have no address in common exactly if they differ in the shorter
  prefix.
-/

namespace Neufbox.Subnet

open Words

variable {w : ℕ}

/-- The mask of the first `k` bits. -/
def prefixMask (w k : ℕ) : BitVec w := BitVec.allOnes w <<< (w - k)

/-- The addresses that agree with `a` under `m`. -/
def subnet (a m : BitVec w) : Set (BitVec w) := { x | x &&& m = a &&& m }

/-- Neither the address of the subnet nor its broadcast address. -/
def IsHost (a m : BitVec w) : Prop := a ≠ a &&& m ∧ a ≠ (a &&& m) ||| ~~~m

instance (a m : BitVec w) : Decidable (IsHost a m) :=
  inferInstanceAs (Decidable (a ≠ a &&& m ∧ a ≠ (a &&& m) ||| ~~~m))

theorem mem_subnet {a m x : BitVec w} : x ∈ subnet a m ↔ x &&& m = a &&& m := Iff.rfl

/-! ### Prefixes -/

theorem toNat_and_prefixMask (x : BitVec w) (k : ℕ) :
    (x &&& prefixMask w k).toNat = x.toNat / 2 ^ (w - k) * 2 ^ (w - k) := by
  have hle : x.toNat / 2 ^ (w - k) * 2 ^ (w - k) ≤ x.toNat := Nat.div_mul_le_self ..
  have hlt : x.toNat / 2 ^ (w - k) * 2 ^ (w - k) < 2 ^ w := Nat.lt_of_le_of_lt hle x.isLt
  rw [prefixMask, ← BitVec.shiftLeft_ushiftRight, BitVec.toNat_shiftLeft, BitVec.toNat_ushiftRight,
    Nat.shiftLeft_eq, Nat.shiftRight_eq_div_pow, Nat.mod_eq_of_lt hlt]

/-- Two addresses agree in the first `k` bits. -/
theorem and_prefixMask_eq_iff (x y : BitVec w) (k : ℕ) :
    x &&& prefixMask w k = y &&& prefixMask w k ↔
      x.toNat / 2 ^ (w - k) = y.toNat / 2 ^ (w - k) := by
  rw [BitVec.toNat_eq, toNat_and_prefixMask, toNat_and_prefixMask]
  exact Nat.mul_left_inj (Nat.pos_iff_ne_zero.mp (Nat.two_pow_pos _))

/-- Addresses that agree in a prefix agree in a shorter one. -/
theorem and_prefixMask_eq_of_le {x y : BitVec w} {j k : ℕ} (hjk : j ≤ k)
    (h : x &&& prefixMask w k = y &&& prefixMask w k) :
    x &&& prefixMask w j = y &&& prefixMask w j := by
  rw [and_prefixMask_eq_iff] at h ⊢
  have hpow : 2 ^ (w - j) = 2 ^ (w - k) * 2 ^ ((w - j) - (w - k)) := by
    rw [← Nat.pow_add]
    congr 1
    omega
  rw [hpow, ← Nat.div_div_eq_div_mul, ← Nat.div_div_eq_div_mul, h]

theorem toNat_prefixMask (w k : ℕ) : (prefixMask w k).toNat = 2 ^ w - 2 ^ (w - k) := by
  have hones : prefixMask w k = BitVec.allOnes w &&& prefixMask w k := by simp
  have hsplit : 2 ^ w = 2 ^ (w - (w - k)) * 2 ^ (w - k) := by
    rw [← Nat.pow_add]
    congr 1
    omega
  have hdiv : (2 ^ w - 1) / 2 ^ (w - k) = 2 ^ (w - (w - k)) - 1 := by
    have hpos : 0 < 2 ^ (w - k) := Nat.two_pow_pos _
    have hpos' : 0 < 2 ^ (w - (w - k)) := Nat.two_pow_pos _
    apply Nat.div_eq_of_lt_le
    · rw [Nat.sub_mul, Nat.one_mul, ← hsplit]
      omega
    · rw [Nat.sub_add_cancel hpos', ← hsplit]
      have := Nat.two_pow_pos w
      omega
  rw [hones, toNat_and_prefixMask, BitVec.toNat_allOnes, hdiv, Nat.sub_mul, Nat.one_mul, ← hsplit]

/-! ### Recognising a prefix -/

theorem and_not_eq_self_iff (x y : BitVec w) : x &&& ~~~y = x ↔ x &&& y = 0 := by
  constructor
  · intro h
    rw [← h, BitVec.and_assoc]
    simp
  · intro h
    apply BitVec.eq_of_getElem_eq
    intro i hi
    have hbit : (x[i] && y[i]) = false := by
      rw [← BitVec.getElem_and]
      simp only [h]
      exact BitVec.getElem_zero hi
    rw [BitVec.getElem_and, BitVec.getElem_not]
    cases hx : x[i] with
    | false => rfl
    | true => rw [hx, Bool.true_and] at hbit; rw [hbit]; rfl

theorem toNat_neg_of_ne_zero {x : BitVec w} (hx : x.toNat ≠ 0) :
    (-x).toNat = 2 ^ w - x.toNat := by
  rw [BitVec.toNat_neg]
  apply Nat.mod_eq_of_lt
  have := Nat.two_pow_pos w
  omega

/-- A number that is its own lowest bit is a power of two. -/
theorem and_neg_eq_self_iff {x : BitVec w} (hx : x.toNat ≠ 0) :
    x &&& -x = x ↔ x.toNat.isPowerOfTwo := by
  have hneg : -x = ~~~(x - 1) := by
    apply BitVec.eq_of_toNat_eq
    rw [toNat_neg_of_ne_zero hx, BitVec.toNat_not, toNat_sub_one (Nat.pos_of_ne_zero hx)]
    omega
  rw [hneg, and_not_eq_self_iff, ← Nat.and_sub_one_eq_zero_iff_isPowerOfTwo hx, BitVec.toNat_eq,
    BitVec.toNat_and, toNat_sub_one (Nat.pos_of_ne_zero hx)]
  simp

/-- **The test for a prefix**: the lowest bit of the mask, negated, is the mask. -/
theorem contiguous_iff (m : BitVec w) : -(m &&& -m) = m ↔ ∃ k ≤ w, m = prefixMask w k := by
  by_cases hm : m.toNat = 0
  · -- The empty prefix.
    obtain rfl : m = 0 := BitVec.eq_of_toNat_eq (by simpa using hm)
    refine iff_of_true (by simp) ⟨0, Nat.zero_le w, BitVec.eq_of_toNat_eq ?_⟩
    rw [toNat_prefixMask]
    simp
  · have hlt := m.isLt
    have hneg : (-m).toNat = 2 ^ w - m.toNat := toNat_neg_of_ne_zero hm
    have hpower := @and_neg_eq_self_iff w (-m) (by omega)
    rw [BitVec.neg_neg, BitVec.and_comm, hneg] at hpower
    have hflip : -(m &&& -m) = m ↔ m &&& -m = -m := by
      constructor <;> intro h
      · rw [← BitVec.neg_neg (x := m &&& -m), h]
      · rw [h, BitVec.neg_neg]
    rw [hflip, hpower]
    constructor
    · rintro ⟨t, ht⟩
      have htw : t ≤ w := by
        have hle : 2 ^ t ≤ 2 ^ w := by omega
        exact (Nat.pow_le_pow_iff_right (by decide)).mp hle
      refine ⟨w - t, Nat.sub_le .., BitVec.eq_of_toNat_eq ?_⟩
      rw [toNat_prefixMask, Nat.sub_sub_self htw]
      omega
    · rintro ⟨k, -, rfl⟩
      have hle : 2 ^ (w - k) ≤ 2 ^ w := Nat.pow_le_pow_right (by decide) (Nat.sub_le ..)
      refine ⟨w - k, ?_⟩
      rw [toNat_prefixMask, Nat.sub_sub_self hle]

/-! ### Subnets of prefixes -/

/-- **Two subnets** have no address in common exactly if they differ in the shorter prefix. -/
theorem disjoint_subnet_iff (a b : BitVec w) (j k : ℕ) :
    Disjoint (subnet a (prefixMask w k)) (subnet b (prefixMask w j)) ↔
      a &&& prefixMask w (min j k) ≠ b &&& prefixMask w (min j k) := by
  rw [Set.disjoint_left]
  constructor
  · intro h heq
    rcases Nat.le_total j k with hjk | hkj
    · rw [Nat.min_eq_left hjk] at heq
      exact h (mem_subnet.mpr rfl) (mem_subnet.mpr heq)
    · rw [Nat.min_eq_right hkj] at heq
      exact h (mem_subnet.mpr heq.symm) (mem_subnet.mpr rfl)
  · intro hne x hxa hxb
    apply hne
    have ha := and_prefixMask_eq_of_le (Nat.min_le_right j k) (mem_subnet.mp hxa)
    have hb := and_prefixMask_eq_of_le (Nat.min_le_left j k) (mem_subnet.mp hxb)
    exact ha.symm.trans hb

end Neufbox.Subnet
