import Neufbox.Libetk.Alloc
import Neufbox.Libetk.Equiv.Fifo
import Mathlib.Order.Bounds.Basic

/-!
# The size of an allocated FIFO

`fifo_alloc` takes a power of two as it is.  Any other size `n` goes through `roundup_pow_of_two`,
which shifts by the number of leading zeros of `n - 1`, and one more, where the number of its other
bits is meant.  The two would have to add up to 32 and to differ by one: they are never the same
(`roundupPowOfTwo_ne`), and the size is right only when nothing is rounded
(`fifoAlloc_size_iff`).
-/

namespace Neufbox.Libetk

open Words

/-- The powers of two that are not below `n`. -/
def powersFrom (n : ℕ) : Set ℕ := {p | (∃ j, p = 2 ^ j) ∧ n ≤ p}

theorem isLeast_powersFrom_self (j : ℕ) : IsLeast (powersFrom (2 ^ j)) (2 ^ j) :=
  ⟨⟨⟨j, rfl⟩, Nat.le_refl _⟩, fun _ hp => hp.2⟩

/-- The next power of two behind one that is too small. -/
theorem isLeast_powersFrom {n j : ℕ} (hlo : 2 ^ j < n) (hhi : n ≤ 2 ^ (j + 1)) :
    IsLeast (powersFrom n) (2 ^ (j + 1)) := by
  refine ⟨⟨⟨j + 1, rfl⟩, hhi⟩, ?_⟩
  rintro _ ⟨⟨i, rfl⟩, hi⟩
  have hji : j < i := (Nat.pow_lt_pow_iff_right (by omega)).mp (hlo.trans_le hi)
  exact Nat.pow_le_pow_right (by omega) hji

/-! ### The functions of `math.h` -/

section

variable {w : ℕ}

theorem isPowerOf2_iff (n : BitVec w) : isPowerOf2 n = true ↔ ∃ j, n.toNat = 2 ^ j := by
  have hzero : n ≠ 0 ↔ 0 < n.toNat := by
    rw [Nat.pos_iff_ne_zero, ne_eq, ne_eq, ← BitVec.toNat_inj]
    rfl
  rw [isPowerOf2, decide_eq_true_iff, hzero]
  have hand (hpos : 0 < n.toNat) : n &&& (n - 1) = 0 ↔ ∃ j, n.toNat = 2 ^ j := by
    rw [← BitVec.toNat_inj, BitVec.toNat_and, toNat_sub_one hpos]
    exact Nat.and_sub_one_eq_zero_iff_isPowerOfTwo hpos.ne'
  constructor
  · rintro ⟨hpos, h⟩
    exact (hand hpos).mp h
  · rintro ⟨j, hj⟩
    have hpos : 0 < n.toNat := hj ▸ Nat.two_pow_pos j
    exact ⟨hpos, (hand hpos).mpr ⟨j, hj⟩⟩

/-- The leading zeros of `n - 1` leave the bits that the next power of two has. -/
theorem clz_spec {n : ℕ} {x : BitVec 32} (hx : x.toNat = n - 1) (hn : 2 ≤ n) :
    x.clz.toNat < 32 ∧ 2 ^ (31 - x.clz.toNat) < n ∧ n ≤ 2 ^ (32 - x.clz.toNat) := by
  have hne : x ≠ 0 := by
    rintro rfl
    rw [show (0 : BitVec 32).toNat = 0 from rfl] at hx
    omega
  have hlt : x.clz.toNat < 32 := BitVec.lt_def.mp (BitVec.clz_lt_iff_ne_zero.mpr hne)
  have hlo : 2 ^ (31 - x.clz.toNat) ≤ x.toNat :=
    BitVec.two_pow_sub_clz_le_toNat_of_ne_zero (by decide) hne
  have hhi : x.toNat < 2 ^ (32 - x.clz.toNat) := BitVec.toNat_lt_two_pow_sub_clz
  exact ⟨hlt, by omega, by omega⟩

/-- What a power of two of `w` bits is. -/
theorem toNat_oneShl {shift : ℕ} {m : BitVec w} (h : oneShl w shift = some m) :
    m.toNat = 2 ^ shift := by
  unfold oneShl at h
  split_ifs at h with hlt
  have hpow : 2 ^ shift < 2 ^ w := Nat.pow_lt_pow_right (by omega) hlt
  have hone : (1 : BitVec w).toNat = 1 := toNat_one (Nat.one_le_two_pow.trans_lt hpow)
  rw [← Option.some.inj h, BitVec.toNat_shiftLeft, hone, Nat.shiftLeft_eq, Nat.one_mul,
    Nat.mod_eq_of_lt hpow]

variable {n m : BitVec w}

/-- **`roundup_pow_of_two`** shifts by the leading zeros of `n - 1` and one more. -/
theorem roundupPowOfTwo_eq (hlo : 2 ≤ n.toNat) (hhi : n.toNat ≤ 2 ^ 31) :
    ∃ zeros < 32, 2 ^ (31 - zeros) < n.toNat ∧ n.toNat ≤ 2 ^ (32 - zeros) ∧
      roundupPowOfTwo n = oneShl w (zeros + 1) := by
  have hx : ((n - 1).setWidth 32).toNat = n.toNat - 1 := by
    rw [BitVec.toNat_setWidth, toNat_sub_one (by omega), Nat.mod_eq_of_lt (by omega)]
  obtain ⟨hlt, hbelow, habove⟩ := clz_spec hx hlo
  have hne : (n - 1).setWidth 32 ≠ 0 := by
    intro h
    rw [h, show (0 : BitVec 32).toNat = 0 from rfl] at hx
    omega
  refine ⟨_, hlt, hbelow, habove, ?_⟩
  rw [roundupPowOfTwo, builtinClz, if_neg hne, Option.bind_eq_bind, Option.bind_some]

/-- **It never rounds up to the next power of two.** -/
theorem roundupPowOfTwo_ne (hlo : 2 ≤ n.toNat) (hhi : n.toNat ≤ 2 ^ 31)
    (h : roundupPowOfTwo n = some m) : ¬ IsLeast (powersFrom n.toNat) m.toNat := by
  obtain ⟨zeros, hlt, hbelow, habove, heq⟩ := roundupPowOfTwo_eq hlo hhi
  have hm : m.toNat = 2 ^ (zeros + 1) := toNat_oneShl (heq ▸ h)
  intro hleast
  have hnext : 32 - zeros = 31 - zeros + 1 := by omega
  have hsame : m.toNat = 2 ^ (31 - zeros + 1) :=
    hleast.unique (isLeast_powersFrom hbelow (hnext ▸ habove))
  have hexp : zeros + 1 = 31 - zeros + 1 :=
    Nat.pow_right_injective (Nat.le_refl 2) (hm.symm.trans hsame)
  omega

end

/-! ### The allocated size -/

variable {w : ℕ} {size rounded : BitVec 32}

theorem toNat_setWidth_of_le (hw : 32 ≤ w) (size : BitVec 32) :
    (size.setWidth w).toNat = size.toNat := by
  have hpow : 2 ^ 32 ≤ 2 ^ w := Nat.pow_le_pow_right (by omega) hw
  rw [BitVec.toNat_setWidth, Nat.mod_eq_of_lt (size.isLt.trans_le hpow)]

theorem refines_fifoInitBuffer {k : ℕ} (buffer : ℕ → UInt8) (hsize : size.toNat = 2 ^ k) :
    Refines (fifoInitBuffer buffer size) (.empty : Queue UInt8 (2 ^ k)) :=
  refines_empty hsize rfl

/-- **`fifo_init`** gives an empty queue that fills the buffer. -/
theorem refines_fifoInit (hw : 32 ≤ w) (fifo : Fifo) (buffer : ℕ → UInt8) {k : ℕ}
    (hsize : size.toNat = 2 ^ k) :
    Refines (fifoInit w fifo buffer size) (.empty : Queue UInt8 (2 ^ k)) := by
  have hpower : isPowerOf2 (size.setWidth w) = true :=
    (isPowerOf2_iff _).mpr ⟨k, (toNat_setWidth_of_le hw size).trans hsize⟩
  rw [fifoInit, if_pos hpower]
  exact refines_fifoInitBuffer buffer hsize

/-- A size that is no power of two is rounded, to some power of two. -/
theorem allocSize_of_not_power (hw : 32 ≤ w) (hlo : 1 ≤ size.toNat) (hhi : size.toNat ≤ 2 ^ 31)
    (hpower : ¬ ∃ j, size.toNat = 2 ^ j) :
    ∃ rounded k, allocSize w size = some rounded ∧ rounded.toNat = 2 ^ k ∧
      ¬ IsLeast (powersFrom size.toNat) rounded.toNat := by
  have hwide : (size.setWidth w).toNat = size.toNat := toNat_setWidth_of_le hw size
  -- one and two are powers of two
  have hone : size.toNat ≠ 2 ^ 0 := fun h => hpower ⟨0, h⟩
  have htwo : size.toNat ≠ 2 ^ 1 := fun h => hpower ⟨1, h⟩
  rw [← hwide] at hlo hhi hone htwo
  obtain ⟨zeros, hlt, -, habove, heq⟩ := roundupPowOfTwo_eq (by omega) hhi
  have hzeros : zeros ≠ 31 := by
    rintro rfl
    omega
  have hround : roundupPowOfTwo (size.setWidth w) = some ((1 : BitVec w) <<< (zeros + 1)) := by
    rw [heq, oneShl, if_pos (by omega)]
  have hlong := toNat_oneShl (heq ▸ hround)
  have hpow : 2 ^ (zeros + 1) < 2 ^ 32 := Nat.pow_lt_pow_right (by omega) (by omega)
  have hnarrow : (((1 : BitVec w) <<< (zeros + 1)).setWidth 32).toNat = 2 ^ (zeros + 1) := by
    rw [BitVec.toNat_setWidth, hlong, Nat.mod_eq_of_lt hpow]
  have hif : ¬ isPowerOf2 (size.setWidth w) = true := by
    rw [isPowerOf2_iff, hwide]
    exact hpower
  refine ⟨_, zeros + 1, ?_, hnarrow, ?_⟩
  · rw [allocSize, if_neg hif, hround, Option.map_some]
  · rw [hnarrow, ← hlong, ← hwide]
    exact roundupPowOfTwo_ne (by omega) hhi hround

theorem allocSize_of_power (hw : 32 ≤ w) {j : ℕ} (hj : size.toNat = 2 ^ j) :
    allocSize w size = some size := by
  have hpower : isPowerOf2 (size.setWidth w) = true :=
    (isPowerOf2_iff _).mpr ⟨j, (toNat_setWidth_of_le hw size).trans hj⟩
  rw [allocSize, if_pos hpower]

/-- **The allocated size.**  For every size from 1 to `2^31` that memory is found for: the fifo has
the least power of two that is not below it exactly if it is a power of two itself.
`roundup_pow_of_two` gives that power for no number from 2 to `2^31`. -/
theorem fifoAlloc_size_iff (hw : 32 ≤ w) (malloc : BitVec 32 → Option (ℕ → UInt8))
    (hlo : 1 ≤ size.toNat) (hhi : size.toNat ≤ 2 ^ 31) {fifo : Fifo}
    (h : fifoAlloc w malloc size = some (some fifo)) :
    (IsLeast (powersFrom size.toNat) fifo.size.toNat ↔ ∃ j, size.toNat = 2 ^ j) ∧
      ∀ n m : BitVec w, 2 ≤ n.toNat → n.toNat ≤ 2 ^ 31 → roundupPowOfTwo n = some m →
        ¬ IsLeast (powersFrom n.toNat) m.toNat := by
  obtain ⟨rounded, hrounded, hmalloc⟩ := Option.bind_eq_some_iff.mp h
  obtain ⟨buffer, -, rfl⟩ := Option.map_eq_some_iff.mp (Option.some.inj hmalloc)
  refine ⟨?_, fun n m => roundupPowOfTwo_ne⟩
  show IsLeast (powersFrom size.toNat) rounded.toNat ↔ _
  by_cases hpower : ∃ j, size.toNat = 2 ^ j
  · obtain ⟨j, hj⟩ := hpower
    obtain rfl := Option.some.inj ((allocSize_of_power hw hj).symm.trans hrounded)
    rw [hj]
    exact iff_of_true (isLeast_powersFrom_self j) ⟨j, rfl⟩
  · obtain ⟨other, k, hother, -, hne⟩ := allocSize_of_not_power hw hlo hhi hpower
    obtain rfl := Option.some.inj (hother.symm.trans hrounded)
    exact iff_of_false hne hpower

/-- A fifo of 64 bytes. -/
theorem fifoAlloc_size_of_64 :
    let malloc : BitVec 32 → Option (ℕ → UInt8) := fun _ => some fun _ => 0
    IsLeast (powersFrom 64) (fifoInitBuffer (fun _ => 0) 64).size.toNat ∧
      fifoAlloc 32 malloc 64 = some (some (fifoInitBuffer (fun _ => 0) 64)) := by
  intro malloc
  have halloc : fifoAlloc 32 malloc 64 = some (some (fifoInitBuffer (fun _ => 0) 64)) := rfl
  have hiff := (fifoAlloc_size_iff (Nat.le_refl 32) malloc (by decide) (by decide) halloc).1
  exact ⟨hiff.mpr ⟨6, rfl⟩, halloc⟩

/-- For 70000 bytes the fifo gets 65536. -/
theorem fifoAlloc_70000_too_small :
    let malloc : BitVec 32 → Option (ℕ → UInt8) := fun _ => some fun _ => 0
    ∃ fifo, fifoAlloc 32 malloc 70000 = some (some fifo) ∧ fifo.size.toNat = 65536 ∧
      ¬ IsLeast (powersFrom 70000) fifo.size.toNat := by
  intro malloc
  refine ⟨fifoInitBuffer (fun _ => 0) 65536, rfl, rfl, ?_⟩
  rintro ⟨⟨-, hle⟩, -⟩
  exact absurd hle (by decide)

end Neufbox.Libetk
