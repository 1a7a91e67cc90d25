import Neufbox.Bcm53xx.Diffserv
import Neufbox.Lib.Fields

/-!
# Updates of the DSCP map

`bcm53xx_diffserv_set` is to change the queue of one DSCP value and of no other (`SetsOnly`).  Bit
by bit (`getLsbD_diffservSet`), it clears the field, together with every bit of the register that
the type of `UNIT` does not have, and puts all bits of the queue in from there on.  So it does what
it is to do exactly if the shift is defined, the register has no bit beyond that type, and the bits
of the queue that do not fit the field are set already (`Contained`, `diffserv_setsOnly_iff`).

On the BCM5325 the upper half of the register is lost (`diffservSet_clears_upper_half`).
-/

namespace Neufbox.Bcm53xx

open Function (update)
open Fields

variable {chip : Chip}

/-! ### The layout of the map -/

/-- The bits of a field. -/
def Chip.dscpWidth (chip : Chip) : ℕ := chip.dscpLog2 + 1

/-- The fields of a register. -/
def Chip.dscpPerReg (chip : Chip) : ℕ := 64 >>> chip.dscpLog2

theorem dscpReg_eq (dscp : ℕ) :
    chip.dscpReg dscp = dscp / chip.dscpPerReg * chip.dscpRegSize + 0x30 := by
  cases chip with
  | bcm5325 =>
    have hdiv : (dscp <<< 1) / 64 = dscp / 32 := by rw [Nat.shiftLeft_eq]; omega
    exact congrArg (· * 8 + 0x30) hdiv
  | bcm5395 =>
    have hdiv : (dscp <<< 2) / 64 = dscp / 16 := by rw [Nat.shiftLeft_eq]; omega
    exact congrArg (· * 6 + 0x30) hdiv

theorem dscpShift_eq (dscp : ℕ) :
    chip.dscpShift dscp = dscp % chip.dscpPerReg * chip.dscpWidth := by
  cases chip with
  | bcm5325 => exact congrArg (· * 2) (Nat.and_two_pow_sub_one_eq_mod dscp 5)
  | bcm5395 => exact congrArg (· * 3) (Nat.and_two_pow_sub_one_eq_mod dscp 4)

/-- A field is inside the register. -/
theorem dscpShift_add_le_reg (dscp : ℕ) :
    chip.dscpShift dscp + chip.dscpWidth ≤ chip.dscpRegWidth := by
  rw [dscpShift_eq]
  cases chip with
  | bcm5325 => exact show dscp % 32 * 2 + 2 ≤ 64 by omega
  | bcm5395 => exact show dscp % 16 * 3 + 3 ≤ 48 by omega

/-- A field that begins inside the type of `UNIT` ends inside it. -/
theorem dscpShift_add_le_unit {dscp : ℕ} (h : chip.dscpShift dscp < chip.unitWidth) :
    chip.dscpShift dscp + chip.dscpWidth ≤ chip.unitWidth := by
  rw [dscpShift_eq] at h ⊢
  cases chip with
  | bcm5325 =>
    have h : dscp % 32 * 2 < 32 := h
    exact show dscp % 32 * 2 + 2 ≤ 32 by omega
  | bcm5395 => exact show dscp % 16 * 3 + 3 ≤ 64 by omega

/-- Two DSCP values are in one register if they agree in the upper bits. -/
theorem dscpReg_eq_iff {dscp other : ℕ} :
    chip.dscpReg other = chip.dscpReg dscp ↔
      other / chip.dscpPerReg = dscp / chip.dscpPerReg := by
  have hsize : 0 < chip.dscpRegSize := by cases chip <;> decide
  rw [dscpReg_eq, dscpReg_eq, Nat.add_right_cancel_iff, Nat.mul_left_inj hsize.ne']

/-- Each position of a register is that of some DSCP value. -/
theorem exists_dscp (dscp : Fin 64) {k : ℕ} (hk : k < chip.dscpPerReg) :
    ∃ other : Fin 64, other.val / chip.dscpPerReg = dscp.val / chip.dscpPerReg ∧
      other.val % chip.dscpPerReg = k := by
  have hcases : chip.dscpPerReg = 32 ∨ chip.dscpPerReg = 16 := by
    cases chip
    exacts [.inl rfl, .inr rfl]
  refine ⟨⟨dscp / chip.dscpPerReg * chip.dscpPerReg + k, ?_⟩, ?_, ?_⟩
  all_goals
    rcases hcases with hm | hm <;> simp only [hm] at hk ⊢ <;> omega

theorem getLsbD_dscpMask (j : ℕ) : chip.dscpMask.getLsbD j = decide (j < chip.dscpWidth) := by
  have hmask : chip.dscpMask = BitVec.ofNat chip.unitWidth (2 ^ chip.dscpWidth - 1) := by
    cases chip <;> rfl
  have hle : chip.dscpWidth ≤ chip.unitWidth := by cases chip <;> decide
  rw [hmask, BitVec.getLsbD_ofNat, Nat.testBit_two_pow_sub_one]
  simp only [← Bool.decide_and, decide_eq_decide]
  omega

/-! ### Reads and writes of a register -/

variable (regs : MapRegs chip)

theorem getLsbD_qosMapRead (reg : ℕ) (stack : BitVec 16) (j : ℕ) :
    (qosMapRead regs reg stack).getLsbD j = (regs reg).getLsbD j := by
  cases chip with
  | bcm5325 => rfl
  | bcm5395 =>
    rw [qosMapRead, BitVec.getLsbD_ushiftRight, BitVec.getLsbD_append, if_neg (by omega),
      Nat.add_sub_cancel_left]

theorem getLsbD_qosMapWrite (reg : ℕ) (v64 : BitVec 64) (j : ℕ) :
    (qosMapWrite regs reg v64 reg).getLsbD j
      = (decide (j < chip.dscpRegWidth) && v64.getLsbD j) := by
  cases chip with
  | bcm5325 =>
    rw [qosMapWrite, Function.update_self, eq_comm, Bool.and_eq_right_iff_imp]
    exact fun h => decide_eq_true (BitVec.lt_of_getLsbD h)
  | bcm5395 =>
    rw [qosMapWrite, Function.update_self, BitVec.getLsbD_extractLsb', BitVec.getLsbD_shiftLeft,
      Nat.add_sub_cancel_left]
    by_cases hj : j < 48
    · simp [hj, Chip.dscpRegWidth]
      omega
    · simp [hj, Chip.dscpRegWidth]

theorem qosMapWrite_of_ne {reg reg' : ℕ} (h : reg' ≠ reg)
    (v64 : BitVec 64) : qosMapWrite regs reg v64 reg' = regs reg' := by
  cases chip <;> exact Function.update_of_ne h ..

/-! ### Get and set -/

/-- The field of a DSCP value. -/
def dscpField (dscp : ℕ) : BitVec chip.dscpWidth :=
  field chip.dscpWidth (regs (chip.dscpReg dscp)) (dscp % chip.dscpPerReg)

theorem diffservGet_eq (dscp : ℕ) (stack : BitVec 16) :
    diffservGet regs dscp stack = (dscpField regs dscp).setWidth 32 := by
  refine BitVec.eq_of_getLsbD_eq fun k hk => ?_
  simp only [diffservGet, dscpField, BitVec.getLsbD_setWidth, BitVec.getLsbD_and,
    BitVec.getLsbD_ushiftRight, getLsbD_qosMapRead, getLsbD_dscpMask, getLsbD_field, dscpShift_eq,
    decide_eq_true hk, decide_eq_true (show k < 64 by omega), Bool.true_and, Bool.and_comm]

theorem setWidth_injective {x y : BitVec chip.dscpWidth}
    (h : x.setWidth 32 = y.setWidth 32) : x = y := by
  have hle : chip.dscpWidth ≤ 32 := by cases chip <;> decide
  refine BitVec.eq_of_getLsbD_eq fun k hk => ?_
  have hbit := congrArg (fun z => z.getLsbD k) h
  simpa only [BitVec.getLsbD_setWidth, hk.trans_le hle, decide_true, Bool.true_and] using hbit

/-- A bit is in the field of a DSCP value if it is one of the bits from the shift on. -/
theorem div_eq_iff {dscp j : ℕ} :
    j / chip.dscpWidth = dscp % chip.dscpPerReg ↔
      chip.dscpShift dscp ≤ j ∧ j - chip.dscpShift dscp < chip.dscpWidth := by
  have hw : 0 < chip.dscpWidth := Nat.succ_pos _
  rw [dscpShift_eq, Nat.div_eq_iff hw]
  omega

/-- The value that a set writes. -/
def dscpWritten (dscp : ℕ) (queue : BitVec 32) (stack : BitVec 16) :
    BitVec 64 :=
  qosMapRead regs (chip.dscpReg dscp) stack
      &&& (~~~(chip.dscpMask <<< chip.dscpShift dscp)).setWidth 64
    ||| (queue.setWidth chip.unitWidth <<< chip.dscpShift dscp).setWidth 64

theorem diffservSet_eq_some {regs regs' : MapRegs chip} {dscp : ℕ} {queue : BitVec 32}
    {stack : BitVec 16} :
    diffservSet regs dscp queue stack = some regs' ↔
      chip.dscpShift dscp < chip.unitWidth ∧
        qosMapWrite regs (chip.dscpReg dscp) (dscpWritten regs dscp queue stack) = regs' :=
  Option.ite_none_right_eq_some.trans (and_congr_right fun _ => Option.some_inj)

/-- The register after a set, bit by bit. -/
theorem getLsbD_diffservSet {regs regs' : MapRegs chip} {dscp : ℕ} {queue : BitVec 32}
    {stack : BitVec 16} (h : diffservSet regs dscp queue stack = some regs') {j : ℕ}
    (hj : j < chip.dscpRegWidth) :
    (regs' (chip.dscpReg dscp)).getLsbD j
      = (decide (j < chip.unitWidth) &&
        ((regs (chip.dscpReg dscp)).getLsbD j
            && !decide (j / chip.dscpWidth = dscp % chip.dscpPerReg)
          || decide (chip.dscpShift dscp ≤ j) && queue.getLsbD (j - chip.dscpShift dscp))) := by
  have hlt : j < 64 := hj.trans_le (by cases chip <;> decide)
  obtain ⟨-, rfl⟩ := diffservSet_eq_some.mp h
  simp only [getLsbD_qosMapWrite, dscpWritten, BitVec.getLsbD_or, BitVec.getLsbD_and,
    getLsbD_qosMapRead, BitVec.getLsbD_setWidth, BitVec.getLsbD_not, BitVec.getLsbD_shiftLeft,
    getLsbD_dscpMask, hj, hlt, decide_true, Bool.true_and, div_eq_iff]
  by_cases hunit : j < chip.unitWidth
  · have hrest : j - chip.dscpShift dscp < chip.unitWidth := by omega
    by_cases hle : chip.dscpShift dscp ≤ j
    · simp [hunit, hrest, hle, Nat.not_lt.mpr hle]
    · simp [hunit, hle, Nat.not_le.mp hle]
  · simp [hunit]

theorem diffservSet_of_ne {regs regs' : MapRegs chip} {dscp : ℕ} {queue : BitVec 32}
    {stack : BitVec 16} (h : diffservSet regs dscp queue stack = some regs') {reg : ℕ}
    (hne : reg ≠ chip.dscpReg dscp) : regs' reg = regs reg := by
  obtain ⟨-, rfl⟩ := diffservSet_eq_some.mp h
  exact qosMapWrite_of_ne regs hne _

/-! ### Which updates are local -/

/-- What a set is to do: the queue of every other DSCP value is unchanged, and that of this one is
the new one if it fits the field.  A get may find anything on its stack. -/
def SetsOnly (dscp : Fin 64) (queue : BitVec 32) (stack : BitVec 16) : Prop :=
  ∃ regs', diffservSet regs dscp queue stack = some regs' ∧ ∀ stack',
    (∀ other : Fin 64, other ≠ dscp →
      diffservGet regs' other stack' = diffservGet regs other stack') ∧
    (queue.toNat < 2 ^ chip.dscpWidth → diffservGet regs' dscp stack' = queue)

/-- When a set does what it is to do: the shift is defined, the register has no bit beyond the type
of `UNIT`, and a bit of the queue that does not fit the field falls on a bit that is set already, or
beyond that type or the register. -/
def Contained (dscp : ℕ) (queue : BitVec 32) : Prop :=
  chip.dscpShift dscp < chip.unitWidth ∧
    (∀ j, chip.unitWidth ≤ j → (regs (chip.dscpReg dscp)).getLsbD j = false) ∧
    ∀ j, chip.dscpShift dscp + chip.dscpWidth ≤ j → j < chip.unitWidth →
      j < chip.dscpRegWidth → queue.getLsbD (j - chip.dscpShift dscp) = true →
      (regs (chip.dscpReg dscp)).getLsbD j = true

section

variable {regs regs' : MapRegs chip} {queue : BitVec 32} {stack : BitVec 16}

/-- The other values are unchanged exactly if every bit outside the field is. -/
theorem others_iff {dscp : Fin 64} (h : diffservSet regs dscp queue stack = some regs') :
    (∀ other : Fin 64, other ≠ dscp → dscpField regs' other = dscpField regs other) ↔
      ∀ j < chip.dscpRegWidth, j / chip.dscpWidth ≠ dscp % chip.dscpPerReg →
        (regs' (chip.dscpReg dscp)).getLsbD j = (regs (chip.dscpReg dscp)).getLsbD j := by
  have hcover : chip.dscpRegWidth ≤ chip.dscpPerReg * chip.dscpWidth := by cases chip <;> decide
  have hw : 0 < chip.dscpWidth := Nat.succ_pos _
  rw [← field_eq_off_iff hw hcover]
  constructor
  · intro hfields k hk hne
    obtain ⟨other, hreg, rfl⟩ := exists_dscp dscp hk
    rw [← dscpReg_eq_iff.mpr hreg]
    exact hfields other fun hsame => hne (hsame ▸ rfl)
  · intro hfields other hne
    by_cases hreg : other.val / chip.dscpPerReg = dscp.val / chip.dscpPerReg
    · have hpos : other.val % chip.dscpPerReg ≠ dscp.val % chip.dscpPerReg := fun hmod =>
        hne (Fin.ext (by rw [← Nat.div_add_mod other.val chip.dscpPerReg, hreg, hmod,
          Nat.div_add_mod]))
      rw [dscpField, dscpField, dscpReg_eq_iff.mpr hreg]
      exact hfields _ (Nat.mod_lt _ (by cases chip <;> decide)) hpos
    · rw [dscpField, dscpField, diffservSet_of_ne h (mt dscpReg_eq_iff.mp hreg)]

/-- The field itself gets the queue, if that fits. -/
theorem dscpField_self {dscp : ℕ} (h : diffservSet regs dscp queue stack = some regs')
    (hfits : queue.toNat < 2 ^ chip.dscpWidth) :
    (dscpField regs' dscp).setWidth 32 = queue := by
  have hunit := dscpShift_add_le_unit (diffservSet_eq_some.mp h).1
  have hreg : chip.dscpShift dscp + chip.dscpWidth ≤ _ := dscpShift_add_le_reg dscp
  refine BitVec.eq_of_getLsbD_eq fun k hk => ?_
  rw [BitVec.getLsbD_setWidth, decide_eq_true hk, Bool.true_and, dscpField, getLsbD_field,
    ← dscpShift_eq]
  by_cases hkw : k < chip.dscpWidth
  · have hown : (chip.dscpShift dscp + k) / chip.dscpWidth = dscp % chip.dscpPerReg :=
      div_eq_iff.mpr ⟨Nat.le_add_right .., by rwa [Nat.add_sub_cancel_left]⟩
    rw [getLsbD_diffservSet h (show chip.dscpShift dscp + k < _ by omega), Nat.add_sub_cancel_left]
    simp [hown, hkw, show chip.dscpShift dscp + k < chip.unitWidth by omega]
  · have hzero : queue.getLsbD k = false := by
      refine Nat.testBit_lt_two_pow (hfits.trans_le ?_)
      exact Nat.pow_le_pow_right Nat.two_pos (Nat.le_of_not_lt hkw)
    rw [hzero, decide_eq_false hkw, Bool.false_and]

/-- A bit outside the field is unchanged if it is not lost and no bit of the queue falls on it. -/
theorem getLsbD_unchanged_iff {dscp j : ℕ} (h : diffservSet regs dscp queue stack = some regs')
    (hj : j < chip.dscpRegWidth) (hout : j / chip.dscpWidth ≠ dscp % chip.dscpPerReg) :
    (regs' (chip.dscpReg dscp)).getLsbD j = (regs (chip.dscpReg dscp)).getLsbD j ↔
      (chip.unitWidth ≤ j → (regs (chip.dscpReg dscp)).getLsbD j = false) ∧
        (j < chip.unitWidth → chip.dscpShift dscp ≤ j →
          queue.getLsbD (j - chip.dscpShift dscp) = true →
          (regs (chip.dscpReg dscp)).getLsbD j = true) := by
  rw [getLsbD_diffservSet h hj, decide_eq_false hout]
  by_cases hunit : j < chip.unitWidth
  · cases hv : (regs (chip.dscpReg dscp)).getLsbD j <;> simp [hunit, Nat.not_le.mpr hunit]
  · rw [decide_eq_false hunit, Bool.false_and, eq_comm]
    simp only [Nat.le_of_not_lt hunit, hunit, forall_const, IsEmpty.forall_iff, and_true]

/-- **A set changes one queue only exactly when it is `Contained`.** -/
theorem diffserv_setsOnly_iff (regs : MapRegs chip) (dscp : Fin 64) (queue : BitVec 32)
    (stack : BitVec 16) : SetsOnly regs dscp queue stack ↔ Contained regs dscp queue := by
  constructor
  · rintro ⟨regs', h, hget⟩
    have hshift := (diffservSet_eq_some.mp h).1
    have hbits := (others_iff h).mp fun other hne => setWidth_injective (by
      simpa only [diffservGet_eq] using (hget 0).1 other hne)
    refine ⟨hshift, fun j hj => ?_, fun j hj hunit hreg => ?_⟩
    · by_cases hreg : j < chip.dscpRegWidth
      · have hout : j / chip.dscpWidth ≠ dscp.val % chip.dscpPerReg := fun hown => by
          have := dscpShift_add_le_unit hshift
          have := (div_eq_iff.mp hown).2
          omega
        exact ((getLsbD_unchanged_iff h hreg hout).mp (hbits j hreg hout)).1 hj
      · exact BitVec.getLsbD_of_ge _ _ (Nat.le_of_not_lt hreg)
    · have hout : j / chip.dscpWidth ≠ dscp.val % chip.dscpPerReg := fun hown => by
        have := (div_eq_iff.mp hown).2
        omega
      exact ((getLsbD_unchanged_iff h hreg hout).mp (hbits j hreg hout)).2 hunit (by omega)
  · rintro ⟨hshift, hupper, hspill⟩
    obtain ⟨regs', h⟩ : ∃ regs', diffservSet regs dscp queue stack = some regs' :=
      ⟨_, diffservSet_eq_some.mpr ⟨hshift, rfl⟩⟩
    refine ⟨regs', h, fun stack' => ⟨fun other hne => ?_, fun hfits => ?_⟩⟩
    · rw [diffservGet_eq, diffservGet_eq, (others_iff h).mpr (fun j hj hout => ?_) other hne]
      refine (getLsbD_unchanged_iff h hj hout).mpr ⟨hupper j, fun hunit hle => ?_⟩
      have hbeyond := mt div_eq_iff.mpr hout
      exact hspill j (by omega) hunit hj
    · rw [diffservGet_eq]
      exact dscpField_self h hfits

end

/-- A map with every value in queue 3. -/
def allUrgent : MapRegs .bcm5325 := fun _ => BitVec.allOnes 64

/-- On the BCM5325 the upper half of the register is lost: giving value 0 queue 0 takes value 16 out
of its queue, too. -/
theorem diffservSet_clears_upper_half : ¬SetsOnly allUrgent 0 0 0 := by
  rintro ⟨regs', h, hget⟩
  obtain ⟨-, rfl⟩ := diffservSet_eq_some.mp h
  exact absurd ((hget 0).1 16 (by decide)) (by decide)

end Neufbox.Bcm53xx
