import Neufbox.Bcm53xx.Switch

/-!
# The DSCP map of the switch

The switch gives each DSCP value a queue.  The map is kept in registers of 64 bits (BCM5325) or 48
bits (BCM5395), one field of two or three bits for each value.  The macros of `bcm53xx.h` that find
the register, the field and its mask compute with `UNIT` and `CAST`: `unsigned long` for the
BCM5325, which has 32 bits on the target, `unsigned long long` for the BCM5395.
-/

namespace Neufbox.Bcm53xx

open Function (update)

namespace Chip

/-- The width of the type of `UNIT` and `CAST`. -/
def unitWidth : Chip → ℕ
  | bcm5325 => 32
  | bcm5395 => 64

/-- `QOS_DSCP_PRIO_REG_SIZE`. -/
def dscpRegSize : Chip → ℕ
  | bcm5325 => 8
  | bcm5395 => 6

/-- `QOS_DSCP_PRIO_REG_COUNT`. -/
def dscpRegCount : Chip → ℕ
  | bcm5325 => 2
  | bcm5395 => 4

/-- The bits of a map register. -/
@[reducible] def dscpRegWidth : Chip → ℕ
  | bcm5325 => 64
  | bcm5395 => 48

/-- `QOS_DSCP_PRIO_LOG2`. -/
def dscpLog2 (chip : Chip) : ℕ := chip.dscpRegSize * chip.dscpRegCount * 8 / 64 - 1

/-- `QOS_PRIO_DSCP_MASK`. -/
def dscpMask (chip : Chip) : BitVec chip.unitWidth :=
  ((1 : BitVec chip.unitWidth) <<< (chip.dscpLog2 + 1)) - 1

/-- `QOS_PRIO_DSCP_REG`. -/
def dscpReg (chip : Chip) (dscp : ℕ) : ℕ :=
  (dscp <<< chip.dscpLog2) / 64 * chip.dscpRegSize + 0x30

/-- `QOS_PRIO_DSCP_SHIFT`. -/
def dscpShift (chip : Chip) (dscp : ℕ) : ℕ :=
  (dscp &&& ((64 >>> chip.dscpLog2) - 1)) * (chip.dscpLog2 + 1)

end Chip

/-- The registers of the page `PAGE_PORT_QOS`, by their number. -/
abbrev MapRegs (chip : Chip) := ℕ → BitVec chip.dscpRegWidth

/-- The read of 48 bits fills the upper bytes of `v64`; the others are what the stack holds. -/
def qosMapRead : {chip : Chip} → MapRegs chip → ℕ → BitVec 16 → BitVec 64
  | .bcm5325, regs, reg, _ => regs reg
  | .bcm5395, regs, reg, stack => (regs reg ++ stack) >>> 16

/-- The write of 48 bits takes the upper bytes of `v64`. -/
def qosMapWrite : {chip : Chip} → MapRegs chip → ℕ → BitVec 64 → MapRegs chip
  | .bcm5325, regs, reg, v64 => update regs reg v64
  | .bcm5395, regs, reg, v64 => update regs reg ((v64 <<< 16).extractLsb' 16 48)

variable {chip : Chip}

def diffservGet (regs : MapRegs chip) (dscp : ℕ) (stack : BitVec 16) : BitVec 32 :=
  let v64 := qosMapRead regs (chip.dscpReg dscp) stack
  let v64 := v64 >>> chip.dscpShift dscp
  let v64 := v64 &&& chip.dscpMask.setWidth 64
  v64.setWidth 32

/-- The mask and the queue are shifted in the type of `UNIT` and `CAST`.  A shift by its width or
more is undefined (`none`). -/
def diffservSet (regs : MapRegs chip) (dscp : ℕ) (queue : BitVec 32) (stack : BitVec 16) :
    Option (MapRegs chip) :=
  if chip.dscpShift dscp < chip.unitWidth then
    let v64 := qosMapRead regs (chip.dscpReg dscp) stack
    let v64 := v64 &&& (~~~(chip.dscpMask <<< chip.dscpShift dscp)).setWidth 64
    let v64 := v64 ||| (queue.setWidth chip.unitWidth <<< chip.dscpShift dscp).setWidth 64
    some (qosMapWrite regs (chip.dscpReg dscp) v64)
  else none

end Neufbox.Bcm53xx
