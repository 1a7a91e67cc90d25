import Mathlib.Data.List.FinRange
import Mathlib.Logic.Function.Basic

/-!
# The address table of the switch

`bcm53xx.c` keeps the multicast groups in the address resolution table (ARL) of the switch.  The
table has a bucket for each value of a hash of the MAC address; a bucket has two slots on the
BCM5325 and four on the BCM5395.  The code sees one bucket at a time: a lookup loads the bucket of
the address in the index register into the entry registers, a commit writes them back.

The code is compiled for one of the two chips (`has_bcm5325`, `has_bcm5395`), here a parameter.  Its
loops step by `sizeof(struct bcm53xx_arl)` on both of them, which is the distance of two slots on
the BCM5395 but not on the BCM5325.
-/

namespace Neufbox.Bcm53xx

open Function (update)

inductive Chip where
  | bcm5325
  | bcm5395
  deriving DecidableEq

namespace Chip

/-- `ROBO_5325_ARL_ENTRY_COUNT`, `ROBO_5395_ARL_ENTRY_COUNT`. -/
def arlEntryCount : Chip → ℕ
  | bcm5325 => 2
  | bcm5395 => 4

/-- The width of the field `portid`. -/
def portidWidth : Chip → ℕ
  | bcm5325 => 7
  | bcm5395 => 9

/-- The width of `vid` and of the reserved bits above it; the BCM5325 has no such field. -/
def vidWidth : Chip → ℕ
  | bcm5325 => 0
  | bcm5395 => 16

/-- The width of the fields that the code only copies: `reserved_60_55` of the BCM5325,
`reserved_31_17`, `tc` and `reserved_10_9` of the BCM5395. -/
def restWidth : Chip → ℕ
  | bcm5325 => 6
  | bcm5395 => 20

/-- `ROBO_5325_ARL_CPU_PORT`, `ROBO_5395_ARL_CPU_PORT`. -/
def cpuPort : (chip : Chip) → BitVec chip.portidWidth
  | bcm5325 => 3#7 <<< 5
  | bcm5395 => 1#9 <<< 8

end Chip

abbrev EtherAddr := Vector UInt8 6

/-- An entry of the table, `union bcm5325_arl` or `union bcm5395_arl`. -/
structure Arl (chip : Chip) where
  macAddress : EtherAddr
  valid : Bool
  static : Bool
  age : Bool
  portid : BitVec chip.portidWidth
  vid : BitVec chip.vidWidth
  rest : BitVec chip.restWidth
  deriving DecidableEq

/-- `memset(&entry, 0x00, sizeof(entry))`. -/
def Arl.zero (chip : Chip) : Arl chip where
  macAddress := Vector.replicate 6 0
  valid := false
  static := false
  age := false
  portid := 0
  vid := 0
  rest := 0

abbrev Bucket (chip : Chip) := Fin chip.arlEntryCount → Arl chip

/-- The table, the index register (`ROBO_ARL_ADDR_INDEX`), and the entry at each register.  An entry
of the BCM5395 takes a second register, 8 behind its first. -/
structure Switch (chip : Chip) (ι : Type) where
  table : ι → Bucket chip
  index : EtherAddr
  regs : ℕ → Arl chip

/-- `ROBO_ARL_ENTRY0`. -/
def roboArlEntry0 : ℕ := 0x10

/-- Where the switch has a slot of the bucket that is loaded.  The second slot of the BCM5325 is at
`ROBO_ARL_ENTRY1`, `0x18`. -/
def slotReg : (chip : Chip) → Fin chip.arlEntryCount → ℕ
  | .bcm5325, n => roboArlEntry0 + 8 * n.val
  | .bcm5395, n => roboArlEntry0 + 16 * n.val

/-- `sizeof(struct bcm53xx_arl)`: the structure has the entries of both chips as a union. -/
def sizeofArl : ℕ := 16

/-- The values of `n` in the loops over the slots, `for (n = 0U; n < count; n += off)`. -/
def loopOffsets (chip : Chip) : List ℕ := List.range' 0 chip.arlEntryCount sizeofArl

variable {chip : Chip} {ι : Type} [DecidableEq ι] (hash : EtherAddr → ι)

def l2LookupStart (s : Switch chip ι) (e : EtherAddr) : Switch chip ι :=
  { s with
    index := e
    regs := fun reg =>
      match (List.finRange _).find? fun n => slotReg chip n = reg with
      | some n => s.table (hash e) n
      | none => s.regs reg }

def l2Commit (s : Switch chip ι) : Switch chip ι :=
  { s with table := update s.table (hash s.index) fun n => s.regs (slotReg chip n) }

def l2Read (s : Switch chip ι) (n : ℕ) : Arl chip := s.regs (roboArlEntry0 + n)

def bcm5325L2Write (s : Switch .bcm5325 ι) (n : ℕ) (entry : Arl .bcm5325) (e : EtherAddr) :
    Switch .bcm5325 ι :=
  { s with regs := update s.regs (roboArlEntry0 + n) { entry with macAddress := e } }

/-- The word with the address is cleared before the address is stored. -/
def bcm5395L2Write (s : Switch .bcm5395 ι) (n : ℕ) (entry : Arl .bcm5395) (e : EtherAddr) :
    Switch .bcm5395 ι :=
  { s with regs := update s.regs (roboArlEntry0 + n) { entry with vid := 0, macAddress := e } }

def l2Write : {chip : Chip} → Switch chip ι → ℕ → Arl chip → EtherAddr → Switch chip ι
  | .bcm5325 => bcm5325L2Write
  | .bcm5395 => bcm5395L2Write

def l2Matches (entry : Arl chip) (e : EtherAddr) : Bool := entry.macAddress = e

def l2Valid (entry : Arl chip) : Bool := entry.valid

/-- The loop of `bcm53xx_l2_entry`; `entry` is left as the last one that was read. -/
def l2EntryLoop (s : Switch chip ι) (e : EtherAddr) : List ℕ → Arl chip → Int × Arl chip
  | [], entry => (-1, entry)
  | n :: rest, _ =>
    let entry := l2Read s n
    if l2Matches entry e then (0, entry) else l2EntryLoop s e rest entry

def l2Entry (s : Switch chip ι) (e : EtherAddr) (entry : Arl chip) :
    Switch chip ι × Int × Arl chip :=
  let s := l2LookupStart hash s e
  (s, l2EntryLoop s e (loopOffsets chip) entry)

/-- A round of one of the two loops of `bcm53xx_l2_setup`: `entry` is written into the registers if
`picks` accepts what they hold, and committed.  The flag is `found`. -/
def l2SetupRound (picks : Arl chip → Bool) (e : EtherAddr) (entry : Arl chip)
    (acc : Switch chip ι × Bool) (n : ℕ) : Switch chip ι × Bool :=
  if picks (l2Read acc.1 n) then (l2Commit hash (l2Write acc.1 n entry e), true) else acc

def l2SetupLoop (picks : Arl chip → Bool) (e : EtherAddr) (entry : Arl chip) (s : Switch chip ι) :
    Switch chip ι × Bool :=
  (loopOffsets chip).foldl (l2SetupRound hash picks e entry) (s, false)

def l2Setup (s : Switch chip ι) (e : EtherAddr) (entry : Arl chip) : Switch chip ι × Int :=
  -- lookup for already allocated
  let (s, found) := l2SetupLoop hash (fun cur => l2Matches cur e) e entry (l2LookupStart hash s e)
  if found then (s, 0)
  else
    -- lookup for free entry
    let (s, found) := l2SetupLoop hash (fun cur => !l2Valid cur) e entry s
    if !found then (s, -1) else (s, 0)

/-- `1 << port`, as the field `portid` keeps it.  A shift of the target takes the count modulo
32. -/
def portBit (chip : Chip) (port : ℕ) : BitVec chip.portidWidth :=
  (1#32 <<< (port % 32)).setWidth chip.portidWidth

/-- The changes that `bcm53xx_l2_mcast_add` makes to the entry. -/
def Arl.addPort (entry : Arl chip) (port : ℕ) : Arl chip :=
  { entry with
    valid := true
    static := true
    portid := entry.portid ||| (chip.cpuPort ||| portBit chip port) }

/-- The changes that `bcm53xx_l2_mcast_del` makes to the entry. -/
def Arl.delPort (entry : Arl chip) (port : ℕ) : Arl chip :=
  let entry := { entry with portid := entry.portid &&& ~~~portBit chip port }
  -- delete empty entry
  if entry.portid = chip.cpuPort then { entry with static := false } else entry

def l2McastAdd (s : Switch chip ι) (e : EtherAddr) (port : ℕ) : Switch chip ι × Int :=
  let (s, ret, entry) := l2Entry hash s e (.zero chip)
  let entry := if ret < 0 then .zero chip else entry
  l2Setup hash s e (entry.addPort port)

def l2McastDel (s : Switch chip ι) (e : EtherAddr) (port : ℕ) : Switch chip ι × Int :=
  let (s, ret, entry) := l2Entry hash s e (.zero chip)
  if ret < 0 then (s, -1) else l2Setup hash s e (entry.delPort port)

/-- A call of the multicast functions. -/
inductive McastCall where
  | add (e : EtherAddr) (port : ℕ)
  | del (e : EtherAddr) (port : ℕ)
  deriving DecidableEq

def McastCall.address : McastCall → EtherAddr
  | add e _ => e
  | del e _ => e

def mcastCall (s : Switch chip ι) : McastCall → Switch chip ι × Int
  | .add e port => l2McastAdd hash s e port
  | .del e port => l2McastDel hash s e port

/-- The step of a run: a call, with what it returned as the event.  What the registers hold before
the call is given with it, as nothing is known of those that have no slot. -/
def mcastStep (s : Switch chip ι) (input : McastCall × (ℕ → Arl chip)) :
    Switch chip ι × List (McastCall × Int) :=
  let (s, ret) := mcastCall hash { s with regs := input.2 } input.1
  (s, [(input.1, ret)])

end Neufbox.Bcm53xx
