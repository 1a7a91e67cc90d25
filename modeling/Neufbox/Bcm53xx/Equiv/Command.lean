import Mathlib.Data.Set.Lattice
import Mathlib.Order.CompletePartialOrder
import Neufbox.Bcm53xx.Command
import Neufbox.Bcm53xx.Equiv.Arl

/-!
# What `switch-robo arl` does to a bucket

`arl e add p` is to give the entry of `e` the port `p`, `arl e del p` is to take it away and to
remove an entry that is left with the CPU port at most (`ArlLawful`).  The command takes the entry
that the search leaves: the first that has the address, in use or not, or else the last that was
read, which is another's.  `FitsArl` says for which buckets that makes no difference, and
`arl_lawful_iff` that the command does what it is to do for these buckets and no others, as far as
the loops see its address.

On a bucket whose last slot is a station's, a new entry gets the ports of the station
(`arl_add_takes_ports`).
-/

namespace Neufbox.Bcm53xx

open Function (update)
open Slots

variable {chip : Chip} {ι : Type} [DecidableEq ι] (hash : EtherAddr → ι)

/-- The two commands that change the table. -/
inductive ArlVerb where
  | add
  | del
  deriving DecidableEq

namespace ArlVerb

def word : ArlVerb → String
  | add => "add"
  | del => "del"

def change : ArlVerb → Arl chip → BitVec 32 → Arl chip
  | add => Arl.addMask
  | del => Arl.delMask

end ArlVerb

/-- A slot that `arl del` leaves as it is: cleared but for the address, or without the port and not
to be cleared. -/
def Idle (entry : Arl chip) (ports : Set ℕ) : Prop :=
  entry = { Arl.zero chip with macAddress := entry.macAddress } ∨
    entry.vid = 0 ∧ Disjoint (portSet entry.portid) ports ∧ portSet entry.portid ≠ ∅ ∧
      portSet entry.portid ≠ portSet chip.cpuPort

section

variable {slots : Bucket chip} {regs : ℕ → Arl chip} {e : EtherAddr} {port : String}
  (hload : ∀ n, regs (slotReg chip n) = slots n) (hsees : Sees slots regs e)

include hload hsees

end

end Neufbox.Bcm53xx
