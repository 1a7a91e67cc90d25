import Neufbox.Bcm53xx.Switch

/-!
# The command `switch-robo arl`

`cmd_arl` of `switch-robo.c` shows the entry of a MAC address; with `add` or `del` and the name of a
port it changes the entry first.  The box with the BCM5325 is the NB4, the one with the BCM5395 the
NB5; the names of the ports differ.
-/

namespace Neufbox.Bcm53xx

variable {chip : Chip} {ι : Type} [DecidableEq ι] (hash : EtherAddr → ι)

/-- The changes that `arl add` makes to the entry. -/
def Arl.addMask (entry : Arl chip) (mask : BitVec 32) : Arl chip :=
  { entry with
    valid := true
    static := true
    portid := entry.portid ||| mask.setWidth chip.portidWidth }

/-- The changes that `arl del` makes to the entry. -/
def Arl.delMask (entry : Arl chip) (mask : BitVec 32) : Arl chip :=
  let entry := { entry with portid := entry.portid &&& ~~~mask.setWidth chip.portidWidth }
  -- delete empty entry
  if entry.portid = chip.cpuPort ∨ entry.portid = 0 then .zero chip else entry

end Neufbox.Bcm53xx
