import Mathlib.Logic.Function.Basic
import Neufbox.Api.Wlan
import Neufbox.Www.Kit

/-!
# The WLAN settings

The mode of the WLAN (`wlan_mode`) and its encryption (`wlan_wl0_enc`) are changed by the forms of
`/wifi/config` and `/wifi/security`, by the kit and by two methods of the API.

`Store` is the user configuration, as the requests of `nvram.h` read and change it: `set` stores a
value it accepts, a cursor collects those it accepts and stores them when it is committed, and `get`
gives the value that is stored or fails.
-/

namespace Neufbox.Box

open Function (update)
open Libnbd Dialogue Www

/-- The values that are stored, and those that were set on each cursor, in order. -/
structure Store where
  value : String → String
  pending : Int → List (String × String)

/-- The values after these were set. -/
def applySets (value : String → String) (sets : List (String × String)) : String → String :=
  sets.foldl (fun value entry => update value entry.1 entry.2) value

namespace Store

/-- A value is accepted, as a new one or as the one that it is. -/
def accepted (ret : Int) : Bool := ret = nvSetSuccess ∨ ret = nvSetUnchanged

def set (s : Store) (key data : String) (ret : Int) : Store :=
  if accepted ret then { s with value := update s.value key data } else s

def cursorNew (s : Store) (cid : Int) : Store := { s with pending := update s.pending cid [] }

def cset (s : Store) (cid : Int) (key data : String) (ret : Int) : Store :=
  if accepted ret then
    { s with pending := update s.pending cid (s.pending cid ++ [(key, data)]) } else s

def cursorCommit (s : Store) (cid : Int) (ret : Int) : Store :=
  if ret = nvCommitSuccess then { s with value := applySets s.value (s.pending cid) } else s

/-- The store after a request. -/
def next {E : Type} (s : Store) : Item NbdCall.Answer E → Store
  | .asked (.nvSet key data) ret => s.set key data ret
  | .asked (.config .cursorNew) cid => s.cursorNew cid
  | .asked (.config (.cset cid key data)) ret => s.cset cid key data ret
  | .asked (.config (.cursorCommit cid)) ret => s.cursorCommit cid ret
  | _ => s

/-- What a request may be answered. -/
def Answers (s : Store) : (q : NbdCall) → q.Answer → Prop
  | .config (.nvGet key), answer => answer = none ∨ answer = some (s.value key)
  | _, _ => True

end Store

def storeMonitor (E : Type) : Monitor NbdCall.Answer E Store where
  next := Store.next
  rely := Store.Answers
  demand _ _ := True

/-- A run of the program takes the store to another. -/
def Takes {E R : Type} (d : Dialogue NbdCall NbdCall.Answer E R) (s s' : Store) : Prop :=
  ∃ trace r, Ran d trace r ∧ Served (storeMonitor E) s trace ∧
    s' = trace.foldl (storeMonitor E).next s

/-- A submission of one of the writers. -/
inductive WlanWrite where
  | wifiConfig (ht40 : Bool) (form : Form)
  | wifiSecurity (wepkeyValid : Bool → String → Bool) (form : Form)
  | kitSet (form : Form)
  | setWlanMode (mode : Option String)
  | setWl0Enc (enc : Option String)

def WlanWrite.Step : WlanWrite → Store → Store → Prop
  | wifiConfig ht40 form => Takes (wifiConfigForm ht40 form)
  | wifiSecurity wepkeyValid form => Takes (wifiSecurityForm wepkeyValid form)
  | kitSet form => Takes (kitSetForm form)
  | setWlanMode mode => Takes (Api.wlanSetWlanMode mode)
  | setWl0Enc enc => Takes (Api.wlanSetWl0Enc enc)

/-- A sequence of submissions, each of which meets the condition `C` in the store it meets. -/
def WlanRun (C : Store → WlanWrite → Prop) : List WlanWrite → Store → Store → Prop
  | [], s, s' => s' = s
  | w :: writes, s, s' => C s w ∧ ∃ t, w.Step s t ∧ WlanRun C writes t s'

end Neufbox.Box
