import Neufbox.Api.Values
import Neufbox.Lib.Dialogue
import Neufbox.Libnbd.Requests

/-!
# API methods of the WLAN

Model of `wlan.setWlanMode` and `wlan.setWl0Enc` (`ctl/wlan.c`), with `cfg_set` (`cfg.c`).  A
parameter that is not there is `none`.
-/

namespace Neufbox.Api

open Libnbd Dialogue

/-- A method, which may set an error. -/
abbrev MethodPart (R : Type) : Type := Dialogue NbdCall NbdCall.Answer ApiError R

/-- `enum cfg_set_ret_enum_t` -/
inductive CfgSetRet where
  | error
  | invalidvalue
  | success
  | unchanged

/-- `value_cptb_mapping` -/
def valueCptbMapping : List (String × String × String) :=
  [("wlan_mode", "11n-only", "11n"), ("wlan_mode", "11n-legacy", "11ng"),
    ("wlan_mode", "legacy", "11g")]

/-- The value that `cfg_set` sets. -/
def cfgValue (cfgName value : String) : String :=
  ((valueCptbMapping.find? fun entry => cfgName = entry.1 ∧ value = entry.2.1).map
    fun entry => entry.2.2).getD value

/-- `cfg_set` -/
def cfgSet (cfgName value : String) : MethodPart CfgSetRet :=
  ask (.nvSet cfgName (cfgValue cfgName value)) fun (ret : Int) =>
    done (if ret = nvSetSuccess then .success
      else if ret = nvSetUnchanged then .unchanged
      else if ret = nvSetInvalidValue then .invalidvalue
      else .error)

/-- `wlan.setWlanMode` -/
def wlanSetWlanMode (mode : Option String) : MethodPart Unit :=
  match mode with
  | none => tell .invalidArg (done ())
  | some param =>
    (cfgSet "wlan_mode" param).bind fun
      | .success => ask (.nvCommit "user") fun _ => done ()
      | .unchanged => done ()
      | .error | .invalidvalue => tell .invalidArg (done ())

/-- `wlan.setWl0Enc` -/
def wlanSetWl0Enc (enc : Option String) : MethodPart Unit :=
  match enc with
  | none => done ()
  | some param =>
    ask (.nvSet "wlan_wl0_enc" param) fun _ => ask (.nvCommit "user") fun _ => done ()

end Neufbox.Api
