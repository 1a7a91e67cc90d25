import Neufbox.Libnbd.Firewall
import Neufbox.Www.Forms

/-!
# The form of the firewall

Model of the form of `/network/firewall` (`wui/network_firewall.c`): the general setting, the
removal of a rule and the addition of one.
-/

namespace Neufbox.Www

open Libnbd Dialogue

/-- A request of the form. -/
inductive FirewallCall where
  | call (q : NbdCall)
  /-- `nbd_sys_sync_run` -/
  | sysSyncRun (script arg : String)
  /-- `nbd_firewall_add` -/
  | firewallAdd (rule : FirewallRule)
  /-- `nbd_firewall_del_by_index` -/
  | firewallDelByIndex (idx : ℕ)
  deriving DecidableEq

def FirewallCall.Answer : FirewallCall → Type
  | .call q => q.Answer
  | .sysSyncRun _ _ | .firewallAdd _ | .firewallDelByIndex _ => Int

/-- A part of the handler. -/
abbrev FirewallPart (R : Type) : Type := Dialogue FirewallCall FirewallCall.Answer Note R

/-- A part that only sends requests of `Nbd`. -/
def Part.toFirewall {R : Type} (d : Part R) : FirewallPart R :=
  embed (A := Nbd.Answer) (fun q => .call (.config q)) (fun _ a => a) id d

/-! ### The general setting -/

/-- The transaction: the result of the commit, if the handler does not return before. -/
def setFilterMode (form : Form) : Part (Option Int) :=
  (ewfHdfSget form "filter_mode").bind fun
  | none => done none
  | some filterMode =>
    let winsharedrop := ewfHdfSgetDefault form "filter_simple_winsharedrop" "off"
    let smtpdrop := ewfHdfSgetDefault form "filter_simple_smtpdrop" "off"
    let icmpdrop := ewfHdfSgetDefault form "filter_simple_icmpdrop" "off"
    let ipv6drop := ewfHdfSgetDefault form "filter_simple_ipv6drop" "off"
    (andThen nvTrxInit fun trx =>
      andThen (nvSetWtrx trx "filter_mode" "filter_mode" filterMode) fun trx =>
      andThen (nvSetWtrx trx "filter_simple_winsharedrop" "filter_simple_winsharedrop"
        winsharedrop) fun trx =>
      andThen (nvSetWtrx trx "filter_simple_smtpdrop" "filter_simple_smtpdrop" smtpdrop) fun trx =>
      andThen (nvSetWtrx trx "filter_simple_icmpdrop" "filter_simple_icmpdrop" icmpdrop) fun trx =>
      nvSetWtrx trx "filter_simple_ipv6drop" "filter_simple_ipv6drop" ipv6drop).bind fun
    | none => done none
    | some trx => (nvTrxXcommit trx).bind fun ret => done (some ret)

/-- The scripts that are run after the commit. -/
def restartFilters : FirewallPart Unit :=
  ask (.sysSyncRun "/etc/init.d/ipv6" "lanfilter_restart") fun _ =>
  ask (.sysSyncRun "/etc/init.d/firewall" "icmp") fun _ =>
  ask (.sysSyncRun "/etc/init.d/firewall" "smtp") fun _ =>
  ask (.sysSyncRun "/etc/init.d/firewall" "win") fun _ => done ()

/-- The general setting, if there is one: whether the handler goes on. -/
def setupFilter (form : Form) : FirewallPart Bool :=
  (Part.toFirewall (ewfHdfSget form "filter_mode")).bind fun
  | none => done true
  | some _ =>
    (Part.toFirewall (setFilterMode form)).bind fun
    | none => done false
    | some ret =>
      if ret = nvCommitSuccess then restartFilters.bind fun _ => done true else done true

/-! ### The rules -/

/-- `ewf_hdf_sget_int` -/
def ewfHdfSgetInt (form : Form) (varName : String) : Part Int :=
  (ewfHdfSget form varName).bind fun
  | none => done (-1)
  | some val =>
    let num := Decimal.strtol val.toList
    done (if num.errno then -1 else num.value)

/-- A rule is removed. -/
def removeFilter (form : Form) : FirewallPart Unit :=
  (Part.toFirewall (ewfHdfSgetInt form "remove_filter")).bind fun removeFilterId =>
  if removeFilterId > 0 then
    ask (.firewallDelByIndex removeFilterId.toNat) fun (ret : Int) =>
      if ret = nbdSuccess then ask (.call (.nvCommit "user")) fun _ => done () else done ()
  else done ()

/-- The values of the new rule that are in the form, and valid. -/
def getRule (form : Form) : Part FirewallRule :=
  (ewfHdfSget form "new.rulename").bind fun rulename =>
  (ewfHdfSget form "new.proto").bind fun proto =>
  (ewfHdfSget form "new.direction").bind fun direction =>
  (ewfHdfSget form "new.dstip").bind fun dstip =>
  (ewfHdfSget form "new.dstport").bind fun dstport =>
  (ewfHdfSget form "new.srcip").bind fun srcip =>
  (ewfHdfSget form "new.srcport").bind fun srcport =>
  (ewfHdfSget form "new.policy").bind fun policy =>
  done { rulename, proto, direction, dstip, dstport, srcip, srcport, policy }

/-- A rule is added. -/
def addFilter (form : Form) : FirewallPart Unit :=
  (Part.toFirewall (ewfHdfSget form "new.add")).bind fun
  | none => done ()
  | some _ =>
    (Part.toFirewall (getRule form)).bind fun rule =>
    -- one for each value
    let restart := rule.toList.countP Option.isSome
    if restart ≠ 0 then
      ask (.firewallAdd rule) fun (ret : Int) =>
        if ret = nbdSuccess then ask (.call (.nvCommit "user")) fun _ => done () else done ()
    else tell (.formError "unknown") (done ())

/-- `FORM_HANDLER` of `/network/firewall` -/
def networkFirewallForm (form : Form) : FirewallPart Unit :=
  (setupFilter form).bind fun
  | false => done ()
  | true => (removeFilter form).bind fun _ => addFilter form

end Neufbox.Www
