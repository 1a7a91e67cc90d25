import Neufbox.Libnbu.Net
import Neufbox.Www.Admin

/-!
# The forms of the network and of the WLAN

Model of the forms of `/network/wan`, `/network/dhcp`, `/wifi/config` and `/wifi/security`
(`wui/network_wan.c`, `wui/network_dhcp.c`, `wui/wifi_config.c`, `wui/wifi_security.c`), with
`nbl_wlan_check_compatibility` (`nbl_wlan.c`).  The build is one for a box, not `X86`; that for the
NB5 and the NB6 has `ht40`.

A handler is a program that talks to the daemon.  A macro that may return from it is followed by the
rest of the handler as a function.
-/

namespace Neufbox.Www

open Libnbd Dialogue

/-- A part of a handler. -/
abbrev FormPart (R : Type) : Type := Dialogue NbdCall NbdCall.Answer Note R

/-- A part that only sends requests of `Nbd`. -/
def Part.toForm {R : Type} (d : Part R) : FormPart R :=
  embed (A := Nbd.Answer) .config (fun _ a => a) id d

theorem Part.toForm_bind {R S : Type} (d : Part R) (f : R → Part S) :
    Part.toForm (d.bind f) = (Part.toForm d).bind fun r => Part.toForm (f r) :=
  embed_bind ..

/-- A macro that may return from the handler, and the rest of it. -/
def orReturn {R : Type} (d : Part (Option R)) (rest : R → FormPart Unit) : FormPart Unit :=
  (Part.toForm d).bind fun
    | none => done ()
    | some r => rest r

/-- A request whose result is not looked at, and the rest of the handler. -/
def send {R : Type} (q : NbdCall) (rest : FormPart R) : FormPart R := ask q fun _ => rest

/-- `NV_GET` -/
def nvGet (name : String) : Part (Option String) := ask (.nvGet name) done

/-- `ewf_hdf_sget_default` -/
def ewfHdfSgetDefault (form : Form) (varName dflval : String) : String :=
  match form.query varName with
  | none => dflval
  | some val => if form.valid varName val then val else dflval

/-! ### `/network/wan` -/

/-- The setting of `net_mode`: whether the box has to be rebooted. -/
def setNetMode (hasNetInfraBridge : Bool) (netMode : String) : FormPart Bool :=
  if hasNetInfraBridge then
    ask (.nvSet "net_mode" netMode) fun (ret : Int) =>
      if ret = nvSetSuccess then send (.nvCommit "user") (done true) else done false
  else done false

/-- The end of the handler, after the commit. -/
def finishWan (reboot : Bool) (ret : Int) : FormPart Unit :=
  let redirected := if reboot then tell (.redirect "/reboot") (done ()) else done ()
  if ret = nvCommitSuccess then
    send (.sysAsyncRun "/etc/init.d/ppp" "reload")
      (send (.sysAsyncRun "/etc/init.d/ipv6" "reload") redirected)
  else redirected

/-- `FORM_HANDLER` of `/network/wan` -/
def networkWanForm (hasNetInfraBridge : Bool) (form : Form) : FormPart Unit :=
  orReturn nvTrxInit fun trx =>
  let netMode := ewfHdfSgetDefault form "net_mode" "router"
  orReturn (ewfHdfSget form "ppp_login") fun pppLogin =>
  orReturn (ewfHdfSget form "ppp_password") fun pppPassword =>
  let ipv6Enable := ewfHdfSgetDefault form "ipv6_enable" "off"
  (setNetMode hasNetInfraBridge netMode).bind fun reboot =>
  orReturn (nvSetWtrx trx "ppp_login" "ppp_login" pppLogin) fun trx =>
  orReturn (nvSetWtrx trx "ppp_password" "ppp_password" pppPassword) fun trx =>
  orReturn (nvSetWtrx trx "ipv6_enable" "ipv6_enable" ipv6Enable) fun trx =>
  (Part.toForm (nvTrxXcommit trx)).bind (finishWan reboot)

/-! ### `/network/dhcp` -/

/-- The functions of libnbu's `net.c` that the form uses, and `strtol`, with whether `errno` is
set. -/
structure NetFuncs where
  splitIp : String → Option (String × String × String × String)
  joinIp : (p0 p1 p2 p3 : String) → Option String
  joinMac : (p0 p1 p2 p3 p4 p5 : String) → Option String
  validateFullIp : (ip netmask : String) → Bool
  strtol : String → Int × Bool

/-- The functions as libnbu has them, with any one for MAC addresses. -/
def NetFuncs.libnbu (joinMac : (p0 p1 p2 p3 p4 p5 : String) → Option String) : NetFuncs where
  splitIp := Libnbu.nbuNetSplitIp
  joinIp p0 p1 p2 p3 := Libnbu.nbuNetJoinIp p0 p1 p2 p3 16
  joinMac := joinMac
  validateFullIp ip netmask := Libnbu.nbuNetValidateFullIp ip netmask = .success
  strtol s := ((Decimal.strtol s.toList).value, (Decimal.strtol s.toList).errno)

/-- `EWF_HDF_GET_INT` -/
def ewfHdfGetInt (net : NetFuncs) (form : Form) (varName : String) : Part (Option Int) :=
  (ewfHdfSget form varName).bind fun
    | none => done none
    | some val =>
      let valInt := if (net.strtol val).2 then -1 else (net.strtol val).1
      done (if valInt = -1 then none else some valInt)

/-- What the form says when the daemon does not add an address. -/
def addStaticIpNote (ret : Int) : Note :=
  if ret = lanErrorIpInvalid then .varError "dhcp_static_ipaddr" "invalid"
  else if ret = lanErrorMacInvalid then .varError "dhcp_static_macaddr" "invalid"
  else if ret = lanErrorDhcpdStaticIpAlreadyExist then .varError "dhcp_static_ipaddr" "already_use"
  else if ret = lanErrorDhcpdStaticMacAlreadyExist then
    .varError "dhcp_static_macaddr" "already_use"
  else .formError "unknown"

/-- The branch of `add`. -/
def dhcpAddForm (net : NetFuncs) (form : Form) (lanIpaddr lanNetmask : String) : FormPart Unit :=
  orReturn (ewfHdfSget form "dhcp_static_ipaddr_p3") fun ipaddrP3 =>
  orReturn (ewfHdfSget form "dhcp_static_macaddr_p0") fun macaddrP0 =>
  orReturn (ewfHdfSget form "dhcp_static_macaddr_p1") fun macaddrP1 =>
  orReturn (ewfHdfSget form "dhcp_static_macaddr_p2") fun macaddrP2 =>
  orReturn (ewfHdfSget form "dhcp_static_macaddr_p3") fun macaddrP3 =>
  orReturn (ewfHdfSget form "dhcp_static_macaddr_p4") fun macaddrP4 =>
  orReturn (ewfHdfSget form "dhcp_static_macaddr_p5") fun macaddrP5 =>
  match net.splitIp lanIpaddr with
  | none => tell (.formError "system") (done ())
  | some (p0, p1, p2, _) =>
    match (net.joinIp p0 p1 p2 ipaddrP3).filter (net.validateFullIp · lanNetmask) with
    | none => tell (.varError "dhcp_static_ipaddr" "invalid") (done ())
    | some staticIpaddr =>
      if staticIpaddr = lanIpaddr then tell (.varError "dhcp_static_ipaddr" "boxip") (done ())
      else
        match net.joinMac macaddrP0 macaddrP1 macaddrP2 macaddrP3 macaddrP4 macaddrP5 with
        | none => tell (.varError "dhcp_static_macaddr" "invalid") (done ())
        | some staticMacaddr =>
          ask (.dhcpdAddStaticIp staticIpaddr staticMacaddr) fun (ret : Int) =>
            if ret ≠ nbdSuccess then tell (addStaticIpNote ret) (done ())
            else send (.sysAsyncRun "/etc/init.d/dhcpd" "restart") (done ())

/-- The branch of `remove`. -/
def dhcpRemoveForm (net : NetFuncs) (form : Form) : FormPart Unit :=
  orReturn (ewfHdfGetInt net form "row") fun row =>
  ask (.dhcpdDelStaticIp (row + 1)) fun (ret : Int) =>
    if ret = nbdSuccess then send (.sysAsyncRun "/etc/init.d/dhcpd" "restart") (done ())
    else done ()

/-- The range is set. -/
def setDhcpRange (dhcpActive dhcpStart dhcpEnd dhcpLease : String) : FormPart Unit :=
  orReturn nvTrxInit fun trx =>
  orReturn (nvSetWtrx trx "dhcp_active" "dhcp_active" dhcpActive) fun trx =>
  orReturn (nvSetWtrx trx "dhcp_start" "dhcp_start" dhcpStart) fun trx =>
  orReturn (nvSetWtrx trx "dhcp_end" "dhcp_end" dhcpEnd) fun trx =>
  orReturn (nvSetWtrx trx "dhcp_lease" "dhcp_lease" dhcpLease) fun trx =>
  (Part.toForm (nvTrxXcommit trx)).bind fun ret =>
  if ret = nvCommitSuccess then send (.sysAsyncRun "/etc/init.d/dhcpd" "restart") (done ())
  else done ()

/-- The branch of `config`. -/
def dhcpConfigForm (net : NetFuncs) (form : Form) (lanIpaddr lanNetmask : String) :
    FormPart Unit :=
  orReturn (ewfHdfSget form "dhcp_active") fun dhcpActive =>
  orReturn (ewfHdfSget form "dhcp_start_p3") fun dhcpStartP3 =>
  orReturn (ewfHdfSget form "dhcp_end_p3") fun dhcpEndP3 =>
  orReturn (ewfHdfSget form "dhcp_lease") fun dhcpLease =>
  match net.splitIp lanIpaddr with
  | none => tell (.formError "system") (done ())
  | some (p0, p1, p2, _) =>
    match (net.joinIp p0 p1 p2 dhcpStartP3).filter (net.validateFullIp · lanNetmask) with
    | none => tell (.varError "dhcp_start_p3" "invalid") (done ())
    | some dhcpStart =>
      match (net.joinIp p0 p1 p2 dhcpEndP3).filter (net.validateFullIp · lanNetmask) with
      | none => tell (.varError "dhcp_end_p3" "invalid") (done ())
      | some dhcpEnd =>
        ask (.config (.nvGet "lan_ipaddr")) fun (buffer : Option String) =>
          if buffer = some dhcpStart then tell (.varError "dhcp_start_p3" "invalid") (done ())
          else if buffer = some dhcpEnd then tell (.varError "dhcp_end_p3" "invalid") (done ())
          else if (net.strtol dhcpStartP3).1 ≥ (net.strtol dhcpEndP3).1 then
            tell (.formError "invalid_ip_range") (done ())
          else setDhcpRange dhcpActive dhcpStart dhcpEnd dhcpLease

/-- `FORM_HANDLER` of `/network/dhcp` -/
def networkDhcpForm (net : NetFuncs) (form : Form) : FormPart Unit :=
  orReturn (nvGet "lan_ipaddr") fun lanIpaddr =>
  orReturn (nvGet "lan_netmask") fun lanNetmask =>
  let action := ewfHdfSgetDefault form "action" "config"
  if action = "add" then dhcpAddForm net form lanIpaddr lanNetmask
  else if action = "remove" then dhcpRemoveForm net form
  else dhcpConfigForm net form lanIpaddr lanNetmask

/-! ### `/wifi/config` -/

/-- `enum wlan_chk_cpty_return` -/
inductive WlanCompatibility where
  | error11nLegacyModeAndWepInvalid
  | error11nOnlyModeAndWpaPskInvalid
  | error11nOnlyModeAndWpaWpa2PskInvalid
  | error11nOnlyModeAndWepInvalid
  | ok
  deriving DecidableEq

/-- `nbl_wlan_check_compatibility` -/
def nblWlanCheckCompatibility (wlanMode wlanEnc : String) : WlanCompatibility :=
  if wlanMode = "11g" then .ok
  else if wlanMode = "11ng" then
    if wlanEnc ≠ "WEP" then .ok else .error11nLegacyModeAndWepInvalid
  else if wlanMode = "11n" then
    if wlanEnc = "WEP" then .error11nOnlyModeAndWepInvalid
    else if wlanEnc = "WPA-PSK" then .error11nOnlyModeAndWpaPskInvalid
    else if wlanEnc = "WPA-WPA2-PSK" then .error11nOnlyModeAndWpaWpa2PskInvalid
    else .ok
  else .ok

/-- The WLAN is switched on or off: whether it has to be restarted. -/
def setApActive (apActive : String) : FormPart Bool :=
  if apActive = "off" then
    send .wlanStop (send (.wlanActive "off") (send (.nvCommit "user") (done true)))
  else if apActive = "on" then
    ask (.wlanActive "on") fun (ret : Int) =>
      if ret = nbdSuccess then send (.nvCommit "user") (done true) else done false
  else done false

/-- Two settings, one after the other. -/
def andThen (d : Part (Option Trx)) (next : Trx → Part (Option Trx)) : Part (Option Trx) :=
  d.bind fun
    | none => done none
    | some trx => next trx

/-- The channel is set. -/
def setApChannel (trx : Trx) (apChannel : String) : Part (Option Trx) :=
  if apChannel = "auto" then nvSetWtrx trx "wlan_autochannel" "\"on\"" "on"
  else
    andThen (nvSetWtrx trx "wlan_autochannel" "\"off\"" "off") fun trx =>
      nvSetWtrx trx "wlan_channel" "ap_channel" apChannel

/-- `ht40` is set, where the build has it. -/
def setApHt40 (ht40 : Bool) (trx : Trx) (apHt40 : String) : Part (Option Trx) :=
  if ht40 then nvSetWtrx trx "wlan_ht40" "ap_ht40" apHt40 else done (some trx)

/-- The end of the handlers for the WLAN, after the commit. -/
def finishWlan (restart : Bool) (ret : Int) : FormPart Unit :=
  if restart ∨ ret = nvCommitSuccess then send .wlanRestart (done ()) else done ()

/-- `FORM_HANDLER` of `/wifi/config` -/
def wifiConfigForm (ht40 : Bool) (form : Form) : FormPart Unit :=
  orReturn (nvGet "wlan_wl0_enc") fun wlanWl0Enc =>
  orReturn (ewfHdfSget form "ap_active") fun apActive =>
  orReturn (ewfHdfSget form "ap_mode") fun apMode =>
  orReturn (ewfHdfSget form "ap_ssid") fun apSsid =>
  orReturn (ewfHdfSget form "ap_closed") fun apClosed =>
  orReturn (ewfHdfSget form "ap_channel") fun apChannel =>
  let apHt40 := ewfHdfSgetDefault form "ap_ht40" "off"
  if nblWlanCheckCompatibility apMode wlanWl0Enc ≠ .ok then
    tell (.formError "enc_mode_incompatibility") (done ())
  else
    (setApActive apActive).bind fun restart =>
    orReturn nvTrxInit fun trx =>
    orReturn (nvSetWtrx trx "wlan_wl0_ssid" "ap_ssid" apSsid) fun trx =>
    orReturn (nvSetWtrx trx "wlan_closed" "ap_closed" apClosed) fun trx =>
    orReturn (setApChannel trx apChannel) fun trx =>
    orReturn (nvSetWtrx trx "wlan_mode" "ap_mode" apMode) fun trx =>
    orReturn (setApHt40 ht40 trx apHt40) fun trx =>
    (Part.toForm (nvTrxXcommit trx)).bind (finishWlan restart)

/-! ### `/wifi/security` -/

/-- The keys of the form. -/
inductive WlanKeys where
  | wep (keytype wepkey : String)
  | wpa (wpaenctype wpakey : String)

/-- The keys are read and checked; `wepkeyValid` is the check of a key against the pattern for its
type, `hexa` or not. -/
def getWlanKeys (wepkeyValid : Bool → String → Bool) (form : Form) (wlanEncryptiontype : String) :
    Part (Option WlanKeys) :=
  if wlanEncryptiontype = "WEP" then
    (ewfHdfSget form "wlan_keytype").bind fun
      | none => done none
      | some wlanKeytype =>
        match (form.query "wlan_wepkey").filter (wepkeyValid (wlanKeytype = "hexa")) with
        | none => tell (.varError "wlan_wepkey" wlanKeytype) (done none)
        | some wlanWepkey => done (some (.wep wlanKeytype wlanWepkey))
  else
    (ewfHdfSget form "wlan_wpaenctype").bind fun
      | none => done none
      | some wlanWpaenctype =>
        (ewfHdfSget form "wlan_wpakey").bind fun
          | none => done none
          | some wlanWpakey =>
            -- for a browser without scripts
            let wlanWpaenctype := if wlanEncryptiontype = "WPA2-PSK" then "aes" else wlanWpaenctype
            done (some (.wpa wlanWpaenctype wlanWpakey))

/-- The keys are set. -/
def setWlanKeys (trx : Trx) : WlanKeys → Part (Option Trx)
  | .wep keytype wepkey =>
    andThen (nvSetWtrx trx "wlan_wl0_keytype" "wlan_keytype" keytype) fun trx =>
      nvSetWtrx trx "wlan_wl0_wepkeys_n0" "wlan_wepkey" wepkey
  | .wpa wpaenctype wpakey =>
    andThen (nvSetWtrx trx "wlan_wl0_wpakey" "wlan_wpakey" wpakey) fun trx =>
      nvSetWtrx trx "wlan_wl0_enctype" "wlan_wpaenctype" wpaenctype

/-- `FORM_HANDLER` of `/wifi/security` -/
def wifiSecurityForm (wepkeyValid : Bool → String → Bool) (form : Form) : FormPart Unit :=
  orReturn (nvGet "wlan_mode") fun wlanMode =>
  orReturn (ewfHdfSget form "wlan_encryptiontype") fun wlanEncryptiontype =>
  if nblWlanCheckCompatibility wlanMode wlanEncryptiontype ≠ .ok then
    tell (.formError "enc_mode_incompatibility") (done ())
  else
    orReturn (getWlanKeys wepkeyValid form wlanEncryptiontype) fun keys =>
    orReturn nvTrxInit fun trx =>
    orReturn (nvSetWtrx trx "wlan_wl0_enc" "wlan_encryptiontype" wlanEncryptiontype) fun trx =>
    orReturn (setWlanKeys trx keys) fun trx =>
    (Part.toForm (nvTrxXcommit trx)).bind (finishWlan false)

end Neufbox.Www
