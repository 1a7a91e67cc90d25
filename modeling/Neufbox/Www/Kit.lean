import Neufbox.Www.Forms

/-!
# The kit

Model of the page `/kit/set`, with which an installation program sets variables (`kit/set.c`,
`kit/kit_helper.c`).  The build is the one without `CIBOX`.
-/

namespace Neufbox.Www

open Libnbd Dialogue

/-- What the page is told. -/
inductive KitNote where
  | note (n : Note)
  /-- `ewf_hdf_set` -/
  | value (name strValue : String)

/-- A part of the page. -/
abbrev KitPart (R : Type) : Type := Dialogue NbdCall NbdCall.Answer KitNote R

/-- A part that is also one of a form. -/
def Part.toKit {R : Type} (d : Part R) : KitPart R :=
  embed (A := Nbd.Answer) .config (fun _ a => a) .note d

/-- An entry of `request_name_maps`: whether `func_write` is there, which is always
`nbd_user_config_set`, and whether `access_policy` is `EWF_ACCESS_PRIVATE`. -/
structure KitVar where
  name : String
  writable : Bool
  isPrivate : Bool

def requestNameMaps : List KitVar :=
  [⟨"adsl_attenuation_down", false, false⟩, ⟨"adsl_attenuation_up", false, false⟩,
    ⟨"adsl_noise_down", false, false⟩, ⟨"adsl_noise_up", false, false⟩,
    ⟨"adsl_rate_down", false, false⟩, ⟨"adsl_rate_up", false, false⟩,
    ⟨"adsl_status", false, false⟩, ⟨"filter_simple_smtpdrop", false, false⟩,
    ⟨"hotspot_active", true, false⟩, ⟨"hotspot_mode", true, false⟩,
    ⟨"link_lan4_status", false, false⟩, ⟨"mac_addr", false, false⟩,
    ⟨"net_mode", false, false⟩, ⟨"net_data_ipaddr", false, false⟩,
    ⟨"net_data_status", false, false⟩, ⟨"ppp_login", true, false⟩,
    ⟨"ppp_password", true, false⟩, ⟨"version_mainfirmware", false, false⟩,
    ⟨"wlan_wl0_enc", true, true⟩, ⟨"wlan_wl0_keytype", true, true⟩,
    ⟨"wlan_wl0_primarykey", false, true⟩, ⟨"wlan_wl0_ssid", true, true⟩,
    ⟨"wlan_wl0_wepkeys_n0", true, true⟩, ⟨"wlan_wl0_wpakey", true, true⟩,
    ⟨"wpa_key", false, true⟩]

/-- `old_vars_compatibility_maps` -/
def oldVarsCompatibilityMaps : List (String × String) :=
  [("chilli_active", "hotspot_active"), ("chilli_mode", "hotspot_mode"),
    ("link_adsl_status", "adsl_status"), ("ppp_ipaddr", "net_data_ipaddr"),
    ("ppp_status", "net_data_status")]

/-- `_kit_helper_var_compatibility` -/
def kitHelperVarCompatibility (name : String) : String :=
  ((oldVarsCompatibilityMaps.find? fun entry => name = entry.1).map Prod.snd).getD name

/-- `kit_helper_set` -/
def kitHelperSet (name value : String) : KitPart Int :=
  let name := kitHelperVarCompatibility name
  match requestNameMaps.find? fun var => name = var.name with
  | none => done (-1)
  | some var =>
    let write : KitPart Int := if var.writable then ask (.nvSet name value) done else done (-1)
    if var.isPrivate then
      ask (.config (.statusGet "web_autologin")) fun (status : Option String) =>
        if status ≠ some "on" then done (-1) else write
    else write

/-- `FORM_HANDLER` of `/kit/set` -/
def kitSetForm (form : Form) : KitPart Unit :=
  (Part.toKit (ewfHdfSget form "name")).bind fun name =>
  (Part.toKit (ewfHdfSget form "value")).bind fun value =>
  match name, value with
  | some name, some value =>
    (kitHelperSet name value).bind fun ret =>
    tell (.value "name" name)
      (if ret = nvSetSuccess then
        ask (.nvCommit "user") fun _ => tell (.value "status" "OK") (done ())
      else if ret = nvSetUnchanged then tell (.value "status" "NC") (done ())
      else tell (.value "status" "KO") (done ()))
  | _, _ => done ()

end Neufbox.Www
