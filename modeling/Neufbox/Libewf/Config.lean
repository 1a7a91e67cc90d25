import Mathlib.Data.List.Basic

/-!
# libewf configuration

Model of `core/ewf_config.c`.  `ewf_config_get` asks the backend (`ewf_matrix_ops.conf_get`) and,
when that fails or there is none, falls back to a table of its own.  The outcome of the backend's
read is an argument: the value it stored, or `none` for a failure.
-/

namespace Neufbox.Libewf

/-- `conf_default_value` -/
def confDefaultValue : List (String × String) := [
  ("web_lang", "en"),
  ("web_auth", "off"),
  ("web_login", "admin"),
  ("web_password", ""),
  ("web_theme_uri", "local://default")]

/-- `ewf_config_get`: the value it stores, or `none` for `EWF_ERROR`. -/
def ewfConfigGet (name : String) (confGet : Option String) : Option String :=
  match confGet with
  | some value => some value
  | none => (confDefaultValue.find? fun entry => entry.1 = name).map Prod.snd

/-- `ewf_config_get` by a caller that does not look at its result: an error leaves the empty
string. -/
def configValue (name : String) (confGet : Option String) : String :=
  (ewfConfigGet name confGet).getD ""

end Neufbox.Libewf
