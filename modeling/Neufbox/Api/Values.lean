import Mathlib.Data.List.Basic

/-!
# The values of an API answer

Model of the setters of `api_common.c`.  The answer to a request is rendered from a tree of named
values (`cgi->hdf`), of which only the names the API sets and their values matter here.
-/

namespace Neufbox.Api

/-- `cgi->hdf`, newest values first. -/
abbrev Hdf : Type := List (String × String)

/-- `hdf_get_value` -/
def Hdf.get (hdf : Hdf) (name : String) : Option String :=
  (hdf.find? fun entry => entry.1 = name).map Prod.snd

/-- `api_set_value` -/
def apiSetValue (hdf : Hdf) (name value : String) : Hdf :=
  (name, value) :: hdf.filter fun entry => entry.1 ≠ name

/-- `api_error_t` -/
inductive ApiError where
  | unknown
  | formatNotFound
  | methodNotFound
  | needArg
  | invalidArg
  | needAuth
  | boxUpgrading
  deriving DecidableEq

/-- `error_table` -/
def errorTable : ApiError → String × String
  | .unknown => ("0", "Unknown error")
  | .formatNotFound => ("111", "Format not found")
  | .methodNotFound => ("112", "Method not found")
  | .needArg => ("113", "Need argument(s)")
  | .invalidArg => ("114", "Invalid argument(s)")
  | .needAuth => ("115", "Need authentication")
  | .boxUpgrading => ("120", "The box being upgrade")

/-- `api_set_custom_error` -/
def apiSetCustomError (hdf : Hdf) (errId errMsg : String) : Hdf :=
  let hdf := apiSetValue hdf "stat" "fail"
  let hdf := apiSetValue hdf "err.code" errId
  apiSetValue hdf "err.msg" errMsg

/-- `api_set_error` -/
def apiSetError (hdf : Hdf) (error : ApiError) : Hdf :=
  apiSetCustomError hdf (errorTable error).1 (errorTable error).2

@[simp] theorem get_apiSetValue_self (hdf : Hdf) (name value : String) :
    (apiSetValue hdf name value).get name = some value := by
  simp [apiSetValue, Hdf.get]

theorem get_apiSetValue_of_ne (hdf : Hdf) {name name' : String} (value : String)
    (h : name ≠ name') : (apiSetValue hdf name value).get name' = hdf.get name' := by
  rw [Hdf.get, apiSetValue, List.find?_cons_of_neg (by simpa using h), List.find?_filter, Hdf.get]
  congr 2
  funext entry
  by_cases heq : entry.1 = name'
  · simp [heq, Ne.symm h]
  · simp [heq]

/-- An error can be read from the answer: that it is one, its number and its text. -/
structure Hdf.Reports (hdf : Hdf) (errId errMsg : String) : Prop where
  stat : hdf.get "stat" = some "fail"
  code : hdf.get "err.code" = some errId
  msg : hdf.get "err.msg" = some errMsg

theorem apiSetCustomError_reports (hdf : Hdf) (errId errMsg : String) :
    (apiSetCustomError hdf errId errMsg).Reports errId errMsg := by
  unfold apiSetCustomError
  refine ⟨?_, ?_, get_apiSetValue_self _ _ _⟩
  · rw [get_apiSetValue_of_ne _ _ (by decide), get_apiSetValue_of_ne _ _ (by decide),
      get_apiSetValue_self]
  · rw [get_apiSetValue_of_ne _ _ (by decide), get_apiSetValue_self]

theorem apiSetError_reports (hdf : Hdf) (error : ApiError) :
    (apiSetError hdf error).Reports (errorTable error).1 (errorTable error).2 :=
  apiSetCustomError_reports hdf _ _

end Neufbox.Api
