import Neufbox.Lib.Dialogue
import Neufbox.Libewf.Smith
import Neufbox.Libnbd.Requests

/-!
# The administration page

Model of the form of `/maintenance/admin` (`wui/maintenance_admin.c`), which changes `web_auth`,
`web_login` and `web_password`, with the macros of `dbl.h` it is written with.  The build is the one
without `CIBOX`.

The handler is a program that talks to the daemon: which requests it sends depends on the answers.
What it writes to the page is reported as notes.  The macros return from the handler; a part of it
that may do so results in `none` then.
-/

namespace Neufbox.Www

open Libewf Libnbd Libnbu

/-- What the handler writes to the page. -/
inductive Note where
  /-- `ewf_hdf_form_set_error` -/
  | formError (errorId : String)
  /-- `ewf_hdf_set_error` -/
  | varError (varName errorId : String)
  /-- `ewf_hdf_form_set_success` -/
  | formSuccess (successId : String)
  /-- `ewf_utils_redirect` -/
  | redirect (uri : String)
  deriving DecidableEq

/-- A part of the handler. -/
abbrev Part (R : Type) : Type := Dialogue Nbd Nbd.Answer Note R

open Dialogue

/-- The values of a form, and which of them `ewf_hdf_validate` accepts. -/
structure Form where
  query : String → Option String
  valid : String → String → Bool

/-- `ewf_hdf_sget` -/
def ewfHdfSget (form : Form) (varName : String) : Part (Option String) :=
  match form.query varName with
  | none => done none
  | some val =>
    if form.valid varName val then done (some val)
    else tell (.varError varName "value") (done none)

/-- What `ewf_hdf_sget` gives for the name. -/
def Form.value (form : Form) (name : String) : Option String :=
  (form.query name).filter (form.valid name)

theorem ewfHdfSget_of_value {form : Form} {name : String} :
    ewfHdfSget form name = done (form.value name) ∨
      ewfHdfSget form name = tell (.varError name "value") (done (form.value name)) := by
  unfold ewfHdfSget Form.value
  cases form.query name with
  | none => exact .inl rfl
  | some val =>
    rw [Option.filter_some]
    dsimp only
    split_ifs
    · exact .inl rfl
    · exact .inr rfl

/-! ### Transactions -/

/-- `struct trx`; `dirty` is whether `sum_set_stat` is -1. -/
structure Trx where
  id : Int
  dirty : Bool

/-- `NV_TRX_INIT` -/
def nvTrxInit : Part (Option Trx) :=
  ask .cursorNew fun (id : Int) =>
    if id ≤ 0 then tell (.formError "system") (done none) else done (some ⟨id, false⟩)

/-- `NV_SET_WTRX`; `hdfname` is the name of the variable that is passed as value. -/
def nvSetWtrx (trx : Trx) (nvname hdfname value : String) : Part (Option Trx) :=
  ask (.cset trx.id nvname value) fun (ret : Int) =>
    if ret = nvSetSuccess ∨ ret = nvSetUnchanged then done (some trx)
    else if ret = nvSetInvalidValue then
      tell (.varError hdfname "value") (done (some { trx with dirty := true }))
    else tell (.formError "system") (ask (.cursorClose trx.id) fun _ => done none)

/-- `NV_TRX_XCOMMIT` -/
def nvTrxXcommit (trx : Trx) : Part Int :=
  if trx.dirty then ask (.cursorClose trx.id) fun _ => done nvCommitUnchanged
  else ask (.cursorCommit trx.id) fun ret => ask (.cursorClose trx.id) fun _ => done ret

/-! ### The form -/

/-- `get_validation_method` -/
def getValidationMethod : Part (Option String) :=
  ask (.nvGet "web_auth") fun
    | none => done none
    | some webAuth => done (some (if webAuth = "off" ∨ webAuth = "button" then "button"
        else "passwd"))

/-- The check of the old login and the old password; `shaOk` is the outcome of the hash. -/
def checkOldPasswd (crypto : Crypto) (shaOk : Bool) (form : Form) : Part (Option Unit) :=
  (ewfHdfSget form "web_old_login").bind fun
    | none => done none
    | some webOldLogin =>
      (ewfHdfSget form "web_old_password").bind fun
        | none => done none
        | some webOldPassword =>
          ask (.nvGet "web_login") fun
            | none => done none
            | some webCurrLogin =>
              ask (.nvGet "web_password") fun
                | none => done none
                | some webCurrPassword =>
                  if webCurrLogin ≠ webOldLogin then
                    tell (.varError "web_old_login" "no_match") (done none)
                  else if shaOk = false then tell (.formError "unknown") (done none)
                  else if webCurrPassword ≠ crypto.sha256 webOldPassword then
                    tell (.varError "web_old_password" "no_match") (done none)
                  else done (some ())

/-- The check of the service button. -/
def checkAutologin : Part (Option Unit) :=
  ask (.statusGet "web_autologin") fun
    | none => done none
    | some webAutologin =>
      if webAutologin ≠ "on" then tell (.formError "autologin_off") (done none) else done (some ())

/-- The check before anything is set: the method by which the user proved who they are. -/
def checkIdentity (crypto : Crypto) (shaOk : Bool) (form : Form) : Part (Option String) :=
  getValidationMethod.bind fun
    | none => tell (.formError "system") (done none)
    | some checkmethod =>
      (if checkmethod = "passwd" then checkOldPasswd crypto shaOk form
        else if checkmethod = "button" then checkAutologin
        else done (some ())).bind fun
        | none => done none
        | some () => done (some checkmethod)

/-- What `web_login` and `web_password` are set to; a password that is empty is not changed. -/
structure NewLogin where
  webLogin : String
  webPasswordHash : Option String

/-- The new login and password of the form. -/
def getNewLogin (crypto : Crypto) (shaOk : Bool) (form : Form) : Part (Option NewLogin) :=
  (ewfHdfSget form "web_login").bind fun
    | none => done none
    | some webLogin =>
      (ewfHdfSget form "web_password").bind fun
        | none => done none
        | some webPassword =>
          (ewfHdfSget form "web_password_check").bind fun
            | none => done none
            | some webPasswordCheck =>
              if webPassword.length > 0 then
                if webPassword ≠ webPasswordCheck then
                  tell (.varError "web_password" "no_match") (done none)
                else if shaOk = false then tell (.formError "unknown") (done none)
                else done (some ⟨webLogin, some (nbuStringCopy 65 (crypto.sha256 webPassword))⟩)
              else done (some ⟨webLogin, none⟩)

/-- The settings of `web_login` and `web_password`. -/
def setNewLogin (trx : Trx) : Option NewLogin → Part (Option Trx)
  | none => done (some trx)
  | some new =>
    (nvSetWtrx trx "web_login" "web_login" new.webLogin).bind fun
      | none => done none
      | some trx =>
        match new.webPasswordHash with
        | none => done (some trx)
        | some hash => nvSetWtrx trx "web_password" "web_password_hash" hash

/-- The end of the handler, after the commit. -/
def finishAdmin (checkmethod webAuth : String) (ret : Int) : Part Unit :=
  let redirected := if webAuth = "off" then tell (.redirect "/maintenance/admin") (done ())
    else done ()
  if ret = nvCommitSuccess then
    tell (.formSuccess "done")
      (if checkmethod = "button" then ask .haltWebautologin fun _ => redirected else redirected)
  else done ()

/-- The handler from `NV_TRX_INIT` on. -/
def setCredentials (checkmethod webAuth : String) (new : Option NewLogin) : Part Unit :=
  nvTrxInit.bind fun
    | none => done ()
    | some trx =>
      (nvSetWtrx trx "web_auth" "web_auth" webAuth).bind fun
        | none => done ()
        | some trx =>
          (setNewLogin trx new).bind fun
            | none => done ()
            | some trx => (nvTrxXcommit trx).bind (finishAdmin checkmethod webAuth)

/-- The handler after the check of the identity: the list and the events. -/
def changeCredentials (crypto : Crypto) (shaOk : Bool) (form : Form) (list : Sessions)
    (cookieSid : Option String) (checkmethod webAuth : String) :
    Part (Sessions × List SessionEvent) :=
  if webAuth = "all" ∨ webAuth = "passwd" then
    (getNewLogin crypto shaOk form).bind fun
      | none => done (list, [])
      | some new => (setCredentials checkmethod webAuth (some new)).bind fun _ => done (list, [])
  else
    (setCredentials checkmethod webAuth none).bind fun _ =>
      -- the session of the user is removed before the first request
      done (if webAuth = "off" then (ewfSmithLogout list cookieSid).2 else (list, []))

/-- `FORM_HANDLER` of `/maintenance/admin`: the list and the events.  `oldShaOk` and `shaOk` are the
outcomes of the hashes of the old and of the new password. -/
def adminFormHandler (crypto : Crypto) (oldShaOk shaOk : Bool) (form : Form) (list : Sessions)
    (cookieSid : Option String) : Part (Sessions × List SessionEvent) :=
  (ewfHdfSget form "web_auth").bind fun
    | none => done (list, [])
    | some webAuth =>
      (checkIdentity crypto oldShaOk form).bind fun
        | none => done (list, [])
        | some checkmethod =>
          changeCredentials crypto shaOk form list cookieSid checkmethod webAuth

end Neufbox.Www
