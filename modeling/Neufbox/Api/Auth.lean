import Neufbox.Api.Session
import Neufbox.Api.Values
import Neufbox.Libewf.Smith

/-!
# API authentication

Model of `ctl/auth.c`: `auth.getToken` hands out a token, the id of a new session, and
`auth.checkToken` activates the session of a token, by the service button or by the HMACs of the
login and the password under the token.

The outcome of each read of the configuration, of the status and of the clock, and of each crypto
call, is given with the request.  The activation is an event of the list, with the token of the
request and what it read (`Activation`).  `nbd_halt_webautologin`, which only talks to the daemon,
is left out.
-/

namespace Neufbox.Api

open Libewf (Session Sessions Crypto)
open Libnbu Registry

/-- What `auth.checkToken` meets, in the order of the source. -/
structure CheckTokenEnv where
  cleanerNow : Int
  webAuth : Option String
  now : Int
  hash : Option String
  webAutologin : Option String
  webLogin : Option String
  loginShaOk : Bool
  loginHmacOk : Bool
  webPassword : Option String
  passwordHmacOk : Bool
  validateClock : Option Int

/-- The request by which a session was activated. -/
structure Activation where
  token : String
  env : CheckTokenEnv

/-- What the request read lets the user in: `web_auth` allows the button, which was pushed, or it
allows the password, and the hash holds the HMACs of the stored login and password under the
token. -/
def Activation.Valid (crypto : Crypto) (act : Activation) : Prop :=
  (act.env.webAuth = some "button" ∨ act.env.webAuth = some "all" ∧ act.env.hash = none) ∧
      act.env.webAutologin = some "on" ∨
    (act.env.webAuth = some "passwd" ∨ act.env.webAuth = some "all") ∧
      ∃ login password, act.env.webLogin = some login ∧ act.env.webPassword = some password ∧
        act.env.hash = some
          (crypto.hmac act.token (crypto.sha256 login) ++ crypto.hmac act.token password)

/-- The events of the session list. -/
abbrev AuthEvent : Type := Event Activation

/-- What `auth.getToken` meets, in the order of the source. -/
structure GetTokenEnv where
  cleanerNow : Int
  cleanerNow' : Int
  webAuth : Option String
  creation : Creation
  webAuth' : Option String

/-- `auth.getToken`: the list, the events and the values of the answer. -/
def getToken (list : Sessions) (env : GetTokenEnv) (hdf : Hdf) :
    Sessions × List AuthEvent × Hdf :=
  let events := list.swept (cleanerKeeps env.cleanerNow)
  let list := (ewfSessionCleaner list env.cleanerNow).2
  if ewfSessionCount list > 64 then
    ((ewfSessionCleaner list env.cleanerNow').2,
      events ++ list.swept (cleanerKeeps env.cleanerNow'),
      apiSetCustomError hdf "201" "Max token reached")
  else
    -- the error does not keep a session from being created
    let hdf := if env.webAuth = some "off" then
        apiSetCustomError hdf "205" "Authentification disabled" else hdf
    match ewfSessionCreate list 256 env.creation with
    | none => (list, events, apiSetError hdf .unknown)
    | some (token, list) =>
      let hdf := apiSetValue hdf "auth.token" token
      (list, events, match env.webAuth' with
        | none => hdf
        | some webAuth => apiSetValue hdf "auth.method" webAuth)

/-- An error of a method, as the setter that is called for it. -/
inductive Failure where
  | error (e : ApiError)
  | custom (errId errMsg : String)

def Failure.set (hdf : Hdf) : Failure → Hdf
  | .error e => apiSetError hdf e
  | .custom errId errMsg => apiSetCustomError hdf errId errMsg

/-- `enum auth_method`, as far as it is chosen. -/
inductive AuthMethod where
  | passwd (hash : String)
  | button

/-- The choice of the method in `auth.checkToken`. -/
def chooseMethod (webAuth : String) (hash : Option String) : Except Failure AuthMethod :=
  if webAuth = "all" then
    match hash with
    | some hash => .ok (.passwd hash)
    | none => .ok .button
  else if webAuth = "button" then .ok .button
  else if webAuth = "passwd" then
    match hash with
    | some hash => .ok (.passwd hash)
    | none => .error (.error .needArg)
  else .error (.custom "205" "Authentification disabled")

/-- The button branch of `auth.checkToken`. -/
def checkButton (webAutologin : Option String) : Except Failure Unit :=
  match webAutologin with
  | none => .error (.error .unknown)
  | some status =>
    if status = "on" then .ok ()
    else .error (.custom "203" "Push button not pushed")

/-- The password branch of `auth.checkToken`. -/
def checkPasswd (crypto : Crypto) (token hash : String) (env : CheckTokenEnv) :
    Except Failure Unit :=
  let invalid : Failure := .custom "204" "Invalid login and/or password"
  if hash.length ≠ 128 then .error invalid
  else
    let argLogin := nbuStringCopy 65 hash
    let argPassword := nbuStringCopy 65 (String.ofList (hash.toList.drop 64))
    match env.webLogin with
    | none => .error (.error .unknown)
    | some login =>
      if env.loginShaOk = false then .error (.error .unknown)
      else if env.loginHmacOk = false then .error (.error .unknown)
      else if argLogin ≠ crypto.hmac token (crypto.sha256 login) then .error invalid
      else
        match env.webPassword with
        | none => .error (.error .unknown)
        | some password =>
          if env.passwordHmacOk = false then .error (.error .unknown)
          else if argPassword ≠ crypto.hmac token password then .error invalid
          else .ok ()

/-- `auth.checkToken`, from the choice of the method on. -/
def checkProof (crypto : Crypto) (token webAuth : String) (env : CheckTokenEnv) :
    Except Failure Unit :=
  match chooseMethod webAuth env.hash with
  | .error f => .error f
  | .ok .button => checkButton env.webAutologin
  | .ok (.passwd hash) => checkPasswd crypto token hash env

/-- `presession_timeout` in `auth.checkToken`. -/
def timeoutOf (webAuth : String) : Int :=
  if webAuth = "passwd" then presessionTimeoutFast else presessionTimeout

/-- `auth.checkToken`: the list, the events and the values of the answer. -/
def checkToken (crypto : Crypto) (list : Sessions) (token : Option String) (env : CheckTokenEnv)
    (hdf : Hdf) : Sessions × List AuthEvent × Hdf :=
  let events := list.swept (cleanerKeeps env.cleanerNow)
  let list := (ewfSessionCleaner list env.cleanerNow).2
  match token with
  | none => (list, events, apiSetError hdf .needArg)
  | some token =>
    match ewfSessionGet list token with
    | none => (list, events, apiSetCustomError hdf "201" "Invalid session")
    | some (k, session) =>
      match env.webAuth with
      | none => (list, events, apiSetError hdf .unknown)
      | some webAuth =>
        -- a token that was used is answered as if it did not exist
        if session.activated then (list, events, apiSetCustomError hdf "201" "Invalid session")
        else if session.tv + timeoutOf webAuth < env.now then
          (ewfSessionRemove list session.id, events ++ list.removed (Session.hasId session.id),
            apiSetCustomError hdf "202" "Session for validation timeout")
        else
          match checkProof crypto token webAuth env with
          | .error f => (list, events, f.set hdf)
          | .ok () =>
            -- the token is answered whether or not the session could be validated
            let hdf := apiSetValue hdf "auth.token" token
            match ewfSessionValidate list k env.validateClock with
            | none => (list, events, hdf)
            | some list => (list, events ++ [.marked k ⟨token, env⟩], hdf)

end Neufbox.Api
