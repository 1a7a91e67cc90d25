import Neufbox.Libewf.Config
import Neufbox.Libewf.Session

/-!
# libewf access control

Model of `core/ewf_smith.c`: who may see a page, and how a user logs in and out.

SHA-256 and HMAC are parameters (`Crypto`); each of their calls may also fail for want of memory.
`ewf_smith_full_hash` does not report a failed HMAC, and the buffer then keeps what it held, so the
local buffers of `ewf_smith_login_passwd` are modelled with their contents.

`ewf_smith_login` and `ewf_smith_logout` emit the activation and the removal of a session as events
of the list (`Registry.Event`).
-/

namespace Neufbox.Libewf

open Libnbu Registry

/-- The events of the session list. -/
abbrev SessionEvent : Type := Event Unit

/-! ### Access -/

/-- `ewf_page_access_t` -/
inductive PageAccess where
  | private_
  | public_
  deriving DecidableEq

/-- `enum ewf_smith_ctl_return` -/
inductive SmithCtl where
  | notAllowed
  | success
  | authOff
  | publicPage
  deriving DecidableEq

/-- The value of the constant. -/
def SmithCtl.toInt : SmithCtl → Int
  | .notAllowed => -1000
  | .success => 0
  | .authOff => 1
  | .publicPage => 2

/-- What a request brings along for the access control: `Cookie.sid`, the outcome of the read of
`web_auth` and the clock. -/
structure Visit where
  cookieSid : Option String
  webAuth : Option String
  now : Int

/-- `ewf_smith_check_session`: whether the session is good, the list and the events. -/
def ewfSmithCheckSession (list : Sessions) (visit : Visit) :
    Bool × Sessions × List SessionEvent :=
  match visit.cookieSid with
  | none => (false, list, [])
  | some sid =>
    match ewfSessionListGet list sid with
    | none => (false, list, [])
    | some (k, session) =>
      if visit.now > session.tv + sessionTimeout then
        (false, ewfSessionListRemove list sid, list.removed (Session.hasId sid))
      else
        -- the time of the session is updated through the pointer
        (true, list.update k fun session => { session with tv := visit.now }, [])

/-- `ewf_smith_access_control` -/
def ewfSmithAccessControl (list : Sessions) (access : PageAccess) (visit : Visit) :
    SmithCtl × Sessions × List SessionEvent :=
  if configValue "web_auth" visit.webAuth = "off" then (.authOff, list, [])
  else
    match ewfSmithCheckSession list visit with
    | (true, list, events) => (.success, list, events)
    | (false, list, events) =>
      (match access with
        | .public_ => .publicPage
        | .private_ => .notAllowed, list, events)

/-! ### Passwords -/

/-- `ewf_crypto_sha256_hash` and `ewf_crypto_hmac_sha256_mac` (key, then message): what they
compute, printed as 64 hexadecimal digits. -/
structure Crypto where
  sha256 : String → String
  hmac : String → String → String
  length_sha256 : ∀ msg, (sha256 msg).length = 64
  length_hmac : ∀ key msg, (hmac key msg).length = 64

/-- The same digest for every message. -/
instance : Inhabited Crypto :=
  ⟨fun _ => String.ofList (List.replicate 64 '0'), fun _ _ => String.ofList (List.replicate 64 '0'),
    fun _ => by decide +kernel, fun _ _ => by decide +kernel⟩

/-- `enum ewf_smith_login_return`, with the values a `login_alt_method` adds. -/
inductive SmithLogin where
  | invalidSession
  | invalidArgs
  | methodNotAllowed
  | error
  | success
  | alt (code : Int)
  deriving DecidableEq

/-- `ewf_smith_hmac`: whether it succeeds, and `buf` after it.  `ok` is the outcome of the call. -/
def ewfSmithHmac (crypto : Crypto) (ok : Bool) (value hmacKey buf : String) (bufSize : ℕ) :
    Bool × String :=
  if ok then (true, nbuStringCopy bufSize (crypto.hmac hmacKey value)) else (false, buf)

/-- `ewf_smith_full_hash`.  The result of `ewf_smith_hmac` is not looked at. -/
def ewfSmithFullHash (crypto : Crypto) (shaOk hmacOk : Bool) (value hmacKey buf : String)
    (bufSize : ℕ) : Bool × String :=
  if shaOk then (true, (ewfSmithHmac crypto hmacOk (crypto.sha256 value) hmacKey buf bufSize).2)
  else (false, buf)

/-- The outcomes of the crypto calls of a login, in the order of the source. -/
structure CryptoOk where
  loginSha : Bool
  loginHmac : Bool
  passwordSha : Bool
  passwordHmac : Bool
  cfgLoginSha : Bool
  cfgLoginHmac : Bool
  cfgPasswordHmac : Bool

/-- No crypto call fails. -/
def CryptoOk.all : CryptoOk := ⟨true, true, true, true, true, true, true⟩

/-- What `ewf_smith_login_passwd` reads: the form values that are there and valid, the outcomes of
the reads of `web_login` and `web_password` and of the crypto calls, and what its buffers hold. -/
structure Credentials where
  hash : Option String
  login : Option String
  password : Option String
  webLogin : Option String
  webPassword : Option String
  ok : CryptoOk
  buf₀ : String
  login₀ : String
  password₀ : String

/-- The `hash` of the form, empty if there is none. -/
def Credentials.formHash (c : Credentials) : String :=
  match c.hash with
  | none => ""
  | some hash => nbuStringCopy (loginHashLen + passwHashLen + 1) hash

/-- The first half of `ewf_smith_login_passwd`: `login`, `password` and `buf` after it. -/
def submittedHashes (crypto : Crypto) (sid : String) (c : Credentials) :
    Except SmithLogin (String × String × String) :=
  if c.formHash.length = 0 then
    -- no hash in the form: it is computed from the login and the password
    match c.login with
    | none => .error .invalidArgs
    | some login =>
      let buf := nbuStringCopy 256 login
      match ewfSmithFullHash crypto c.ok.loginSha c.ok.loginHmac buf sid c.login₀ 65 with
      | (false, _) => .error .error
      | (true, login) =>
        match c.password with
        | none => .error .invalidArgs
        | some password =>
          let buf := nbuStringCopy 256 password
          match ewfSmithFullHash crypto c.ok.passwordSha c.ok.passwordHmac buf sid
              c.password₀ 65 with
          | (false, _) => .error .error
          | (true, password) => .ok (login, password, buf)
  else
    .ok (nbuStringCopy 65 c.formHash,
      nbuStringCopy 65 (String.ofList (c.formHash.toList.drop loginHashLen)), c.buf₀)

/-- The second half of `ewf_smith_login_passwd`: the comparison with the configuration. -/
def compareHashes (crypto : Crypto) (sid : String) (c : Credentials) (login password buf : String) :
    SmithLogin :=
  match ewfSmithFullHash crypto c.ok.cfgLoginSha c.ok.cfgLoginHmac
      (configValue "web_login" c.webLogin) sid buf 256 with
  | (false, _) => .error
  | (true, buf) =>
    if login ≠ buf then .invalidArgs
    else
      match ewfSmithHmac crypto c.ok.cfgPasswordHmac (configValue "web_password" c.webPassword) sid
          buf 256 with
      | (false, _) => .error
      | (true, buf) => if password ≠ buf then .invalidArgs else .success

/-- `ewf_smith_login_passwd` -/
def ewfSmithLoginPasswd (crypto : Crypto) (sid : String) (c : Credentials) : SmithLogin :=
  let lenHash := c.formHash.length
  if lenHash ≠ 0 ∧ lenHash ≠ loginHashLen + passwHashLen then .invalidArgs
  else
    match submittedHashes crypto sid c with
    | .error ret => ret
    | .ok (login, password, buf) => compareHashes crypto sid c login password buf

/-! ### Logging in and out -/

/-- What `ewf_smith_login` reads besides the credentials. -/
structure LoginRequest where
  zsid : Option String
  method : Option String
  webAuth : Option String
  credentials : Credentials
  /-- The result of `ewf_matrix_ops.login_alt_method`, if it is there. -/
  altMethod : Option (String → SmithLogin)
  entropy : Entropy
  inserted : Bool
  now : Int

/-- The checks of `ewf_smith_login` on a session with the id `sid`: the method has to be allowed
and its own check to succeed.  The outcome is `none` when the method is not allowed. -/
def loginOutcome (crypto : Crypto) (sid : String) (req : LoginRequest) : Option SmithLogin :=
  let method := req.method.getD "passwd"
  let auth := configValue "web_auth" req.webAuth
  if auth ≠ "all" ∧ method ≠ auth then none
  else if method = "passwd" then some (ewfSmithLoginPasswd crypto sid req.credentials)
  else
    match req.altMethod with
    | none => some .methodNotAllowed
    | some altMethod => some (altMethod method)

/-- The session becomes a good one. -/
def Session.activate (now : Int) (session : Session) : Session :=
  { session with activated := true, tv := now }

/-- `ewf_smith_login`: its result, the list, the events and the cookie `sid` it sets. -/
def ewfSmithLogin (crypto : Crypto) (list : Sessions) (req : LoginRequest) :
    SmithLogin × Sessions × List SessionEvent × Option String :=
  if req.zsid = none ∨ req.zsid = some "" then
    -- a local session, which is only added to the list when the login succeeds
    match ewfSessionCreate req.entropy with
    | none => (.error, list, [], none)
    | some session =>
      match loginOutcome crypto session.id req with
      | none => (.methodNotAllowed, list, [], none)
      | some .success =>
        match ewfSessionListAdd list session req.inserted with
        | none => (.error, list, [], none)
        | some list' => (.success, list'.update list.next (Session.activate req.now),
            [.marked list.next ()], some session.id)
      | some ret => (ret, list, [], none)
  else
    let zsid := req.zsid.getD ""
    match ewfSessionListGet list zsid with
    | none => (.invalidSession, list, [], none)
    | some (k, session) =>
      match loginOutcome crypto session.id req with
      | none => (.methodNotAllowed, list, [], none)
      | some .success => (.success, list.update k (Session.activate req.now),
          [.marked k ()], some session.id)
      | some ret =>
        -- a challenge can be tried once
        (ret, ewfSessionListRemove list zsid, list.removed (Session.hasId zsid), none)

/-- `ewf_smith_logout`: whether it succeeds, the list and the events. -/
def ewfSmithLogout (list : Sessions) (cookieSid : Option String) :
    Bool × Sessions × List SessionEvent :=
  match cookieSid with
  | none => (false, list, [])
  | some sid => ((ewfSessionListGet list sid).isSome, ewfSessionListRemove list sid,
      list.removed (Session.hasId sid))

end Neufbox.Libewf
