import Neufbox.Libewf.Controller

/-!
# The web site of the box

Model of the pages of `efixo-www` that touch the session list: `wui/login.c`, `wui/logout.c` and
the form of `wui/maintenance_admin.c`, with the alternative login method of `main.c`.  The handlers
of all the other pages leave the sessions alone.
-/

namespace Neufbox.Www

open Libewf Libnbu

def webappSmithAutologinOff : Int := -500

/-- `webapp_alt_login`; `webAutologin` is the outcome of the read of that status. -/
def webappAltLogin (webAutologin : Option String) (method : String) : SmithLogin :=
  if method = "button" then
    if webAutologin = some "on" then .success else .alt webappSmithAutologinOff
  else .methodNotAllowed

/-- What the form of `/login` answers: a redirection, or `Error.login`. -/
inductive LoginAnswer where
  | redirect (page : String)
  | error (referer text : String)
  deriving DecidableEq

/-- The value of `Error.login`. -/
def loginErrorText : SmithLogin → String
  | .invalidArgs => "LOGINORPASS_INVALID"
  | .invalidSession => "SESSION_INVALID"
  | .methodNotAllowed => "METHOD_NOT_ALLOWED"
  | .alt code => if code = webappSmithAutologinOff then "AUTOLOGIN_OFF" else "SYSTEM_ERROR"
  | .error => "SYSTEM_ERROR"
  | .success => "SYSTEM_ERROR"

/-- A request, with what its handlers will meet. -/
structure Request where
  visit : Visit
  /-- The form value `action`, if it is there and valid. -/
  action : Option String
  /-- The form value `page_ref`, if it is there and valid. -/
  pageRef : Option String
  login : LoginRequest
  /-- The form of `/maintenance/admin` passes its checks and sets `web_auth` to `off`. -/
  adminOff : Bool

/-- `page_ref_norm` -/
def pageRefNorm (req : Request) : String :=
  match req.pageRef with
  | none => nbuStringCopy 64 uriPageLogin
  | some pageRef => nbuStringCopy 64 (if pageRef ≠ uriPageLogin then pageRef else uriPageLogin)

/-- `FORM_HANDLER` of `/login` -/
def loginFormHandler (crypto : Crypto) (req : Request) (list : Sessions) :
    LoginAnswer × Sessions × List SessionEvent :=
  let (ret, list, events, _) := ewfSmithLogin crypto list req.login
  (if ret = .success then .redirect (pageRefNorm req)
    else .error (pageRefNorm req) (loginErrorText ret), list, events)

/-- `AJAX_HANDLER` of `/login`: the challenge it answers, the list and the events. -/
def loginAjaxHandler (req : Request) (list : Sessions) :
    Option String × Sessions × List SessionEvent :=
  if req.action = some "challenge" then
    match ewfSessionCreate req.login.entropy with
    | none => (none, list, [])
    | some session =>
      match ewfSessionListAdd list session req.login.inserted with
      | none => (none, list, [])
      | some list => (some session.id, list, [])
  else (none, list, [])

/-- The handlers of the site, as far as they differ in what they do with the sessions. -/
inductive Handler where
  | loginForm
  | loginAjax
  | logoutDisplay
  | adminForm
  | other
  deriving DecidableEq

/-- What a handler does with the sessions. -/
def Handler.run (crypto : Crypto) (req : Request) : Handler → Sessions →
    Sessions × List SessionEvent
  | .loginForm, list => (loginFormHandler crypto req list).2
  | .loginAjax, list => (loginAjaxHandler req list).2
  | .logoutDisplay, list => (ewfSmithLogout list req.visit.cookieSid).2
  | .adminForm, list =>
    if req.adminOff then (ewfSmithLogout list req.visit.cookieSid).2 else (list, [])
  | .other, list => (list, [])

def loginPage : Page Handler :=
  ⟨uriPageLogin, .public_, some .other, some .loginForm, some .loginAjax⟩

/-- One web request: the kind of request, the page and what it meets. -/
structure Hit where
  type : RequestType
  page : Page Handler
  req : Request

/-- The list after a request, and its events. -/
def serve (crypto : Crypto) (list : Sessions) (hit : Hit) : Sessions × List SessionEvent :=
  ewfController (Handler.run crypto hit.req) list hit.type hit.page hit.req.visit

end Neufbox.Www
