import Neufbox.Api.Auth
import Neufbox.Lib.Dialogue
import Neufbox.Libnbd.Requests
import Neufbox.Www.Site

/-!
# The service button

The web server and the API are two processes with a session list each, and both let a user in who
has pushed the service button.  The daemon reports `web_autologin` as `on` from a push until a
`halt_webautologin` request.  Each process reads it, activates a session and then sends the
`halt_webautologin`, as separate requests to the daemon.

The login requests of the two processes are programs that talk to the daemon (`Serving`): which
request comes next depends on the answers.  What they compute from the answers is what the models of
`ewf_smith_login` and of `ctl/auth.c` say.  The event they report is that a session is activated by
the button.  Reads of the status that only display it are left out.

`step` is the box: pushes of the button, and the two processes, whose requests the daemon answers
one at a time.
-/

namespace Neufbox.Box

open Libewf (Session Sessions Crypto LoginRequest SmithLogin configValue)
open Libnbd Libnbu Dialogue

/-- A login request being served: it results in the session list. -/
abbrev Serving : Type := Dialogue Nbd Nbd.Answer Unit Sessions

/-! ### The web server -/

/-- The session of a login form: the one it names, or a new one. -/
def formSession (list : Sessions) (req : LoginRequest) : Option Session :=
  if req.zsid = none ∨ req.zsid = some "" then Libewf.ewfSessionCreate req.entropy
  else (Libewf.ewfSessionListGet list (req.zsid.getD "")).map Prod.snd

/-- The reads of `ewf_smith_login_passwd`. -/
def readPasswd (crypto : Crypto) (sid : String) (req : LoginRequest) :
    Dialogue Nbd Nbd.Answer Unit LoginRequest :=
  let c := req.credentials
  let lenHash := c.formHash.length
  if lenHash ≠ 0 ∧ lenHash ≠ Libewf.loginHashLen + Libewf.passwHashLen then done req
  else
    match Libewf.submittedHashes crypto sid c with
    | .error _ => done req
    | .ok (login, _, buf) =>
      ask (.nvGet "web_login") fun (webLogin : Option String) =>
        let c := { c with webLogin }
        match Libewf.ewfSmithFullHash crypto c.ok.cfgLoginSha c.ok.cfgLoginHmac
            (configValue "web_login" webLogin) sid buf 256 with
        | (false, _) => done { req with credentials := c }
        | (true, buf) =>
          if login ≠ buf then done { req with credentials := c }
          else ask (.nvGet "web_password") fun (webPassword : Option String) =>
            done { req with credentials := { c with webPassword } }

/-- The end of the login, when everything is read: after a success the button is reset. -/
def finishLogin (crypto : Crypto) (list : Sessions) (req : LoginRequest) : Serving :=
  let (ret, list, _) := Libewf.ewfSmithLogin crypto list req
  if ret = .success then
    let halt : Serving := ask .haltWebautologin fun _ => done list
    if req.method.getD "passwd" = "passwd" then halt else tell () halt
  else done list

/-- `FORM_HANDLER` of `/login`, with `ewf_smith_login` and `webapp_alt_login`. -/
def loginForm (crypto : Crypto) (list : Sessions) (req : LoginRequest) : Serving :=
  match formSession list req with
  | none => done list
  | some session =>
    ask (.nvGet "web_auth") fun (webAuth : Option String) =>
      let req := { req with webAuth }
      let method := req.method.getD "passwd"
      let auth := configValue "web_auth" webAuth
      if auth ≠ "all" ∧ method ≠ auth then finishLogin crypto list req
      else if method = "passwd" then
        (readPasswd crypto session.id req).bind (finishLogin crypto list)
      else if method = "button" then
        ask (.statusGet "web_autologin") fun (webAutologin : Option String) =>
          finishLogin crypto list { req with altMethod := some (Www.webappAltLogin webAutologin) }
      else finishLogin crypto list { req with altMethod := some (Www.webappAltLogin none) }

/-! ### The API -/

/-- `auth.getToken` -/
def getToken (list : Sessions) (env : Api.GetTokenEnv) : Serving :=
  let cleaned := (Api.ewfSessionCleaner list env.cleanerNow).2
  if Api.ewfSessionCount cleaned > 64 then done (Api.getToken list env []).1
  else
    ask (.nvGet "web_auth") fun (webAuth : Option String) =>
      let env := { env with webAuth }
      match Api.ewfSessionCreate cleaned 256 env.creation with
      | none => done (Api.getToken list env []).1
      | some _ => ask (.nvGet "web_auth") fun (webAuth' : Option String) =>
          done (Api.getToken list { env with webAuth' } []).1

/-- The reads of the password branch of `auth.checkToken`. -/
def readHash (crypto : Crypto) (token hash : String) (env : Api.CheckTokenEnv) :
    Dialogue Nbd Nbd.Answer Unit Api.CheckTokenEnv :=
  if hash.length ≠ 128 then done env
  else
    ask (.nvGet "web_login") fun (webLogin : Option String) =>
      let env := { env with webLogin }
      match webLogin with
      | none => done env
      | some login =>
        if env.loginShaOk ∧ env.loginHmacOk ∧
            nbuStringCopy 65 hash = crypto.hmac token (crypto.sha256 login) then
          ask (.nvGet "web_password") fun (webPassword : Option String) =>
            done { env with webPassword }
        else done env

/-- The end of the button branch of `auth.checkToken`: the session is activated, if there is a
clock, and the button is reset. -/
def finishButton (validated : Bool) (list : Sessions) : Serving :=
  let halt : Serving := ask .haltWebautologin fun _ => done list
  if validated then tell () halt else halt

/-- `auth.checkToken` -/
def checkToken (crypto : Crypto) (list : Sessions) (token : Option String)
    (env : Api.CheckTokenEnv) : Serving :=
  let finish env := (Api.checkToken crypto list token env []).1
  match token with
  | none => done (finish env)
  | some token =>
    match Api.ewfSessionGet (Api.ewfSessionCleaner list env.cleanerNow).2 token with
    | none => done (finish env)
    | some (_, session) =>
      ask (.nvGet "web_auth") fun (webAuth : Option String) =>
        let env := { env with webAuth }
        match webAuth with
        | none => done (finish env)
        | some webAuth =>
          if session.activated ∨ session.tv + Api.timeoutOf webAuth < env.now then
            done (finish env)
          else
            match Api.chooseMethod webAuth env.hash with
            | .error _ => done (finish env)
            | .ok (.passwd hash) => (readHash crypto token hash env).bind fun env =>
                done (finish env)
            | .ok .button =>
              ask (.statusGet "web_autologin") fun (webAutologin : Option String) =>
                let env := { env with webAutologin }
                if webAutologin = some "on" then finishButton env.validateClock.isSome (finish env)
                else done (finish env)

/-! ### The box -/

/-- The two processes. -/
inductive Side where
  | web
  | api
  deriving DecidableEq

def Side.other : Side → Side
  | .web => .api
  | .api => .web

/-- A login request. -/
inductive Call where
  /-- The form of `/login`. -/
  | form (req : LoginRequest)
  /-- `AJAX_HANDLER` of `/login`, which hands out a challenge. -/
  | challenge (req : Www.Request)
  | getToken (env : Api.GetTokenEnv)
  | checkToken (token : Option String) (env : Api.CheckTokenEnv)

def Call.side : Call → Side
  | .form _ | .challenge _ => .web
  | .getToken _ | .checkToken _ _ => .api

def Call.serve (crypto : Crypto) (list : Sessions) : Call → Serving
  | .form req => loginForm crypto list req
  | .challenge req => done (Www.loginAjaxHandler req list).2.1
  | .getToken env => Box.getToken list env
  | .checkToken token env => Box.checkToken crypto list token env

/-- A process: its session list, and what it is serving. -/
structure Proc where
  list : Sessions
  task : Option Serving

/-- The daemon's `web_autologin`, the number of pushes so far and the processes. -/
structure State where
  on : Bool
  pushes : ℕ
  procs : Side → Proc

/-- Before the first push and the first request. -/
def State.init : State := ⟨false, 0, fun _ => ⟨Registry.empty, none⟩⟩

/-- What happens next. -/
inductive Op where
  | push
  | start (call : Call)
  /-- A request of another kind changes the list of an idle process. -/
  | elsewhere (side : Side) (list : Sessions)
  /-- The daemon answers the request of a process, with the value if a setting was asked for. -/
  | answer (side : Side) (value : Option String)

/-- A session was activated by the button, after so many pushes. -/
structure Activated where
  side : Side
  push : ℕ
  deriving DecidableEq

/-- What the daemon answers, and `web_autologin` after it.  The login requests send no other
requests than the first three. -/
def respond (on : Bool) (value : Option String) : (q : Nbd) → q.Answer × Bool
  | .nvGet _ => (value, on)
  | .statusGet key =>
    (if key = "web_autologin" then some (if on then "on" else "off") else value, on)
  | .haltWebautologin => ((0 : Int), false)
  | .cursorNew | .cset _ _ _ | .cursorCommit _ | .cursorClose _ => ((0 : Int), on)

/-- A process that goes on with a program: at its end it has a new list. -/
def Proc.resume (list : Sessions) : Serving → Proc
  | .done list' => ⟨list', none⟩
  | d => ⟨list, some d⟩

/-- The request a process waits for the answer of. -/
def Proc.pending (proc : Proc) : Option Nbd :=
  match proc.task with
  | some (.ask q _) => some q
  | _ => none

def State.set (box : State) (side : Side) (proc : Proc) : State :=
  { box with procs := Function.update box.procs side proc }

/-- A process goes on up to its next request. -/
def advance (box : State) (side : Side) (d : Serving) : State × List Activated :=
  (box.set side (.resume (box.procs side).list d.settle.2),
    d.settle.1.map fun _ => ⟨side, box.pushes⟩)

/-- One step of the box. -/
def step (crypto : Crypto) (box : State) : Op → State × List Activated
  | .push => ({ box with on := true, pushes := box.pushes + 1 }, [])
  | .start call =>
    match (box.procs call.side).task with
    | none => advance box call.side (call.serve crypto (box.procs call.side).list)
    | some _ => (box, [])
  | .elsewhere side list =>
    match (box.procs side).task with
    | none => (box.set side ⟨list, none⟩, [])
    | some _ => (box, [])
  | .answer side value =>
    match (box.procs side).task with
    | some (.ask q next) =>
      advance { box with on := (respond box.on value q).2 } side (next (respond box.on value q).1)
    | _ => (box, [])

end Neufbox.Box
