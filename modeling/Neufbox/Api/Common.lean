import Neufbox.Api.Auth

/-!
# API requests

Model of `api_handle_request` (`api_common.c`): the guards before a method's action handler, the
handler itself and the answer that is displayed.

The two methods of `ctl/auth.c` are the only handlers that use the sessions; every other handler is
any function on the values of the answer.  No handler displays an answer itself.
-/

namespace Neufbox.Api

open Libewf (Session Sessions Crypto)
open Libnbu Registry

/-- `ewf_http_request_method_t` -/
inductive HttpMethod where
  | unknown
  | get
  | post
  | put
  | delete
  deriving DecidableEq

/-- `api_access_policy_t` -/
inductive AccessPolicy where
  | public_
  | private_
  deriving DecidableEq

/-- The action handlers, with what they will meet. -/
inductive Action where
  | getToken (env : GetTokenEnv)
  | checkToken (env : CheckTokenEnv)
  | other (handler : Hdf → Hdf)

/-- `api_method_t` -/
structure Method where
  requestMethod : HttpMethod
  accessPolicy : AccessPolicy
  actionHandler : Option Action

/-- A request, with the outcomes of the reads `api_handle_request` makes. -/
structure Request where
  m : Option Method
  name : String
  reqm : HttpMethod
  token : Option String
  autoconfStatus : Option String
  webAuth : Option String
  clock : Option Int
  hdf : Hdf

/-- What became of a request: the list, its events, whether the action handler was run, and the
answers that were displayed, as template and values. -/
structure Handled where
  list : Sessions
  events : List AuthEvent
  ran : Bool
  displays : List (String × Hdf)

def genericXml : String := "api/generic.xml"

/-- `nbd_autoconf_get("status")` succeeded with a value that begins with `downloading`. -/
def Request.downloading (req : Request) : Bool :=
  match req.autoconfStatus with
  | none => false
  | some buf => nbuStringNcompare "downloading" 11 buf

/-- The check of the access policy: whether the handler may run, the list, the events and the
values of the answer. -/
def checkAccess (list : Sessions) (policy : AccessPolicy) (req : Request) (hdf : Hdf) :
    Bool × Sessions × List AuthEvent × Hdf :=
  match policy with
  | .public_ => (true, list, [], hdf)
  | .private_ =>
    if req.webAuth = some "off" then (true, list, [], hdf)
    else
      match req.token with
      | none => (false, list, [], apiSetError hdf .needAuth)
      | some token =>
        match ewfSessionGet list token with
        | none => (false, list, [], apiSetError hdf .needAuth)
        | some (k, session) =>
          match ewfSessionCheck list k session req.clock with
          | (false, list, events) => (false, list, events, apiSetError hdf .needAuth)
          | (true, list, events) => (true, list, events, hdf)

/-- The action handler of a method. -/
def Action.run (crypto : Crypto) (list : Sessions) (token : Option String) (hdf : Hdf) :
    Action → Sessions × List AuthEvent × Hdf
  | .getToken env => Api.getToken list env hdf
  | .checkToken env => Api.checkToken crypto list token env hdf
  | .other handler => (list, [], handler hdf)

/-- The template of the answer after the handler, and its values. -/
def answer (name : String) (reqm : HttpMethod) (hdf : Hdf) : String × Hdf :=
  if hdf.get "stat" = some "fail" then (genericXml, hdf)
  else
    (if reqm = .get then nbuStringCopy 256 ("api/" ++ name ++ ".xml") else genericXml,
      apiSetValue hdf "stat" "ok")

/-- `api_handle_request`, from the check of the access policy on.  `displays` are the answers
displayed so far. -/
def handleAction (crypto : Crypto) (list : Sessions) (policy : AccessPolicy) (action : Action)
    (req : Request) (hdf : Hdf) (displays : List (String × Hdf)) : Handled :=
  match checkAccess list policy req hdf with
  | (false, list, events, hdf) => ⟨list, events, false, displays ++ [(genericXml, hdf)]⟩
  | (true, list, events, hdf) =>
    let (list, events', hdf) := action.run crypto list req.token hdf
    ⟨list, events ++ events', true, displays ++ [answer req.name req.reqm hdf]⟩

/-- The outcome of a request that names no method to call. -/
def notFound (list : Sessions) (req : Request) : Handled :=
  ⟨list, [], false, [(genericXml, apiSetError req.hdf .methodNotFound)]⟩

/-- The answer to a request while the box is being upgraded. -/
def Request.upgrading (req : Request) : String × Hdf :=
  (genericXml, apiSetError req.hdf .boxUpgrading)

/-- `api_handle_request` -/
def apiHandleRequest (crypto : Crypto) (list : Sessions) (req : Request) : Handled :=
  match req.m with
  | none => notFound list req
  | some m =>
    if req.reqm ≠ m.requestMethod then notFound list req
    else
      match m.actionHandler with
      | none => notFound list req
      | some action =>
        if req.downloading then
          -- the error is displayed, and the request goes on
          handleAction crypto list m.accessPolicy action req req.upgrading.2 [req.upgrading]
        else handleAction crypto list m.accessPolicy action req req.hdf []

/-- One request of a run. -/
def step (crypto : Crypto) (list : Sessions) (req : Request) : Sessions × List AuthEvent :=
  let handled := apiHandleRequest crypto list req
  (handled.list, handled.events)

/-! ### The paths through a request -/

section

variable (crypto : Crypto) (list : Sessions) {req : Request} {m : Method} {action : Action}

/-- The handler runs exactly when the check of the access policy lets the request through. -/
theorem handleAction_cases (policy : AccessPolicy) (action : Action) (req : Request) (hdf : Hdf)
    (displays : List (String × Hdf)) :
    let check := checkAccess list policy req hdf
    let r := action.run crypto check.2.1 req.token check.2.2.2
    (check.1 = false ∧ handleAction crypto list policy action req hdf displays
        = ⟨check.2.1, check.2.2.1, false, displays ++ [(genericXml, check.2.2.2)]⟩) ∨
      (check.1 = true ∧ handleAction crypto list policy action req hdf displays
        = ⟨r.1, check.2.2.1 ++ r.2.1, true, displays ++ [answer req.name req.reqm r.2.2]⟩) := by
  unfold handleAction
  rcases checkAccess list policy req hdf with ⟨allowed, list', events, hdf'⟩
  cases allowed with
  | false => exact .inl ⟨rfl, rfl⟩
  | true => exact .inr ⟨rfl, rfl⟩

/-- A request for a method that is there goes to its handler, with the error of the upgrade already
displayed while there is a download. -/
theorem apiHandleRequest_eq (hm : req.m = some m) (hreqm : req.reqm = m.requestMethod)
    (haction : m.actionHandler = some action) :
    apiHandleRequest crypto list req =
      if req.downloading then
        handleAction crypto list m.accessPolicy action req req.upgrading.2 [req.upgrading]
      else handleAction crypto list m.accessPolicy action req req.hdf [] := by
  unfold apiHandleRequest
  simp only [hm, hreqm, haction, ne_eq, not_true_eq_false, if_false]

/-- A request is either refused at once or goes to the handler of its method. -/
theorem apiHandleRequest_cases (req : Request) :
    apiHandleRequest crypto list req = notFound list req ∨
    ∃ m action hdf displays, req.m = some m ∧ m.actionHandler = some action ∧
      (∀ answer ∈ displays, answer = req.upgrading) ∧
      apiHandleRequest crypto list req =
        handleAction crypto list m.accessPolicy action req hdf displays := by
  rcases hm : req.m with - | m
  · left
    simp [apiHandleRequest, hm]
  · rcases haction : m.actionHandler with - | action
    · left
      simp [apiHandleRequest, hm, haction]
    · by_cases hreqm : req.reqm = m.requestMethod
      · right
        rw [apiHandleRequest_eq crypto list hm hreqm haction]
        split_ifs
        · exact ⟨m, action, _, _, rfl, haction, fun _ h => List.mem_singleton.mp h, rfl⟩
        · exact ⟨m, action, req.hdf, [], rfl, haction, fun _ h => (nomatch h), rfl⟩
      · left
        simp [apiHandleRequest, hm, hreqm]

end

end Neufbox.Api
