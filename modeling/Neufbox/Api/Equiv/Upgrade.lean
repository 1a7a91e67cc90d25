import Neufbox.Api.Common

/-!
# The answers of the API

A request whose handler is not run is answered with errors only (`displays_of_not_ran`).

While the daemon is downloading a new firmware, a request should get the answer "the box being
upgrade" and nothing else.  `api_handle_request` displays that answer, and then goes on as if
nothing had happened: the method's handler may run, and a second answer is displayed
(`length_displays`).  So the lock holds for the requests that find no download, and for no other
(`upgrade_lock_iff`).
-/

namespace Neufbox.Api

open Libewf (Sessions Crypto)
open Registry

/-! ### Refused requests -/

theorem checkAccess_refused {list : Sessions} {policy : AccessPolicy} {req : Request} {hdf : Hdf}
    (h : (checkAccess list policy req hdf).1 = false) :
    (checkAccess list policy req hdf).2.2.2 = apiSetError hdf .needAuth := by
  revert h
  unfold checkAccess
  -- every path without the authorization sets the same error
  split
  · exact fun h => nomatch h
  · split_ifs
    · exact fun h => nomatch h
    · split
      · exact fun _ => rfl
      · split
        · exact fun _ => rfl
        · split
          · exact fun _ => rfl
          · exact fun h => nomatch h

/-- **Refused requests**: all answers to a request whose handler is not run report an error of the
table. -/
theorem displays_of_not_ran (crypto : Crypto) (list : Sessions) (req : Request)
    (h : (apiHandleRequest crypto list req).ran = false) :
    ∀ answer ∈ (apiHandleRequest crypto list req).displays, answer.1 = genericXml ∧
      ∃ error, answer.2.Reports (errorTable error).1 (errorTable error).2 := by
  intro answer hanswer
  rcases apiHandleRequest_cases crypto list req with
    heq | ⟨m, action, hdf, displays, -, -, hdisplays, heq⟩
  · rw [heq] at hanswer
    rw [List.mem_singleton.mp hanswer]
    exact ⟨rfl, _, apiSetError_reports _ _⟩
  · rw [heq] at h hanswer
    rcases handleAction_cases crypto list m.accessPolicy action req hdf displays with
      ⟨hallowed, heq'⟩ | ⟨-, heq'⟩
    · rw [heq'] at hanswer
      rcases List.mem_append.mp hanswer with hmem | hmem
      · rw [hdisplays answer hmem]
        exact ⟨rfl, _, apiSetError_reports _ _⟩
      · rw [List.mem_singleton.mp hmem, checkAccess_refused hallowed]
        exact ⟨rfl, _, apiSetError_reports _ _⟩
    · rw [heq'] at h
      exact absurd h Bool.true_eq_false.mp

/-! ### Upgrades -/

/-- The check of the access policy and the handler display one answer, after what was displayed
before. -/
theorem displays_handleAction (crypto : Crypto) (list : Sessions) (policy : AccessPolicy)
    (action : Action) (req : Request) (hdf : Hdf) (displays : List (String × Hdf)) :
    ∃ last, (handleAction crypto list policy action req hdf displays).displays
      = displays ++ [last] := by
  rcases handleAction_cases crypto list policy action req hdf displays with ⟨-, heq⟩ | ⟨-, heq⟩ <;>
    exact ⟨_, by rw [heq]⟩

variable (crypto : Crypto) (list : Sessions) (req : Request) {m : Method} {action : Action}

/-- How many answers a request gets. -/
theorem length_displays (hm : req.m = some m) (hreqm : req.reqm = m.requestMethod)
    (haction : m.actionHandler = some action) :
    (apiHandleRequest crypto list req).displays.length = if req.downloading then 2 else 1 := by
  rw [apiHandleRequest_eq crypto list hm hreqm haction]
  split_ifs with hdown
  · obtain ⟨last, hlast⟩ := displays_handleAction crypto list m.accessPolicy action req
      req.upgrading.2 [req.upgrading]
    rw [hlast, List.length_append, List.length_singleton, List.length_singleton]
  · obtain ⟨last, hlast⟩ := displays_handleAction crypto list m.accessPolicy action req req.hdf []
    rw [hlast, List.nil_append, List.length_singleton]

/-- **The upgrade lock.**  For a request that reaches `api_handle_request` with an existing method,
the right HTTP method and a handler: that a download keeps the handler from running and gets the
error of the upgrade as the only answer, and that every other request gets exactly one answer, is
true if and only if there is no download. -/
theorem upgrade_lock_iff (hm : req.m = some m) (hreqm : req.reqm = m.requestMethod)
    (haction : m.actionHandler = some action) :
    ((req.downloading = true → (apiHandleRequest crypto list req).ran = false ∧
        (apiHandleRequest crypto list req).displays = [req.upgrading]) ∧
      (req.downloading = false → (apiHandleRequest crypto list req).displays.length = 1)) ↔
    req.downloading = false := by
  have hlength := length_displays crypto list req hm hreqm haction
  constructor
  · rintro ⟨hlock, -⟩
    by_contra hdown
    rw [Bool.not_eq_false] at hdown
    -- one answer as the lock has it, two answers as the code displays them
    rw [(hlock hdown).2, if_pos hdown] at hlength
    exact absurd hlength (by simp)
  · intro hdown
    refine ⟨fun h => absurd (hdown.symm.trans h) (by decide), fun _ => ?_⟩
    rw [hlength, hdown]
    rfl

/-- A call of the public method `system.getInfo`, of whose reads that of `net_mode` succeeds. -/
def plainRequest (status : Option String) : Request where
  m := some ⟨.get, .public_, some (.other fun hdf => apiSetValue hdf "system.net_mode" "router")⟩
  name := "system.getInfo"
  reqm := .get
  token := none
  autoconfStatus := status
  webAuth := some "passwd"
  clock := some 1000
  hdf := []

/-- A method that does not exist. -/
theorem displays_of_not_ran_unknown :
    let handled := apiHandleRequest default empty { plainRequest none with m := none }
    handled.displays ≠ [] ∧ ∀ answer ∈ handled.displays, answer.1 = genericXml ∧
      ∃ error, answer.2.Reports (errorTable error).1 (errorTable error).2 :=
  ⟨by decide, displays_of_not_ran default empty _ (by decide)⟩

theorem upgrade_lock_iff_idle :
    let req := plainRequest (some "idle")
    req.downloading = false ∧ (apiHandleRequest default empty req).displays.length = 1 := by
  have hdown : (plainRequest (some "idle")).downloading = false := by decide
  exact ⟨hdown, ((upgrade_lock_iff default empty (plainRequest (some "idle"))
    rfl rfl rfl).mpr hdown).2 hdown⟩

/-- While the daemon is downloading a firmware, the handler of a public method runs, and after the
error a second answer is displayed.  It is an error too, as `stat` is still `fail`, and it has the
handler's values. -/
theorem upgrade_lock_falls_through :
    let req := plainRequest (some "downloading")
    let handled := apiHandleRequest default empty req
    req.downloading = true ∧ handled.ran = true ∧
      handled.displays.map Prod.fst = ["api/generic.xml", "api/generic.xml"] ∧
      handled.displays.map (fun answer => answer.2.get "system.net_mode")
        = [none, some "router"] := by
  decide

end Neufbox.Api
