import Neufbox.Lib.Run
import Neufbox.Api.Equiv.Tokens
import Neufbox.Libewf.Equiv.Login

/-!
# Who may call the private methods of the API

`Change` lists what the functions of the API can do to the session list, each with the events it
emits; the requests do nothing else (`change_step`).  Two facts hold after any sequence of requests,
as every change keeps them (`SessionInv`):

* the sessions marked as activated are those with an activation that stands in the history, and what
  that request read was a pushed button or the HMACs of the login and the password under the
  session's id;
* every id has exactly `CHALLENGE_SIZE` characters, so that a token that names a session is its id.

`private_handler_authorized` is what follows for the handler of a private method.
-/

namespace Neufbox.Api

open Libewf (Session Sessions Crypto)
open Libnbu ByteStream Machine Registry

/-! ### The changes of the session list -/

/-- What the API does to the session list, and the events of it.  A session is only activated by a
request that `checks` its token, and only a request that `creates` one makes the list longer. -/
inductive Change (crypto : Crypto) (creates : Prop) (checks : Activation → Prop) :
    Sessions → List AuthEvent → Sessions → Prop
  | none (list) : Change crypto creates checks list [] list
  | cleaned (list now) : Change crypto creates checks list (list.swept (cleanerKeeps now))
      (list.retain (cleanerKeeps now))
  | created (list session) (hcreates : creates) (hactivated : session.activated = false)
      (hid : session.id.length = challengeSize) :
      Change crypto creates checks list [] (list.add session)
  | removed (list) (sid : String) : Change crypto creates checks list
      (list.removed (Session.hasId sid)) (list.remove (Session.hasId sid))
  | refreshed (list k) (now : Int) : Change crypto creates checks list []
      (list.update k fun session => { session with tv := now })
  | activated (list k session now act) (hchecks : checks act)
      (hget : ewfSessionGet list act.token = some (k, session)) (hvalid : act.Valid crypto) :
      Change crypto creates checks list [.marked k act]
        (list.update k fun session => { session with activated := true, tv := now })
  | seq {list₁ list₂ list₃ events₁ events₂} (h₁ : Change crypto creates checks list₁ events₁ list₂)
      (h₂ : Change crypto creates checks list₂ events₂ list₃) :
      Change crypto creates checks list₁ (events₁ ++ events₂) list₃

section

variable {crypto : Crypto} {creates : Prop} {checks : Activation → Prop} {list list' : Sessions}
  {events : List AuthEvent}

theorem Change.mono {creates' : Prop} {checks' : Activation → Prop}
    (h : Change crypto creates checks list events list') (hcreates : creates → creates')
    (hchecks : ∀ act, checks act → checks' act) :
    Change crypto creates' checks' list events list' := by
  induction h with
  | none list => exact .none list
  | cleaned list now => exact .cleaned list now
  | created list session h hactivated hid =>
    exact .created list session (hcreates h) hactivated hid
  | removed list sid => exact .removed list sid
  | refreshed list k now => exact .refreshed list k now
  | activated list k session now act h hget hvalid =>
    exact .activated list k session now act (hchecks act h) hget hvalid
  | seq _ _ ih₁ ih₂ => exact ih₁.seq ih₂

/-- Where an activation comes from. -/
theorem Change.checks_of_marked (h : Change crypto creates checks list events list') {k : ℕ}
    {act : Activation} (hmem : .marked k act ∈ events) : checks act := by
  induction h with
  | none list => exact nomatch hmem
  | cleaned list now => exact absurd hmem (marked_not_mem_swept _ _ _ _)
  | created list session hcreates hactivated hid => exact nomatch hmem
  | removed list sid => exact absurd hmem (marked_not_mem_removed _ _ _ _)
  | refreshed list k now => exact nomatch hmem
  | activated list k session now act h hget hvalid =>
    rw [(Event.marked.inj (List.mem_singleton.mp hmem)).2]
    exact h
  | seq _ _ ih₁ ih₂ =>
    rcases List.mem_append.mp hmem with hmem | hmem
    · exact ih₁ hmem
    · exact ih₂ hmem

/-- A request that creates no session does not make the list longer. -/
theorem Change.count_le (h : Change crypto creates checks list events list')
    (hcreates : ¬creates) : ewfSessionCount list' ≤ ewfSessionCount list := by
  induction h with
  | none list => exact le_rfl
  | cleaned list now => exact List.length_filter_le _ _
  | created list session h hactivated hid => exact absurd h hcreates
  | removed list sid => exact List.length_eraseP_le
  | refreshed list k now => exact (List.length_map _).le
  | activated list k session now act h hget hvalid => exact (List.length_map _).le
  | seq _ _ ih₁ ih₂ => exact ih₂.trans ih₁

end

/-! ### The session functions -/

variable (crypto : Crypto)

/-- The new session is not activated, and its id is the whole token. -/
theorem change_create (checks : Activation → Prop) {list list' : Sessions} {size : ℕ}
    {c : Creation} {token : String} (h : ewfSessionCreate list size c = some (token, list')) :
    Change crypto True checks list [] list' := by
  obtain ⟨-, -, tv, -, rfl, rfl⟩ := ewfSessionCreate_eq_some_iff.mp h
  refine .created _ _ trivial rfl ?_
  rw [length_hexString, c.length_rdm]
  rfl

theorem change_getToken (checks : Activation → Prop) (list : Sessions)
    (env : GetTokenEnv) (hdf : Hdf) :
    Change crypto True checks list (getToken list env hdf).2.1 (getToken list env hdf).1 := by
  have hclean : Change crypto True checks list _ _ := .cleaned list env.cleanerNow
  unfold getToken
  dsimp only [ewfSessionCleaner]
  split_ifs
  · exact hclean.seq (.cleaned _ env.cleanerNow')
  all_goals
    rcases hcreate : ewfSessionCreate (list.retain (cleanerKeeps env.cleanerNow)) 256 env.creation
      with - | ⟨token, list'⟩
    · exact hclean
    · have := hclean.seq (change_create crypto checks hcreate)
      rwa [List.append_nil] at this

/-! ### Proofs -/

theorem checkButton_eq_ok {webAutologin : Option String} (h : checkButton webAutologin = .ok ()) :
    webAutologin = some "on" := by
  unfold checkButton at h
  split at h
  · exact nomatch h
  · split_ifs at h with hon
    rw [hon]

theorem checkPasswd_eq_ok {crypto : Crypto} {token hash : String} {env : CheckTokenEnv}
    (h : checkPasswd crypto token hash env = .ok ()) :
    ∃ login password, env.webLogin = some login ∧ env.webPassword = some password ∧
      hash = crypto.hmac token (crypto.sha256 login) ++ crypto.hmac token password := by
  unfold checkPasswd at h
  rcases hl : env.webLogin with - | login
  · simp only [hl] at h
    split_ifs at h
  · rcases hp : env.webPassword with - | password
    · simp only [hl, hp] at h
      split_ifs at h
    · simp only [hl, hp] at h
      -- all the checks but the last outcome are errors
      split_ifs at h with hlength hsha hhmac hlogin hhmac' hpassword
      exact ⟨login, password, rfl, rfl,
        (nbuStringCopy_halves (not_not.mp hlength) (crypto.length_hmac _ _)).mp
          ⟨not_not.mp hlogin, not_not.mp hpassword⟩⟩

theorem chooseMethod_eq_ok {webAuth : String} {hash : Option String} {method : AuthMethod}
    (h : chooseMethod webAuth hash = .ok method) : match method with
      | .button => webAuth = "button" ∨ webAuth = "all" ∧ hash = none
      | .passwd hash' => (webAuth = "passwd" ∨ webAuth = "all") ∧ hash = some hash' := by
  unfold chooseMethod at h
  rcases hash with - | hash <;> split_ifs at h <;> cases h <;> simp [*]

/-- No session is activated without a proof. -/
theorem checkProof_valid {crypto : Crypto} {token webAuth : String} {env : CheckTokenEnv}
    (hauth : env.webAuth = some webAuth) (h : checkProof crypto token webAuth env = .ok ()) :
    Activation.Valid crypto ⟨token, env⟩ := by
  unfold checkProof at h
  rw [Activation.Valid, hauth]
  simp only [Option.some_inj]
  split at h
  · exact nomatch h
  · next hmethod => exact .inl ⟨chooseMethod_eq_ok hmethod, checkButton_eq_ok h⟩
  · next hash hmethod =>
    obtain ⟨hallowed, hhash⟩ := chooseMethod_eq_ok hmethod
    obtain ⟨login, password, hlogin, hpassword, rfl⟩ := checkPasswd_eq_ok h
    exact .inr ⟨hallowed, login, password, hlogin, hpassword, hhash⟩

theorem change_checkToken (list : Sessions) (token : Option String)
    (env : CheckTokenEnv) (hdf : Hdf) :
    Change crypto False (fun act => token = some act.token ∧ act.env = env) list
      (checkToken crypto list token env hdf).2.1 (checkToken crypto list token env hdf).1 := by
  -- on every early return only the cleaner has run
  have hclean : Change crypto False (fun act => token = some act.token ∧ act.env = env) list _ _ :=
    .cleaned list env.cleanerNow
  unfold checkToken
  dsimp only [ewfSessionCleaner]
  rcases token with - | token
  · exact hclean
  · dsimp only
    rcases hget : ewfSessionGet (list.retain (cleanerKeeps env.cleanerNow)) token
      with - | ⟨k, session⟩
    · exact hclean
    · dsimp only
      rcases hauth : env.webAuth with - | webAuth
      · exact hclean
      · dsimp only
        split_ifs
        · exact hclean
        · exact hclean.seq (.removed _ _)
        · rcases hproof : checkProof crypto token webAuth env with f | ⟨⟩
          · exact hclean
          · dsimp only
            rcases env.validateClock with - | now
            · exact hclean
            · exact hclean.seq (.activated _ _ _ now ⟨token, env⟩ ⟨rfl, rfl⟩ hget
                (checkProof_valid hauth hproof))

/-! ### Requests -/

theorem change_checkAccess (creates : Prop) (checks : Activation → Prop) (list : Sessions)
    (policy : AccessPolicy) (req : Request) (hdf : Hdf) :
    Change crypto creates checks list (checkAccess list policy req hdf).2.2.1
      (checkAccess list policy req hdf).2.1 := by
  unfold checkAccess
  cases policy with
  | public_ => exact .none list
  | private_ =>
    dsimp only
    split_ifs
    · exact .none list
    · rcases req.token with - | token
      · exact .none list
      · dsimp only
        rcases ewfSessionGet list token with - | ⟨k, session⟩
        · exact .none list
        · dsimp only [ewfSessionCheck]
          rcases req.clock with - | now
          · exact .none list
          · dsimp only
            split_ifs
            · exact .none list
            · exact .refreshed list k now
            · exact .removed list session.id

/-- The handler is `auth.checkToken`, and this is what it reads. -/
def Action.Checks (action : Action) (token : Option String) (act : Activation) : Prop :=
  token = some act.token ∧ action = .checkToken act.env

theorem change_action (list : Sessions) (token : Option String) (hdf : Hdf)
    (action : Action) :
    Change crypto (∃ env, action = .getToken env) (action.Checks token) list
      (action.run crypto list token hdf).2.1 (action.run crypto list token hdf).1 := by
  cases action with
  | getToken env =>
    exact (change_getToken crypto _ list env hdf).mono (fun _ => ⟨env, rfl⟩) fun _ h => h
  | checkToken env =>
    exact (change_checkToken crypto list token env hdf).mono False.elim
      fun act h => ⟨h.1, h.2 ▸ rfl⟩
  | other handler => exact .none list

theorem change_handleAction (list : Sessions) (policy : AccessPolicy)
    (action : Action) (req : Request) (hdf : Hdf) (displays : List (String × Hdf)) :
    Change crypto (∃ env, action = .getToken env) (action.Checks req.token) list
      (handleAction crypto list policy action req hdf displays).events
      (handleAction crypto list policy action req hdf displays).list := by
  have haccess := change_checkAccess crypto (∃ env, action = .getToken env)
    (action.Checks req.token) list policy req hdf
  rcases handleAction_cases crypto list policy action req hdf displays with ⟨-, heq⟩ | ⟨-, heq⟩
  · rw [heq]
    exact haccess
  · rw [heq]
    exact haccess.seq (change_action crypto _ req.token _ action)

/-- The request calls `auth.checkToken` with the token, and this is what it reads. -/
def Request.Checks (req : Request) (act : Activation) : Prop :=
  ∃ m action, req.m = some m ∧ m.actionHandler = some action ∧ action.Checks req.token act

/-- **One request** does to the session list what `Change` lists. -/
theorem change_step (list : Sessions) (req : Request) :
    Change crypto True req.Checks list (step crypto list req).2 (step crypto list req).1 := by
  unfold step
  rcases apiHandleRequest_cases crypto list req with
    heq | ⟨m, action, hdf, displays, hm, haction, -, heq⟩
  · rw [heq]
    exact .none list
  · rw [heq]
    exact (change_handleAction ..).mono (fun _ => trivial) fun act h => ⟨m, action, hm, haction, h⟩

/-! ### What the changes keep -/

/-- The invariant of the session list and its history. -/
structure SessionInv (crypto : Crypto) (list : Sessions) (history : List AuthEvent) : Prop where
  tracks : Tracks Session.activated
    (fun session act => act.token = session.id ∧ act.Valid crypto) list history
  ids : Holds (fun session => session.id.length = challengeSize) list

variable {crypto : Crypto} {creates : Prop} {checks : Activation → Prop} {list list' : Sessions}
  {history events : List AuthEvent}

/-- A token that names a session is the session's id. -/
theorem SessionInv.eq_id_of_get (h : SessionInv crypto list history) {token : String} {k : ℕ}
    {session : Session} (hget : ewfSessionGet list token = some (k, session)) :
    token = session.id :=
  Libewf.eq_id_of_hasId (h.ids _ (mem_of_find? hget).1) (mem_of_find? hget).2

/-- **Every change** keeps the invariant, by induction on how it is put together. -/
theorem Change.inv (hchange : Change crypto creates checks list events list') :
    ∀ {history}, SessionInv crypto list history → SessionInv crypto list' (history ++ events) := by
  induction hchange with
  | none list =>
    intro history h
    rwa [List.append_nil]
  | cleaned list now =>
    intro history h
    exact ⟨h.tracks.retain _, h.ids.sublist _⟩
  | created list session hcreates hactivated hid =>
    intro history h
    rw [List.append_nil]
    exact ⟨h.tracks.add hactivated, h.ids.add hid⟩
  | removed list sid =>
    intro history h
    exact ⟨h.tracks.remove _, h.ids.sublist _⟩
  | refreshed list k now =>
    intro history h
    rw [List.append_nil]
    exact ⟨h.tracks.update k (fun _ => rfl) (fun _ _ hv => hv), h.ids.update k fun _ hid => hid⟩
  | activated list k session now act hchecks hget hvalid =>
    intro history h
    -- the session that is activated has the token of the request
    have hid : act.token = session.id := h.eq_id_of_get hget
    exact ⟨h.tracks.marks (mem_of_find? hget).1 rfl ⟨hid, hvalid⟩,
      h.ids.update k fun _ hid => hid⟩
  | seq h₁ h₂ ih₁ ih₂ =>
    intro history h
    rw [← List.append_assoc]
    exact ih₂ (ih₁ h)

theorem sessionInv_run (crypto : Crypto) (reqs : List Request) :
    SessionInv crypto (run (step crypto) empty reqs).1 (run (step crypto) empty reqs).2 :=
  run_inv (step crypto) (P := SessionInv crypto) ⟨tracks_empty, holds_empty⟩
    (fun list _ req h => (change_step crypto list req).inv h) reqs

/-! ### Private methods -/

/-- When the check of the access policy lets a request to a private method through. -/
theorem checkAccess_private_iff (list : Sessions) (req : Request) (hdf : Hdf) :
    (checkAccess list .private_ req hdf).1 = true ↔
      req.webAuth = some "off" ∨
      ∃ token k session now, req.token = some token ∧
        ewfSessionGet list token = some (k, session) ∧ req.clock = some now ∧
        session.activated = true ∧ now ≤ session.tv + sessionTimeout := by
  unfold checkAccess
  by_cases hoff : req.webAuth = some "off"
  · simp [hoff]
  · rcases htoken : req.token with - | token
    · simp [hoff]
    · rcases hget : ewfSessionGet list token with - | ⟨k, session⟩
      · simp [hoff, hget]
      · rcases hclock : req.clock with - | now
        · simp [hoff, hget, ewfSessionCheck]
        · cases hact : session.activated with
          | false => simp [hoff, hget, ewfSessionCheck, hact]
          | true =>
            by_cases hnow : now ≤ session.tv + sessionTimeout
            · simp [hoff, hget, ewfSessionCheck, hact, hnow]
            · simp [hoff, hget, ewfSessionCheck, hact, hnow]

theorem ran_handleAction (crypto : Crypto) (list : Sessions) (policy : AccessPolicy)
    (action : Action) (req : Request) (hdf : Hdf) (displays : List (String × Hdf)) :
    (handleAction crypto list policy action req hdf displays).ran
      = (checkAccess list policy req hdf).1 := by
  rcases handleAction_cases crypto list policy action req hdf displays with
    ⟨hallowed, heq⟩ | ⟨hallowed, heq⟩ <;> rw [heq, hallowed]

/-- A handler only runs when the check of the access policy lets the request through. -/
theorem checkAccess_of_ran {list : Sessions} {req : Request} {m : Method} (hm : req.m = some m)
    (hran : (apiHandleRequest crypto list req).ran = true) :
    ∃ hdf, (checkAccess list m.accessPolicy req hdf).1 = true := by
  rcases apiHandleRequest_cases crypto list req with
    heq | ⟨m', action, hdf, displays, hm', -, -, heq⟩
  · rw [heq] at hran
    exact nomatch hran
  · obtain rfl : m = m' := Option.some.inj (hm.symm.trans hm')
    rw [heq, ran_handleAction] at hran
    exact ⟨hdf, hran⟩

/-- **API authorization.**  After any sequence of requests, from an empty session list: the handler
of a private method only runs if the read of `web_auth` gave `off`, or if the token of the request
names a session of the list whose stored time is at most `SESSION_TIMEOUT` seconds old, and which
an earlier request to `auth.checkToken` with that token activated, as it read that the button was
pushed, or the HMACs of the login and the password under the token, and which was not removed
since. -/
theorem private_handler_authorized (crypto : Crypto) (reqs : List Request) (req : Request)
    {m : Method} (hm : req.m = some m) (hprivate : m.accessPolicy = .private_)
    (hran : (apiHandleRequest crypto (run (step crypto) empty reqs).1 req).ran = true) :
    req.webAuth = some "off" ∨
    ∃ token k session now act, req.token = some token ∧
      ewfSessionGet (run (step crypto) empty reqs).1 token = some (k, session) ∧
      req.clock = some now ∧ now ≤ session.tv + sessionTimeout ∧
      Standing (run (step crypto) empty reqs).2 k act ∧ act.token = token ∧ act.Valid crypto ∧
      ∃ before earlier after, reqs = before ++ earlier :: after ∧ earlier.Checks act ∧
        .marked k act ∈ (step crypto (run (step crypto) empty before).1 earlier).2 := by
  have hinv := sessionInv_run crypto reqs
  obtain ⟨hdf, haccess⟩ := checkAccess_of_ran hm hran
  rw [hprivate, checkAccess_private_iff] at haccess
  rcases haccess with hoff | ⟨token, k, session, now, htoken, hget, hclock, hactivated, hnow⟩
  · exact .inl hoff
  · -- the session is marked, so its activation stands in the history, and some request emitted it
    obtain ⟨act, hstanding, hid, hvalid⟩ :=
      hinv.tracks.marked _ (mem_of_find? hget).1 hactivated
    obtain ⟨before, earlier, after, hreqs, hmarked⟩ :=
      (mem_run_iff (step crypto)).mp hstanding.mem
    exact .inr ⟨token, k, session, now, act, htoken, hget, hclock, hnow, hstanding,
      hid.trans (hinv.eq_id_of_get hget).symm, hvalid, before, earlier, after, hreqs,
      (change_step crypto _ earlier).checks_of_marked hmarked, hmarked⟩

/-- A request for a method, at the time `now`. -/
def requestAt (now : Int) (name : String) (m : Method) (token : Option String) : Request where
  m := some m
  name := name
  reqm := .get
  token := token
  autoconfStatus := some "idle"
  webAuth := some "button"
  clock := some now
  hdf := []

/-- A client gets a token, has it activated by the button, and calls a private method with it. -/
theorem private_handler_authorized_button :
    let creation : Creation :=
      ⟨some 1000, List.replicate 20 0, rfl, some [.data 7 (List.replicate 19 7)], true⟩
    let token := String.ofList ((List.replicate 20 ['0', '7']).flatten)
    let reqs : List Request :=
      [requestAt 1000 "auth.getToken" ⟨.get, .public_, some (.getToken ⟨1000, 1000, some "button",
          creation, some "button"⟩)⟩ none,
        requestAt 1010 "auth.checkToken" ⟨.get, .public_, some (.checkToken ⟨1010, some "button",
          1010, none, some "on", none, true, true, none, true, some 1010⟩)⟩ (some token)]
    let req := requestAt 1020 "hotspot.getInfo" ⟨.get, .private_, some (.other id)⟩ (some token)
    (apiHandleRequest default (run (step default) empty reqs).1 req).ran = true ∧
      ∃ k act, Standing (run (step default) empty reqs).2 k act ∧ act.token = token ∧
        act.Valid default := by
  intro creation token reqs req
  have hran : (apiHandleRequest default (run (step default) empty reqs).1 req).ran = true := by
    decide
  refine ⟨hran, ?_⟩
  rcases private_handler_authorized default reqs req rfl rfl hran with
    hoff | ⟨token', k, _, _, act, htoken, _, _, _, hstanding, hact, hvalid, _⟩
  · exact absurd hoff (by decide)
  · exact ⟨k, act, hstanding, hact.trans (Option.some.inj htoken).symm, hvalid⟩

end Neufbox.Api
