import Neufbox.Lib.Run
import Neufbox.Libewf.Equiv.Credentials
import Neufbox.Libewf.Equiv.Login
import Neufbox.Www.Equiv.Access

/-!
# Challenges of the login page

The login page hands out challenges, and a login form that names one by `zsid` should be accepted
once, and only while the challenge is fresh.  `observe` records the challenges that are handed out
and the logins that succeed with one; it changes the session list as `serve` does
(`run_observe_fst`).

`ewf_smith_login` looks neither at the activation nor at the age of the session it finds.

* `challenge_single_use`: a challenge leads to one login as long as no form names a session that is
  activated already.
* `challenge_fresh`: a challenge is at most five seconds old as long as no form names a session that
  is activated or has an older time, and no cookie names a session that is not activated, which
  gives it a new time.

`ewf_session_list_cleaner` would remove old challenges before a login, but it is called nowhere.
-/

namespace Neufbox.Www

open Libewf Machine Registry

/-! ### Observations -/

/-- A challenge was handed out at a time, or a login with one succeeded. -/
inductive Observation where
  | challenge (id : String) (tv : Int)
  | login (zsid : String) (now : Int)
  deriving DecidableEq

variable (crypto : Crypto)

/-- What is observed of a handler. -/
def Handler.observed (req : Request) (list : Sessions) :
    Handler → List Observation
  | .loginForm =>
    if (ewfSmithLogin crypto list req.login).1 = .success ∧ req.login.zsid.getD "" ≠ "" then
      [.login (req.login.zsid.getD "") req.login.now]
    else []
  | .loginAjax =>
    match (loginAjaxHandler req list).1, req.login.entropy.clock with
    | some id, some tv => [.challenge id tv]
    | _, _ => []
  | _ => []

/-- A handler, with what is observed of it. -/
def Handler.observe (req : Request) (list : Sessions) (handler : Handler) :
    Sessions × List Observation :=
  ((handler.run crypto req list).1, handler.observed crypto req list)

/-- The list a request's handlers find. -/
def Hit.admitted (list : Sessions) (hit : Hit) : Sessions :=
  (ewfSmithAccessControl list hit.page.accessPolicy hit.req.visit).2.1

/-- The handlers of a request. -/
def Hit.handlers (list : Sessions) (hit : Hit) : List Handler :=
  hit.page.handlers hit.type (ewfSmithAccessControl list hit.page.accessPolicy hit.req.visit).1

/-- A request, with what is observed of it. -/
def observe (list : Sessions) (hit : Hit) : Sessions × List Observation :=
  run (Handler.observe crypto hit.req) (hit.admitted list) (hit.handlers list)

theorem run_handlers_fst (req : Request) (handlers : List Handler)
    (list : Sessions) :
    (run (Handler.observe crypto req) list handlers).1
      = (runHandlers (Handler.run crypto req) list handlers).1 := by
  induction handlers generalizing list with
  | nil => rfl
  | cons handler handlers ih => exact ih _

theorem observe_fst (list : Sessions) (hit : Hit) :
    (observe crypto list hit).1 = (serve crypto list hit).1 :=
  run_handlers_fst crypto hit.req _ _

/-- The observer does not change what the site does. -/
theorem run_observe_fst (hits : List Hit) (list : Sessions) :
    (run (observe crypto) list hits).1 = (run (serve crypto) list hits).1 := by
  induction hits generalizing list with
  | nil => rfl
  | cons hit hits ih => rw [run_cons, run_cons, ih, observe_fst]

/-! ### The steps of a handler -/

/-- What a handler does to the list, and what is observed of it. -/
inductive HandlerStep (req : Request) (list : Sessions) (handler : Handler) :
    Sessions → List Observation → Prop
  | kept : HandlerStep req list handler list []
  | handedOut (session) (hactivated : session.activated = false)
      (hid : session.id.length = sidLen) :
      HandlerStep req list handler (list.add session) [.challenge session.id session.tv]
  | created (session) (hid : session.id.length = sidLen) :
      HandlerStep req list handler
        ((list.add session).update list.next (Session.activate req.login.now)) []
  | activated (k session) (hhandler : handler = .loginForm)
      (hnamed : req.login.named list = some (k, session)) :
      HandlerStep req list handler (list.update k (Session.activate req.login.now))
        [.login (req.login.zsid.getD "") req.login.now]
  | removed (sid) : HandlerStep req list handler (list.remove (Session.hasId sid)) []

variable {crypto : Crypto} {req : Request} {list : Sessions}

theorem zsid_ne_of_named {k : ℕ} {session : Session}
    (h : req.login.named list = some (k, session)) : req.login.zsid.getD "" ≠ "" := by
  intro hempty
  apply zsid_of_named h
  rcases hz : req.login.zsid with - | zsid
  · exact .inl rfl
  · rw [hz, Option.getD_some] at hempty
    exact .inr (congrArg some hempty)

theorem handlerStep_loginForm (crypto : Crypto) (req : Request) (list : Sessions) :
    HandlerStep req list .loginForm (Handler.run crypto req .loginForm list).1
      (Handler.observed crypto req list .loginForm) := by
  have hstep := loginStep crypto list req.login
  show HandlerStep req list .loginForm (ewfSmithLogin crypto list req.login).2.1
    (if (ewfSmithLogin crypto list req.login).1 = .success ∧ req.login.zsid.getD "" ≠ "" then
      [.login (req.login.zsid.getD "") req.login.now] else [])
  generalize (ewfSmithLogin crypto list req.login).1 = ret at hstep ⊢
  generalize (ewfSmithLogin crypto list req.login).2.1 = list' at hstep ⊢
  generalize (ewfSmithLogin crypto list req.login).2.2.1 = events at hstep
  cases hstep with
  | kept _ hret =>
    rw [if_neg fun h => hret h.1]
    exact .kept
  | created session _ hzsid hcreate _ =>
    rw [if_neg fun h => h.2 hzsid]
    exact .created session (ewfSessionCreate_eq_some hcreate).2.1
  | activated k session hnamed _ =>
    rw [if_pos ⟨rfl, zsid_ne_of_named hnamed⟩]
    exact .activated k session rfl hnamed
  | removed k session _ _ _ hret =>
    rw [if_neg fun h => hret h.1]
    exact .removed _

theorem handlerStep_loginAjax (crypto : Crypto) (req : Request) (list : Sessions) :
    HandlerStep req list .loginAjax (Handler.run crypto req .loginAjax list).1
      (Handler.observed crypto req list .loginAjax) := by
  rw [Handler.run, Handler.observed]
  rcases loginAjaxHandler_cases req list with heq | ⟨session, hcreate, heq⟩
  · rw [heq]
    exact .kept
  · obtain ⟨hactivated, hid, hclock⟩ := ewfSessionCreate_eq_some hcreate
    rw [heq, hclock]
    exact .handedOut session hactivated hid

theorem handlerStep_logout (req : Request) (list : Sessions) (handler : Handler)
    (cookieSid : Option String) :
    HandlerStep req list handler (ewfSmithLogout list cookieSid).2.1 [] := by
  cases cookieSid with
  | none => exact .kept
  | some sid => exact .removed sid

/-- **Every handler** does one of these. -/
theorem handlerStep (crypto : Crypto) (req : Request) (list : Sessions) (handler : Handler) :
    HandlerStep req list handler (handler.observe crypto req list).1
      (handler.observe crypto req list).2 := by
  cases handler with
  | loginForm => exact handlerStep_loginForm crypto req list
  | loginAjax => exact handlerStep_loginAjax crypto req list
  | logoutDisplay => exact handlerStep_logout req list _ _
  | adminForm =>
    show HandlerStep req list .adminForm
      (if req.adminOff then (ewfSmithLogout list req.visit.cookieSid).2 else (list, [])).1 []
    split_ifs
    · exact handlerStep_logout req list _ _
    · exact .kept
  | other => exact .kept

/-! ### Runs that meet a condition -/

/-- Every handler of the request meets the condition in the list it finds. -/
def Hit.Meets (crypto : Crypto) (C : Request → Sessions → Handler → Prop) (list : Sessions)
    (hit : Hit) : Prop :=
  Machine.Meets (Handler.observe crypto hit.req) (C hit.req) (hit.admitted list) (hit.handlers list)

instance (crypto : Crypto) (C : Request → Sessions → Handler → Prop)
    [∀ req list handler, Decidable (C req list handler)] (list : Sessions) (hit : Hit) :
    Decidable (hit.Meets crypto C list) :=
  Machine.Meets.decidable _ _ _

/-- **Invariant rule**: what holds of the empty list, and is kept by the access control of every
request that meets `A` and by every handler that meets `C`, holds after every run of such requests
and handlers. -/
theorem observe_inv {A : Sessions → Hit → Prop} {C : Request → Sessions → Handler → Prop}
    {P : Sessions → List Observation → Prop} (h0 : P empty [])
    (haccess : ∀ list list' history hit events, A list hit →
      AccessStep list hit.req.visit list' events → P list history → P list' history)
    (hhandler : ∀ req list list' history handler obs, C req list handler →
      HandlerStep req list handler list' obs → P list history → P list' (history ++ obs))
    {hits : List Hit}
    (hmeets : Meets (observe crypto) (fun list hit => A list hit ∧ hit.Meets crypto C list)
      empty hits) :
    P (run (observe crypto) empty hits).1 (run (observe crypto) empty hits).2 := by
  refine run_inv_of_meets (observe crypto) ?_ hits empty [] h0 hmeets
  rintro list history hit ⟨hA, hC⟩ hP
  refine run_inv_of_meets (Handler.observe crypto hit.req) ?_ _ _ history ?_ hC
  · intro list history handler hCh hPh
    exact hhandler hit.req list _ history handler _ hCh (handlerStep crypto hit.req list handler)
      hPh
  · exact haccess list _ history hit _ hA
      (accessStep list hit.page.accessPolicy hit.req.visit) hP

/-! ### Single use -/

/-- How often a challenge was handed out. -/
def challenges (id : String) (history : List Observation) : ℕ :=
  history.countP fun o => match o with
    | .challenge id' _ => id' = id
    | .login _ _ => false

/-- How many logins with a challenge succeeded. -/
def logins (id : String) (history : List Observation) : ℕ :=
  history.countP fun o => match o with
    | .challenge _ _ => false
    | .login zsid _ => zsid = id

theorem challenges_challenge (id id' : String) (tv : Int) (history : List Observation) :
    challenges id (history ++ [.challenge id' tv])
      = challenges id history + if id' = id then 1 else 0 := by
  rw [challenges, List.countP_append, List.countP_singleton]
  simp only [decide_eq_true_eq]
  rfl

theorem challenges_login (id zsid : String) (now : Int) (history : List Observation) :
    challenges id (history ++ [.login zsid now]) = challenges id history := by
  rw [challenges, List.countP_append, List.countP_singleton]
  rfl

theorem logins_challenge (id id' : String) (tv : Int) (history : List Observation) :
    logins id (history ++ [.challenge id' tv]) = logins id history := by
  rw [logins, List.countP_append, List.countP_singleton]
  rfl

theorem logins_login (id zsid : String) (now : Int) (history : List Observation) :
    logins id (history ++ [.login zsid now]) = logins id history + if zsid = id then 1 else 0 := by
  rw [logins, List.countP_append, List.countP_singleton]
  simp only [decide_eq_true_eq]
  rfl

/-- A challenge nobody has logged in with. -/
def unused (id : String) (session : Session) : Bool := ! session.activated && session.id = id

/-- A login form does not name a session that is activated already. -/
def Request.NamesChallenge (req : Request) (list : Sessions) (handler : Handler) : Prop :=
  handler = .loginForm → ∀ e ∈ req.login.named list, e.2.activated = false

instance (req : Request) (list : Sessions) (handler : Handler) :
    Decidable (req.NamesChallenge list handler) :=
  inferInstanceAs (Decidable (_ → _))

/-- Every login with a challenge was paid for with a challenge. -/
structure SingleUse (list : Sessions) (history : List Observation) : Prop where
  paid : ∀ id, logins id history + count (unused id) list ≤ challenges id history
  ids : Holds (fun session => session.id.length = sidLen) list

theorem unused_of_unused_activate {id : String} {now : Int} (session : Session)
    (h : unused id (session.activate now) = true) : unused id session = true := by
  simp [unused, Session.activate] at h

variable {list' : Sessions} {history : List Observation}

/-- A change that makes no challenge unused. -/
theorem SingleUse.of_le (h : SingleUse list history)
    (hcount : ∀ id, count (unused id) list' ≤ count (unused id) list)
    (hids : Holds (fun session => session.id.length = sidLen) list') : SingleUse list' history :=
  ⟨fun id => Nat.le_trans (Nat.add_le_add_left (hcount id) _) (h.paid id), hids⟩

theorem SingleUse.remove (h : SingleUse list history) (sid : String) :
    SingleUse (list.remove (Session.hasId sid)) history :=
  h.of_le (fun id => count_remove_le (unused id) _ list) (h.ids.sublist _)

theorem SingleUse.access {visit : Visit} {events : List SessionEvent} (h : SingleUse list history)
    (hstep : AccessStep list visit list' events) : SingleUse list' history := by
  cases hstep with
  | kept => exact h
  | expired sid => exact h.remove sid
  | refreshed sid k session hsid hget =>
    exact h.of_le (fun id => count_update_le list k fun _ hf => hf)
      (h.ids.update k fun _ hid => hid)

/-- A new session that is activated at once is no challenge. -/
theorem count_unused_created (list : Sessions) (session : Session) (now : Int) (id : String) :
    count (unused id) ((list.add session).update list.next (Session.activate now))
      ≤ count (unused id) list := by
  have hmem : (list.next, session) ∈ (list.add session).entries :=
    List.mem_append_right _ (List.mem_singleton_self _)
  have hadd := count_add (unused id) list session
  by_cases hunused : unused id session = true
  · have := count_update_lt hmem hunused (f := Session.activate now) rfl
      (fun a ha => unused_of_unused_activate a ha)
    rw [hadd, if_pos hunused] at this
    exact Nat.le_of_lt_succ this
  · have := count_update_le (p := unused id) (list.add session) list.next
      (f := Session.activate now) (fun a ha => unused_of_unused_activate a ha)
    rwa [hadd, if_neg hunused] at this

/-- A challenge that is activated is used up. -/
theorem count_unused_activated {k : ℕ} {session : Session} (hmem : (k, session) ∈ list.entries)
    (hactivated : session.activated = false) (now : Int) (id : String) :
    count (unused id) (list.update k (Session.activate now)) + (if session.id = id then 1 else 0)
      ≤ count (unused id) list := by
  split_ifs with hid
  · exact count_update_lt hmem (by simp [unused, hactivated, hid]) rfl
      (fun a ha => unused_of_unused_activate a ha)
  · exact count_update_le list k (fun a ha => unused_of_unused_activate a ha)

theorem SingleUse.handler {handler : Handler} {obs : List Observation}
    (h : SingleUse list history) (hnames : req.NamesChallenge list handler)
    (hstep : HandlerStep req list handler list' obs) : SingleUse list' (history ++ obs) := by
  cases hstep with
  | kept => rwa [List.append_nil]
  | handedOut session hactivated hid =>
    refine ⟨fun id => ?_, h.ids.add hid⟩
    have hpaid := h.paid id
    have hunused : unused id session = decide (session.id = id) := by simp [unused, hactivated]
    rw [logins_challenge, challenges_challenge, count_add, hunused]
    simp only [decide_eq_true_eq]
    omega
  | created session hid =>
    rw [List.append_nil]
    exact h.of_le (count_unused_created list session _) (h.ids.add_update hid)
  | activated k session hhandler hnamed =>
    obtain ⟨hmem, hhas⟩ := mem_of_find? (get_of_named hnamed)
    have hzsid : req.login.zsid.getD "" = session.id := eq_id_of_hasId (h.ids _ hmem) hhas
    refine ⟨fun id => ?_, h.ids.update k fun _ hid => hid⟩
    have hpaid := h.paid id
    have hcount := count_unused_activated hmem (hnames hhandler _ hnamed) req.login.now id
    rw [logins_login, challenges_login, hzsid]
    omega
  | removed sid =>
    rw [List.append_nil]
    exact h.remove sid

/-- **Single use.**  In every run, from an empty session list, in which no login form names a
session that is activated already, at most one login succeeds with a challenge for each time it was
handed out. -/
theorem challenge_single_use (crypto : Crypto) (hits : List Hit)
    (hmeets : Meets (observe crypto) (Hit.Meets crypto Request.NamesChallenge) empty hits)
    (id : String) :
    logins id (run (observe crypto) empty hits).2
      ≤ challenges id (run (observe crypto) empty hits).2 := by
  have hinv : SingleUse (run (observe crypto) empty hits).1
      (run (observe crypto) empty hits).2 := by
    refine observe_inv (A := fun _ _ => True) (C := Request.NamesChallenge) ?_ ?_ ?_
      (hmeets.imp _ fun _ _ h => ⟨trivial, h⟩)
    · exact ⟨fun id => Nat.le_refl 0, holds_empty⟩
    · intro list list' history hit events _ hstep h
      exact h.access hstep
    · intro req list list' history handler obs hnames hstep h
      exact h.handler hnames hstep
  exact Nat.le_trans (Nat.le_add_right _ _) (hinv.paid id)

/-! ### Requests to the login page -/

/-- The handlers of a request to the login page by a client without a cookie. -/
theorem login_admitted (list : Sessions) (type : RequestType) {req : Request}
    (hcookie : req.visit.cookieSid = none) (hauth : req.visit.webAuth = some "passwd") :
    Hit.admitted list ⟨type, loginPage, req⟩ = list ∧
      Hit.handlers list ⟨type, loginPage, req⟩ = loginPage.dispatched type := by
  have haccess : ewfSmithAccessControl list loginPage.accessPolicy req.visit
      = (.publicPage, list, []) := by
    unfold ewfSmithAccessControl ewfSmithCheckSession
    rw [hauth, hcookie]
    exact if_neg (by decide)
  rw [Hit.admitted, Hit.handlers, haccess]
  exact ⟨rfl, rfl⟩

/-- A challenge is handed out. -/
theorem observe_challenge {session : Session} (hcookie : req.visit.cookieSid = none)
    (hauth : req.visit.webAuth = some "passwd")
    (haction : req.action = some "challenge")
    (hcreate : ewfSessionCreate req.login.entropy = some session)
    (hinserted : req.login.inserted = true) :
    observe crypto list ⟨.ajax, loginPage, req⟩
      = (list.add session, [.challenge session.id session.tv]) := by
  obtain ⟨hadmitted, hhandlers⟩ := login_admitted list .ajax hcookie hauth
  have hajax : loginAjaxHandler req list = (some session.id, list.add session, []) := by
    rw [loginAjaxHandler, if_pos haction, hcreate, hinserted]
    rfl
  rw [observe, hadmitted, hhandlers]
  simp [Page.dispatched, loginPage, run_cons, Handler.observe, Handler.run, Handler.observed, hajax,
    (ewfSessionCreate_eq_some hcreate).2.2]

/-- A login form is accepted. -/
theorem observe_accepted {k : ℕ} {session : Session} (hcookie : req.visit.cookieSid = none)
    (hauth : req.visit.webAuth = some "passwd")
    (hnamed : req.login.named list = some (k, session))
    (haccepted : loginOutcome crypto session.id req.login = some .success) :
    observe crypto list ⟨.form, loginPage, req⟩
      = (list.update k (Session.activate req.login.now),
        [.login (req.login.zsid.getD "") req.login.now]) := by
  obtain ⟨hadmitted, hhandlers⟩ := login_admitted list .form hcookie hauth
  obtain ⟨hret, hlist⟩ := ewfSmithLogin_of_accepted hnamed haccepted
  rw [observe, hadmitted, hhandlers]
  simp [Page.dispatched, loginPage, run_cons, Handler.observe, Handler.run, Handler.observed,
    loginFormHandler, hret, hlist, zsid_ne_of_named hnamed]

/-- A client asks for a challenge. -/
def challengeHit (now : Int) : Hit :=
  ⟨.ajax, loginPage, ⟨none, some "passwd", now⟩, some "challenge", none,
    ⟨none, none, none, hashForm "" "" "", none, ⟨some now, some (List.replicate 20 0)⟩, true, now⟩,
    false⟩

/-- A login form with the challenge of forty zeros, by the method that `web_auth` allows; the
service button was pushed. -/
def loginHit (webAuth : String) (credentials : Credentials) (now : Int) : Hit :=
  ⟨.form, loginPage, ⟨none, some webAuth, now⟩, none, none,
    ⟨some (String.ofList (List.replicate 40 '0')), some webAuth, some webAuth, credentials,
      some (webappAltLogin (some "on")), ⟨none, none⟩, true, now⟩, false⟩

/-- The user `admin`, whose password is `secret`, logs in. -/
def adminHit (now : Int) : Hit :=
  let password := "2bb80d537b1da3e38bd30361aa855686bde0eacd7162fef6a25fe97bf527a25b"
  loginHit "passwd" (hashForm "admin" password
    (expectedHash digests (String.ofList (List.replicate 40 '0')) "admin" password)) now

theorem observe_challengeHit (now : Int) :
    observe digests list (challengeHit now)
      = (list.add ⟨false, String.ofList (List.replicate 40 '0'), now⟩,
        [.challenge (String.ofList (List.replicate 40 '0')) now]) :=
  observe_challenge rfl rfl rfl rfl rfl

theorem observe_adminHit {k : ℕ} {session : Session}
    (hid : session.id = String.ofList (List.replicate 40 '0'))
    (hget : ewfSessionListGet list (String.ofList (List.replicate 40 '0')) = some (k, session))
    (now : Int) :
    observe digests list (adminHit now)
      = (list.update k (Session.activate now),
        [.login (String.ofList (List.replicate 40 '0')) now]) := by
  have hnamed : (adminHit now).req.login.named list = some (k, session) :=
    (if_neg (by simp [adminHit, loginHit])).trans hget
  refine observe_accepted rfl rfl hnamed ?_
  rw [hid]
  exact congrArg some (loginPasswd_hashForm digests _ "admin" _)

/-- One login with the service button. -/
theorem challenge_single_use_button :
    let zsid := String.ofList (List.replicate 40 '0')
    let hits := [challengeHit 1000, loginHit "button" (hashForm "" "" "") 1001]
    Meets (observe digests) (Hit.Meets digests Request.NamesChallenge) empty hits ∧
      logins zsid (run (observe digests) empty hits).2 = 1 ∧
      logins zsid (run (observe digests) empty hits).2
        ≤ challenges zsid (run (observe digests) empty hits).2 := by
  intro zsid hits
  have hmeets : Meets (observe digests) (Hit.Meets digests Request.NamesChallenge) empty hits := by
    decide
  exact ⟨hmeets, by decide, challenge_single_use digests hits hmeets zsid⟩

/-- The login form is sent again: both logins succeed. -/
theorem challenge_used_twice :
    let zsid := String.ofList (List.replicate 40 '0')
    (run (observe digests) empty [challengeHit 1000, adminHit 1001, adminHit 1002]).2
      = [.challenge zsid 1000, .login zsid 1001, .login zsid 1002] := by
  intro zsid
  have hfirst : ewfSessionListGet (empty.add ⟨false, zsid, 1000⟩) zsid
      = some (0, ⟨false, zsid, 1000⟩) := by decide
  have hsecond : ewfSessionListGet
      ((empty.add ⟨false, zsid, 1000⟩).update 0 (Session.activate 1001)) zsid
      = some (0, ⟨true, zsid, 1001⟩) := by decide
  rw [run_cons, observe_challengeHit, run_cons, observe_adminHit rfl hfirst, run_cons,
    observe_adminHit rfl hsecond]
  rfl

/-! ### Freshness -/

/-- A login form names a session that is not activated and whose time is at most five seconds
old. -/
def Request.NamesFresh (req : Request) (list : Sessions) (handler : Handler) : Prop :=
  handler = .loginForm →
    ∀ e ∈ req.login.named list, e.2.activated = false ∧ req.login.now ≤ e.2.tv + 5

instance (req : Request) (list : Sessions) (handler : Handler) :
    Decidable (req.NamesFresh list handler) :=
  inferInstanceAs (Decidable (_ → _))

/-- The cookie of a request does not name a session that is not activated. -/
def Hit.KeepsTimes (list : Sessions) (hit : Hit) : Prop :=
  ∀ sid ∈ hit.req.visit.cookieSid, ∀ e ∈ ewfSessionListGet list sid, e.2.activated = true

instance (list : Sessions) (hit : Hit) : Decidable (hit.KeepsTimes list) :=
  inferInstanceAs (Decidable (∀ sid ∈ hit.req.visit.cookieSid, ∀ e ∈ _, _))

/-- A login is with a challenge that was handed out at most five seconds before. -/
def fresh (before : List Observation) : Observation → Prop
  | .challenge _ _ => True
  | .login zsid now => ∃ tv, .challenge zsid tv ∈ before ∧ now ≤ tv + 5

/-- A session that is not activated was handed out at the time it has. -/
def HandedOut (history : List Observation) (session : Session) : Prop :=
  session.activated = false → .challenge session.id session.tv ∈ history

/-- The challenges of the list were handed out, and the logins so far were fresh. -/
structure Freshness (list : Sessions) (history : List Observation) : Prop where
  times : Holds (HandedOut history) list
  ids : Holds (fun session => session.id.length = sidLen) list
  logins : Justified fresh history

theorem handedOut_activate (history : List Observation) (now : Int) (session : Session) :
    HandedOut history (session.activate now) :=
  fun h => nomatch h

theorem HandedOut.append {session : Session} (h : HandedOut history session)
    (obs : List Observation) : HandedOut (history ++ obs) session :=
  fun hactivated => List.mem_append_left obs (h hactivated)

theorem Freshness.remove (h : Freshness list history) (sid : String) :
    Freshness (list.remove (Session.hasId sid)) history :=
  ⟨h.times.sublist _, h.ids.sublist _, h.logins⟩

theorem Freshness.access {hit : Hit} {events : List SessionEvent} (h : Freshness list history)
    (hkeeps : hit.KeepsTimes list) (hstep : AccessStep list hit.req.visit list' events) :
    Freshness list' history := by
  cases hstep with
  | kept => exact h
  | expired sid => exact h.remove sid
  | refreshed sid k session hsid hget =>
    -- the session whose time changes is activated, so it is no challenge
    have hactivated : session.activated = true := hkeeps sid hsid _ hget
    refine ⟨h.times.update_mem (mem_of_find? hget).1 fun hnot => ?_,
      h.ids.update k fun _ hid => hid, h.logins⟩
    exact absurd (hactivated.symm.trans hnot) (by decide)

theorem Freshness.handler {handler : Handler} {obs : List Observation}
    (h : Freshness list history) (hnames : req.NamesFresh list handler)
    (hstep : HandlerStep req list handler list' obs) : Freshness list' (history ++ obs) := by
  cases hstep with
  | kept => rwa [List.append_nil]
  | handedOut session hactivated hid =>
    refine ⟨(h.times.imp fun _ hs => hs.append _).add fun _ => ?_, h.ids.add hid,
      h.logins.concat trivial⟩
    exact List.mem_append_right history (List.mem_singleton_self _)
  | created session hid =>
    rw [List.append_nil]
    exact ⟨h.times.add_update (handedOut_activate _ _ _), h.ids.add_update hid, h.logins⟩
  | activated k session hhandler hnamed =>
    obtain ⟨hmem, hhas⟩ := mem_of_find? (get_of_named hnamed)
    obtain ⟨hactivated, hage⟩ := hnames hhandler _ hnamed
    refine ⟨(h.times.imp fun _ hs => hs.append _).update k fun _ _ => handedOut_activate _ _ _,
      h.ids.update k fun _ hid => hid, h.logins.concat ⟨session.tv, ?_, hage⟩⟩
    rw [eq_id_of_hasId (h.ids _ hmem) hhas]
    exact h.times _ hmem hactivated
  | removed sid =>
    rw [List.append_nil]
    exact h.remove sid

/-- **Freshness.**  In every run, from an empty session list, in which every login form that names
a session of the list names one that is not activated and has a time at most five seconds old, and
in which no cookie names a session that is not activated, every login with a challenge succeeds at
most five seconds after the challenge was handed out. -/
theorem challenge_fresh (crypto : Crypto) (hits : List Hit)
    (hmeets : Meets (observe crypto)
      (fun list hit => hit.KeepsTimes list ∧ hit.Meets crypto Request.NamesFresh list) empty hits) :
    Justified fresh (run (observe crypto) empty hits).2 := by
  have hinv : Freshness (run (observe crypto) empty hits).1
      (run (observe crypto) empty hits).2 := by
    refine observe_inv (A := fun list hit => hit.KeepsTimes list) (C := Request.NamesFresh)
      ?_ ?_ ?_ hmeets
    · exact ⟨holds_empty, holds_empty, justified_nil⟩
    · intro list list' history hit events hkeeps hstep h
      exact h.access hkeeps hstep
    · intro req list list' history handler obs hnames hstep h
      exact h.handler hnames hstep
  exact hinv.logins

/-- A login five seconds after the challenge. -/
theorem challenge_fresh_button :
    let hits := [challengeHit 1000, loginHit "button" (hashForm "" "" "") 1005]
    Meets (observe digests) (fun list hit => hit.KeepsTimes list ∧
      hit.Meets digests Request.NamesFresh list) empty hits ∧
      .login (String.ofList (List.replicate 40 '0')) 1005 ∈ (run (observe digests) empty hits).2 ∧
      Justified fresh (run (observe digests) empty hits).2 := by
  intro hits
  have hmeets : Meets (observe digests) (fun list hit => hit.KeepsTimes list ∧
      hit.Meets digests Request.NamesFresh list) empty hits := by
    decide
  exact ⟨hmeets, by decide, challenge_fresh digests hits hmeets⟩

/-- The challenge is two hours old, and the login succeeds. -/
theorem old_challenge_accepted :
    let zsid := String.ofList (List.replicate 40 '0')
    (run (observe digests) empty [challengeHit 1000, adminHit 8200]).2
      = [.challenge zsid 1000, .login zsid 8200] := by
  intro zsid
  have hget : ewfSessionListGet (empty.add ⟨false, zsid, 1000⟩) zsid
      = some (0, ⟨false, zsid, 1000⟩) := by decide
  rw [run_cons, observe_challengeHit, run_cons, observe_adminHit rfl hget]
  rfl

end Neufbox.Www
