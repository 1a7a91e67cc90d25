import Neufbox.Lib.Run
import Neufbox.Libewf.Equiv.Login
import Neufbox.Www.Site

/-!
# Whose sessions the web site accepts

A session should open the private pages only after a login with it.  Every operation on the session
list keeps the list and its history together: the sessions marked as activated are those for which
a login stands in the history (`tracks_serve`, `tracks_run`).  `ewf_smith_check_session`, however,
does not look at the mark: it accepts any session it finds that has not expired, and the challenge
of the login page is such a session (`accessControl_accepts_challenge`).
`accessControl_success_iff` says that this is the only way in without a login.
-/

namespace Neufbox.Www

open Libewf Machine Registry

/-- The marks of the list are the logins that stand in the history. -/
def TracksLogins (list : Sessions) (history : List SessionEvent) : Prop :=
  Tracks Session.activated (fun _ _ => True) list history

/-! ### The operations of the session list -/

variable {list : Sessions} {history : List SessionEvent}

theorem tracks_accessControl (h : TracksLogins list history) (access : PageAccess) (visit : Visit) :
    TracksLogins (ewfSmithAccessControl list access visit).2.1
      (history ++ (ewfSmithAccessControl list access visit).2.2) := by
  have hstep := accessStep list access visit
  generalize (ewfSmithAccessControl list access visit).2.1 = list' at hstep ⊢
  generalize (ewfSmithAccessControl list access visit).2.2 = events at hstep ⊢
  cases hstep with
  | kept => rwa [List.append_nil]
  | expired sid => exact h.remove _
  | refreshed sid k session =>
    rw [List.append_nil]
    exact Tracks.update h k (fun _ => rfl) (fun _ _ hv => hv)

theorem tracks_smithLogin (crypto : Crypto) (h : TracksLogins list history) (req : LoginRequest) :
    TracksLogins (ewfSmithLogin crypto list req).2.1
      (history ++ (ewfSmithLogin crypto list req).2.2.1) := by
  have hstep := loginStep crypto list req
  generalize (ewfSmithLogin crypto list req).1 = ret at hstep
  generalize (ewfSmithLogin crypto list req).2.1 = list' at hstep ⊢
  generalize (ewfSmithLogin crypto list req).2.2.1 = events at hstep ⊢
  cases hstep with
  | kept => rwa [List.append_nil]
  | created session _ _ hcreate _ =>
    -- the session is added and then marked
    have hmem : (list.next, session) ∈ (list.add session).entries :=
      List.mem_append_right _ (List.mem_singleton_self _)
    exact (Tracks.add h (ewfSessionCreate_eq_some hcreate).1).marks hmem rfl trivial
  | activated k session hnamed _ =>
    exact h.marks (mem_of_find? (get_of_named hnamed)).1 rfl trivial
  | removed => exact h.remove _

theorem tracks_smithLogout (h : TracksLogins list history) (cookieSid : Option String) :
    TracksLogins (ewfSmithLogout list cookieSid).2.1
      (history ++ (ewfSmithLogout list cookieSid).2.2) := by
  cases cookieSid with
  | none => simpa [ewfSmithLogout] using h
  | some sid => exact h.remove _

/-- The login page either does nothing or hands out a new session as a challenge. -/
theorem loginAjaxHandler_cases (req : Request) (list : Sessions) :
    loginAjaxHandler req list = (none, list, []) ∨
      ∃ session, ewfSessionCreate req.login.entropy = some session ∧
        loginAjaxHandler req list = (some session.id, list.add session, []) := by
  unfold loginAjaxHandler
  split_ifs
  · rcases hcreate : ewfSessionCreate req.login.entropy with - | session
    · exact .inl rfl
    · dsimp only
      rcases hadd : ewfSessionListAdd list session req.login.inserted with - | list'
      · exact .inl rfl
      · obtain rfl := eq_add_of_ewfSessionListAdd hadd
        exact .inr ⟨session, rfl, rfl⟩
  · exact .inl rfl

theorem tracks_loginAjax (h : TracksLogins list history) (req : Request) :
    TracksLogins (loginAjaxHandler req list).2.1 (history ++ (loginAjaxHandler req list).2.2) := by
  rcases loginAjaxHandler_cases req list with heq | ⟨session, hcreate, heq⟩
  · rw [heq]
    rwa [List.append_nil]
  · rw [heq]
    rw [List.append_nil]
    exact Tracks.add h (ewfSessionCreate_eq_some hcreate).1

/-! ### Requests and runs -/

theorem tracks_handler (crypto : Crypto) (h : TracksLogins list history) (req : Request)
    (handler : Handler) :
    TracksLogins (handler.run crypto req list).1 (history ++ (handler.run crypto req list).2) := by
  have hsame : TracksLogins list (history ++ []) := by rwa [List.append_nil]
  cases handler with
  | loginForm => exact tracks_smithLogin crypto h req.login
  | loginAjax => exact tracks_loginAjax h req
  | logoutDisplay => exact tracks_smithLogout h _
  | adminForm =>
    rw [Handler.run]
    split_ifs
    · exact tracks_smithLogout h _
    · exact hsame
  | other => exact hsame

theorem tracks_runHandlers (crypto : Crypto) (req : Request) (handlers : List Handler) :
    ∀ {list history}, TracksLogins list history →
      TracksLogins (runHandlers (Handler.run crypto req) list handlers).1
        (history ++ (runHandlers (Handler.run crypto req) list handlers).2) := by
  induction handlers with
  | nil =>
    intro list history h
    simpa [runHandlers] using h
  | cons handler handlers ih =>
    intro list history h
    have := ih (tracks_handler crypto h req handler)
    rwa [List.append_assoc] at this

/-- **One request** keeps the marks and the history together. -/
theorem tracks_serve (crypto : Crypto) (h : TracksLogins list history) (hit : Hit) :
    TracksLogins (serve crypto list hit).1 (history ++ (serve crypto list hit).2) := by
  have := tracks_runHandlers crypto hit.req
    (hit.page.handlers hit.type
      (ewfSmithAccessControl list hit.page.accessPolicy hit.req.visit).1)
    (tracks_accessControl h hit.page.accessPolicy hit.req.visit)
  rwa [List.append_assoc] at this

theorem tracks_run (crypto : Crypto) (hits : List Hit) :
    TracksLogins (run (serve crypto) empty hits).1 (run (serve crypto) empty hits).2 :=
  run_inv (serve crypto) (P := TracksLogins) tracks_empty
    (fun _ _ hit h => tracks_serve crypto h hit) hits

/-! ### Access -/

/-- When the access control answers `EWF_SMITH_CTL_SUCCESS`. -/
theorem accessControl_eq_success_iff (list : Sessions) (access : PageAccess) (visit : Visit) :
    (ewfSmithAccessControl list access visit).1 = .success ↔
      configValue "web_auth" visit.webAuth ≠ "off" ∧
      ∃ sid k session, visit.cookieSid = some sid ∧
        ewfSessionListGet list sid = some (k, session) ∧
        visit.now ≤ session.tv + sessionTimeout := by
  have hcheck : (ewfSmithCheckSession list visit).1 = true ↔
      ∃ sid k session, visit.cookieSid = some sid ∧
        ewfSessionListGet list sid = some (k, session) ∧
        visit.now ≤ session.tv + sessionTimeout := by
    rcases hsid : visit.cookieSid with - | sid
    · simp [ewfSmithCheckSession, hsid]
    · rcases hget : ewfSessionListGet list sid with - | ⟨k, session⟩
      · simp [ewfSmithCheckSession, hsid, hget]
      · by_cases hnow : visit.now > session.tv + sessionTimeout
        · simp [ewfSmithCheckSession, hsid, hget, hnow]
        · simp [ewfSmithCheckSession, hsid, hget, hnow, Int.not_lt.mp hnow]
  rw [← hcheck]
  unfold ewfSmithAccessControl
  split_ifs with hoff
  · simp [hoff]
  · rcases heq : ewfSmithCheckSession list visit with ⟨b, list', events⟩
    cases b
    · cases access <;> simp
    · simp [hoff]

/-- **Who gets in.**  After any sequence of requests, from an empty session list: whenever the
access control answers `EWF_SMITH_CTL_SUCCESS` to a request, a login with the session that its
cookie names stands in the history, if and only if the cookie does not name a session that was
never activated and has not expired. -/
theorem accessControl_success_iff (crypto : Crypto) (hits : List Hit) (access : PageAccess)
    (visit : Visit) :
    let list := (run (serve crypto) empty hits).1
    let history := (run (serve crypto) empty hits).2
    ((ewfSmithAccessControl list access visit).1 = .success →
      ∃ sid k session, visit.cookieSid = some sid ∧
        ewfSessionListGet list sid = some (k, session) ∧ Standing history k ()) ↔
    (∀ sid k session, visit.cookieSid = some sid →
      ewfSessionListGet list sid = some (k, session) →
      configValue "web_auth" visit.webAuth ≠ "off" →
      visit.now ≤ session.tv + sessionTimeout → session.activated = true) := by
  intro list history
  have h : TracksLogins list history := tracks_run crypto hits
  rw [accessControl_eq_success_iff]
  constructor
  · intro hlogged sid k session hsid hget hauth hnow
    -- the session is let in, so a login stands for it, and only marked sessions have one
    obtain ⟨sid', k', session', hsid', hget', hstanding⟩ :=
      hlogged ⟨hauth, sid, k, session, hsid, hget, hnow⟩
    obtain rfl : sid = sid' := Option.some.inj (hsid.symm.trans hsid')
    obtain ⟨rfl, rfl⟩ := Prod.mk.inj (Option.some.inj (hget.symm.trans hget'))
    exact h.standing _ (mem_of_find? hget).1 () hstanding
  · rintro hactive ⟨hauth, sid, k, session, hsid, hget, hnow⟩
    obtain ⟨⟨⟩, hstanding, -⟩ := h.marked _ (mem_of_find? hget).1
      (hactive sid k session hsid hget hauth hnow)
    exact ⟨sid, k, session, hsid, hget, hstanding⟩

/-- A client asks the login page for a challenge and sends it back as its cookie a second later: it
is let in to a private page, and nobody has logged in. -/
theorem accessControl_accepts_challenge :
    let noForm : Credentials := ⟨none, none, none, none, none, .all, "", "", ""⟩
    let challenge : Hit := ⟨.ajax, loginPage, ⟨none, some "passwd", 1000⟩, some "challenge", none,
      ⟨none, none, none, noForm, none, ⟨some 1000, some (List.replicate 20 0)⟩, true, 1000⟩, false⟩
    let visit : Visit := ⟨some (String.ofList (List.replicate 40 '0')), some "passwd", 1001⟩
    let list := (run (serve default) empty [challenge]).1
    (ewfSmithAccessControl list .private_ visit).1 = .success ∧
      (run (serve default) empty [challenge]).2 = [] := by
  decide

end Neufbox.Www
