import Neufbox.Libewf.Smith

/-!
# What a request does to the sessions

`AccessStep` lists what the access control can do to the session list (`accessStep`), and
`LoginStep` what `ewf_smith_login` can do (`loginStep`).  A login form may name a session of the
list, its challenge, by the value `zsid`.  A login does nothing, creates a session that is activated
at once, activates the session that was named, or removes it.

The code looks the session up by its id alone.  It takes a session that is activated already for a
challenge as well, and a login that fails then ends that session (`failed_login_keeps_iff`).
-/

namespace Neufbox.Libewf

open Libnbu Registry

/-! ### Access control -/

/-- What the access control does to the list, and its events. -/
inductive AccessStep (list : Sessions) (visit : Visit) : Sessions → List SessionEvent → Prop
  | kept : AccessStep list visit list []
  | expired (sid) : AccessStep list visit (list.remove (Session.hasId sid))
      (list.removed (Session.hasId sid))
  | refreshed (sid k session) (hsid : visit.cookieSid = some sid)
      (hget : ewfSessionListGet list sid = some (k, session)) :
      AccessStep list visit (list.update k fun session => { session with tv := visit.now }) []

/-- **Every visit** does one of these. -/
theorem accessStep (list : Sessions) (access : PageAccess) (visit : Visit) :
    AccessStep list visit (ewfSmithAccessControl list access visit).2.1
      (ewfSmithAccessControl list access visit).2.2 := by
  have hcheck : AccessStep list visit (ewfSmithCheckSession list visit).2.1
      (ewfSmithCheckSession list visit).2.2 := by
    unfold ewfSmithCheckSession
    rcases hsid : visit.cookieSid with - | sid
    · exact .kept
    · dsimp only
      rcases hget : ewfSessionListGet list sid with - | ⟨k, session⟩
      · exact .kept
      · dsimp only
        split_ifs
        · exact .expired sid
        · exact .refreshed sid k session hsid hget
  unfold ewfSmithAccessControl
  split_ifs
  · exact .kept
  · rcases heq : ewfSmithCheckSession list visit with ⟨b, list', events⟩
    rw [heq] at hcheck
    cases b <;> exact hcheck

/-! ### Logins -/

/-- The session of the list that a login form names. -/
def LoginRequest.named (req : LoginRequest) (list : Sessions) : Option (ℕ × Session) :=
  if req.zsid = none ∨ req.zsid = some "" then none
  else ewfSessionListGet list (req.zsid.getD "")

/-- What `ewf_smith_login` does to the list, with its result and its events. -/
inductive LoginStep (crypto : Crypto) (list : Sessions) (req : LoginRequest) :
    SmithLogin → Sessions → List SessionEvent → Prop
  | kept (ret) (hret : ret ≠ .success) : LoginStep crypto list req ret list []
  | created (session) (hnamed : req.named list = none) (hzsid : req.zsid.getD "" = "")
      (hcreate : ewfSessionCreate req.entropy = some session)
      (haccepted : loginOutcome crypto session.id req = some .success) :
      LoginStep crypto list req .success
        ((list.add session).update list.next (Session.activate req.now)) [.marked list.next ()]
  | activated (k session) (hnamed : req.named list = some (k, session))
      (haccepted : loginOutcome crypto session.id req = some .success) :
      LoginStep crypto list req .success (list.update k (Session.activate req.now)) [.marked k ()]
  | removed (k session ret) (hnamed : req.named list = some (k, session))
      (hrefused : loginOutcome crypto session.id req = some ret) (hret : ret ≠ .success) :
      LoginStep crypto list req ret (list.remove (Session.hasId (req.zsid.getD "")))
        (list.removed (Session.hasId (req.zsid.getD "")))

variable {list : Sessions}

/-- A session has no clock of its own: it is created with the time of the request. -/
theorem ewfSessionCreate_eq_some {e : Entropy} {session : Session}
    (h : ewfSessionCreate e = some session) :
    session.activated = false ∧ session.id.length = sidLen ∧ e.clock = some session.tv := by
  rw [ewfSessionCreate] at h
  split at h
  case h_1 tv rdm hclock _ =>
    split_ifs at h with hlength
    obtain rfl := Option.some.inj h
    refine ⟨rfl, ?_, hclock⟩
    rw [length_hexString, hlength]
    rfl
  case h_2 => exact nomatch h

/-- An id of full length is named by itself only. -/
theorem eq_id_of_hasId {sid : String} {session : Session} (hlength : session.id.length = sidLen)
    (h : session.hasId sid = true) : sid = session.id := by
  have htake : session.id.toList.take 41 = sid.toList.take 41 := of_decide_eq_true h
  have hid : session.id.toList.length = 40 := by rw [String.length_toList, hlength]; rfl
  rw [List.take_of_length_le (by omega)] at htake
  -- the name is no longer than the characters that are compared
  have hsid : sid.toList.length ≤ 41 := by
    have := congrArg List.length htake
    rw [List.length_take] at this
    omega
  rw [List.take_of_length_le hsid] at htake
  exact String.toList_injective htake.symm

theorem eq_add_of_ewfSessionListAdd {session : Session} {inserted : Bool} {list' : Sessions}
    (h : ewfSessionListAdd list session inserted = some list') : list' = list.add session := by
  rw [ewfSessionListAdd] at h
  split_ifs at h
  exact (Option.some.inj h).symm

/-- **Every login** does one of these. -/
theorem loginStep (crypto : Crypto) (list : Sessions) (req : LoginRequest) :
    LoginStep crypto list req (ewfSmithLogin crypto list req).1
      (ewfSmithLogin crypto list req).2.1 (ewfSmithLogin crypto list req).2.2.1 := by
  rw [ewfSmithLogin]
  split_ifs with hz
  · have hnamed : req.named list = none := if_pos hz
    have hzsid : req.zsid.getD "" = "" := by rcases hz with hz | hz <;> rw [hz] <;> rfl
    rcases hcreate : ewfSessionCreate req.entropy with - | session
    · exact .kept .error (by decide)
    · dsimp only
      rcases hout : loginOutcome crypto session.id req with - | ret
      · exact .kept .methodNotAllowed (by decide)
      · by_cases hret : ret = .success
        · subst hret
          dsimp only
          rcases hadd : ewfSessionListAdd list session req.inserted with - | list'
          · exact .kept .error (by decide)
          · obtain rfl := eq_add_of_ewfSessionListAdd hadd
            exact .created session hnamed hzsid hcreate hout
        · cases ret <;> first | exact absurd rfl hret | exact .kept _ hret
  · dsimp only
    rcases hget : ewfSessionListGet list (req.zsid.getD "") with - | ⟨k, session⟩
    · exact .kept .invalidSession (by decide)
    · have hnamed : req.named list = some (k, session) := (if_neg hz).trans hget
      dsimp only
      rcases hout : loginOutcome crypto session.id req with - | ret
      · exact .kept .methodNotAllowed (by decide)
      · by_cases hret : ret = .success
        · subst hret
          exact .activated k session hnamed hout
        · cases ret <;>
            first | exact absurd rfl hret | exact .removed k session _ hnamed hout hret

/-! ### Failed logins -/

variable {crypto : Crypto} {req : LoginRequest} {k : ℕ} {session : Session}

theorem get_of_named (h : req.named list = some (k, session)) :
    ewfSessionListGet list (req.zsid.getD "") = some (k, session) := by
  unfold LoginRequest.named at h
  split_ifs at h
  exact h

theorem zsid_of_named (h : req.named list = some (k, session)) :
    ¬ (req.zsid = none ∨ req.zsid = some "") := by
  intro hz
  rw [LoginRequest.named, if_pos hz] at h
  exact nomatch h

/-- A login with a session of the list that its method accepts. -/
theorem ewfSmithLogin_of_accepted (hnamed : req.named list = some (k, session))
    (haccepted : loginOutcome crypto session.id req = some .success) :
    (ewfSmithLogin crypto list req).1 = .success ∧
      (ewfSmithLogin crypto list req).2.1 = list.update k (Session.activate req.now) := by
  rw [ewfSmithLogin, if_neg (zsid_of_named hnamed)]
  simp only [get_of_named hnamed, haccepted]
  exact ⟨trivial, trivial⟩

/-- A login with a session of the list that its method refuses. -/
theorem ewfSmithLogin_of_refused (hnamed : req.named list = some (k, session)) {ret : SmithLogin}
    (hrefused : loginOutcome crypto session.id req = some ret) (hret : ret ≠ .success) :
    (ewfSmithLogin crypto list req).1 = ret ∧
      (ewfSmithLogin crypto list req).2.1 = list.remove (Session.hasId (req.zsid.getD "")) := by
  rw [ewfSmithLogin, if_neg (zsid_of_named hnamed)]
  simp only [get_of_named hnamed, hrefused]
  cases ret <;> first | exact absurd rfl hret | exact ⟨trivial, rfl⟩

/-- A login that succeeds was accepted by its method. -/
theorem accepted_of_success (h : (ewfSmithLogin crypto list req).1 = .success) :
    ∃ sid, loginOutcome crypto sid req = some .success := by
  have hstep := loginStep crypto list req
  rw [h] at hstep
  generalize (ewfSmithLogin crypto list req).2.1 = list' at hstep
  generalize (ewfSmithLogin crypto list req).2.2.1 = events at hstep
  cases hstep with
  | kept _ hret => exact absurd rfl hret
  | created session _ _ _ haccepted => exact ⟨session.id, haccepted⟩
  | activated k session _ haccepted => exact ⟨session.id, haccepted⟩
  | removed _ _ _ _ _ hret => exact absurd rfl hret

/-- An alternative method that makes no difference to the outcome makes none to the login. -/
theorem ewfSmithLogin_altMethod {altMethod : Option (String → SmithLogin)}
    (hout : ∀ sid, loginOutcome crypto sid { req with altMethod } = loginOutcome crypto sid req) :
    ewfSmithLogin crypto list { req with altMethod } = ewfSmithLogin crypto list req := by
  unfold ewfSmithLogin
  simp only [hout]

/-- **Failed logins.**  A login that does not succeed leaves every activated session of the list as
it is, if and only if the session that it names, if any, is not activated, or its method is not
allowed, or the check of its method succeeds. -/
theorem failed_login_keeps_iff (crypto : Crypto) (list : Sessions) (req : LoginRequest) :
    ((ewfSmithLogin crypto list req).1 ≠ .success →
      ∀ e ∈ list.entries, e.2.activated = true → e ∈ (ewfSmithLogin crypto list req).2.1.entries) ↔
    ∀ k session, req.named list = some (k, session) → session.activated = true →
      ∀ ret, loginOutcome crypto session.id req = some ret → ret = .success := by
  constructor
  · intro hkeeps k session hnamed hactivated ret hout
    by_contra hret
    obtain ⟨heq, hlist⟩ := ewfSmithLogin_of_refused hnamed hout hret
    rw [heq, hlist] at hkeeps
    have hget := get_of_named hnamed
    exact (mem_remove_iff.mp (hkeeps hret _ (mem_of_find? hget).1 hactivated)).2 hget
  · intro hcond hfailed e he hactivated
    have hstep := loginStep crypto list req
    generalize (ewfSmithLogin crypto list req).1 = ret at hstep hfailed
    generalize (ewfSmithLogin crypto list req).2.1 = list' at hstep ⊢
    generalize (ewfSmithLogin crypto list req).2.2.1 = events at hstep
    cases hstep with
    | kept => exact he
    | created => exact absurd rfl hfailed
    | activated => exact absurd rfl hfailed
    | removed k session ret hnamed hrefused hret =>
      -- the session that is removed is not activated, so it is not the one we look at
      refine mem_remove_iff.mpr ⟨he, fun heq => hret ?_⟩
      obtain rfl := Option.some.inj (heq.symm.trans (get_of_named hnamed))
      exact hcond k session hnamed hactivated ret hrefused

/-- The session of a user who has logged in, and a login form that names it and has neither a login
nor a hash: the login fails, and the session is gone. -/
theorem failed_login_ends_session :
    let sid := String.ofList (List.replicate 40 '0')
    let list : Sessions := Registry.empty.add ⟨true, sid, 1000⟩
    let noForm : Credentials := ⟨none, none, none, none, none, .all, "", "", ""⟩
    let req : LoginRequest :=
      ⟨some sid, none, some "passwd", noForm, none, ⟨none, none⟩, true, 1001⟩
    (ewfSmithLogin default list req).1 = .invalidArgs ∧
      (0, ⟨true, sid, 1000⟩) ∈ list.entries ∧
      (ewfSmithLogin default list req).2.1.entries = [] := by
  decide

end Neufbox.Libewf
