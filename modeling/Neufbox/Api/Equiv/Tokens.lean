import Neufbox.Api.Common

/-!
# The tokens of the API

* `token_random_iff`: a token is made of random bytes only if `/dev/random` can be opened and gives
  enough of them, which `ewf_session_create` does not look at.
* `getToken_all_or_nothing_iff`: a request for a token that is answered with an error should leave
  no session behind.  `auth.getToken` goes on after the error "Authentification disabled", and
  `api_handle_request` calls it after the error of the upgrade.
-/

namespace Neufbox.Api

open Libewf (Session Sessions Crypto)
open Libnbu ByteStream Registry

/-! ### Creation -/

theorem Creation.length_rdm (c : Creation) : c.rdm.length = challengeSize / 2 := by
  unfold Creation.rdm
  rcases c.random with - | s
  · exact c.length_stack
  · dsimp only
    rw [length_overlay, c.length_stack]
    rw [fullRead_bytes, List.length_take, c.length_stack]
    exact Nat.min_le_left _ _

/-- The array holds the bytes that were read, if there are enough of them. -/
theorem Creation.rdm_eq_of_le {c : Creation} {s : List Arrival} (hopen : c.random = some s)
    (henough : challengeSize / 2 ≤ (delivered s).length) :
    c.rdm = (fullRead (challengeSize / 2) s).bytes := by
  unfold Creation.rdm
  rw [hopen]
  apply overlay_of_length_eq
  rw [fullRead_bytes, List.length_take, c.length_stack]
  exact Nat.min_eq_left henough

/-- **What `ewf_session_create` does**: it adds an unactivated session whose id is the token. -/
theorem ewfSessionCreate_eq_some_iff {list list' : Sessions} {size : ℕ} {c : Creation}
    {token : String} :
    ewfSessionCreate list size c = some (token, list') ↔
      challengeSize < size ∧ c.inserted = true ∧ ∃ tv, c.clock = some tv ∧
        token = hexString c.rdm ∧ list' = list.add ⟨false, token, tv⟩ := by
  have hcopy : nbuStringCopy (challengeSize + 1) (hexString c.rdm) = hexString c.rdm := by
    apply nbuStringCopy_of_lt
    rw [length_hexString, c.length_rdm]
    decide
  unfold ewfSessionCreate
  rcases c.clock with - | tv
  · simp
  · dsimp only
    rw [hcopy]
    split_ifs with hsize hinserted
    · simp only [Option.some.injEq, Prod.mk.injEq, hsize, hinserted, true_and, exists_eq_left']
      constructor
      · rintro ⟨rfl, rfl⟩
        exact ⟨rfl, rfl⟩
      · rintro ⟨rfl, rfl⟩
        exact ⟨rfl, rfl⟩
    · simp [hinserted]
    · simp [hsize]

/-- **Random tokens.**  `ewf_session_create` adds a session, and succeeds, only if the id of the
session is the hexadecimal form of `CHALLENGE_SIZE / 2` bytes that it has read from `/dev/random`,
if and only if it can open `/dev/random` and that many bytes arrive before the end or a failure, or
it does not succeed for another reason: the buffer is too small, there is no clock or no memory. -/
theorem token_random_iff (list : Sessions) (size : ℕ) (c : Creation) :
    (∀ token list', ewfSessionCreate list size c = some (token, list') →
      ∃ s session, c.random = some s ∧
        (fullRead (challengeSize / 2) s).bytes.length = challengeSize / 2 ∧
        session.id = hexString (fullRead (challengeSize / 2) s).bytes ∧ session.id = token ∧
        list' = list.add session) ↔
    (∃ s, c.random = some s ∧ challengeSize / 2 ≤ (delivered s).length) ∨
      size ≤ challengeSize ∨ c.clock = none ∨ c.inserted = false := by
  constructor
  · intro hrandom
    by_contra hcond
    simp only [not_or, not_le, Bool.not_eq_false] at hcond
    obtain ⟨hshort, hsize, hclock, hinserted⟩ := hcond
    obtain ⟨tv, hclock⟩ := Option.ne_none_iff_exists'.mp hclock
    obtain ⟨s, -, hopen, hlength, -⟩ := hrandom _ _
      (ewfSessionCreate_eq_some_iff.mpr ⟨hsize, hinserted, tv, hclock, rfl, rfl⟩)
    -- as many bytes were stored as had arrived
    rw [fullRead_bytes, List.length_take] at hlength
    exact hshort ⟨s, hopen, by omega⟩
  · rintro hcond token list' hcreate
    obtain ⟨hsize, hinserted, tv, hclock, rfl, rfl⟩ := ewfSessionCreate_eq_some_iff.mp hcreate
    rcases hcond with ⟨s, hopen, henough⟩ | hsmall | hnone | hfull
    · have hrdm := Creation.rdm_eq_of_le hopen henough
      exact ⟨s, _, hopen, by rw [← hrdm, c.length_rdm], by rw [← hrdm], rfl, rfl⟩
    · exact absurd hsize (by omega)
    · rw [hclock] at hnone
      exact nomatch hnone
    · rw [hinserted] at hfull
      exact nomatch hfull

/-- `/dev/random` cannot be opened: the token is what the stack held. -/
theorem ewfSessionCreate_takes_stack :
    let c : Creation := ⟨some 1000, List.replicate 20 0xab, rfl, none, true⟩
    c.random = none ∧ (ewfSessionCreate empty 256 c).map Prod.fst =
      some "abababababababababababababababababababab" := by
  decide

/-! ### Requests for a token -/

/-- What became of `auth.getToken`: the list, and what the answer has of it. -/
inductive TokenStep (list : Sessions) (env : GetTokenEnv) (hdf : Hdf) : Sessions → Hdf → Prop
  | refused (list' hdf') (hlist : list'.entries ⊆ list.entries)
      (hstat : hdf'.get "stat" = some "fail")
      (hcause : 64 < ewfSessionCount (ewfSessionCleaner list env.cleanerNow).2 ∨
        env.creation.clock = none ∨ env.creation.inserted = false) :
      TokenStep list env hdf list' hdf'
  | created (kept session hdf') (hkept : kept = (ewfSessionCleaner list env.cleanerNow).2)
      (hroom : ewfSessionCount kept ≤ 64) (hclock : env.creation.clock ≠ none)
      (hinserted : env.creation.inserted = true) (hactivated : session.activated = false)
      (htoken : hdf'.get "auth.token" = some session.id)
      (hstat : hdf'.get "stat" = if env.webAuth = some "off" then some "fail" else hdf.get "stat") :
      TokenStep list env hdf (kept.add session) hdf'

theorem entries_cleaner_subset (list : Sessions) (now : Int) :
    (ewfSessionCleaner list now).2.entries ⊆ list.entries :=
  List.filter_sublist.subset

/-- **Every call** of `auth.getToken` does one of these. -/
theorem tokenStep (list : Sessions) (env : GetTokenEnv) (hdf : Hdf) :
    TokenStep list env hdf (getToken list env hdf).1 (getToken list env hdf).2.2 := by
  unfold getToken
  dsimp only
  by_cases hfull : ewfSessionCount (ewfSessionCleaner list env.cleanerNow).2 > 64
  · rw [if_pos hfull]
    exact .refused _ _
      (List.Subset.trans (entries_cleaner_subset _ _) (entries_cleaner_subset _ _))
      (apiSetCustomError_reports _ _ _).stat (.inl hfull)
  · rw [if_neg hfull]
    rcases hcreate : ewfSessionCreate (ewfSessionCleaner list env.cleanerNow).2 256 env.creation
      with - | ⟨token, list'⟩
    · refine .refused _ _ (entries_cleaner_subset _ _) (apiSetError_reports _ _).stat (.inr ?_)
      by_contra hcond
      simp only [not_or, Bool.not_eq_false] at hcond
      obtain ⟨tv, hclock⟩ := Option.ne_none_iff_exists'.mp hcond.1
      exact nomatch hcreate.symm.trans (ewfSessionCreate_eq_some_iff.mpr
        ⟨show challengeSize < 256 by decide, hcond.2, tv, hclock, rfl, rfl⟩)
    · obtain ⟨-, hinserted, tv, hclock, -, rfl⟩ := ewfSessionCreate_eq_some_iff.mp hcreate
      refine .created _ ⟨false, token, tv⟩ _ rfl (Nat.le_of_not_lt hfull)
        (by rw [hclock]; exact nofun) hinserted rfl ?_ ?_
      · rcases env.webAuth' with - | webAuth
        · exact get_apiSetValue_self _ _ _
        · exact (get_apiSetValue_of_ne _ _ (by decide)).trans (get_apiSetValue_self _ _ _)
      · have hstat : (if env.webAuth = some "off" then
              apiSetCustomError hdf "205" "Authentification disabled" else hdf).get "stat"
            = if env.webAuth = some "off" then some "fail" else hdf.get "stat" := by
          split_ifs
          · exact (apiSetCustomError_reports _ _ _).stat
          · rfl
        rw [← hstat]
        rcases env.webAuth' with - | webAuth
        · exact get_apiSetValue_of_ne _ _ (by decide)
        · exact (get_apiSetValue_of_ne _ _ (by decide)).trans
            (get_apiSetValue_of_ne _ _ (by decide))

/-- `auth.getToken`, as it is registered. -/
def getTokenMethod (env : GetTokenEnv) : Method := ⟨.get, .public_, some (.getToken env)⟩

def getTokenXml : String := "api/auth.getToken.xml"

/-- The token that an answer shows.  The template of the method has it, the generic one has only
`stat` and the error. -/
def shownToken (answer : String × Hdf) : Option String :=
  if answer.1 = getTokenXml then answer.2.get "auth.token" else none

/-- With an error, no session is added and no token is shown; without one, the answer shows the id
of the one session that is added, which is not activated. -/
structure AllOrNothing (list : Sessions) (handled : Handled) : Prop where
  error : (∃ answer ∈ handled.displays, answer.2.get "stat" = some "fail") →
    handled.list.entries ⊆ list.entries ∧ ∀ answer ∈ handled.displays, shownToken answer = none
  ok : ∀ answer ∈ handled.displays, answer.2.get "stat" = some "ok" →
    ∃ (kept : Sessions) (session : Session), handled.list = kept.add session ∧
      kept.entries ⊆ list.entries ∧
      session.activated = false ∧ shownToken answer = some session.id

/-- The values and the list after a request for a token. -/
theorem handleAction_getToken (crypto : Crypto) (list : Sessions) (env : GetTokenEnv)
    (req : Request) (hdf : Hdf) (displays : List (String × Hdf)) :
    handleAction crypto list .public_ (.getToken env) req hdf displays =
      ⟨(getToken list env hdf).1, (getToken list env hdf).2.1, true,
        displays ++ [answer req.name req.reqm (getToken list env hdf).2.2]⟩ := rfl

theorem not_subset_add {list kept : Sessions} {session : Session} (hnext : kept.next = list.next) :
    ¬ (kept.add session).entries ⊆ list.entries := by
  intro hsub
  have hmem := hsub (List.mem_append_right kept.entries (List.mem_singleton_self _))
  have := list.lt_next _ hmem
  rw [← hnext] at this
  exact absurd this (Nat.lt_irrefl _)

/-- An answer to a request that failed is an error, by the generic template. -/
theorem answer_of_fail {hdf : Hdf} (h : hdf.get "stat" = some "fail") (name : String)
    (reqm : HttpMethod) : answer name reqm hdf = (genericXml, hdf) := if_pos h

theorem shownToken_generic (hdf : Hdf) : shownToken (genericXml, hdf) = none :=
  if_neg (show ¬ genericXml = getTokenXml by decide)

/-- Errors only: nothing is added, and nothing is shown. -/
theorem allOrNothing_of_errors {list : Sessions} {handled : Handled}
    (hlist : handled.list.entries ⊆ list.entries)
    (herrors : ∀ answer ∈ handled.displays,
      answer.1 = genericXml ∧ answer.2.get "stat" = some "fail") : AllOrNothing list handled := by
  constructor
  · rintro -
    refine ⟨hlist, ?_⟩
    rintro ⟨template, hdf⟩ hanswer
    obtain ⟨rfl, -⟩ := herrors _ hanswer
    exact shownToken_generic hdf
  · intro answer hanswer hok
    rw [(herrors answer hanswer).2] at hok
    exact absurd hok (by decide)

/-- An answer without an error is by the template of the method. -/
theorem answer_getToken {hdf : Hdf} (h : hdf.get "stat" = none) :
    answer "auth.getToken" .get hdf = (getTokenXml, apiSetValue hdf "stat" "ok") := by
  rw [answer, if_neg (by rw [h]; exact nofun), if_pos rfl, nbuStringCopy_of_lt (by decide)]
  rfl

section

variable {list kept : Sessions} {session : Session} {handled : Handled}

/-- An error, and a session. -/
theorem not_allOrNothing_of_error (hlist : handled.list = kept.add session)
    (hnext : kept.next = list.next) {answer : String × Hdf} (hanswer : answer ∈ handled.displays)
    (hfail : answer.2.get "stat" = some "fail") : ¬AllOrNothing list handled := by
  intro hall
  have hsub := (hall.error ⟨answer, hanswer, hfail⟩).1
  rw [hlist] at hsub
  exact not_subset_add hnext hsub

/-- A session, and its id as the only answer. -/
theorem allOrNothing_of_token (hlist : handled.list = kept.add session)
    (hkept : kept.entries ⊆ list.entries) (hactivated : session.activated = false) {hdf : Hdf}
    (htoken : hdf.get "auth.token" = some session.id)
    (hdisplays : handled.displays = [(getTokenXml, apiSetValue hdf "stat" "ok")]) :
    AllOrNothing list handled := by
  constructor
  · rintro ⟨answer, hanswer, hfail⟩
    rw [hdisplays, List.mem_singleton] at hanswer
    rw [hanswer, get_apiSetValue_self] at hfail
    exact absurd hfail (by decide)
  · rintro answer hanswer -
    rw [hdisplays, List.mem_singleton] at hanswer
    refine ⟨kept, session, hlist, hkept, hactivated, ?_⟩
    rw [hanswer, shownToken, if_pos rfl, get_apiSetValue_of_ne _ _ (by decide), htoken]

end

/-- The handler of a request for a token, after the answers `displays`. -/
theorem allOrNothing_handleAction_iff (crypto : Crypto) (list : Sessions) (env : GetTokenEnv)
    {req : Request} (hreqm : req.reqm = .get) (hname : req.name = "auth.getToken") {hdf : Hdf}
    {displays : List (String × Hdf)}
    (hdisplays : ∀ answer ∈ displays, answer.1 = genericXml ∧ answer.2.get "stat" = some "fail")
    (hhdf : hdf.get "stat" = some "fail" ∨ hdf.get "stat" = none ∧ displays = []) :
    AllOrNothing list (handleAction crypto list .public_ (.getToken env) req hdf displays) ↔
      (hdf.get "stat" = none ∧ env.webAuth ≠ some "off") ∨
        64 < ewfSessionCount (ewfSessionCleaner list env.cleanerNow).2 ∨
        env.creation.clock = none ∨ env.creation.inserted = false := by
  rw [handleAction_getToken]
  have hstep := tokenStep list env hdf
  generalize (getToken list env hdf).1 = list' at hstep ⊢
  generalize (getToken list env hdf).2.2 = hdf' at hstep ⊢
  cases hstep with
  | refused list' hdf' hlist hstat hcause =>
    refine iff_of_true (allOrNothing_of_errors hlist ?_) (.inr hcause)
    intro answer hanswer
    rcases List.mem_append.mp hanswer with hanswer | hanswer
    · exact hdisplays answer hanswer
    · rw [List.mem_singleton.mp hanswer, answer_of_fail hstat]
      exact ⟨rfl, hstat⟩
  | created kept session hdf' hkept hroom hclock hinserted hactivated htoken hstat =>
    by_cases hfail : hdf'.get "stat" = some "fail"
    · have hlast := List.mem_append_right displays (List.mem_singleton_self
        (answer req.name req.reqm hdf'))
      refine iff_of_false (not_allOrNothing_of_error rfl (hkept ▸ rfl) hlast ?_) ?_
      · rw [answer_of_fail hfail]
        exact hfail
      · rintro (⟨hnone, hon⟩ | hfull | hnone | hno)
        · rw [hstat, if_neg hon, hnone] at hfail
          exact nomatch hfail
        · rw [← hkept] at hfull
          omega
        · exact hclock hnone
        · exact absurd (hinserted.symm.trans hno) (by decide)
    · have hon : env.webAuth ≠ some "off" := fun hoff => hfail (by rw [hstat, if_pos hoff])
      rw [if_neg hon] at hstat
      rw [hstat] at hfail
      obtain ⟨hnone, rfl⟩ := hhdf.resolve_left hfail
      refine iff_of_true (allOrNothing_of_token rfl (hkept ▸ entries_cleaner_subset _ _) hactivated
        htoken ?_) (.inl ⟨hnone, hon⟩)
      rw [List.nil_append, hreqm, hname, answer_getToken (hstat.trans hnone)]

/-- **All or nothing.**  For every session list, every clock and every outcome of the reads: a
request for a token adds no session and shows no token with an error, and adds exactly the session
whose id it shows without one, if and only if no download is going on and the first read of
`web_auth` does not give `off`, or no session can be created: 64 sessions are exceeded, there is no
clock or no memory. -/
theorem getToken_all_or_nothing_iff (crypto : Crypto) (list : Sessions) (req : Request)
    (env : GetTokenEnv) (hm : req.m = some (getTokenMethod env)) (hreqm : req.reqm = .get)
    (hname : req.name = "auth.getToken") (hstat : req.hdf.get "stat" = none) :
    AllOrNothing list (apiHandleRequest crypto list req) ↔
      (req.downloading = false ∧ env.webAuth ≠ some "off") ∨
        64 < ewfSessionCount (ewfSessionCleaner list env.cleanerNow).2 ∨
        env.creation.clock = none ∨ env.creation.inserted = false := by
  have hupgrading : req.upgrading.2.get "stat" = some "fail" := (apiSetError_reports _ _).stat
  rw [apiHandleRequest_eq crypto list hm hreqm rfl]
  by_cases hdown : req.downloading = true
  · have herrors : ∀ answer ∈ [req.upgrading],
        answer.1 = genericXml ∧ answer.2.get "stat" = some "fail" := by
      intro answer hanswer
      rw [List.mem_singleton.mp hanswer]
      exact ⟨rfl, hupgrading⟩
    rw [if_pos hdown]
    refine (allOrNothing_handleAction_iff crypto list env hreqm hname herrors
      (.inl hupgrading)).trans ?_
    simp [hdown, hupgrading]
  · have herrors : ∀ answer ∈ ([] : List (String × Hdf)),
        answer.1 = genericXml ∧ answer.2.get "stat" = some "fail" := fun _ h => nomatch h
    rw [if_neg hdown]
    refine (allOrNothing_handleAction_iff crypto list env hreqm hname herrors
      (.inr ⟨hstat, rfl⟩)).trans ?_
    simp [hdown, hstat]

/-- A request for a token, when `/dev/random` gives zeros and `web_auth` is read as given. -/
def tokenRequest (webAuth : String) : Request where
  m := some (getTokenMethod ⟨1000, 1000, some webAuth,
    ⟨some 1000, List.replicate 20 0, rfl, some [.data 0 (List.replicate 19 0)], true⟩,
    some webAuth⟩)
  name := "auth.getToken"
  reqm := .get
  token := none
  autoconfStatus := some "idle"
  webAuth := some webAuth
  clock := some 1000
  hdf := []

theorem getToken_all_or_nothing_iff_passwd :
    AllOrNothing empty (apiHandleRequest default empty (tokenRequest "passwd")) ∧
      (apiHandleRequest default empty (tokenRequest "passwd")).displays.map shownToken
        = [some (String.ofList (List.replicate 40 '0'))] :=
  ⟨(getToken_all_or_nothing_iff default empty (tokenRequest "passwd") _ rfl rfl rfl rfl).mpr
    (.inl ⟨by decide, by decide⟩), by decide⟩

/-- `web_auth` is `off`: the answer is the error 205, and a session was added. -/
theorem getToken_adds_session_with_error :
    let handled := apiHandleRequest default empty (tokenRequest "off")
    handled.displays.map (fun answer => answer.2.get "stat") = [some "fail"] ∧
      handled.displays.map (fun answer => answer.2.get "err.code") = [some "205"] ∧
      handled.list.entries
        = [(0, ⟨false, String.ofList (List.replicate 40 '0'), 1000⟩)] := by
  decide

end Neufbox.Api
