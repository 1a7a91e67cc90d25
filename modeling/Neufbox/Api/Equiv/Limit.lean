import Mathlib.Data.List.Infix
import Neufbox.Api.Equiv.Authorization

/-!
# How many sessions the API holds

Only `auth.getToken` makes the session list longer (`count_step`), and it refuses with more than
`MAXSESSION_COUNT` sessions left after its cleaning, so that it adds one to exactly that many:

* `session_count_le_succ`: no run of requests gets to more than `MAXSESSION_COUNT + 1` sessions;
* `session_count_le_iff`: a run stays within `MAXSESSION_COUNT` sessions if and only if no request
  for a token that can create a session finds exactly that many left.
-/

namespace Neufbox.Api

open Libewf (Session Sessions Crypto)
open Machine Registry

/-! ### The functions on the list -/

theorem count_cleaner_le (list : Sessions) (now : Int) :
    ewfSessionCount (ewfSessionCleaner list now).2 ≤ ewfSessionCount list :=
  List.length_filter_le _ _

/-- There are a clock and the memory for a new session. -/
def GetTokenEnv.Creates (env : GetTokenEnv) : Prop :=
  env.creation.clock ≠ none ∧ env.creation.inserted = true

/-- A request for a token leaves no more sessions than its cleaning, or one more, and this only if
the cleaning left at most `MAXSESSION_COUNT`. -/
theorem count_getToken (list : Sessions) (env : GetTokenEnv) (hdf : Hdf) :
    (ewfSessionCount (getToken list env hdf).1
        ≤ ewfSessionCount (ewfSessionCleaner list env.cleanerNow).2 ∧
      (env.Creates → maxsessionCount < ewfSessionCount (ewfSessionCleaner list env.cleanerNow).2)) ∨
    (env.Creates ∧ ewfSessionCount (ewfSessionCleaner list env.cleanerNow).2 ≤ maxsessionCount ∧
      ewfSessionCount (getToken list env hdf).1
        = ewfSessionCount (ewfSessionCleaner list env.cleanerNow).2 + 1) := by
  unfold getToken
  dsimp only
  generalize (ewfSessionCleaner list env.cleanerNow).2 = kept
  by_cases hfull : ewfSessionCount kept > 64
  · rw [if_pos hfull]
    exact .inl ⟨count_cleaner_le _ _, fun _ => hfull⟩
  · rw [if_neg hfull]
    rcases hcreate : ewfSessionCreate kept 256 env.creation with - | ⟨token, list'⟩
    · refine .inl ⟨le_rfl, ?_⟩
      rintro ⟨hclock, hinserted⟩
      obtain ⟨tv, htv⟩ := Option.ne_none_iff_exists'.mp hclock
      exact nomatch hcreate.symm.trans (ewfSessionCreate_eq_some_iff.mpr
        ⟨show challengeSize < 256 by decide, hinserted, tv, htv, rfl, rfl⟩)
    · obtain ⟨-, hinserted, tv, hclock, -, rfl⟩ := ewfSessionCreate_eq_some_iff.mp hcreate
      refine .inr ⟨⟨by rw [hclock]; exact nofun, hinserted⟩, Nat.le_of_not_lt hfull, ?_⟩
      exact List.length_append

/-! ### Requests -/

/-- `auth.getToken` is only called as the method it is registered as. -/
def Request.Registered (req : Request) : Prop :=
  ∀ m env, req.m = some m → m.actionHandler = some (.getToken env) → m = getTokenMethod env

/-- The request calls `auth.getToken`, which can create a session. -/
def Request.Asks (req : Request) (env : GetTokenEnv) : Prop :=
  req.m = some (getTokenMethod env) ∧ req.reqm = .get ∧ env.Creates

/-- A request for a token that creates a session finds `MAXSESSION_COUNT` of them. -/
def Crowds (list : Sessions) (req : Request) : Prop :=
  ∃ env, req.Asks env ∧
    ewfSessionCount (ewfSessionCleaner list env.cleanerNow).2 = maxsessionCount

/-- The list after a request for a token. -/
theorem list_getTokenMethod (crypto : Crypto) (list : Sessions) {req : Request} {env : GetTokenEnv}
    (hm : req.m = some (getTokenMethod env)) (hreqm : req.reqm = .get) :
    ∃ hdf, (step crypto list req).1 = (getToken list env hdf).1 := by
  unfold step
  dsimp only
  rw [apiHandleRequest_eq crypto list hm hreqm rfl]
  split_ifs
  · exact ⟨req.upgrading.2, rfl⟩
  · exact ⟨req.hdf, rfl⟩

/-- **One request** makes the list no longer, or it creates a session, after cleaning the list down
to `MAXSESSION_COUNT` sessions or fewer. -/
theorem count_step (crypto : Crypto) (list : Sessions) {req : Request} (hreq : req.Registered) :
    ewfSessionCount (step crypto list req).1 ≤ ewfSessionCount list ∨
    ∃ env, req.Asks env ∧
      ewfSessionCount (ewfSessionCleaner list env.cleanerNow).2 ≤ maxsessionCount ∧
      ewfSessionCount (step crypto list req).1
        = ewfSessionCount (ewfSessionCleaner list env.cleanerNow).2 + 1 := by
  by_cases hcalls : ∃ env, req.m = some (getTokenMethod env) ∧ req.reqm = .get
  · obtain ⟨env, hm, hreqm⟩ := hcalls
    obtain ⟨hdf, hlist⟩ := list_getTokenMethod crypto list hm hreqm
    rw [hlist]
    rcases count_getToken list env hdf with ⟨hle, -⟩ | ⟨hcreates, hroom, hcount⟩
    · exact .inl (hle.trans (count_cleaner_le _ _))
    · exact .inr ⟨env, ⟨hm, hreqm, hcreates⟩, hroom, hcount⟩
  · left
    unfold step
    rcases apiHandleRequest_cases crypto list req with
      heq | ⟨m, action, hdf, displays, hm, haction, -, heq⟩
    · rw [heq]
      exact le_rfl
    · by_cases hget : ∃ env, action = .getToken env
      · -- another HTTP method than the registered one
        obtain ⟨env, rfl⟩ := hget
        obtain rfl := hreq m env hm haction
        have hreqm : req.reqm ≠ .get := fun h => hcalls ⟨env, hm, h⟩
        have heq : apiHandleRequest crypto list req = notFound list req := by
          simp [apiHandleRequest, hm, getTokenMethod, hreqm]
        rw [heq]
        exact le_rfl
      · rw [heq]
        exact (change_handleAction ..).count_le hget

/-! ### Runs -/

/-- A run of requests holds one session more than `MAXSESSION_COUNT` at most. -/
theorem session_count_le_succ (crypto : Crypto) {reqs : List Request}
    (hreqs : ∀ req ∈ reqs, req.Registered) :
    ewfSessionCount (run (step crypto) empty reqs).1 ≤ maxsessionCount + 1 := by
  refine run_inv_of_meets (step crypto) (C := fun _ req => req.Registered)
    (P := fun list _ => ewfSessionCount list ≤ maxsessionCount + 1) ?_ reqs empty []
    (Nat.zero_le _) (meets_of_forall _ (fun req hreq _ => hreqs req hreq) _)
  intro list _ req hreq hcount
  rcases count_step crypto list hreq with hle | ⟨env, -, hroom, hnew⟩
  · exact hle.trans hcount
  · rw [hnew]
    exact Nat.succ_le_succ hroom

/-- A request for a token that finds `MAXSESSION_COUNT` sessions adds one more. -/
theorem count_of_crowds (crypto : Crypto) {list : Sessions} {req : Request}
    (h : Crowds list req) : ewfSessionCount (step crypto list req).1 = maxsessionCount + 1 := by
  obtain ⟨env, ⟨hm, hreqm, hcreates⟩, hcount⟩ := h
  obtain ⟨hdf, hlist⟩ := list_getTokenMethod crypto list hm hreqm
  rw [hlist]
  rcases count_getToken list env hdf with ⟨-, hfull⟩ | ⟨-, -, hnew⟩
  · have := hfull hcreates
    omega
  · rw [hnew, hcount]

/-- **The session bound.**  For every sequence of requests and clock readings, from an empty list:
the list never holds more than `MAXSESSION_COUNT` sessions if and only if no request for a token
that can create a session finds exactly `MAXSESSION_COUNT` of them left by its cleaning. -/
theorem session_count_le_iff (crypto : Crypto) (reqs : List Request)
    (hreqs : ∀ req ∈ reqs, req.Registered) :
    (∀ before after, reqs = before ++ after →
        ewfSessionCount (run (step crypto) empty before).1 ≤ maxsessionCount) ↔
      Meets (step crypto) (fun list req => ¬ Crowds list req) empty reqs := by
  rw [meets_iff]
  constructor
  · rintro hbound before req after rfl hcrowds
    have hnext := hbound (before ++ [req]) after (by simp)
    rw [run_append, run_cons, run_nil, count_of_crowds crypto hcrowds] at hnext
    omega
  · rintro hmeets before after rfl
    refine run_inv_of_meets (step crypto) (C := fun list req => req.Registered ∧ ¬ Crowds list req)
      (P := fun list _ => ewfSessionCount list ≤ maxsessionCount) ?_ before empty []
      (Nat.zero_le _) ?_
    · rintro list _ req ⟨hreq, hcrowds⟩ hcount
      rcases count_step crypto list hreq with hle | ⟨env, hasks, hroom, hnew⟩
      · exact hle.trans hcount
      · have : ewfSessionCount (ewfSessionCleaner list env.cleanerNow).2 ≠ maxsessionCount :=
          fun h => hcrowds ⟨env, hasks, h⟩
        omega
    · rw [meets_iff]
      rintro before' req after' rfl
      exact ⟨hreqs req (by simp), hmeets before' req (after' ++ after) (by simp)⟩

theorem registered_tokenRequest (webAuth : String) : (tokenRequest webAuth).Registered := by
  intro m env hm haction
  obtain rfl := Option.some.inj hm
  obtain rfl := Action.getToken.inj (Option.some.inj haction)
  rfl

/-- Sixty-four clients ask for a token, and no list on the way is too long. -/
theorem session_count_le_iff_of_full :
    ewfSessionCount (run (step default) empty (List.replicate 64 (tokenRequest "all"))).1 = 64 ∧
      Meets (step default) (fun list req => ¬ Crowds list req) empty
        (List.replicate 64 (tokenRequest "all")) := by
  have hprefixes : ∀ before ∈ (List.replicate 64 (tokenRequest "all")).inits,
      ewfSessionCount (run (step default) empty before).1 ≤ maxsessionCount := by
    decide +kernel
  refine ⟨by decide +kernel, (session_count_le_iff default _ ?_).mp fun before after h => ?_⟩
  · intro req hreq
    obtain rfl := List.eq_of_mem_replicate hreq
    exact registered_tokenRequest "all"
  · exact hprefixes before ((List.mem_inits ..).mpr ⟨after, h.symm⟩)

/-- One client more makes the list as long as it can get. -/
theorem session_count_le_succ_of_full :
    ewfSessionCount (run (step default) empty (List.replicate 65 (tokenRequest "all"))).1 ≤ 65 := by
  refine session_count_le_succ default fun req hreq => ?_
  obtain rfl := List.eq_of_mem_replicate hreq
  exact registered_tokenRequest "all"

/-- The sixty-fifth is not refused. -/
theorem getToken_exceeds_maxsessionCount :
    ewfSessionCount (run (step default) empty (List.replicate 65 (tokenRequest "all"))).1 = 65 := by
  decide +kernel

end Neufbox.Api
