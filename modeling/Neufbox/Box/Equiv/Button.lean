import Neufbox.Box.Button
import Neufbox.Libewf.Equiv.Credentials
import Neufbox.Libewf.Equiv.Login

/-!
# One push, one session

A push of the service button should let one user in.  Each process activates a session after it has
read `web_autologin` as `on`, and sends `halt_webautologin` next (`Paced`, `serve_obeys`).  The
other process can read the `on` in between.  It is enough that it does not: in every run in which no
process gets the status while the other one is about to send its `halt_webautologin`, a push
activates at most one session (`one_push_one_session`).

The programs compute what the models of the web server and of the API do (`result_loginForm`,
`result_getToken`, `result_checkToken`).
-/

namespace Neufbox.Box

open Libewf (Session Sessions Crypto LoginRequest SmithLogin configValue digests)
open Libnbd Libnbu Dialogue Machine

variable {crypto : Crypto} {list : Sessions}

/-! ### What the programs compute -/

theorem result_finishLogin (answer : (q : Nbd) → q.Answer) (req : LoginRequest) :
    (finishLogin crypto list req).result answer = (Libewf.ewfSmithLogin crypto list req).2.1 := by
  unfold finishLogin
  dsimp only
  split_ifs <;> rfl

theorem result_readPasswd (answer : (q : Nbd) → q.Answer) (sid : String) {req : LoginRequest}
    (hlogin : req.credentials.webLogin = answer (.nvGet "web_login"))
    (hpassword : req.credentials.webPassword = answer (.nvGet "web_password")) :
    (readPasswd crypto sid req).result answer = req := by
  unfold readPasswd
  dsimp only
  split_ifs
  · rfl
  · rcases Libewf.submittedHashes crypto sid req.credentials with ret | ⟨login, password, buf⟩
    · rfl
    · dsimp only [result]
      rw [← hlogin]
      split
      · rfl
      · split_ifs
        · rfl
        · dsimp only [result]
          rw [← hpassword]

/-- A login without a session does nothing. -/
theorem ewfSmithLogin_of_formSession_none {req : LoginRequest} (h : formSession list req = none) :
    (Libewf.ewfSmithLogin crypto list req).2.1 = list := by
  unfold formSession at h
  unfold Libewf.ewfSmithLogin
  split_ifs at h ⊢
  · rw [h]
  · dsimp only
    rw [Option.map_eq_none_iff.mp h]

/-- The outcome of a method that is neither refused nor the password. -/
theorem loginOutcome_alt (req : LoginRequest) (sid : String)
    (hallowed : ¬ (configValue "web_auth" req.webAuth ≠ "all" ∧
      req.method.getD "passwd" ≠ configValue "web_auth" req.webAuth))
    (hpasswd : req.method.getD "passwd" ≠ "passwd") {altMethod : String → SmithLogin}
    (halt : req.altMethod = some altMethod) :
    Libewf.loginOutcome crypto sid req = some (altMethod (req.method.getD "passwd")) := by
  unfold Libewf.loginOutcome
  dsimp only
  rw [if_neg hallowed, if_neg hpasswd, halt]

/-- **The web server**: the program does to the session list what `ewf_smith_login` does with the
same answers. -/
theorem result_loginForm (answer : (q : Nbd) → q.Answer) {req : LoginRequest}
    (hauth : req.webAuth = answer (.nvGet "web_auth"))
    (hlogin : req.credentials.webLogin = answer (.nvGet "web_login"))
    (hpassword : req.credentials.webPassword = answer (.nvGet "web_password"))
    (halt : req.altMethod = some (Www.webappAltLogin (answer (.statusGet "web_autologin")))) :
    (loginForm crypto list req).result answer = (Libewf.ewfSmithLogin crypto list req).2.1 := by
  unfold loginForm
  rcases hsession : formSession list req with - | session
  · exact (ewfSmithLogin_of_formSession_none hsession).symm
  · dsimp only [result]
    rw [← hauth]
    split_ifs with hallowed hpasswd hbutton
    · exact result_finishLogin answer req
    · rw [result_bind, result_readPasswd answer _ hlogin hpassword]
      exact result_finishLogin answer req
    · dsimp only [result]
      rw [result_finishLogin, ← halt]
    · -- there is no other method, whatever the status is
      rw [result_finishLogin, Libewf.ewfSmithLogin_altMethod]
      intro sid
      rw [loginOutcome_alt { req with altMethod := some (Www.webappAltLogin none) } sid hallowed
        hpasswd rfl, loginOutcome_alt req sid hallowed hpasswd halt]
      unfold Www.webappAltLogin
      rw [if_neg hbutton, if_neg hbutton]

/-- **The API**: the programs do to the session list what the handlers do with the same answers. -/
theorem result_getToken (answer : (q : Nbd) → q.Answer) (env : Api.GetTokenEnv) (hdf : Api.Hdf) :
    (getToken list env).result answer = (Api.getToken list env hdf).1 := by
  unfold getToken Api.getToken
  dsimp only
  split_ifs <;> try rfl
  all_goals
    dsimp only [result]
    rcases Api.ewfSessionCreate (Api.ewfSessionCleaner list env.cleanerNow).2 256 env.creation
      with - | ⟨token, list'⟩ <;> rfl

theorem result_readHash (answer : (q : Nbd) → q.Answer) (token hash : String)
    {env : Api.CheckTokenEnv} (hlogin : env.webLogin = answer (.nvGet "web_login"))
    (hpassword : env.webPassword = answer (.nvGet "web_password")) :
    (readHash crypto token hash env).result answer = env := by
  unfold readHash
  split_ifs
  · rfl
  · dsimp only [result]
    rw [← hlogin]
    split
    · rfl
    · split_ifs
      · dsimp only [result]
        rw [← hpassword]
      · rfl

/-- The values of the answer make no difference to the list. -/
theorem checkToken_fst (token : Option String) (env : Api.CheckTokenEnv) (hdf : Api.Hdf) :
    (Api.checkToken crypto list token env hdf).1 = (Api.checkToken crypto list token env []).1 := by
  unfold Api.checkToken
  dsimp only
  repeat' split
  all_goals try rfl

theorem result_checkToken (answer : (q : Nbd) → q.Answer) (token : Option String)
    {env : Api.CheckTokenEnv} (hauth : env.webAuth = answer (.nvGet "web_auth"))
    (hlogin : env.webLogin = answer (.nvGet "web_login"))
    (hpassword : env.webPassword = answer (.nvGet "web_password"))
    (hstatus : env.webAutologin = answer (.statusGet "web_autologin")) (hdf : Api.Hdf) :
    (checkToken crypto list token env).result answer
      = (Api.checkToken crypto list token env hdf).1 := by
  rw [checkToken_fst]
  unfold checkToken
  rcases token with - | token
  · rfl
  · dsimp only
    rcases Api.ewfSessionGet (Api.ewfSessionCleaner list env.cleanerNow).2 token with
      - | ⟨k, session⟩
    · rfl
    · dsimp only [result]
      rw [← hauth]
      split
      · rfl
      · split_ifs
        · rfl
        · split
          · rfl
          · rw [result_bind, result_readHash answer _ _ hlogin hpassword]
            rfl
          · dsimp only [result]
            rw [← hstatus]
            split_ifs
            · unfold finishButton
              split_ifs <;> rfl
            · rfl

/-! ### The pace of the programs -/

/-- A request of a login with its answer, or the activation of a session by the button. -/
abbrev ServingItem : Type := Item Nbd.Answer Unit

/-- The button was read as pushed. -/
def pressed : ServingItem := .asked (.statusGet "web_autologin") (some "on")

/-- A session is activated by the button right after it was read as pushed, and the next request
resets it. -/
def Paced (past : List ServingItem) : Move Nbd Unit → Prop
  | .ask q => past.getLast? = some (.told ()) → q = .haltWebautologin
  | .tell _ => past.getLast? = some pressed

/-- A program does not end with the activation. -/
def Settled (past : List ServingItem) : Prop := past.getLast? ≠ some (.told ())

variable {past : List ServingItem}

theorem settled_nil : Settled [] := nofun

theorem settled_asked (q : Nbd) (a : q.Answer) : Settled (past ++ [.asked q a]) := by
  unfold Settled
  rw [List.getLast?_concat]
  exact nofun

/-- Before an activation, any request may follow. -/
theorem Settled.paced (h : Settled past) (q : Nbd) : Paced past (.ask q) :=
  fun hlast => absurd hlast h

/-- The button is reset. -/
theorem halt_obeys (list : Sessions) :
    (ask .haltWebautologin fun _ => done list : Serving).Obeys Paced (fun _ => Settled) past :=
  ⟨fun _ => rfl, fun _ => settled_asked _ _⟩

theorem activation_obeys (list : Sessions) (h : past.getLast? = some pressed) :
    (tell () (ask .haltWebautologin fun _ => done list) : Serving).Obeys Paced
      (fun _ => Settled) past :=
  ⟨h, halt_obeys list⟩

/-- A login that is not by password and succeeds comes right after the button was read. -/
theorem finishLogin_obeys {req : LoginRequest} (hsettled : Settled past)
    (hpressed : req.method.getD "passwd" ≠ "passwd" →
      (Libewf.ewfSmithLogin crypto list req).1 = .success → past.getLast? = some pressed) :
    (finishLogin crypto list req).Obeys Paced (fun _ => Settled) past := by
  unfold finishLogin
  dsimp only
  split_ifs with hret hmethod
  · exact halt_obeys _
  · exact activation_obeys _ (hpressed hmethod hret)
  · exact hsettled

theorem readPasswd_obeys (sid : String) {req : LoginRequest} (hsettled : Settled past) :
    (readPasswd crypto sid req).Obeys Paced
      (fun req' past => req'.method = req.method ∧ Settled past) past := by
  unfold readPasswd
  dsimp only
  split_ifs
  · exact ⟨rfl, hsettled⟩
  · rcases Libewf.submittedHashes crypto sid req.credentials with ret | ⟨login, password, buf⟩
    · exact ⟨rfl, hsettled⟩
    · refine ⟨hsettled.paced _, fun webLogin => ?_⟩
      dsimp only
      split
      · exact ⟨rfl, settled_asked _ _⟩
      · split_ifs
        · exact ⟨rfl, settled_asked _ _⟩
        · exact ⟨(settled_asked _ _).paced _, fun _ => ⟨rfl, settled_asked _ _⟩⟩

/-- The web server keeps the pace. -/
theorem loginForm_obeys (req : LoginRequest) :
    (loginForm crypto list req).Obeys Paced (fun _ => Settled) [] := by
  unfold loginForm
  rcases formSession list req with - | session
  · exact settled_nil
  · refine ⟨settled_nil.paced _, fun webAuth => ?_⟩
    dsimp only
    split_ifs with hallowed hpasswd hbutton
    · refine finishLogin_obeys (settled_asked _ _) fun _ hsuccess => ?_
      obtain ⟨sid, hout⟩ := Libewf.accepted_of_success hsuccess
      unfold Libewf.loginOutcome at hout
      dsimp only at hout
      rw [if_pos hallowed] at hout
      exact nomatch hout
    · rw [obeys_bind]
      refine (readPasswd_obeys session.id (settled_asked _ _)).mono ?_
      rintro req' past ⟨hmethod, hsettled⟩
      refine finishLogin_obeys hsettled fun hne => absurd ?_ hne
      rw [hmethod]
      exact hpasswd
    · refine ⟨(settled_asked _ _).paced _, fun (webAutologin : Option String) => ?_⟩
      refine finishLogin_obeys (settled_asked _ _) fun _ hsuccess => ?_
      obtain ⟨sid, hout⟩ := Libewf.accepted_of_success hsuccess
      rw [loginOutcome_alt
        { req with webAuth, altMethod := some (Www.webappAltLogin webAutologin) } sid hallowed
        hpasswd rfl] at hout
      unfold Www.webappAltLogin at hout
      rw [if_pos hbutton] at hout
      split_ifs at hout with hon
      · rw [List.getLast?_concat, hon]
        rfl
      · exact nomatch hout
    · refine finishLogin_obeys (settled_asked _ _) fun _ hsuccess => ?_
      obtain ⟨sid, hout⟩ := Libewf.accepted_of_success hsuccess
      rw [loginOutcome_alt { req with webAuth, altMethod := some (Www.webappAltLogin none) } sid
        hallowed hpasswd rfl] at hout
      unfold Www.webappAltLogin at hout
      rw [if_neg hbutton] at hout
      exact nomatch hout

theorem getToken_obeys (env : Api.GetTokenEnv) :
    (getToken list env).Obeys Paced (fun _ => Settled) [] := by
  unfold getToken
  dsimp only
  split_ifs
  · exact settled_nil
  · refine ⟨settled_nil.paced _, fun webAuth => ?_⟩
    dsimp only
    split
    · exact settled_asked _ _
    · exact ⟨(settled_asked _ _).paced _, fun _ => settled_asked _ _⟩

theorem readHash_obeys (token hash : String) (env : Api.CheckTokenEnv)
    (hsettled : Settled past) :
    (readHash crypto token hash env).Obeys Paced (fun _ => Settled) past := by
  unfold readHash
  split_ifs
  · exact hsettled
  · refine ⟨hsettled.paced _, fun (webLogin : Option String) => ?_⟩
    cases webLogin with
    | none => exact settled_asked _ _
    | some login =>
      dsimp only
      split_ifs
      · exact ⟨(settled_asked _ _).paced _, fun _ => settled_asked _ _⟩
      · exact settled_asked _ _

/-- The API keeps the pace. -/
theorem checkToken_obeys (token : Option String) (env : Api.CheckTokenEnv) :
    (checkToken crypto list token env).Obeys Paced (fun _ => Settled) [] := by
  unfold checkToken
  rcases token with - | token
  · exact settled_nil
  · dsimp only
    split
    · exact settled_nil
    · refine ⟨settled_nil.paced _, fun (webAuth : Option String) => ?_⟩
      cases webAuth with
      | none => exact settled_asked _ _
      | some webAuth =>
        dsimp only
        split_ifs
        · exact settled_asked _ _
        · split
          · exact settled_asked _ _
          · rw [obeys_bind]
            exact readHash_obeys _ _ _ (settled_asked _ _)
          · refine ⟨(settled_asked _ _).paced _, fun (webAutologin : Option String) => ?_⟩
            dsimp only
            split_ifs with hon
            · unfold finishButton
              split_ifs
              · refine activation_obeys _ ?_
                rw [List.getLast?_concat, hon]
                rfl
              · exact halt_obeys _
            · exact settled_asked _ _

/-- **Both processes** keep the pace. -/
theorem serve_obeys (call : Call) : (call.serve crypto list).Obeys Paced (fun _ => Settled) [] := by
  cases call with
  | form req => exact loginForm_obeys req
  | challenge req => exact settled_nil
  | getToken env => exact getToken_obeys env
  | checkToken token env => exact checkToken_obeys token env

/-- Up to its next request, a program that keeps the pace activates nothing, or it activates one
session, right after the button was read as pushed, and then resets the button. -/
theorem settle_cases {d : Serving} (h : d.Obeys Paced (fun _ => Settled) past) :
    d.settle = ([], d) ∨ past.getLast? = some pressed ∧ ∃ next,
      d.settle = ([()], .ask .haltWebautologin next) ∧
      (.ask .haltWebautologin next : Serving).Obeys Paced (fun _ => Settled)
        (past ++ [.told ()]) := by
  cases d with
  | done list => exact .inl rfl
  | ask q next => exact .inl rfl
  | tell e rest =>
    obtain ⟨hpressed, hrest⟩ := h
    have hlast : (past ++ [Item.told ()]).getLast? = some (.told ()) := List.getLast?_concat
    refine .inr ⟨hpressed, ?_⟩
    cases rest with
    | done list => exact absurd hlast hrest
    | tell e' rest =>
      have hpressed' : (past ++ [Item.told ()]).getLast? = some pressed := hrest.1
      exact nomatch hlast.symm.trans hpressed'
    | ask q next =>
      obtain rfl : q = .haltWebautologin := hrest.1 hlast
      exact ⟨next, rfl, hrest⟩

/-! ### Runs of the box -/

/-- The number of sessions a push activated. -/
def activations (n : ℕ) (history : List Activated) : ℕ := history.countP fun a => a.push = n

theorem activations_append (n : ℕ) (history history' : List Activated) :
    activations n (history ++ history') = activations n history + activations n history' :=
  List.countP_append

theorem activations_singleton (n m : ℕ) (side : Side) :
    activations n [⟨side, m⟩] = if m = n then 1 else 0 := by
  rw [activations, List.countP_singleton]
  simp only [decide_eq_true_eq]

/-- No process gets the status while the other one is about to reset the button. -/
def NoOverlap (box : State) : Op → Prop
  | .answer side _ => (box.procs side).pending = some (.statusGet "web_autologin") →
      (box.procs side.other).pending ≠ some .haltWebautologin
  | _ => True

instance (box : State) (op : Op) : Decidable (NoOverlap box op) :=
  match op with
  | .answer _ _ => inferInstanceAs (Decidable (_ → _))
  | .push | .start _ | .elsewhere _ _ => isTrue trivial

/-- Nobody is about to reset the button. -/
def State.Calm (box : State) : Prop :=
  ∀ side, (box.procs side).pending ≠ some .haltWebautologin

/-- A push activates one session at most.  While the status is `on` and nobody is about to reset it,
the last push has not activated any yet. -/
structure OnePush (box : State) (history : List Activated) : Prop where
  once : ∀ n, activations n history ≤ 1
  future : ∀ n, box.pushes < n → activations n history = 0
  unused : box.on = true → box.Calm → activations box.pushes history = 0
  tasks : ∀ side d, (box.procs side).task = some d →
    ∃ past, d.Obeys Paced (fun _ => Settled) past

variable {box : State} {history : List Activated}

theorem procs_set_self (box : State) (side : Side) (proc : Proc) :
    (box.set side proc).procs side = proc := by
  simp only [State.set, Function.update_self]

theorem procs_set_of_ne (box : State) {side side' : Side} (proc : Proc) (h : side' ≠ side) :
    (box.set side proc).procs side' = box.procs side' := by
  simp only [State.set, Function.update_of_ne h]

/-- A process that is about to reset the button is not calmed by what another one does. -/
theorem State.Calm.of_set {side : Side} {proc : Proc} (h : (box.set side proc).Calm)
    (hside : (box.procs side).pending ≠ some .haltWebautologin) : box.Calm := by
  intro side'
  by_cases hne : side' = side
  · rwa [hne]
  · rw [← procs_set_of_ne box proc hne]
    exact h side'

/-- A process changes and activates nothing. -/
theorem OnePush.set (h : OnePush box history) {side : Side} {proc : Proc}
    (hside : box.on = true → (box.procs side).pending ≠ some .haltWebautologin)
    (htask : ∀ d, proc.task = some d → ∃ past, d.Obeys Paced (fun _ => Settled) past) :
    OnePush (box.set side proc) history := by
  refine ⟨h.once, h.future, fun hon hcalm => h.unused hon (hcalm.of_set (hside hon)), ?_⟩
  intro side' d hd
  by_cases hne : side' = side
  · rw [hne, procs_set_self] at hd
    exact htask d hd
  · rw [procs_set_of_ne box proc hne] at hd
    exact h.tasks side' d hd

/-- A process activates a session and is about to reset the button. -/
theorem OnePush.activate (h : OnePush box history) (hon : box.on = true) (hcalm : box.Calm)
    {side : Side} {proc : Proc} (hpending : proc.pending = some .haltWebautologin)
    (htask : ∀ d, proc.task = some d → ∃ past, d.Obeys Paced (fun _ => Settled) past) :
    OnePush (box.set side proc) (history ++ [⟨side, box.pushes⟩]) := by
  have hcount (n : ℕ) : activations n (history ++ [⟨side, box.pushes⟩])
      = activations n history + if box.pushes = n then 1 else 0 := by
    rw [activations_append, activations_singleton]
  have hunused := h.unused hon hcalm
  have hset := h.set (fun _ => hcalm side) htask
  refine ⟨fun n => ?_, fun n hn => ?_, fun _ hcalm' => ?_, hset.tasks⟩
  · rw [hcount]
    split_ifs with heq
    · rw [← heq, hunused]
    · exact h.once n
  · have hlt : box.pushes < n := hn
    rw [hcount, if_neg (Nat.ne_of_lt hlt), h.future n hlt]
  · have := hcalm' side
    rw [procs_set_self] at this
    exact absurd hpending this

theorem task_resume {list : Sessions} {d d' : Serving} (h : (Proc.resume list d).task = some d') :
    d' = d := by
  cases d with
  | done _ => exact nomatch h
  | tell _ _ => exact (Option.some.inj h).symm
  | ask _ _ => exact (Option.some.inj h).symm

/-- A process goes on with a program that keeps the pace. -/
theorem OnePush.advance (h : OnePush box history) {side : Side} {d : Serving}
    (hd : d.Obeys Paced (fun _ => Settled) past)
    (hside : box.on = true → (box.procs side).pending ≠ some .haltWebautologin)
    (hpressed : past.getLast? = some pressed → box.on = true ∧ box.Calm) :
    OnePush (Box.advance box side d).1 (history ++ (Box.advance box side d).2) := by
  unfold Box.advance
  rcases settle_cases hd with hsettle | ⟨hlast, next, hsettle, hobeys⟩
  · rw [hsettle, List.map_nil, List.append_nil]
    refine h.set hside fun d' hd' => ?_
    rw [task_resume hd']
    exact ⟨past, hd⟩
  · obtain ⟨hon, hcalm⟩ := hpressed hlast
    rw [hsettle]
    refine h.activate hon hcalm rfl fun d' hd' => ?_
    rw [task_resume hd']
    exact ⟨_, hobeys⟩

theorem pending_of_task {proc : Proc} {q : Nbd} {next : q.Answer → Serving}
    (h : proc.task = some (.ask q next)) : proc.pending = some q := by
  rw [Proc.pending, h]

theorem respond_snd {q : Nbd} (hq : q ≠ .haltWebautologin) (on : Bool) (value : Option String) :
    (respond on value q).2 = on := by
  cases q with
  | haltWebautologin => exact absurd rfl hq
  | _ => rfl

/-- The button is read as pushed while it is. -/
theorem on_of_pressed {q : Nbd} {on : Bool} {value : Option String}
    (h : Item.asked q (respond on value q).1 = pressed) :
    q = .statusGet "web_autologin" ∧ on = true := by
  cases q with
  | statusGet key =>
    injection h with hq ha
    injection hq with hkey
    subst hkey
    have hon : some (if on then "on" else "off") = some "on" := ha
    refine ⟨rfl, ?_⟩
    by_contra hoff
    rw [if_neg hoff] at hon
    exact absurd (Option.some.inj hon) (by decide)
  | _ => exact nomatch h

theorem other_of_ne {side side' : Side} (h : side' ≠ side) : side' = side.other := by
  cases side <;> cases side' <;> first | rfl | exact absurd rfl h

/-- The daemon answers a process. -/
theorem OnePush.answer (h : OnePush box history) {side : Side} {q : Nbd}
    {next : q.Answer → Serving} (htask : (box.procs side).task = some (.ask q next))
    (value : Option String)
    (hoverlap : q = .statusGet "web_autologin" →
      (box.procs side.other).pending ≠ some .haltWebautologin) :
    OnePush
      (Box.advance { box with on := (respond box.on value q).2 } side
        (next (respond box.on value q).1)).1
      (history ++ (Box.advance { box with on := (respond box.on value q).2 } side
        (next (respond box.on value q).1)).2) := by
  obtain ⟨past, -, hnext⟩ := h.tasks side _ htask
  have hpending := pending_of_task htask
  by_cases hhalt : q = .haltWebautologin
  · -- the button is reset
    subst hhalt
    have hoff : OnePush { box with on := false } history := ⟨h.once, h.future, nofun, h.tasks⟩
    refine hoff.advance (hnext _) nofun fun hlast => ?_
    rw [List.getLast?_concat] at hlast
    exact nomatch hlast
  · have hside : (box.procs side).pending ≠ some .haltWebautologin := by
      rw [hpending]
      exact fun heq => hhalt (Option.some.inj heq)
    rw [respond_snd hhalt]
    refine h.advance (hnext _) (fun _ => hside) fun hlast => ?_
    rw [List.getLast?_concat] at hlast
    obtain ⟨hq, hon⟩ := on_of_pressed (Option.some.inj hlast)
    refine ⟨hon, fun side' => ?_⟩
    by_cases hne : side' = side
    · rwa [hne]
    · rw [other_of_ne hne]
      exact hoverlap hq

/-- Every step keeps it. -/
theorem OnePush.step (h : OnePush box history) {op : Op} (hop : NoOverlap box op) :
    OnePush (Box.step crypto box op).1 (history ++ (Box.step crypto box op).2) := by
  cases op with
  | push =>
    show OnePush { box with on := true, pushes := box.pushes + 1 } (history ++ [])
    rw [List.append_nil]
    refine ⟨h.once, fun n hn => h.future n (Nat.lt_of_succ_lt hn), fun _ _ => ?_, h.tasks⟩
    exact h.future _ (Nat.lt_succ_self _)
  | start call =>
    unfold Box.step
    dsimp only
    split
    next hidle =>
      refine h.advance (serve_obeys call) (fun _ => ?_) nofun
      rw [Proc.pending, hidle]
      exact nofun
    next => rwa [List.append_nil]
  | elsewhere side list =>
    unfold Box.step
    dsimp only
    split
    next hidle =>
      rw [List.append_nil]
      refine h.set (fun _ => ?_) nofun
      rw [Proc.pending, hidle]
      exact nofun
    next => rwa [List.append_nil]
  | answer side value =>
    unfold Box.step
    dsimp only
    split
    next q next htask =>
      exact h.answer htask value fun hq => hop ((pending_of_task htask).trans (congrArg some hq))
    next => rwa [List.append_nil]

/-- **One push, one session.**  In every run of the two processes, with their requests to the daemon
in any order, in which no process gets the status while the other one is about to send its
`halt_webautologin`, every push of the button activates at most one session. -/
theorem one_push_one_session (crypto : Crypto) (ops : List Op)
    (hmeets : Meets (step crypto) NoOverlap State.init ops) (n : ℕ) :
    activations n (run (step crypto) State.init ops).2 ≤ 1 := by
  have hinit : OnePush State.init [] :=
    ⟨fun _ => Nat.zero_le 1, fun _ _ => rfl, fun _ _ => rfl, fun _ _ h => nomatch h⟩
  have hinv := run_inv_of_meets (step crypto) (C := NoOverlap) (P := OnePush)
    (fun box history op hop h => h.step hop) ops State.init [] hinit hmeets
  exact hinv.once n

/-- A token is handed out, and the button is pushed.  A user of the web site and a client of the API
with the token ask to be let in, and both processes read `web_auth`. -/
def bothAsk : List Op :=
  let sid := String.ofList (List.replicate 40 '0')
  [.start (.getToken ⟨1000, 1000, none,
      ⟨some 1000, List.replicate 20 1, rfl, some [.data 0 (List.replicate 19 0)], true⟩, none⟩),
    .answer .api (some "button"), .answer .api (some "button"), .push,
    .start (.form ⟨none, some "button", none, Libewf.hashForm "" "" "", none,
      ⟨some 1001, some (List.replicate 20 1)⟩, true, 1001⟩),
    .answer .web (some "button"),
    .start (.checkToken (some sid) ⟨1001, none, 1001, none, none, none, true, true, none, true,
      some 1001⟩),
    .answer .api (some "button")]

/-- The web server resets the button before the API reads it. -/
theorem one_push_one_session_first :
    let ops := bothAsk ++ [.answer .web none, .answer .web none, .answer .api none]
    Meets (step digests) NoOverlap State.init ops ∧
      activations 1 (run (step digests) State.init ops).2 = 1 ∧
      activations 1 (run (step digests) State.init ops).2 ≤ 1 := by
  intro ops
  have hmeets : Meets (step digests) NoOverlap State.init ops := by decide
  exact ⟨hmeets, by decide, one_push_one_session digests ops hmeets 1⟩

/-- Both processes read the button before one of them resets it: two sessions are activated. -/
theorem one_push_two_sessions :
    (run (step digests) State.init
      (bothAsk ++ [.answer .web none, .answer .api none, .answer .web none, .answer .api none])).2
      = [⟨.web, 1⟩, ⟨.api, 1⟩] := by
  decide

end Neufbox.Box
