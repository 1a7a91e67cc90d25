import Neufbox.Libewf.Equiv.Credentials
import Neufbox.Www.Admin
import Neufbox.Www.Site

/-!
# Changing the credentials

The form of `/maintenance/admin` changes the credentials only for a user who proves who they are in
the same request: by the old login and password, or by the service button where the site is open or
opened by the button alone (`admin_commit_proven`).  The proof goes through the parts of the
handler, each with what it has established when it does not return (`checkIdentity_obeys`,
`getNewLogin_obeys`, `setCredentials_obeys`).  To the sessions the handler does what the model of
the site says (`result_adminFormHandler`).
-/

namespace Neufbox.Www

open Libewf Libnbd Libnbu Dialogue

/-- A request of the form with its answer, or a note. -/
abbrev AdminItem : Type := Item Nbd.Answer Note

section

variable (crypto : Crypto) (form : Form)

/-- The old login and password of the form are those that were read, and `web_auth` was read as
neither `off` nor `button`. -/
def ProvenByPasswd (past : List AdminItem) : Prop :=
  ∃ webAuth login password oldPassword,
    .asked (.nvGet "web_auth") (some webAuth) ∈ past ∧ webAuth ≠ "off" ∧ webAuth ≠ "button" ∧
    .asked (.nvGet "web_login") (some login) ∈ past ∧
    .asked (.nvGet "web_password") (some password) ∈ past ∧
    form.query "web_old_login" = some login ∧
    form.query "web_old_password" = some oldPassword ∧ crypto.sha256 oldPassword = password

/-- The service button was read as pushed, and `web_auth` as `off` or `button`. -/
def ProvenByButton (past : List AdminItem) : Prop :=
  ∃ webAuth, .asked (.nvGet "web_auth") (some webAuth) ∈ past ∧
    (webAuth = "off" ∨ webAuth = "button") ∧
    .asked (.statusGet "web_autologin") (some "on") ∈ past

/-- The user proved who they are. -/
def Proven (past : List AdminItem) : Prop := ProvenByPasswd crypto form past ∨ ProvenByButton past

/-- The hash of a password that was entered twice. -/
def EnteredTwice (hash : String) : Prop :=
  ∃ password, form.query "web_password" = some password ∧
    form.query "web_password_check" = some password ∧ hash = crypto.sha256 password

/-- Every password that was set was entered twice. -/
def Confirmed (past : List AdminItem) : Prop :=
  ∀ cid hash ret, .asked (.cset cid "web_password" hash) ret ∈ past → EnteredTwice crypto form hash

/-- What a commit needs. -/
def Ready (past : List AdminItem) : Prop := Proven crypto form past ∧ Confirmed crypto form past

/-- No commit is requested without it. -/
def CommitAllowed (past : List AdminItem) (move : Move Nbd Note) : Prop :=
  ∀ cid, move = .ask (.cursorCommit cid) → Ready crypto form past

end

variable {crypto : Crypto} {form : Form} {past : List AdminItem}

/-! ### What it does to the sessions -/

theorem result_changeCredentials (answer : (q : Nbd) → q.Answer) (shaOk : Bool) (list : Sessions)
    (cookieSid : Option String) (checkmethod webAuth : String) :
    (changeCredentials crypto shaOk form list cookieSid checkmethod webAuth).result answer
      = if webAuth = "off" then (ewfSmithLogout list cookieSid).2 else (list, []) := by
  unfold changeCredentials
  split_ifs with hlogin hoff hoff
  · rcases hlogin with rfl | rfl <;> exact absurd hoff (by decide)
  · rw [result_bind]
    cases (getNewLogin crypto shaOk form).result answer with
    | none => rfl
    | some new => exact result_bind _ _ _
  · exact result_bind _ _ _
  · exact result_bind _ _ _

/-- The handler does to the sessions what the model of the site says: it logs the user out if the
form passes the check of the identity and sets `web_auth` to `off`. -/
theorem result_adminFormHandler (answer : (q : Nbd) → q.Answer) (oldShaOk shaOk : Bool)
    (list : Sessions) {req : Request}
    (hoff : req.adminOff = (decide ((ewfHdfSget form "web_auth").result answer = some "off") &&
      ((checkIdentity crypto oldShaOk form).result answer).isSome)) :
    (adminFormHandler crypto oldShaOk shaOk form list req.visit.cookieSid).result answer
      = Handler.run crypto req .adminForm list := by
  rw [Handler.run, hoff, adminFormHandler, result_bind]
  rcases (ewfHdfSget form "web_auth").result answer with - | webAuth
  · rfl
  · dsimp only
    rw [result_bind]
    rcases (checkIdentity crypto oldShaOk form).result answer with - | checkmethod
    · simp [result]
    · simp [result_changeCredentials]

/-! ### What the items change -/

theorem Proven.append (h : Proven crypto form past) (items : List AdminItem) :
    Proven crypto form (past ++ items) := by
  rcases h with ⟨webAuth, login, password, old, hauth, hoff, hbutton, hlogin, hpassword, hold⟩ |
    ⟨webAuth, hauth, hor, hstatus⟩
  · exact .inl ⟨webAuth, login, password, old, List.mem_append_left _ hauth, hoff, hbutton,
      List.mem_append_left _ hlogin, List.mem_append_left _ hpassword, hold⟩
  · exact .inr ⟨webAuth, List.mem_append_left _ hauth, hor, List.mem_append_left _ hstatus⟩

/-- One more item that sets no password. -/
theorem Confirmed.concat (h : Confirmed crypto form past) {item : AdminItem}
    (hitem : ∀ cid hash ret, item ≠ .asked (.cset cid "web_password" hash) ret) :
    Confirmed crypto form (past ++ [item]) := by
  intro cid hash ret hmem
  rcases List.mem_append.mp hmem with hmem | hmem
  · exact h cid hash ret hmem
  · exact absurd (List.mem_singleton.mp hmem).symm (hitem cid hash ret)

/-- One more item that sets a password. -/
theorem Confirmed.concat_password (h : Confirmed crypto form past) {hash : String}
    (htwice : EnteredTwice crypto form hash) (cid ret : Int) :
    Confirmed crypto form (past ++ [.asked (.cset cid "web_password" hash) ret]) := by
  intro cid' hash' ret' hmem
  rcases List.mem_append.mp hmem with hmem | hmem
  · exact h cid' hash' ret' hmem
  · injection List.mem_singleton.mp hmem with hq
    injection hq with _ _ hhash
    rwa [hhash]

theorem Ready.concat (h : Ready crypto form past) {item : AdminItem}
    (hitem : ∀ cid hash ret, item ≠ .asked (.cset cid "web_password" hash) ret) :
    Ready crypto form (past ++ [item]) :=
  ⟨h.1.append _, h.2.concat hitem⟩

/-! ### Parts that may return -/

/-- What holds when the handler goes on. -/
def Onward {R : Type} (P : R → List AdminItem → Prop) : Option R → List AdminItem → Prop
  | none, _ => True
  | some r, past => P r past

/-- A part that may return, and what comes then. -/
theorem obeys_bind_onward {R S : Type} {J : List AdminItem → Move Nbd Note → Prop}
    {P : R → List AdminItem → Prop} {post : S → List AdminItem → Prop} {d : Part (Option R)}
    {f : Option R → Part S} (hd : d.Obeys J (Onward P) past)
    (hnone : ∀ past, (f none).Obeys J post past)
    (hsome : ∀ r past, P r past → (f (some r)).Obeys J post past) :
    (d.bind f).Obeys J post past := by
  rw [obeys_bind]
  refine hd.mono fun r past hr => ?_
  cases r with
  | none => exact hnone past
  | some r => exact hsome r past hr

theorem ewfHdfSget_obeys (name : String) :
    (ewfHdfSget form name).Obeys (CommitAllowed crypto form)
      (Onward fun val past' => form.query name = some val ∧ past' = past) past := by
  unfold ewfHdfSget
  rcases hquery : form.query name with - | val
  · exact trivial
  · dsimp only
    split_ifs
    · exact ⟨rfl, rfl⟩
    · exact ⟨nofun, trivial⟩

/-! ### The check of the identity -/

theorem getValidationMethod_obeys :
    getValidationMethod.Obeys (CommitAllowed crypto form)
      (Onward fun checkmethod past' => ∃ webAuth,
        past' = past ++ [.asked (.nvGet "web_auth") (some webAuth)] ∧
        checkmethod = if webAuth = "off" ∨ webAuth = "button" then "button" else "passwd")
      past := by
  refine ⟨nofun, fun answer => ?_⟩
  cases answer with
  | none => exact trivial
  | some webAuth => exact ⟨webAuth, rfl, rfl⟩

/-- The old login and password prove who the user is. -/
theorem checkOldPasswd_obeys (shaOk : Bool) {webAuth : String}
    (hauth : .asked (.nvGet "web_auth") (some webAuth) ∈ past) (hoff : webAuth ≠ "off")
    (hbutton : webAuth ≠ "button") (hconfirmed : Confirmed crypto form past) :
    (checkOldPasswd crypto shaOk form).Obeys (CommitAllowed crypto form)
      (Onward fun _ => Ready crypto form) past := by
  refine obeys_bind_onward (ewfHdfSget_obeys _) (fun _ => trivial) ?_
  rintro oldLogin _ ⟨hlogin, rfl⟩
  refine obeys_bind_onward (ewfHdfSget_obeys _) (fun _ => trivial) ?_
  rintro oldPassword past ⟨hpassword, rfl⟩
  refine ⟨nofun, fun login => ?_⟩
  cases login with
  | none => exact trivial
  | some login =>
    refine ⟨nofun, fun password => ?_⟩
    cases password with
    | none => exact trivial
    | some password =>
      dsimp only
      split_ifs with hnlogin hsha hnpassword
      · exact ⟨nofun, trivial⟩
      · exact ⟨nofun, trivial⟩
      · exact ⟨nofun, trivial⟩
      · obtain rfl := not_not.mp hnlogin
        have hread : Confirmed crypto form (past ++ [.asked (.nvGet "web_login") (some login)]) :=
          hconfirmed.concat nofun
        refine ⟨.inl ⟨webAuth, login, password, oldPassword, ?_, hoff, hbutton, ?_, ?_, hlogin,
          hpassword, (not_not.mp hnpassword).symm⟩, hread.concat nofun⟩
        · exact List.mem_append_left _ (List.mem_append_left _ hauth)
        · exact List.mem_append_left _ (List.mem_append_right _ (List.mem_singleton_self _))
        · exact List.mem_append_right _ (List.mem_singleton_self _)

/-- The service button proves who the user is. -/
theorem checkAutologin_obeys {webAuth : String}
    (hauth : .asked (.nvGet "web_auth") (some webAuth) ∈ past)
    (hor : webAuth = "off" ∨ webAuth = "button") (hconfirmed : Confirmed crypto form past) :
    checkAutologin.Obeys (CommitAllowed crypto form) (Onward fun _ => Ready crypto form) past := by
  refine ⟨nofun, fun status => ?_⟩
  cases status with
  | none => exact trivial
  | some status =>
    dsimp only
    split_ifs with hne
    · exact ⟨nofun, trivial⟩
    · obtain rfl := not_not.mp hne
      refine ⟨.inr ⟨webAuth, List.mem_append_left _ hauth, hor, ?_⟩, hconfirmed.concat nofun⟩
      exact List.mem_append_right _ (List.mem_singleton_self _)

/-- **The check of the identity.** -/
theorem checkIdentity_obeys (shaOk : Bool) (hconfirmed : Confirmed crypto form past) :
    (checkIdentity crypto shaOk form).Obeys (CommitAllowed crypto form)
      (Onward fun _ => Ready crypto form) past := by
  refine obeys_bind_onward getValidationMethod_obeys (fun _ => ⟨nofun, trivial⟩) ?_
  rintro checkmethod _ ⟨webAuth, rfl, rfl⟩
  have hauth : (.asked (.nvGet "web_auth") (some webAuth) : AdminItem)
      ∈ past ++ [.asked (.nvGet "web_auth") (some webAuth)] :=
    List.mem_append_right _ (List.mem_singleton_self _)
  have hconfirmed' : Confirmed crypto form
      (past ++ [.asked (.nvGet "web_auth") (some webAuth)]) := hconfirmed.concat nofun
  refine obeys_bind_onward (P := fun _ => Ready crypto form) ?_ (fun _ => trivial)
    (fun _ _ h => h)
  by_cases hor : webAuth = "off" ∨ webAuth = "button"
  · rw [if_pos hor, if_neg (by decide), if_pos rfl]
    exact checkAutologin_obeys hauth hor hconfirmed'
  · rw [if_neg hor, if_pos rfl]
    rw [not_or] at hor
    exact checkOldPasswd_obeys shaOk hauth hor.1 hor.2 hconfirmed'

/-! ### The new credentials -/

/-- A new password was entered twice. -/
theorem getNewLogin_obeys (shaOk : Bool) (hready : Ready crypto form past) :
    (getNewLogin crypto shaOk form).Obeys (CommitAllowed crypto form)
      (Onward fun new past => Ready crypto form past ∧
        ∀ hash ∈ new.webPasswordHash, EnteredTwice crypto form hash) past := by
  refine obeys_bind_onward (ewfHdfSget_obeys _) (fun _ => trivial) ?_
  rintro login _ ⟨-, rfl⟩
  refine obeys_bind_onward (ewfHdfSget_obeys _) (fun _ => trivial) ?_
  rintro password _ ⟨hpassword, rfl⟩
  refine obeys_bind_onward (ewfHdfSget_obeys _) (fun _ => trivial) ?_
  rintro check _ ⟨hcheck, rfl⟩
  dsimp only
  split_ifs with hlen hne hsha
  · exact ⟨nofun, trivial⟩
  · exact ⟨nofun, trivial⟩
  · obtain rfl := not_not.mp hne
    refine ⟨hready, fun hash hhash => ⟨password, hpassword, hcheck, ?_⟩⟩
    rw [← Option.some.inj hhash, nbuStringCopy_of_lt (by rw [crypto.length_sha256]; decide)]
  · exact ⟨hready, nofun⟩

theorem nvTrxInit_obeys (hready : Ready crypto form past) :
    nvTrxInit.Obeys (CommitAllowed crypto form) (Onward fun _ => Ready crypto form) past := by
  refine ⟨nofun, fun (id : Int) => ?_⟩
  dsimp only
  split_ifs
  · exact ⟨nofun, trivial⟩
  · exact hready.concat nofun

/-- A value is set; a password has to have been entered twice. -/
theorem nvSetWtrx_obeys (hready : Ready crypto form past) (trx : Trx) {nvname : String}
    (hdfname : String) {value : String}
    (hvalue : nvname = "web_password" → EnteredTwice crypto form value) :
    (nvSetWtrx trx nvname hdfname value).Obeys (CommitAllowed crypto form)
      (Onward fun _ => Ready crypto form) past := by
  refine ⟨nofun, fun (ret : Int) => ?_⟩
  have hset : Ready crypto form (past ++ [.asked (.cset trx.id nvname value) ret]) := by
    by_cases hname : nvname = "web_password"
    · subst hname
      exact ⟨hready.1.append _, hready.2.concat_password (hvalue rfl) trx.id ret⟩
    · refine hready.concat fun cid hash ret' heq => hname ?_
      injection heq with hq
      injection hq
  dsimp only
  split_ifs
  · exact hset
  · exact ⟨nofun, hset.concat nofun⟩
  · exact ⟨nofun, nofun, fun _ => trivial⟩

theorem setNewLogin_obeys (hready : Ready crypto form past) (trx : Trx) {new : Option NewLogin}
    (hnew : ∀ n ∈ new, ∀ hash ∈ n.webPasswordHash, EnteredTwice crypto form hash) :
    (setNewLogin trx new).Obeys (CommitAllowed crypto form) (Onward fun _ => Ready crypto form)
      past := by
  cases new with
  | none => exact hready
  | some new =>
    refine obeys_bind_onward (nvSetWtrx_obeys hready trx _ (absurd · (by decide)))
      (fun _ => trivial) fun trx past hready => ?_
    rcases hhash : new.webPasswordHash with - | hash
    · exact hready
    · exact nvSetWtrx_obeys hready trx _ fun _ => hnew new rfl hash hhash

/-! ### The commit -/

theorem finishAdmin_obeys (checkmethod webAuth : String) (ret : Int) :
    (finishAdmin checkmethod webAuth ret).Obeys (CommitAllowed crypto form) (fun _ _ => True)
      past := by
  unfold finishAdmin
  dsimp only
  split_ifs
  · exact ⟨nofun, nofun, fun _ => ⟨nofun, trivial⟩⟩
  · exact ⟨nofun, nofun, fun _ => trivial⟩
  · exact ⟨nofun, nofun, trivial⟩
  · exact ⟨nofun, trivial⟩
  · exact trivial

/-- **The settings and the commit**, after what they need was established. -/
theorem setCredentials_obeys (hready : Ready crypto form past) (checkmethod webAuth : String)
    {new : Option NewLogin}
    (hnew : ∀ n ∈ new, ∀ hash ∈ n.webPasswordHash, EnteredTwice crypto form hash) :
    (setCredentials checkmethod webAuth new).Obeys (CommitAllowed crypto form) (fun _ _ => True)
      past := by
  refine obeys_bind_onward (nvTrxInit_obeys hready) (fun _ => trivial) fun trx past hready => ?_
  refine obeys_bind_onward (nvSetWtrx_obeys hready trx _ (absurd · (by decide))) (fun _ => trivial)
    fun trx past hready => ?_
  refine obeys_bind_onward (setNewLogin_obeys hready trx hnew) (fun _ => trivial)
    fun trx past hready => ?_
  rw [obeys_bind]
  unfold nvTrxXcommit
  split_ifs
  · exact ⟨nofun, fun _ => finishAdmin_obeys _ _ _⟩
  · exact ⟨fun _ _ => hready, fun _ => ⟨nofun, fun _ => finishAdmin_obeys _ _ _⟩⟩

theorem changeCredentials_obeys (hready : Ready crypto form past) (shaOk : Bool) (list : Sessions)
    (cookieSid : Option String) (checkmethod webAuth : String) :
    (changeCredentials crypto shaOk form list cookieSid checkmethod webAuth).Obeys
      (CommitAllowed crypto form) (fun _ _ => True) past := by
  unfold changeCredentials
  split_ifs
  · refine obeys_bind_onward (getNewLogin_obeys shaOk hready) (fun _ => trivial) ?_
    rintro new past ⟨hready, hnew⟩
    rw [obeys_bind]
    refine setCredentials_obeys hready checkmethod webAuth fun n hn => ?_
    rwa [← Option.some.inj hn]
  all_goals
    rw [obeys_bind]
    exact setCredentials_obeys hready checkmethod webAuth nofun

/-- **Changing the credentials.**  In every run of the form of `/maintenance/admin`, whatever is
submitted and whatever the daemon answers, a commit is requested only if the user proved who they
are before it, by the old login and password or by the service button, and every password that was
set is the SHA-256 of a password that was entered twice. -/
theorem admin_commit_proven (crypto : Crypto) (oldShaOk shaOk : Bool) (form : Form)
    (list : Sessions) (cookieSid : Option String) {trace : List AdminItem}
    {r : Sessions × List SessionEvent}
    (hran : Ran (adminFormHandler crypto oldShaOk shaOk form list cookieSid) trace r)
    {before after : List AdminItem} {cid ret : Int}
    (hcommit : trace = before ++ .asked (.cursorCommit cid) ret :: after) :
    Proven crypto form before ∧ Confirmed crypto form before := by
  have hobeys : (adminFormHandler crypto oldShaOk shaOk form list cookieSid).Obeys
      (CommitAllowed crypto form) (fun _ _ => True) [] := by
    refine obeys_bind_onward (ewfHdfSget_obeys _) (fun _ => trivial) ?_
    rintro webAuth _ ⟨-, rfl⟩
    refine obeys_bind_onward (checkIdentity_obeys oldShaOk nofun) (fun _ => trivial) ?_
    intro checkmethod past hready
    exact changeCredentials_obeys hready shaOk list cookieSid checkmethod webAuth
  exact hran.justified hobeys before _ after hcommit cid rfl

/-- `admin`, whose password is `secret`, enters it again as the new one. -/
def secretForm : Form where
  query name :=
    if name = "web_auth" then some "passwd"
    else if name = "web_old_login" ∨ name = "web_login" then some "admin"
    else some "secret"
  valid _ _ := true

/-- A daemon with these credentials that accepts everything. -/
def secretDaemon : (q : Nbd) → q.Answer :=
  Nbd.daemon (fun key =>
    if key = "web_auth" then some "passwd"
    else if key = "web_login" then some "admin"
    else some "2bb80d537b1da3e38bd30361aa855686bde0eacd7162fef6a25fe97bf527a25b")
    (some "off") fun _ => 0

/-- The password is set, after the old one was checked. -/
theorem admin_commit_proven_secret :
    let sha := "2bb80d537b1da3e38bd30361aa855686bde0eacd7162fef6a25fe97bf527a25b"
    let before : List AdminItem :=
      [.asked (.nvGet "web_auth") (some "passwd"), .asked (.nvGet "web_login") (some "admin"),
        .asked (.nvGet "web_password") (some sha), .asked .cursorNew (1 : Int),
        .asked (.cset 1 "web_auth" "passwd") (0 : Int),
        .asked (.cset 1 "web_login" "admin") (0 : Int),
        .asked (.cset 1 "web_password" sha) (0 : Int)]
    (adminFormHandler digests true true secretForm Registry.empty none).trace secretDaemon
      = before ++ [.asked (.cursorCommit 1) (0 : Int), .asked (.cursorClose 1) (0 : Int),
        .told (.formSuccess "done")] ∧
      Proven digests secretForm before ∧ Confirmed digests secretForm before := by
  intro sha before
  have htrace : (adminFormHandler digests true true secretForm Registry.empty none).trace
      secretDaemon = before ++ [.asked (.cursorCommit 1) (0 : Int),
        .asked (.cursorClose 1) (0 : Int), .told (.formSuccess "done")] := rfl
  exact ⟨htrace, admin_commit_proven digests true true secretForm Registry.empty none
    (ran_trace secretDaemon _) htrace⟩

end Neufbox.Www
