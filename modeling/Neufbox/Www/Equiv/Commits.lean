import Neufbox.Www.Equiv.Forms

/-!
# What a form commits when it fails

The forms of `/network/wan` and of `/wifi/config` change some settings with a cursor and one without
it.  When the transaction fails, the cursor is not committed; the change without a cursor was
committed before (`failed_form_commits`).

`FormAllowed` is what the handlers keep to at each request, in view of what went before; the rules
for the macros carry `Idle` and then `InTrx` along.
-/

namespace Neufbox.Www

open Libnbd Dialogue Machine

/-- The form's transaction fails: a value is not set, or there is no cursor. -/
def Fails : FormItem → Prop
  | .asked (.config (.cset _ _ _)) ret => ¬ (ret = nvSetSuccess ∨ ret = nvSetUnchanged)
  | .asked (.config .cursorNew) (id : Int) => id ≤ 0
  | _ => False

/-- A value is set, or the WLAN is switched on or off. -/
def Changes : Move NbdCall Note → Prop
  | .ask (.config (.cset _ _ _)) | .ask (.nvSet _ _) | .ask (.wlanActive _) => True
  | _ => False

def IsCset : Move NbdCall Note → Prop
  | .ask (.config (.cset _ _ _)) => True
  | _ => False

def IsCursorCommit : Move NbdCall Note → Prop
  | .ask (.config (.cursorCommit _)) => True
  | _ => False

/-- A commit of any kind. -/
def Commits (move : Move NbdCall Note) : Prop :=
  IsCursorCommit move ∨ ∃ xml, move = .ask (.nvCommit xml)

/-- **All or nothing**: when the transaction fails, no commit follows a change. -/
def AllOrNothing (trace : List FormItem) : Prop :=
  (∃ item ∈ trace, Fails item) → ∀ before item after, trace = before ++ item :: after →
    Commits item.move → ∀ change ∈ before, ¬ Changes change.move

/-- A change without a cursor, as the forms commit it: `net_mode` was changed, or the WLAN was
switched. -/
def DirectChange : FormItem → Prop
  | .asked (.nvSet key _) ret => key = "net_mode" ∧ ret = nvSetSuccess
  | .asked (.wlanActive value) ret => value = "off" ∨ (value = "on" ∧ ret = nbdSuccess)
  | _ => False

/-- The commit of a change without a cursor, right after it and before anything is set on the
cursor. -/
def CommitsDirectChange (before : List FormItem) (move : Move NbdCall Note) : Prop :=
  move = .ask (.nvCommit "user") ∧
    (∃ before' change, before = before' ++ [change] ∧ DirectChange change) ∧
    ∀ item ∈ before, ¬ IsCset item.move

/-- What the forms commit: direct changes, and the cursor if nothing failed. -/
def FormAllowed (past : List FormItem) : Move NbdCall Note → Prop
  | .ask (.nvCommit xml) => CommitsDirectChange past (.ask (.nvCommit xml))
  | .ask (.config (.cursorCommit _)) => ∀ item ∈ past, ¬ Fails item
  | .ask (.config (.cset _ _ _)) => ∀ item ∈ past, ¬ IsCursorCommit item.move
  | .ask (.config .cursorNew) => ∀ item ∈ past, ¬ IsCursorCommit item.move
  | _ => True

theorem FormAllowed.not_fails {past : List FormItem} {move : Move NbdCall Note}
    (h : FormAllowed past move) (hcommit : IsCursorCommit move) : ∀ item ∈ past, ¬ Fails item :=
  match move, hcommit with
  | .ask (.config (.cursorCommit _)), _ => h

theorem FormAllowed.not_cursorCommit {past : List FormItem} {item : FormItem}
    (h : FormAllowed past item.move) (hfails : Fails item) :
    ∀ item ∈ past, ¬ IsCursorCommit item.move :=
  match item, hfails with
  | .asked (.config (.cset _ _ _)) _, _ => h
  | .asked (.config .cursorNew) _, _ => h

/-- What follows from it when the transaction fails. -/
theorem commitsDirectChange_of_justified {trace : List FormItem}
    (h : Justified (fun before item => FormAllowed before item.move) trace)
    (hfails : ∃ item ∈ trace, Fails item) {before after : List FormItem} {item : FormItem}
    (htrace : trace = before ++ item :: after) (hcommit : Commits item.move) :
    CommitsDirectChange before item.move := by
  have hallowed : FormAllowed before item.move := h before item after htrace
  rcases hcommit with hcursor | ⟨xml, hxml⟩
  · -- what failed went before the commit, or came after it
    exfalso
    obtain ⟨failed, hmem, hfailed⟩ := hfails
    rw [htrace, List.mem_append, List.mem_cons] at hmem
    rcases hmem with hmem | rfl | hmem
    · exact hallowed.not_fails hcursor failed hmem hfailed
    · exact match failed, hcursor with
        | .asked (.config (.cursorCommit _)) _, _ => hfailed
    · obtain ⟨middle, rest, rfl⟩ := List.append_of_mem hmem
      have hlater : FormAllowed (before ++ item :: middle) failed.move :=
        h _ failed rest (by rw [htrace, List.append_assoc, List.cons_append])
      exact hlater.not_cursorCommit hfailed item (by simp) hcursor
  · rw [hxml] at hallowed ⊢
    exact hallowed

section CommitRules

variable {past : List FormItem} {trx : Trx}

/-- Nothing was set on the cursor yet, and nothing failed. -/
def Idle (past : List FormItem) : Prop :=
  ∀ item ∈ past, ¬ IsCset item.move ∧ ¬ IsCursorCommit item.move ∧ ¬ Fails item

/-- Nothing was committed on the cursor yet, and it is dirty if something failed. -/
def InTrx (trx : Trx) (past : List FormItem) : Prop :=
  (∀ item ∈ past, ¬ IsCursorCommit item.move) ∧ (trx.dirty = false → ∀ item ∈ past, ¬ Fails item)

theorem Idle.inTrx (h : Idle past) : InTrx trx past :=
  ⟨fun item hitem => (h item hitem).2.1, fun _ item hitem => (h item hitem).2.2⟩

theorem Idle.concat (h : Idle past) {item : FormItem}
    (hitem : ¬ IsCset item.move ∧ ¬ IsCursorCommit item.move ∧ ¬ Fails item) :
    Idle (past ++ [item]) := by
  intro i hi
  rcases List.mem_append.mp hi with hi | hi
  · exact h i hi
  · rwa [List.mem_singleton.mp hi]

theorem InTrx.concat (h : InTrx trx past) {trx' : Trx} {item : FormItem}
    (hcommit : ¬ IsCursorCommit item.move)
    (hdirty : trx'.dirty = false → trx.dirty = false ∧ ¬ Fails item) :
    InTrx trx' (past ++ [item]) := by
  constructor
  · intro i hi
    rcases List.mem_append.mp hi with hi | hi
    · exact h.1 i hi
    · rwa [List.mem_singleton.mp hi]
  · intro hclean i hi
    rcases List.mem_append.mp hi with hi | hi
    · exact h.2 (hdirty hclean).1 i hi
    · rw [List.mem_singleton.mp hi]
      exact (hdirty hclean).2

/-- Any end. -/
abbrev Anyhow (_ : Unit) (_ : List FormItem) : Prop := True

theorem obeys_orReturn {R : Type} {J : List FormItem → Move NbdCall Note → Prop}
    {post : Unit → List FormItem → Prop} {d : Part (Option R)} {rest : R → FormPart Unit}
    (h : (Part.toForm d).Obeys J (fun
      | none, past => post () past
      | some r, past => (rest r).Obeys J post past) past) :
    (orReturn d rest).Obeys J post past := by
  rw [orReturn, obeys_bind]
  refine h.mono fun r past hr => ?_
  cases r <;> exact hr

theorem obeys_get {form : Form} {name : String} {rest : String → FormPart Unit}
    (hsome : ∀ val, (rest val).Obeys FormAllowed Anyhow past) :
    (orReturn (ewfHdfSget form name) rest).Obeys FormAllowed Anyhow past := by
  apply obeys_orReturn
  unfold ewfHdfSget
  cases form.query name with
  | none => trivial
  | some val =>
    dsimp only
    split_ifs
    · exact hsome val
    · exact ⟨trivial, trivial⟩

theorem obeys_nvGet {rest : String → FormPart Unit} (name : String) (h : Idle past)
    (hsome : ∀ val past, Idle past → (rest val).Obeys FormAllowed Anyhow past) :
    (orReturn (nvGet name) rest).Obeys FormAllowed Anyhow past := by
  apply obeys_orReturn
  refine ⟨trivial, fun (a : Option String) => ?_⟩
  cases a with
  | none => trivial
  | some val => exact hsome val _ (h.concat ⟨not_false, not_false, not_false⟩)

theorem obeys_init {rest : Trx → FormPart Unit} (h : Idle past)
    (hrest : ∀ trx past, Idle past → (rest trx).Obeys FormAllowed Anyhow past) :
    (orReturn nvTrxInit rest).Obeys FormAllowed Anyhow past := by
  apply obeys_orReturn
  refine ⟨fun item hitem => (h item hitem).2.1, fun (id : Int) => ?_⟩
  dsimp only
  split_ifs with hid
  · exact ⟨trivial, trivial⟩
  · exact hrest _ _ (h.concat ⟨not_false, not_false, hid⟩)

/-- What a setting does, to the past. -/
def TrxObeys (trx : Trx) (d : Part (Option Trx)) : Prop :=
  ∀ past, InTrx trx past → (Part.toForm d).Obeys FormAllowed (fun
    | none, _ => True
    | some trx', past => InTrx trx' past) past

theorem nvSetWtrx_trxObeys {nvname hdfname value : String} :
    TrxObeys trx (nvSetWtrx trx nvname hdfname value) := by
  refine fun past h => ⟨h.1, fun (ret : Int) => ?_⟩
  dsimp only
  split_ifs with hok
  · exact h.concat not_false fun hclean => ⟨hclean, not_not_intro hok⟩
  · have hset : InTrx { trx with dirty := true }
        (past ++ [.asked (.config (.cset trx.id nvname value)) ret]) := h.concat not_false nofun
    exact ⟨trivial, hset.concat not_false nofun⟩
  · exact ⟨trivial, trivial, fun _ => trivial⟩

theorem andThen_trxObeys {d : Part (Option Trx)} {next : Trx → Part (Option Trx)}
    (hd : TrxObeys trx d) (hnext : ∀ trx, TrxObeys trx (next trx)) :
    TrxObeys trx (andThen d next) := by
  intro past h
  rw [andThen, Part.toForm_bind, obeys_bind]
  refine (hd past h).mono fun r past hr => ?_
  cases r with
  | none => exact hr
  | some trx => exact hnext trx past hr

theorem obeys_set {d : Part (Option Trx)} {rest : Trx → FormPart Unit} (hd : TrxObeys trx d)
    (h : InTrx trx past)
    (hrest : ∀ trx past, InTrx trx past → (rest trx).Obeys FormAllowed Anyhow past) :
    (orReturn d rest).Obeys FormAllowed Anyhow past := by
  apply obeys_orReturn
  refine (hd past h).mono fun r past hr => ?_
  cases r with
  | none => trivial
  | some trx => exact hrest trx past hr

theorem obeys_xcommit {rest : Int → FormPart Unit} (h : InTrx trx past)
    (hrest : ∀ ret past, (rest ret).Obeys FormAllowed Anyhow past) :
    ((Part.toForm (nvTrxXcommit trx)).bind rest).Obeys FormAllowed Anyhow past := by
  rw [obeys_bind]
  unfold nvTrxXcommit
  split_ifs with hdirty
  · exact ⟨trivial, fun _ => hrest _ _⟩
  · exact ⟨h.2 (Bool.not_eq_true _ ▸ hdirty), fun ret => ⟨trivial, fun _ => hrest ret _⟩⟩

/-- A direct change and its commit. -/
theorem Idle.commitsDirectChange (h : Idle past) {change : FormItem} (hchange : DirectChange change)
    (hcset : ¬ IsCset change.move) :
    CommitsDirectChange (past ++ [change]) (.ask (.nvCommit "user")) := by
  refine ⟨rfl, ⟨past, change, rfl, hchange⟩, fun item hitem => ?_⟩
  rcases List.mem_append.mp hitem with hitem | hitem
  · exact (h item hitem).1
  · rwa [List.mem_singleton.mp hitem]

theorem setNetMode_obeys (hasNetInfraBridge : Bool) (netMode : String) (h : Idle past) :
    (setNetMode hasNetInfraBridge netMode).Obeys FormAllowed (fun _ past => Idle past) past := by
  have hnone : ¬ False ∧ ¬ False ∧ ¬ False := ⟨not_false, not_false, not_false⟩
  unfold setNetMode
  split_ifs
  · refine ⟨trivial, fun (ret : Int) => ?_⟩
    have hset : Idle (past ++ [.asked (.nvSet "net_mode" netMode) ret]) := h.concat hnone
    dsimp only
    split_ifs with hret
    · exact ⟨h.commitsDirectChange ⟨rfl, hret⟩ not_false, fun _ => hset.concat hnone⟩
    · exact hset
  · exact h

theorem setApActive_obeys (apActive : String) (h : Idle past) :
    (setApActive apActive).Obeys FormAllowed (fun _ past => Idle past) past := by
  have hnone : ¬ False ∧ ¬ False ∧ ¬ False := ⟨not_false, not_false, not_false⟩
  unfold setApActive
  split_ifs
  · refine ⟨trivial, fun (ret : Int) => ⟨trivial, fun (ret' : Int) => ?_⟩⟩
    have hstop : Idle (past ++ [.asked .wlanStop ret]) := h.concat hnone
    have hset : Idle (past ++ [.asked .wlanStop ret] ++ [.asked (.wlanActive "off") ret']) :=
      hstop.concat hnone
    exact ⟨hstop.commitsDirectChange (.inl rfl) not_false, fun _ => hset.concat hnone⟩
  · refine ⟨trivial, fun (ret : Int) => ?_⟩
    have hset : Idle (past ++ [.asked (.wlanActive "on") ret]) := h.concat hnone
    dsimp only
    split_ifs with hret
    · exact ⟨h.commitsDirectChange (.inr ⟨rfl, hret⟩) not_false, fun _ => hset.concat hnone⟩
    · exact hset
  · exact h

end CommitRules

/-! ### The handlers -/

theorem finishWan_obeys (reboot : Bool) (ret : Int) (past : List FormItem) :
    (finishWan reboot ret).Obeys FormAllowed Anyhow past := by
  unfold finishWan
  dsimp only
  split_ifs
  · exact ⟨trivial, fun _ => ⟨trivial, fun _ => ⟨trivial, trivial⟩⟩⟩
  · exact ⟨trivial, fun _ => ⟨trivial, fun _ => trivial⟩⟩
  · exact ⟨trivial, trivial⟩
  · exact trivial

theorem networkWanForm_obeys (hasNetInfraBridge : Bool) (form : Form) :
    (networkWanForm hasNetInfraBridge form).Obeys FormAllowed Anyhow [] := by
  refine obeys_init (by exact nofun) fun trx past h => ?_
  refine obeys_get fun pppLogin => obeys_get fun pppPassword => ?_
  refine obeys_bind.mpr ((setNetMode_obeys _ _ h).mono fun reboot past h => ?_)
  refine obeys_set nvSetWtrx_trxObeys h.inTrx fun trx past h => ?_
  iterate 2 refine obeys_set nvSetWtrx_trxObeys h fun trx past h => ?_
  exact obeys_xcommit h (finishWan_obeys reboot)

theorem setApChannel_trxObeys (trx : Trx) (apChannel : String) :
    TrxObeys trx (setApChannel trx apChannel) := by
  unfold setApChannel
  split_ifs
  · exact nvSetWtrx_trxObeys
  · exact andThen_trxObeys nvSetWtrx_trxObeys fun trx => nvSetWtrx_trxObeys

theorem setApHt40_trxObeys (ht40 : Bool) (trx : Trx) (apHt40 : String) :
    TrxObeys trx (setApHt40 ht40 trx apHt40) := by
  unfold setApHt40
  split_ifs
  · exact nvSetWtrx_trxObeys
  · exact fun past h => h

theorem finishWlan_obeys (restart : Bool) (ret : Int) (past : List FormItem) :
    (finishWlan restart ret).Obeys FormAllowed Anyhow past := by
  unfold finishWlan
  split_ifs
  · exact ⟨trivial, fun _ => trivial⟩
  · exact trivial

theorem wifiConfigForm_obeys (ht40 : Bool) (form : Form) :
    (wifiConfigForm ht40 form).Obeys FormAllowed Anyhow [] := by
  refine obeys_nvGet _ (by exact nofun) fun wlanWl0Enc past h => ?_
  iterate 5 refine obeys_get fun _ => ?_
  dsimp only
  split_ifs
  · exact ⟨trivial, trivial⟩
  · refine obeys_bind.mpr ((setApActive_obeys _ h).mono fun restart past h => ?_)
    refine obeys_init h fun trx past h => ?_
    refine obeys_set nvSetWtrx_trxObeys h.inTrx fun trx past h => ?_
    refine obeys_set nvSetWtrx_trxObeys h fun trx past h => ?_
    refine obeys_set (setApChannel_trxObeys _ _) h fun trx past h => ?_
    refine obeys_set nvSetWtrx_trxObeys h fun trx past h => ?_
    refine obeys_set (setApHt40_trxObeys _ _ _) h fun trx past h => ?_
    exact obeys_xcommit h (finishWlan_obeys restart)

/-- **A form that fails.**  In every run of the form of `/network/wan` or of `/wifi/config`,
whatever is submitted and whatever the daemon answers: if a value of the transaction is not set, or
the cursor cannot be opened, the cursor is not committed, and every commit follows right after a
change that was made without the cursor, of `net_mode` or of whether the WLAN is active, before
anything is set on the cursor. -/
theorem failed_form_commits {page : FormPage}
    (hpage : (∃ hasNetInfraBridge, page = .networkWan hasNetInfraBridge) ∨
      ∃ ht40, page = .wifiConfig ht40)
    {form : Form} {trace : List FormItem} (hran : Ran (page.handler form) trace ())
    (hfails : ∃ item ∈ trace, Fails item) {before after : List FormItem} {item : FormItem}
    (htrace : trace = before ++ item :: after) (hcommit : Commits item.move) :
    CommitsDirectChange before item.move := by
  have hobeys : (page.handler form).Obeys FormAllowed Anyhow [] := by
    rcases hpage with ⟨hasNetInfraBridge, rfl⟩ | ⟨ht40, rfl⟩
    · exact networkWanForm_obeys hasNetInfraBridge form
    · exact wifiConfigForm_obeys ht40 form
  exact commitsDirectChange_of_justified (hran.justified hobeys) hfails htrace hcommit

theorem fails_of_refused {cid : Int} {key data : String} :
    Fails (.asked (.config (.cset cid key data)) nvSetInvalidValue) :=
  show ¬ (nvSetInvalidValue = nvSetSuccess ∨ nvSetInvalidValue = nvSetUnchanged) by decide

/-- The network mode was changed and committed when the login is refused. -/
theorem failed_form_commits_netMode :
    let trace := (networkWanForm true (formWithout "")).trace (pickyDaemon "x")
    let before : List FormItem := [.asked (.config .cursorNew) (1 : Int),
      .asked (.nvSet "net_mode" "x") (0 : Int)]
    let after : List FormItem := [.asked (.config (.cset 1 "ppp_login" "x")) nvSetInvalidValue,
      .told (.varError "ppp_login" "value"),
      .asked (.config (.cset 1 "ppp_password" "x")) nvSetInvalidValue,
      .told (.varError "ppp_password" "value"),
      .asked (.config (.cset 1 "ipv6_enable" "x")) nvSetInvalidValue,
      .told (.varError "ipv6_enable" "value"), .asked (.config (.cursorClose 1)) (0 : Int),
      .told (.redirect "/reboot")]
    trace = before ++ .asked (.nvCommit "user") (0 : Int) :: after ∧
      CommitsDirectChange before (.ask (.nvCommit "user")) := by
  intro trace before after
  have htrace : trace = before ++ .asked (.nvCommit "user") (0 : Int) :: after := rfl
  exact ⟨htrace, failed_form_commits (.inl ⟨true, rfl⟩) (ran_trace _ _)
    ⟨_, .tail _ (.tail _ (.tail _ (.head _))), fails_of_refused⟩ htrace (.inr ⟨"user", rfl⟩)⟩

/-- A change is committed although the transaction fails. -/
theorem networkWan_not_allOrNothing :
    ¬ AllOrNothing ((networkWanForm true (formWithout "")).trace (pickyDaemon "x")) := by
  intro h
  exact h ⟨_, .tail _ (.tail _ (.tail _ (.head _))), fails_of_refused⟩
    [.asked (.config .cursorNew) (1 : Int), .asked (.nvSet "net_mode" "x") (0 : Int)]
    (.asked (.nvCommit "user") (0 : Int)) _ rfl (.inr ⟨"user", rfl⟩)
    (.asked (.nvSet "net_mode" "x") (0 : Int)) (.tail _ (.head _)) trivial

end Neufbox.Www
