import Neufbox.Www.Forms

/-!
# The cursors of the forms

What the forms of `/network/wan`, `/network/dhcp`, `/wifi/config` and `/wifi/security` do with the
cursor of their transaction (`cursor_closed_iff`).

A monitor follows the state of the cursor.  What it allows is enough for the cursor to be closed
once (`closedOnce_of_kept`).  Each macro has one rule that says what it does to the state, and the
proof for a handler goes from rule to rule.
-/

namespace Neufbox.Www

open Libnbd Dialogue

/-- A form, with what its handler depends on besides the submission. -/
inductive FormPage where
  | networkWan (hasNetInfraBridge : Bool)
  | networkDhcp (net : NetFuncs)
  | wifiConfig (ht40 : Bool)
  | wifiSecurity (wepkeyValid : Bool → String → Bool)

/-- The `FORM_HANDLER` of a page. -/
def FormPage.handler (form : Form) : FormPage → FormPart Unit
  | networkWan hasNetInfraBridge => networkWanForm hasNetInfraBridge form
  | networkDhcp net => networkDhcpForm net form
  | wifiConfig ht40 => wifiConfigForm ht40 form
  | wifiSecurity wepkeyValid => wifiSecurityForm wepkeyValid form

/-- A request of a form with its answer, or a note. -/
abbrev FormItem : Type := Item NbdCall.Answer Note

/-! ### Macros that may return -/

theorem keeps_orReturn {σ R : Type} {m : Monitor NbdCall.Answer Note σ} {post : Unit → σ → Prop}
    {s : σ} {d : Part (Option R)} {rest : R → FormPart Unit}
    (h : (Part.toForm d).Keeps m (fun
      | none, s => post () s
      | some r, s => (rest r).Keeps m post s) s) : (orReturn d rest).Keeps m post s := by
  rw [orReturn, keeps_bind]
  refine h.mono fun r s hr => ?_
  cases r <;> exact hr

/-- The monitor does not look at what is written to the page. -/
def IgnoresNotes {σ : Type} (m : Monitor NbdCall.Answer Note σ) : Prop :=
  ∀ s e, m.demand s (.tell e) ∧ m.next s (.told e) = s

def isConfig : NbdCall → Bool
  | .config _ => true
  | _ => false

/-- The monitor follows what is asked of the configuration only. -/
def IgnoresDirect {σ : Type} (m : Monitor NbdCall.Answer Note σ) : Prop :=
  ∀ s q, isConfig q = false → m.demand s (.ask q) ∧ ∀ a, m.next s (.asked q a) = s

theorem keeps_direct {σ R : Type} {m : Monitor NbdCall.Answer Note σ} (hm : IgnoresDirect m)
    {post : R → σ → Prop} {s : σ} {q : NbdCall} (hq : isConfig q = false)
    {next : q.Answer → FormPart R} (h : ∀ a, (next a).Keeps m post s) :
    (ask q next).Keeps m post s := by
  obtain ⟨hdemand, hnext⟩ := hm s q hq
  refine ⟨hdemand, fun a _ => ?_⟩
  rw [hnext]
  exact h a

/-- `ewf_hdf_sget` has a value for the name. -/
def Form.Accepts (form : Form) (name : String) : Prop :=
  ∃ val, form.query name = some val ∧ form.valid name val = true

theorem ewfHdfSget_keeps {σ : Type} {m : Monitor NbdCall.Answer Note σ} (hm : IgnoresNotes m)
    {s : σ} {form : Form} {name : String} :
    (Part.toForm (ewfHdfSget form name)).Keeps m
      (fun r s' => s' = s ∧ (r.isSome ↔ form.Accepts name)) s := by
  unfold ewfHdfSget
  cases hquery : form.query name with
  | none => exact ⟨rfl, by simp [Form.Accepts, hquery]⟩
  | some val =>
    dsimp only
    split_ifs with hvalid
    · exact ⟨rfl, by simp [Form.Accepts, hquery, hvalid]⟩
    · exact ⟨(hm s _).1, (hm s _).2, by simp [Form.Accepts, hquery, hvalid]⟩

/-- A value of the form; the handler returns if there is none. -/
theorem keeps_get {σ : Type} {m : Monitor NbdCall.Answer Note σ} (hm : IgnoresNotes m)
    {post : Unit → σ → Prop} {s : σ} {form : Form} {name : String} {rest : String → FormPart Unit}
    (hnone : ¬ form.Accepts name → post () s)
    (hsome : form.Accepts name → ∀ val, (rest val).Keeps m post s) :
    (orReturn (ewfHdfSget form name) rest).Keeps m post s := by
  apply keeps_orReturn
  refine (ewfHdfSget_keeps hm).mono ?_
  rintro (_ | val) _ ⟨rfl, haccepts⟩
  · exact hnone (mt haccepts.mpr nofun)
  · exact hsome (haccepts.mp rfl) val

theorem getWlanKeys_keeps {σ : Type} {m : Monitor NbdCall.Answer Note σ} (hm : IgnoresNotes m)
    (wepkeyValid : Bool → String → Bool) (form : Form) (wlanEncryptiontype : String) (s : σ) :
    (Part.toForm (getWlanKeys wepkeyValid form wlanEncryptiontype)).Keeps m (fun _ s' => s' = s)
      s := by
  unfold getWlanKeys
  split
  · rw [Part.toForm_bind, keeps_bind]
    refine (ewfHdfSget_keeps hm).mono ?_
    rintro (_ | wlanKeytype) _ ⟨rfl, -⟩
    · exact rfl
    · dsimp only
      split
      · exact hm _ _
      · exact rfl
  · rw [Part.toForm_bind, keeps_bind]
    refine (ewfHdfSget_keeps hm).mono ?_
    rintro (_ | wlanWpaenctype) _ ⟨rfl, -⟩
    · exact rfl
    · dsimp only
      rw [Part.toForm_bind, keeps_bind]
      refine (ewfHdfSget_keeps hm).mono ?_
      rintro (_ | wlanWpakey) _ ⟨rfl, -⟩ <;> exact rfl

/-! ### Cursors -/

/-- The request sets something on the cursor, commits it or closes it. -/
def UsesCursor (id : Int) : Move NbdCall Note → Prop
  | .ask (.config (.cset cid _ _)) => cid = id
  | .ask (.config (.cursorCommit cid)) => cid = id
  | .ask (.config (.cursorClose cid)) => cid = id
  | _ => False

/-- **Every cursor that was opened is closed exactly once**, and nothing is set or committed on it
after that. -/
def ClosedOnce (trace : List FormItem) : Prop :=
  ∀ before (id : Int) after, trace = before ++ .asked (.config .cursorNew) id :: after → 0 < id →
    ∃ open_ ret closed, after = open_ ++ .asked (.config (.cursorClose id)) ret :: closed ∧
      (∀ item ∈ open_, item.move ≠ .ask (.config (.cursorClose id))) ∧
      ∀ item ∈ closed, ¬ UsesCursor id item.move

/-- The state of the cursor of a handler. -/
inductive CursorState where
  | unopened
  | failed
  | opened (id : Int)
  | closed

/-- The state after the request for a cursor was answered. -/
def CursorState.answered (id : Int) : CursorState := if id ≤ 0 then .failed else .opened id

def CursorState.next : CursorState → FormItem → CursorState
  | .unopened, .asked (.config .cursorNew) id => .answered id
  | .opened _, .asked (.config (.cursorClose _)) _ => .closed
  | s, _ => s

/-- A cursor is opened once, and used while it is open. -/
def CursorState.demand (s : CursorState) : Move NbdCall Note → Prop
  | .ask (.config .cursorNew) => s = .unopened
  | .ask (.config (.cset id _ _)) => s = .opened id
  | .ask (.config (.cursorCommit id)) => s = .opened id
  | .ask (.config (.cursorClose id)) => s = .opened id
  | _ => True

def cursorMonitor : Monitor NbdCall.Answer Note CursorState where
  next := CursorState.next
  rely _ _ _ := True
  demand := CursorState.demand

theorem served_cursorMonitor (s : CursorState) (trace : List FormItem) :
    Served cursorMonitor s trace :=
  served_of_forall fun _ _ _ _ => trivial

/-- After it was closed, a cursor is not used. -/
theorem step_closed {item : FormItem} (h : CursorState.closed.demand item.move) :
    CursorState.closed.next item = .closed ∧ ∀ id, ¬ UsesCursor id item.move := by
  rcases item with ⟨q | _, _⟩ | _
  · cases q with
    | cset | cursorCommit | cursorClose => exact nomatch h
    | _ => exact ⟨rfl, fun _ => not_false⟩
  all_goals exact ⟨rfl, fun _ => not_false⟩

/-- An open cursor is closed, or it stays open. -/
theorem step_opened {id : Int} {item : FormItem} (h : (CursorState.opened id).demand item.move) :
    (∃ ret, item = .asked (.config (.cursorClose id)) ret) ∨
      ((CursorState.opened id).next item = .opened id ∧
        item.move ≠ .ask (.config (.cursorClose id))) := by
  rcases item with ⟨q | _, a⟩ | _
  · cases q with
    | cursorClose cid =>
      obtain rfl := CursorState.opened.inj h
      exact .inl ⟨a, rfl⟩
    | _ => exact .inr ⟨rfl, nofun⟩
  all_goals exact .inr ⟨rfl, nofun⟩

theorem kept_closed {trace : List FormItem} (h : Kept cursorMonitor .closed trace) :
    trace.foldl cursorMonitor.next .closed = .closed ∧
      ∀ item ∈ trace, ∀ id, ¬ UsesCursor id item.move := by
  induction trace with
  | nil => exact ⟨rfl, by simp⟩
  | cons item trace ih =>
    obtain ⟨hdemand, hkept⟩ := h
    obtain ⟨hnext, hitem⟩ := step_closed hdemand
    have hnext : cursorMonitor.next .closed item = .closed := hnext
    rw [hnext] at hkept
    obtain ⟨hfold, hall⟩ := ih hkept
    exact ⟨by rw [List.foldl_cons, hnext, hfold], List.forall_mem_cons.mpr ⟨hitem, hall⟩⟩

/-- **A cursor that is open** stays open or is closed once. -/
theorem kept_opened {id : Int} {trace : List FormItem} (h : Kept cursorMonitor (.opened id) trace) :
    (trace.foldl cursorMonitor.next (.opened id) = .opened id ∧
        ∀ item ∈ trace, item.move ≠ .ask (.config (.cursorClose id))) ∨
      (trace.foldl cursorMonitor.next (.opened id) = .closed ∧
        ∃ open_ ret closed, trace = open_ ++ .asked (.config (.cursorClose id)) ret :: closed ∧
          (∀ item ∈ open_, item.move ≠ .ask (.config (.cursorClose id))) ∧
          ∀ item ∈ closed, ¬ UsesCursor id item.move) := by
  induction trace with
  | nil => exact .inl ⟨rfl, by simp⟩
  | cons item trace ih =>
    obtain ⟨hdemand, hkept⟩ := h
    rcases step_opened hdemand with ⟨ret, rfl⟩ | ⟨hnext, hclose⟩
    · obtain ⟨hfold, hall⟩ := kept_closed hkept
      exact .inr ⟨hfold, [], ret, trace, rfl, by simp, fun item hitem => hall item hitem id⟩
    · have hnext : cursorMonitor.next (.opened id) item = .opened id := hnext
      rw [hnext] at hkept
      rw [List.foldl_cons, hnext]
      rcases ih hkept with ⟨hfold, hopen⟩ | ⟨hfold, open_, ret, closed, rfl, hopen, hclosed⟩
      · exact .inl ⟨hfold, List.forall_mem_cons.mpr ⟨hclose, hopen⟩⟩
      · exact .inr ⟨hfold, item :: open_, ret, closed, rfl,
          List.forall_mem_cons.mpr ⟨hclose, hopen⟩, hclosed⟩

/-- What follows the request for a cursor that was granted. -/
theorem kept_after_new {before after : List FormItem} {id : Int} (hpos : 0 < id)
    (h : Kept cursorMonitor .unopened (before ++ .asked (.config .cursorNew) id :: after)) :
    Kept cursorMonitor (.opened id) after ∧
      (before ++ .asked (.config .cursorNew) id :: after).foldl cursorMonitor.next .unopened
        = after.foldl cursorMonitor.next (.opened id) := by
  rw [kept_append] at h
  obtain ⟨-, hdemand, hafter⟩ := h
  have hdemand : before.foldl cursorMonitor.next .unopened = .unopened := hdemand
  have hopen : cursorMonitor.next .unopened (.asked (.config .cursorNew) id) = .opened id :=
    if_neg (Int.not_le.mpr hpos)
  rw [hdemand, hopen] at hafter
  rw [List.foldl_append, List.foldl_cons, hdemand, hopen]
  exact ⟨hafter, rfl⟩

/-- A handler that does not leave its cursor open closes it once. -/
theorem closedOnce_of_kept {trace : List FormItem} (h : Kept cursorMonitor .unopened trace)
    (hend : ∀ id, trace.foldl cursorMonitor.next .unopened ≠ .opened id) : ClosedOnce trace := by
  rintro before id after rfl hpos
  obtain ⟨hafter, hfold⟩ := kept_after_new hpos h
  rcases kept_opened hafter with ⟨hopen, -⟩ | ⟨-, hclosed⟩
  · exact absurd (hfold.trans hopen) (hend id)
  · exact hclosed

/-- A handler that does not close a cursor keeps to the discipline exactly if it got none. -/
theorem closedOnce_iff_of_leak {trace : List FormItem} (h : Kept cursorMonitor .unopened trace)
    (hend : trace.foldl cursorMonitor.next .unopened ≠ .closed) :
    ClosedOnce trace ↔ ∀ id : Int, .asked (.config .cursorNew) id ∈ trace → id ≤ 0 := by
  constructor
  · intro hclosed id hmem
    by_contra hpos
    have hpos := Int.not_le.mp hpos
    obtain ⟨before, after, rfl⟩ := List.append_of_mem hmem
    obtain ⟨hafter, hfold⟩ := kept_after_new hpos h
    rcases kept_opened hafter with ⟨-, hopen⟩ | ⟨hclose, -⟩
    · obtain ⟨open_, ret, closed, rfl, -⟩ := hclosed before id after rfl hpos
      exact hopen (.asked (.config (.cursorClose id)) ret) (by simp) rfl
    · exact hend (hfold.trans hclose)
  · rintro hnone before id after rfl hpos
    exact absurd (hnone id (by simp)) (Int.not_le.mpr hpos)

/-! ### What the macros do to the cursor -/

theorem ignoresNotes_cursorMonitor : IgnoresNotes cursorMonitor :=
  fun s _ => ⟨trivial, by cases s <;> rfl⟩

/-- The cursor is not left open. -/
def NotOpen {R : Type} (_ : R) (s : CursorState) : Prop := ∀ id, s ≠ .opened id

/-- Requests about cursors. -/
def isCursorRequest : NbdCall → Bool
  | .config .cursorNew | .config (.cset _ _ _) | .config (.cursorCommit _)
  | .config (.cursorClose _) => true
  | _ => false

theorem cursorMonitor_of_other {q : NbdCall} (hq : isCursorRequest q = false) (s : CursorState) :
    cursorMonitor.demand s (.ask q) ∧ ∀ a, cursorMonitor.next s (.asked q a) = s := by
  cases q with
  | config q =>
    cases q with
    | cursorNew | cset | cursorCommit | cursorClose => exact nomatch hq
    | _ => exact ⟨trivial, fun _ => by cases s <;> rfl⟩
  | _ => exact ⟨trivial, fun _ => by cases s <;> rfl⟩

section Rules

variable {trx : Trx} {s : CursorState} {R : Type} {post : R → CursorState → Prop}

theorem keeps_ask {q : NbdCall} (hq : isCursorRequest q = false) {next : q.Answer → FormPart R}
    (h : ∀ a, (next a).Keeps cursorMonitor post s) : (ask q next).Keeps cursorMonitor post s := by
  obtain ⟨hdemand, hnext⟩ := cursorMonitor_of_other hq s
  refine ⟨hdemand, fun a _ => ?_⟩
  rw [hnext]
  exact h a

theorem keeps_init {post : Unit → CursorState → Prop} {rest : Trx → FormPart Unit}
    (hfailed : post () .failed)
    (h : ∀ trx, (rest trx).Keeps cursorMonitor post (.opened trx.id)) :
    (orReturn nvTrxInit rest).Keeps cursorMonitor post .unopened := by
  apply keeps_orReturn
  refine ⟨rfl, fun (id : Int) _ => ?_⟩
  by_cases hid : id ≤ 0
  · have hnext : cursorMonitor.next .unopened (.asked (.config .cursorNew) id) = .failed :=
      if_pos hid
    rw [hnext]
    dsimp only
    rw [if_pos hid]
    exact ⟨trivial, hfailed⟩
  · have hnext : cursorMonitor.next .unopened (.asked (.config .cursorNew) id) = .opened id :=
      if_neg hid
    rw [hnext]
    dsimp only
    rw [if_neg hid]
    exact h ⟨id, false⟩

/-- What a setting does: the cursor stays open, or it was closed and the handler returns. -/
def TrxKeeps (trx : Trx) (d : Part (Option Trx)) : Prop :=
  (Part.toForm d).Keeps cursorMonitor (fun
    | none, s => s = .closed
    | some trx', s => s = .opened trx'.id) (.opened trx.id)

theorem nvSetWtrx_keeps (trx : Trx) (nvname hdfname value : String) :
    TrxKeeps trx (nvSetWtrx trx nvname hdfname value) := by
  refine ⟨rfl, fun (ret : Int) _ => ?_⟩
  dsimp only
  split_ifs
  · exact rfl
  · exact ⟨trivial, rfl⟩
  · exact ⟨trivial, rfl, fun _ _ => rfl⟩

theorem andThen_keeps {d : Part (Option Trx)} {next : Trx → Part (Option Trx)}
    (hd : TrxKeeps trx d) (hnext : ∀ trx, TrxKeeps trx (next trx)) :
    TrxKeeps trx (andThen d next) := by
  rw [TrxKeeps, andThen, Part.toForm_bind, keeps_bind]
  refine hd.mono fun r s hs => ?_
  cases r with
  | none => exact hs
  | some trx =>
    obtain rfl := hs
    exact hnext trx

theorem keeps_set {d : Part (Option Trx)} {rest : Trx → FormPart Unit} (hd : TrxKeeps trx d)
    (h : ∀ trx, (rest trx).Keeps cursorMonitor NotOpen (.opened trx.id)) :
    (orReturn d rest).Keeps cursorMonitor NotOpen (.opened trx.id) := by
  apply keeps_orReturn
  refine hd.mono fun r s hs => ?_
  cases r with
  | none =>
    obtain rfl := hs
    exact nofun
  | some trx =>
    obtain rfl := hs
    exact h trx

theorem keeps_xcommit {rest : Int → FormPart Unit}
    (h : ∀ ret, (rest ret).Keeps cursorMonitor NotOpen .closed) :
    ((Part.toForm (nvTrxXcommit trx)).bind rest).Keeps cursorMonitor NotOpen (.opened trx.id) := by
  rw [keeps_bind]
  unfold nvTrxXcommit
  split_ifs
  · exact ⟨rfl, fun _ _ => h _⟩
  · exact ⟨rfl, fun ret _ => ⟨rfl, fun _ _ => h ret⟩⟩

theorem keeps_nvGet {post : Unit → CursorState → Prop} {rest : String → FormPart Unit}
    (name : String) (hnone : post () s) (h : ∀ val, (rest val).Keeps cursorMonitor post s) :
    (orReturn (nvGet name) rest).Keeps cursorMonitor post s := by
  apply keeps_orReturn
  refine keeps_ask rfl fun (a : Option String) => ?_
  cases a with
  | none => exact hnone
  | some val => exact h val

end Rules

/-! ### The handlers -/

theorem notOpen_unopened : NotOpen () .unopened := fun _ => nofun

theorem notOpen_closed : NotOpen () .closed := fun _ => nofun

/-- The end of a handler, which does not touch the cursor any more. -/
theorem keeps_send {q : NbdCall} (hq : isCursorRequest q = false) {R : Type}
    {post : R → CursorState → Prop} {s : CursorState} {rest : FormPart R}
    (h : rest.Keeps cursorMonitor post s) : (send q rest).Keeps cursorMonitor post s :=
  keeps_ask hq fun _ => h

theorem setNetMode_keeps (hasNetInfraBridge : Bool) (netMode : String) (s : CursorState) :
    (setNetMode hasNetInfraBridge netMode).Keeps cursorMonitor (fun _ s' => s' = s) s := by
  unfold setNetMode
  split_ifs
  · refine keeps_ask rfl fun (ret : Int) => ?_
    split_ifs
    · exact keeps_send rfl rfl
    · exact rfl
  · exact rfl

theorem setApActive_keeps (apActive : String) (s : CursorState) :
    (setApActive apActive).Keeps cursorMonitor (fun _ s' => s' = s) s := by
  unfold setApActive
  split_ifs
  · exact keeps_send rfl (keeps_send rfl (keeps_send rfl rfl))
  · refine keeps_ask rfl fun (ret : Int) => ?_
    split_ifs
    · exact keeps_send rfl rfl
    · exact rfl
  · exact rfl

theorem finishWan_keeps (reboot : Bool) (ret : Int) :
    (finishWan reboot ret).Keeps cursorMonitor NotOpen .closed := by
  unfold finishWan
  dsimp only
  split_ifs
  · exact keeps_send rfl (keeps_send rfl ⟨trivial, notOpen_closed⟩)
  · exact keeps_send rfl (keeps_send rfl notOpen_closed)
  · exact ⟨trivial, notOpen_closed⟩
  · exact notOpen_closed

/-- With `ppp_login` and `ppp_password`. -/
theorem networkWanForm_keeps (hasNetInfraBridge : Bool) {form : Form}
    (hlogin : form.Accepts "ppp_login") (hpassword : form.Accepts "ppp_password") :
    (networkWanForm hasNetInfraBridge form).Keeps cursorMonitor NotOpen .unopened := by
  refine keeps_init (fun _ => nofun) fun trx => ?_
  refine keeps_get ignoresNotes_cursorMonitor (absurd hlogin) fun _ pppLogin => ?_
  refine keeps_get ignoresNotes_cursorMonitor (absurd hpassword) fun _ pppPassword => ?_
  refine keeps_bind.mpr ((setNetMode_keeps _ _ _).mono ?_)
  rintro reboot _ rfl
  iterate 3 refine keeps_set (nvSetWtrx_keeps ..) fun trx => ?_
  exact keeps_xcommit fun ret => finishWan_keeps reboot ret

/-- Without them the handler returns before the cursor is closed. -/
theorem networkWanForm_keeps_of_leak (hasNetInfraBridge : Bool) {form : Form}
    (h : ¬ (form.Accepts "ppp_login" ∧ form.Accepts "ppp_password")) :
    (networkWanForm hasNetInfraBridge form).Keeps cursorMonitor (fun _ s => s ≠ .closed)
      .unopened := by
  refine keeps_init nofun fun trx => ?_
  refine keeps_get ignoresNotes_cursorMonitor (fun _ => nofun) fun hlogin pppLogin => ?_
  exact keeps_get ignoresNotes_cursorMonitor (fun _ => nofun)
    fun hpassword _ => absurd ⟨hlogin, hpassword⟩ h

theorem ignoresDirect_cursorMonitor : IgnoresDirect cursorMonitor := by
  intro s q hq
  apply cursorMonitor_of_other
  cases q with
  | config c => exact nomatch hq
  | _ => rfl

/-- The branches of `add` and `remove` ask nothing of the configuration. -/
theorem dhcpAddForm_keeps {σ : Type} {m : Monitor NbdCall.Answer Note σ} (hm : IgnoresNotes m)
    (hdirect : IgnoresDirect m) {post : Unit → σ → Prop} {s : σ} (hpost : post () s)
    (net : NetFuncs) (form : Form) (lanIpaddr lanNetmask : String) :
    (dhcpAddForm net form lanIpaddr lanNetmask).Keeps m post s := by
  have hnote : ∀ e, (tell e (done ()) : FormPart Unit).Keeps m post s := by
    intro e
    refine ⟨(hm s e).1, ?_⟩
    rw [(hm s e).2]
    exact hpost
  iterate 7 refine keeps_get hm (fun _ => hpost) fun _ _ => ?_
  split
  · exact hnote _
  · split
    · exact hnote _
    · split_ifs
      · exact hnote _
      · split
        · exact hnote _
        · refine keeps_direct hdirect rfl fun (ret : Int) => ?_
          split_ifs
          · exact hnote _
          · exact keeps_direct hdirect rfl fun _ => hpost

theorem dhcpRemoveForm_keeps {σ : Type} {m : Monitor NbdCall.Answer Note σ} (hm : IgnoresNotes m)
    (hdirect : IgnoresDirect m) {post : Unit → σ → Prop} {s : σ} (hpost : post () s)
    (net : NetFuncs) (form : Form) : (dhcpRemoveForm net form).Keeps m post s := by
  apply keeps_orReturn
  rw [ewfHdfGetInt, Part.toForm_bind, keeps_bind]
  refine (ewfHdfSget_keeps hm).mono ?_
  rintro (_ | val) _ ⟨rfl, -⟩
  · exact hpost
  · dsimp only
    generalize (if (net.strtol val).2 then -1 else (net.strtol val).1) = valInt
    split_ifs
    · exact hpost
    · refine keeps_direct hdirect rfl fun (ret : Int) => ?_
      split_ifs
      · exact keeps_direct hdirect rfl fun _ => hpost
      · exact hpost

theorem setDhcpRange_keeps (dhcpActive dhcpStart dhcpEnd dhcpLease : String) :
    (setDhcpRange dhcpActive dhcpStart dhcpEnd dhcpLease).Keeps cursorMonitor NotOpen
      .unopened := by
  refine keeps_init (fun _ => nofun) fun trx => ?_
  iterate 4 refine keeps_set (nvSetWtrx_keeps ..) fun trx => ?_
  refine keeps_xcommit fun ret => ?_
  split_ifs
  · exact keeps_send rfl notOpen_closed
  · exact notOpen_closed

theorem dhcpConfigForm_keeps (net : NetFuncs) (form : Form) (lanIpaddr lanNetmask : String) :
    (dhcpConfigForm net form lanIpaddr lanNetmask).Keeps cursorMonitor NotOpen .unopened := by
  iterate 4 refine keeps_get ignoresNotes_cursorMonitor (fun _ => notOpen_unopened) fun _ _ => ?_
  split
  · exact ⟨trivial, notOpen_unopened⟩
  · split
    · exact ⟨trivial, notOpen_unopened⟩
    · split
      · exact ⟨trivial, notOpen_unopened⟩
      · refine keeps_ask rfl fun (buffer : Option String) => ?_
        split_ifs
        · exact ⟨trivial, notOpen_unopened⟩
        · exact ⟨trivial, notOpen_unopened⟩
        · exact ⟨trivial, notOpen_unopened⟩
        · exact setDhcpRange_keeps ..

theorem networkDhcpForm_keeps (net : NetFuncs) (form : Form) :
    (networkDhcpForm net form).Keeps cursorMonitor NotOpen .unopened := by
  refine keeps_nvGet _ notOpen_unopened fun lanIpaddr => ?_
  refine keeps_nvGet _ notOpen_unopened fun lanNetmask => ?_
  dsimp only
  split_ifs
  · exact dhcpAddForm_keeps ignoresNotes_cursorMonitor ignoresDirect_cursorMonitor
      notOpen_unopened ..
  · exact dhcpRemoveForm_keeps ignoresNotes_cursorMonitor ignoresDirect_cursorMonitor
      notOpen_unopened ..
  · exact dhcpConfigForm_keeps ..

theorem setApChannel_keeps (trx : Trx) (apChannel : String) :
    TrxKeeps trx (setApChannel trx apChannel) := by
  unfold setApChannel
  split_ifs
  · exact nvSetWtrx_keeps ..
  · exact andThen_keeps (nvSetWtrx_keeps ..) fun trx => nvSetWtrx_keeps ..

theorem setApHt40_keeps (ht40 : Bool) (trx : Trx) (apHt40 : String) :
    TrxKeeps trx (setApHt40 ht40 trx apHt40) := by
  unfold setApHt40
  split_ifs
  · exact nvSetWtrx_keeps ..
  · exact rfl

theorem setWlanKeys_keeps (trx : Trx) (keys : WlanKeys) : TrxKeeps trx (setWlanKeys trx keys) := by
  cases keys <;> exact andThen_keeps (nvSetWtrx_keeps ..) fun trx => nvSetWtrx_keeps ..

theorem finishWlan_keeps (restart : Bool) (ret : Int) :
    (finishWlan restart ret).Keeps cursorMonitor NotOpen .closed := by
  unfold finishWlan
  split_ifs
  · exact keeps_send rfl notOpen_closed
  · exact notOpen_closed

theorem wifiConfigForm_keeps (ht40 : Bool) (form : Form) :
    (wifiConfigForm ht40 form).Keeps cursorMonitor NotOpen .unopened := by
  refine keeps_nvGet _ notOpen_unopened fun wlanWl0Enc => ?_
  iterate 5 refine keeps_get ignoresNotes_cursorMonitor (fun _ => notOpen_unopened) fun _ _ => ?_
  dsimp only
  split_ifs
  · exact ⟨trivial, notOpen_unopened⟩
  · refine keeps_bind.mpr ((setApActive_keeps _ _).mono ?_)
    rintro restart _ rfl
    refine keeps_init (fun _ => nofun) fun trx => ?_
    iterate 2 refine keeps_set (nvSetWtrx_keeps ..) fun trx => ?_
    refine keeps_set (setApChannel_keeps ..) fun trx => ?_
    refine keeps_set (nvSetWtrx_keeps ..) fun trx => ?_
    refine keeps_set (setApHt40_keeps ..) fun trx => ?_
    exact keeps_xcommit fun ret => finishWlan_keeps restart ret

theorem wifiSecurityForm_keeps (wepkeyValid : Bool → String → Bool) (form : Form) :
    (wifiSecurityForm wepkeyValid form).Keeps cursorMonitor NotOpen .unopened := by
  refine keeps_nvGet _ notOpen_unopened fun wlanMode => ?_
  refine keeps_get ignoresNotes_cursorMonitor (fun _ => notOpen_unopened)
    fun _ wlanEncryptiontype => ?_
  split_ifs
  · exact ⟨trivial, notOpen_unopened⟩
  · apply keeps_orReturn
    refine (getWlanKeys_keeps ignoresNotes_cursorMonitor ..).mono ?_
    rintro (_ | keys) _ rfl
    · exact notOpen_unopened
    · refine keeps_init (fun _ => nofun) fun trx => ?_
      refine keeps_set (nvSetWtrx_keeps ..) fun trx => ?_
      refine keeps_set (setWlanKeys_keeps ..) fun trx => ?_
      exact keeps_xcommit fun ret => finishWlan_keeps false ret

/-- **Form cursors are closed.**  In every run of one of the forms, whatever is submitted and
whatever the daemon answers, a cursor that was opened is closed exactly once and not used after
that, exactly if it is not `/network/wan` that is submitted, or `ppp_login` and `ppp_password` are
there and valid, or there was no cursor to open. -/
theorem cursor_closed_iff (page : FormPage) (form : Form) {trace : List FormItem}
    (hran : Ran (page.handler form) trace ()) :
    ClosedOnce trace ↔ ((∃ hasNetInfraBridge, page = .networkWan hasNetInfraBridge) →
      (form.Accepts "ppp_login" ∧ form.Accepts "ppp_password") ∨
        ∀ id : Int, .asked (.config .cursorNew) id ∈ trace → id ≤ 0) := by
  have hclosed (h : (page.handler form).Keeps cursorMonitor NotOpen .unopened) :
      ClosedOnce trace := by
    obtain ⟨hkept, hend⟩ := hran.kept h (served_cursorMonitor _ _)
    exact closedOnce_of_kept hkept hend
  cases page with
  | networkWan hasNetInfraBridge =>
    by_cases haccepts : form.Accepts "ppp_login" ∧ form.Accepts "ppp_password"
    · exact iff_of_true (hclosed (networkWanForm_keeps _ haccepts.1 haccepts.2))
        fun _ => .inl haccepts
    · obtain ⟨hkept, hend⟩ := hran.kept (networkWanForm_keeps_of_leak hasNetInfraBridge haccepts)
        (served_cursorMonitor _ _)
      rw [closedOnce_iff_of_leak hkept hend]
      exact ⟨fun h _ => .inr h, fun h => (h ⟨_, rfl⟩).resolve_left haccepts⟩
  | networkDhcp net => exact iff_of_true (hclosed (networkDhcpForm_keeps net form)) nofun
  | wifiConfig ht40 => exact iff_of_true (hclosed (wifiConfigForm_keeps ht40 form)) nofun
  | wifiSecurity wepkeyValid =>
    exact iff_of_true (hclosed (wifiSecurityForm_keeps wepkeyValid form)) nofun

/-- A daemon that refuses one value. -/
def pickyDaemon (refused : String) : (q : NbdCall) → q.Answer :=
  NbdCall.daemon (Nbd.daemon (fun _ => some "11g") (some "11g")
    fun data => if data = refused then nvSetInvalidValue else nvSetSuccess)

/-- A form in which everything is `x`, without the variable of the name. -/
def formWithout (name : String) : Form where
  query varName := if varName = name then none else some "x"
  valid _ _ := true

/-- Of the settings of `/wifi/security` one is refused; the cursor is closed. -/
theorem cursor_closed_iff_refused :
    let trace := (wifiSecurityForm (fun _ _ => true) (formWithout "")).trace (pickyDaemon "x")
    trace = [.asked (.config (.nvGet "wlan_mode")) (some "11g"),
        .asked (.config .cursorNew) (1 : Int),
        .asked (.config (.cset 1 "wlan_wl0_enc" "x")) nvSetInvalidValue,
        .told (.varError "wlan_encryptiontype" "value"),
        .asked (.config (.cset 1 "wlan_wl0_wpakey" "x")) nvSetInvalidValue,
        .told (.varError "wlan_wpakey" "value"),
        .asked (.config (.cset 1 "wlan_wl0_enctype" "x")) nvSetInvalidValue,
        .told (.varError "wlan_wpaenctype" "value"),
        .asked (.config (.cursorClose 1)) (0 : Int)] ∧ ClosedOnce trace := by
  intro trace
  refine ⟨rfl, (cursor_closed_iff (.wifiSecurity _) _ (ran_trace _ _)).mpr nofun⟩

/-- Without `ppp_login` the form of `/network/wan` leaves its cursor open. -/
theorem networkWan_leaks_cursor :
    let trace := (networkWanForm true (formWithout "ppp_login")).trace (pickyDaemon "")
    trace = [.asked (.config .cursorNew) (1 : Int)] ∧ ¬ ClosedOnce trace := by
  intro trace
  refine ⟨rfl, fun h => ?_⟩
  obtain ⟨open_, ret, closed, hafter, -⟩ := h [] 1 [] rfl (by decide)
  simp at hafter

end Neufbox.Www
