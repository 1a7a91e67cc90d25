import Neufbox.Box.Wlan
import Neufbox.Www.Equiv.Forms

/-!
# Mode and encryption of the WLAN

`nbl_wlan_check_compatibility` says which encryptions a mode of the WLAN allows.  The two forms
check the half they set against the half that is stored; the kit and the API do not.  If each of
their writes fits the stored half, the two stay compatible (`wlan_compatible_of_fits`).

The rules for the macros of a form follow the pair that is stored and the one that would be stored
if the cursor were committed (`staged`).
-/

namespace Neufbox.Box

open Function (update update_self update_of_ne)
open Libnbd Dialogue Www

/-! ### Mode and encryption -/

/-- A mode and an encryption. -/
abbrev WlanPair : Type := String × String

def Compatible (w : WlanPair) : Prop := nblWlanCheckCompatibility w.1 w.2 = .ok

instance : DecidablePred Compatible := fun _ => inferInstanceAs (Decidable (_ = _))

def pairOf (value : String → String) : WlanPair := (value "wlan_mode", value "wlan_wl0_enc")

/-- The pair after a variable was set. -/
def setPair (w : WlanPair) (key data : String) : WlanPair :=
  (if key = "wlan_mode" then data else w.1, if key = "wlan_wl0_enc" then data else w.2)

/-- Neither of the two variables. -/
def OtherKey (key : String) : Prop := key ≠ "wlan_mode" ∧ key ≠ "wlan_wl0_enc"

instance : DecidablePred OtherKey := fun _ => inferInstanceAs (Decidable (_ ∧ _))

theorem setPair_of_other {key : String} (h : OtherKey key) (w : WlanPair) (data : String) :
    setPair w key data = w := by
  rw [setPair, if_neg h.1, if_neg h.2]

theorem pairOf_update (value : String → String) (key data : String) :
    pairOf (update value key data) = setPair (pairOf value) key data := by
  simp only [pairOf, setPair, Function.update_apply, eq_comm]

/-- The pair that is stored. -/
def stored (s : Store) : WlanPair := pairOf s.value

/-- The pair that is stored once the cursor is committed. -/
def staged (s : Store) (cid : Int) : WlanPair := pairOf (applySets s.value (s.pending cid))

theorem stored_set (s : Store) (key data : String) (ret : Int) :
    stored (s.set key data ret) = stored s ∨
      stored (s.set key data ret) = setPair (stored s) key data := by
  unfold Store.set
  split_ifs
  · exact .inr (pairOf_update ..)
  · exact .inl rfl

theorem stored_cset (s : Store) (cid : Int) (key data : String) (ret : Int) :
    stored (s.cset cid key data ret) = stored s := by
  unfold Store.cset
  split_ifs <;> rfl

theorem staged_cset (s : Store) (cid : Int) (key data : String) (ret : Int) :
    staged (s.cset cid key data ret) cid = staged s cid ∨
      staged (s.cset cid key data ret) cid = setPair (staged s cid) key data := by
  unfold Store.cset
  split_ifs
  · refine .inr ?_
    show pairOf (applySets s.value (update s.pending cid (s.pending cid ++ [(key, data)]) cid)) = _
    rw [update_self, applySets, List.foldl_append, List.foldl_cons, List.foldl_nil, pairOf_update]
    rfl
  · exact .inl rfl

theorem staged_cursorNew (s : Store) (cid : Int) : staged (s.cursorNew cid) cid = stored s := by
  show pairOf (applySets s.value (update s.pending cid [] cid)) = _
  rw [update_self]
  rfl

theorem stored_cursorCommit (s : Store) (cid ret : Int) :
    stored (s.cursorCommit cid ret) = stored s ∨
      stored (s.cursorCommit cid ret) = staged s cid := by
  unfold Store.cursorCommit
  split_ifs
  · exact .inr rfl
  · exact .inl rfl

/-! ### Rules for the macros -/

theorem ignoresNotes_storeMonitor : IgnoresNotes (storeMonitor Note) := fun _ _ => ⟨trivial, rfl⟩

/-- The stored pair is compatible. -/
def Sound {R : Type} (_ : R) (s : Store) : Prop := Compatible (stored s)

variable {s : Store}

section Rules

variable {trx : Trx} {I I' I'' : WlanPair → Prop}

/-- What a setting does to the pair of its cursor: from `I` to `I'`. -/
def StagedKeeps (I I' : WlanPair → Prop) (trx : Trx) (d : Www.Part (Option Trx)) : Prop :=
  ∀ s, Compatible (stored s) → I (staged s trx.id) →
    (Part.toForm d).Keeps (storeMonitor Note) (fun
      | none, s => Compatible (stored s)
      | some trx', s => Compatible (stored s) ∧ I' (staged s trx'.id)) s

theorem nvSetWtrx_staged {nvname hdfname value : String}
    (h : ∀ w, I w → I' w ∧ I' (setPair w nvname value)) :
    StagedKeeps I I' trx (nvSetWtrx trx nvname hdfname value) := by
  refine fun s hs hstaged => ⟨trivial, fun (ret : Int) _ => ?_⟩
  have hs' : Compatible (stored (s.cset trx.id nvname value ret)) := by rwa [stored_cset]
  have hstaged' : I' (staged (s.cset trx.id nvname value ret) trx.id) := by
    rcases staged_cset s trx.id nvname value ret with heq | heq <;> rw [heq]
    · exact (h _ hstaged).1
    · exact (h _ hstaged).2
  dsimp only
  split_ifs
  · exact ⟨hs', hstaged'⟩
  · exact ⟨trivial, hs', hstaged'⟩
  · exact ⟨trivial, trivial, fun _ _ => hs'⟩

/-- Another variable is set. -/
theorem nvSetWtrx_staged_other {nvname hdfname value : String} (h : OtherKey nvname) :
    StagedKeeps I I trx (nvSetWtrx trx nvname hdfname value) :=
  nvSetWtrx_staged fun w hw => ⟨hw, by rwa [setPair_of_other h]⟩

theorem andThen_staged {d : Www.Part (Option Trx)} {next : Trx → Www.Part (Option Trx)}
    (hd : StagedKeeps I I' trx d) (hnext : ∀ trx, StagedKeeps I' I'' trx (next trx)) :
    StagedKeeps I I'' trx (andThen d next) := by
  intro s hs hstaged
  rw [andThen, Part.toForm_bind, keeps_bind]
  refine (hd s hs hstaged).mono fun r s hr => ?_
  cases r with
  | none => exact hr
  | some trx => exact hnext trx s hr.1 hr.2

theorem keeps_staged {d : Www.Part (Option Trx)} {rest : Trx → FormPart Unit}
    (hd : StagedKeeps I I' trx d) (hs : Compatible (stored s)) (hstaged : I (staged s trx.id))
    (hrest : ∀ trx s, Compatible (stored s) → I' (staged s trx.id) →
      (rest trx).Keeps (storeMonitor Note) Sound s) :
    (orReturn d rest).Keeps (storeMonitor Note) Sound s := by
  apply keeps_orReturn
  refine (hd s hs hstaged).mono fun r s hr => ?_
  cases r with
  | none => exact hr
  | some trx => exact hrest trx s hr.1 hr.2

theorem keeps_init_staged {rest : Trx → FormPart Unit} (hs : Compatible (stored s))
    (hrest : ∀ trx s', stored s' = stored s → staged s' trx.id = stored s →
      (rest trx).Keeps (storeMonitor Note) Sound s') :
    (orReturn nvTrxInit rest).Keeps (storeMonitor Note) Sound s := by
  apply keeps_orReturn
  refine ⟨trivial, fun (id : Int) _ => ?_⟩
  dsimp only
  split_ifs
  · exact ⟨trivial, hs⟩
  · exact hrest ⟨id, false⟩ (s.cursorNew id) rfl (staged_cursorNew s id)

theorem keeps_xcommit_staged {rest : Int → FormPart Unit} (hs : Compatible (stored s))
    (hstaged : Compatible (staged s trx.id))
    (hrest : ∀ ret s, Compatible (stored s) → (rest ret).Keeps (storeMonitor Note) Sound s) :
    ((Part.toForm (nvTrxXcommit trx)).bind rest).Keeps (storeMonitor Note) Sound s := by
  rw [keeps_bind]
  unfold nvTrxXcommit
  split_ifs
  · exact ⟨trivial, fun _ _ => hrest _ s hs⟩
  · refine ⟨trivial, fun (ret : Int) _ => ⟨trivial, fun _ _ => hrest ret _ ?_⟩⟩
    show Compatible (stored (s.cursorCommit trx.id ret))
    rcases stored_cursorCommit s trx.id ret with heq | heq <;> rwa [heq]

/-- A variable is read as it is stored. -/
theorem keeps_nvGet_stored {rest : String → FormPart Unit} (name : String)
    (hs : Compatible (stored s)) (hrest : (rest (s.value name)).Keeps (storeMonitor Note) Sound s) :
    (orReturn (nvGet name) rest).Keeps (storeMonitor Note) Sound s := by
  apply keeps_orReturn
  refine ⟨trivial, fun (a : Option String) ha => ?_⟩
  have ha : a = none ∨ a = some (s.value name) := ha
  rcases ha with rfl | rfl
  · exact hs
  · exact hrest

end Rules

/-! ### The forms -/

theorem setApActive_store (apActive : String) (s : Store) :
    (setApActive apActive).Keeps (storeMonitor Note) (fun _ s' => s' = s) s := by
  unfold setApActive
  split_ifs
  · exact ⟨trivial, fun _ _ => ⟨trivial, fun _ _ => ⟨trivial, fun _ _ => rfl⟩⟩⟩
  · refine ⟨trivial, fun (ret : Int) _ => ?_⟩
    dsimp only
    split_ifs
    · exact ⟨trivial, fun _ _ => rfl⟩
    · exact rfl
  · exact rfl

theorem setApChannel_staged {I : WlanPair → Prop} (trx : Trx) (apChannel : String) :
    StagedKeeps I I trx (setApChannel trx apChannel) := by
  unfold setApChannel
  split_ifs
  · exact nvSetWtrx_staged_other (by decide)
  · exact andThen_staged (nvSetWtrx_staged_other (by decide))
      fun trx => nvSetWtrx_staged_other (by decide)

theorem setApHt40_staged {I : WlanPair → Prop} (ht40 : Bool) (trx : Trx) (apHt40 : String) :
    StagedKeeps I I trx (setApHt40 ht40 trx apHt40) := by
  unfold setApHt40
  split_ifs
  · exact nvSetWtrx_staged_other (by decide)
  · exact fun s hs hstaged => ⟨hs, hstaged⟩

theorem setWlanKeys_staged {I : WlanPair → Prop} (trx : Trx) (keys : WlanKeys) :
    StagedKeeps I I trx (setWlanKeys trx keys) := by
  cases keys <;> exact andThen_staged (nvSetWtrx_staged_other (by decide))
    fun trx => nvSetWtrx_staged_other (by decide)

theorem finishWlan_store (restart : Bool) (ret : Int) (hs : Compatible (stored s)) :
    (finishWlan restart ret).Keeps (storeMonitor Note) Sound s := by
  unfold finishWlan
  split_ifs
  · exact ⟨trivial, fun _ _ => hs⟩
  · exact hs

theorem wifiConfigForm_sound (ht40 : Bool) (form : Form) (hs : Compatible (stored s)) :
    (wifiConfigForm ht40 form).Keeps (storeMonitor Note) Sound s := by
  refine keeps_nvGet_stored _ hs ?_
  refine keeps_get ignoresNotes_storeMonitor (fun _ => hs) fun _ apActive => ?_
  refine keeps_get ignoresNotes_storeMonitor (fun _ => hs) fun _ apMode => ?_
  iterate 3 refine keeps_get ignoresNotes_storeMonitor (fun _ => hs) fun _ _ => ?_
  dsimp only
  split_ifs with hcheck
  · exact ⟨trivial, hs⟩
  · have hcheck : Compatible (apMode, (stored s).2) := not_not.mp hcheck
    refine keeps_bind.mpr ((setApActive_store _ s).mono fun restart t ht => ?_)
    rw [ht]
    refine keeps_init_staged hs fun trx s' hs' hstaged => ?_
    -- Until the mode is set, the pair of the cursor is the one that the mode was checked against.
    have hset : ∀ w, w = stored s → Compatible w ∧ Compatible (setPair w "wlan_mode" apMode) := by
      rintro _ rfl
      exact ⟨hs, hcheck⟩
    have hs' : Compatible (stored s') := by rwa [hs']
    refine keeps_staged (I := (· = stored s)) (nvSetWtrx_staged_other (by decide)) hs' hstaged
      fun trx s' hs' hstaged => ?_
    refine keeps_staged (I := (· = stored s)) (nvSetWtrx_staged_other (by decide)) hs' hstaged
      fun trx s' hs' hstaged => ?_
    refine keeps_staged (I := (· = stored s)) (setApChannel_staged trx _) hs' hstaged
      fun trx s' hs' hstaged => ?_
    refine keeps_staged (nvSetWtrx_staged hset) hs' hstaged fun trx s' hs' hstaged => ?_
    refine keeps_staged (setApHt40_staged ht40 trx _) hs' hstaged fun trx s' hs' hstaged => ?_
    exact keeps_xcommit_staged hs' hstaged fun ret s hs => finishWlan_store restart ret hs

theorem wifiSecurityForm_sound (wepkeyValid : Bool → String → Bool) (form : Form)
    (hs : Compatible (stored s)) :
    (wifiSecurityForm wepkeyValid form).Keeps (storeMonitor Note) Sound s := by
  refine keeps_nvGet_stored _ hs ?_
  refine keeps_get ignoresNotes_storeMonitor (fun _ => hs) fun _ wlanEncryptiontype => ?_
  split_ifs with hcheck
  · exact ⟨trivial, hs⟩
  · have hcheck : Compatible ((stored s).1, wlanEncryptiontype) := not_not.mp hcheck
    apply keeps_orReturn
    refine (getWlanKeys_keeps ignoresNotes_storeMonitor ..).mono fun keys t ht => ?_
    rw [ht]
    cases keys with
    | none => exact hs
    | some keys =>
      refine keeps_init_staged hs fun trx s' hs' hstaged => ?_
      have hset : ∀ w, w = stored s →
          Compatible w ∧ Compatible (setPair w "wlan_wl0_enc" wlanEncryptiontype) := by
        rintro _ rfl
        exact ⟨hs, hcheck⟩
      have hs' : Compatible (stored s') := by rwa [hs']
      refine keeps_staged (nvSetWtrx_staged hset) hs' hstaged fun trx s' hs' hstaged => ?_
      refine keeps_staged (setWlanKeys_staged trx keys) hs' hstaged fun trx s' hs' hstaged => ?_
      exact keeps_xcommit_staged hs' hstaged fun ret s hs => finishWlan_store false ret hs

/-! ### The kit and the API -/

theorem kitHelperVarCompatibility_eq_enc {name : String}
    (h : kitHelperVarCompatibility name = "wlan_wl0_enc") : name = "wlan_wl0_enc" := by
  unfold kitHelperVarCompatibility at h
  cases hfind : oldVarsCompatibilityMaps.find? fun entry => name = entry.1 with
  | none => rwa [hfind] at h
  | some entry =>
    rw [hfind] at h
    have hmem := List.mem_of_find?_eq_some hfind
    have hne : ∀ entry ∈ oldVarsCompatibilityMaps, entry.2 ≠ "wlan_wl0_enc" := by decide
    exact absurd h (hne entry hmem)

/-- The kit sets no mode. -/
theorem name_ne_mode_of_find {name : String} {var : KitVar}
    (h : (requestNameMaps.find? fun var => name = var.name) = some var) : name ≠ "wlan_mode" := by
  have hname : name = var.name := by simpa using List.find?_some h
  have hmem := List.mem_of_find?_eq_some h
  have hne : ∀ var ∈ requestNameMaps, var.name ≠ "wlan_mode" := by decide
  rw [hname]
  exact hne var hmem

/-- A value is set without a cursor. -/
theorem compatible_set (hs : Compatible (stored s)) {key data : String}
    (h : Compatible (setPair (stored s) key data)) (ret : Int) :
    Compatible (stored (s.set key data ret)) := by
  rcases stored_set s key data ret with heq | heq <;> rwa [heq]

theorem kitHelperSet_sound (hs : Compatible (stored s)) {name value : String}
    (hfits : name = "wlan_wl0_enc" → Compatible ((stored s).1, value)) :
    (kitHelperSet name value).Keeps (storeMonitor KitNote) Sound s := by
  unfold kitHelperSet
  dsimp only
  split
  · exact hs
  · next var hfind =>
    have hmode := name_ne_mode_of_find hfind
    have hset : Compatible (setPair (stored s) (kitHelperVarCompatibility name) value) := by
      by_cases henc : kitHelperVarCompatibility name = "wlan_wl0_enc"
      · rw [setPair, if_neg hmode, if_pos henc]
        exact hfits (kitHelperVarCompatibility_eq_enc henc)
      · rwa [setPair_of_other ⟨hmode, henc⟩]
    have hwrite : (if var.writable then ask (.nvSet (kitHelperVarCompatibility name) value) done
        else done (-1) : KitPart Int).Keeps (storeMonitor KitNote) Sound s := by
      split_ifs
      · exact ⟨trivial, fun ret _ => compatible_set hs hset ret⟩
      · exact hs
    split
    · refine ⟨trivial, fun (status : Option String) _ => ?_⟩
      dsimp only
      split
      · exact hs
      · exact hwrite
    · exact hwrite

theorem ewfHdfSget_kit (form : Form) (name : String) (s : Store) :
    (Part.toKit (ewfHdfSget form name)).Keeps (storeMonitor KitNote)
      (fun r s' => s' = s ∧ ∀ val, r = some val → form.query name = some val) s := by
  unfold ewfHdfSget
  cases form.query name with
  | none => exact ⟨rfl, nofun⟩
  | some val =>
    dsimp only
    split_ifs
    · exact ⟨rfl, fun _ h => h⟩
    · exact ⟨trivial, rfl, nofun⟩

theorem kitSetForm_sound {form : Form} (hs : Compatible (stored s))
    (hfits : form.query "name" = some "wlan_wl0_enc" → ∀ value, form.query "value" = some value →
      Compatible ((stored s).1, value)) :
    (kitSetForm form).Keeps (storeMonitor KitNote) Sound s := by
  refine keeps_bind.mpr ((ewfHdfSget_kit form "name" s).mono fun name t ht => ?_)
  rw [ht.1]
  refine keeps_bind.mpr ((ewfHdfSget_kit form "value" s).mono fun value t' ht' => ?_)
  rw [ht'.1]
  split
  · next name value =>
    have hfits : name = "wlan_wl0_enc" → Compatible ((stored s).1, value) := by
      rintro rfl
      exact hfits (ht.2 _ rfl) value (ht'.2 _ rfl)
    refine keeps_bind.mpr ((kitHelperSet_sound hs hfits).mono fun ret s hs => ⟨trivial, ?_⟩)
    split_ifs
    · exact ⟨trivial, fun _ _ => ⟨trivial, hs⟩⟩
    · exact ⟨trivial, hs⟩
    · exact ⟨trivial, hs⟩
  · exact hs

theorem wlanSetWlanMode_sound {mode : Option String} (hs : Compatible (stored s))
    (hfits : ∀ m ∈ mode, Compatible (Api.cfgValue "wlan_mode" m, (stored s).2)) :
    (Api.wlanSetWlanMode mode).Keeps (storeMonitor Api.ApiError) Sound s := by
  unfold Api.wlanSetWlanMode
  cases mode with
  | none => exact ⟨trivial, hs⟩
  | some param =>
    refine ⟨trivial, fun (ret : Int) _ => ?_⟩
    have hfits : Compatible (setPair (stored s) "wlan_mode" (Api.cfgValue "wlan_mode" param)) :=
      hfits param rfl
    have hset := compatible_set hs hfits ret
    dsimp only
    split_ifs
    · exact ⟨trivial, fun _ _ => hset⟩
    · exact hset
    · exact ⟨trivial, hset⟩
    · exact ⟨trivial, hset⟩

theorem wlanSetWl0Enc_sound {enc : Option String} (hs : Compatible (stored s))
    (hfits : ∀ e ∈ enc, Compatible ((stored s).1, e)) :
    (Api.wlanSetWl0Enc enc).Keeps (storeMonitor Api.ApiError) Sound s := by
  unfold Api.wlanSetWl0Enc
  cases enc with
  | none => exact hs
  | some param =>
    have hfits : Compatible (setPair (stored s) "wlan_wl0_enc" param) := hfits param rfl
    exact ⟨trivial, fun ret _ => ⟨trivial, fun _ _ => compatible_set hs hfits ret⟩⟩

/-! ### Runs -/

/-- The half that the kit or the API is to set fits the half that is stored. -/
def Fits (s : Store) : WlanWrite → Prop
  | .wifiConfig _ _ | .wifiSecurity _ _ => True
  | .kitSet form => form.query "name" = some "wlan_wl0_enc" →
      ∀ value, form.query "value" = some value → Compatible ((stored s).1, value)
  | .setWlanMode mode => ∀ m ∈ mode, Compatible (Api.cfgValue "wlan_mode" m, (stored s).2)
  | .setWl0Enc enc => ∀ e ∈ enc, Compatible ((stored s).1, e)

theorem compatible_of_takes {E R : Type} {d : Dialogue NbdCall NbdCall.Answer E R} {s s' : Store}
    (h : d.Keeps (storeMonitor E) Sound s) (htakes : Takes d s s') : Compatible (stored s') := by
  obtain ⟨trace, r, hran, hserved, rfl⟩ := htakes
  exact (hran.kept h hserved).2

/-- **One submission** that fits keeps the two halves compatible. -/
theorem compatible_step {w : WlanWrite} {s s' : Store} (hs : Compatible (stored s))
    (hfits : Fits s w) (hstep : w.Step s s') : Compatible (stored s') := by
  cases w with
  | wifiConfig ht40 form => exact compatible_of_takes (wifiConfigForm_sound ht40 form hs) hstep
  | wifiSecurity wepkeyValid form =>
    exact compatible_of_takes (wifiSecurityForm_sound wepkeyValid form hs) hstep
  | kitSet form => exact compatible_of_takes (kitSetForm_sound hs hfits) hstep
  | setWlanMode mode => exact compatible_of_takes (wlanSetWlanMode_sound hs hfits) hstep
  | setWl0Enc enc => exact compatible_of_takes (wlanSetWl0Enc_sound hs hfits) hstep

/-- **Mode and encryption stay compatible**, after every sequence of submissions, whatever the
daemon accepts of them, if each of the kit and the API sets a half that fits the one that is
stored. -/
theorem wlan_compatible_of_fits (writes : List WlanWrite) {s s' : Store}
    (hs : Compatible (stored s)) (hrun : WlanRun Fits writes s s') : Compatible (stored s') := by
  induction writes generalizing s with
  | nil =>
    obtain rfl : s' = s := hrun
    exact hs
  | cons w writes ih =>
    obtain ⟨hfits, t, hstep, hrun⟩ := hrun
    exact ih (compatible_step hs hfits hstep) hrun

/-- A daemon that accepts everything and reads these values. -/
def acceptingDaemon (value : String → String) : (q : NbdCall) → q.Answer :=
  NbdCall.daemon (Nbd.daemon (fun key => some (value key)) (some "on") fun _ => 0)

/-- The mode `11ng` with `WPA-PSK`. -/
def mixedStore : Store where
  value key := if key = "wlan_mode" then "11ng" else "WPA-PSK"
  pending _ := []

/-- A form of `/wifi/config` for the mode `11n`. -/
def only11nForm : Form where
  query name := some (if name = "ap_mode" then "11n" else "x")
  valid _ _ := true

/-- The API sets `WPA2-PSK`, and then the form the mode `11n`. -/
theorem wlan_compatible_of_fits_11n :
    ∃ s', WlanRun Fits [.setWl0Enc (some "WPA2-PSK"), .wifiConfig false only11nForm] mixedStore s' ∧
      stored s' = ("11n", "WPA2-PSK") ∧ Compatible (stored s') := by
  let s₁ := mixedStore.set "wlan_wl0_enc" "WPA2-PSK" 0
  let trace := (wifiConfigForm false only11nForm).trace (acceptingDaemon s₁.value)
  have hfirst : (WlanWrite.setWl0Enc (some "WPA2-PSK")).Step mixedStore s₁ :=
    ⟨_, (), ran_trace (acceptingDaemon mixedStore.value) _, ⟨trivial, trivial, trivial⟩, rfl⟩
  have hserved : Served (storeMonitor Note) s₁ trace :=
    ⟨.inr rfl, trivial, trivial, trivial, trivial, trivial, trivial, trivial, trivial, trivial,
      trivial⟩
  have hrun : WlanRun Fits [.setWl0Enc (some "WPA2-PSK"), .wifiConfig false only11nForm] mixedStore
      (trace.foldl (storeMonitor Note).next s₁) := by
    refine ⟨?_, s₁, hfirst, trivial, _, ⟨trace, (), ran_trace _ _, hserved, rfl⟩, rfl⟩
    intro e he
    obtain rfl := Option.mem_some_iff.mp he
    decide
  exact ⟨_, hrun, rfl, wlan_compatible_of_fits _ (by decide) hrun⟩

/-- The API sets `WEP` although the mode is `11ng`. -/
theorem setWl0Enc_incompatible :
    ∃ s', Compatible (stored mixedStore) ∧
      WlanRun (fun _ _ => True) [.setWl0Enc (some "WEP")] mixedStore s' ∧
      ¬ Compatible (stored s') := by
  refine ⟨mixedStore.set "wlan_wl0_enc" "WEP" 0, by decide, ⟨trivial, _, ?_, rfl⟩, by decide⟩
  exact ⟨_, (), ran_trace (acceptingDaemon mixedStore.value) _, ⟨trivial, trivial, trivial⟩, rfl⟩

end Neufbox.Box
