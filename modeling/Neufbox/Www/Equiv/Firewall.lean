import Mathlib.Data.List.Forall2
import Neufbox.Libnbd.Equiv.Encoding
import Neufbox.Www.Firewall

/-!
# Which rules reach the daemon whole

The form of `/network/firewall` adds a rule as soon as one of its eight values is there, and passes
the others as `NULL`, where the encoder takes the first one for the end of the arguments.  So a rule
is sent whole exactly if all its values are there, or none, and if the query fits into its buffer
(`sentWhole_iff`).

`FirewallAllowed` is what the handler knows when it adds a rule.
-/

namespace Neufbox.Www

open Libnbd Dialogue

/-- The names of the values of a rule, in the order in which they are sent. -/
def ruleFields : List String :=
  ["new.rulename", "new.proto", "new.direction", "new.dstip", "new.dstport", "new.srcip",
    "new.srcport", "new.policy"]

/-- The values of the form that are valid. -/
def Form.rule (form : Form) : FirewallRule where
  rulename := form.value "new.rulename"
  proto := form.value "new.proto"
  direction := form.value "new.direction"
  dstip := form.value "new.dstip"
  dstport := form.value "new.dstport"
  srcip := form.value "new.srcip"
  srcport := form.value "new.srcport"
  policy := form.value "new.policy"

theorem toList_rule (form : Form) : form.rule.toList = ruleFields.map form.value := rfl

/-- A string of a query is the value, if there is one. -/
def IsValue (value : Option String) (s : List UInt8) : Prop :=
  ∀ v, value = some v → s = (CString.ofString v).bytes

/-- The query lies in its buffer, and is read back as `firewall`, `add` and eight strings, which are
the values of the form. -/
def CarriesRule {abi : Abi} (form : Form) (query : Query abi) : Prop :=
  query.len.toNat ≤ 512 ∧ query.top ≤ 512 ∧
    ∃ strs, decodeQuery abi query.bytes
        = some ((CString.ofString "firewall").bytes :: (CString.ofString "add").bytes :: strs) ∧
      List.Forall₂ IsValue (ruleFields.map form.value) strs

/-- Whatever the daemon answers, a rule that the form adds is sent whole. -/
def SentWhole (abi : Abi) (form : Form) : Prop :=
  ∀ trace, Ran (networkFirewallForm form) trace () →
    ∀ rule ret, .asked (.firewallAdd rule) ret ∈ trace →
      ∀ stack, CarriesRule form (buildQuery abi stack (nbdFirewallAdd rule))

/-! ### What the handler adds -/

/-- The rule that is added is the one of the form, and it has a value. -/
def FirewallAllowed (form : Form) (_ : List (Item FirewallCall.Answer Note)) :
    Move FirewallCall Note → Prop
  | .ask (.firewallAdd rule) =>
    rule = form.rule ∧ form.value "new.add" ≠ none ∧ ∃ name ∈ ruleFields, form.value name ≠ none
  | _ => True

section FirewallRules

variable {form : Form} {past : List (Item FirewallCall.Answer Note)}

/-- Any request is allowed. -/
abbrev AnyMove (_ : List (Item Nbd.Answer Note)) (_ : Move Nbd Note) : Prop := True

theorem toFirewall_obeys {R : Type} {P : R → Prop} {d : Part R}
    (h : d.Obeys AnyMove (fun r _ => P r) []) :
    (Part.toFirewall d).Obeys (FirewallAllowed form) (fun r _ => P r) past :=
  obeys_embed (fun _ _ => trivial) (fun _ _ => trivial) h

theorem part_obeys {R : Type} (d : Part R) (past : List (Item Nbd.Answer Note)) :
    d.Obeys AnyMove (fun _ _ => True) past := by
  induction d generalizing past with
  | done r => trivial
  | tell e rest ih => exact ⟨trivial, ih _⟩
  | ask q next ih => exact ⟨trivial, fun a => ih a _⟩

theorem ewfHdfSget_obeys_any (name : String) (past : List (Item Nbd.Answer Note)) :
    (ewfHdfSget form name).Obeys AnyMove (fun r _ => r = form.value name) past := by
  rcases @ewfHdfSget_of_value form name with h | h
  · rw [h]
    rfl
  · rw [h]
    exact ⟨trivial, rfl⟩

/-- A value of the form, which may be missing. -/
theorem obeys_any_value {R : Type} {name : String} {rest : Option String → Part R}
    {post : R → List (Item Nbd.Answer Note) → Prop} {past : List (Item Nbd.Answer Note)}
    (h : ∀ past, (rest (form.value name)).Obeys AnyMove post past) :
    ((ewfHdfSget form name).bind rest).Obeys AnyMove post past := by
  rw [obeys_bind]
  apply (ewfHdfSget_obeys_any name past).mono
  rintro _ past rfl
  exact h past

theorem getRule_obeys (form : Form) :
    (getRule form).Obeys AnyMove (fun rule _ => rule = form.rule) [] := by
  refine obeys_any_value fun past => obeys_any_value fun past => ?_
  refine obeys_any_value fun past => obeys_any_value fun past => ?_
  refine obeys_any_value fun past => obeys_any_value fun past => ?_
  refine obeys_any_value fun past => obeys_any_value fun past => ?_
  rfl

theorem setupFilter_obeys :
    (setupFilter form).Obeys (FirewallAllowed form) (fun _ _ => True) past := by
  unfold setupFilter
  rw [obeys_bind]
  apply (toFirewall_obeys (part_obeys _ _)).mono
  intro mode past _
  cases mode with
  | none => trivial
  | some _ =>
    dsimp only
    rw [obeys_bind]
    apply (toFirewall_obeys (part_obeys _ _)).mono
    intro ret past _
    cases ret with
    | none => trivial
    | some ret =>
      dsimp only
      split_ifs
      · -- the four scripts
        refine ⟨trivial, fun _ => ⟨trivial, fun _ => ?_⟩⟩
        exact ⟨trivial, fun _ => ⟨trivial, fun _ => trivial⟩⟩
      · trivial

theorem removeFilter_obeys :
    (removeFilter form).Obeys (FirewallAllowed form) (fun _ _ => True) past := by
  unfold removeFilter
  rw [obeys_bind]
  apply (toFirewall_obeys (part_obeys _ _)).mono
  intro removeFilterId past _
  split_ifs
  · refine ⟨trivial, fun (ret : Int) => ?_⟩
    dsimp only
    split_ifs
    · exact ⟨trivial, fun _ => trivial⟩
    · trivial
  · trivial

theorem countP_rule_ne_zero (form : Form) :
    form.rule.toList.countP Option.isSome ≠ 0 ↔ ∃ name ∈ ruleFields, form.value name ≠ none := by
  rw [toList_rule, List.countP_map, ← Nat.pos_iff_ne_zero, List.countP_pos_iff]
  exact exists_congr fun name => and_congr_right fun _ => Option.isSome_iff_ne_none

theorem addFilter_obeys :
    (addFilter form).Obeys (FirewallAllowed form) (fun _ _ => True) past := by
  unfold addFilter
  rw [obeys_bind]
  apply (toFirewall_obeys (ewfHdfSget_obeys_any "new.add" [])).mono
  intro add past hadd
  cases add with
  | none => trivial
  | some _ =>
    dsimp only
    rw [obeys_bind]
    apply (toFirewall_obeys (getRule_obeys form)).mono
    rintro rule past rfl
    split_ifs with hrestart
    · have hfield := (countP_rule_ne_zero form).mp hrestart
      have hadd : form.value "new.add" ≠ none := by
        rw [← hadd]
        exact nofun
      refine ⟨⟨rfl, hadd, hfield⟩, fun (ret : Int) => ?_⟩
      dsimp only
      split_ifs
      · exact ⟨trivial, fun _ => trivial⟩
      · trivial
    · exact ⟨trivial, trivial⟩

theorem networkFirewallForm_obeys (form : Form) :
    (networkFirewallForm form).Obeys (FirewallAllowed form) (fun _ _ => True) [] := by
  unfold networkFirewallForm
  rw [obeys_bind]
  apply setupFilter_obeys.mono
  intro goesOn past _
  cases goesOn with
  | false => trivial
  | true =>
    dsimp only
    rw [obeys_bind]
    apply removeFilter_obeys.mono
    intro _ past _
    exact addFilter_obeys

end FirewallRules

/-- A rule that is added in a run. -/
theorem allowed_of_ran {form : Form} {trace : List (Item FirewallCall.Answer Note)}
    (hran : Ran (networkFirewallForm form) trace ()) {rule : FirewallRule} {ret : Int}
    (h : .asked (.firewallAdd rule) ret ∈ trace) :
    rule = form.rule ∧ form.value "new.add" ≠ none ∧
      ∃ name ∈ ruleFields, form.value name ≠ none := by
  obtain ⟨before, after, htrace⟩ := List.append_of_mem h
  exact hran.justified (networkFirewallForm_obeys form) before _ after htrace

/-! ### That it does add it -/

/-- A daemon that does what it is asked. -/
def obligingConfig : (q : Nbd) → q.Answer := Nbd.daemon (fun _ => none) none fun _ => 0

@[inherit_doc obligingConfig]
def obligingDaemon : (q : FirewallCall) → q.Answer
  | .call q => NbdCall.daemon obligingConfig q
  | .sysSyncRun _ _ | .firewallAdd _ | .firewallDelByIndex _ => (0 : Int)

theorem result_ewfHdfSget (answer : (q : Nbd) → q.Answer) (form : Form) (name : String) :
    (ewfHdfSget form name).result answer = form.value name := by
  rcases @ewfHdfSget_of_value form name with h | h
  · rw [h]
    rfl
  · rw [h]
    rfl

theorem result_toFirewall {R : Type} (d : Part R) :
    (Part.toFirewall d).result obligingDaemon = d.result obligingConfig :=
  result_embed ..

theorem result_getRule (answer : (q : Nbd) → q.Answer) (form : Form) :
    (getRule form).result answer = form.rule := by
  simp only [getRule, result_bind, result_ewfHdfSget]
  rfl

/-- With such a daemon the handler comes to the rules. -/
theorem result_setupFilter (form : Form) : (setupFilter form).result obligingDaemon = true := by
  rw [setupFilter, result_bind, result_toFirewall, result_ewfHdfSget]
  cases hmode : form.value "filter_mode" with
  | none => rfl
  | some filterMode =>
    dsimp only
    rw [result_bind, result_toFirewall, setFilterMode, result_bind, result_ewfHdfSget, hmode]
    rfl

theorem firewallAdd_mem_trace {form : Form} (hadd : form.value "new.add" ≠ none)
    (hfield : ∃ name ∈ ruleFields, form.value name ≠ none) :
    .asked (.firewallAdd form.rule) (0 : Int)
      ∈ (networkFirewallForm form).trace obligingDaemon := by
  rw [networkFirewallForm, trace_bind, result_setupFilter]
  apply List.mem_append_right
  dsimp only
  rw [trace_bind]
  apply List.mem_append_right
  rw [addFilter, trace_bind, result_toFirewall, result_ewfHdfSget]
  apply List.mem_append_right
  obtain ⟨add, hadd⟩ := Option.ne_none_iff_exists'.mp hadd
  rw [hadd]
  dsimp only
  rw [trace_bind, result_toFirewall, result_getRule]
  apply List.mem_append_right
  rw [if_pos ((countP_rule_ne_zero form).mpr hfield)]
  exact List.mem_cons_self

/-! ### What is read back -/

theorem forall₂_untilNull {values : List (Option String)} (h : ∀ v ∈ values, v ≠ none) :
    List.Forall₂ IsValue values
      ((untilNull (values.map (Option.map CString.ofString))).map CString.bytes) := by
  induction values with
  | nil => exact .nil
  | cons value values ih =>
    obtain ⟨hvalue, hvalues⟩ := List.forall_mem_cons.mp h
    cases value with
    | none => exact absurd rfl hvalue
    | some v =>
      refine .cons ?_ (ih hvalues)
      intro w hw
      rw [Option.some.inj hw]

section

variable {abi : Abi} {form : Form} {stack : ℕ → UInt8}

/-- The strings of the query, when one is read back as carrying the rule. -/
theorem length_le_of_carriesRule
    (h : CarriesRule form (buildQuery abi stack (nbdFirewallAdd form.rule))) :
    ∀ a ∈ (nbdFirewallAdd form.rule).toList, a.bytes.length ≤ 512 := by
  obtain ⟨hlen, -, strs, hdecode, hstrs⟩ := h
  have hread {s : List UInt8} (hs : s ∈ (CString.ofString "firewall").bytes ::
      (CString.ofString "add").bytes :: strs) : s.length ≤ 512 := by
    have := length_le_of_mem_decodeQuery hdecode hs
    rw [Query.bytes, Memory.length_read] at this
    omega
  intro a ha
  rcases List.mem_cons.mp ha with rfl | ha
  · exact hread List.mem_cons_self
  rcases List.mem_cons.mp ha with rfl | ha
  · exact hread (List.mem_cons_of_mem _ List.mem_cons_self)
  -- a value that is sent is one of the form
  obtain ⟨value, hvalue, heq⟩ := List.mem_map.mp (mem_untilNull ha)
  obtain ⟨v, rfl, rfl⟩ := Option.map_eq_some_iff.mp heq
  obtain ⟨⟨i, hi⟩, hget⟩ := List.mem_iff_get.mp hvalue
  have hi' : i < strs.length := hstrs.length_eq ▸ hi
  have hread_i := hread (List.mem_cons_of_mem _ (List.mem_cons_of_mem _ (List.getElem_mem hi')))
  rwa [← hstrs.get hi hi' v hget]

/-- The strings of a query that fits. -/
theorem decodeQuery_nbdFirewallAdd (rule : FirewallRule)
    (hfits : abi.sizeofQuery + packedSize (nbdFirewallAdd rule).toList ≤ 511) :
    decodeQuery abi (buildQuery abi stack (nbdFirewallAdd rule)).bytes
      = some ((CString.ofString "firewall").bytes :: (CString.ofString "add").bytes ::
          (untilNull (rule.toList.map (Option.map CString.ofString))).map CString.bytes) :=
  recovers_buildQuery hfits

/-- **A rule is carried whole** exactly if it is whole and fits. -/
theorem carriesRule_iff :
    CarriesRule form (buildQuery abi stack (nbdFirewallAdd form.rule)) ↔
      (∀ name ∈ ruleFields, form.value name ≠ none) ∧
        abi.sizeofQuery + packedSize (nbdFirewallAdd form.rule).toList + 2 ≤ 512 := by
  constructor
  · intro h
    have hstr := length_le_of_carriesRule h
    obtain ⟨hlen, htop, strs, hdecode, hstrs⟩ := h
    rw [toNat_len_buildQuery hstr] at hlen
    have hfits : abi.sizeofQuery + packedSize (nbdFirewallAdd form.rule).toList ≤ 511 := by omega
    rw [top_buildQuery hfits] at htop
    refine ⟨?_, htop⟩
    -- as many strings are read back as there are values
    rw [decodeQuery_nbdFirewallAdd form.rule hfits] at hdecode
    have hsent := (List.cons.inj (List.cons.inj (Option.some.inj hdecode)).2).2
    have hcount := hstrs.length_eq
    rw [← hsent, List.length_map CString.bytes] at hcount
    have hall := ne_none_of_length_untilNull (hcount.symm.trans (List.length_map _).symm)
    intro name hname hnone
    refine hall none ?_ rfl
    exact List.mem_map.mpr ⟨none, List.mem_map.mpr ⟨name, hname, hnone⟩, rfl⟩
  · rintro ⟨hall, hfits⟩
    have hfits' : abi.sizeofQuery + packedSize (nbdFirewallAdd form.rule).toList ≤ 511 := by omega
    refine ⟨?_, ?_, _, decodeQuery_nbdFirewallAdd form.rule hfits', ?_⟩
    · rw [toNat_len_of_fits hfits']
      omega
    · rw [top_buildQuery hfits']
      omega
    · exact forall₂_untilNull (List.forall_mem_map.mpr hall)

end

/-- **The rules that are sent whole**: those of which all eight values are there and fit into the
query, and those that are not sent at all, since no value is there. -/
theorem sentWhole_iff (abi : Abi) (form : Form) :
    SentWhole abi form ↔
      form.value "new.add" = none ∨ (∀ name ∈ ruleFields, form.value name = none) ∨
        (∀ name ∈ ruleFields, form.value name ≠ none) ∧
          abi.sizeofQuery + packedSize (nbdFirewallAdd form.rule).toList + 2 ≤ 512 := by
  constructor
  · intro h
    by_cases hadd : form.value "new.add" = none
    · exact .inl hadd
    by_cases hfield : ∃ name ∈ ruleFields, form.value name ≠ none
    · have hmem := firewallAdd_mem_trace hadd hfield
      have hcarries := h _ (ran_trace obligingDaemon _) _ _ hmem fun _ => 0
      exact .inr (.inr (carriesRule_iff.mp hcarries))
    · push Not at hfield
      exact .inr (.inl hfield)
  · intro h trace hran rule ret hmem stack
    obtain ⟨rfl, hadd, name, hname, hvalue⟩ := allowed_of_ran hran hmem
    rcases h with h | h | h
    · exact absurd h hadd
    · exact absurd (h name hname) hvalue
    · exact carriesRule_iff.mpr h

/-- A rule without its protocol: the query ends behind the name. -/
theorem rule_without_proto :
    let form : Form := ⟨fun name => if name ∈ "new.add" :: ruleFields.erase "new.proto" then
      some "any" else none, fun _ _ => true⟩
    .asked (.firewallAdd form.rule) (0 : Int) ∈ (networkFirewallForm form).trace obligingDaemon ∧
      decodeQuery .mips (buildQuery .mips (fun _ => 0) (nbdFirewallAdd form.rule)).bytes
        = some (["firewall", "add", "any"].map fun s => (CString.ofString s).bytes) ∧
      ¬ SentWhole .mips form := by
  intro form
  have hmem : .asked (.firewallAdd form.rule) (0 : Int)
      ∈ (networkFirewallForm form).trace obligingDaemon :=
    firewallAdd_mem_trace (by decide) ⟨"new.rulename", by decide, by decide⟩
  refine ⟨hmem, decodeQuery_nbdFirewallAdd form.rule (by decide), fun h => ?_⟩
  have hcarries := h _ (ran_trace obligingDaemon _) _ _ hmem fun _ => 0
  exact (carriesRule_iff.mp hcarries).1 "new.proto" (by decide) (by decide)

end Neufbox.Www
