import Mathlib.Data.List.Basic
import Mathlib.Tactic.Common

/-!
# Runs of a deterministic machine

A machine is a step function `step : σ → ι → σ × List ε`: in a state, an operation gives the next
state and the events it emits.  `run step s ops` is the state after the operations `ops` together
with the whole history of events, oldest first.

* `run_append`: a run is cut at any point;
* `mem_run_iff`: every event comes from an operation of the run;
* `run_inv`: an invariant of state and history that every step keeps holds after every run;
* `run_inv_of_meets`: the same when the steps of the run all meet a condition on the state before
  the step (`Meets`);
* `meets_beside`: a second state may be carried along (`beside`);
* `forall_prefix_iff_meets_of_meets`, `forall_mem_run_iff_meets`: a property holds all along a run,
  or of all its events, exactly if its steps meet a condition;
* `run_sim`: two machines that simulate each other step by step have the same histories;
* `Justified J history`: every event of a history is justified by the events before it.
-/

namespace Neufbox.Machine

variable {σ ι ε : Type*} (step : σ → ι → σ × List ε)

/-- The state after `ops`, and the events emitted on the way. -/
def run (s : σ) : List ι → σ × List ε
  | [] => (s, [])
  | op :: ops => ((run (step s op).1 ops).1, (step s op).2 ++ (run (step s op).1 ops).2)

@[simp] theorem run_nil (s : σ) : run step s [] = (s, []) := rfl

theorem run_cons (s : σ) (op : ι) (ops : List ι) :
    run step s (op :: ops)
      = ((run step (step s op).1 ops).1, (step s op).2 ++ (run step (step s op).1 ops).2) := rfl

/-- A run is the run of a prefix followed by the run of the rest from where the prefix ended. -/
theorem run_append (s : σ) (xs ys : List ι) :
    run step s (xs ++ ys)
      = ((run step (run step s xs).1 ys).1,
        (run step s xs).2 ++ (run step (run step s xs).1 ys).2) := by
  induction xs generalizing s with
  | nil => simp
  | cons x xs ih => simp only [List.cons_append, run_cons, ih, List.append_assoc]

/-- Every event of a run was emitted by one of its operations. -/
theorem mem_run_iff {s : σ} {ops : List ι} {e : ε} :
    e ∈ (run step s ops).2 ↔
      ∃ before op after, ops = before ++ op :: after ∧ e ∈ (step (run step s before).1 op).2 := by
  constructor
  · intro he
    induction ops generalizing s with
    | nil => exact nomatch he
    | cons op ops ih =>
      rw [run_cons] at he
      rcases List.mem_append.mp he with he | he
      · exact ⟨[], op, ops, rfl, he⟩
      · obtain ⟨before, op', after, rfl, hop⟩ := ih he
        exact ⟨op :: before, op', after, rfl, hop⟩
  · rintro ⟨before, op, after, rfl, he⟩
    rw [run_append, run_cons]
    exact List.mem_append_right _ (List.mem_append_left _ he)

/-- Every operation of the run meets `C` in the state it is executed in. -/
def Meets (C : σ → ι → Prop) (s : σ) : List ι → Prop
  | [] => True
  | op :: ops => C s op ∧ Meets C (step s op).1 ops

instance Meets.decidable {C : σ → ι → Prop} [∀ s op, Decidable (C s op)] :
    ∀ (s : σ) (ops : List ι), Decidable (Meets step C s ops)
  | _, [] => isTrue trivial
  | s, op :: ops =>
    @instDecidableAnd (C s op) (Meets step C (step s op).1 ops) inferInstance
      (Meets.decidable (step s op).1 ops)

theorem Meets.imp {C C' : σ → ι → Prop} (himp : ∀ s op, C s op → C' s op) {ops : List ι} :
    ∀ {s}, Meets step C s ops → Meets step C' s ops := by
  induction ops with
  | nil => exact fun _ => trivial
  | cons op ops ih => exact fun h => ⟨himp _ _ h.1, ih h.2⟩

/-- A condition that every operation meets in any state is added. -/
theorem Meets.and_forall {C : σ → ι → Prop} {D : ι → Prop} {ops : List ι} :
    ∀ {s}, Meets step C s ops → (∀ op ∈ ops, D op) →
      Meets step (fun s op => C s op ∧ D op) s ops := by
  induction ops with
  | nil => exact fun _ _ => trivial
  | cons op ops ih =>
    exact fun h hD => ⟨⟨h.1, hD op (List.mem_cons_self ..)⟩,
      ih h.2 fun op' hop' => hD op' (List.mem_cons_of_mem _ hop')⟩

/-- The condition of a run, operation by operation. -/
theorem meets_iff {C : σ → ι → Prop} {s : σ} {ops : List ι} :
    Meets step C s ops ↔
      ∀ before op after, ops = before ++ op :: after → C (run step s before).1 op := by
  induction ops generalizing s with
  | nil => exact iff_of_true trivial fun before op after h => absurd h (by simp)
  | cons op ops ih =>
    constructor
    · rintro ⟨hop, hops⟩ (- | ⟨op', before⟩) op'' after heq
      · obtain ⟨rfl, -⟩ := List.cons.inj heq
        exact hop
      · obtain ⟨rfl, rfl⟩ := List.cons.inj heq
        exact ih.mp hops before op'' after rfl
    · intro h
      refine ⟨h [] op ops rfl, ih.mpr ?_⟩
      rintro before op' after rfl
      exact h (op :: before) op' after rfl

/-- A run whose steps all meet the condition, cut at any point. -/
theorem meets_append {C : σ → ι → Prop} {s : σ} {xs ys : List ι} :
    Meets step C s (xs ++ ys) ↔ Meets step C s xs ∧ Meets step C (run step s xs).1 ys := by
  induction xs generalizing s with
  | nil => exact (iff_of_eq (true_and _)).symm
  | cons x xs ih => exact (and_congr_right fun _ => ih).trans and_assoc.symm

/-- Two conditions that agree where an invariant holds, and each keep it, are met by the same
runs. -/
theorem meets_congr {C C' D : σ → ι → Prop} {I : σ → Prop}
    (hiff : ∀ s op, I s → D s op → (C s op ↔ C' s op))
    (hkeep : ∀ s op, I s → D s op → C' s op → I (step s op).1) {ops : List ι} :
    ∀ {s}, I s → Meets step D s ops → (Meets step C s ops ↔ Meets step C' s ops) := by
  induction ops with
  | nil => exact fun _ _ => Iff.rfl
  | cons op ops ih =>
    intro s hI hD
    refine ((hiff s op hI hD.1).and Iff.rfl).trans (and_congr_right fun hC' => ?_)
    exact ih (hkeep s op hI hD.1 hC') hD.2

/-- A machine, and beside it what `next` makes of the operations. -/
def beside {γ : Type*} (next : γ → ι → γ) (s : σ × γ) (op : ι) : (σ × γ) × List ε :=
  (((step s.1 op).1, next s.2 op), (step s.1 op).2)

/-- What goes on beside a machine does not change the conditions it meets. -/
theorem meets_beside {γ : Type*} (next : γ → ι → γ) {C : σ → ι → Prop} {ops : List ι} :
    ∀ {s : σ} {g : γ}, Meets (beside step next) (fun s op => C s.1 op) (s, g) ops ↔
      Meets step C s ops := by
  induction ops with
  | nil => exact Iff.rfl
  | cons op ops ih => exact and_congr_right fun _ => ih

/-- **Conditional invariant rule**: what holds at the start and is kept by every step that meets
`C` holds after every run whose steps all meet `C`. -/
theorem run_inv_of_meets {C : σ → ι → Prop} {P : σ → List ε → Prop}
    (hstep : ∀ s h op, C s op → P s h → P (step s op).1 (h ++ (step s op).2)) :
    ∀ (ops : List ι) (s : σ) (h : List ε), P s h → Meets step C s ops →
      P (run step s ops).1 (h ++ (run step s ops).2) := by
  intro ops
  induction ops with
  | nil =>
    intro s h hinv _
    simpa using hinv
  | cons op ops ih =>
    rintro s h hinv ⟨hop, hops⟩
    rw [run_cons, ← List.append_assoc]
    exact ih _ _ (hstep s h op hop hinv) hops

/-- **A condition that a property needs**: `next` follows the operations beside the run, whose steps
all meet `D`.  When, in the states that `I` holds of, the property holds after a step exactly if the
step meets `C`, it holds all along a run exactly if all steps meet `C`. -/
theorem forall_prefix_iff_meets_of_meets {γ : Type*} (next : γ → ι → γ) {C D : σ → ι → Prop}
    {I P : σ → γ → Prop}
    (hiff : ∀ s g op, D s op → I s g → (P (step s op).1 (next g op) ↔ C s op))
    (hkeep : ∀ s g op, D s op → I s g → C s op → I (step s op).1 (next g op)) :
    ∀ (ops : List ι) (s : σ) (g : γ), Meets step D s ops → I s g → P s g →
      ((∀ before, before <+: ops → P (run step s before).1 (before.foldl next g)) ↔
        Meets step C s ops) := by
  intro ops
  induction ops with
  | nil =>
    intro s g _ _ hP
    refine iff_of_true (fun before hbefore => ?_) trivial
    obtain rfl := List.prefix_nil.mp hbefore
    exact hP
  | cons op ops ih =>
    rintro s g ⟨hDop, hDops⟩ hI hP
    have hiffop := hiff s g op hDop hI
    constructor
    · intro h
      have hop : C s op := hiffop.mp (h [op] (by simp))
      refine ⟨hop, (ih _ _ hDops (hkeep s g op hDop hI hop) (hiffop.mpr hop)).mp ?_⟩
      exact fun before hbefore => h (op :: before) (by simpa using hbefore)
    · rintro ⟨hop, hops⟩ (- | ⟨op', before⟩) hbefore
      · exact hP
      · obtain ⟨rfl, hrest⟩ := List.cons_prefix_cons.mp hbefore
        exact (ih _ _ hDops (hkeep s g _ hDop hI hop) (hiffop.mpr hop)).mpr hops before hrest

theorem meets_of_forall {C : σ → ι → Prop} {ops : List ι} (h : ∀ op ∈ ops, ∀ s, C s op) :
    ∀ s, Meets step C s ops := by
  induction ops with
  | nil => intro _; trivial
  | cons op ops ih =>
    intro s
    exact ⟨h op (List.mem_cons_self ..) s, ih (fun o ho => h o (List.mem_cons_of_mem _ ho)) _⟩

/-- **A condition that the events need**: when, in the states that `I` holds of, the events of a
step have a property exactly if the step meets `C`, those of a run have it exactly if all steps meet
`C`. -/
theorem forall_mem_run_iff_meets {C : σ → ι → Prop} {I : σ → Prop} {Q : ε → Prop}
    (hiff : ∀ s op, I s → ((∀ e ∈ (step s op).2, Q e) ↔ C s op))
    (hkeep : ∀ s op, I s → I (step s op).1) :
    ∀ (ops : List ι) (s : σ), I s → ((∀ e ∈ (run step s ops).2, Q e) ↔ Meets step C s ops) := by
  intro ops
  induction ops with
  | nil => exact fun s _ => iff_of_true (fun e he => nomatch he) trivial
  | cons op ops ih =>
    intro s hI
    rw [run_cons, List.forall_mem_append]
    exact (hiff s op hI).and (ih _ (hkeep s op hI))

/-- **Invariant rule**: what holds at the start and is kept by every step holds after every
run. -/
theorem run_inv {P : σ → List ε → Prop} {s : σ} (h0 : P s [])
    (hstep : ∀ s h op, P s h → P (step s op).1 (h ++ (step s op).2)) (ops : List ι) :
    P (run step s ops).1 (run step s ops).2 := by
  have h := run_inv_of_meets step (C := fun _ _ => True) (fun s h op _ => hstep s h op) ops s [] h0
    (meets_of_forall step (fun _ _ _ => trivial) s)
  simpa using h

/-- **Conditional simulation rule**: when every step that meets `C` keeps two machines related and
they emit the same, runs of the same operations do, if the steps of the first all meet `C`. -/
theorem run_sim_of_meets {τ : Type*} (step' : τ → ι → τ × List ε) {C : σ → ι → Prop}
    {R : σ → τ → Prop}
    (hstep : ∀ s t op, C s op → R s t →
      R (step s op).1 (step' t op).1 ∧ (step s op).2 = (step' t op).2)
    {s : σ} {t : τ} (h : R s t) {ops : List ι} (hmeets : Meets step C s ops) :
    R (run step s ops).1 (run step' t ops).1 ∧ (run step s ops).2 = (run step' t ops).2 := by
  induction ops generalizing s t with
  | nil => exact ⟨h, rfl⟩
  | cons op ops ih =>
    obtain ⟨hnext, hevents⟩ := hstep s t op hmeets.1 h
    obtain ⟨hlast, hrest⟩ := ih hnext hmeets.2
    exact ⟨hlast, by rw [run_cons, run_cons, hevents, hrest]⟩

/-- **Simulation rule**: when every step keeps two machines related and they emit the same, runs of
the same operations do. -/
theorem run_sim {τ : Type*} (step' : τ → ι → τ × List ε) {R : σ → τ → Prop}
    (hstep : ∀ s t op, R s t → R (step s op).1 (step' t op).1 ∧ (step s op).2 = (step' t op).2)
    {s : σ} {t : τ} (h : R s t) (ops : List ι) :
    R (run step s ops).1 (run step' t ops).1 ∧ (run step s ops).2 = (run step' t ops).2 :=
  run_sim_of_meets step step' (C := fun _ _ => True) (fun s t op _ => hstep s t op) h
    (meets_of_forall step (fun _ _ _ => trivial) s)

/-! ### Justified histories -/

/-- Every event of the history is justified by those before it. -/
def Justified (J : List ε → ε → Prop) (history : List ε) : Prop :=
  ∀ before e after, history = before ++ e :: after → J before e

variable {J : List ε → ε → Prop}

theorem justified_nil : Justified J [] := by
  intro before e after h
  exact absurd h (by simp)

theorem Justified.concat {history : List ε} (h : Justified J history) {e : ε} (he : J history e) :
    Justified J (history ++ [e]) := by
  intro before e' after heq
  rcases List.eq_nil_or_concat after with rfl | ⟨after', e'', rfl⟩
  · obtain ⟨rfl, hsingle⟩ := List.append_inj' heq rfl
    rwa [← List.singleton_inj.mp hsingle]
  · rw [List.concat_eq_append, ← List.cons_append, ← List.append_assoc] at heq
    exact h before e' after' (List.append_inj' heq rfl).1

end Neufbox.Machine
