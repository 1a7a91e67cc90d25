import Neufbox.Libnbd.Equiv.Voip

/-!
# Missed calls

A missed call is notified with `misscalls` when `nbd_voip_register_call` finds an incoming call in
`my_call` whose `length` is -1.  Outside the `NB5` build `my_call` is filled only if the call is
registered, and in both builds a `length` of -1 is also what a clock that was set back by a second
gives.  Where neither happens (`FitsMissed`), a call is notified exactly if it was incoming and not
started (`Outcome.misscalls_iff`); `missed_of_fits` says so for whole runs, and that runs of the
same calls notify the same, whatever their clocks and stacks.
-/

namespace Neufbox.Libnbd

open CharBuffers Machine

/-! ### Which calls are notified -/

theorem misscalls_mem_missed {log : CallLog} :
    .misscalls ∈ missed log ↔ log.direction = phoneCallIncoming ∧ log.length = -1 := by
  unfold missed
  split_ifs with h <;> simp [h]

theorem misscalls_notMem_nbdVoipUpgrade (log : CallLog) : .misscalls ∉ nbdVoipUpgrade log := by
  unfold nbdVoipUpgrade
  split_ifs <;> simp

theorem misscalls_mem_registration {log : CallLog} {moment : Moment} :
    .misscalls ∈ registration log moment ↔
      (moment.callhistory = true → moment.accepted = true) ∧
        log.direction = phoneCallIncoming ∧ log.length = -1 := by
  have hadd : .misscalls ∉ (historyCallAdd log moment).toList := by
    unfold historyCallAdd
    dsimp only
    cases cstr (if log.type = phoneCallComplex then blank numberMax else log.number) <;> simp
  unfold registration
  split_ifs <;> simp [misscalls_mem_missed, *]

/-- The record is registered as it is, with the text. -/
def EndsWith (log : CallLog) (call : VoipCall) (text : String) : Prop :=
  call = .durationCall phoneStopCall ∧ log.length = -1 ∧ text = "ring_stop" ∨
    call = .registerCall text

theorem EndsWith.unique {log : CallLog} {call : VoipCall} {text text' : String}
    (h : EndsWith log call text) (h' : EndsWith log call text') : text = text' := by
  rcases h with ⟨rfl, -, rfl⟩ | rfl <;> rcases h' with ⟨h, -, rfl⟩ | h <;> cases h <;> rfl

/-- What the notification depends on: the call ends with an incoming call that is not started, and
it is registered and the daemon accepts that, or it is dropped by the `NB5` build. -/
def Misses (build : Build) (log : CallLog) (call : VoipCall) (moment : Moment) : Prop :=
  log.direction = phoneCallIncoming ∧ log.length = -1 ∧ ∃ text, EndsWith log call text ∧
    if registers build log text then moment.callhistory = true → moment.accepted = true
    else build = .nb5

theorem misses_iff {build : Build} {log : CallLog} {call : VoipCall} {moment : Moment}
    {text : String} (h : EndsWith log call text) :
    Misses build log call moment ↔ (log.direction = phoneCallIncoming ∧ log.length = -1) ∧
      if registers build log text then moment.callhistory = true → moment.accepted = true
      else build = .nb5 := by
  constructor
  · rintro ⟨hdirection, hlength, text', h', hif⟩
    obtain rfl := h.unique h'
    exact ⟨⟨hdirection, hlength⟩, hif⟩
  · rintro ⟨⟨hdirection, hlength⟩, hif⟩
    exact ⟨hdirection, hlength, text, h, hif⟩

/-- The condition for the notification: the number stays inside its buffer, the clock is not set
back before the start of the call, and outside the `NB5` build a call that is ended without being
registered does not find a missed call on the stack. -/
def FitsMissed (build : Build) : Option CallLog → VoipCall × Moment → Prop
  | none, _ => False
  | some log, (call, moment) => NumberFits log call ∧ Timely log call moment ∧
      (build = .other → ∀ ended ∈ ending log moment call,
        registers .other ended.1 ended.2 = true ∨ missed moment.stack = [])

instance (build : Build) : ∀ (state : Option CallLog) (op : VoipCall × Moment),
    Decidable (FitsMissed build state op)
  | none, _ => inferInstanceAs (Decidable False)
  | some log, (call, moment) =>
    inferInstanceAs (Decidable (NumberFits log call ∧ Timely log call moment ∧
      (build = .other → ∀ ended ∈ ending log moment call,
        registers .other ended.1 ended.2 = true ∨ missed moment.stack = [])))

/-- A call that does not end the phone call does not notify it. -/
theorem not_misses_of_not_ending {build : Build} {log : CallLog} {moment : Moment}
    {call : VoipCall} (hend : ending log moment call = none) : ¬Misses build log call moment := by
  rintro ⟨-, hlength, text, ⟨rfl, -, -⟩ | rfl, -⟩
  · exact absurd hlength (ending_durationCall_eq_none.mp hend rfl).2
  · exact absurd hend (by simp [ending])

/-- The call that is ended is a running one, which is registered, or the record as it is. -/
theorem ended_cases (build : Build) {log myCall : CallLog} {moment : Moment} {call : VoipCall}
    {text : String} (hend : ending log moment call = some (myCall, text))
    (htimely : Timely log call moment) :
    (call = .durationCall phoneStopCall ∧ log.length = 0 ∧ myCall.length ≠ -1 ∧
        registers build myCall text = true) ∨
      (myCall = log ∧ EndsWith log call text) := by
  refine (ending_cases hend).imp ?_ id
  rintro ⟨rfl, hlength, rfl, rfl⟩
  have hle := htimely rfl hlength
  refine ⟨rfl, hlength, ?_, registers_finished build hle⟩
  have hnonneg : 0 ≤ (log.finished moment).length := Int.sub_nonneg_of_le hle
  omega

theorem ended_of_not_registers {build : Build} {log myCall : CallLog} {moment : Moment}
    {call : VoipCall} {text : String} (hend : ending log moment call = some (myCall, text))
    (htimely : Timely log call moment) (hreg : registers build myCall text = false) :
    myCall = log ∧ EndsWith log call text := by
  refine (ended_cases build hend htimely).resolve_left ?_
  rintro ⟨-, -, -, htrue⟩
  exact absurd (hreg.symm.trans htrue) Bool.false_ne_true

/-- **A call is notified exactly if it was incoming and not started.** -/
theorem Outcome.misscalls_iff {build : Build} {log log' : CallLog} {moment : Moment}
    {call : VoipCall} {requests : List VoipRequest}
    (h : Outcome build log moment call log' requests)
    (hfits : FitsMissed build (some log) (call, moment)) :
    .misscalls ∈ requests ↔ Misses build log call moment := by
  obtain ⟨-, htimely, hstack⟩ := hfits
  cases h with
  | numbered hcall =>
    obtain ⟨_, _, rfl⟩ := hcall
    exact iff_of_false List.not_mem_nil (not_misses_of_not_ending rfl)
  | changed hend =>
    exact iff_of_false (misscalls_notMem_nbdVoipUpgrade _) (not_misses_of_not_ending hend)
  | @registered _ _ tail hend hreg htail =>
    have htail : .misscalls ∉ tail := by
      rcases htail with rfl | rfl
      exacts [List.not_mem_nil, misscalls_notMem_nbdVoipUpgrade _]
    simp only [List.mem_append, misscalls_notMem_nbdVoipUpgrade, false_or, htail, or_false,
      misscalls_mem_registration]
    rcases ended_cases build hend htimely with ⟨-, hlength, hne, -⟩ | ⟨rfl, hcall⟩
    · refine iff_of_false (fun h => hne h.2.2) fun h => ?_
      rw [h.2.1] at hlength
      exact absurd hlength (by decide)
    · rw [misses_iff hcall, if_pos hreg, and_comm]
  | @dropped _ _ tail hend hreg htail =>
    have htail : .misscalls ∉ tail := by
      rcases htail with ⟨-, rfl⟩ | rfl
      exacts [List.not_mem_nil, misscalls_notMem_nbdVoipUpgrade _]
    obtain ⟨rfl, hcall⟩ := ended_of_not_registers hend htimely hreg
    rw [List.mem_append, or_iff_left htail, misses_iff hcall, if_neg (by simp [hreg])]
    cases build with
    | nb5 => exact misscalls_mem_missed.trans (and_iff_left rfl).symm
    | other =>
      have hnone := (hstack rfl _ hend).resolve_left (by simp [hreg])
      exact iff_of_false (by simp [Build.copied, hnone]) fun h => absurd h.2 (by decide)

/-! ### Runs -/

/-- The record, and whether the phone call it is about has been started. -/
structure Watch where
  record : Option CallLog
  started : Bool
  deriving DecidableEq

/-- Whether the call has been started, after one more call: it is by a start that finds it not
started, and not any more when the record is reset or begun anew. -/
def startedNext (build : Build) (log : CallLog) (started : Bool) (op : VoipCall × Moment) : Bool :=
  match ending log op.2 op.1 with
  | some (myCall, text) =>
    if build = .nb5 ∨ registers build myCall text = true then false else started
  | none =>
    match op.1 with
    | .ioCall _ => if log.length = 0 then started else false
    | .durationCall startStopCall =>
      if startStopCall = phoneStartCall ∧ log.length = -1 then true else started
    | .numberCall _ _ | .typeCall _ | .registerCall _ => started

/-- The step of a run that is watched; the event says whether a missed call was notified. -/
def watchStep (build : Build) (watch : Watch) (op : VoipCall × Moment) : Watch × List Bool :=
  let step := voipStep build watch.record op
  ({ record := step.1
     started := watch.record.elim watch.started fun log =>
       startedNext build log watch.started op },
    [decide (.misscalls ∈ step.2)])

def Watch.init : Watch := ⟨some resetCall, false⟩

/-- The invariant of a run: a call that is started runs. -/
def Watch.Sound (watch : Watch) (log : CallLog) : Prop :=
  watch.record = some log ∧ Terminated log ∧ log.length = if watch.started then 0 else -1

theorem Outcome.length_eq {build : Build} {log log' : CallLog} {moment : Moment}
    {call : VoipCall} {requests : List VoipRequest}
    (h : Outcome build log moment call log' requests) (htimely : Timely log call moment)
    {started : Bool} (hlength : log.length = if started then 0 else -1) :
    log'.length = if startedNext build log started (call, moment) then 0 else -1 := by
  cases h with
  | numbered hcall =>
    obtain ⟨_, _, rfl⟩ := hcall
    exact hlength
  | changed hend hlength' =>
    rw [hlength', startedNext, hend]
    cases call <;> cases started <;> simp_all [lengthAfter]
  | registered hend hreg => simp [startedNext, hend, hreg, resetCall]
  | dropped hend hreg =>
    obtain ⟨rfl, -⟩ := ended_of_not_registers hend htimely hreg
    cases build with
    | nb5 => simp [startedNext, hend, Build.kept, resetCall]
    | other => simpa [startedNext, hend, hreg, Build.kept] using hlength

/-- A step of a run that is watched. -/
theorem watchStep_sound {build : Build} {watch : Watch} {log : CallLog} {call : VoipCall}
    {moment : Moment} (h : watch.Sound log)
    (hfits : FitsMissed build (some log) (call, moment)) :
    ∃ log' requests, voipCall build log moment call = some (log', requests) ∧
      Outcome build log moment call log' requests ∧
      (watchStep build watch (call, moment)).1.Sound log' ∧
      (watchStep build watch (call, moment)).2 = [decide (.misscalls ∈ requests)] := by
  obtain ⟨hrecord, hterm, hlength⟩ := h
  obtain ⟨log', requests, heq, hout, hterm'⟩ := voipCall_outcome build moment hterm hfits.1
  refine ⟨log', requests, heq, hout, ?_⟩
  have hstep : voipStep build watch.record (call, moment) = (some log', requests) := by
    simp [voipStep, hrecord, heq]
  rw [watchStep, hstep, hrecord]
  exact ⟨⟨rfl, hterm', hout.length_eq hfits.2.1 hlength⟩, rfl⟩

/-! ### Two runs of the same calls -/

/-- What of the record does not come from the clock. -/
def CallLog.shape (log : CallLog) : UInt16 × UInt16 × Buffer numberMax × Int :=
  (log.type, log.direction, log.number, log.length)

/-- The daemon answers the same. -/
def Moment.SameAnswers (moment moment' : Moment) : Prop :=
  moment.callhistory = moment'.callhistory ∧ moment.accepted = moment'.accepted

section

variable {build : Build} {log₁ log₂ : CallLog} {moment₁ moment₂ : Moment} {call : VoipCall}

/-- Records of one shape differ in the fields that come from the clock. -/
theorem exists_of_shape_eq (h : log₁.shape = log₂.shape) :
    ∃ date start finish,
      log₂ = { log₁ with date := date, start := start, finish := finish } := by
  obtain ⟨_, _, _, _, _, _, _⟩ := log₁
  obtain ⟨_, _, _, _, date, start, finish⟩ := log₂
  simp only [CallLog.shape, Prod.mk.injEq] at h
  obtain ⟨rfl, rfl, rfl, rfl⟩ := h
  exact ⟨date, start, finish, rfl⟩

theorem misses_congr (h : log₁.shape = log₂.shape) (hanswers : moment₁.SameAnswers moment₂) :
    Misses build log₁ call moment₁ ↔ Misses build log₂ call moment₂ := by
  obtain ⟨date, start, finish, rfl⟩ := exists_of_shape_eq h
  unfold Misses
  rw [hanswers.1, hanswers.2]
  rfl

/-- The shape after a call that does not end the phone call. -/
theorem shape_voipCall (build : Build) (h : log₁.shape = log₂.shape)
    (hend : ending log₁ moment₁ call = none) (moment₂ : Moment) :
    (voipCall build log₁ moment₁ call).map (fun result => result.1.shape)
      = (voipCall build log₂ moment₂ call).map (fun result => result.1.shape) := by
  obtain ⟨date, start, finish, rfl⟩ := exists_of_shape_eq h
  cases call with
  | ioCall ioCall =>
    simp only [voipCall, nbdVoipIoCall, Option.map_some]
    split_ifs <;> rfl
  | numberCall numberCalled num =>
    have hedit : numberEdit { log₁ with date := date, start := start, finish := finish }
        numberCalled num = numberEdit log₁ numberCalled num := rfl
    simp only [voipCall, nbdVoipNumberCall_eq, hedit]
    cases numberEdit log₁ numberCalled num with
    | keep | fault => rfl
    | copy new =>
      dsimp only
      cases overwrite log₁.number 0 new <;> rfl
    | append new =>
      dsimp only [CallLog.appendDigit]
      cases cstr log₁.number with
      | none => rfl
      | some digits =>
        dsimp only
        cases overwrite log₁.number digits.length _ <;> rfl
  | typeCall typeCall =>
    simp only [voipCall, nbdVoipTypeCall, Option.map_some]
    split_ifs <;> rfl
  | durationCall startStopCall =>
    rw [ending_durationCall_eq_none] at hend
    have hrun : ¬(startStopCall = phoneStopCall ∧ log₁.length = 0) := fun h => (hend h.1).1 h.2
    have hring : ¬(startStopCall = phoneStopCall ∧ log₁.length = -1) := fun h => (hend h.1).2 h.2
    simp only [voipCall, nbdVoipDurationCall, if_neg hrun, if_neg hring]
    split_ifs <;> rfl
  | registerCall text => exact absurd hend (by simp [ending])

/-- The record is left as it is by a call that ends the phone call. -/
def Drops (build : Build) (log : CallLog) (call : VoipCall) : Prop :=
  build = .other ∧ ∃ text, EndsWith log call text ∧ registers build log text = false

theorem drops_congr (h : log₁.shape = log₂.shape) :
    Drops build log₁ call ↔ Drops build log₂ call := by
  obtain ⟨date, start, finish, rfl⟩ := exists_of_shape_eq h
  rfl

/-- The shape after a call that ends the phone call. -/
theorem Outcome.shape_of_ending {log log' : CallLog} {moment : Moment} {requests : List VoipRequest}
    (h : Outcome build log moment call log' requests) (htimely : Timely log call moment)
    (hend : ending log moment call ≠ none) :
    (Drops build log call → log'.shape = log.shape) ∧
      (¬Drops build log call → log'.shape = resetCall.shape) := by
  cases h with
  | numbered hcall =>
    obtain ⟨_, _, rfl⟩ := hcall
    exact absurd rfl hend
  | changed hnone => exact absurd hnone hend
  | registered hend hreg =>
    refine ⟨fun ⟨_, text, hcall', hfalse⟩ => ?_, fun _ => rfl⟩
    rcases ended_cases build hend htimely with ⟨rfl, hzero, -, -⟩ | ⟨rfl, hcall⟩
    · rcases hcall' with ⟨-, hlength, -⟩ | h
      · exact absurd (hzero.symm.trans hlength) (by decide)
      · exact absurd h (by simp)
    · obtain rfl := hcall.unique hcall'
      exact absurd (hfalse.symm.trans hreg) Bool.false_ne_true
  | dropped hend hreg =>
    obtain ⟨rfl, hcall⟩ := ended_of_not_registers hend htimely hreg
    cases build with
    | nb5 => exact ⟨fun h => absurd h.1 (by decide), fun _ => rfl⟩
    | other => exact ⟨fun _ => rfl, fun h => absurd ⟨rfl, _, hcall, hreg⟩ h⟩

theorem ending_eq_none_congr (h : log₁.shape = log₂.shape) (moment₁ moment₂ : Moment) :
    ending log₁ moment₁ call = none ↔ ending log₂ moment₂ call = none := by
  obtain ⟨date, start, finish, rfl⟩ := exists_of_shape_eq h
  cases call with
  | durationCall startStopCall => rw [ending_durationCall_eq_none, ending_durationCall_eq_none]
  | ioCall | numberCall | typeCall | registerCall => simp [ending]

/-- The same call on records of one shape leaves records of one shape. -/
theorem shape_eq_of_shape_eq (h : log₁.shape = log₂.shape) (htimely₁ : Timely log₁ call moment₁)
    (htimely₂ : Timely log₂ call moment₂) {log₁' log₂' : CallLog}
    {requests₁ requests₂ : List VoipRequest}
    (hcall₁ : voipCall build log₁ moment₁ call = some (log₁', requests₁))
    (hcall₂ : voipCall build log₂ moment₂ call = some (log₂', requests₂))
    (hout₁ : Outcome build log₁ moment₁ call log₁' requests₁)
    (hout₂ : Outcome build log₂ moment₂ call log₂' requests₂) : log₁'.shape = log₂'.shape := by
  by_cases hend₁ : ending log₁ moment₁ call = none
  · have hshape := shape_voipCall build h hend₁ moment₂
    rw [hcall₁, hcall₂] at hshape
    exact Option.some.inj hshape
  · have hend₂ := mt (ending_eq_none_congr h moment₁ moment₂).mpr hend₁
    obtain ⟨hkept₁, hreset₁⟩ := hout₁.shape_of_ending htimely₁ hend₁
    obtain ⟨hkept₂, hreset₂⟩ := hout₂.shape_of_ending htimely₂ hend₂
    by_cases hdrops : Drops build log₁ call
    · rw [hkept₁ hdrops, hkept₂ ((drops_congr h).mp hdrops), h]
    · rw [hreset₁ hdrops, hreset₂ (mt (drops_congr h).mpr hdrops)]

end

/-- The same call, with the same answers of the daemon. -/
def SameCall (op op' : VoipCall × Moment) : Prop := op.1 = op'.1 ∧ op.2.SameAnswers op'.2

/-- Two runs that have made the same calls. -/
def Watch.Alike (watch watch' : Watch) : Prop :=
  ∃ log log', watch.Sound log ∧ watch'.Sound log' ∧ log.shape = log'.shape

theorem Watch.Alike.step {build : Build} {watch watch' : Watch} (h : watch.Alike watch')
    {op op' : VoipCall × Moment} (hsame : SameCall op op')
    (hfits : FitsMissed build watch.record op) (hfits' : FitsMissed build watch'.record op') :
    (watchStep build watch op).1.Alike (watchStep build watch' op').1 ∧
      (watchStep build watch op).2 = (watchStep build watch' op').2 := by
  obtain ⟨call, moment⟩ := op
  obtain ⟨call', moment'⟩ := op'
  obtain ⟨rfl, hanswers⟩ : call = call' ∧ moment.SameAnswers moment' := hsame
  obtain ⟨log, log', hsound, hsound', hshape⟩ := h
  rw [hsound.1] at hfits
  rw [hsound'.1] at hfits'
  obtain ⟨next, _, hcall, hout, hnext, hevents⟩ := watchStep_sound hsound hfits
  obtain ⟨next', _, hcall', hout', hnext', hevents'⟩ := watchStep_sound hsound' hfits'
  have hafter := shape_eq_of_shape_eq hshape hfits.2.1 hfits'.2.1 hcall hcall' hout hout'
  refine ⟨⟨next, next', hnext, hnext', hafter⟩, ?_⟩
  rw [hevents, hevents', List.singleton_inj, decide_eq_decide, hout.misscalls_iff hfits,
    hout'.misscalls_iff hfits']
  exact misses_congr hshape hanswers

theorem Watch.Alike.run {build : Build} {ops ops' : List (VoipCall × Moment)}
    (hsame : List.Forall₂ SameCall ops ops') {watch watch' : Watch} (h : watch.Alike watch')
    (hmeets : Meets (watchStep build) (fun watch => FitsMissed build watch.record) watch ops)
    (hmeets' : Meets (watchStep build) (fun watch => FitsMissed build watch.record) watch' ops') :
    (run (watchStep build) watch ops).2 = (run (watchStep build) watch' ops').2 := by
  induction hsame generalizing watch watch' with
  | nil => rfl
  | cons hop _ ih =>
    obtain ⟨hnext, hevents⟩ := h.step hop hmeets.1 hmeets'.1
    rw [run_cons, run_cons, hevents, ih hnext hmeets.2 hmeets'.2]

/-- **Missed calls**: a missed call is notified only for an incoming call that was not started, and
runs of the same calls notify the same. -/
theorem missed_of_fits (build : Build) (ops : List (VoipCall × Moment))
    (hmeets : Meets (watchStep build) (fun watch => FitsMissed build watch.record) .init ops) :
    (∀ before op after, ops = before ++ op :: after →
      .misscalls ∈ (voipStep build (run (watchStep build) .init before).1.record op).2 →
      ∃ log, (run (watchStep build) .init before).1.record = some log ∧
        log.direction = phoneCallIncoming ∧
        (run (watchStep build) .init before).1.started = false) ∧
    ∀ ops', Meets (watchStep build) (fun watch => FitsMissed build watch.record) .init ops' →
      List.Forall₂ SameCall ops ops' →
      (run (watchStep build) .init ops).2 = (run (watchStep build) .init ops').2 := by
  have hinit : Watch.init.Sound resetCall := ⟨rfl, terminated_resetCall, rfl⟩
  refine ⟨?_, fun ops' hmeets' hsame =>
    Watch.Alike.run hsame ⟨_, _, hinit, hinit, rfl⟩ hmeets hmeets'⟩
  rintro before ⟨call, moment⟩ after rfl hmem
  obtain ⟨hbefore, hop, -⟩ := (meets_append (watchStep build)).mp hmeets
  obtain ⟨log, hsound⟩ : ∃ log, (run (watchStep build) .init before).1.Sound log :=
    run_inv_of_meets (watchStep build) (P := fun watch _ => ∃ log, watch.Sound log)
      (by
        rintro watch - ⟨call, moment⟩ hfits ⟨log, hsound⟩
        rw [hsound.1] at hfits
        obtain ⟨log', _, -, -, hnext, -⟩ := watchStep_sound hsound hfits
        exact ⟨log', hnext⟩)
      before _ [] ⟨resetCall, hinit⟩ hbefore
  rw [hsound.1] at hop hmem ⊢
  obtain ⟨_, _, heq, hout, -⟩ := voipStep_outcome build moment hsound.2.1 hop.1
  rw [heq] at hmem
  obtain ⟨hdirection, hlength, -⟩ := (hout.misscalls_iff hop).mp hmem
  refine ⟨log, rfl, hdirection, Bool.eq_false_iff.mpr fun hstarted => ?_⟩
  have hrunning := hsound.2.2
  rw [hstarted, hlength] at hrunning
  exact absurd hrunning (by decide)

/-- Two runs of an incoming call that is missed, with different clocks: both notify it. -/
theorem missed_of_fits_ring :
    (run (watchStep .other) .init
        [(.ioCall phoneCallIncoming, momentAt 100), (.durationCall phoneStopCall, momentAt 120)]).2
      = [false, true] ∧
    (run (watchStep .other) .init
        [(.ioCall phoneCallIncoming, momentAt 100), (.durationCall phoneStopCall, momentAt 120)]).2
      = (run (watchStep .other) .init
        [(.ioCall phoneCallIncoming, momentAt 9),
          (.durationCall phoneStopCall, momentAt 5)]).2 := by
  refine ⟨by decide, (missed_of_fits .other _ ?_).2 _ ?_ ?_⟩
  · decide
  · decide
  · exact .cons ⟨rfl, rfl, rfl⟩ (.cons ⟨rfl, rfl, rfl⟩ .nil)

/-- A moment whose stack holds a missed call. -/
def momentOnStack (now : Int) : Moment :=
  { momentAt now with stack := { resetCall with direction := phoneCallIncoming } }

/-- Outside the `NB5` build the end of an outgoing call is notified as a missed call if the stack
looks like one.  On the `NB5` a call that was started is, if the clock was set back by a second. -/
theorem notified_from_stack_and_clock :
    (run (watchStep .other) .init
        [(.ioCall phoneCallOutgoing, momentAt 100), (.durationCall phoneStopCall, momentAt 120)]).2
      = [false, false] ∧
    (run (watchStep .other) .init
        [(.ioCall phoneCallOutgoing, momentAt 100),
          (.durationCall phoneStopCall, momentOnStack 120)]).2
      = [false, true] ∧
    (run (watchStep .nb5) .init
        [(.ioCall phoneCallIncoming, momentAt 100), (.durationCall phoneStartCall, momentAt 100),
          (.durationCall phoneStopCall, momentAt 100)]).2
      = [false, false, false] ∧
    (run (watchStep .nb5) .init
        [(.ioCall phoneCallIncoming, momentAt 100), (.durationCall phoneStartCall, momentAt 100),
          (.durationCall phoneStopCall, momentAt 99)]).2
      = [false, false, true] := by
  decide

end Neufbox.Libnbd
