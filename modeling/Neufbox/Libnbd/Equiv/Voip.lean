import Neufbox.Lib.Run
import Neufbox.Libnbd.Voip

/-!
# Runs of the call functions

The record of the current call has one field, `length`, for two things: it is -1 before the call is
started, 0 while it runs, and the duration, which is a difference of two readings of the clock, when
it is registered.

* `voipCall_outcome`: what a call of a function can do to the record and which requests it sends
  (`Outcome`), provided that the number stays inside its buffer (`NumberFits`).
* `call_recorded_of_fits`: a call that is started and then stopped is sent to the history once, at
  the stop, if the clock was not set back before the start in between.
* `upgrade_follows_of_fits`: the permission to upgrade is the one of the record, unless the record
  is reset by a registration that does not register.
-/

namespace Neufbox.Libnbd

open CharBuffers Machine

/-! ### What happens to the number -/

/-- What `nbd_voip_number_call` does to the number. -/
inductive NumberEdit where
  | keep
  | copy (new : List Char)
  | append (new : List Char)
  /-- A NULL pointer is followed. -/
  | fault

/-- The characters for a digit. -/
def digitChars (num : Int) : List Char :=
  if num < 10 then (toString num).toList.take (numberMax - 1) else if num = 10 then ['*'] else ['#']

variable (log : CallLog)

def numberEdit (numberCalled : Option String) (num : Int) : NumberEdit :=
  if log.length ≠ -1 then .keep
  else if log.direction = phoneCallIncoming then
    if (log.type = phoneCallVoip ∨ log.type = phoneCall3g ∨ log.type = phoneCallPstn) ∧
        num = -1 then
      match numberCalled with
      | none => .fault
      | some number => .copy (dialPrefix number)
    else .keep
  else if log.direction = phoneCallOutgoing then
    match numberCalled with
    | none => .append (digitChars num)
    | some number => if num = -1 then .copy (dialPrefix number) else .keep
  else .keep

/-- The number after it. -/
def NumberEdit.apply (number : List Char) : NumberEdit → List Char
  | keep => number
  | copy new => new ++ number.drop new.length
  | append new => number ++ new
  | fault => number

/-- The number, with a NUL, stays inside its buffer. -/
def NumberEdit.Fits (number : List Char) : NumberEdit → Prop
  | keep => True
  | copy new => new.length < numberMax
  | append new => number.length + new.length < numberMax
  | fault => False

instance (number : List Char) (edit : NumberEdit) : Decidable (edit.Fits number) := by
  cases edit <;> unfold NumberEdit.Fits <;> infer_instance

theorem nul_notMem_dialPrefix (number : String) : nul ∉ dialPrefix number := by
  intro hmem
  have hdial : dialable nul = true := List.mem_takeWhile_imp hmem
  exact absurd hdial (by decide)

theorem nul_notMem_toString (num : Int) : nul ∉ (toString num).toList := by
  have hnat : ∀ n : ℕ, nul ∉ n.repr.toList := by
    intro n hmem
    rw [Nat.toList_repr] at hmem
    exact absurd (Nat.isDigit_of_mem_toDigits (by decide) (by decide) hmem) (by decide)
  rw [Int.toString_eq_repr, Int.repr_eq_if]
  split_ifs
  · exact hnat _
  · rw [String.toList_append, List.mem_append, not_or]
    exact ⟨by decide, hnat _⟩

theorem nul_notMem_digitChars (num : Int) : nul ∉ digitChars num := by
  unfold digitChars
  split_ifs
  · exact fun hmem => nul_notMem_toString num (List.mem_of_mem_take hmem)
  · decide
  · decide

theorem appendDigit_of_lt {log : CallLog} {s : List Char} (h : Holds log.number s) {num : Int}
    (hlt : s.length + (digitChars num).length < numberMax) :
    ∃ b, log.appendDigit num = some { log with number := b } ∧ Holds b (s ++ digitChars num) := by
  -- A number is written with the NUL that ends it, the other two characters are not.
  obtain ⟨k, hk, hle⟩ : ∃ k, (if num < 10 then (toString num).toList.take (numberMax - 1) ++ [nul]
      else if num = 10 then ['*'] else ['#']) = digitChars num ++ List.replicate k nul ∧ k ≤ 1 := by
    unfold digitChars
    split_ifs
    exacts [⟨1, rfl, le_rfl⟩, ⟨0, rfl, by decide⟩, ⟨0, rfl, by decide⟩]
  obtain ⟨b, hb, hholds⟩ := h.append (nul_notMem_digitChars num) (k := k) hlt (by omega)
  refine ⟨b, ?_, hholds⟩
  simp only [CallLog.appendDigit, h.cstr_eq, hk, hb, Option.map_some]

theorem nbdVoipNumberCall_eq (numberCalled : Option String) (num : Int) :
    nbdVoipNumberCall log numberCalled num = match numberEdit log numberCalled num with
      | .keep => some log
      | .copy new => (overwrite log.number 0 new).map fun number => { log with number := number }
      | .append _ => log.appendDigit num
      | .fault => none := by
  unfold nbdVoipNumberCall numberEdit
  by_cases hlength : log.length = -1
  · rw [if_pos hlength, if_neg (not_not_intro hlength)]
    by_cases hin : log.direction = phoneCallIncoming
    · have hout : log.direction ≠ phoneCallOutgoing := hin ▸ by decide
      by_cases hcase : (log.type = phoneCallVoip ∨ log.type = phoneCall3g ∨
          log.type = phoneCallPstn) ∧ num = -1
      · have htest : (log.direction = phoneCallIncoming ∧
            (log.type = phoneCallVoip ∨ log.type = phoneCall3g) ∧ num = -1) ∨
              (log.direction = phoneCallIncoming ∧ log.type = phoneCallPstn ∧ num = -1) := by tauto
        rw [if_pos htest, if_pos hin, if_pos hcase]
        cases numberCalled <;> rfl
      · have htest : ¬((log.direction = phoneCallIncoming ∧
            (log.type = phoneCallVoip ∨ log.type = phoneCall3g) ∧ num = -1) ∨
              (log.direction = phoneCallIncoming ∧ log.type = phoneCallPstn ∧ num = -1)) := by tauto
        rw [if_neg htest, if_pos hin, if_neg hcase]
        cases numberCalled <;> simp [hout]
    · rw [if_neg (by tauto), if_neg hin]
      by_cases hout : log.direction = phoneCallOutgoing
      · rw [if_pos hout]
        cases numberCalled with
        | none => simp [hout]
        | some number => by_cases hnum : num = -1 <;> simp [hout, hnum, CallLog.copyNumber]
      · rw [if_neg hout]
        cases numberCalled <;> simp [hout]
  · rw [if_neg hlength, if_pos hlength]

theorem numberEdit_eq_append {log : CallLog} {numberCalled : Option String} {num : Int}
    {new : List Char} (h : numberEdit log numberCalled num = .append new) :
    new = digitChars num := by
  unfold numberEdit at h
  split_ifs at h <;> cases numberCalled <;> simp_all

theorem numberEdit_eq_copy {log : CallLog} {numberCalled : Option String} {num : Int}
    {new : List Char} (h : numberEdit log numberCalled num = .copy new) :
    ∃ number, new = dialPrefix number := by
  unfold numberEdit at h
  split_ifs at h <;> cases numberCalled <;> simp_all <;> exact ⟨_, h.symm⟩

/-- A call that fits changes the number only. -/
theorem nbdVoipNumberCall_of_fits {log : CallLog} {s : List Char} (h : Holds log.number s)
    {numberCalled : Option String} {num : Int}
    (hfits : (numberEdit log numberCalled num).Fits s) :
    ∃ b, nbdVoipNumberCall log numberCalled num = some { log with number := b } ∧
      Holds b ((numberEdit log numberCalled num).apply s) := by
  rw [nbdVoipNumberCall_eq]
  cases hedit : numberEdit log numberCalled num with
  | keep => exact ⟨log.number, rfl, h⟩
  | copy new =>
    rw [hedit] at hfits
    obtain ⟨number, rfl⟩ := numberEdit_eq_copy hedit
    obtain ⟨b, hb, hholds⟩ := h.store (nul_notMem_dialPrefix number) hfits
    exact ⟨b, by simp only [hb, Option.map_some], hholds⟩
  | append new =>
    obtain rfl := numberEdit_eq_append hedit
    rw [hedit] at hfits
    exact appendDigit_of_lt h hfits
  | fault =>
    rw [hedit] at hfits
    exact hfits.elim

/-! ### What a call does -/

/-- The number of the record is a string. -/
def Terminated : Prop := ∃ s, Holds log.number s

theorem terminated_resetCall : Terminated resetCall := ⟨[], holds_blank (by decide)⟩

/-- The number stays inside its buffer. -/
def NumberFits : VoipCall → Prop
  | .numberCall numberCalled num =>
    ∃ s ∈ cstr log.number, (numberEdit log numberCalled num).Fits s
  | .ioCall _ | .typeCall _ | .durationCall _ | .registerCall _ => True

instance (log : CallLog) (call : VoipCall) : Decidable (NumberFits log call) := by
  cases call <;> unfold NumberFits <;> infer_instance

/-- The record at the end of a running call. -/
def CallLog.finished (moment : Moment) : CallLog :=
  { log with finish := moment.now, length := moment.now - log.start }

/-- The record and the text that `nbd_voip_register_call` is called with. -/
def ending (moment : Moment) : VoipCall → Option (CallLog × String)
  | .durationCall startStopCall =>
    if startStopCall = phoneStopCall ∧ log.length = 0 then
      some (log.finished moment, "stop_call")
    else if startStopCall = phoneStopCall ∧ log.length = -1 then some (log, "ring_stop")
    else none
  | .registerCall call => some (log, call)
  | .ioCall _ | .numberCall _ _ | .typeCall _ => none

/-- The field `length` after a call that does not end the phone call. -/
def lengthAfter : VoipCall → Int
  | .ioCall _ => if log.length = 0 then 0 else -1
  | .durationCall startStopCall =>
    if startStopCall = phoneStartCall ∧ log.length = -1 then 0 else log.length
  | .numberCall _ _ | .typeCall _ | .registerCall _ => log.length

/-- The requests of a registration, after the permission to upgrade. -/
def registration (myCall : CallLog) (moment : Moment) : List VoipRequest :=
  if moment.callhistory then
    (historyCallAdd myCall moment).toList ++ if moment.accepted then missed myCall else []
  else missed myCall

/-- The record after a call that is not registered. -/
def Build.kept (build : Build) (myCall : CallLog) : CallLog :=
  match build with
  | .nb5 => resetCall
  | .other => myCall

/-- What is taken for the record of a call that is not registered. -/
def Build.copied (build : Build) (myCall : CallLog) (moment : Moment) : CallLog :=
  match build with
  | .nb5 => myCall
  | .other => moment.stack

/-- What a call of a function can do: the record after it, and its requests. -/
inductive Outcome (build : Build) (log : CallLog) (moment : Moment) (call : VoipCall) :
    CallLog → List VoipRequest → Prop
  | numbered {b : Buffer numberMax}
      (hcall : ∃ numberCalled num, call = .numberCall numberCalled num) :
    Outcome build log moment call { log with number := b } []
  | changed {log' : CallLog} (hend : ending log moment call = none)
      (hlength : log'.length = lengthAfter log call) :
    Outcome build log moment call log' (nbdVoipUpgrade log')
  | registered {myCall : CallLog} {text : String} {tail : List VoipRequest}
      (hend : ending log moment call = some (myCall, text))
      (hreg : registers build myCall text = true)
      (htail : tail = [] ∨ tail = nbdVoipUpgrade resetCall) :
    Outcome build log moment call resetCall
      (nbdVoipUpgrade resetCall ++ (registration myCall moment ++ tail))
  | dropped {myCall : CallLog} {text : String} {tail : List VoipRequest}
      (hend : ending log moment call = some (myCall, text))
      (hreg : registers build myCall text = false)
      (htail : call = .registerCall text ∧ tail = [] ∨ tail = nbdVoipUpgrade (build.kept myCall)) :
    Outcome build log moment call (build.kept myCall)
      (missed (build.copied myCall moment) ++ tail)

section

variable {build : Build} {log : CallLog} {moment : Moment} {text : String}

theorem exists_historyCallAdd (h : Terminated log) (moment : Moment) :
    ∃ type direction number date,
      historyCallAdd log moment = some (.historyCallAdd type direction number log.length date) := by
  obtain ⟨s, hs⟩ := h
  obtain ⟨number, hnumber⟩ : ∃ number,
      cstr (if log.type = phoneCallComplex then blank numberMax else log.number) = some number := by
    split_ifs
    · exact ⟨[], (holds_blank (by decide)).cstr_eq⟩
    · exact ⟨s, hs.cstr_eq⟩
  exact ⟨_, _, number, _, congrArg (Option.map _) hnumber⟩

theorem nbdVoipRegisterCall_of_registers (hreg : registers build log text = true)
    (h : Terminated log) (moment : Moment) :
    ∃ ret, nbdVoipRegisterCall build log text moment
      = some (resetCall, ret, nbdVoipUpgrade resetCall ++ registration log moment) := by
  obtain ⟨_, _, _, _, hadd⟩ := exists_historyCallAdd h moment
  unfold nbdVoipRegisterCall registration
  rw [if_pos hreg]
  by_cases hhist : moment.callhistory = true
  · by_cases hacc : moment.accepted = true
    · exact ⟨0, by simp [hhist, hacc, hadd]⟩
    · exact ⟨-1, by simp [hhist, hacc, hadd]⟩
  · exact ⟨0, by simp [hhist]⟩

theorem nbdVoipRegisterCall_of_not_registers (hreg : registers build log text = false) :
    nbdVoipRegisterCall build log text moment
      = some (build.kept log, 0, missed (build.copied log moment)) := by
  unfold nbdVoipRegisterCall
  rw [if_neg (by simp [hreg])]
  cases build <;> rfl

theorem length_nbdVoipIoCall (ioCall : UInt16) :
    (nbdVoipIoCall log ioCall moment).1.length = if log.length = 0 then 0 else -1 := by
  unfold nbdVoipIoCall
  dsimp only
  split_ifs <;> simp_all

theorem terminated_nbdVoipIoCall (h : Terminated log) (ioCall : UInt16) :
    Terminated (nbdVoipIoCall log ioCall moment).1 := by
  unfold nbdVoipIoCall
  dsimp only
  split_ifs
  exacts [h, h, terminated_resetCall]

theorem length_nbdVoipTypeCall (typeCall : UInt16) :
    (nbdVoipTypeCall build log typeCall).1.length = log.length := by
  unfold nbdVoipTypeCall
  dsimp only
  split_ifs <;> rfl

theorem terminated_nbdVoipTypeCall (h : Terminated log) (typeCall : UInt16) :
    Terminated (nbdVoipTypeCall build log typeCall).1 := by
  unfold nbdVoipTypeCall
  dsimp only
  split_ifs
  exacts [terminated_resetCall, h, terminated_resetCall, h]

theorem terminated_kept (h : Terminated log) : Terminated (build.kept log) := by
  cases build
  exacts [terminated_resetCall, h]

/-- `nbd_voip_duration_call` registers the record, or drops it, when it ends the phone call. -/
theorem registerAndUpgrade_outcome (h : Terminated log) {log' : CallLog} {call : VoipCall}
    (hend : ending log' moment call = some (log, text)) :
    ∃ after ret requests, registerAndUpgrade build log text moment = some (after, ret, requests) ∧
      Outcome build log' moment call after requests ∧ Terminated after := by
  unfold registerAndUpgrade
  cases hreg : registers build log text with
  | true =>
    obtain ⟨ret, heq⟩ := nbdVoipRegisterCall_of_registers hreg h moment
    by_cases hret : ret = 0
    · refine ⟨_, 0, _, ?_, .registered hend hreg (.inr rfl), terminated_resetCall⟩
      simp [heq, hret]
    · refine ⟨_, -1, _, ?_, .registered hend hreg (.inl rfl), terminated_resetCall⟩
      simp [heq, hret]
  | false =>
    refine ⟨_, 0, _, ?_, .dropped hend hreg (.inr rfl), terminated_kept h⟩
    simp [nbdVoipRegisterCall_of_not_registers hreg]

theorem ending_of_running (hlength : log.length = 0) (moment : Moment) :
    ending log moment (.durationCall phoneStopCall) = some (log.finished moment, "stop_call") :=
  if_pos ⟨rfl, hlength⟩

/-- A call whose clock was not set back is registered. -/
theorem registers_finished (build : Build) {log : CallLog} {moment : Moment}
    (h : log.start ≤ moment.now) : registers build (log.finished moment) "stop_call" = true := by
  have hlength : (log.finished moment).length ≥ 0 := Int.sub_nonneg_of_le h
  cases build <;> simp [registers, hlength]

theorem ending_cases {call : VoipCall} {myCall : CallLog}
    (h : ending log moment call = some (myCall, text)) :
    (call = .durationCall phoneStopCall ∧ log.length = 0 ∧ myCall = log.finished moment ∧
        text = "stop_call") ∨
      (myCall = log ∧ (call = .durationCall phoneStopCall ∧ log.length = -1 ∧ text = "ring_stop" ∨
        call = .registerCall text)) := by
  cases call with
  | durationCall startStopCall =>
    rw [ending] at h
    split_ifs at h with hrun hring
    · obtain ⟨rfl, rfl⟩ := Prod.mk.inj (Option.some.inj h)
      exact .inl ⟨by rw [hrun.1], hrun.2, rfl, rfl⟩
    · obtain ⟨rfl, rfl⟩ := Prod.mk.inj (Option.some.inj h)
      exact .inr ⟨rfl, .inl ⟨by rw [hring.1], hring.2, rfl⟩⟩
  | registerCall call =>
    obtain ⟨rfl, rfl⟩ := Prod.mk.inj (Option.some.inj h)
    exact .inr ⟨rfl, .inr rfl⟩
  | ioCall | numberCall | typeCall => exact absurd h (by simp [ending])

theorem ending_durationCall_eq_none {startStopCall : Int} :
    ending log moment (.durationCall startStopCall) = none ↔
      startStopCall = phoneStopCall → log.length ≠ 0 ∧ log.length ≠ -1 := by
  rw [ending]
  split_ifs with h1 h2
  · simp [h1]
  · simp [h2]
  · simp only [true_iff]
    tauto

/-- The calls of `nbd_voip_duration_call` that do not end the phone call. -/
theorem nbdVoipDurationCall_of_not_ending (h : Terminated log) {startStopCall : Int}
    (hend : ending log moment (.durationCall startStopCall) = none) :
    ∃ after, nbdVoipDurationCall build log startStopCall moment
        = some (after, 0, nbdVoipUpgrade after) ∧
      after.length = lengthAfter log (.durationCall startStopCall) ∧ Terminated after := by
  rw [ending_durationCall_eq_none] at hend
  unfold nbdVoipDurationCall lengthAfter
  by_cases hstart : startStopCall = phoneStartCall ∧ log.length = -1
  · simp only [if_pos hstart]
    refine ⟨_, rfl, ?_, ?_⟩ <;> split_ifs
    exacts [rfl, rfl, h, h]
  · rw [if_neg hstart, if_neg (by tauto), if_neg (by tauto)]
    simp only [if_neg hstart]
    by_cases hconf : build = .nb5 ∧ startStopCall = phoneStartCall ∧ log.length = 0
    · rw [if_pos hconf]
      exact ⟨_, rfl, rfl, h⟩
    · rw [if_neg hconf]
      exact ⟨_, rfl, rfl, h⟩

/-- The calls of `nbd_voip_duration_call` that end the phone call. -/
theorem nbdVoipDurationCall_of_ending {startStopCall : Int} {myCall : CallLog}
    (hend : ending log moment (.durationCall startStopCall) = some (myCall, text)) :
    nbdVoipDurationCall build log startStopCall moment
        = registerAndUpgrade build myCall text moment ∧ myCall.number = log.number := by
  have hne : phoneStopCall ≠ phoneStartCall := by decide
  rw [ending] at hend
  unfold nbdVoipDurationCall
  split_ifs at hend with hrun hring
  · obtain ⟨rfl, rfl⟩ := Prod.mk.inj (Option.some.inj hend)
    rw [if_neg (by rw [hrun.1]; tauto), if_pos hrun]
    exact ⟨rfl, rfl⟩
  · obtain ⟨rfl, rfl⟩ := Prod.mk.inj (Option.some.inj hend)
    rw [if_neg (by rw [hring.1]; tauto), if_neg hrun, if_pos hring]
    exact ⟨rfl, rfl⟩

/-- **What a call does**, if the number stays inside its buffer. -/
theorem voipCall_outcome (build : Build) (moment : Moment) (h : Terminated log) {call : VoipCall}
    (hfits : NumberFits log call) :
    ∃ log' requests, voipCall build log moment call = some (log', requests) ∧
      Outcome build log moment call log' requests ∧ Terminated log' := by
  cases call with
  | ioCall ioCall =>
    exact ⟨(nbdVoipIoCall log ioCall moment).1, _, rfl, .changed rfl (length_nbdVoipIoCall ioCall),
      terminated_nbdVoipIoCall h ioCall⟩
  | numberCall numberCalled num =>
    obtain ⟨s, hs⟩ := h
    obtain ⟨s', hs', hfits⟩ := hfits
    obtain rfl := Option.some.inj (hs.cstr_eq.symm.trans hs')
    obtain ⟨b, hb, hholds⟩ := nbdVoipNumberCall_of_fits hs hfits
    exact ⟨_, [], by rw [voipCall, hb, Option.map_some], .numbered ⟨_, _, rfl⟩, _, hholds⟩
  | typeCall typeCall =>
    exact ⟨(nbdVoipTypeCall build log typeCall).1, _, rfl,
      .changed rfl (length_nbdVoipTypeCall typeCall), terminated_nbdVoipTypeCall h typeCall⟩
  | durationCall startStopCall =>
    cases hend : ending log moment (.durationCall startStopCall) with
    | none =>
      obtain ⟨after, heq, hlength, hafter⟩ := nbdVoipDurationCall_of_not_ending h hend
      exact ⟨after, _, by rw [voipCall, heq]; rfl, .changed hend hlength, hafter⟩
    | some registered =>
      obtain ⟨hcall, hnumber⟩ := nbdVoipDurationCall_of_ending hend
      have hterm : Terminated registered.1 := by rwa [Terminated, hnumber]
      obtain ⟨after, ret, requests, heq, hout, hafter⟩ := registerAndUpgrade_outcome hterm hend
      exact ⟨after, requests, by rw [voipCall, hcall, heq]; rfl, hout, hafter⟩
  | registerCall text =>
    cases hreg : registers build log text with
    | true =>
      obtain ⟨ret, heq⟩ := nbdVoipRegisterCall_of_registers hreg h moment
      refine ⟨_, _, ?_, .registered rfl hreg (.inl rfl), terminated_resetCall⟩
      simp [voipCall, heq]
    | false =>
      refine ⟨_, _, ?_, .dropped rfl hreg (.inl ⟨rfl, rfl⟩), terminated_kept h⟩
      simp [voipCall, nbdVoipRegisterCall_of_not_registers hreg]

theorem voipStep_outcome (build : Build) (moment : Moment) (h : Terminated log) {call : VoipCall}
    (hfits : NumberFits log call) :
    ∃ log' requests, voipStep build (some log) (call, moment) = (some log', requests) ∧
      Outcome build log moment call log' requests ∧ Terminated log' := by
  obtain ⟨log', requests, heq, hout⟩ := voipCall_outcome build moment h hfits
  exact ⟨log', requests, by simp [voipStep, heq], hout⟩

end

/-! ### The history is complete -/

/-- The requests for the call history. -/
def adds (requests : List VoipRequest) : List VoipRequest :=
  requests.filter fun
    | .historyCallAdd _ _ _ _ _ => true
    | .statusSet _ _ | .misscalls => false

@[simp] theorem adds_nil : adds [] = [] := rfl

@[simp] theorem adds_historyCallAdd (type direction : UInt16) (number : List Char)
    (length date : Int) (requests : List VoipRequest) :
    adds (.historyCallAdd type direction number length date :: requests)
      = .historyCallAdd type direction number length date :: adds requests := rfl

@[simp] theorem adds_append (requests more : List VoipRequest) :
    adds (requests ++ more) = adds requests ++ adds more := List.filter_append ..

@[simp] theorem adds_nbdVoipUpgrade (log : CallLog) : adds (nbdVoipUpgrade log) = [] := by
  unfold nbdVoipUpgrade
  split_ifs <;> rfl

@[simp] theorem adds_missed (log : CallLog) : adds (missed log) = [] := by
  unfold missed
  split_ifs <;> rfl

/-- At the end of a call that is running the clock is not before its start. -/
def Timely (log : CallLog) (call : VoipCall) (moment : Moment) : Prop :=
  call = .durationCall phoneStopCall → log.length = 0 → log.start ≤ moment.now

instance (log : CallLog) (call : VoipCall) (moment : Moment) :
    Decidable (Timely log call moment) := by
  unfold Timely
  infer_instance

/-- The condition for the history: the number stays inside its buffer, and the clock is not set back
before the start of the call. -/
def FitsHistory : Option CallLog → VoipCall × Moment → Prop
  | none, _ => False
  | some log, (call, moment) => NumberFits log call ∧ Timely log call moment

instance (state : Option CallLog) (op : VoipCall × Moment) : Decidable (FitsHistory state op) := by
  cases state <;> unfold FitsHistory <;> infer_instance

/-- A call that neither stops nor registers the phone call. -/
def Continues (call : VoipCall) : Prop :=
  call ≠ .durationCall phoneStopCall ∧ ∀ text, call ≠ .registerCall text

theorem ending_of_continues {log : CallLog} {moment : Moment} {call : VoipCall}
    (h : Continues call) : ending log moment call = none := by
  cases call with
  | durationCall startStopCall =>
    exact ending_durationCall_eq_none.mpr fun hstop => absurd (congrArg _ hstop) h.1
  | registerCall text => exact absurd rfl (h.2 text)
  | ioCall | numberCall | typeCall => rfl

/-- A call that neither stops nor registers the phone call adds nothing to the history. -/
theorem Outcome.continues {build : Build} {log log' : CallLog} {moment : Moment} {call : VoipCall}
    {requests : List VoipRequest} (h : Outcome build log moment call log' requests)
    (hcall : Continues call) : adds requests = [] ∧ log'.length = lengthAfter log call := by
  have hend : ending log moment call = none := ending_of_continues hcall
  cases h with
  | numbered hcall =>
    obtain ⟨_, _, rfl⟩ := hcall
    exact ⟨rfl, rfl⟩
  | changed _ hlength => exact ⟨adds_nbdVoipUpgrade log', hlength⟩
  | registered hend' | dropped hend' => exact absurd (hend.symm.trans hend') (by simp)

/-- A run whose numbers stay inside their buffer is defined. -/
theorem terminated_of_meets {build : Build} {C : Option CallLog → VoipCall × Moment → Prop}
    (hC : ∀ log op, C (some log) op → NumberFits log op.1) {log : CallLog} (h : Terminated log)
    {ops : List (VoipCall × Moment)} (hmeets : Meets (voipStep build) C (some log) ops) :
    ∃ log', (run (voipStep build) (some log) ops).1 = some log' ∧ Terminated log' := by
  refine run_inv_of_meets (voipStep build)
    (P := fun state _ => ∃ log, state = some log ∧ Terminated log) ?_ ops _ [] ⟨log, rfl, h⟩ hmeets
  rintro _ - op hop ⟨log, rfl, h⟩
  obtain ⟨log', requests, heq, -, hterm⟩ := voipStep_outcome build op.2 h (hC log op hop)
  exact ⟨log', by rw [heq], hterm⟩

/-- While a call runs, what neither stops nor registers it leaves it running and adds nothing to the
history. -/
theorem running_of_meets {build : Build} {log : CallLog} (h : Terminated log)
    (hlength : log.length = 0) {ops : List (VoipCall × Moment)}
    (hcontinues : ∀ op ∈ ops, Continues op.1)
    (hmeets : Meets (voipStep build) FitsHistory (some log) ops) :
    ∃ log', (run (voipStep build) (some log) ops).1 = some log' ∧ Terminated log' ∧
      log'.length = 0 ∧ adds (run (voipStep build) (some log) ops).2 = [] := by
  obtain ⟨⟨log', hlog', hterm, hrunning⟩, hadds⟩ := run_inv_of_meets (voipStep build)
    (P := fun state history =>
      (∃ log, state = some log ∧ Terminated log ∧ log.length = 0) ∧ adds history = [])
    (by
      rintro _ history op ⟨hfits, hop⟩ ⟨⟨log, rfl, h, hlength⟩, hadds⟩
      obtain ⟨log', requests, heq, hout, hterm⟩ := voipStep_outcome build op.2 h hfits.1
      obtain ⟨hnone, hlength'⟩ := hout.continues hop
      have hkeep : lengthAfter log op.1 = 0 := by
        unfold lengthAfter
        split <;> simp [hlength]
      rw [heq]
      exact ⟨⟨log', rfl, hterm, hlength'.trans hkeep⟩, by rw [adds_append, hadds, hnone]; rfl⟩)
    ops _ [] ⟨⟨log, rfl, h, hlength⟩, rfl⟩ (hmeets.and_forall _ hcontinues)
  exact ⟨log', hlog', hterm, hrunning, hadds⟩

/-- A running call that is stopped is sent to the history. -/
theorem adds_of_stop {build : Build} {log : CallLog} {moment : Moment} (h : Terminated log)
    (hlength : log.length = 0) (htimely : log.start ≤ moment.now)
    (hhistory : moment.callhistory = true) :
    ∃ type direction number length date, 0 ≤ length ∧
      adds (voipStep build (some log) (.durationCall phoneStopCall, moment)).2
        = [.historyCallAdd type direction number length date] := by
  have hfits : NumberFits log (.durationCall phoneStopCall) := trivial
  obtain ⟨log', requests, heq, hout, -⟩ := voipStep_outcome build moment h hfits
  have hend := ending_of_running hlength moment
  rw [heq]
  cases hout with
  | numbered hcall => exact absurd hcall (by simp)
  | changed hnone => exact absurd (hnone.symm.trans hend) (by simp)
  | registered hend' hreg htail =>
    obtain ⟨rfl, rfl⟩ := Prod.mk.inj (Option.some.inj (hend'.symm.trans hend))
    have hfinished : Terminated (log.finished moment) := h
    obtain ⟨type, direction, number, date, hadd⟩ := exists_historyCallAdd hfinished moment
    refine ⟨type, direction, number, (log.finished moment).length, date,
      Int.sub_nonneg_of_le htimely, ?_⟩
    have hsent : adds (registration (log.finished moment) moment)
        = [.historyCallAdd type direction number (log.finished moment).length date] := by
      simp only [registration, hhistory, hadd, if_true, Option.toList_some]
      split_ifs <;> simp
    rcases htail with rfl | rfl <;> simpa using hsent
  | dropped hend' hreg =>
    obtain ⟨rfl, rfl⟩ := Prod.mk.inj (Option.some.inj (hend'.symm.trans hend))
    exact absurd (hreg.symm.trans (registers_finished build htimely)) Bool.false_ne_true

/-- A phone call is started when there is none, and stopped: it is sent to the history once, at the
stop, with its length. -/
def Recorded (build : Build) (before middle : List (VoipCall × Moment)) (start stop : Moment) :
    Prop :=
  let idle := (run (voipStep build) (some resetCall) before).1
  let running := run (voipStep build) idle ((.durationCall phoneStartCall, start) :: middle)
  adds running.2 = [] ∧
    ∃ type direction number length date, 0 ≤ length ∧
      adds (voipStep build running.1 (.durationCall phoneStopCall, stop)).2
        = [.historyCallAdd type direction number length date]

/-- **The history is complete.** -/
theorem call_recorded_of_fits (build : Build) (before middle : List (VoipCall × Moment))
    (start stop : Moment)
    (hidle : ∃ log, (run (voipStep build) (some resetCall) before).1 = some log ∧ log.length = -1)
    (hmiddle : ∀ op ∈ middle, Continues op.1) (hhistory : stop.callhistory = true)
    (hmeets : Meets (voipStep build) FitsHistory (some resetCall)
      (before ++ ((.durationCall phoneStartCall, start) :: middle ++
        [(.durationCall phoneStopCall, stop)]))) :
    Recorded build before middle start stop := by
  obtain ⟨log, hlog, hlength⟩ := hidle
  obtain ⟨hbefore, hrest⟩ := (meets_append (voipStep build)).mp hmeets
  obtain ⟨_, hlog', hterm⟩ := terminated_of_meets (fun _ _ hfits => hfits.1) terminated_resetCall
    hbefore
  obtain rfl := Option.some.inj (hlog.symm.trans hlog')
  -- The start.
  have hfits : NumberFits log (.durationCall phoneStartCall) := trivial
  obtain ⟨started, requests, hstart, hout, hterm⟩ := voipStep_outcome build start hterm hfits
  obtain ⟨hnone, hrunning⟩ := hout.continues ⟨by decide, by simp⟩
  have hzero : started.length = 0 := hrunning.trans (if_pos ⟨rfl, hlength⟩)
  -- What happens until the stop.
  rw [hlog] at hrest
  have hrest := hrest.2
  rw [hstart] at hrest
  obtain ⟨hduring, hstop⟩ := (meets_append (voipStep build)).mp hrest
  obtain ⟨running, hrun, hterm, hlength, hadds⟩ := running_of_meets hterm hzero hmiddle hduring
  -- The stop.
  rw [hrun] at hstop
  have htimely : running.start ≤ stop.now := hstop.1.2 rfl hlength
  unfold Recorded
  dsimp only
  rw [hlog, run_cons, hstart]
  dsimp only
  rw [hrun, adds_append, hnone, hadds]
  exact ⟨rfl, adds_of_stop hterm hlength htimely hhistory⟩

/-- A moment with the clock at `now`, the call history on and a daemon that accepts. -/
def momentAt (now : Int) : Moment where
  now := now
  later := now
  stack := resetCall
  callhistory := true
  accepted := true

/-- An outgoing call of a minute is in the history. -/
theorem call_recorded_of_fits_minute :
    Recorded .other
      [(.ioCall phoneCallOutgoing, momentAt 100), (.numberCall (some "0102") (-1), momentAt 101)]
      [(.typeCall phoneCallVoip, momentAt 111)] (momentAt 110) (momentAt 170) :=
  call_recorded_of_fits .other _ _ _ _ ⟨_, rfl, by decide⟩
    (by simp [Continues]) rfl (by decide)

/-- A call that ends a second before it started, because the clock was set back, is not in the
history. -/
theorem clock_set_back_loses_call :
    ¬Recorded .nb5 [(.ioCall phoneCallIncoming, momentAt 100)] [] (momentAt 100) (momentAt 99) ∧
      ¬Recorded .other [(.ioCall phoneCallIncoming, momentAt 100)] [] (momentAt 100)
        (momentAt 99) := by
  refine ⟨?_, ?_⟩ <;>
    · rintro ⟨-, _, _, _, _, _, -, h⟩
      exact absurd (h.symm.trans (show _ = [] by decide)) (by simp)

/-! ### The permission to upgrade -/

/-- The permission that the record gives. -/
def CallLog.permission (log : CallLog) : String :=
  if log.length = -1 ∧ log.direction ≠ phoneCallIncoming then "ok" else "ko"

/-- The values of `voip_upgrade` that are written. -/
def permissions (requests : List VoipRequest) : List String :=
  requests.filterMap fun
    | .statusSet key data => if key = "voip_upgrade" then some data else none
    | .historyCallAdd _ _ _ _ _ | .misscalls => none

@[simp] theorem permissions_nil : permissions [] = [] := rfl

@[simp] theorem permissions_append (requests more : List VoipRequest) :
    permissions (requests ++ more) = permissions requests ++ permissions more :=
  List.filterMap_append ..

@[simp] theorem permissions_nbdVoipUpgrade (log : CallLog) :
    permissions (nbdVoipUpgrade log) = [log.permission] := by
  unfold nbdVoipUpgrade CallLog.permission
  split_ifs <;> rfl

@[simp] theorem permissions_missed (log : CallLog) : permissions (missed log) = [] := by
  unfold missed
  split_ifs <;> rfl

@[simp] theorem permissions_registration (log : CallLog) (moment : Moment) :
    permissions (registration log moment) = [] := by
  have hadd : permissions (historyCallAdd log moment).toList = [] := by
    unfold historyCallAdd
    dsimp only
    cases cstr (if log.type = phoneCallComplex then blank numberMax else log.number) <;> rfl
  unfold registration
  split_ifs <;> simp [hadd]

/-- The condition for the permission: the number stays inside its buffer, and on the `NB5` a record
that is not registered gives the permission already. -/
def FitsUpgrade (build : Build) : Option CallLog → VoipCall × Moment → Prop
  | none, _ => False
  | some log, (call, _) => NumberFits log call ∧
      match build, call with
      | .nb5, .registerCall text => registers .nb5 log text = true ∨ log.permission = "ok"
      | _, _ => True

instance (build : Build) (state : Option CallLog) (op : VoipCall × Moment) :
    Decidable (FitsUpgrade build state op) := by
  obtain ⟨call, _⟩ := op
  cases state <;> cases build <;> cases call <;> unfold FitsUpgrade <;> infer_instance

/-- A call writes the permission of the record it leaves, or leaves the permission as it was. -/
theorem Outcome.permission_eq {build : Build} {log log' : CallLog} {moment : Moment}
    {call : VoipCall} {requests : List VoipRequest}
    (h : Outcome build log moment call log' requests)
    (hfits : FitsUpgrade build (some log) (call, moment)) :
    (permissions requests).getLast? = some log'.permission ∨
      permissions requests = [] ∧ log'.permission = log.permission := by
  cases h with
  | numbered => exact .inr ⟨rfl, rfl⟩
  | changed => exact .inl (by simp)
  | registered hend hreg htail => exact .inl (by rcases htail with rfl | rfl <;> simp)
  | dropped hend hreg htail =>
    rcases htail with ⟨rfl, rfl⟩ | rfl
    · obtain ⟨rfl, -⟩ := Prod.mk.inj (Option.some.inj hend)
      refine .inr ⟨by simp, ?_⟩
      cases build with
      | nb5 =>
        -- The record is reset without a new permission, so that it has to give it already.
        have hok : log.permission = "ok" :=
          hfits.2.resolve_left fun htrue => Bool.false_ne_true (hreg.symm.trans htrue)
        rw [hok]
        rfl
      | other => rfl
    · exact .inl (by simp)

/-- **The permission to upgrade follows the record**: the last value that was written, if there is
one, is that of the record. -/
theorem upgrade_follows_of_fits (build : Build) (ops : List (VoipCall × Moment))
    (hmeets : Meets (voipStep build) (FitsUpgrade build) (some resetCall) ops) :
    ∃ log, (run (voipStep build) (some resetCall) ops).1 = some log ∧
      ∀ value, (permissions (run (voipStep build) (some resetCall) ops).2).getLast? = some value →
        value = log.permission := by
  obtain ⟨log, hlog, -, hlast⟩ := run_inv_of_meets (voipStep build)
    (P := fun state history => ∃ log, state = some log ∧ Terminated log ∧
      ∀ value, (permissions history).getLast? = some value → value = log.permission)
    (by
      rintro _ history op hfits ⟨log, rfl, h, hlast⟩
      obtain ⟨log', requests, heq, hout, hterm⟩ := voipStep_outcome build op.2 h hfits.1
      rw [heq]
      refine ⟨log', rfl, hterm, fun value hvalue => ?_⟩
      rw [permissions_append, List.getLast?_append] at hvalue
      rcases hout.permission_eq hfits with hnew | ⟨hnone, hsame⟩
      · rw [hnew] at hvalue
        exact (Option.some.inj hvalue).symm
      · rw [hnone] at hvalue
        exact (hlast value hvalue).trans hsame.symm)
    ops _ [] ⟨resetCall, rfl, terminated_resetCall, nofun⟩ hmeets
  exact ⟨log, hlog, hlast⟩

/-- After a missed call, of which the record is registered and reset, the box may be upgraded. -/
theorem upgrade_follows_of_fits_missed :
    let r := run (voipStep .nb5) (some resetCall)
      [(.ioCall phoneCallIncoming, momentAt 100), (.registerCall "ring_stop", momentAt 120)]
    r.1.map CallLog.permission = some "ok" ∧ (permissions r.2).getLast? = some "ok" := by
  obtain ⟨log, hlog, hlast⟩ := upgrade_follows_of_fits .nb5
    [(.ioCall phoneCallIncoming, momentAt 100), (.registerCall "ring_stop", momentAt 120)]
    (by decide)
  have hok := hlast "ok" (by decide)
  exact ⟨by rw [hlog, Option.map_some, ← hok], by decide⟩

/-- On the `NB5` a text that does not register the call leaves the permission refused, although the
record is reset. -/
theorem registerCall_leaves_permission :
    let r := run (voipStep .nb5) (some resetCall)
      [(.ioCall phoneCallIncoming, momentAt 100), (.registerCall "stop_call", momentAt 120)]
    r.1.map CallLog.permission = some "ok" ∧ (permissions r.2).getLast? = some "ko" := by
  decide

end Neufbox.Libnbd
