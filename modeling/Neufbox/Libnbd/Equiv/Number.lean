import Neufbox.Libnbd.Equiv.Voip

/-!
# The recorded number

Between `nbd_voip_io_call` and the start of the call the number is given in complete dial strings,
digit by digit, or both.  It should be the last string and the digits after it, cut off at the end
of the buffer (`dialled`).  `number_recorded_iff` says when it is: nothing may be cut off, since the
copies are bounded by their source and not by the buffer, and a string may not be shorter than what
it replaces, since it is stored without a NUL.
-/

namespace Neufbox.Libnbd

open CharBuffers Machine

/-- A call between `nbd_voip_io_call` and the start of the phone call. -/
inductive Dial where
  | string (number : String)
  | digit (num : Fin 12)
  | type (typeCall : UInt16)
  deriving DecidableEq

def Dial.call : Dial → VoipCall
  | string number => .numberCall (some number) (-1)
  | digit num => .numberCall none num
  | type typeCall => .typeCall typeCall

def dialStep (build : Build) (state : Option CallLog) (op : Dial × Moment) :
    Option CallLog × List VoipRequest :=
  voipStep build state (op.1.call, op.2)

/-- The number that was dialled, after one more call.  Digits are for outgoing calls. -/
def Dial.next (direction : UInt16) (number : List Char) (op : Dial × Moment) : List Char :=
  match op.1 with
  | string dialstring => dialPrefix dialstring
  | digit num => if direction = phoneCallOutgoing then number ++ digitChars num else number
  | type _ => number

/-- The number that was dialled. -/
def dialled (direction : UInt16) (ops : List (Dial × Moment)) : List Char :=
  ops.foldl (Dial.next direction) []

/-- The number in the record, if it is a string. -/
def recorded (state : Option CallLog) : Option (List Char) := state.bind fun log => cstr log.number

/-- `nbd_voip_number_call` takes a dial string over. -/
def Takes (log : CallLog) : Prop :=
  log.direction = phoneCallIncoming ∧
      (log.type = phoneCallVoip ∨ log.type = phoneCall3g ∨ log.type = phoneCallPstn) ∨
    log.direction = phoneCallOutgoing

instance (log : CallLog) : Decidable (Takes log) := by unfold Takes; infer_instance

/-- The number `s` and one more call.  A string that is taken over is no shorter than the number
before it and fits; one that is not taken over is the number already.  A digit fits. -/
def Dial.Fits (log : CallLog) (s : List Char) : Dial → Prop
  | string number =>
    if Takes log then
      s.length ≤ (dialPrefix number).length ∧ (dialPrefix number).length < numberMax
    else s = (dialPrefix number).take (numberMax - 1)
  | digit _ => log.direction = phoneCallOutgoing → s.length + 1 < numberMax
  | type _ => True

instance (log : CallLog) (s : List Char) : ∀ dial : Dial, Decidable (dial.Fits log s)
  | .string number =>
    inferInstanceAs (Decidable (if Takes log then
      s.length ≤ (dialPrefix number).length ∧ (dialPrefix number).length < numberMax
    else s = (dialPrefix number).take (numberMax - 1)))
  | .digit _ => inferInstanceAs (Decidable (log.direction = phoneCallOutgoing → _))
  | .type _ => inferInstanceAs (Decidable True)

/-- The condition for the number. -/
def FitsNumber (state : Option CallLog) (op : Dial × Moment) : Prop :=
  ∃ log ∈ state, ∃ s ∈ cstr log.number, op.1.Fits log s

instance (state : Option CallLog) (op : Dial × Moment) : Decidable (FitsNumber state op) :=
  inferInstanceAs (Decidable (∃ log ∈ state, ∃ s ∈ cstr log.number, op.1.Fits log s))

/-! ### One call -/

section

variable {build : Build} {log : CallLog} {moment : Moment} {s : List Char}

theorem dialStep_numberCall {dial : Dial} {numberCalled : Option String} {num : Int}
    (h : dial.call = .numberCall numberCalled num) :
    (dialStep build (some log) (dial, moment)).1 = nbdVoipNumberCall log numberCalled num := by
  simp only [dialStep, h, voipStep, voipCall, Option.bind_some]
  cases nbdVoipNumberCall log numberCalled num <;> rfl

theorem dialStep_string (hlength : log.length = -1) (number : String) :
    (dialStep build (some log) (.string number, moment)).1
      = if Takes log then log.copyNumber number else some log := by
  rw [dialStep_numberCall rfl, nbdVoipNumberCall_eq, numberEdit, if_neg (not_not_intro hlength)]
  by_cases hin : log.direction = phoneCallIncoming
  · have hout : log.direction ≠ phoneCallOutgoing := hin ▸ by decide
    rw [if_pos hin]
    by_cases htype : log.type = phoneCallVoip ∨ log.type = phoneCall3g ∨ log.type = phoneCallPstn
    · rw [if_pos ⟨htype, rfl⟩, if_pos (.inl ⟨hin, htype⟩)]
      rfl
    · rw [if_neg (fun h => htype h.1), if_neg (fun h => h.elim (fun h => htype h.2) hout)]
  · rw [if_neg hin]
    by_cases hout : log.direction = phoneCallOutgoing
    · rw [if_pos hout, if_pos rfl, if_pos (.inr hout)]
      rfl
    · rw [if_neg hout, if_neg (fun h => h.elim (fun h => hin h.1) hout)]

theorem dialStep_digit (hlength : log.length = -1) (num : Fin 12) :
    (dialStep build (some log) (.digit num, moment)).1
      = if log.direction = phoneCallOutgoing then log.appendDigit num else some log := by
  have hnum : (num : Int) ≠ -1 := by omega
  rw [dialStep_numberCall rfl, nbdVoipNumberCall_eq, numberEdit, if_neg (not_not_intro hlength)]
  by_cases hin : log.direction = phoneCallIncoming
  · have hout : log.direction ≠ phoneCallOutgoing := hin ▸ by decide
    rw [if_pos hin, if_neg (fun h => hnum h.2), if_neg hout]
  · rw [if_neg hin]
    by_cases hout : log.direction = phoneCallOutgoing
    · rw [if_pos hout, if_pos hout]
    · rw [if_neg hout, if_neg hout]

theorem dialStep_type (hlength : log.length = -1) (typeCall : UInt16) :
    ∃ log', (dialStep build (some log) (.type typeCall, moment)).1 = some log' ∧
      log'.length = -1 ∧ log'.direction = log.direction ∧ log'.number = log.number := by
  refine ⟨(nbdVoipTypeCall build log typeCall).1, rfl,
    (length_nbdVoipTypeCall typeCall).trans hlength, ?_⟩
  unfold nbdVoipTypeCall
  dsimp only
  split_ifs <;> simp_all

theorem take_dialPrefix {number : String} (hlt : (dialPrefix number).length < numberMax) :
    (dialPrefix number).take (numberMax - 1) = dialPrefix number :=
  List.take_of_length_le (by omega)

theorem copyNumber_of_lt (h : Holds log.number s) {number : String}
    (hlt : (dialPrefix number).length < numberMax) :
    ∃ b, log.copyNumber number = some { log with number := b } ∧
      Holds b (dialPrefix number ++ s.drop (dialPrefix number).length) := by
  obtain ⟨b, hb, hholds⟩ := h.store (nul_notMem_dialPrefix number) hlt
  exact ⟨b, by rw [CallLog.copyNumber, hb, Option.map_some], hholds⟩

theorem recorded_copyNumber_of_le (h : Holds log.number s) {number : String}
    (hle : numberMax ≤ (dialPrefix number).length) : recorded (log.copyNumber number) = none := by
  have hnone := h.cstr_overwrite_of_le (nul_notMem_dialPrefix number) (Nat.zero_le s.length)
    (by omega)
  rw [recorded, CallLog.copyNumber, Option.bind_map]
  exact hnone

theorem length_digitChars (num : Fin 12) : (digitChars num).length = 1 := by
  revert num
  decide

theorem recorded_appendDigit_of_le (h : Holds log.number s) {num : Fin 12}
    (hle : numberMax ≤ s.length + 1) : recorded (log.appendDigit num) = none := by
  rw [recorded, CallLog.appendDigit, h.cstr_eq]
  dsimp only
  rw [Option.bind_map]
  split_ifs with hdigit hstar
  · -- The NUL that ends a digit is past the end.
    have hlength := length_digitChars num
    rw [digitChars, if_pos hdigit] at hlength
    rw [overwrite_eq_none.mpr (by rw [List.length_append, hlength, List.length_singleton]; omega)]
    rfl
  · exact h.cstr_overwrite_of_le (by decide) le_rfl hle
  · exact h.cstr_overwrite_of_le (by decide) le_rfl hle

end

/-! ### Runs -/

/-- The call is not started, and the number is the one that was dialled. -/
def Dialling (direction : UInt16) (state : Option CallLog) (number : List Char) : Prop :=
  ∃ log, state = some log ∧ log.length = -1 ∧ log.direction = direction ∧
    Holds log.number (number.take (numberMax - 1))

section

variable {build : Build} {direction : UInt16} {state : Option CallLog} {number : List Char}

theorem Dialling.recorded_eq (h : Dialling direction state number) :
    recorded state = some (number.take (numberMax - 1)) := by
  obtain ⟨log, rfl, -, -, hholds⟩ := h
  exact hholds.cstr_eq

theorem dialling_nbdVoipIoCall {log : CallLog} (hreset : log.length ≠ 0) (direction : UInt16)
    (moment : Moment) : Dialling direction (some (nbdVoipIoCall log direction moment).1) [] := by
  have hvoip : ¬(log.length = 0 ∧ log.type ≠ phoneCallPstn) := fun h => hreset h.1
  have hpstn : ¬(log.length = 0 ∧ log.type = phoneCallPstn) := fun h => hreset h.1
  refine ⟨_, rfl, ?_⟩
  simp only [nbdVoipIoCall, if_neg hvoip, if_neg hpstn, true_and]
  exact holds_blank (by decide)

theorem Dialling.step (h : Dialling direction state number) {op : Dial × Moment}
    (hfits : FitsNumber state op) :
    Dialling direction (dialStep build state op).1 (Dial.next direction number op) := by
  obtain ⟨log, rfl, hlength, rfl, hholds⟩ := h
  obtain ⟨dial, moment⟩ := op
  obtain ⟨_, hlog, s, hs, hfits⟩ := hfits
  obtain rfl := Option.mem_some.mp hlog
  obtain rfl := Option.some.inj (hholds.cstr_eq.symm.trans hs)
  cases dial with
  | string dialstring =>
    rw [dialStep_string hlength]
    rw [Dial.Fits] at hfits
    split_ifs at hfits ⊢ with htakes
    · obtain ⟨hle, hlt⟩ := hfits
      obtain ⟨b, hcopy, hb⟩ := copyNumber_of_lt hholds hlt
      refine ⟨_, hcopy, hlength, rfl, ?_⟩
      -- Nothing of the number before is left, and nothing is cut off.
      rw [List.drop_of_length_le hle, List.append_nil] at hb
      exact (take_dialPrefix hlt).symm ▸ hb
    · exact ⟨log, rfl, hlength, rfl, hfits ▸ hholds⟩
  | digit num =>
    rw [dialStep_digit hlength, Dial.next]
    split_ifs with hout
    · have hone := length_digitChars num
      have hlt := hfits hout
      rw [List.length_take] at hlt
      have htake : number.take (numberMax - 1) = number := List.take_of_length_le (by omega)
      rw [htake] at hholds
      have hfit : number.length + (digitChars num).length < numberMax := by omega
      obtain ⟨b, happend, hb⟩ := appendDigit_of_lt hholds hfit
      refine ⟨_, happend, hlength, rfl, ?_⟩
      rwa [List.take_of_length_le (by rw [List.length_append]; omega)]
    · exact ⟨log, rfl, hlength, rfl, hholds⟩
  | type typeCall =>
    obtain ⟨log', hstep, hlength', hdirection, hnumber⟩ := dialStep_type hlength typeCall
    exact ⟨log', hstep, hlength', hdirection, hnumber ▸ hholds⟩

theorem Dialling.fits_of_recorded (h : Dialling direction state number) {op : Dial × Moment}
    (hrec : recorded (dialStep build state op).1
      = some ((Dial.next direction number op).take (numberMax - 1))) : FitsNumber state op := by
  obtain ⟨log, rfl, hlength, rfl, hholds⟩ := h
  obtain ⟨dial, moment⟩ := op
  refine ⟨log, rfl, _, hholds.cstr_eq, ?_⟩
  cases dial with
  | string dialstring =>
    rw [dialStep_string hlength] at hrec
    rw [Dial.Fits]
    split_ifs at hrec ⊢ with htakes
    · by_cases hlt : (dialPrefix dialstring).length < numberMax
      · obtain ⟨b, hcopy, hb⟩ := copyNumber_of_lt hholds hlt
        have heq : dialPrefix dialstring ++ (number.take (numberMax - 1)).drop
            (dialPrefix dialstring).length = dialPrefix dialstring :=
          Option.some.inj (hb.cstr_eq.symm.trans
            ((congrArg recorded hcopy).symm.trans
              (hrec.trans (congrArg some (take_dialPrefix hlt)))))
        exact ⟨List.drop_eq_nil_iff.mp (List.append_right_eq_self.mp heq), hlt⟩
      · rw [recorded_copyNumber_of_le hholds (by omega)] at hrec
        exact nomatch hrec
    · exact Option.some.inj (hholds.cstr_eq.symm.trans hrec)
  | digit num =>
    intro hout
    by_contra hle
    rw [dialStep_digit hlength, if_pos hout, recorded_appendDigit_of_le hholds (by omega)] at hrec
    exact nomatch hrec
  | type typeCall => trivial

end

/-- **The recorded number** is the one that was dialled all along exactly if every call fits. -/
theorem number_recorded_iff (build : Build) {log : CallLog} (hreset : log.length ≠ 0)
    (direction : UInt16) (moment : Moment) (ops : List (Dial × Moment)) :
    (∀ before, before <+: ops →
      recorded (run (dialStep build) (some (nbdVoipIoCall log direction moment).1) before).1
        = some ((dialled direction before).take (numberMax - 1))) ↔
      Meets (dialStep build) FitsNumber (some (nbdVoipIoCall log direction moment).1) ops := by
  have hstart := dialling_nbdVoipIoCall hreset direction moment
  exact forall_prefix_iff_meets_of_meets (dialStep build) (Dial.next direction)
    (D := fun _ _ => True)
    (P := fun state number => recorded state = some (number.take (numberMax - 1)))
    (fun state number op _ h => ⟨h.fits_of_recorded, fun hfits => (h.step hfits).recorded_eq⟩)
    (fun state number op _ h => h.step) ops _ [] (meets_of_forall _ (fun _ _ _ => trivial) _)
    hstart hstart.recorded_eq

/-- A dial string and one more digit. -/
theorem number_recorded_iff_string_digit :
    Meets (dialStep .other) FitsNumber
        (some (nbdVoipIoCall resetCall phoneCallOutgoing (momentAt 0)).1)
        [(.string "0800p", momentAt 1), (.digit 10, momentAt 2)] ∧
      recorded (run (dialStep .other)
          (some (nbdVoipIoCall resetCall phoneCallOutgoing (momentAt 0)).1)
          [(.string "0800p", momentAt 1), (.digit 10, momentAt 2)]).1
        = some "0800*".toList :=
  ⟨by decide, (number_recorded_iff .other (by decide) phoneCallOutgoing (momentAt 0) _).mpr
    (by decide) _ (List.prefix_refl _)⟩

/-- Of a longer number the end stays after a shorter one, and a string of 32 characters has no NUL
after it. -/
theorem number_leftover_and_unterminated :
    recorded (run (dialStep .nb5)
        (some (nbdVoipIoCall resetCall phoneCallOutgoing (momentAt 0)).1)
        [(.string "12345", momentAt 1), (.string "99", momentAt 2)]).1
      = some "99345".toList ∧
    dialled phoneCallOutgoing [(.string "12345", momentAt 1), (.string "99", momentAt 2)]
      = "99".toList ∧
    recorded (run (dialStep .other)
        (some (nbdVoipIoCall resetCall phoneCallOutgoing (momentAt 0)).1)
        [(.string "01234567890123456789012345678901", momentAt 1)]).1
      = none := by
  decide

end Neufbox.Libnbd
