import Mathlib.Data.List.Basic
import Neufbox.Lib.CharBuffers

/-!
# The call history

Model of the call functions of `lib/voip.c`.  The box reports what happens on the phone with
`nbd_voip_io_call`, `nbd_voip_number_call`, `nbd_voip_type_call` and `nbd_voip_duration_call`; the
record of the current call, `new_call`, is sent to the daemon by `nbd_voip_register_call` when the
call ends.

What a call of a function meets is given with it (`Moment`): the readings of the clock, what the
stack holds, and what the daemon answers.  `none` is undefined behaviour: a write past the end of
the number, a read past it, or a NULL pointer that is followed.  Times do not wrap around.
-/

namespace Neufbox.Libnbd

open CharBuffers

/-- `NB5` is defined, or not. -/
inductive Build where
  | nb5
  | other
  deriving DecidableEq

def phoneCallUninit : UInt16 := 0xFFFF

def phoneCallPstn : UInt16 := 0

def phoneCallVoip : UInt16 := 1

def phoneCallComplex : UInt16 := 2

def phoneCall3g : UInt16 := 3

def phoneCallIncoming : UInt16 := 0

def phoneCallOutgoing : UInt16 := 1

def phoneStartCall : Int := 1

def phoneStopCall : Int := 0

def numberMax : ℕ := 32

structure CallLog where
  type : UInt16
  direction : UInt16
  number : Buffer numberMax
  length : Int
  date : Int
  start : Int
  finish : Int
  deriving DecidableEq

/-- What `resetCall` leaves, which is also what `new_call` is at the start. -/
def resetCall : CallLog where
  type := phoneCallUninit
  direction := phoneCallUninit
  number := blank numberMax
  length := -1
  date := -1
  start := 0
  finish := 0

/-- A request to the daemon.  The numbers of `history_call_add` are sent in decimal. -/
inductive VoipRequest where
  | statusSet (key data : String)
  | historyCallAdd (type direction : UInt16) (number : List Char) (length date : Int)
  | misscalls
  deriving DecidableEq

/-- What a call of a function meets. -/
structure Moment where
  /-- The clock. -/
  now : Int
  /-- The clock, when it is read again to register the call. -/
  later : Int
  /-- What the stack holds where `my_call` is. -/
  stack : CallLog
  /-- `nbd_user_config_matches("voip_callhistory", "on")` -/
  callhistory : Bool
  /-- `history_call_add` succeeds. -/
  accepted : Bool

def nbdVoipUpgrade (call : CallLog) : List VoipRequest :=
  if call.length = -1 ∧ call.direction ≠ phoneCallIncoming then
    -- upgrade authorized
    [.statusSet "voip_upgrade" "ok"]
  else
    -- otherwise, upgrade not authorized because phone already in a com or ringing
    [.statusSet "voip_upgrade" "ko"]

def nbdVoipIoCall (call : CallLog) (ioCall : UInt16) (moment : Moment) :
    CallLog × List VoipRequest :=
  let call := { call with date := moment.now }
  let call :=
    -- call in progress
    if call.length = 0 ∧ call.type ≠ phoneCallPstn then { call with type := phoneCallComplex }
    else if call.length = 0 ∧ call.type = phoneCallPstn then call
    else
      { call with
        direction := ioCall
        length := -1
        start := 0
        finish := 0
        number := blank numberMax
        type := phoneCallVoip }
  (call, nbdVoipUpgrade call)

def dialable (c : Char) : Bool :=
  c = '#' || c = '*' || c = '+' || ('0' ≤ c && c ≤ '9')

/-- The characters that are copied from a string. -/
def dialPrefix (number : String) : List Char := number.toList.takeWhile dialable

/-- `strncpy(new_call.number, number_called, i)`. -/
def CallLog.copyNumber (call : CallLog) (number : String) : Option CallLog :=
  (overwrite call.number 0 (dialPrefix number)).map fun number => { call with number := number }

/-- `snprintf(new_call.number + i, NUMBER_MAX, "%d", num)`, or the character for `num`. -/
def CallLog.appendDigit (call : CallLog) (num : Int) : Option CallLog :=
  match cstr call.number with
  | none => none
  | some digits =>
    let chars :=
      if num < 10 then (toString num).toList.take (numberMax - 1) ++ [nul]
      else if num = 10 then ['*']
      else ['#']
    (overwrite call.number digits.length chars).map fun number => { call with number := number }

def nbdVoipNumberCall (call : CallLog) (numberCalled : Option String) (num : Int) :
    Option CallLog :=
  -- if the call has already begun, do not register the call number
  if call.length = -1 then
    if (call.direction = phoneCallIncoming ∧
          (call.type = phoneCallVoip ∨ call.type = phoneCall3g) ∧ num = -1) ∨
        (call.direction = phoneCallIncoming ∧ call.type = phoneCallPstn ∧ num = -1) then
      -- the characters are counted before the pointer is checked
      match numberCalled with
      | none => none
      | some number => call.copyNumber number
    else
      match numberCalled with
      | none => if call.direction = phoneCallOutgoing then call.appendDigit num else some call
      | some number =>
        -- set complete dialstring at once
        if call.direction = phoneCallOutgoing ∧ num = -1 then call.copyNumber number
        else some call
  else some call

def nbdVoipTypeCall (build : Build) (call : CallLog) (typeCall : UInt16) :
    CallLog × List VoipRequest :=
  let call :=
    if call.type ≠ phoneCallComplex ∧ call.length = -1 then { call with type := typeCall }
    else call
  let call :=
    -- hookflash case when having a call
    if build = .other ∧ typeCall = phoneCallComplex ∧ call.length = 0 then
      { call with number := blank numberMax, type := typeCall }
    else call
  (call, nbdVoipUpgrade call)

/-- The test of `nbd_voip_register_call`: the call is registered. -/
def registers (build : Build) (log : CallLog) (call : String) : Bool :=
  let ringStop := "ring_stop".toList.isPrefixOf call.toList
  let stopCall := "stop_call".toList.isPrefixOf call.toList
  match build with
  | .nb5 =>
    (log.length = -1 && (log.direction = phoneCallIncoming || log.direction = phoneCallOutgoing)
      && ringStop) ||
    (log.length ≥ 0 && stopCall)
  | .other =>
    (log.length = -1 && log.direction = phoneCallIncoming && ringStop) ||
    (log.length ≥ 0 && stopCall) ||
    (log.length ≥ 0 && log.direction = phoneCallOutgoing && ringStop)

/-- The request for the call history; the buffer it copies the number into is no larger. -/
def historyCallAdd (log : CallLog) (moment : Moment) : Option VoipRequest :=
  -- Warning: COMPLEX call is not taken into account here
  let type :=
    if log.type ≠ phoneCallComplex ∧ log.type ≠ phoneCallUninit then log.type else phoneCallVoip
  let direction :=
    if log.direction ≠ phoneCallOutgoing then phoneCallIncoming else log.direction
  -- Remove number if this is the result of a double call or a conference
  let number := if log.type = phoneCallComplex then blank numberMax else log.number
  let date := if log.date = -1 then moment.later else log.date
  (cstr number).map fun number => .historyCallAdd type direction number log.length date

/-- The end of `nbd_voip_register_call`: missed incoming call -> setting green led blinking. -/
def missed (log : CallLog) : List VoipRequest :=
  if log.direction = phoneCallIncoming ∧ log.length = -1 then [.misscalls] else []

/-- The record, what is returned and the requests.  Where the build is not `NB5`, the copy of the
record is made only if the call is registered. -/
def nbdVoipRegisterCall (build : Build) (newCall : CallLog) (call : String) (moment : Moment) :
    Option (CallLog × Int × List VoipRequest) :=
  if registers build newCall call then
    let myCall := newCall
    let newCall := resetCall
    if moment.callhistory then
      match historyCallAdd myCall moment with
      | none => none
      | some add =>
        if moment.accepted then
          some (newCall, 0, nbdVoipUpgrade newCall ++ add :: missed myCall)
        else some (newCall, -1, nbdVoipUpgrade newCall ++ [add])
    else some (newCall, 0, nbdVoipUpgrade newCall ++ missed myCall)
  else
    match build with
    | .nb5 => some (resetCall, 0, missed newCall)
    | .other => some (newCall, 0, missed moment.stack)

/-- The call is registered and the permission to upgrade is set, unless the registration fails. -/
def registerAndUpgrade (build : Build) (newCall : CallLog) (call : String) (moment : Moment) :
    Option (CallLog × Int × List VoipRequest) :=
  (nbdVoipRegisterCall build newCall call moment).map fun (newCall, ret, requests) =>
    if ret ≠ 0 then (newCall, -1, requests)
    else (newCall, 0, requests ++ nbdVoipUpgrade newCall)

def nbdVoipDurationCall (build : Build) (call : CallLog) (startStopCall : Int) (moment : Moment) :
    Option (CallLog × Int × List VoipRequest) :=
  if startStopCall = phoneStartCall ∧ call.length = -1 then
    let call := { call with start := moment.now, length := 0 }
    let call :=
      if build = .other ∧ cstr call.number = some "999".toList then
        { call with type := phoneCallPstn }
      else call
    some (call, 0, nbdVoipUpgrade call)
  -- case of NB4 end of call
  else if startStopCall = phoneStopCall ∧ call.length = 0 then
    let call := { call with finish := moment.now, length := moment.now - call.start }
    registerAndUpgrade build call "stop_call" moment
  else if startStopCall = phoneStopCall ∧ call.length = -1 then
    registerAndUpgrade build call "ring_stop" moment
  -- case of a conf call NB5
  else if build = .nb5 ∧ startStopCall = phoneStartCall ∧ call.length = 0 then
    let call := { call with type := phoneCallComplex }
    some (call, 0, nbdVoipUpgrade call)
  else some (call, 0, nbdVoipUpgrade call)

/-- A call of one of the functions. -/
inductive VoipCall where
  | ioCall (ioCall : UInt16)
  | numberCall (numberCalled : Option String) (num : Int)
  | typeCall (typeCall : UInt16)
  | durationCall (startStopCall : Int)
  | registerCall (call : String)
  deriving DecidableEq

/-- What a call does to the record, and its requests. -/
def voipCall (build : Build) (log : CallLog) (moment : Moment) :
    VoipCall → Option (CallLog × List VoipRequest)
  | .ioCall ioCall => some (nbdVoipIoCall log ioCall moment)
  | .numberCall numberCalled num => (nbdVoipNumberCall log numberCalled num).map (·, [])
  | .typeCall typeCall => some (nbdVoipTypeCall build log typeCall)
  | .durationCall startStopCall =>
    (nbdVoipDurationCall build log startStopCall moment).map fun (log, _, requests) =>
      (log, requests)
  | .registerCall call =>
    (nbdVoipRegisterCall build log call moment).map fun (log, _, requests) => (log, requests)

/-- A step of a run.  After undefined behaviour nothing is known any more. -/
def voipStep (build : Build) (state : Option CallLog) (op : VoipCall × Moment) :
    Option CallLog × List VoipRequest :=
  match state.bind fun log => voipCall build log op.2 op.1 with
  | none => (none, [])
  | some (log, requests) => (some log, requests)

end Neufbox.Libnbd
