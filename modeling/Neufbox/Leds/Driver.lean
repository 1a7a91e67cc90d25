import Mathlib.Data.List.Basic
import Mathlib.Tactic.Common

/-!
# The driver of the LEDs

Model of `drivers/leds/leds-neufbox.c`: the commands of the LEDs, the tick of every mode and the
switch between the modes.

Each LED has a pin of its own, and `gpio_get_value` returns the value that was last set.  The atomic
operations on the command word are functions of their own, so that a tick may also be cut between
them; in this module the tick and the switch are executed as a whole.
-/

namespace Neufbox.Leds

/-! ### LEDs -/

/-- `enum led_state` -/
inductive LedState where
  | unchanged
  | off
  | on
  | toggle
  | blinkonce
  | slowblinks
  | blinks
  deriving DecidableEq

/-- The states in their order. -/
def LedState.all : List LedState := [unchanged, off, on, toggle, blinkonce, slowblinks, blinks]

/-- `LED_OFF` and `LED_FULL` of `enum led_brightness` -/
def brightnessOff : ℕ := 0
def brightnessFull : ℕ := 255

/-- `struct neufbox_led_data`; `gpio` is the value of the pin. -/
structure LedData where
  activeLow : Bool
  gpio : Bool
  brightness : ℕ
  command : LedState
  state : LedState
  deriving DecidableEq

/-- The LED is lit. -/
def LedData.lit (led : LedData) : Bool := led.gpio != led.activeLow

/-- `led_off` -/
def ledOff (led : LedData) : LedData :=
  { led with gpio := led.activeLow, brightness := brightnessOff }

/-- `led_on` -/
def ledOn (led : LedData) : LedData :=
  { led with gpio := !led.activeLow, brightness := brightnessFull }

/-- `led_toggle` -/
def ledToggle (led : LedData) : LedData × Bool :=
  let value := !led.gpio
  ({ led with
      gpio := value
      brightness := if led.brightness = brightnessFull then brightnessOff else brightnessFull },
    if led.activeLow then value else !value)

/-- `atomic_cmpxchg` -/
def atomicCmpxchg (word old new : LedState) : LedState := if word = old then new else word

/-! ### The tick of the control mode -/

/-- What `led_state_update` does to the pin.  `blinkSync` is `none` for a negative one. -/
def drive (counter : BitVec 32) (led : LedData) (state : LedState) (blinkSync : Option Bool) :
    LedData × Option Bool :=
  match state with
  | .unchanged => (led, blinkSync)
  | .on => (ledOn led, blinkSync)
  | .off => (ledOff led, blinkSync)
  | .toggle => ((ledToggle led).1, blinkSync)
  | .blinkonce => ((ledToggle led).1, blinkSync)
  | .slowblinks => (if counter % 8 = 0 then (ledToggle led).1 else led, blinkSync)
  | .blinks =>
    match blinkSync with
    | none => ((ledToggle led).1, some (ledToggle led).2)
    | some true => (ledOff led, blinkSync)
    | some false => (ledOn led, blinkSync)

/-- The command that `led_state_update` leaves for the next tick. -/
def LedState.next : LedState → Option LedState
  | blinkonce => some toggle
  | slowblinks => some slowblinks
  | blinks => some blinks
  | _ => none

/-- It leaves it if there is no command. -/
def requeue (led : LedData) (state : LedState) : LedData :=
  match state.next with
  | some next => { led with command := atomicCmpxchg led.command .unchanged next }
  | none => led

/-- The end of `led_state_update`, which `led_state_unchanged` does not come to. -/
def storeState (led : LedData) (state : LedState) : LedData :=
  if state = .unchanged then led else { led with state := state }

/-- `led_state_update` -/
def ledStateUpdate (counter : BitVec 32) (led : LedData) (state : LedState)
    (blinkSync : Option Bool) : LedData × Option Bool :=
  let driven := drive counter led state blinkSync
  (storeState (requeue driven.1 state) state, driven.2)

/-- The command word is cleared if it is still `state`. -/
def clearCommand (led : LedData) (state : LedState) : LedData :=
  { led with command := atomicCmpxchg led.command state .unchanged }

/-- A round of the loop of `leds_process_control`. -/
def processLed (counter : BitVec 32) (led : LedData) (blinkSync : Option Bool) :
    LedData × Option Bool :=
  let state := led.command
  ledStateUpdate counter (clearCommand led state) state blinkSync

/-- The loop of `leds_process_control`. -/
def processLeds (counter : BitVec 32) : Option Bool → List LedData → List LedData
  | _, [] => []
  | blinkSync, led :: leds =>
    let processed := processLed counter led blinkSync
    processed.1 :: processLeds counter processed.2 leds

/-! ### The device -/

/-- `enum led_mode` -/
inductive LedMode where
  | disable
  | control
  | downloading
  | burning
  | panic
  | demo
  deriving DecidableEq

/-- `struct leds_device`; the callback is that of the mode. -/
structure LedsDevice where
  counter : BitVec 32
  mode : LedMode
  leds : List LedData

/-- The numbers of `enum led_id` that the driver uses. -/
def ledIdAlarm : ℕ := 5
def ledIdRed : ℕ := 6
def ledIdGreen : ℕ := 7
def ledIdBlue : ℕ := 8
def ledIdLast : ℕ := 9

/-- `leds_process_control` -/
def ledsProcessControl (dev : LedsDevice) : LedsDevice :=
  { dev with leds := processLeds dev.counter none dev.leds }

/-- A function is applied to the LED of a number. -/
def LedsDevice.set (dev : LedsDevice) (id : ℕ) (f : LedData → LedData) : LedsDevice :=
  { dev with leds := dev.leds.modify id f }

/-- The LEDs up to `led_id_alarm` are switched off. -/
def servicesOff (dev : LedsDevice) : LedsDevice :=
  (List.range (ledIdAlarm + 1)).foldl (fun dev i => dev.set i ledOff) dev

/-- `leds_process_k2000` -/
def ledsProcessK2000 (dev : LedsDevice) : LedsDevice :=
  let i := dev.counter.toNat % 10
  (servicesOff dev).set (if i > 5 then 10 - i else i) ledOn

/-- The three colours of one LED. -/
def colour (dev : LedsDevice) (red green blue : LedData → LedData) : LedsDevice :=
  ((dev.set ledIdRed red).set ledIdGreen green).set ledIdBlue blue

/-- `leds_process_downloading` -/
def ledsProcessDownloading (dev : LedsDevice) : LedsDevice :=
  colour (ledsProcessK2000 dev) ledOn ledOn ledOff

/-- `leds_process_burning` -/
def ledsProcessBurning (dev : LedsDevice) : LedsDevice :=
  colour (ledsProcessK2000 dev) ledOn ledOff ledOff

/-- `leds_process_panic` -/
def ledsProcessPanic (dev : LedsDevice) : LedsDevice :=
  { dev with leds := dev.leds.map (if dev.counter &&& 1 ≠ 0 then ledOn else ledOff) }

/-- `leds_process_demo` -/
def ledsProcessDemo (dev : LedsDevice) : LedsDevice :=
  let i := dev.counter.toNat % 3
  let dev := servicesOff dev
  let dev :=
    if i = 0 then colour dev ledOn ledOff ledOff
    else if i = 1 then colour dev ledOff ledOn ledOff
    else colour dev ledOff ledOff ledOn
  (dev.set i ledOn).set (ledIdAlarm - i) ledOn

/-- `fn_leds_mode_process` -/
def modeProcess (dev : LedsDevice) : LedsDevice :=
  match dev.mode with
  | .disable => dev
  | .control => ledsProcessControl dev
  | .downloading => ledsProcessDownloading dev
  | .burning => ledsProcessBurning dev
  | .panic => ledsProcessPanic dev
  | .demo => ledsProcessDemo dev

/-- `leds_timer_function` -/
def ledsTimerFunction (dev : LedsDevice) : LedsDevice :=
  let dev := modeProcess dev
  { dev with counter := dev.counter + 1 }

/-- The state of an LED is restored, unless there is a command. -/
def restore (led : LedData) (state : LedState) : LedData :=
  { led with command := atomicCmpxchg led.command .unchanged state }

/-- `leds_set_mode` -/
def ledsSetMode (dev : LedsDevice) (mode : LedMode) : LedsDevice :=
  if mode = dev.mode then dev
  else if mode = .control then
    { counter := 0, mode := mode, leds := dev.leds.map fun led => restore led led.state }
  else { counter := 0, mode := mode, leds := dev.leds.map ledOff }

/-- `leds_config` -/
def ledsConfig (dev : LedsDevice) (id state : UInt8) : LedsDevice :=
  if id.toNat ≥ ledIdLast then dev
  else match LedState.all[state.toNat]? with
    | none => dev
    | some command => dev.set id.toNat fun led => { led with command := command }

/-! ### Operations -/

inductive LedsOp where
  | config (id state : UInt8)
  | tick
  | setMode (mode : LedMode)

def LedsOp.apply (dev : LedsDevice) : LedsOp → LedsDevice
  | config id state => ledsConfig dev id state
  | tick => ledsTimerFunction dev
  | setMode mode => ledsSetMode dev mode

end Neufbox.Leds
