import Neufbox.Leds.Driver
import Mathlib.Logic.Function.Basic

/-!
# Ticks, the switch and `leds_config` at the same time

The tick of the control mode, the loop of `leds_set_mode` that restores the states and the calls of
`leds_config` cut into their atomic steps, which may follow each other in any order.  A tick reads
the command of an LED, clears it if it is still the same, sets the pin and leaves the next command,
and stores the state; the switch loads the state of an LED and makes it the command if there is
none.

Beside the driver the state has, for each LED, the command that was set last and that no tick has
read since (`unread`), and the last command that a tick has read (`taken`).
-/

namespace Neufbox.Leds

open Function

/-- A command other than `led_state_unchanged`. -/
abbrev Command := { state : LedState // state ≠ .unchanged }

/-- Where the tick is: the number of the LED, the local `state` and `blink_sync`. -/
inductive TickAt where
  | idle
  | read (i : ℕ) (blinkSync : Option Bool)
  | clear (i : ℕ) (state : LedState) (blinkSync : Option Bool)
  | update (i : ℕ) (state : LedState) (blinkSync : Option Bool)
  | store (i : ℕ) (state : LedState) (blinkSync : Option Bool)

/-- Where the switch is: the number of the LED and the state that is loaded. -/
inductive SwitchAt where
  | idle
  | load (i : ℕ)
  | cas (i : ℕ) (state : LedState)

structure Atomic where
  counter : BitVec 32
  leds : ℕ → LedData
  tick : TickAt
  switch : SwitchAt
  unread : ℕ → Option LedState
  taken : ℕ → LedState

/-- What happens to a command word: a tick reads it, or the command that a blink leaves or a state
that is restored is put in it.  The events have the command that was `unread` and the one that was
`taken`. -/
inductive WordEvent where
  | read (word : LedState) (unread : Option LedState)
  | requeued (unread : Option LedState)
  | restored (state : LedState) (unread : Option LedState) (taken : LedState)

/-- The next step of the tick. -/
def tickStep (numLeds : ℕ) (s : Atomic) : Atomic × List WordEvent :=
  match s.tick with
  | .idle => ({ s with tick := .read 0 none }, [])
  | .read i blinkSync =>
    if i < numLeds then
      let word := (s.leds i).command
      ({ s with
          tick := .clear i word blinkSync
          unread := update s.unread i none
          taken := if word = .unchanged then s.taken else update s.taken i word },
        [.read word (s.unread i)])
    else ({ s with tick := .idle, counter := s.counter + 1 }, [])
  | .clear i state blinkSync =>
    ({ s with
        leds := update s.leds i (clearCommand (s.leds i) state)
        tick := .update i state blinkSync }, [])
  | .update i state blinkSync =>
    let driven := drive s.counter (s.leds i) state blinkSync
    let led := requeue driven.1 state
    ({ s with leds := update s.leds i led, tick := .store i state driven.2 },
      if led.command = (s.leds i).command then [] else [.requeued (s.unread i)])
  | .store i state blinkSync =>
    ({ s with
        leds := update s.leds i (storeState (s.leds i) state)
        tick := .read (i + 1) blinkSync }, [])

/-- The next step of the switch to the control mode. -/
def switchStep (numLeds : ℕ) (s : Atomic) : Atomic × List WordEvent :=
  match s.switch with
  | .idle => ({ s with switch := .load 0, counter := 0 }, [])
  | .load i =>
    if i < numLeds then ({ s with switch := .cas i (s.leds i).state }, [])
    else ({ s with switch := .idle }, [])
  | .cas i state =>
    let led := restore (s.leds i) state
    ({ s with leds := update s.leds i led, switch := .load (i + 1) },
      if led.command = (s.leds i).command then []
      else [.restored state (s.unread i) (s.taken i)])

/-- `leds_config` for an LED -/
def configStep (s : Atomic) (i : ℕ) (command : Command) : Atomic :=
  { s with
    leds := update s.leds i { s.leds i with command := command }
    unread := update s.unread i (some command) }

inductive AtomicOp where
  | tick
  | switch
  | config (i : ℕ) (command : Command)

def atomicStep (numLeds : ℕ) (s : Atomic) : AtomicOp → Atomic × List WordEvent
  | .tick => tickStep numLeds s
  | .switch => switchStep numLeds s
  | .config i command => (configStep s i command, [])

/-- Neither a tick nor the switch has begun; the commands there are have not been read. -/
def Atomic.start (counter : BitVec 32) (leds : ℕ → LedData) : Atomic where
  counter := counter
  leds := leds
  tick := .idle
  switch := .idle
  unread i := if (leds i).command = .unchanged then none else some (leds i).command
  taken i := (leds i).state

end Neufbox.Leds
