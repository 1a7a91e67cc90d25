import Neufbox.Leds.Driver

/-!
# What the functions do to an LED

The pin, the command and the state of an LED after each of the functions that a tick is made of.
-/

namespace Neufbox.Leds

/-! ### Pins -/

variable (led : LedData)

@[simp] theorem lit_ledOn : (ledOn led).lit = true := by
  cases h : led.activeLow <;> simp [ledOn, LedData.lit, h]

@[simp] theorem lit_ledOff : (ledOff led).lit = false := by
  simp [ledOff, LedData.lit]

@[simp] theorem lit_ledToggle : (ledToggle led).1.lit = !led.lit := by
  cases hgpio : led.gpio <;> cases hlow : led.activeLow <;>
    simp [ledToggle, LedData.lit, hgpio, hlow]

/-- What `led_toggle` returns is whether the LED is unlit now. -/
theorem ledToggle_snd : (ledToggle led).2 = led.lit := by
  cases hgpio : led.gpio <;> cases hlow : led.activeLow <;>
    simp [ledToggle, LedData.lit, hgpio, hlow]

@[simp] theorem lit_requeue (state : LedState) :
    (requeue led state).lit = led.lit := by
  rw [requeue]
  split <;> rfl

@[simp] theorem lit_storeState (state : LedState) :
    (storeState led state).lit = led.lit := by
  rw [storeState]
  split_ifs <;> rfl

@[simp] theorem lit_clearCommand (state : LedState) :
    (clearCommand led state).lit = led.lit := rfl

/-- A round sets the pin as `led_state_update` does. -/
theorem lit_processLed (counter : BitVec 32) (led : LedData) (blinkSync : Option Bool) :
    (processLed counter led blinkSync).1.lit
      = (drive counter (clearCommand led led.command) led.command blinkSync).1.lit := by
  simp [processLed, ledStateUpdate]

/-! ### Words -/

/-- A command that is there is not replaced. -/
theorem atomicCmpxchg_of_ne {word old : LedState} (h : word ≠ old) (new : LedState) :
    atomicCmpxchg word old new = word := if_neg h

theorem words_drive (counter : BitVec 32) (led : LedData) (state : LedState)
    (blinkSync : Option Bool) :
    (drive counter led state blinkSync).1.command = led.command ∧
      (drive counter led state blinkSync).1.state = led.state := by
  cases state with
  | slowblinks =>
    show (if counter % 8 = 0 then (ledToggle led).1 else led).command = led.command ∧
      (if counter % 8 = 0 then (ledToggle led).1 else led).state = led.state
    split_ifs <;> exact ⟨rfl, rfl⟩
  | blinks => rcases blinkSync with _ | _ | _ <;> exact ⟨rfl, rfl⟩
  | _ => exact ⟨rfl, rfl⟩

theorem command_requeue {led : LedData} (h : led.command ≠ .unchanged) (state : LedState) :
    (requeue led state).command = led.command := by
  rw [requeue]
  split
  · exact atomicCmpxchg_of_ne h _
  · rfl

theorem state_requeue (state : LedState) :
    (requeue led state).state = led.state := by
  rw [requeue]
  split <;> rfl

theorem command_storeState (state : LedState) :
    (storeState led state).command = led.command := by
  rw [storeState]
  split_ifs <;> rfl

/-- The command that a round leaves. -/
theorem command_processLed (counter : BitVec 32) (led : LedData) (blinkSync : Option Bool) :
    (processLed counter led blinkSync).1.command = led.command.next.getD .unchanged := by
  rw [processLed, ledStateUpdate, command_storeState, requeue]
  cases hnext : led.command.next with
  | none => simp [words_drive, clearCommand, atomicCmpxchg]
  | some next => simp [words_drive, clearCommand, atomicCmpxchg]

/-- The state that a round stores. -/
theorem state_processLed (counter : BitVec 32) (led : LedData) (h : led.command ≠ .unchanged)
    (blinkSync : Option Bool) : (processLed counter led blinkSync).1.state = led.command := by
  simp [processLed, ledStateUpdate, storeState, h]

theorem processLed_unchanged (counter : BitVec 32) {led : LedData} (h : led.command = .unchanged)
    (blinkSync : Option Bool) : (processLed counter led blinkSync).1 = led := by
  cases led with
  | mk activeLow gpio brightness command state =>
    obtain rfl : command = .unchanged := h
    rfl

end Neufbox.Leds
