import Neufbox.Leds.Equiv.Led
import Mathlib.Logic.Function.Iterate

/-!
# Leaving the control mode and coming back

The switch back to the control mode makes the state that was last processed the command again.  For
`on` and `off` that is the command itself.  A `blinkonce` is processed as itself and then as a
`toggle`, and what is restored is the `toggle`: it puts the LED back exactly if the other mode has
left it changed (`control_restores_iff`).
-/

namespace Neufbox.Leds

/-! ### Runs in the control mode -/

variable (dev : LedsDevice)

inductive ControlOp where
  | config (id state : UInt8)
  | tick

def ControlOp.apply : ControlOp → LedsDevice
  | config id state => ledsConfig dev id state
  | tick => ledsTimerFunction dev

def runControl (ops : List ControlOp) : LedsDevice :=
  ops.foldl ControlOp.apply dev

/-- The command that `leds_config` sets for an LED. -/
def configured (i : ℕ) (id state : UInt8) : Option LedState :=
  if id.toNat = i ∧ id.toNat < ledIdLast then LedState.all[state.toNat]? else none

/-- The last command of an LED after an operation, if it was `last` before. -/
def ControlOp.command (i : ℕ) (last : Option LedState) : ControlOp → Option LedState
  | config id state => (configured i id state).or last
  | tick => last

/-- The last command of an LED. -/
def lastCommand (i : ℕ) (ops : List ControlOp) : Option LedState :=
  ops.foldl (ControlOp.command i) none

/-- Whether an LED is lit. -/
def litAt (i : ℕ) : Option Bool := dev.leds[i]?.map LedData.lit

/-! ### One LED in a tick -/

theorem getElem?_processLeds (counter : BitVec 32) (blinkSync : Option Bool)
    (leds : List LedData) (i : ℕ) :
    ∃ blinkSync', (processLeds counter blinkSync leds)[i]?
      = leds[i]?.map fun led => (processLed counter led blinkSync').1 := by
  induction leds generalizing blinkSync i with
  | nil => exact ⟨none, rfl⟩
  | cons led leds ih =>
    cases i with
    | zero => exact ⟨blinkSync, rfl⟩
    | succ i =>
      obtain ⟨blinkSync', heq⟩ := ih (processLed counter led blinkSync).2 i
      exact ⟨blinkSync', heq⟩

/-- A tick of the control mode is a round for each LED. -/
theorem getElem?_tick_control (hmode : dev.mode = .control) (i : ℕ) :
    ∃ blinkSync, (ledsTimerFunction dev).leds[i]?
      = dev.leds[i]?.map fun led => (processLed dev.counter led blinkSync).1 := by
  obtain ⟨blinkSync, heq⟩ := getElem?_processLeds dev.counter none dev.leds i
  refine ⟨blinkSync, ?_⟩
  rw [ledsTimerFunction, modeProcess, hmode]
  exact heq

/-- `leds_config`, for one LED. -/
theorem getElem?_ledsConfig (id state : UInt8) (i : ℕ) :
    (ledsConfig dev id state).leds[i]?
      = dev.leds[i]?.map fun led =>
          { led with command := (configured i id state).getD led.command } := by
  have hsame : dev.leds[i]? = dev.leds[i]?.map fun led =>
      { led with command := (none : Option LedState).getD led.command } := by
    cases dev.leds[i]? <;> rfl
  rw [ledsConfig, configured]
  by_cases hlast : id.toNat ≥ ledIdLast
  · rw [if_pos hlast, if_neg fun hand => absurd hand.2 (Nat.not_lt.mpr hlast)]
    exact hsame
  · rw [if_neg hlast]
    by_cases hid : id.toNat = i
    · rw [if_pos ⟨hid, Nat.not_le.mp hlast⟩]
      cases LedState.all[state.toNat]? with
      | none => exact hsame
      | some command => simp [LedsDevice.set, hid]
    · rw [if_neg fun hand => hid hand.1]
      cases LedState.all[state.toNat]? with
      | none => exact hsame
      | some command =>
        show (dev.leds.modify id.toNat _)[i]? = _
        rw [List.getElem?_modify_ne _ _ hid]
        exact hsame

/-! ### Where an LED is with its last command -/

/-- An LED whose last command is `on`, `off` or `blinkonce`. -/
def Processing (last : LedState) (led : LedData) : Prop :=
  match last with
  | .on => led.command = .on ∨ led.command = .unchanged ∧ led.state = .on ∧ led.lit = true
  | .off => led.command = .off ∨ led.command = .unchanged ∧ led.state = .off ∧ led.lit = false
  | .blinkonce =>
    led.command = .blinkonce ∨ led.command = .toggle ∨
      led.command = .unchanged ∧ led.state = .toggle
  | _ => True

theorem processing_of_command {last : LedState} {led : LedData} (h : led.command = last) :
    Processing last led := by
  subst h
  cases hcommand : led.command <;> simp [Processing, hcommand]

theorem Processing.processLed {last : LedState} {led : LedData} (h : Processing last led)
    (counter : BitVec 32) (blinkSync : Option Bool) :
    Processing last (Leds.processLed counter led blinkSync).1 := by
  -- A command that is processed leaves another or none; without one nothing changes.
  have hcommand := command_processLed counter led blinkSync
  have hlit := lit_processLed counter led blinkSync
  cases last with
  | on =>
    rcases h with h | h
    · right
      have hstate := state_processLed counter led (by simp [h]) blinkSync
      rw [h] at hcommand hstate hlit
      exact ⟨hcommand, hstate, hlit.trans (lit_ledOn _)⟩
    · rw [processLed_unchanged counter h.1]
      exact .inr h
  | off =>
    rcases h with h | h
    · right
      have hstate := state_processLed counter led (by simp [h]) blinkSync
      rw [h] at hcommand hstate hlit
      exact ⟨hcommand, hstate, hlit.trans (lit_ledOff _)⟩
    · rw [processLed_unchanged counter h.1]
      exact .inr h
  | blinkonce =>
    rcases h with h | h | h
    · rw [h] at hcommand
      exact .inr (.inl hcommand)
    · have hstate := state_processLed counter led (by simp [h]) blinkSync
      rw [h] at hcommand hstate
      exact .inr (.inr ⟨hcommand, hstate⟩)
    · rw [processLed_unchanged counter h.1]
      exact .inr (.inr h)
  | _ => trivial

theorem mode_servicesOff : (servicesOff dev).mode = dev.mode := by
  rw [servicesOff]
  generalize List.range (ledIdAlarm + 1) = ids
  induction ids generalizing dev with
  | nil => rfl
  | cons id ids ih => exact ih _

theorem mode_tick : (ledsTimerFunction dev).mode = dev.mode := by
  show (modeProcess dev).mode = dev.mode
  rw [modeProcess]
  cases h : dev.mode with
  | disable => exact h
  | control => exact h
  | downloading => exact (mode_servicesOff dev).trans h
  | burning => exact (mode_servicesOff dev).trans h
  | panic => exact h
  | demo =>
    show (ledsProcessDemo dev).mode = .demo
    simp only [ledsProcessDemo, LedsDevice.set]
    split_ifs <;> exact (mode_servicesOff dev).trans h

theorem mode_apply_control {dev : LedsDevice} (h : dev.mode = .control) (op : ControlOp) :
    (op.apply dev).mode = .control := by
  cases op with
  | config id state =>
    show (ledsConfig dev id state).mode = .control
    rw [ledsConfig]
    split_ifs
    · exact h
    · split <;> exact h
  | tick => exact (mode_tick dev).trans h

/-- One operation, for one LED. -/
theorem processing_apply {dev : LedsDevice} (hmode : dev.mode = .control) {i : ℕ}
    {last : Option LedState} (h : ∀ c ∈ last, ∀ led ∈ dev.leds[i]?, Processing c led)
    (op : ControlOp) :
    ∀ c ∈ op.command i last, ∀ led ∈ (op.apply dev).leds[i]?, Processing c led := by
  intro c hc led hled
  cases op with
  | tick =>
    obtain ⟨blinkSync, heq⟩ := getElem?_tick_control dev hmode i
    obtain ⟨led', hled', rfl⟩ := Option.map_eq_some_iff.mp (heq.symm.trans hled)
    exact (h c hc led' hled').processLed _ _
  | config id state =>
    obtain ⟨led', hled', rfl⟩ :=
      Option.map_eq_some_iff.mp ((getElem?_ledsConfig dev id state i).symm.trans hled)
    rw [ControlOp.command] at hc
    cases hset : configured i id state with
    | some command =>
      rw [hset, Option.some_or] at hc
      obtain rfl := Option.some.inj hc
      exact processing_of_command rfl
    | none =>
      rw [hset, Option.none_or] at hc
      exact h c hc led' hled'

theorem processing_runControl {dev : LedsDevice} (hmode : dev.mode = .control)
    (ops : List ControlOp) (i : ℕ) :
    (runControl dev ops).mode = .control ∧
      ∀ c ∈ lastCommand i ops, ∀ led ∈ (runControl dev ops).leds[i]?, Processing c led := by
  have hrun : ∀ (ops : List ControlOp) (dev : LedsDevice) (last : Option LedState),
      dev.mode = .control → (∀ c ∈ last, ∀ led ∈ dev.leds[i]?, Processing c led) →
      (ops.foldl ControlOp.apply dev).mode = .control ∧
        ∀ c ∈ ops.foldl (ControlOp.command i) last,
          ∀ led ∈ (ops.foldl ControlOp.apply dev).leds[i]?, Processing c led := by
    intro ops
    induction ops with
    | nil => exact fun dev last hmode h => ⟨hmode, h⟩
    | cons op ops ih =>
      intro dev last hmode h
      exact ih _ _ (mode_apply_control hmode op) (processing_apply hmode h op)
  exact hrun ops dev none hmode fun c hc => nomatch hc

/-! ### The other modes -/

/-- The command and the state of an LED. -/
def LedData.words (led : LedData) : LedState × LedState := (led.command, led.state)

def words : List (LedState × LedState) := dev.leds.map LedData.words

theorem words_ledOn (led : LedData) : (ledOn led).words = led.words := rfl

theorem words_ledOff (led : LedData) : (ledOff led).words = led.words := rfl

theorem words_set (id : ℕ) {f : LedData → LedData}
    (hf : ∀ led, (f led).words = led.words) : words (dev.set id f) = words dev := by
  apply List.ext_getElem?
  intro i
  rw [words, words, LedsDevice.set, List.getElem?_map, List.getElem?_map, List.getElem?_modify]
  cases dev.leds[i]? with
  | none => rfl
  | some led =>
    simp only [Option.map_eq_map, Option.map_some]
    split_ifs
    · rw [hf]
    · rfl

theorem words_servicesOff : words (servicesOff dev) = words dev := by
  rw [servicesOff]
  generalize List.range (ledIdAlarm + 1) = ids
  induction ids generalizing dev with
  | nil => rfl
  | cons id ids ih => exact (ih _).trans (words_set dev id words_ledOff)

theorem words_colour {red green blue : LedData → LedData}
    (hred : ∀ led, (red led).words = led.words) (hgreen : ∀ led, (green led).words = led.words)
    (hblue : ∀ led, (blue led).words = led.words) :
    words (colour dev red green blue) = words dev := by
  rw [colour, words_set _ _ hblue, words_set _ _ hgreen, words_set _ _ hred]

theorem words_ledsProcessK2000 : words (ledsProcessK2000 dev) = words dev := by
  rw [ledsProcessK2000, words_set _ _ words_ledOn, words_servicesOff]

theorem words_map {f : LedData → LedData} (hf : ∀ led, (f led).words = led.words)
    (counter : BitVec 32) (mode : LedMode) :
    words ⟨counter, mode, dev.leds.map f⟩ = words dev := by
  rw [words, words, List.map_map]
  exact List.map_congr_left fun led _ => hf led

/-- A tick of another mode sets only pins. -/
theorem words_tick {dev : LedsDevice} (hmode : dev.mode ≠ .control) :
    words (ledsTimerFunction dev) = words dev := by
  show words (modeProcess dev) = words dev
  rw [modeProcess]
  cases h : dev.mode with
  | control => exact absurd h hmode
  | disable => rfl
  | downloading =>
    exact (words_colour _ words_ledOn words_ledOn words_ledOff).trans (words_ledsProcessK2000 dev)
  | burning =>
    exact (words_colour _ words_ledOn words_ledOff words_ledOff).trans (words_ledsProcessK2000 dev)
  | panic =>
    apply words_map
    intro led
    split_ifs <;> rfl
  | demo =>
    show words (ledsProcessDemo dev) = words dev
    rw [ledsProcessDemo, words_set _ _ words_ledOn, words_set _ _ words_ledOn]
    split_ifs
    · rw [words_colour _ words_ledOn words_ledOff words_ledOff, words_servicesOff]
    · rw [words_colour _ words_ledOff words_ledOn words_ledOff, words_servicesOff]
    · rw [words_colour _ words_ledOff words_ledOff words_ledOn, words_servicesOff]

theorem words_iterate_tick (hmode : dev.mode ≠ .control) (n : ℕ) :
    words (ledsTimerFunction^[n] dev) = words dev ∧
      (ledsTimerFunction^[n] dev).mode = dev.mode := by
  induction n with
  | zero => exact ⟨rfl, rfl⟩
  | succ n ih =>
    obtain ⟨hwords, hsame⟩ := ih
    rw [Function.iterate_succ_apply']
    refine ⟨(words_tick ?_).trans hwords, (mode_tick _).trans hsame⟩
    rwa [hsame]

/-! ### Coming back -/

theorem getElem?_words {dev : LedsDevice} {i : ℕ} {led : LedData} (h : dev.leds[i]? = some led) :
    (words dev)[i]? = some led.words := by
  rw [words, List.getElem?_map, h, Option.map_some]

/-- The switch to another mode and the ticks there leave the command and the state. -/
theorem words_other {dev : LedsDevice} {mode : LedMode} (hmode : dev.mode = .control)
    (hother : mode ≠ .control) (n : ℕ) :
    words (ledsTimerFunction^[n] (ledsSetMode dev mode)) = words dev ∧
      (ledsTimerFunction^[n] (ledsSetMode dev mode)).mode = mode := by
  have hset : ledsSetMode dev mode = ⟨0, mode, dev.leds.map ledOff⟩ := by
    rw [ledsSetMode, if_neg fun heq => hother (heq.trans hmode), if_neg hother]
  rw [hset]
  obtain ⟨hwords, hsame⟩ := words_iterate_tick ⟨0, mode, dev.leds.map ledOff⟩ hother n
  exact ⟨hwords.trans (words_map dev words_ledOff 0 mode), hsame⟩

/-- An LED without a command that comes back to the control mode has its state processed. -/
theorem litAt_back {dev : LedsDevice} (hmode : dev.mode ≠ .control) {i : ℕ} {led : LedData}
    (hled : dev.leds[i]? = some led) (hcommand : led.command = .unchanged) :
    ∃ blinkSync, litAt (ledsTimerFunction (ledsSetMode dev .control)) i
      = some (drive 0 led led.state blinkSync).1.lit := by
  have hset : ledsSetMode dev .control
      = ⟨0, .control, dev.leds.map fun led => restore led led.state⟩ := by
    rw [ledsSetMode, if_neg fun heq => hmode heq.symm, if_pos rfl]
  obtain ⟨blinkSync, heq⟩ := getElem?_tick_control
    ⟨0, .control, dev.leds.map fun led => restore led led.state⟩ rfl i
  refine ⟨blinkSync, ?_⟩
  rw [hset, litAt, heq, List.getElem?_map, hled, Option.map_some, Option.map_some,
    Option.map_some, lit_processLed]
  have hrestored : (restore led led.state).command = led.state := by
    simp [restore, atomicCmpxchg, hcommand]
  have hcleared : clearCommand (restore led led.state) (restore led led.state).command = led := by
    cases led with
    | mk activeLow gpio brightness command state =>
      obtain rfl : command = .unchanged := hcommand
      simp [clearCommand, restore, atomicCmpxchg]
  rw [hcleared, hrestored]

/-- **Leaving the control mode and coming back.**  For every sequence of commands and ticks in the
control mode, an LED that has no command left and whose last one was `on`, `off` or `blinkonce`,
every other mode and any number of ticks there: one tick after the switch back the LED is as it was,
exactly if after a `blinkonce` the other mode has left it changed. -/
theorem control_restores_iff {dev : LedsDevice} (hmode : dev.mode = .control)
    (ops : List ControlOp) {i : ℕ} {last : LedState} (hlast : lastCommand i ops = some last)
    (hkind : last = .on ∨ last = .off ∨ last = .blinkonce) {led : LedData}
    (hled : (runControl dev ops).leds[i]? = some led) (hpending : led.command = .unchanged)
    {mode : LedMode} (hother : mode ≠ .control) (n : ℕ) :
    let before := runControl dev ops
    let other := ledsTimerFunction^[n] (ledsSetMode before mode)
    let back := ledsTimerFunction (ledsSetMode other .control)
    litAt back i = litAt before i ↔ (last = .blinkonce → litAt other i ≠ litAt before i) := by
  intro before other back
  obtain ⟨hcontrol, hprocessing⟩ := processing_runControl hmode ops i
  have hled' : Processing last led := hprocessing last hlast led hled
  obtain ⟨hwords, hmode'⟩ := words_other hcontrol hother n
  -- The LED at the end of the other mode.
  obtain ⟨led', hled'', hwords'⟩ : ∃ led', other.leds[i]? = some led' ∧ led'.words = led.words := by
    have hget : (words other)[i]? = some led.words := by
      rw [hwords]
      exact getElem?_words hled
    rw [words, List.getElem?_map] at hget
    exact Option.map_eq_some_iff.mp hget
  obtain ⟨hcommand, hstate⟩ := Prod.mk.inj hwords'
  obtain ⟨blinkSync, hback⟩ :=
    litAt_back (hmode' ▸ hother) hled'' (hcommand.trans hpending)
  have hbefore : litAt before i = some led.lit := by rw [litAt, hled, Option.map_some]
  have hthere : litAt other i = some led'.lit := by rw [litAt, hled'', Option.map_some]
  rw [hbefore, hthere, show litAt back i = _ from hback, hstate]
  rcases hkind with rfl | rfl | rfl
  · obtain ⟨-, hon, hlit⟩ := hled'.resolve_left (by simp [hpending])
    rw [hon, hlit]
    simp [drive]
  · obtain ⟨-, hoff, hlit⟩ := hled'.resolve_left (by simp [hpending])
    rw [hoff, hlit]
    simp [drive]
  · obtain ⟨-, htoggle⟩ :=
      (hled'.resolve_left (by simp [hpending])).resolve_left (by simp [hpending])
    rw [htoggle]
    cases led.lit <;> cases hlit : led'.lit <;> simp [drive, hlit]

/-- An LED that is switched on: it is lit again. -/
theorem control_restores_on :
    litAt (ledsTimerFunction (ledsSetMode (ledsTimerFunction^[2]
        (ledsSetMode (runControl ⟨0, .control, [⟨false, false, 0, .unchanged, .off⟩]⟩
          [.config 0 2, .tick]) .panic)) .control)) 0
      = litAt (runControl ⟨0, .control, [⟨false, false, 0, .unchanged, .off⟩]⟩
          [.config 0 2, .tick]) 0 :=
  (@control_restores_iff ⟨0, .control, [⟨false, false, 0, .unchanged, .off⟩]⟩ rfl
    [.config 0 2, .tick] 0 .on rfl (.inl rfl) ⟨false, true, 255, .unchanged, .on⟩ rfl rfl
    .panic (by decide) 2).mpr fun h => nomatch h

/-- An LED that was told to blink once and is unlit again: the mode `disable` leaves it unlit, and
one tick after the switch back it is lit. -/
theorem control_does_not_restore :
    litAt (runControl ⟨0, .control, [⟨false, false, 0, .unchanged, .off⟩]⟩
        [.config 0 4, .tick, .tick]) 0 = some false ∧
      litAt (ledsTimerFunction (ledsSetMode
        (ledsSetMode (runControl ⟨0, .control, [⟨false, false, 0, .unchanged, .off⟩]⟩
          [.config 0 4, .tick, .tick]) .disable) .control)) 0 = some true := by
  decide

end Neufbox.Leds
