import Neufbox.Leds.Equiv.Led

/-!
# LEDs that blink together

In one tick the first LED with the command `blinks` is toggled, and what `led_toggle` returns makes
the others follow it, whatever their polarity.  `led_toggle` changes the brightness along with the
pin, so that it stays full on the LEDs that are lit (`blinks_in_phase`).
-/

namespace Neufbox.Leds

/-! ### The phase -/

variable (counter : BitVec 32)

/-- Only a `blinks` sets `blink_sync`. -/
theorem processLed_snd_of_ne {led : LedData} (h : led.command ≠ .blinks)
    (blinkSync : Option Bool) : (processLed counter led blinkSync).2 = blinkSync := by
  simp only [processLed, ledStateUpdate, drive]
  split
  case h_7 hblinks => exact absurd hblinks h
  all_goals rfl

theorem processLed_snd_some (led : LedData) (unlit : Bool) :
    (processLed counter led (some unlit)).2 = some unlit := by
  by_cases h : led.command = .blinks
  · cases unlit <;> simp [processLed, ledStateUpdate, drive, h]
  · exact processLed_snd_of_ne counter h _

/-- The first LED that blinks changes, and `blink_sync` says what has become of it. -/
theorem processLed_blinks_none {led : LedData} (h : led.command = .blinks) :
    (processLed counter led none).1.lit = !led.lit ∧
      (processLed counter led none).2 = some led.lit := by
  constructor
  · rw [lit_processLed, h]
    simp [drive]
  · simp only [processLed, ledStateUpdate, drive, h, ledToggle_snd]
    rfl

/-- An LED that follows. -/
theorem processLed_blinks_some {led : LedData} (h : led.command = .blinks)
    (unlit : Bool) : (processLed counter led (some unlit)).1.lit = !unlit := by
  rw [lit_processLed, h]
  cases unlit <;> simp [drive]

/-- The LEDs of a tick, before and after it. -/
def ticked (blinkSync : Option Bool) (leds : List LedData) :
    List (LedData × LedData) := leds.zip (processLeds counter blinkSync leds)

theorem ticked_cons (blinkSync : Option Bool) (led : LedData)
    (leds : List LedData) :
    ticked counter blinkSync (led :: leds)
      = (led, (processLed counter led blinkSync).1)
        :: ticked counter (processLed counter led blinkSync).2 leds := rfl

theorem length_processLeds (blinkSync : Option Bool) (leds : List LedData) :
    (processLeds counter blinkSync leds).length = leds.length := by
  induction leds generalizing blinkSync with
  | nil => rfl
  | cons led leds ih => rw [processLeds, List.length_cons, List.length_cons, ih]

/-- Once `blink_sync` is set, all LEDs that blink follow it. -/
theorem ticked_some (unlit : Bool) (leds : List LedData) :
    ∀ p ∈ ticked counter (some unlit) leds, p.1.command = .blinks → p.2.lit = !unlit := by
  induction leds with
  | nil => exact fun p hmem => nomatch hmem
  | cons led leds ih =>
    rw [ticked_cons, processLed_snd_some, List.forall_mem_cons]
    exact ⟨fun h => processLed_blinks_some counter h unlit, ih⟩

/-- The LEDs that blink have one phase, and the first of them has changed. -/
theorem ticked_none (leds : List LedData) :
    (∃ phase, ∀ p ∈ ticked counter none leds, p.1.command = .blinks → p.2.lit = phase) ∧
      ∀ p, (ticked counter none leds).find? (fun p => p.1.command = .blinks) = some p →
        p.2.lit = !p.1.lit := by
  induction leds with
  | nil => exact ⟨⟨false, fun p hmem => nomatch hmem⟩, fun p hfind => nomatch hfind⟩
  | cons led leds ih =>
    rw [ticked_cons]
    by_cases h : led.command = .blinks
    · obtain ⟨hlit, hsync⟩ := processLed_blinks_none counter h
      rw [hsync]
      refine ⟨⟨!led.lit, List.forall_mem_cons.mpr ⟨fun _ => hlit, ?_⟩⟩, ?_⟩
      · exact ticked_some counter led.lit leds
      · intro p hfind
        rw [List.find?_cons_of_pos (by simpa using h), Option.some.injEq] at hfind
        rw [← hfind]
        exact hlit
    · rw [processLed_snd_of_ne counter h]
      obtain ⟨⟨phase, hphase⟩, hfirst⟩ := ih
      refine ⟨⟨phase, List.forall_mem_cons.mpr ⟨fun hblinks => absurd hblinks h, hphase⟩⟩, ?_⟩
      intro p hfind
      rw [List.find?_cons_of_neg (by simpa using h)] at hfind
      exact hfirst p hfind

/-! ### Brightness -/

/-- The brightness is full exactly if the LED is lit. -/
def LedData.Shines (led : LedData) : Prop := led.brightness = brightnessFull ↔ led.lit = true

theorem shines_ledOn (led : LedData) : (ledOn led).Shines :=
  iff_of_true rfl (lit_ledOn led)

theorem shines_ledOff (led : LedData) : (ledOff led).Shines := by
  have hoff : brightnessOff ≠ brightnessFull := by decide
  exact iff_of_false hoff (by simp)

theorem shines_ledToggle {led : LedData} (h : led.Shines) : (ledToggle led).1.Shines := by
  rw [LedData.Shines, lit_ledToggle]
  show (if led.brightness = brightnessFull then brightnessOff else brightnessFull)
    = brightnessFull ↔ _
  by_cases hlit : led.lit = true
  · rw [if_pos (h.mpr hlit), hlit]
    decide
  · have hdark : led.brightness ≠ brightnessFull := fun hfull => hlit (h.mp hfull)
    rw [if_neg hdark, Bool.not_eq_true _ |>.mp hlit]
    decide

/-- Nothing else reads the brightness. -/
theorem shines_drive {led : LedData} (h : led.Shines) (counter : BitVec 32) (state : LedState)
    (blinkSync : Option Bool) : (drive counter led state blinkSync).1.Shines := by
  cases state with
  | unchanged => exact h
  | off => exact shines_ledOff led
  | on => exact shines_ledOn led
  | toggle => exact shines_ledToggle h
  | blinkonce => exact shines_ledToggle h
  | slowblinks =>
    show (if counter % 8 = 0 then (ledToggle led).1 else led).Shines
    split_ifs
    · exact shines_ledToggle h
    · exact h
  | blinks =>
    match blinkSync with
    | none => exact shines_ledToggle h
    | some true => exact shines_ledOff led
    | some false => exact shines_ledOn led

theorem shines_processLed {led : LedData} (h : led.Shines) (counter : BitVec 32)
    (blinkSync : Option Bool) : (processLed counter led blinkSync).1.Shines := by
  have hdrive : (drive counter (clearCommand led led.command) led.command blinkSync).1.Shines :=
    @shines_drive (clearCommand led led.command) h counter led.command blinkSync
  have hbrightness : ∀ (led : LedData) (state : LedState),
      (storeState (requeue led state) state).brightness = led.brightness := by
    intro led state
    rw [storeState, requeue]
    split_ifs <;> split <;> rfl
  rw [LedData.Shines, lit_processLed]
  show (storeState (requeue _ _) _).brightness = brightnessFull ↔ _
  rw [hbrightness]
  exact hdrive

theorem shines_processLeds {leds : List LedData} (h : ∀ led ∈ leds, led.Shines)
    (counter : BitVec 32) (blinkSync : Option Bool) :
    ∀ led ∈ processLeds counter blinkSync leds, led.Shines := by
  induction leds generalizing blinkSync with
  | nil => exact fun led hmem => nomatch hmem
  | cons led leds ih =>
    obtain ⟨hled, hleds⟩ := List.forall_mem_cons.mp h
    rw [processLeds, List.forall_mem_cons]
    exact ⟨shines_processLed hled counter blinkSync, ih hleds _⟩

/-! ### The other operations -/

theorem shines_set {dev : LedsDevice} (h : ∀ led ∈ dev.leds, led.Shines) (id : ℕ)
    {f : LedData → LedData} (hf : ∀ led : LedData, led.Shines → (f led).Shines) :
    ∀ led ∈ (dev.set id f).leds, led.Shines := by
  intro led hmem
  obtain ⟨i, hi⟩ := List.mem_iff_getElem?.mp hmem
  rw [LedsDevice.set, List.getElem?_modify, Option.map_eq_map, Option.map_eq_some_iff] at hi
  obtain ⟨led', hled', rfl⟩ := hi
  have hshines : led'.Shines := h led' (List.mem_of_getElem? hled')
  split_ifs
  · exact hf led' hshines
  · exact hshines

theorem shines_servicesOff {dev : LedsDevice} (h : ∀ led ∈ dev.leds, led.Shines) :
    ∀ led ∈ (servicesOff dev).leds, led.Shines := by
  rw [servicesOff]
  generalize List.range (ledIdAlarm + 1) = ids
  induction ids generalizing dev with
  | nil => exact h
  | cons id ids ih => exact ih (shines_set h id fun led _ => shines_ledOff led)

theorem shines_colour {dev : LedsDevice} (h : ∀ led ∈ dev.leds, led.Shines)
    {red green blue : LedData → LedData} (hred : ∀ led : LedData, led.Shines → (red led).Shines)
    (hgreen : ∀ led : LedData, led.Shines → (green led).Shines)
    (hblue : ∀ led : LedData, led.Shines → (blue led).Shines) :
    ∀ led ∈ (colour dev red green blue).leds, led.Shines :=
  shines_set (shines_set (shines_set h _ hred) _ hgreen) _ hblue

theorem shines_modeProcess {dev : LedsDevice} (h : ∀ led ∈ dev.leds, led.Shines) :
    ∀ led ∈ (modeProcess dev).leds, led.Shines := by
  have hon : ∀ led : LedData, led.Shines → (ledOn led).Shines := fun led _ => shines_ledOn led
  have hoff : ∀ led : LedData, led.Shines → (ledOff led).Shines := fun led _ => shines_ledOff led
  have hk2000 : ∀ led ∈ (ledsProcessK2000 dev).leds, led.Shines :=
    shines_set (shines_servicesOff h) _ hon
  rw [modeProcess]
  cases dev.mode with
  | disable => exact h
  | control => exact shines_processLeds h dev.counter none
  | downloading => exact shines_colour hk2000 hon hon hoff
  | burning => exact shines_colour hk2000 hon hoff hoff
  | panic =>
    show ∀ led ∈ dev.leds.map (if dev.counter &&& 1 ≠ 0 then ledOn else ledOff), led.Shines
    rw [List.forall_mem_map]
    intro led _
    split_ifs
    · exact shines_ledOn led
    · exact shines_ledOff led
  | demo =>
    refine shines_set (shines_set ?_ _ hon) _ hon
    have hservices := shines_servicesOff h
    split_ifs
    · exact shines_colour hservices hon hoff hoff
    · exact shines_colour hservices hoff hon hoff
    · exact shines_colour hservices hoff hoff hon

theorem shines_apply {dev : LedsDevice} (h : ∀ led ∈ dev.leds, led.Shines) (op : LedsOp) :
    ∀ led ∈ (op.apply dev).leds, led.Shines := by
  cases op with
  | config id state =>
    show ∀ led ∈ (ledsConfig dev id state).leds, led.Shines
    rw [ledsConfig]
    split_ifs
    · exact h
    · split
      · exact h
      · exact shines_set h _ fun led hled => hled
  | tick => exact shines_modeProcess h
  | setMode mode =>
    show ∀ led ∈ (ledsSetMode dev mode).leds, led.Shines
    rw [ledsSetMode]
    split_ifs
    · exact h
    · exact List.forall_mem_map.mpr h
    · exact List.forall_mem_map.mpr fun led _ => shines_ledOff led

/-- The brightness is full exactly on the LEDs that are lit, all along a run. -/
theorem shines_foldl {dev : LedsDevice} (h : ∀ led ∈ dev.leds, led.Shines) (ops : List LedsOp) :
    ∀ led ∈ (ops.foldl LedsOp.apply dev).leds, led.Shines := by
  induction ops generalizing dev with
  | nil => exact h
  | cons op ops ih => exact ih (shines_apply h op)

/-- **Blinking in phase.**  For all LEDs whose brightness is full exactly if they are lit, every
counter and all operations, after a tick of the control mode the LEDs that had the command `blinks`
are all lit or all unlit, the first of them has changed, and the brightness is full exactly on the
LEDs that are lit. -/
theorem blinks_in_phase (dev : LedsDevice) (hshines : ∀ led ∈ dev.leds, led.Shines)
    (ops : List LedsOp) (hmode : (ops.foldl LedsOp.apply dev).mode = .control) :
    let leds := (ops.foldl LedsOp.apply dev).leds
    let after := (ledsTimerFunction (ops.foldl LedsOp.apply dev)).leds
    after.length = leds.length ∧
      (∃ phase, ∀ p ∈ leds.zip after, p.1.command = .blinks → p.2.lit = phase) ∧
      (∀ p, (leds.zip after).find? (fun p => p.1.command = .blinks) = some p →
        p.2.lit = !p.1.lit) ∧
      ∀ led ∈ after, led.Shines := by
  have hafter : (ledsTimerFunction (ops.foldl LedsOp.apply dev)).leds
      = processLeds (ops.foldl LedsOp.apply dev).counter none
        (ops.foldl LedsOp.apply dev).leds := by
    rw [ledsTimerFunction, modeProcess, hmode]
    rfl
  dsimp only
  rw [hafter]
  obtain ⟨hphase, hfirst⟩ := ticked_none (ops.foldl LedsOp.apply dev).counter
    (ops.foldl LedsOp.apply dev).leds
  exact ⟨length_processLeds .., hphase, hfirst,
    shines_processLeds (shines_foldl hshines ops) _ none⟩

/-- Two LEDs of either polarity, one lit and one not, that are told to blink. -/
theorem blinks_in_phase_two :
    ∃ phase, ∀ p ∈ ([⟨true, true, 0, .blinks, .off⟩, ⟨false, true, 255, .blinks, .off⟩] :
        List LedData).zip (ledsTimerFunction ⟨0, .control,
          [⟨true, true, 0, .blinks, .off⟩, ⟨false, true, 255, .blinks, .off⟩]⟩).leds,
      p.1.command = .blinks → p.2.lit = phase :=
  (blinks_in_phase ⟨0, .control, [⟨true, true, 0, .blinks, .off⟩,
    ⟨false, true, 255, .blinks, .off⟩]⟩ (by simp [LedData.Shines, LedData.lit, brightnessFull])
    [] rfl).2.1

end Neufbox.Leds
