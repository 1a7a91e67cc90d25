import Neufbox.Leds.Atomic
import Neufbox.Leds.Equiv.Led
import Neufbox.Lib.Run

/-!
# No command of an LED is lost

The compare-and-exchange that clears the word, the one that leaves the next command of a blink and
the one that restores a state keep a command that was set meanwhile, except in three cases:

* the command that is set between the read and the clear is the one that was read: it is cleared,
  and processed once;
* the switch loads the state of an LED while a tick has its next one in hand;
* a tick takes a command between the load of the state and the compare-and-exchange: the older state
  is restored.

Without them every command is applied, and nothing older comes after it (`commands_kept`).
-/

namespace Neufbox.Leds

open Machine Function

/-- A tick applies the command that was set last, if it is still unread; what is put in the word
does not replace an unread command, and a state that is restored is the last one taken. -/
def WordEvent.Kept : WordEvent → Prop
  | read word unread => ∀ command ∈ unread, word = command
  | requeued unread => unread = none
  | restored state unread taken => unread = none ∧ state = taken

instance : ∀ event : WordEvent, Decidable event.Kept
  | .read word unread => inferInstanceAs (Decidable (∀ command ∈ unread, word = command))
  | .requeued unread => inferInstanceAs (Decidable (unread = none))
  | .restored state unread taken => inferInstanceAs (Decidable (unread = none ∧ state = taken))

/-- The state that the tick has in hand for an LED. -/
def TickAt.inHand (i : ℕ) : TickAt → Option LedState
  | idle => none
  | read _ _ => none
  | clear j state _ => if j = i ∧ state ≠ .unchanged then some state else none
  | update j state _ => if j = i ∧ state ≠ .unchanged then some state else none
  | store j state _ => if j = i ∧ state ≠ .unchanged then some state else none

/-- The three cases do not come up. -/
def FitsAtomic (s : Atomic) : AtomicOp → Prop
  | .config i command =>
    match s.tick with
    | .clear j state _ => j = i → command.val ≠ state
    | _ => True
  | .switch =>
    match s.switch with
    | .load i => ∀ state ∈ s.tick.inHand i, state = (s.leds i).state
    | _ => True
  | .tick =>
    match s.tick, s.switch with
    | .read i _, .cas j state =>
      j = i → (s.leds i).command = .unchanged ∨ (s.leds i).command = state
    | _, _ => True

/-- The commands that are unread are there, and the tick does not clear them; what was taken last is
in hand or stored; and what the switch has loaded is what was taken last. -/
structure Tracks (s : Atomic) : Prop where
  unread : ∀ i, ∀ command ∈ s.unread i, command ≠ .unchanged ∧ (s.leds i).command = command
  clear : ∀ i state blinkSync, s.tick = .clear i state blinkSync →
    ∀ command ∈ s.unread i, command ≠ state
  taken : ∀ i, s.taken i = (s.tick.inHand i).getD (s.leds i).state
  cas : ∀ i state, s.switch = .cas i state → state = s.taken i

theorem tracks_start (counter : BitVec 32) (leds : ℕ → LedData) :
    Tracks (Atomic.start counter leds) where
  unread i command hmem := by
    simp only [Atomic.start] at hmem ⊢
    split_ifs at hmem with h
    · exact nomatch hmem
    · obtain rfl := Option.some.inj hmem
      exact ⟨h, rfl⟩
  clear i state blinkSync h := nomatch h
  taken i := rfl
  cas i state h := nomatch h

/-! ### Steps -/

/-- Nothing that is put in the word replaces a command. -/
theorem Tracks.eq_unchanged {s : Atomic} (h : Tracks s) {i : ℕ} {word : LedState}
    (hkeep : (s.leds i).command ≠ .unchanged → word = (s.leds i).command)
    (hne : word ≠ (s.leds i).command) : s.unread i = none := by
  cases hunread : s.unread i with
  | none => rfl
  | some command =>
    obtain ⟨hcommand, hword⟩ := h.unread i command hunread
    exact absurd (hkeep (hword ▸ hcommand)) hne

/-- A step that changes the words of one LED. -/
theorem Tracks.update {s : Atomic} (h : Tracks s) {i : ℕ} {led : LedData} {tick : TickAt}
    {switch : SwitchAt} (hcommand : ∀ command ∈ s.unread i, led.command = command)
    (hclear : ∀ j state blinkSync, tick = .clear j state blinkSync →
      s.tick = .clear j state blinkSync)
    (htaken : ∀ j, (tick.inHand j).getD (Function.update s.leds i led j).state
      = (s.tick.inHand j).getD (s.leds j).state)
    (hcas : ∀ j state, switch = .cas j state → s.switch = .cas j state) :
    Tracks { s with leds := Function.update s.leds i led, tick := tick, switch := switch } where
  unread j command hmem := by
    refine ⟨(h.unread j command hmem).1, ?_⟩
    show (Function.update s.leds i led j).command = command
    by_cases hj : j = i
    · subst hj
      rw [update_self]
      exact hcommand command hmem
    · rw [update_of_ne hj]
      exact (h.unread j command hmem).2
  clear j state blinkSync htick := h.clear j state blinkSync (hclear j state blinkSync htick)
  taken j := (h.taken j).trans (htaken j).symm
  cas j state hswitch := h.cas j state (hcas j state hswitch)

/-- The state of no LED changes, and the tick keeps what it has in hand. -/
theorem getD_update_of_state {leds : ℕ → LedData} {i : ℕ} {led : LedData}
    (h : led.state = (leds i).state) {tick tick' : TickAt}
    (htick : ∀ j, tick'.inHand j = tick.inHand j) (j : ℕ) :
    (tick'.inHand j).getD (Function.update leds i led j).state
      = (tick.inHand j).getD (leds j).state := by
  have hstate : (Function.update leds i led j).state = (leds j).state := by
    by_cases hj : j = i
    · rw [hj, update_self, h]
    · rw [update_of_ne hj]
  rw [htick, hstate]

/-- A tick reads a command. -/
theorem Tracks.read {s : Atomic} (h : Tracks s) {i : ℕ} {blinkSync : Option Bool}
    (htick : s.tick = .read i blinkSync) (hfits : FitsAtomic s .tick) :
    Tracks { s with
      tick := .clear i (s.leds i).command blinkSync
      unread := Function.update s.unread i none
      taken := if (s.leds i).command = .unchanged then s.taken
        else Function.update s.taken i (s.leds i).command } where
  unread j command hmem := by
    have hmem' : command ∈ Function.update s.unread i none j := hmem
    by_cases hj : j = i
    · rw [hj, update_self] at hmem'
      exact nomatch hmem'
    · rw [update_of_ne hj] at hmem'
      exact h.unread j command hmem'
  clear j state blinkSync' heq command hmem := by
    obtain ⟨rfl, -, -⟩ := TickAt.clear.inj heq
    have hmem' : command ∈ Function.update s.unread i none i := hmem
    rw [update_self] at hmem'
    exact nomatch hmem'
  taken j := by
    have hbefore : s.taken j = (s.leds j).state := by rw [h.taken j, htick]; rfl
    by_cases hword : (s.leds i).command = .unchanged
    · simp [TickAt.inHand, hword, hbefore]
    · by_cases hj : j = i
      · subst hj
        simp [TickAt.inHand, hword]
      · simp [TickAt.inHand, hword, hj, Ne.symm hj, hbefore]
  cas j state hswitch := by
    have hcas : s.switch = .cas j state := hswitch
    have hloaded : state = s.taken j := h.cas j state hcas
    show state = (if (s.leds i).command = .unchanged then s.taken
      else Function.update s.taken i (s.leds i).command) j
    split_ifs with hword
    · exact hloaded
    · by_cases hj : j = i
      · -- The command that is taken is the state that was loaded.
        simp only [FitsAtomic, htick, hcas] at hfits
        rw [hj, update_self]
        exact ((hfits hj).resolve_left hword).symm
      · rw [update_of_ne hj]
        exact hloaded

/-- A tick clears the command it has read. -/
theorem Tracks.clearCommand {s : Atomic} (h : Tracks s) {i : ℕ} {state : LedState}
    {blinkSync : Option Bool} (htick : s.tick = .clear i state blinkSync) :
    Tracks { s with
      leds := Function.update s.leds i (Leds.clearCommand (s.leds i) state)
      tick := .update i state blinkSync } := by
  refine h.update ?_ (fun _ _ _ heq => nomatch heq) ?_ fun _ _ => id
  · -- A command that was set after the read is another one.
    intro command hmem
    have hword := (h.unread i command hmem).2
    rw [← hword]
    exact atomicCmpxchg_of_ne (hword ▸ h.clear i state blinkSync htick command hmem) _
  · rw [htick]
    apply getD_update_of_state
    · rfl
    · exact fun _ => rfl

/-- Driving an LED and requeueing its command keep a command that was set in between. -/
theorem command_requeue_drive {s : Atomic} {i : ℕ} {state : LedState} {blinkSync : Option Bool}
    (hne : (s.leds i).command ≠ .unchanged) :
    (requeue (drive s.counter (s.leds i) state blinkSync).1 state).command
      = (s.leds i).command := by
  have hcommand := (words_drive s.counter (s.leds i) state blinkSync).1
  rw [command_requeue (hcommand ▸ hne), hcommand]

/-- A tick drives an LED. -/
theorem Tracks.drive {s : Atomic} (h : Tracks s) {i : ℕ} {state : LedState}
    {blinkSync : Option Bool} (htick : s.tick = .update i state blinkSync) :
    let driven := Leds.drive s.counter (s.leds i) state blinkSync
    Tracks { s with
      leds := Function.update s.leds i (requeue driven.1 state)
      tick := .store i state driven.2 } := by
  intro driven
  have hstate := (words_drive s.counter (s.leds i) state blinkSync).2
  refine h.update ?_ (fun _ _ _ heq => nomatch heq) ?_ fun _ _ => id
  · intro command hmem
    obtain ⟨hne, hword⟩ := h.unread i command hmem
    exact (command_requeue_drive (hword ▸ hne)).trans hword
  · rw [htick]
    exact getD_update_of_state ((state_requeue _ _).trans hstate) fun _ => rfl

/-- A tick stores the state of an LED. -/
theorem Tracks.store {s : Atomic} (h : Tracks s) {i : ℕ} {state : LedState}
    {blinkSync : Option Bool} (htick : s.tick = .store i state blinkSync) :
    Tracks { s with
      leds := Function.update s.leds i (storeState (s.leds i) state)
      tick := .read (i + 1) blinkSync } := by
  refine h.update ?_ (fun _ _ _ heq => nomatch heq) ?_ fun _ _ => id
  · intro command hmem
    rw [command_storeState]
    exact (h.unread i command hmem).2
  · intro j
    rw [htick]
    by_cases hj : j = i
    · subst hj
      by_cases hstate : state = .unchanged <;> simp [TickAt.inHand, storeState, hstate]
    · simp [TickAt.inHand, update_of_ne hj, Ne.symm hj]

theorem tracks_tickStep (numLeds : ℕ) {s : Atomic} (h : Tracks s) (hfits : FitsAtomic s .tick) :
    Tracks (tickStep numLeds s).1 ∧ ∀ event ∈ (tickStep numLeds s).2, event.Kept := by
  rw [tickStep]
  split
  case h_1 htick =>
    refine ⟨⟨h.unread, fun _ _ _ heq => (nomatch heq), fun i => ?_, h.cas⟩,
      fun _ hmem => nomatch hmem⟩
    rw [h.taken i, htick]
    rfl
  case h_2 i blinkSync htick =>
    split_ifs with hi
    · refine ⟨h.read htick hfits, List.forall_mem_singleton.mpr fun command hmem => ?_⟩
      exact (h.unread i command hmem).2
    · refine ⟨⟨h.unread, fun _ _ _ heq => (nomatch heq), fun j => ?_, h.cas⟩,
        fun _ hmem => nomatch hmem⟩
      rw [h.taken j, htick]
      rfl
  case h_3 i state blinkSync htick =>
    exact ⟨h.clearCommand htick, fun _ hmem => nomatch hmem⟩
  case h_4 i state blinkSync htick =>
    refine ⟨h.drive htick, fun event hmem => ?_⟩
    dsimp only at hmem
    split_ifs at hmem with hsame
    · exact nomatch hmem
    · obtain rfl := List.mem_singleton.mp hmem
      exact h.eq_unchanged command_requeue_drive hsame
  case h_5 i state blinkSync htick =>
    exact ⟨h.store htick, fun _ hmem => nomatch hmem⟩

theorem tracks_switchStep (numLeds : ℕ) {s : Atomic} (h : Tracks s)
    (hfits : FitsAtomic s .switch) :
    Tracks (switchStep numLeds s).1 ∧ ∀ event ∈ (switchStep numLeds s).2, event.Kept := by
  rw [switchStep]
  split
  case h_1 hswitch =>
    exact ⟨⟨h.unread, h.clear, h.taken, fun _ _ heq => nomatch heq⟩, fun _ hmem => nomatch hmem⟩
  case h_2 i hswitch =>
    simp only [FitsAtomic, hswitch] at hfits
    split_ifs with hi
    · refine ⟨⟨h.unread, h.clear, h.taken, ?_⟩, fun _ hmem => nomatch hmem⟩
      intro j state heq
      obtain ⟨rfl, rfl⟩ := SwitchAt.cas.inj heq
      show (s.leds i).state = s.taken i
      rw [h.taken i]
      -- What the tick has in hand is what is stored.
      cases hhand : s.tick.inHand i with
      | none => rfl
      | some state => exact (hfits state hhand).symm
    · exact ⟨⟨h.unread, h.clear, h.taken, fun _ _ heq => nomatch heq⟩, fun _ hmem => nomatch hmem⟩
  case h_3 i state hswitch =>
    have hkeep : (s.leds i).command ≠ .unchanged →
        (restore (s.leds i) state).command = (s.leds i).command :=
      fun hne => atomicCmpxchg_of_ne hne state
    refine ⟨h.update ?_ (fun _ _ _ => id) ?_ fun _ _ heq => (nomatch heq), ?_⟩
    · intro command hmem
      obtain ⟨hne, hword⟩ := h.unread i command hmem
      exact (hkeep (hword ▸ hne)).trans hword
    · apply getD_update_of_state
      · rfl
      · exact fun _ => rfl
    · intro event hmem
      dsimp only at hmem
      split_ifs at hmem with hsame
      · exact nomatch hmem
      · obtain rfl := List.mem_singleton.mp hmem
        exact ⟨h.eq_unchanged hkeep hsame, h.cas i state hswitch⟩

theorem tracks_configStep {s : Atomic} (h : Tracks s) {i : ℕ} {command : Command}
    (hfits : FitsAtomic s (.config i command)) : Tracks (configStep s i command) where
  unread j command' hmem := by
    by_cases hj : j = i
    · subst hj
      simp only [configStep, update_self] at hmem ⊢
      obtain rfl := Option.some.inj hmem
      exact ⟨command.2, rfl⟩
    · simp only [configStep, update_of_ne hj] at hmem ⊢
      exact h.unread j command' hmem
  clear j state blinkSync htick command' hmem := by
    have hclear : s.tick = .clear j state blinkSync := htick
    by_cases hj : j = i
    · subst hj
      simp only [configStep, update_self] at hmem
      obtain rfl := Option.some.inj hmem
      simp only [FitsAtomic, hclear] at hfits
      exact hfits trivial
    · simp only [configStep, update_of_ne hj] at hmem
      exact h.clear j state blinkSync hclear command' hmem
  taken j := by
    show s.taken j = _
    rw [h.taken j]
    symm
    apply getD_update_of_state
    · rfl
    · exact fun _ => rfl
  cas := h.cas

theorem tracks_atomicStep (numLeds : ℕ) {s : Atomic} (h : Tracks s) {op : AtomicOp}
    (hfits : FitsAtomic s op) :
    Tracks (atomicStep numLeds s op).1 ∧ ∀ event ∈ (atomicStep numLeds s op).2, event.Kept := by
  cases op with
  | tick => exact tracks_tickStep numLeds h hfits
  | switch => exact tracks_switchStep numLeds h hfits
  | config i command => exact ⟨tracks_configStep h hfits, fun _ hmem => nomatch hmem⟩

/-- **No command is lost.**  For every number of LEDs, from all states of them, and for every order
of the atomic steps in which the three cases do not come up: a tick applies the command that was set
last, if no tick has read it, and neither the command that a blink leaves nor a state that is
restored replaces a newer command. -/
theorem commands_kept (numLeds : ℕ) (counter : BitVec 32) (leds : ℕ → LedData)
    (ops : List AtomicOp)
    (hfits : Meets (atomicStep numLeds) FitsAtomic (Atomic.start counter leds) ops) :
    ∀ event ∈ (run (atomicStep numLeds) (Atomic.start counter leds) ops).2, event.Kept := by
  have hinv := run_inv_of_meets (atomicStep numLeds) (C := FitsAtomic)
    (P := fun s history => Tracks s ∧ ∀ event ∈ history, WordEvent.Kept event) ?_ ops
    (Atomic.start counter leds) [] ⟨tracks_start counter leds, fun _ hmem => nomatch hmem⟩ hfits
  · exact hinv.2
  · rintro s history op hop ⟨hs, hhistory⟩
    obtain ⟨hs', hevents⟩ := tracks_atomicStep numLeds hs hop
    exact ⟨hs', List.forall_mem_append.mpr ⟨hhistory, hevents⟩⟩

/-- A command is set while the switch is between two LEDs, and a tick takes it. -/
theorem commands_kept_two :
    Meets (atomicStep 2) FitsAtomic (Atomic.start 0 fun _ => ⟨false, false, 0, .unchanged, .off⟩)
        [.switch, .switch, .switch, .config 0 ⟨.on, by decide⟩, .tick, .tick, .tick] ∧
      ∀ event ∈ (run (atomicStep 2)
        (Atomic.start 0 fun _ => ⟨false, false, 0, .unchanged, .off⟩)
        [.switch, .switch, .switch, .config 0 ⟨.on, by decide⟩, .tick, .tick, .tick]).2,
        event.Kept := by
  have hfits : Meets (atomicStep 2) FitsAtomic
      (Atomic.start 0 fun _ => ⟨false, false, 0, .unchanged, .off⟩)
      [.switch, .switch, .switch, .config 0 ⟨.on, by decide⟩, .tick, .tick, .tick] :=
    ⟨trivial, fun _ hmem => (nomatch hmem), trivial, trivial, trivial, trivial, trivial, trivial⟩
  exact ⟨hfits, commands_kept 2 0 _ _ hfits⟩

/-- A `toggle` that is set while a tick is between the read and the clear of another one is never
read.  A state that the switch has loaded is restored after a tick has taken a newer command. -/
theorem commands_lost :
    (∃ event ∈ (run (atomicStep 1) (Atomic.start 0 fun _ => ⟨false, false, 0, .unchanged, .off⟩)
        [.config 0 ⟨.toggle, by decide⟩, .tick, .tick, .config 0 ⟨.toggle, by decide⟩, .tick,
          .tick, .tick, .tick, .tick, .tick]).2, ¬event.Kept) ∧
      ∃ event ∈ (run (atomicStep 1) (Atomic.start 0 fun _ => ⟨false, false, 0, .unchanged, .off⟩)
        [.switch, .switch, .config 0 ⟨.on, by decide⟩, .tick, .tick, .tick, .tick, .tick,
          .switch]).2, ¬event.Kept := by
  decide

/-! ### Without interruption -/

/-- The four steps of a tick for one LED are a round of `leds_process_control`. -/
theorem run_round {numLeds : ℕ} {s : Atomic} {i : ℕ} {blinkSync : Option Bool}
    (htick : s.tick = .read i blinkSync) (hi : i < numLeds) :
    let s' := (run (atomicStep numLeds) s (List.replicate 4 .tick)).1
    s'.counter = s.counter ∧
      s'.leds = update s.leds i (processLed s.counter (s.leds i) blinkSync).1 ∧
      s'.tick = .read (i + 1) (processLed s.counter (s.leds i) blinkSync).2 := by
  simp [List.replicate, run_cons, atomicStep, tickStep, htick, hi, processLed, ledStateUpdate]

/-- The steps of a tick from an LED on. -/
theorem run_rounds {numLeds : ℕ} (k : ℕ) {s : Atomic} {i : ℕ} {blinkSync : Option Bool}
    (htick : s.tick = .read i blinkSync) (hi : i + k = numLeds) :
    let s' := (run (atomicStep numLeds) s (List.replicate (4 * k) .tick)).1
    s'.counter = s.counter ∧ (∀ j < i, s'.leds j = s.leds j) ∧
      (List.range' i k).map s'.leds
        = processLeds s.counter blinkSync ((List.range' i k).map s.leds) ∧
      ∃ blinkSync', s'.tick = .read numLeds blinkSync' := by
  induction k generalizing s i blinkSync with
  | zero => exact ⟨rfl, fun _ _ => rfl, rfl, blinkSync, by simpa [← hi] using htick⟩
  | succ k ih =>
    obtain ⟨hcounter, hleds, hnext⟩ := @run_round numLeds s i blinkSync htick (by omega)
    obtain ⟨hcounter', hbefore, hafter, hend⟩ := ih hnext (by omega)
    have hsplit : List.replicate (4 * (k + 1)) AtomicOp.tick
        = List.replicate 4 .tick ++ List.replicate (4 * k) .tick := by
      rw [← List.replicate_add, Nat.mul_succ, Nat.add_comm]
    rw [hsplit, run_append]
    refine ⟨hcounter'.trans hcounter, fun j hj => ?_, ?_, hend⟩
    · rw [hbefore j (by omega), hleds, update_of_ne (by omega)]
    · have hrest : (List.range' (i + 1) k).map
          (run (atomicStep numLeds) s (List.replicate 4 .tick)).1.leds
          = (List.range' (i + 1) k).map s.leds := by
        apply List.map_congr_left
        intro j hj
        have hlt := (List.mem_range'_1.mp hj).1
        rw [hleds, update_of_ne (by omega)]
      have hled : (run (atomicStep numLeds) (run (atomicStep numLeds) s (List.replicate 4 .tick)).1
          (List.replicate (4 * k) .tick)).1.leds i
          = (processLed s.counter (s.leds i) blinkSync).1 := by
        rw [hbefore i (by omega), hleds, update_self]
      rw [List.range'_succ, List.map_cons, List.map_cons, hled, hafter, hrest, hcounter]
      rfl

/-- **A tick that is not interrupted** is `leds_process_control`. -/
theorem run_tick {numLeds : ℕ} {s : Atomic} (hidle : s.tick = .idle) :
    let s' := (run (atomicStep numLeds) s (List.replicate (1 + 4 * numLeds + 1) .tick)).1
    s'.tick = .idle ∧ s'.counter = s.counter + 1 ∧
      (List.range numLeds).map s'.leds
        = processLeds s.counter none ((List.range numLeds).map s.leds) := by
  have hfirst : (tickStep numLeds s).1 = { s with tick := .read 0 none } := by
    rw [tickStep, hidle]
  obtain ⟨hcounter, -, hleds, blinkSync, hlast⟩ :=
    @run_rounds numLeds numLeds { s with tick := .read 0 none } 0 none rfl (Nat.zero_add _)
  rw [List.replicate_add, List.replicate_add, run_append, run_append]
  show (tickStep numLeds (run (atomicStep numLeds) (tickStep numLeds s).1 _).1).1.tick = _ ∧
    (tickStep numLeds (run (atomicStep numLeds) (tickStep numLeds s).1 _).1).1.counter = _ ∧
    (List.range numLeds).map
      (tickStep numLeds (run (atomicStep numLeds) (tickStep numLeds s).1 _).1).1.leds = _
  rw [hfirst, tickStep, hlast]
  dsimp only
  rw [if_neg (Nat.lt_irrefl numLeds)]
  refine ⟨rfl, ?_, ?_⟩
  · show _ + 1 = s.counter + 1
    rw [hcounter]
  · rw [List.range_eq_range']
    exact hleds

/-- The steps of the switch from an LED on. -/
theorem run_restores {numLeds : ℕ} (k : ℕ) {s : Atomic} {i : ℕ} (hswitch : s.switch = .load i)
    (hi : i + k = numLeds) :
    let s' := (run (atomicStep numLeds) s (List.replicate (2 * k) .switch)).1
    s'.switch = .load numLeds ∧
      s'.leds = fun j => if i ≤ j ∧ j < numLeds then restore (s.leds j) (s.leds j).state
        else s.leds j := by
  induction k generalizing s i with
  | zero =>
    refine ⟨by simpa [← hi] using hswitch, ?_⟩
    funext j
    rw [if_neg (by omega)]
    rfl
  | succ k ih =>
    obtain ⟨hleds, hnext⟩ : (run (atomicStep numLeds) s (List.replicate 2 .switch)).1.leds
          = update s.leds i (restore (s.leds i) (s.leds i).state) ∧
        (run (atomicStep numLeds) s (List.replicate 2 .switch)).1.switch = .load (i + 1) := by
      have hlt : i < numLeds := by omega
      simp [List.replicate, run_cons, atomicStep, switchStep, hswitch, hlt]
    obtain ⟨hlast, hrest⟩ := ih hnext (by omega)
    have hsplit : List.replicate (2 * (k + 1)) AtomicOp.switch
        = List.replicate 2 .switch ++ List.replicate (2 * k) .switch := by
      rw [← List.replicate_add, Nat.mul_succ, Nat.add_comm]
    rw [hsplit, run_append]
    refine ⟨hlast, ?_⟩
    rw [hrest, hleds]
    funext j
    by_cases hj : j = i
    · subst hj
      rw [if_neg (by omega), if_pos ⟨Nat.le_refl j, by omega⟩, update_self]
    · rw [update_of_ne hj]
      exact if_congr (by omega) rfl rfl

/-- **A switch that is not interrupted** restores the states as `leds_set_mode` does. -/
theorem run_switch {numLeds : ℕ} {s : Atomic} (hidle : s.switch = .idle) :
    (List.range numLeds).map
        (run (atomicStep numLeds) s (List.replicate (1 + 2 * numLeds) .switch)).1.leds
      = ((List.range numLeds).map s.leds).map fun led => restore led led.state := by
  have hfirst : (switchStep numLeds s).1 = { s with switch := .load 0, counter := 0 } := by
    rw [switchStep, hidle]
  obtain ⟨-, hleds⟩ := @run_restores numLeds numLeds { s with switch := .load 0, counter := 0 } 0
    rfl (Nat.zero_add _)
  rw [List.replicate_add, run_append]
  show (List.range numLeds).map (run (atomicStep numLeds) (switchStep numLeds s).1 _).1.leds = _
  rw [hfirst, hleds, List.map_map]
  apply List.map_congr_left
  intro j hj
  rw [if_pos ⟨Nat.zero_le j, List.mem_range.mp hj⟩]
  rfl

end Neufbox.Leds
