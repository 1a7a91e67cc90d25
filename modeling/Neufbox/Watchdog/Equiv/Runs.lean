import Neufbox.Lib.Run
import Neufbox.Watchdog.Driver

/-!
# Runs of the watchdog driver

* `wdtStep_effect`: what a call can do to the countdown, the timer and the hardware (`Effect`).
* `hwStop_notMem_iff`: with `nowayout`, the magic close never stops the hardware, and an `ioctl`
  does exactly if it has the bit `WDIOS_DISABLECARD`.
* `keeps_running_iff`: a device that is open and petted between any two ticks of the timer keeps the
  hardware running, unless the countdown starts so low that one tick ends it.
* `unattended_watchdog`: without a pet the hardware is not kept running, unless a start has taken
  the countdown to zero while the timer was pending.
-/

namespace Neufbox.Watchdog

open Machine

/-! ### What a call does -/

/-- The call is an `ioctl` that disables the watchdog. -/
def Disables : WdtOp → Prop
  | .ioctl .setOptions arg => ∃ value ∈ arg.value, value &&& wdiosDisablecard ≠ 0
  | _ => False

instance (op : WdtOp) : Decidable (Disables op) := by
  unfold Disables
  split <;> infer_instance

/-- The call is an `ioctl` that enables the watchdog. -/
def Enables : WdtOp → Prop
  | .ioctl .setOptions arg => ∃ value ∈ arg.value, value &&& wdiosEnablecard ≠ 0
  | _ => False

instance (op : WdtOp) : Decidable (Enables op) := by
  unfold Enables
  split <;> infer_instance

/-- The call sets the countdown back to the timeout.  With `nowayout` the bytes that are written are
not read. -/
def Pets (nowayout : Int) : WdtOp → Prop
  | .write data => data ≠ [] ∧ (nowayout = 0 → ∀ byte ∈ data, byte.isSome)
  | .ioctl .keepAlive _ => True
  | .ioctl .setTimeout arg => ∃ value ∈ arg.value, (wdtSettimeout value.toInt).isSome
  | _ => False

instance (nowayout : Int) (op : WdtOp) : Decidable (Pets nowayout op) := by
  unfold Pets
  split <;> infer_instance

theorem Pets.not_disables {nowayout : Int} {op : WdtOp} (h : Pets nowayout op) : ¬Disables op := by
  intro hdisables
  unfold Disables at hdisables
  split at hdisables
  exacts [h, hdisables]

theorem Pets.not_enables {nowayout : Int} {op : WdtOp} (h : Pets nowayout op) : ¬Enables op := by
  intro henables
  unfold Enables at henables
  split at henables
  exacts [h, henables]

/-- What a call can do: the state after it, and what it does to the hardware and the timer. -/
inductive Effect (nowayout : Int) (dev : Wdt) (op : WdtOp) : Wdt → List WdtEvent → Prop
  | idle {expectClose : Int} (hclose : nowayout ≠ 0 → expectClose = dev.expectClose)
      (hpets : ¬Pets nowayout op) (henables : ¬Enables op) (hdisables : ¬Disables op)
      (hop : op ≠ .tick) :
    Effect nowayout dev op { dev with expectClose := expectClose } []
  | petted {expectClose : Int} {wdtTime : Timeout}
      (hclose : nowayout ≠ 0 → expectClose = dev.expectClose) (hpets : Pets nowayout op) :
    Effect nowayout dev op
      (wdtPet { dev with expectClose := expectClose, wdtTime := wdtTime }) []
  | opened (hop : op = .openDevice) (hclosed : dev.inuse = false) :
    Effect nowayout dev op (wdtStart { dev with inuse := true }).1
      (wdtStart { dev with inuse := true }).2
  | enabled (henables : Enables op) (hdisables : ¬Disables op) :
    Effect nowayout dev op (wdtStart dev).1 (wdtStart dev).2
  | disabled {dev' : Wdt} {events : List WdtEvent} (hdisables : Disables op)
      (hstop : .hwStop ∈ events) (hclose : dev'.expectClose = dev.expectClose) :
    Effect nowayout dev op dev' events
  | released (hop : op = .release) : Effect nowayout dev op (wdtRelease dev).1 (wdtRelease dev).2
  | ticked (hop : op = .tick) : Effect nowayout dev op (timerExpires dev).1 (timerExpires dev).2

section

variable {nowayout : Int} {dev : Wdt}

/-- The timer is armed again unless the countdown comes to zero; a timer that is pending stays
so. -/
theorem timerTick_fst (dev : Wdt) :
    (timerTick dev).1
      = { dev with ticks := dev.ticks - 1, armed := dev.armed || dev.ticks ≠ 1 } := by
  unfold timerTick
  dsimp only
  split_ifs with h
  · have hne : dev.ticks ≠ 1 := by omega
    simp [hne]
  · have heq : dev.ticks = 1 := by omega
    simp [heq]

theorem expectClose_timerTick (dev : Wdt) : (timerTick dev).1.expectClose = dev.expectClose := by
  rw [timerTick_fst]

theorem scanMagic_snd (expectClose : Int) (data : List (Option Char)) :
    (scanMagic expectClose data).2 = true ↔ ∀ byte ∈ data, byte.isSome := by
  induction data generalizing expectClose with
  | nil => simp [scanMagic]
  | cons byte data ih => cases byte <;> simp [scanMagic, ih]

theorem wdtWrite_effect (dev : Wdt) (data : List (Option Char)) :
    Effect nowayout dev (.write data) (wdtWrite nowayout dev data).1 [] := by
  unfold wdtWrite
  by_cases hnil : data = []
  · rw [if_neg (by simp [hnil])]
    exact .idle (fun _ => rfl) (fun h => h.1 hnil) id id nofun
  rw [if_pos (by simpa using hnil)]
  by_cases hway : nowayout = 0
  · rw [if_pos hway]
    dsimp only
    by_cases hread : (scanMagic 0 data).2 = true
    · rw [if_pos hread]
      exact .petted (absurd hway) ⟨hnil, fun _ => (scanMagic_snd 0 data).mp hread⟩
    · rw [if_neg hread]
      exact .idle (absurd hway) (fun h => hread ((scanMagic_snd 0 data).mpr (h.2 hway))) id id nofun
  · rw [if_neg hway]
    exact .petted (fun _ => rfl) ⟨hnil, fun h => absurd h hway⟩

theorem wdtSetOptions_effect (dev : Wdt) {arg : UserInt} {value : BitVec 32}
    (hvalue : arg.value = some value) :
    Effect nowayout dev (.ioctl .setOptions arg) (wdtIoctl dev .setOptions arg).1
      (wdtIoctl dev .setOptions arg).2.1 := by
  unfold wdtIoctl
  rw [hvalue]
  dsimp only
  have henables : Enables (.ioctl .setOptions arg) ↔ value &&& wdiosEnablecard ≠ 0 := by
    simp [Enables, hvalue]
  have hdisables : Disables (.ioctl .setOptions arg) ↔ value &&& wdiosDisablecard ≠ 0 := by
    simp [Disables, hvalue]
  by_cases hstop : value &&& wdiosDisablecard ≠ 0
  · rw [if_pos hstop]
    split_ifs with hstart
    · exact .disabled (hdisables.mpr hstop) (by simp [wdtPause]) (expectClose_timerTick _)
    · exact .disabled (hdisables.mpr hstop) (by simp [wdtPause]) rfl
  · rw [if_neg hstop]
    split_ifs with hstart
    · exact .enabled (henables.mpr hstart) (fun h => hstop (hdisables.mp h))
    · exact .idle (fun _ => rfl) id (fun h => hstart (henables.mp h))
        (fun h => hstop (hdisables.mp h)) nofun

theorem wdtIoctl_effect (dev : Wdt) (cmd : WdtIoctl) (arg : UserInt) :
    Effect nowayout dev (.ioctl cmd arg) (wdtIoctl dev cmd arg).1 (wdtIoctl dev cmd arg).2.1 := by
  cases cmd with
  | getSupport | getStatus | getBootStatus | getTimeout | other =>
    exact .idle (fun _ => rfl) id id id nofun
  | keepAlive => exact .petted (fun _ => rfl) trivial
  | setOptions =>
    cases hvalue : arg.value with
    | none =>
      unfold wdtIoctl
      rw [hvalue]
      exact .idle (fun _ => rfl) id (by simp [Enables, hvalue]) (by simp [Disables, hvalue]) nofun
    | some value => exact wdtSetOptions_effect dev hvalue
  | setTimeout =>
    unfold wdtIoctl
    cases hvalue : arg.value with
    | none => exact .idle (fun _ => rfl) (by simp [Pets, hvalue]) id id nofun
    | some value =>
      dsimp only
      cases htime : wdtSettimeout value.toInt with
      | none => exact .idle (fun _ => rfl) (by simp [Pets, hvalue, htime]) id id nofun
      | some wdtTime => exact .petted (fun _ => rfl) (by simp [Pets, hvalue, htime])

theorem wdtStep_effect (dev : Wdt) (op : WdtOp) :
    Effect nowayout dev op (wdtStep nowayout dev op).1 (wdtStep nowayout dev op).2 := by
  cases op with
  | openDevice =>
    unfold wdtStep wdtOpen
    cases hinuse : dev.inuse with
    | true => exact .idle (fun _ => rfl) id id id nofun
    | false => exact .opened rfl hinuse
  | write data => exact wdtWrite_effect dev data
  | ioctl cmd arg => exact wdtIoctl_effect dev cmd arg
  | release => exact .released rfl
  | tick => exact .ticked rfl

/-! ### What stops the hardware -/

theorem hwStop_notMem_timerTick (dev : Wdt) : .hwStop ∉ (timerTick dev).2 := by
  unfold timerTick
  dsimp only
  split_ifs <;> simp

theorem hwStop_notMem_timerExpires (dev : Wdt) : .hwStop ∉ (timerExpires dev).2 := by
  unfold timerExpires
  split_ifs
  exacts [hwStop_notMem_timerTick _, List.not_mem_nil]

theorem expectClose_timerExpires (dev : Wdt) :
    (timerExpires dev).1.expectClose = dev.expectClose := by
  unfold timerExpires
  split_ifs
  exacts [expectClose_timerTick _, rfl]

/-- With `nowayout`, `expect_close` stays as it was, or is cleared. -/
theorem Effect.expectClose_eq_zero {op : WdtOp} {dev' : Wdt} {events : List WdtEvent}
    (h : Effect nowayout dev op dev' events) (hway : nowayout ≠ 0) (hclose : dev.expectClose = 0) :
    dev'.expectClose = 0 := by
  cases h with
  | idle heq => exact (heq hway).trans hclose
  | petted heq => exact (heq hway).trans hclose
  | opened => exact (expectClose_timerTick _).trans hclose
  | enabled => exact (expectClose_timerTick _).trans hclose
  | disabled _ _ heq => exact heq.trans hclose
  | released => rfl
  | ticked => exact (expectClose_timerExpires dev).trans hclose

theorem Effect.hwStop_mem_iff {op : WdtOp} {dev' : Wdt} {events : List WdtEvent}
    (h : Effect nowayout dev op dev' events) (hclose : dev.expectClose = 0) :
    .hwStop ∈ events ↔ Disables op := by
  cases h with
  | idle _ _ _ hdisables => exact iff_of_false List.not_mem_nil hdisables
  | petted _ hpets => exact iff_of_false List.not_mem_nil hpets.not_disables
  | opened hop =>
    subst hop
    exact iff_of_false (hwStop_notMem_timerTick _) id
  | enabled _ hdisables => exact iff_of_false (hwStop_notMem_timerTick _) hdisables
  | disabled hdisables hstop => exact iff_of_true hstop hdisables
  | released hop =>
    subst hop
    -- The magic close is not expected.
    refine iff_of_false ?_ id
    rw [wdtRelease, if_neg (by rw [hclose]; decide)]
    exact hwStop_notMem_timerTick _
  | ticked hop =>
    subst hop
    exact iff_of_false (hwStop_notMem_timerExpires dev) id

end

/-- The state after any calls is one where the magic close is not expected. -/
theorem expectClose_run {nowayout : Int} (hway : nowayout ≠ 0) {dev : Wdt}
    (hclose : dev.expectClose = 0) (ops : List WdtOp) :
    (run (wdtStep nowayout) dev ops).1.expectClose = 0 :=
  run_inv (wdtStep nowayout) (P := fun dev _ => dev.expectClose = 0) hclose
    (fun dev _ op h => (wdtStep_effect dev op).expectClose_eq_zero hway h) ops

theorem hwStop_mem_run_iff {nowayout : Int} (hway : nowayout ≠ 0) {dev : Wdt}
    (hclose : dev.expectClose = 0) (ops : List WdtOp) :
    .hwStop ∈ (run (wdtStep nowayout) dev ops).2 ↔ ∃ op ∈ ops, Disables op := by
  have hstep : ∀ before op,
      .hwStop ∈ (wdtStep nowayout (run (wdtStep nowayout) dev before).1 op).2 ↔ Disables op :=
    fun before op => (wdtStep_effect _ op).hwStop_mem_iff (expectClose_run hway hclose before)
  rw [mem_run_iff]
  constructor
  · rintro ⟨before, op, after, rfl, hmem⟩
    exact ⟨op, by simp, (hstep before op).mp hmem⟩
  · rintro ⟨op, hop, hdisables⟩
    obtain ⟨before, after, rfl⟩ := List.append_of_mem hop
    exact ⟨before, op, after, rfl, (hstep before op).mpr hdisables⟩

/-- **No way out**: once the device was opened, the hardware is stopped exactly by the calls that
disable the watchdog. -/
theorem hwStop_notMem_iff {nowayout : Int} (hway : nowayout ≠ 0) (before later : List WdtOp) :
    .hwStop ∉ (run (wdtStep nowayout)
        (run (wdtStep nowayout) .probed (before ++ [.openDevice])).1 later).2 ↔
      ∀ op ∈ later, ¬Disables op := by
  rw [hwStop_mem_run_iff hway (expectClose_run hway rfl _)]
  simp only [not_exists, not_and]

/-- What is written does not stop it at the close of the device. -/
theorem hwStop_notMem_iff_magic :
    .hwStop ∉ (run (wdtStep 1) (run (wdtStep 1) .probed ([] ++ [.openDevice])).1
      [.write [some 'V'], .release]).2 :=
  (hwStop_notMem_iff (by decide) [] [.write [some 'V'], .release]).mpr (by decide)

/-- `WDIOS_DISABLECARD` stops it. -/
theorem setOptions_stops :
    .hwStop ∈ (run (wdtStep 1) (run (wdtStep 1) .probed [.openDevice]).1
      [.ioctl .setOptions ⟨some wdiosDisablecard, true⟩]).2 := by
  decide

/-! ### What keeps the hardware running -/

/-- What came last: a start, a pet, or a tick of the timer. -/
inductive Phase where
  | started
  | petted
  | ticked
  deriving DecidableEq

def Phase.next (nowayout : Int) (phase : Phase) (op : WdtOp) : Phase :=
  if Pets nowayout op then .petted
  else if Enables op then .started
  else if op = .tick then .ticked
  else phase

/-- The driver, and what came last. -/
def sessionStep (nowayout : Int) (session : Wdt × Phase) (op : WdtOp) :
    (Wdt × Phase) × List WdtEvent :=
  (((wdtStep nowayout session.1 op).1, session.2.next nowayout op),
    (wdtStep nowayout session.1 op).2)

/-- The condition for the hardware to keep running.  After a start the countdown is one less than
the timeout already. -/
def FitsTimeout (session : Wdt × Phase) (op : WdtOp) : Prop :=
  op = .tick → session.1.wdtTime.seconds ≠ if session.2 = .started then 2 else 1

instance (session : Wdt × Phase) (op : WdtOp) : Decidable (FitsTimeout session op) := by
  unfold FitsTimeout
  infer_instance

/-- Between any two ticks of the timer there is a pet. -/
def PettedBetweenTicks (nowayout : Int) (ops : List WdtOp) : Prop :=
  ∀ before middle after, ops = before ++ .tick :: (middle ++ .tick :: after) →
    ∃ op ∈ middle, Pets nowayout op

/-- The hardware is started and the timer armed. -/
def Restarts (events : List WdtEvent) : Prop := .hwStart ∈ events ∧ .modTimer ∈ events

instance (events : List WdtEvent) : Decidable (Restarts events) := by
  unfold Restarts
  infer_instance

theorem restarts_timerTick (dev : Wdt) : Restarts (timerTick dev).2 ↔ dev.ticks ≠ 1 := by
  unfold timerTick Restarts
  dsimp only
  split_ifs <;> simp <;> omega

/-- The device is open, and the countdown is what the last start or pet made it. -/
def Counting (session : Wdt × Phase) : Prop :=
  session.1.inuse = true ∧ session.1.armed = true ∧
    (session.2 = .started → session.1.ticks = session.1.wdtTime.seconds - 1) ∧
    (session.2 = .petted → session.1.ticks = session.1.wdtTime.seconds)

/-- A call while the device is open and watched over. -/
def Attends (session : Wdt × Phase) (op : WdtOp) : Prop :=
  op ≠ .release ∧ ¬Disables op ∧ (op = .tick → session.2 ≠ .ticked)

section

variable {nowayout : Int}

theorem timerExpires_of_armed {dev : Wdt} (h : dev.armed = true) :
    timerExpires dev = timerTick { dev with armed := false } :=
  if_pos h

/-- The countdown does not come to zero exactly if the timeout is not too low. -/
theorem Counting.ticks_ne_iff {dev : Wdt} {phase : Phase} (h : Counting (dev, phase))
    (hphase : phase ≠ .ticked) : dev.ticks ≠ 1 ↔ FitsTimeout (dev, phase) .tick := by
  obtain ⟨-, -, hstarted, hpetted⟩ := h
  unfold FitsTimeout
  cases phase with
  | started =>
    have hticks : dev.ticks = dev.wdtTime.seconds - 1 := hstarted rfl
    simp only [if_true, true_imp_iff]
    omega
  | petted =>
    have hticks : dev.ticks = dev.wdtTime.seconds := hpetted rfl
    simp [hticks]
  | ticked => exact absurd rfl hphase

theorem Counting.restarts_iff {dev : Wdt} {phase : Phase} (h : Counting (dev, phase))
    (hphase : phase ≠ .ticked) :
    Restarts (wdtStep nowayout dev .tick).2 ↔ FitsTimeout (dev, phase) .tick := by
  have harmed : dev.armed = true := h.2.1
  rw [wdtStep, timerExpires_of_armed harmed, restarts_timerTick]
  exact h.ticks_ne_iff hphase

/-- A call keeps the countdown, unless a tick ends it. -/
theorem Effect.counting {dev dev' : Wdt} {phase : Phase} {op : WdtOp} {events : List WdtEvent}
    (heffect : Effect nowayout dev op dev' events) (h : Counting (dev, phase))
    (hattends : Attends (dev, phase) op) (hfits : FitsTimeout (dev, phase) op) :
    Counting (dev', phase.next nowayout op) := by
  obtain ⟨hrelease, hdisables, htick⟩ := hattends
  have hticks := fun hop => (h.ticks_ne_iff (htick hop)).mpr (hop ▸ hfits)
  obtain ⟨hinuse, harmed, hstarted, hpetted⟩ := h
  cases heffect with
  | idle _ hpets henables _ hop =>
    rw [Phase.next, if_neg hpets, if_neg henables, if_neg hop]
    exact ⟨hinuse, harmed, hstarted, hpetted⟩
  | petted _ hpets =>
    rw [Phase.next, if_pos hpets]
    exact ⟨hinuse, harmed, by simp, fun _ => rfl⟩
  | opened _ hclosed => exact absurd (hclosed.symm.trans hinuse) Bool.false_ne_true
  | enabled henables =>
    rw [Phase.next, if_neg fun hpets => hpets.not_enables henables, if_pos henables, wdtStart,
      timerTick_fst]
    exact ⟨hinuse, (Bool.or_eq_true ..).mpr (.inl harmed), fun _ => rfl, by simp⟩
  | disabled hdisables' => exact absurd hdisables' hdisables
  | released hop => exact absurd hop hrelease
  | ticked hop =>
    have hne : dev.ticks ≠ 1 := hticks hop
    subst hop
    rw [timerExpires_of_armed harmed, timerTick_fst]
    have hphase : phase.next nowayout .tick = .ticked := rfl
    rw [hphase]
    exact ⟨hinuse, by simp [hne], by simp, by simp⟩

theorem run_sessionStep (dev : Wdt) (phase : Phase) (ops : List WdtOp) :
    (run (sessionStep nowayout) (dev, phase) ops).1
      = ((run (wdtStep nowayout) dev ops).1, ops.foldl (Phase.next nowayout) phase) := by
  induction ops generalizing dev phase with
  | nil => rfl
  | cons op ops ih => exact ih _ _

/-- Where a tick came last, there was no pet since. -/
theorem foldl_next_eq_ticked {phase : Phase} (hphase : phase ≠ .ticked) {ops : List WdtOp}
    (h : ops.foldl (Phase.next nowayout) phase = .ticked) :
    ∃ before middle, ops = before ++ .tick :: middle ∧ ∀ op ∈ middle, ¬Pets nowayout op := by
  induction ops using List.reverseRecOn with
  | nil => exact absurd h hphase
  | append_singleton ops op ih =>
    rw [List.foldl_append, List.foldl_cons, List.foldl_nil, Phase.next] at h
    split_ifs at h with hpets henables hop
    · exact ⟨ops, [], by rw [hop], by simp⟩
    · obtain ⟨before, middle, rfl, hmiddle⟩ := ih h
      refine ⟨before, middle ++ [op], by simp, ?_⟩
      simpa [or_imp, forall_and, hpets] using hmiddle

theorem PettedBetweenTicks.attends {dev : Wdt} {ops : List WdtOp}
    (hpetted : PettedBetweenTicks nowayout ops)
    (hopen : ∀ op ∈ ops, op ≠ .release ∧ ¬Disables op) :
    Meets (sessionStep nowayout) Attends (dev, .started) ops := by
  rw [meets_iff]
  rintro before op after rfl
  refine ⟨(hopen op (by simp)).1, (hopen op (by simp)).2, ?_⟩
  rintro rfl hticked
  rw [run_sessionStep] at hticked
  obtain ⟨before', middle, rfl, hmiddle⟩ := foldl_next_eq_ticked (by decide) hticked
  obtain ⟨op, hop, hpets⟩ := hpetted before' middle after (by simp)
  exact hmiddle op hop hpets

theorem wdtStep_openDevice {dev : Wdt} (hclosed : dev.inuse = false) :
    wdtStep nowayout dev .openDevice = timerTick (wdtPet { dev with inuse := true }) := by
  simp [wdtStep, wdtOpen, hclosed, wdtStart]

theorem restarts_openDevice {dev : Wdt} (hclosed : dev.inuse = false) :
    Restarts (wdtStep nowayout dev .openDevice).2 ↔ dev.wdtTime.seconds ≠ 1 := by
  rw [wdtStep_openDevice hclosed, restarts_timerTick]
  rfl

theorem counting_openDevice {dev : Wdt} (hclosed : dev.inuse = false)
    (hne : dev.wdtTime.seconds ≠ 1) :
    Counting ((wdtStep nowayout dev .openDevice).1, .started) := by
  rw [wdtStep_openDevice hclosed, timerTick_fst]
  exact ⟨rfl, by simp [wdtPet, hne], fun _ => rfl, by simp⟩

end

/-- **A petted watchdog keeps running**, exactly if its timeouts are not too low. -/
theorem keeps_running_iff (nowayout : Int) (dev : Wdt) (hclosed : dev.inuse = false)
    {ops : List WdtOp} (hopen : ∀ op ∈ ops, op ≠ .release ∧ ¬Disables op)
    (hpetted : PettedBetweenTicks nowayout ops) :
    (Restarts (wdtStep nowayout dev .openDevice).2 ∧
      ∀ before after, ops = before ++ .tick :: after →
        Restarts (wdtStep nowayout
          (run (wdtStep nowayout) dev (.openDevice :: before)).1 .tick).2) ↔
      dev.wdtTime.seconds ≠ 1 ∧
        Meets (sessionStep nowayout) FitsTimeout
          ((wdtStep nowayout dev .openDevice).1, .started) ops := by
  refine ((restarts_openDevice hclosed).and Iff.rfl).trans (and_congr_right fun hne => ?_)
  -- The ticks of the run, as a condition on its steps.
  have hticks : (∀ before after, ops = before ++ .tick :: after →
        Restarts
          (wdtStep nowayout (run (wdtStep nowayout) dev (.openDevice :: before)).1 .tick).2) ↔
      Meets (sessionStep nowayout)
        (fun session op => op = .tick → Restarts (wdtStep nowayout session.1 .tick).2)
        ((wdtStep nowayout dev .openDevice).1, .started) ops := by
    simp only [meets_iff, run_sessionStep]
    constructor
    · rintro h before op after heq rfl
      exact h before after heq
    · intro h before after heq
      exact h before .tick after heq rfl
  rw [hticks]
  refine meets_congr (sessionStep nowayout) (I := Counting) (D := Attends) ?_ ?_
    (counting_openDevice hclosed hne) (hpetted.attends hopen)
  · rintro ⟨dev, phase⟩ op hcounting hattends
    refine ⟨?_, ?_⟩
    · rintro h rfl
      exact (hcounting.restarts_iff (hattends.2.2 rfl)).mp (h rfl) rfl
    · rintro h rfl
      exact (hcounting.restarts_iff (hattends.2.2 rfl)).mpr h
  · rintro ⟨dev, phase⟩ op hcounting hattends hfits
    exact (wdtStep_effect dev op).counting hcounting hattends hfits

/-- A process that pets the watchdog once in the first two seconds, at the default timeout. -/
theorem keeps_running_iff_default :
    Restarts (wdtStep 1 .probed .openDevice).2 ∧
      Restarts (wdtStep 1 (run (wdtStep 1) .probed
        [.openDevice, .tick, .ioctl .keepAlive ⟨none, false⟩]).1 .tick).2 := by
  have hpetted : PettedBetweenTicks 1 [.tick, .ioctl .keepAlive ⟨none, false⟩, .tick] := by
    intro before middle after heq
    have hlength := congrArg List.length heq
    simp only [List.length_append, List.length_cons, List.length_nil] at hlength
    cases before with
    | nil =>
      cases middle with
      | nil => simp at heq
      | cons op middle =>
        obtain ⟨rfl, -⟩ := List.cons.inj (List.cons.inj heq).2
        exact ⟨_, List.mem_cons_self .., trivial⟩
    | cons op before =>
      rw [List.length_cons] at hlength
      obtain rfl : before = [] := List.length_eq_zero_iff.mp (by omega)
      simp at heq
  obtain ⟨hopen, hticks⟩ := (keeps_running_iff 1 .probed rfl (by decide) hpetted).mpr
    (by decide)
  exact ⟨hopen, hticks [.tick, .ioctl .keepAlive ⟨none, false⟩] [] rfl⟩

/-- The device is closed with a timeout of one second. -/
def closedAtOne : List WdtOp :=
  [.openDevice, .ioctl .setTimeout ⟨some 1, true⟩, .write [some 'V'], .release]

/-- With a timeout of one second opening the device does nothing, and a tick after a pet ends the
countdown; with two seconds the first tick after the device was opened does. -/
theorem low_timeouts_expire :
    ¬Restarts (wdtStep 0 (run (wdtStep 0) .probed closedAtOne).1 .openDevice).2 ∧
    ¬Restarts (wdtStep 0 (run (wdtStep 0) .probed
        [.openDevice, .ioctl .setTimeout ⟨some 1, true⟩]).1 .tick).2 ∧
    ¬Restarts (wdtStep 0 (run (wdtStep 0) .probed
        [.openDevice, .ioctl .setTimeout ⟨some 2, true⟩, .release, .openDevice]).1 .tick).2 := by
  decide

/-! ### Without a pet -/

/-- The countdown is in its range, and has not ended while the timer is pending. -/
def Wdt.Running (dev : Wdt) : Prop :=
  dev.ticks ≤ wdtMaxTime ∧ (dev.armed = true → 0 < dev.ticks)

/-- The watchdog is not started with a timeout of one second while the timer is pending.  An `ioctl`
that disables it before has deleted the timer. -/
def StartsFresh (dev : Wdt) (op : WdtOp) : Prop :=
  (op = .openDevice ∧ dev.inuse = false ∨ op = .release ∧ dev.expectClose ≠ 42 ∨
    Enables op ∧ ¬Disables op) → dev.armed = true → dev.wdtTime.seconds ≠ 1

/-- How often the hardware is started in `n` seconds without a call. -/
def unattendedStarts (nowayout : Int) (dev : Wdt) (n : ℕ) : ℕ :=
  (run (wdtStep nowayout) dev (List.replicate n .tick)).2.count .hwStart

section

variable {nowayout : Int} {dev : Wdt}

/-- The end of the countdown is not passed while the timer is pending. -/
theorem running_timerTick (hmax : dev.ticks ≤ wdtMaxTime) (hpos : 0 < dev.ticks)
    (h : dev.armed = true → dev.ticks ≠ 1) : (timerTick dev).1.Running := by
  rw [timerTick_fst]
  refine ⟨?_, fun harmed => ?_⟩
  · show dev.ticks - 1 ≤ _
    omega
  · have hne : dev.ticks ≠ 1 := by
      rcases (Bool.or_eq_true ..).mp harmed with hold | hnew
      · exact h hold
      · exact of_decide_eq_true hnew
    show 0 < dev.ticks - 1
    omega

theorem running_wdtStart (h : dev.armed = true → dev.wdtTime.seconds ≠ 1) :
    (wdtStart dev).1.Running :=
  running_timerTick dev.wdtTime.le_max dev.wdtTime.pos h

theorem running_of_disables (h : dev.Running) {op : WdtOp} (hdisables : Disables op) :
    (wdtStep nowayout dev op).1.Running := by
  unfold Disables at hdisables
  split at hdisables
  · rename_i arg
    obtain ⟨value, hvalue, hstop⟩ := hdisables
    simp only [wdtStep, wdtIoctl, show arg.value = some value from hvalue, if_pos hstop]
    split_ifs
    · exact running_wdtStart nofun
    · exact ⟨h.1, nofun⟩
  · exact hdisables.elim

theorem Effect.running {op : WdtOp} {dev' : Wdt} {events : List WdtEvent}
    (heffect : Effect nowayout dev op dev' events) (h : dev.Running) (hfresh : StartsFresh dev op)
    (hdisables : ¬Disables op) : dev'.Running := by
  cases heffect with
  | idle => exact h
  | petted => exact ⟨Timeout.le_max _, fun _ => Timeout.pos _⟩
  | opened hop hclosed => exact running_wdtStart (hfresh (.inl ⟨hop, hclosed⟩))
  | enabled henables => exact running_wdtStart (hfresh (.inr (.inr ⟨henables, hdisables⟩)))
  | disabled hdisables' => exact absurd hdisables' hdisables
  | released hop =>
    unfold wdtRelease
    split_ifs with hclose
    · exact ⟨h.1, nofun⟩
    · exact running_wdtStart (hfresh (.inr (.inl ⟨hop, hclose⟩)))
  | ticked =>
    unfold timerExpires
    split_ifs with harmed
    · exact running_timerTick h.1 (h.2 harmed) nofun
    · exact h

theorem unattendedStarts_succ (dev : Wdt) (n : ℕ) : unattendedStarts nowayout dev (n + 1)
    = (timerExpires dev).2.count .hwStart
      + unattendedStarts nowayout (timerExpires dev).1 n := by
  rw [unattendedStarts, List.replicate_succ, run_cons, List.count_append]
  rfl

/-- A countdown that has not ended comes to its end. -/
theorem unattendedStarts_le (h : dev.armed = true → 0 < dev.ticks) (n : ℕ) :
    unattendedStarts nowayout dev n ≤ (dev.ticks - 1).toNat := by
  induction n generalizing dev with
  | zero => exact Nat.zero_le _
  | succ n ih =>
    rw [unattendedStarts_succ, timerExpires]
    split_ifs with harmed
    · have hpos := h harmed
      simp only [timerTick]
      split_ifs with hticks
      · have hrest := @ih { dev with ticks := dev.ticks - 1, armed := true } fun _ => by
          show 0 < dev.ticks - 1
          omega
        grind
      · have hrest := @ih { dev with ticks := dev.ticks - 1, armed := false } nofun
        grind
    · simpa using ih h

/-- One that has ended already goes on below zero. -/
theorem unattendedStarts_eq (harmed : dev.armed = true) (hticks : dev.ticks ≤ 0) (n : ℕ) :
    unattendedStarts nowayout dev n = n := by
  induction n generalizing dev with
  | zero => rfl
  | succ n ih =>
    have hne : dev.ticks - 1 ≠ 0 := by omega
    rw [unattendedStarts_succ, timerExpires_of_armed harmed, timerTick, if_pos hne, ih rfl]
    · simp [Nat.add_comm]
    · show dev.ticks - 1 ≤ 0
      omega

end

/-- **Without a pet** the hardware is started less than 256 times more after any run, if the
watchdog was never started with a timeout of one second while the timer was pending.  If it is, by a
process that ends without closing the device as expected, the countdown passes zero unseen, and the
hardware is started on every tick, until the 32 bits of the countdown are used up. -/
theorem unattended_watchdog (nowayout : Int) :
    (∀ ops, Meets (wdtStep nowayout) StartsFresh .probed ops →
      ∀ n, unattendedStarts nowayout (run (wdtStep nowayout) .probed ops).1 n < 256) ∧
    ∀ dev : Wdt, dev.armed = true → dev.wdtTime.seconds = 1 → dev.expectClose ≠ 42 →
      ∀ n < 2 ^ 31, unattendedStarts nowayout (wdtStep nowayout dev .release).1 n = n := by
  refine ⟨fun ops hfresh n => ?_, fun dev harmed htime hclose n _ => ?_⟩
  · have h : (run (wdtStep nowayout) .probed ops).1.Running :=
      run_inv_of_meets (wdtStep nowayout) (P := fun dev _ => dev.Running)
        (fun dev _ op hfresh h => by
          by_cases hdisables : Disables op
          · exact running_of_disables h hdisables
          · exact (wdtStep_effect dev op).running h hfresh hdisables)
        ops _ [] ⟨by decide, nofun⟩ hfresh
    have hle : unattendedStarts nowayout _ n ≤ _ := unattendedStarts_le h.2 n
    have hmax : _ ≤ (256 : Int) := h.1
    omega
  · have hdev : (wdtStep nowayout dev .release).1
        = { dev with ticks := 0, inuse := false, expectClose := 0 } := by
      simp [wdtStep, wdtRelease, hclose, wdtStart, timerTick_fst, wdtPet, htime, harmed]
    rw [hdev]
    exact unattendedStarts_eq (by exact harmed) (Int.le_refl 0) n

/-- A process that opens the device and is stopped, and one that sets the timeout to a second and
ends. -/
theorem unattended_watchdog_one_second :
    unattendedStarts 1 (run (wdtStep 1) .probed [.openDevice]).1 1000 < 256 ∧
      unattendedStarts 1 (wdtStep 1 (run (wdtStep 1) .probed
        [.openDevice, .ioctl .setTimeout ⟨some 1, true⟩]).1 .release).1 1000 = 1000 :=
  ⟨(unattended_watchdog 1).1 [.openDevice] ⟨fun _ => nofun, trivial⟩ 1000,
    (unattended_watchdog 1).2 _ (by decide) (by decide) (by decide) 1000 (by decide)⟩

end Neufbox.Watchdog
