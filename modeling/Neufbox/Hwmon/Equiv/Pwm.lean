import Neufbox.Hwmon.Equiv.Transfers
import Neufbox.Lib.Run
import Mathlib.Data.List.Induction

/-!
# The levels of the LEDs

`pwm_config` remembers the value it was last called with and writes only if the new one differs,
directly or by scheduled work.  So a call that finds its value in the cache makes no transfer, and
the register holds the value only if it did before: an earlier write may have failed, or its work
may still be pending (`leds_follow_iff`).

The operations are the calls, one round of `leds_sync` at a time, and the work of an LED, in any
order.  Beside the driver the state has, for each LED, the calls that wait for its work: how many
transfers had been made when they began.
-/

namespace Neufbox.Hwmon

open Machine Function

/-! ### Operations -/

variable (bus : ℕ → BusResult)

inductive PwmOp where
  | pwmConfig (led : Fin 9) (dutyNs : BitVec 32) (inAtomic : Bool)
  | ledsConfig (id value : UInt8) (inAtomic : Bool)
  /-- `set_leds_pwm` up to `leds_sync`. -/
  | setLevel (buf : String)
  /-- A round of `leds_sync`. -/
  | syncLed (led : Fin 9)
  /-- The work queue comes to the work of an LED. -/
  | work (led : Fin 9)

/-- The driver after the operation. -/
def PwmOp.apply (dev : Nb6hwmonData) : PwmOp → Nb6hwmonData
  | pwmConfig led dutyNs inAtomic => Hwmon.pwmConfig bus dev led dutyNs inAtomic
  | ledsConfig id value inAtomic => Hwmon.ledsConfig bus dev id value inAtomic
  | setLevel buf => Hwmon.setLevel bus dev buf
  | syncLed led => Hwmon.syncLed bus dev led
  | work led => if (dev.pwmDev led).scheduled then runWork bus dev led else dev

/-- What an operation amounts to for the LEDs. -/
inductive PwmAct where
  | call (led : Fin 9) (dutyNs : BitVec 32) (inAtomic : Bool)
  | work (led : Fin 9)
  | other

def PwmOp.act (dev : Nb6hwmonData) : PwmOp → PwmAct
  | pwmConfig led dutyNs inAtomic => .call led dutyNs inAtomic
  | ledsConfig id value inAtomic =>
    match pwmRequest id.toNat with
    | some led => .call led (value.toBitVec.setWidth 32) inAtomic
    | none => .other
  | setLevel _ => .other
  | syncLed led => .call led (((dev.pwmDev led).config.setWidth 8).setWidth 32) false
  | work led => if (dev.pwmDev led).scheduled then .work led else .other

/-- A call of `pwm_config` is complete: the transfers since its start, and the register of the LED,
its configuration and the reference level now. -/
structure Completion where
  transfers : List Transfer
  register : UInt8
  config : BitVec 32
  pwmRefLevel : UInt8

/-- If every transfer succeeded, the register holds the value for the configuration. -/
def Completion.Follows (done : Completion) : Prop :=
  (∀ transfer ∈ done.transfers, transfer.result.isOk = true) →
    done.register.toBitVec.setWidth 32 = levelled done.config done.pwmRefLevel

instance (done : Completion) : Decidable done.Follows :=
  inferInstanceAs (Decidable ((∀ transfer ∈ done.transfers, transfer.result.isOk = true) →
    done.register.toBitVec.setWidth 32 = levelled done.config done.pwmRefLevel))

structure PwmState where
  dev : Nb6hwmonData
  waiting : Fin 9 → List ℕ

def completion (dev : Nb6hwmonData) (led : Fin 9) (start : ℕ) : Completion where
  transfers := dev.log.drop start
  register := register dev.log (ledId led)
  config := (dev.pwmDev led).config
  pwmRefLevel := dev.pwmRefLevel

/-- The call leaves the write to the work. -/
def defers (dev : Nb6hwmonData) (led : Fin 9) (dutyNs : BitVec 32) (inAtomic : Bool) : Prop :=
  (dev.pwmDev led).value ≠ levelled dutyNs dev.pwmRefLevel ∧ inAtomic = true

instance (dev : Nb6hwmonData) (led : Fin 9) (dutyNs : BitVec 32) (inAtomic : Bool) :
    Decidable (defers dev led dutyNs inAtomic) :=
  inferInstanceAs (Decidable ((dev.pwmDev led).value ≠ levelled dutyNs dev.pwmRefLevel ∧
    inAtomic = true))

def pwmStep (s : PwmState) (op : PwmOp) : PwmState × List Completion :=
  let dev := op.apply bus s.dev
  match op.act s.dev with
  | .call led dutyNs inAtomic =>
    if defers s.dev led dutyNs inAtomic then
      (⟨dev, update s.waiting led (s.waiting led ++ [s.dev.log.length])⟩, [])
    else (⟨dev, s.waiting⟩, [completion dev led s.dev.log.length])
  | .work led => (⟨dev, update s.waiting led []⟩, (s.waiting led).map (completion dev led))
  | .other => (⟨dev, s.waiting⟩, [])

theorem pwmRequest_ledId : ∀ led : Fin 9, pwmRequest (ledId led).toNat = some led := by
  decide

theorem apply_of_call {bus : ℕ → BusResult} {dev : Nb6hwmonData} {op : PwmOp} {led : Fin 9}
    {dutyNs : BitVec 32} {inAtomic : Bool} (h : op.act dev = .call led dutyNs inAtomic) :
    op.apply bus dev = pwmConfig bus dev led dutyNs inAtomic := by
  cases op with
  | pwmConfig led' dutyNs' inAtomic' =>
    obtain ⟨rfl, rfl, rfl⟩ := PwmAct.call.inj h
    rfl
  | ledsConfig id value inAtomic' =>
    show ledsConfig bus dev id value inAtomic' = _
    simp only [PwmOp.act] at h
    rw [ledsConfig]
    cases hrequest : pwmRequest id.toNat with
    | none => simp [hrequest] at h
    | some led' =>
      rw [hrequest] at h
      obtain ⟨rfl, rfl, rfl⟩ := PwmAct.call.inj h
      rfl
  | setLevel buf => exact nomatch h
  | syncLed led' =>
    obtain ⟨rfl, rfl, rfl⟩ := PwmAct.call.inj h
    show syncLed bus dev led' = _
    rw [syncLed, ledsConfig, pwmRequest_ledId]
  | work led' =>
    simp only [PwmOp.act] at h
    split at h <;> exact nomatch h

theorem apply_of_work {bus : ℕ → BusResult} {dev : Nb6hwmonData} {op : PwmOp} {led : Fin 9}
    (h : op.act dev = .work led) : op.apply bus dev = runWork bus dev led := by
  cases op with
  | pwmConfig led' dutyNs inAtomic => exact nomatch h
  | ledsConfig id value inAtomic =>
    simp only [PwmOp.act] at h
    split at h <;> exact nomatch h
  | setLevel buf => exact nomatch h
  | syncLed led' => exact nomatch h
  | work led' =>
    simp only [PwmOp.act] at h
    split at h
    · obtain rfl := PwmAct.work.inj h
      rw [PwmOp.apply, if_pos ‹_›]
    · exact nomatch h

theorem apply_of_other {bus : ℕ → BusResult} {dev : Nb6hwmonData} {op : PwmOp}
    (h : op.act dev = .other) :
    op.apply bus dev = dev ∨
      ∃ level, op.apply bus dev
        = ledsSetMode bus { dev with pwmRefLevel := level } ledsModeControl := by
  cases op with
  | pwmConfig led dutyNs inAtomic => exact nomatch h
  | ledsConfig id value inAtomic =>
    left
    show ledsConfig bus dev id value inAtomic = dev
    simp only [PwmOp.act] at h
    rw [ledsConfig]
    cases hrequest : pwmRequest id.toNat with
    | none => rfl
    | some led => simp [hrequest] at h
  | setLevel buf =>
    show setLevel bus dev buf = dev ∨ ∃ level, setLevel bus dev buf = _
    rw [setLevel]
    cases parseLevel buf with
    | none => exact .inl rfl
    | some level => exact .inr ⟨level, rfl⟩
  | syncLed led => exact nomatch h
  | work led =>
    left
    simp only [PwmOp.act] at h
    split at h
    · exact nomatch h
    · rw [PwmOp.apply, if_neg ‹_›]

/-- The operations of an attribute write are `set_leds_pwm`. -/
theorem run_setLedsPwm (s : PwmState) (buf : String) :
    (run (pwmStep bus) s (.setLevel buf :: (List.finRange 9).map .syncLed)).1
      = ⟨setLedsPwm bus s.dev buf, s.waiting⟩ := by
  have hsync : ∀ (leds : List (Fin 9)) (s : PwmState),
      (run (pwmStep bus) s (leds.map .syncLed)).1
        = ⟨leds.foldl (syncLed bus) s.dev, s.waiting⟩ := by
    intro leds
    induction leds with
    | nil => exact fun s => rfl
    | cons led leds ih =>
      intro s
      -- The calls of `leds_sync` are never left to the work.
      have hstep : (pwmStep bus s (.syncLed led)).1 = ⟨syncLed bus s.dev led, s.waiting⟩ := by
        simp [pwmStep, PwmOp.act, PwmOp.apply, defers]
      rw [List.map_cons, run_cons, hstep, ih]
      rfl
  have hset : (pwmStep bus s (.setLevel buf)).1 = ⟨setLevel bus s.dev buf, s.waiting⟩ := by
    simp [pwmStep, PwmOp.act, PwmOp.apply]
  rw [run_cons, hset, hsync, setLedsPwm, ledsSync]

/-! ### What the operations do -/

/-- The transfers of a write. -/
def written (log : List Transfer) (led : Fin 9) (value : BitVec 32) :
    List Transfer := logged log (.write (ledId led) ⟨value.setWidth 8⟩) (fiveResults bus log)

theorem pwmConfig_log (dev : Nb6hwmonData) (led : Fin 9)
    (dutyNs : BitVec 32) (inAtomic : Bool) :
    (pwmConfig bus dev led dutyNs inAtomic).log
      = if (dev.pwmDev led).value = levelled dutyNs dev.pwmRefLevel ∨ inAtomic = true then dev.log
        else written bus dev.log led (levelled dutyNs dev.pwmRefLevel) := by
  rw [pwmConfig]
  by_cases hvalue : (dev.pwmDev led).value = levelled dutyNs dev.pwmRefLevel
  · rw [if_pos hvalue, if_pos (.inl hvalue)]
  · cases inAtomic with
    | true => simp [hvalue]
    | false => simp [hvalue, pwmWork, mcuWrite_eq, written]

theorem pwmConfig_config (dev : Nb6hwmonData) (led : Fin 9)
    (dutyNs : BitVec 32) (inAtomic : Bool) :
    ((pwmConfig bus dev led dutyNs inAtomic).pwmDev led).config = dutyNs := by
  simp only [pwmConfig, pwmWork]
  split_ifs <;> simp

theorem pwmConfig_pwmRefLevel (dev : Nb6hwmonData) (led : Fin 9)
    (dutyNs : BitVec 32) (inAtomic : Bool) :
    (pwmConfig bus dev led dutyNs inAtomic).pwmRefLevel = dev.pwmRefLevel := by
  simp only [pwmConfig, pwmWork]
  split_ifs <;> rfl

theorem runWork_log (dev : Nb6hwmonData) (led : Fin 9) :
    (runWork bus dev led).log = written bus dev.log led (dev.pwmDev led).value := by
  simp [runWork, pwmWork, mcuWrite_eq, written]

theorem runWork_config (dev : Nb6hwmonData) (led : Fin 9) :
    ((runWork bus dev led).pwmDev led).config = (dev.pwmDev led).config := by
  simp [runWork, pwmWork]

theorem ledsSetMode_log (dev : Nb6hwmonData) (mode : UInt8) :
    (ledsSetMode bus dev mode).log = dev.log ∨
      (ledsSetMode bus dev mode).log
        = logged dev.log (.write nb6LedsModeCmd mode) (fiveResults bus dev.log) := by
  simp only [ledsSetMode, mcuWrite_eq]
  split_ifs
  · exact .inl rfl
  · exact .inr rfl
  · exact .inl rfl

/-- The transfers only get more. -/
theorem prefix_apply_log (dev : Nb6hwmonData) (op : PwmOp) :
    dev.log <+: (op.apply bus dev).log := by
  cases hact : op.act dev with
  | call led dutyNs inAtomic =>
    rw [apply_of_call hact, pwmConfig_log]
    split_ifs
    · exact List.prefix_refl _
    · exact List.prefix_append ..
  | work led =>
    rw [apply_of_work hact, runWork_log]
    exact List.prefix_append ..
  | other =>
    rcases apply_of_other hact with heq | ⟨level, heq⟩
    · exact ⟨[], by rw [heq, List.append_nil]⟩
    · rcases ledsSetMode_log bus { dev with pwmRefLevel := level } ledsModeControl with h | h
      · exact ⟨[], by rw [heq, h, List.append_nil]⟩
      · rw [heq, h]
        exact List.prefix_append ..

/-! ### Registers -/

/-- A register holds the value of a write of which a transfer succeeded. -/
theorem register_logged (log : List Transfer) (addr val addr' : UInt8)
    (results : List BusResult) :
    register (logged log (.write addr val) results) addr'
      = if addr = addr' ∧ ∃ result ∈ results, result.isOk = true then val
        else register log addr' := by
  induction results using List.reverseRecOn with
  | nil => simp [logged]
  | append_singleton results result ih =>
    have hlogged : logged log (.write addr val) (results ++ [result])
        = logged log (.write addr val) results ++ [⟨.write addr val, result⟩] := by
      simp [logged]
    have hlast :
        register (logged log (.write addr val) results ++ [⟨.write addr val, result⟩]) addr'
          = if addr = addr' ∧ result.isOk = true then val
            else register (logged log (.write addr val) results) addr' := by
      rw [register, List.foldl_append]
      rfl
    rw [hlogged, hlast, ih]
    by_cases haddr : addr = addr'
    · by_cases hok : result.isOk = true <;> simp [haddr, hok]
    · simp [haddr]

theorem exists_fiveResults_ok {bus : ℕ → BusResult} {log : List Transfer}
    (h : ∀ result ∈ fiveResults bus log, result.isOk = true) :
    ∃ result ∈ fiveResults bus log, result.isOk = true :=
  ⟨_, List.mem_map.mpr ⟨0, by decide, rfl⟩, h _ (List.mem_map.mpr ⟨0, by decide, rfl⟩)⟩

/-- After a write of which a transfer succeeded, the register holds the byte. -/
theorem register_written {bus : ℕ → BusResult} {log : List Transfer}
    (h : ∃ result ∈ fiveResults bus log, result.isOk = true) (led : Fin 9) (value : BitVec 32) :
    register (written bus log led value) (ledId led) = ⟨value.setWidth 8⟩ := by
  rw [written, register_logged, if_pos ⟨rfl, h⟩]

/-- The transfers since `start`, when five more are made. -/
theorem forall_mem_drop_written {bus : ℕ → BusResult} {log : List Transfer} {start : ℕ}
    (hstart : start ≤ log.length) (led : Fin 9) (value : BitVec 32) :
    (∀ transfer ∈ (written bus log led value).drop start, transfer.result.isOk = true) ↔
      (∀ transfer ∈ log.drop start, transfer.result.isOk = true) ∧
        ∀ result ∈ fiveResults bus log, result.isOk = true := by
  rw [written, logged, List.drop_append_of_le_length hstart, List.forall_mem_append]
  simp

theorem setWidth_setWidth_eq_iff (value : BitVec 32) :
    (value.setWidth 8).setWidth 32 = value ↔ value.toNat < 256 := by
  rw [BitVec.toNat_eq, BitVec.toNat_setWidth, BitVec.toNat_setWidth]
  have hlt := value.isLt
  omega

/-! ### Following the configuration -/

/-- What the calls need.  A call that finds its value in the cache: the register holds it.  One that
writes: if the transfers succeed, the value is a byte.  The work: for a waiting call of which all
transfers succeed, what is written is the value for the configuration. -/
def FitsPwm (s : PwmState) (op : PwmOp) : Prop :=
  match op.act s.dev with
  | .call led dutyNs inAtomic =>
    if (s.dev.pwmDev led).value = levelled dutyNs s.dev.pwmRefLevel then
      (register s.dev.log (ledId led)).toBitVec.setWidth 32 = levelled dutyNs s.dev.pwmRefLevel
    else inAtomic = false → (∀ result ∈ fiveResults bus s.dev.log, result.isOk = true) →
      (levelled dutyNs s.dev.pwmRefLevel).toNat < 256
  | .work led =>
    ∀ start ∈ s.waiting led, (∀ transfer ∈ s.dev.log.drop start, transfer.result.isOk = true) →
      (∀ result ∈ fiveResults bus s.dev.log, result.isOk = true) →
        ((s.dev.pwmDev led).value.setWidth 8).setWidth 32
          = levelled (s.dev.pwmDev led).config s.dev.pwmRefLevel
  | .other => True

/-- The calls that wait began before now. -/
def WaitingBefore (s : PwmState) : Prop :=
  ∀ led, ∀ start ∈ s.waiting led, start ≤ s.dev.log.length

theorem pwmStep_dev (s : PwmState) (op : PwmOp) :
    (pwmStep bus s op).1.dev = op.apply bus s.dev := by
  simp only [pwmStep]
  split
  · split_ifs <;> rfl
  · rfl
  · rfl

theorem mem_waiting_pwmStep {bus : ℕ → BusResult} {s : PwmState} {op : PwmOp} {led : Fin 9}
    {start : ℕ} (h : start ∈ (pwmStep bus s op).1.waiting led) :
    start ∈ s.waiting led ∨
      start = s.dev.log.length ∧ ∃ dutyNs, op.act s.dev = .call led dutyNs true := by
  simp only [pwmStep] at h
  split at h
  case h_1 led' dutyNs inAtomic hact =>
    split_ifs at h with hdefers
    · by_cases hled : led = led'
      · subst hled
        obtain ⟨-, rfl⟩ := hdefers
        simp only [update_self, List.mem_append, List.mem_singleton] at h
        exact h.imp_right fun heq => ⟨heq, dutyNs, hact⟩
      · exact .inl (by simpa [update_of_ne hled] using h)
    · exact .inl h
  case h_2 led' hact =>
    by_cases hled : led = led'
    · subst hled
      simp at h
    · exact .inl (by simpa [update_of_ne hled] using h)
  case h_3 => exact .inl h

theorem waitingBefore_pwmStep {bus : ℕ → BusResult} {s : PwmState} (h : WaitingBefore s)
    (op : PwmOp) : WaitingBefore (pwmStep bus s op).1 := by
  intro led start hmem
  have hle : s.dev.log.length ≤ (pwmStep bus s op).1.dev.log.length := by
    rw [pwmStep_dev]
    exact (prefix_apply_log bus s.dev op).length_le
  rcases mem_waiting_pwmStep hmem with hmem | ⟨rfl, -⟩
  · exact (h led start hmem).trans hle
  · exact hle

theorem follows_call_iff (dev : Nb6hwmonData) (led : Fin 9)
    (dutyNs : BitVec 32) {inAtomic : Bool} (h : ¬defers dev led dutyNs inAtomic) :
    (completion (pwmConfig bus dev led dutyNs inAtomic) led dev.log.length).Follows ↔
      if (dev.pwmDev led).value = levelled dutyNs dev.pwmRefLevel then
        (register dev.log (ledId led)).toBitVec.setWidth 32 = levelled dutyNs dev.pwmRefLevel
      else inAtomic = false → (∀ result ∈ fiveResults bus dev.log, result.isOk = true) →
        (levelled dutyNs dev.pwmRefLevel).toNat < 256 := by
  simp only [Completion.Follows, completion, pwmConfig_config, pwmConfig_pwmRefLevel,
    pwmConfig_log]
  by_cases hvalue : (dev.pwmDev led).value = levelled dutyNs dev.pwmRefLevel
  · rw [if_pos hvalue, if_pos (.inl hvalue)]
    -- There was no transfer.
    simp
  · have hatomic : inAtomic = false := by
      by_contra hne
      exact h ⟨hvalue, Bool.eq_true_of_not_eq_false hne⟩
    have hnot : ¬((dev.pwmDev led).value = levelled dutyNs dev.pwmRefLevel ∨ inAtomic = true) := by
      simp [hvalue, hatomic]
    rw [if_neg hvalue, if_neg hnot, forall_mem_drop_written le_rfl, forall_prop_of_true hatomic]
    have hnil : ∀ transfer ∈ dev.log.drop dev.log.length, transfer.result.isOk = true := by simp
    rw [and_iff_right hnil]
    apply forall_congr'
    intro hok
    rw [register_written (exists_fiveResults_ok hok), setWidth_setWidth_eq_iff]

theorem follows_work_iff (dev : Nb6hwmonData) (led : Fin 9) {start : ℕ}
    (hstart : start ≤ dev.log.length) :
    (completion (runWork bus dev led) led start).Follows ↔
      ((∀ transfer ∈ dev.log.drop start, transfer.result.isOk = true) →
        (∀ result ∈ fiveResults bus dev.log, result.isOk = true) →
          ((dev.pwmDev led).value.setWidth 8).setWidth 32
            = levelled (dev.pwmDev led).config dev.pwmRefLevel) := by
  simp only [Completion.Follows, completion, runWork_config, runWork_log]
  rw [forall_mem_drop_written hstart, and_imp]
  apply forall_congr'
  intro _
  apply forall_congr'
  intro hok
  rw [register_written (exists_fiveResults_ok hok)]
  rfl

theorem follows_pwmStep_iff (s : PwmState) (op : PwmOp)
    (h : WaitingBefore s) :
    (∀ done ∈ (pwmStep bus s op).2, done.Follows) ↔ FitsPwm bus s op := by
  rw [FitsPwm, pwmStep]
  cases hact : op.act s.dev with
  | call led dutyNs inAtomic =>
    dsimp only
    by_cases hdefers : defers s.dev led dutyNs inAtomic
    · -- The call is not complete.
      rw [if_pos hdefers, if_neg hdefers.1]
      refine iff_of_true (fun done hmem => nomatch hmem) fun hatomic => ?_
      exact absurd (hatomic.symm.trans hdefers.2) Bool.false_ne_true
    · rw [if_neg hdefers, List.forall_mem_singleton, apply_of_call hact]
      exact follows_call_iff bus s.dev led dutyNs hdefers
  | work led =>
    dsimp only
    rw [List.forall_mem_map, apply_of_work hact]
    apply forall₂_congr
    intro start hmem
    exact follows_work_iff bus s.dev led (h led start hmem)
  | other => exact iff_of_true (fun done hmem => nomatch hmem) trivial

/-! ### Writes that get through -/

/-- The calls are made with bytes, and where they may sleep. -/
def PwmOp.Direct : PwmOp → Prop
  | pwmConfig _ dutyNs inAtomic => dutyNs.toNat < 256 ∧ inAtomic = false
  | ledsConfig _ _ inAtomic => inAtomic = false
  | _ => True

/-- Every register holds the value in the cache. -/
def Mirrors (dev : Nb6hwmonData) : Prop :=
  ∀ led, (register dev.log (ledId led)).toBitVec.setWidth 32 = (dev.pwmDev led).value

theorem levelled_toNat_lt {dutyNs : BitVec 32} (h : dutyNs.toNat < 256) (level : UInt8) :
    (levelled dutyNs level).toNat < 256 := by
  rw [levelled]
  split_ifs
  · rw [BitVec.toNat_or]
    have hduty : (dutyNs &&& ~~~ledMask).toNat < 2 ^ 8 := by
      rw [BitVec.toNat_and]
      exact Nat.lt_of_le_of_lt Nat.and_le_left h
    have hlevel : (level.toBitVec.setWidth 32).toNat < 2 ^ 8 := by
      rw [BitVec.toNat_setWidth]
      have := level.toBitVec.isLt
      omega
    exact Nat.or_lt_two_pow hduty hlevel
  · exact h

theorem PwmOp.Direct.act {op : PwmOp} (h : op.Direct) {dev : Nb6hwmonData} {led : Fin 9}
    {dutyNs : BitVec 32} {inAtomic : Bool} (hact : op.act dev = .call led dutyNs inAtomic) :
    dutyNs.toNat < 256 ∧ inAtomic = false := by
  have hbyte : ∀ byte : BitVec 8, (byte.setWidth 32).toNat < 256 := by
    intro byte
    rw [BitVec.toNat_setWidth]
    have := byte.isLt
    omega
  cases op with
  | pwmConfig led' dutyNs' inAtomic' =>
    obtain ⟨rfl, rfl, rfl⟩ := PwmAct.call.inj hact
    exact h
  | ledsConfig id value inAtomic' =>
    simp only [PwmOp.act] at hact
    split at hact
    · obtain ⟨rfl, rfl, rfl⟩ := PwmAct.call.inj hact
      exact ⟨hbyte _, h⟩
    · exact nomatch hact
  | setLevel buf => exact nomatch hact
  | syncLed led' =>
    obtain ⟨rfl, rfl, rfl⟩ := PwmAct.call.inj hact
    exact ⟨hbyte _, rfl⟩
  | work led' =>
    simp only [PwmOp.act] at hact
    split at hact <;> exact nomatch hact

theorem ledId_injective : ∀ led led' : Fin 9, ledId led = ledId led' → led = led' := by
  decide

theorem ledId_ne_nb6LedsModeCmd : ∀ led : Fin 9, nb6LedsModeCmd ≠ ledId led := by
  decide

theorem register_written_of_ne (log : List Transfer) {led led' : Fin 9}
    (h : led' ≠ led) (value : BitVec 32) :
    register (written bus log led value) (ledId led') = register log (ledId led') := by
  rw [written, register_logged, if_neg fun hand => h (ledId_injective _ _ hand.1).symm]

theorem pwmConfig_value (dev : Nb6hwmonData) (led : Fin 9)
    (dutyNs : BitVec 32) (inAtomic : Bool) (led' : Fin 9) :
    ((pwmConfig bus dev led dutyNs inAtomic).pwmDev led').value
      = if led' = led then levelled dutyNs dev.pwmRefLevel else (dev.pwmDev led').value := by
  by_cases hled : led' = led
  · subst hled
    simp only [pwmConfig, pwmWork]
    split_ifs <;> simp
  · simp only [pwmConfig, pwmWork]
    split_ifs <;> simp [hled]

section BusOk

-- Of the five transfers of a write one is enough.
variable {bus : ℕ → BusResult} (hbus : ∀ n, ∃ i < 5, (bus (n + i)).isOk = true)

include hbus

theorem fiveResults_ok (log : List Transfer) :
    ∃ result ∈ fiveResults bus log, result.isOk = true := by
  obtain ⟨i, hi, hok⟩ := hbus log.length
  exact ⟨_, List.mem_map.mpr ⟨i, List.mem_range.mpr hi, rfl⟩, hok⟩

theorem mirrors_pwmConfig {dev : Nb6hwmonData} (h : Mirrors dev) (led : Fin 9)
    {dutyNs : BitVec 32} (hbyte : dutyNs.toNat < 256) :
    Mirrors (pwmConfig bus dev led dutyNs false) := by
  intro led'
  rw [pwmConfig_log, pwmConfig_value]
  by_cases hvalue : (dev.pwmDev led).value = levelled dutyNs dev.pwmRefLevel
  · rw [if_pos (.inl hvalue), h led']
    split_ifs with hled
    · rw [hled, hvalue]
    · rfl
  · rw [if_neg (by simp [hvalue])]
    split_ifs with hled
    · rw [hled, register_written (fiveResults_ok hbus _)]
      exact (setWidth_setWidth_eq_iff _).mpr (levelled_toNat_lt hbyte _)
    · rw [register_written_of_ne bus _ hled, h led']

theorem mirrors_runWork {dev : Nb6hwmonData} (h : Mirrors dev) (led : Fin 9) :
    Mirrors (runWork bus dev led) := by
  intro led'
  have hvalue : ((runWork bus dev led).pwmDev led').value = (dev.pwmDev led').value := by
    by_cases hled : led' = led
    · subst hled
      simp [runWork, pwmWork]
    · simp [runWork, pwmWork, hled]
  rw [runWork_log, hvalue]
  by_cases hled : led' = led
  · rw [hled, register_written (fiveResults_ok hbus _), ← h led]
    exact congrArg (BitVec.setWidth 32) (by simp)
  · rw [register_written_of_ne bus _ hled, h led']

theorem mirrors_apply {dev : Nb6hwmonData} (h : Mirrors dev) {op : PwmOp} (hop : op.Direct) :
    Mirrors (op.apply bus dev) := by
  cases hact : op.act dev with
  | call led dutyNs inAtomic =>
    obtain ⟨hbyte, rfl⟩ := hop.act hact
    rw [apply_of_call hact]
    exact mirrors_pwmConfig hbus h led hbyte
  | work led =>
    rw [apply_of_work hact]
    exact mirrors_runWork hbus h led
  | other =>
    rcases apply_of_other hact with heq | ⟨level, heq⟩
    · rwa [heq]
    · rw [heq]
      intro led
      have hdev : (ledsSetMode bus { dev with pwmRefLevel := level } ledsModeControl).pwmDev
          = dev.pwmDev := by
        rw [ledsSetMode]
        split_ifs <;> rfl
      rw [hdev, ← h led]
      rcases ledsSetMode_log bus { dev with pwmRefLevel := level } ledsModeControl with h' | h'
      · rw [h']
      · rw [h', register_logged, if_neg fun hand => ledId_ne_nb6LedsModeCmd led hand.1]

/-- **A call that writes at once** is complete with the value for its configuration in the
register. -/
theorem pwmStep_mirrors {s : PwmState} (h : Mirrors s.dev) (hwaiting : ∀ led, s.waiting led = [])
    {op : PwmOp} (hop : op.Direct) :
    Mirrors (pwmStep bus s op).1.dev ∧ (∀ led, (pwmStep bus s op).1.waiting led = []) ∧
      ∀ done ∈ (pwmStep bus s op).2,
        done.register.toBitVec.setWidth 32 = levelled done.config done.pwmRefLevel := by
  have hmirrors : Mirrors (op.apply bus s.dev) := mirrors_apply hbus h hop
  refine ⟨?_, fun led => List.eq_nil_iff_forall_not_mem.mpr fun start hmem => ?_, ?_⟩
  · rwa [pwmStep_dev]
  · rcases mem_waiting_pwmStep hmem with hmem | ⟨-, dutyNs, hact⟩
    · rw [hwaiting led] at hmem
      exact nomatch hmem
    · exact absurd (hop.act hact).2 Bool.true_eq_false.mp
  · simp only [pwmStep]
    split
    case h_1 led dutyNs inAtomic hact =>
      obtain ⟨-, rfl⟩ := hop.act hact
      rw [if_neg fun hdefers => Bool.false_ne_true hdefers.2, List.forall_mem_singleton]
      rw [apply_of_call hact] at hmirrors ⊢
      rw [completion, hmirrors led, pwmConfig_value, if_pos rfl, pwmConfig_config,
        pwmConfig_pwmRefLevel]
    case h_2 led hact =>
      rw [hwaiting led]
      exact fun _ hmem => nomatch hmem
    case h_3 => exact fun _ hmem => nomatch hmem

theorem registers_of_mirrors {dev : Nb6hwmonData} (h : Mirrors dev) {ops : List PwmOp}
    (hops : ∀ op ∈ ops, op.Direct) :
    ∀ done ∈ (run (pwmStep bus) ⟨dev, fun _ => []⟩ ops).2,
      done.register.toBitVec.setWidth 32 = levelled done.config done.pwmRefLevel := by
  refine (run_inv_of_meets (pwmStep bus) (C := fun _ op => op.Direct)
    (P := fun s history => Mirrors s.dev ∧ (∀ led, s.waiting led = []) ∧
      ∀ done ∈ history, done.register.toBitVec.setWidth 32
        = levelled done.config done.pwmRefLevel) ?_ ops ⟨dev, fun _ => []⟩ []
    ⟨h, fun _ => rfl, fun _ hmem => nomatch hmem⟩
    (meets_of_forall _ (fun op hop _ => hops op hop) _)).2.2
  rintro s history op hop ⟨hmirrors, hwaiting, hhistory⟩
  obtain ⟨hmirrors', hwaiting', hdone⟩ := pwmStep_mirrors hbus hmirrors hwaiting hop
  exact ⟨hmirrors', hwaiting', List.forall_mem_append.mpr ⟨hhistory, hdone⟩⟩

/-- **When the writes get through**, that is, no five transfers in a row fail, the registers follow
the configuration in every sequence of calls that write at once: after each of them the register of
its LED holds the value for the configuration. -/
theorem follows_of_bus_ok {dev : Nb6hwmonData} (h : Mirrors dev) {ops : List PwmOp}
    (hops : ∀ op ∈ ops, op.Direct) :
    ∀ done ∈ (run (pwmStep bus) ⟨dev, fun _ => []⟩ ops).2,
      done.register.toBitVec.setWidth 32 = levelled done.config done.pwmRefLevel :=
  registers_of_mirrors hbus h hops

end BusOk

/-- The level is changed, and an LED is configured twice; every other transfer fails. -/
theorem follows_of_bus_ok_started :
    let history := (run (pwmStep fun n => if n % 2 = 0 then .ok 0 else .error 4)
      ⟨Nb6hwmonData.alloc, fun _ => []⟩
      [.setLevel "half", .pwmConfig 0 31 false, .syncLed 0, .pwmConfig 0 31 false]).2
    history.length = 3 ∧ ∀ done ∈ history,
      done.register.toBitVec.setWidth 32 = levelled done.config done.pwmRefLevel := by
  refine ⟨by decide, follows_of_bus_ok (fun n => ⟨n % 2, by omega, ?_⟩) (fun _ => rfl) ?_⟩
  · rw [if_pos (by omega)]
    rfl
  · simp [PwmOp.Direct]

/-- **The registers follow the configuration**, after every call of every sequence of operations and
for all results of the transfers, exactly if the calls find in the cache only what the registers
hold, the values are bytes, and the work writes values for the current reference level.  So they do
if they hold what is in the cache at first, no five transfers in a row fail, and the calls are made
with bytes and where they may sleep. -/
theorem leds_follow_iff (dev : Nb6hwmonData) (ops : List PwmOp) :
    ((∀ done ∈ (run (pwmStep bus) ⟨dev, fun _ => []⟩ ops).2, done.Follows) ↔
      Meets (pwmStep bus) (FitsPwm bus) ⟨dev, fun _ => []⟩ ops) ∧
    (Mirrors dev → (∀ n, ∃ i < 5, (bus (n + i)).isOk = true) → (∀ op ∈ ops, op.Direct) →
      ∀ done ∈ (run (pwmStep bus) ⟨dev, fun _ => []⟩ ops).2, done.Follows) :=
  ⟨forall_mem_run_iff_meets (pwmStep bus) (follows_pwmStep_iff bus)
    (fun _ op h => waitingBefore_pwmStep h op) ops _ fun _ _ => (nomatch ·),
    fun hmirrors hbus hops done hdone _ => registers_of_mirrors hbus hmirrors hops done hdone⟩

/-- A write fails, and the call is repeated when the transfers would succeed: none is made.  A call
in atomic context leaves the write to the work, and the call is repeated before it. -/
theorem leds_do_not_follow :
    ¬(∀ done ∈ (run (pwmStep fun n => if n < 5 then .error 4 else .ok 0)
        ⟨Nb6hwmonData.alloc, fun _ => []⟩ [.pwmConfig 0 31 false, .pwmConfig 0 31 false]).2,
        done.Follows) ∧
      ¬(∀ done ∈ (run (pwmStep fun _ => .ok 0) ⟨Nb6hwmonData.alloc, fun _ => []⟩
        [.pwmConfig 0 31 true, .pwmConfig 0 31 false]).2, done.Follows) := by
  decide

end Neufbox.Hwmon
