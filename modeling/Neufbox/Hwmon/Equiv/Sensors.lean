import Neufbox.Hwmon.Driver
import Neufbox.Lib.Run

/-!
# The bytes of a displayed value

`mcu_sync` reads the two bytes of the temperature and those of the voltage one by one, and a byte
that is not read keeps its old value.  So the bytes of a value are from the same `mcu_sync` exactly
if every `mcu_sync` that got only one of them is followed by one that got both
(`sensors_untorn_iff`).

Beside the driver the state has what each `mcu_sync` read, newest first, and for each byte the
number of the `mcu_sync` it is from.
-/

namespace Neufbox.Hwmon

open Machine

/-! ### The driver and the origins of the bytes -/

variable (bus : ℕ → BusResult)

/-- The bytes that an `mcu_sync` reads. -/
structure SyncReads where
  t : Option UInt8 × Option UInt8
  v : Option UInt8 × Option UInt8

def syncReads (log : List Transfer) : SyncReads :=
  let t0 := mcuReadByte bus log 0x22
  let t1 := mcuReadByte bus t0.2 0x23
  let v0 := mcuReadByte bus t1.2 0x24
  let v1 := mcuReadByte bus v0.2 0x25
  ⟨(t0.1, t1.1), (v0.1, v1.1)⟩

inductive Sensor where
  | temperature
  | voltage

def Sensor.bytes (dev : Nb6hwmonData) : Sensor → UInt8 × UInt8
  | temperature => dev.t
  | voltage => dev.v

def Sensor.reads (r : SyncReads) : Sensor → Option UInt8 × Option UInt8
  | temperature => r.t
  | voltage => r.v

/-- `show_temperature` or `show_voltage` -/
def Sensor.show (endian : Endian) (bus : ℕ → BusResult) (dev : Nb6hwmonData)
    (jiffies jiffies' : BitVec 32) : Sensor → Nb6hwmonData × String
  | temperature => showTemperature endian bus dev jiffies jiffies'
  | voltage => showVoltage endian bus dev jiffies jiffies'

structure SensorState where
  dev : Nb6hwmonData
  syncs : List SyncReads
  origins : Sensor → Option ℕ × Option ℕ

/-- The origin of a byte after an `mcu_sync`. -/
def stamp (number : ℕ) (read : Option UInt8) (origin : Option ℕ) : Option ℕ :=
  if read.isSome then some number else origin

def SensorState.sync (s : SensorState) (jiffies : BitVec 32) :
    SensorState where
  dev := mcuSync bus s.dev jiffies
  syncs := syncReads bus s.dev.log :: s.syncs
  origins sensor :=
    let reads := sensor.reads (syncReads bus s.dev.log)
    (stamp s.syncs.length reads.1 (s.origins sensor).1,
      stamp s.syncs.length reads.2 (s.origins sensor).2)

/-- The state after the probe, which calls `mcu_sync`. -/
def SensorState.probe (jiffies : BitVec 32) : SensorState :=
  SensorState.sync bus ⟨Nb6hwmonData.alloc, [], fun _ => (none, none)⟩ jiffies

structure SensorOp where
  sensor : Sensor
  jiffies : BitVec 32
  jiffies' : BitVec 32

/-- What is displayed, the bytes it is made of and their origins, and what has been read so far. -/
structure Display where
  sensor : Sensor
  text : String
  bytes : UInt8 × UInt8
  origins : Option ℕ × Option ℕ
  syncs : List SyncReads

def SensorState.refresh (s : SensorState) (op : SensorOp) : SensorState :=
  if timeAfter op.jiffies s.dev.expires then s.sync bus op.jiffies' else s

def sensorStep (endian : Endian) (bus : ℕ → BusResult) (s : SensorState) (op : SensorOp) :
    SensorState × List Display :=
  let s' := s.refresh bus op
  (s', [⟨op.sensor, (op.sensor.show endian bus s.dev op.jiffies op.jiffies').2,
    op.sensor.bytes s'.dev, s'.origins op.sensor, s'.syncs⟩])

/-! ### What the bytes are -/

/-- The last of the bytes that were read, with the number of its `mcu_sync`. -/
def lastRead (byte : SyncReads → Option UInt8) : List SyncReads → Option (ℕ × UInt8)
  | [] => none
  | r :: syncs =>
    match byte r with
    | some b => some (syncs.length, b)
    | none => lastRead byte syncs

/-- A byte of the driver with its origin is the last one that was read, or the initial one. -/
structure IsLast (byte : SyncReads → Option UInt8) (syncs : List SyncReads) (held : UInt8)
    (origin : Option ℕ) : Prop where
  origin_eq : origin = (lastRead byte syncs).map Prod.fst
  held_eq : held = ((lastRead byte syncs).map Prod.snd).getD 0

theorem IsLast.cons {byte : SyncReads → Option UInt8} {syncs : List SyncReads} {held : UInt8}
    {origin : Option ℕ} (h : IsLast byte syncs held origin) (r : SyncReads) :
    IsLast byte (r :: syncs) ((byte r).getD held) (stamp syncs.length (byte r) origin) := by
  cases hbyte : byte r with
  | none => exact ⟨by simp [lastRead, hbyte, stamp, h.origin_eq],
      by simp [lastRead, hbyte, h.held_eq]⟩
  | some b => exact ⟨by simp [lastRead, hbyte, stamp], by simp [lastRead, hbyte]⟩

/-- Both bytes of a value, with their origins. -/
def AreLast (sensor : Sensor) (syncs : List SyncReads) (held : UInt8 × UInt8)
    (origins : Option ℕ × Option ℕ) : Prop :=
  IsLast (fun r => (sensor.reads r).1) syncs held.1 origins.1 ∧
    IsLast (fun r => (sensor.reads r).2) syncs held.2 origins.2

def OriginsExact (s : SensorState) : Prop :=
  ∀ sensor : Sensor, AreLast sensor s.syncs (sensor.bytes s.dev) (s.origins sensor)

theorem bytes_mcuSync (dev : Nb6hwmonData) (jiffies : BitVec 32)
    (sensor : Sensor) :
    sensor.bytes (mcuSync bus dev jiffies)
      = ((sensor.reads (syncReads bus dev.log)).1.getD (sensor.bytes dev).1,
        (sensor.reads (syncReads bus dev.log)).2.getD (sensor.bytes dev).2) := by
  cases sensor <;> rfl

theorem OriginsExact.sync {bus : ℕ → BusResult} {s : SensorState} (h : OriginsExact s)
    (jiffies : BitVec 32) : OriginsExact (s.sync bus jiffies) := by
  intro sensor
  obtain ⟨hfirst, hsecond⟩ := h sensor
  show AreLast sensor (syncReads bus s.dev.log :: s.syncs) (sensor.bytes (mcuSync ..)) _
  rw [bytes_mcuSync]
  exact ⟨hfirst.cons _, hsecond.cons _⟩

theorem originsExact_probe (jiffies : BitVec 32) :
    OriginsExact (SensorState.probe bus jiffies) := by
  apply OriginsExact.sync
  intro sensor
  cases sensor <;> exact ⟨⟨rfl, rfl⟩, ⟨rfl, rfl⟩⟩

theorem OriginsExact.refresh {bus : ℕ → BusResult} {s : SensorState} (h : OriginsExact s)
    (op : SensorOp) : OriginsExact (s.refresh bus op) := by
  rw [SensorState.refresh]
  split_ifs
  · exact h.sync _
  · exact h

/-- **What is displayed** is made of the bytes that were last read, and the origins are right. -/
theorem areLast_of_mem_run {endian : Endian} {bus : ℕ → BusResult} {jiffies : BitVec 32}
    {ops : List SensorOp} {display : Display}
    (h : display ∈ (run (sensorStep endian bus) (SensorState.probe bus jiffies) ops).2) :
    AreLast display.sensor display.syncs display.bytes display.origins := by
  have hinv := run_inv (sensorStep endian bus) (s := SensorState.probe bus jiffies)
    (P := fun s history => OriginsExact s ∧ ∀ display ∈ history,
      AreLast display.sensor display.syncs display.bytes display.origins)
    ⟨originsExact_probe bus jiffies, fun _ hmem => nomatch hmem⟩ ?_ ops
  · exact hinv.2 display h
  · rintro s history op ⟨hs, hhistory⟩
    have hs' : OriginsExact (s.refresh bus op) := hs.refresh op
    refine ⟨hs', List.forall_mem_append.mpr ⟨hhistory, ?_⟩⟩
    rw [sensorStep, List.forall_mem_singleton]
    exact hs' op.sensor

/-! ### Torn values -/

/-- The bytes are both initial, or both from the same `mcu_sync`. -/
def Display.Untorn (display : Display) : Prop := display.origins.1 = display.origins.2

instance (display : Display) : Decidable display.Untorn :=
  inferInstanceAs (Decidable (display.origins.1 = display.origins.2))

/-- Every `mcu_sync` that read only one of the two bytes is followed by one that read both. -/
def Display.Settled (display : Display) : Prop :=
  ∀ after r before, display.syncs = after ++ r :: before →
    (display.sensor.reads r).1.isSome ≠ (display.sensor.reads r).2.isSome →
      ∃ r' ∈ after, (display.sensor.reads r').1.isSome ∧ (display.sensor.reads r').2.isSome

theorem lastRead_lt {byte : SyncReads → Option UInt8} {syncs : List SyncReads} {number : ℕ}
    (h : (lastRead byte syncs).map Prod.fst = some number) : number < syncs.length := by
  induction syncs with
  | nil => exact nomatch h
  | cons r syncs ih =>
    rw [List.length_cons]
    cases hbyte : byte r with
    | none =>
      simp only [lastRead, hbyte] at h
      have hlt := ih h
      omega
    | some b =>
      simp only [lastRead, hbyte, Option.map_some, Option.some.injEq] at h
      omega

/-- A byte that the last `mcu_sync` read is not from the same one as one that it did not. -/
theorem lastRead_cons_ne {byte byte' : SyncReads → Option UInt8} {r : SyncReads} {b : UInt8}
    (hbyte : byte r = some b) (hbyte' : byte' r = none) (syncs : List SyncReads) :
    (lastRead byte (r :: syncs)).map Prod.fst ≠ (lastRead byte' (r :: syncs)).map Prod.fst := by
  intro heq
  simp only [lastRead, hbyte, hbyte', Option.map_some] at heq
  exact absurd (lastRead_lt heq.symm) (Nat.lt_irrefl _)

/-- The bytes that were last read are from the same `mcu_sync`. -/
theorem lastRead_eq_iff (byte byte' : SyncReads → Option UInt8) (syncs : List SyncReads) :
    (lastRead byte syncs).map Prod.fst = (lastRead byte' syncs).map Prod.fst ↔
      ∀ after r before, syncs = after ++ r :: before → (byte r).isSome ≠ (byte' r).isSome →
        ∃ r' ∈ after, (byte r').isSome ∧ (byte' r').isSome := by
  induction syncs with
  | nil => exact iff_of_true rfl fun after r before h => absurd h (by simp)
  | cons r syncs ih =>
    -- If the last `mcu_sync` read only one of the two, nothing follows it.
    have hnone : (byte r).isSome ≠ (byte' r).isSome →
        ¬∀ after r' before, r :: syncs = after ++ r' :: before →
          (byte r').isSome ≠ (byte' r').isSome →
            ∃ r'' ∈ after, (byte r'').isSome ∧ (byte' r'').isSome := by
      intro hne h
      obtain ⟨r', hmem, -⟩ := h [] r syncs rfl hne
      exact nomatch hmem
    cases hbyte : byte r with
    | some b =>
      cases hbyte' : byte' r with
      | some b' =>
        refine iff_of_true (by simp [lastRead, hbyte, hbyte']) ?_
        rintro (- | ⟨r', after⟩) r'' before heq hne
        · obtain ⟨rfl, -⟩ := List.cons.inj heq
          exact absurd (by rw [hbyte, hbyte', Option.isSome_some, Option.isSome_some]) hne
        · obtain ⟨rfl, -⟩ := List.cons.inj heq
          exact ⟨r, List.mem_cons_self .., by simp [hbyte, hbyte']⟩
      | none =>
        exact iff_of_false (lastRead_cons_ne hbyte hbyte' syncs) (hnone (by simp [hbyte, hbyte']))
    | none =>
      cases hbyte' : byte' r with
      | some b' =>
        refine iff_of_false (fun heq => ?_) (hnone (by simp [hbyte, hbyte']))
        exact lastRead_cons_ne hbyte' hbyte syncs heq.symm
      | none =>
        simp only [lastRead, hbyte, hbyte', ih]
        constructor
        · rintro h (- | ⟨r', after⟩) r'' before heq hne
          · obtain ⟨rfl, -⟩ := List.cons.inj heq
            exact absurd (by rw [hbyte, hbyte']) hne
          · obtain ⟨-, heq⟩ := List.cons.inj heq
            obtain ⟨found, hmem, hboth⟩ := h after r'' before heq hne
            exact ⟨found, List.mem_cons_of_mem _ hmem, hboth⟩
        · intro h after r' before heq hne
          obtain ⟨found, hmem, hboth⟩ := h (r :: after) r' before (by rw [heq]; rfl) hne
          rcases List.mem_cons.mp hmem with rfl | hmem
          · simp [hbyte] at hboth
          · exact ⟨found, hmem, hboth⟩

theorem untorn_iff_settled {display : Display}
    (h : AreLast display.sensor display.syncs display.bytes display.origins) :
    display.Untorn ↔ display.Settled := by
  rw [Display.Untorn, h.1.origin_eq, h.2.origin_eq, lastRead_eq_iff]
  rfl

/-- **Sensor values.**  For every sequence of attribute reads, all times and all results of the
transfers, the two bytes of each displayed value are from the same `mcu_sync`, or both initial,
exactly if at each of them every `mcu_sync` that read only one of the bytes has been followed by one
that read both. -/
theorem sensors_untorn_iff (endian : Endian) (bus : ℕ → BusResult) (jiffies : BitVec 32)
    (ops : List SensorOp) :
    (∀ display ∈ (run (sensorStep endian bus) (SensorState.probe bus jiffies) ops).2,
        display.Untorn) ↔
      ∀ display ∈ (run (sensorStep endian bus) (SensorState.probe bus jiffies) ops).2,
        display.Settled := by
  apply forall₂_congr
  intro display hmem
  exact untorn_iff_settled (areLast_of_mem_run hmem)

/-- The first byte of the temperature is read and the second is not: the value that is displayed is
made of the new byte and of the initial one. -/
theorem sensors_torn :
    ∃ display ∈ (run (sensorStep .big fun n => if 1 ≤ n ∧ n < 6 then .error 4 else .ok 1)
        (SensorState.probe (fun n => if 1 ≤ n ∧ n < 6 then .error 4 else .ok 1) 0)
        [⟨.temperature, 1, 1⟩]).2,
      display.bytes = (1, 0) ∧ ¬display.Untorn := by
  refine ⟨_, List.mem_singleton_self _, ?_, ?_⟩ <;> decide

end Neufbox.Hwmon
