import Neufbox.Hwmon.Driver

/-!
# Transfers that are tried again

`mcu_read` and `mcu_read_update` end their loop when the status is not negative, and that is when a
read succeeds.  `mcu_write` ends it when the status is above 0, which that of a write never is: it
always makes five transfers and returns the status of the last one.  So it does what it should
exactly if the first four fail (`mcu_retries_iff`).
-/

namespace Neufbox.Hwmon

open Retry

/-! ### What the calls should do -/

variable (bus : ℕ → BusResult)

/-- The transfers of a call: one, and one more for every failed one, up to five. -/
structure MakesTransfers (bus : ℕ → BusResult) (log : List Transfer) (request : Request)
    (made : List BusResult) (log' : List Transfer) : Prop where
  log_eq : log' = logged log request made
  results : made = (List.range made.length).map fun i => bus (log.length + i)
  retries : RetriesExactly BusResult.isOk 5 made

/-- A read gives the byte of the transfer that succeeded, and `fallback` if none did. -/
def ReadsExactly (log : List Transfer) (addr fallback : UInt8)
    (call : UInt8 × List Transfer) : Prop :=
  ∃ made, MakesTransfers bus log (.read addr) made call.2 ∧
    (∀ byte, .ok byte ∈ made → call.1 = byte) ∧
    ((∀ result ∈ made, result.isOk = false) → call.1 = fallback)

/-- A write gives 0 exactly if a transfer succeeded. -/
def WritesExactly (log : List Transfer) (addr val : UInt8)
    (call : Int × List Transfer) : Prop :=
  ∃ made, MakesTransfers bus log (.write addr val) made call.2 ∧
    (call.1 = 0 ↔ ∃ result ∈ made, result.isOk = true)

/-! ### Reads -/

theorem readStatus_nonneg_iff (result : BusResult) :
    0 ≤ result.readStatus ↔ result.isOk = true := by
  cases result with
  | ok byte => simp [BusResult.readStatus, BusResult.isOk]
  | error errno =>
    have hneg : ¬0 ≤ BusResult.readStatus (.error errno) := by
      simp only [BusResult.readStatus]
      omega
    exact iff_of_false hneg Bool.false_ne_true

/-- What ends the loop of a read is that it succeeds. -/
theorem transfers_read (log : List Transfer) :
    (transfers bus log fun result => 0 ≤ result.readStatus)
      = attempts BusResult.isOk bus 5 log.length := by
  have hstop : (fun result : BusResult => decide (0 ≤ result.readStatus)) = BusResult.isOk := by
    funext result
    rw [Bool.eq_iff_iff, decide_eq_true_eq, readStatus_nonneg_iff]
  rw [transfers, hstop]

/-- **The loop of the reads**: either no transfer succeeds, or the last one does. -/
theorem mcuReadByte_cases (log : List Transfer) (addr : UInt8) :
    ∃ made, MakesTransfers bus log (.read addr) made (mcuReadByte bus log addr).2 ∧
      ((∃ before byte, made = before ++ [.ok byte] ∧ (∀ result ∈ before, result.isOk = false) ∧
          (mcuReadByte bus log addr).1 = some byte) ∨
        ((∀ result ∈ made, result.isOk = false) ∧ (mcuReadByte bus log addr).1 = none)) := by
  have hmade : MakesTransfers bus log (.read addr) (attempts BusResult.isOk bus 5 log.length)
      (mcuReadByte bus log addr).2 := by
    refine ⟨?_, attempts_eq .., retriesExactly_attempts (by decide) _ _⟩
    rw [mcuReadByte, transfers_read]
  refine ⟨_, hmade, ?_⟩
  rw [mcuReadByte, transfers_read]
  dsimp only
  rcases attempts_cases BusResult.isOk bus 5 log.length with
    ⟨before, result, heq, hok, -, hbefore⟩ | ⟨-, hall⟩
  · rw [heq]
    cases result with
    | error errno => exact absurd hok Bool.false_ne_true
    | ok byte => exact .inl ⟨before, byte, rfl, hbefore, by simp [BusResult.readStatus]⟩
  · refine .inr ⟨hall, ?_⟩
    cases hlast : (attempts BusResult.isOk bus 5 log.length).getLast? with
    | none => rfl
    | some result =>
      have hfailed : result.isOk = false := hall result (List.mem_of_getLast? hlast)
      have hneg : ¬0 ≤ result.readStatus := by
        rw [readStatus_nonneg_iff, hfailed]
        exact Bool.false_ne_true
      simpa using hneg

theorem readsExactly_getD (log : List Transfer) (addr fallback : UInt8) :
    ReadsExactly bus log addr fallback
      ((mcuReadByte bus log addr).1.getD fallback, (mcuReadByte bus log addr).2) := by
  obtain ⟨made, hmade, ⟨before, byte, rfl, hbefore, heq⟩ | ⟨hall, heq⟩⟩ :=
    mcuReadByte_cases bus log addr
  · refine ⟨_, hmade, fun byte' hmem => ?_, fun hall => ?_⟩
    · rcases List.mem_append.mp hmem with hmem | hmem
      · exact absurd (hbefore _ hmem) Bool.true_eq_false.mp
      · rw [List.mem_singleton, BusResult.ok.injEq] at hmem
        rw [hmem, heq, Option.getD_some]
    · have hlast : BusResult.isOk (.ok byte) = false := hall _ (by simp)
      exact absurd hlast Bool.true_eq_false.mp
  · refine ⟨_, hmade, fun byte hmem => ?_, fun _ => by rw [heq, Option.getD_none]⟩
    exact absurd (hall _ hmem) Bool.true_eq_false.mp

/-! ### Writes -/

theorem writeStatus_nonpos (result : BusResult) : result.writeStatus ≤ 0 := by
  cases result with
  | ok byte => exact Int.le_refl 0
  | error errno =>
    simp only [BusResult.writeStatus]
    omega

theorem writeStatus_eq_zero_iff (result : BusResult) :
    result.writeStatus = 0 ↔ result.isOk = true := by
  cases result with
  | ok byte => exact iff_of_true rfl rfl
  | error errno =>
    have hneg : ¬BusResult.writeStatus (.error errno) = 0 := by
      simp only [BusResult.writeStatus]
      omega
    exact iff_of_false hneg Bool.false_ne_true

/-- The results of five transfers. -/
def fiveResults (log : List Transfer) : List BusResult :=
  (List.range 5).map fun i => bus (log.length + i)

/-- Nothing ends the loop of a write. -/
theorem transfers_write (log : List Transfer) :
    (transfers bus log fun result => 0 < result.writeStatus) = fiveResults bus log := by
  have hstop : ∀ result : BusResult, decide (0 < result.writeStatus) = false := by
    intro result
    have hle := writeStatus_nonpos result
    rw [decide_eq_false_iff_not]
    omega
  have hlength := length_attempts_of_forall hstop bus 5 log.length
  rw [transfers, attempts_eq, hlength, fiveResults]

/-- **A write makes five transfers** and returns the status of the last one. -/
theorem mcuWrite_eq (log : List Transfer) (addr val : UInt8) :
    mcuWrite bus log addr val
      = ((bus (log.length + 4)).writeStatus,
        logged log (.write addr val) (fiveResults bus log)) := by
  have hle := writeStatus_nonpos (bus (log.length + 4))
  have hlast : ((fiveResults bus log).getLast?.map BusResult.writeStatus).getD 0
      = (bus (log.length + 4)).writeStatus := rfl
  rw [mcuWrite, transfers_write, hlast, if_neg (by omega)]

theorem writesExactly_iff (log : List Transfer) (addr val : UInt8) :
    WritesExactly bus log addr val (mcuWrite bus log addr val) ↔
      ∀ i < 4, (bus (log.length + i)).isOk = false := by
  have hretries : RetriesExactly BusResult.isOk 5 (fiveResults bus log) ↔
      ∀ i < 4, (bus (log.length + i)).isOk = false := by
    rw [retriesExactly_iff_of_length (by decide) (by simp [fiveResults])]
    have hfour : (fiveResults bus log).dropLast
        = (List.range 4).map fun i => bus (log.length + i) := rfl
    rw [hfour]
    simp
  rw [mcuWrite_eq, ← hretries]
  constructor
  · rintro ⟨made, ⟨hlog, -, hmade⟩, -⟩
    have hresults : fiveResults bus log = made := by
      have hinj : Function.Injective (Transfer.mk (.write addr val)) := by
        intro _ _ h
        exact (Transfer.mk.inj h).2
      apply List.map_injective_iff.mpr hinj
      exact List.append_cancel_left hlog
    rwa [hresults]
  · intro hmade
    refine ⟨fiveResults bus log, ⟨rfl, by simp [fiveResults], hmade⟩, ?_⟩
    rw [writeStatus_eq_zero_iff]
    constructor
    · intro hok
      exact ⟨_, List.mem_map.mpr ⟨4, by decide, rfl⟩, hok⟩
    · rintro ⟨result, hmem, hok⟩
      obtain ⟨i, hi, rfl⟩ := List.mem_map.mp hmem
      -- The first four transfers failed.
      have hfour := hretries.mp hmade
      obtain rfl : i = 4 := by
        rw [List.mem_range] at hi
        by_contra hne
        exact absurd ((hfour i (by omega)).symm.trans hok) Bool.false_ne_true
      exact hok

/-- **Transfers that are tried again.**  For every sequence of results: the reads make one transfer
and one more for every failed one, up to five, and give the byte of the one that succeeded; the
write does so exactly if the first four transfers fail. -/
theorem mcu_retries_iff (log : List Transfer) (addr old val : UInt8) :
    (ReadsExactly bus log addr 0xff (mcuRead bus log addr) ∧
        ReadsExactly bus log addr old (mcuReadUpdate bus log addr old) ∧
        WritesExactly bus log addr val (mcuWrite bus log addr val)) ↔
      ∀ i < 4, (bus (log.length + i)).isOk = false := by
  have hread : ReadsExactly bus log addr 0xff (mcuRead bus log addr) := readsExactly_getD ..
  have hupdate : ReadsExactly bus log addr old (mcuReadUpdate bus log addr old) :=
    readsExactly_getD ..
  rw [and_iff_right hread, and_iff_right hupdate, writesExactly_iff]

/-- A write that succeeds at once is made five times, and one of which only the first transfer
succeeds is reported as failed. -/
theorem mcuWrite_goes_on :
    (mcuWrite (fun _ => .ok 0) [] 0x10 31).2.length = 5 ∧
      (mcuWrite (fun n => if n = 0 then .ok 0 else .error 4) [] 0x10 31).1 = -5 ∧
      ¬WritesExactly (fun _ => .ok 0) [] 0x10 31 (mcuWrite (fun _ => .ok 0) [] 0x10 31) := by
  refine ⟨by decide, by decide, fun h => ?_⟩
  have hfailed := (writesExactly_iff _ _ _ _).mp h 0 (by decide)
  exact absurd hfailed (by decide)

end Neufbox.Hwmon
