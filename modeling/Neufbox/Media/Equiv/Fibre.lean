import Neufbox.Lib.Run
import Neufbox.Media.Driver

/-!
# The events of the fibre

`bcm54xx_media_check` tells of a bit rate that is 0 or that it configures, and of no other.  A bit
rate from 15 on is stored without an event, and if the link was up it stays up in the events
(`fibre_mirrors_iff`).
-/

namespace Neufbox.Media

open Machine

/-- What an event of the fibre says: the speed, or that the link is down.  The lowest bit above the
number of the event is the duplex mode. -/
def replayFibre (link : Option ℕ) : FibreAction → Option ℕ
  | .event id =>
    if id % 256 = eventIdEth0Up then some (id / 256 / 2 * 2)
    else if id % 256 = eventIdEth0Down then none
    else link
  | _ => link

/-- The speed of a bit rate that is configured. -/
def rateLink (rate : UInt8) : Option ℕ :=
  if rate = 0 then none else if rate < 5 then some 100 else if rate < 15 then some 1000 else none

/-- The link of a module: it is up if the receive check passes and the bit rate is from 1 to 14,
with the speed of the range. -/
def moduleLink (reading : SfpReading) : Option ℕ :=
  if sfpRxOk reading ∧ 1 ≤ reading.brNominal ∧ reading.brNominal ≤ 14 then
    some (if reading.brNominal ≤ 4 then 100 else 1000)
  else none

/-- A bit rate that is not configured does not follow one that is. -/
def FitsRates (rate new : UInt8) : Prop := ¬(1 ≤ rate ∧ rate ≤ 14 ∧ 15 ≤ new)

theorem rateLink_eq (rate : UInt8) :
    rateLink rate
      = if 1 ≤ rate ∧ rate ≤ 14 then some (if rate ≤ 4 then 100 else 1000) else none := by
  simp only [rateLink, UInt8.le_iff_toNat_le, UInt8.lt_iff_toNat_lt, ← UInt8.toNat_inj,
    UInt8.reduceToNat]
  split_ifs <;> first | rfl | omega

/-- What is compared with the stored bit rate says what the link of the module is. -/
theorem rateLink_newSfpBitrate (reading : SfpReading) :
    rateLink (newSfpBitrate reading) = moduleLink reading := by
  have hnone : rateLink 0 = none := rfl
  rw [newSfpBitrate, moduleLink]
  by_cases hrx : sfpRxOk reading = true
  · rw [if_pos hrx, sfpEepromBitrate]
    by_cases hff : reading.brNominal = 0xff
    · have hrange : ¬((0xff : UInt8) ≤ 14) := by decide
      rw [if_pos hff, hff, hnone, if_neg fun hand => hrange hand.2.2]
    · rw [if_neg hff, rateLink_eq]
      exact if_congr (and_iff_right hrx).symm rfl rfl
  · rw [if_neg hrx, if_neg fun hand => hrx hand.1, hnone]

/-- **One call**: the events follow the bit rate exactly if it does not leave the range that is
configured upwards. -/
theorem mediaCheck_mirrors_iff (rate : UInt8) (reading : SfpReading) :
    (bcm54xxMediaCheck rate reading).2.foldl replayFibre (rateLink rate)
        = rateLink (newSfpBitrate reading) ↔ FitsRates rate (newSfpBitrate reading) := by
  rw [bcm54xxMediaCheck]
  generalize newSfpBitrate reading = new
  have hfits : new < 15 → FitsRates rate new := by
    rintro hlt ⟨-, -, hge⟩
    exact absurd hge (UInt8.not_le.mpr hlt)
  split_ifs with hsame hzero h5 h15
  · -- The bit rate has not changed.
    rw [hsame]
    refine iff_of_true rfl ?_
    rintro ⟨-, hle, hge⟩
    exact absurd (UInt8.le_trans hge hle) (by decide)
  · rw [hzero]
    exact iff_of_true rfl (hzero ▸ hfits (hzero ▸ by decide))
  · have hlink : rateLink new = some 100 := by rw [rateLink, if_neg hzero, if_pos h5]
    rw [hlink]
    exact iff_of_true rfl (hfits (UInt8.lt_trans h5 (by decide)))
  · have hlink : rateLink new = some 1000 := by
      rw [rateLink, if_neg hzero, if_neg h5, if_pos h15]
    rw [hlink]
    exact iff_of_true rfl (hfits h15)
  · -- There is no event, and the link should be down.
    have hlink : rateLink new = none := by
      rw [rateLink, if_neg hzero, if_neg h5, if_neg h15]
    have hge : 15 ≤ new := UInt8.not_lt.mp h15
    rw [hlink, List.foldl_nil, rateLink_eq, FitsRates]
    split_ifs with hrange
    · exact iff_of_false (by simp) fun h => h ⟨hrange.1, hrange.2, hge⟩
    · exact iff_of_true rfl fun h => hrange ⟨h.1, h.2.1⟩

theorem mediaCheck_fst (rate : UInt8) (reading : SfpReading) :
    (bcm54xxMediaCheck rate reading).1 = newSfpBitrate reading := by
  rw [bcm54xxMediaCheck]
  by_cases hsame : newSfpBitrate reading = rate
  · rw [if_pos hsame, hsame]
  · rw [if_neg hsame]

/-- All calls, from a stored bit rate that the events have told of. -/
theorem run_mirrors_iff (readings : List SfpReading) (rate : UInt8) :
    (∀ before reading, before ++ [reading] <+: readings →
        (run bcm54xxMediaCheck rate (before ++ [reading])).2.foldl replayFibre (rateLink rate)
          = rateLink (newSfpBitrate reading)) ↔
      List.IsChain FitsRates (rate :: readings.map newSfpBitrate) := by
  induction readings generalizing rate with
  | nil =>
    refine iff_of_true (fun before reading hprefix => ?_) (.singleton _)
    exact absurd (List.prefix_nil.mp hprefix) (by simp)
  | cons reading readings ih =>
    -- A run from here is a call and a run from the bit rate it has stored.
    have hcons : (bcm54xxMediaCheck rate reading).2.foldl replayFibre (rateLink rate)
          = rateLink (newSfpBitrate reading) → ∀ rest : List SfpReading,
        (run bcm54xxMediaCheck rate (reading :: rest)).2.foldl replayFibre (rateLink rate)
          = (run bcm54xxMediaCheck (newSfpBitrate reading) rest).2.foldl replayFibre
            (rateLink (newSfpBitrate reading)) := by
      intro hcall rest
      rw [run_cons, List.foldl_append, hcall, mediaCheck_fst]
    rw [List.map_cons, List.isChain_cons_cons, ← mediaCheck_mirrors_iff, ← ih]
    constructor
    · intro h
      have hcall := h [] reading (by simp)
      rw [List.nil_append, run_cons, run_nil, List.append_nil] at hcall
      refine ⟨hcall, fun before reading' hprefix' => ?_⟩
      rw [← hcons hcall]
      exact h (reading :: before) reading' (by simpa using hprefix')
    · rintro ⟨hcall, h⟩ (- | ⟨first, before⟩) reading' hprefix'
      · obtain ⟨rfl, -⟩ := List.cons_prefix_cons.mp hprefix'
        rw [List.nil_append, hcons hcall]
        rfl
      · obtain ⟨rfl, hrest⟩ := List.cons_prefix_cons.mp hprefix'
        rw [List.cons_append, hcons hcall]
        exact h before reading' hrest

/-- **The events of the fibre mirror the module**, after each check of every sequence of readings,
exactly if no bit rate from 15 on directly follows one from 1 to 14; a bit rate is 0 where the byte
is not valid or the receive check fails, and at the start. -/
theorem fibre_mirrors_iff (readings : List SfpReading) :
    (∀ before reading, before ++ [reading] <+: readings →
        (run bcm54xxMediaCheck 0 (before ++ [reading])).2.foldl replayFibre none
          = moduleLink reading) ↔
      List.IsChain FitsRates (0 :: readings.map newSfpBitrate) := by
  rw [← run_mirrors_iff]
  simp only [rateLink_newSfpBitrate]
  rfl

/-- A module of 1000 Mbit/s is replaced by one of 2000 between two checks: the link stays up. -/
theorem fibre_does_not_mirror :
    (run bcm54xxMediaCheck 0 [⟨10, 0, 0⟩, ⟨20, 0, 0⟩]).2.foldl replayFibre none = some 1000 ∧
      moduleLink ⟨20, 0, 0⟩ = none := by
  decide

end Neufbox.Media
