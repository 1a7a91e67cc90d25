import Neufbox.Media.Driver
import Neufbox.Lib.Run
import Mathlib.Data.List.Induction
import Mathlib.Logic.Function.Basic

/-!
# The events of the ports

`changed` is the last link status between the calls and the mask of what changed within one.  The
events of a call are those of the ports whose bit changed, so that all events, replayed, give the
bits of the last reading (`ports_mirror_link`).

From the sixth port on the numbers of the events are also those of others (`event_id_usb0_up` and
on); the replay is that of the events of this function.
-/

namespace Neufbox.Media

open Machine Function

/-! ### Numbers of events -/

/-- The port of an event, and whether it is up. -/
def eventPort (event : ℕ) : ℕ := (event % 256 - eventIdPort0Up) / 2
def eventIsUp (event : ℕ) : Bool := (event % 256 - eventIdPort0Up) % 2 = 0

/-- The speed and the duplex mode are above the number of the event. -/
theorem or_shiftLeft_mod {number : ℕ} (h : number < 256) (rest : ℕ) :
    (number ||| rest <<< 8) % 256 = number := by
  have hrest : rest <<< 8 % 2 ^ 8 = 0 := by
    rw [Nat.shiftLeft_eq]
    exact Nat.mul_mod_left ..
  show (number ||| rest <<< 8) % 2 ^ 8 = number
  rw [Nat.or_mod_two_pow, hrest, Nat.or_zero]
  exact Nat.mod_eq_of_lt h

theorem portUp_spec {port : ℕ} (h : port < 16) (speed duplex : ℕ) :
    eventPort (portUp port speed duplex) = port ∧ eventIsUp (portUp port speed duplex) = true := by
  have hmod : portUp port speed duplex % 256 = 23 + 2 * port :=
    or_shiftLeft_mod (by simp only [eventIdPort0Up]; omega) _
  rw [eventPort, eventIsUp, hmod, eventIdPort0Up, decide_eq_true_eq]
  omega

theorem portDown_spec {port : ℕ} (h : port < 16) :
    eventPort (portDown port) = port ∧ eventIsUp (portDown port) = false := by
  have hmod : portDown port % 256 = 24 + 2 * port := by
    rw [portDown, eventIdPort0Down]
    omega
  rw [eventPort, eventIsUp, hmod, eventIdPort0Up, decide_eq_false_iff_not]
  omega

/-! ### Replay -/

/-- The ports after an event. -/
def replayEvent (ports : ℕ → Bool) (event : ℕ) : ℕ → Bool :=
  update ports (eventPort event) (eventIsUp event)

/-- The ports after the events, from all down. -/
def replay (events : List ℕ) : ℕ → Bool := events.foldl replayEvent fun _ => false

/-- The bits of the ports there are. -/
def portBits (portsCount : ℕ) (link : BitVec 16) (port : ℕ) : Bool :=
  decide (port < portsCount) && link.getLsbD port

/-- The event of a port sets it to its link bit. -/
theorem mem_portEvents {devId : ℕ} {changed : BitVec 16} {reading : SwitchReading} {port event : ℕ}
    (h : event ∈ portEvents devId changed reading port) :
    changed.getLsbD port = true ∧ eventPort event = port ∧
      eventIsUp event = reading.link.getLsbD port := by
  rw [portEvents] at h
  split_ifs at h with hchanged hlink
  · have hport : port < 16 := BitVec.lt_of_getLsbD hchanged
    obtain rfl := List.mem_singleton.mp h
    rw [hlink]
    exact ⟨hchanged, portUp_spec hport _ _⟩
  · have hport : port < 16 := BitVec.lt_of_getLsbD hchanged
    obtain rfl := List.mem_singleton.mp h
    rw [Bool.not_eq_true _ |>.mp hlink]
    exact ⟨hchanged, portDown_spec hport⟩
  · exact nomatch h

theorem foldl_portEvents (devId : ℕ) (changed : BitVec 16) (reading : SwitchReading) (port : ℕ)
    (ports : ℕ → Bool) :
    (portEvents devId changed reading port).foldl replayEvent ports
      = if changed.getLsbD port then update ports port (reading.link.getLsbD port) else ports := by
  by_cases hchanged : changed.getLsbD port
  · obtain ⟨event, heq⟩ : ∃ event, portEvents devId changed reading port = [event] := by
      rw [portEvents, if_pos hchanged]
      exact ⟨_, rfl⟩
    obtain ⟨-, hport, hup⟩ := mem_portEvents (heq ▸ List.mem_singleton_self event)
    rw [heq, if_pos hchanged, List.foldl_cons, List.foldl_nil, replayEvent, hport, hup]
  · rw [portEvents, if_neg hchanged, if_neg hchanged]
    rfl

/-- The events of the ports below `n`. -/
theorem foldl_flatMap_portEvents (devId : ℕ) (changed : BitVec 16) (reading : SwitchReading)
    (ports : ℕ → Bool) (n port : ℕ) :
    ((List.range n).flatMap (portEvents devId changed reading)).foldl replayEvent ports port
      = if port < n ∧ changed.getLsbD port then reading.link.getLsbD port else ports port := by
  induction n with
  | zero => rfl
  | succ n ih =>
    rw [List.range_succ, List.flatMap_append, List.foldl_append, List.flatMap_singleton,
      foldl_portEvents]
    by_cases hport : port = n
    · subst hport
      by_cases hchanged : changed.getLsbD port <;> simp [hchanged, ih]
    · have hlt : port < n + 1 ↔ port < n := by omega
      split_ifs <;> simp_all

/-- **One call** keeps the ports equal to the link bits. -/
theorem replay_mediaCheck {devId portsCount : ℕ} {changed : BitVec 16} (reading : SwitchReading)
    {ports : ℕ → Bool} (h : ports = portBits portsCount changed) :
    (bcm53xxMediaCheck devId portsCount changed reading).1 = reading.link ∧
      (bcm53xxMediaCheck devId portsCount changed reading).2.foldl replayEvent ports
        = portBits portsCount reading.link := by
  rw [bcm53xxMediaCheck]
  split_ifs with hlink
  · rw [hlink]
    exact ⟨rfl, h⟩
  · refine ⟨rfl, ?_⟩
    funext port
    rw [foldl_flatMap_portEvents, h, portBits, portBits, BitVec.getLsbD_xor]
    cases changed.getLsbD port <;> cases reading.link.getLsbD port <;> simp

/-- The link status of the last reading, 0 at the start. -/
def lastLink (readings : List SwitchReading) : BitVec 16 :=
  (readings.getLast?.map SwitchReading.link).getD 0

/-- All calls. -/
theorem run_mediaCheck (devId portsCount : ℕ) (readings : List SwitchReading) :
    (run (bcm53xxMediaCheck devId portsCount) 0 readings).1 = lastLink readings ∧
      replay (run (bcm53xxMediaCheck devId portsCount) 0 readings).2
        = portBits portsCount (lastLink readings) := by
  induction readings using List.reverseRecOn with
  | nil => exact ⟨rfl, by funext port; simp [replay, portBits, lastLink]⟩
  | append_singleton readings reading ih =>
    obtain ⟨hstate, hports⟩ := ih
    have hlast : lastLink (readings ++ [reading]) = reading.link := by simp [lastLink]
    obtain ⟨hstate', hports'⟩ := @replay_mediaCheck devId portsCount _ reading _ hports
    rw [run_append, hlast, replay, List.foldl_append, hstate, run_cons, run_nil, List.append_nil]
    exact ⟨hstate', hports'⟩

/-- The events of a call are about the ports whose bit changed. -/
theorem mem_mediaCheck {devId portsCount : ℕ} {changed : BitVec 16} {reading : SwitchReading}
    {event : ℕ} (h : event ∈ (bcm53xxMediaCheck devId portsCount changed reading).2) :
    eventPort event < portsCount ∧
      changed.getLsbD (eventPort event) ≠ reading.link.getLsbD (eventPort event) := by
  rw [bcm53xxMediaCheck] at h
  split_ifs at h
  · exact nomatch h
  · obtain ⟨port, hport, hmem⟩ := List.mem_flatMap.mp h
    obtain ⟨hchanged, rfl, -⟩ := mem_portEvents hmem
    rw [BitVec.getLsbD_xor] at hchanged
    exact ⟨List.mem_range.mp hport, by simpa using hchanged⟩

/-- **The events of the ports mirror the link status.**  For every switch, every number of ports and
all readings: the events, replayed from all ports down, give the bits of the ports in the last
reading, and the next call has no event for a port whose bit has not changed. -/
theorem ports_mirror_link (devId portsCount : ℕ) (readings : List SwitchReading) :
    (∀ port, replay (run (bcm53xxMediaCheck devId portsCount) 0 readings).2 port
        = (decide (port < portsCount) && (lastLink readings).getLsbD port)) ∧
      ∀ reading, ∀ event ∈ (bcm53xxMediaCheck devId portsCount
          (run (bcm53xxMediaCheck devId portsCount) 0 readings).1 reading).2,
        eventPort event < portsCount ∧
          (lastLink readings).getLsbD (eventPort event)
            ≠ reading.link.getLsbD (eventPort event) := by
  obtain ⟨hstate, hports⟩ := run_mediaCheck devId portsCount readings
  refine ⟨fun port => congrFun hports port, ?_⟩
  intro reading event hmem
  rw [hstate] at hmem
  exact mem_mediaCheck hmem

/-- A port that comes up with 100 Mbit/s, full duplex, and goes down. -/
example : (run (bcm53xxMediaCheck 0x25 5) 0 [⟨4, 4, 4⟩, ⟨4, 0, 0⟩, ⟨0, 0, 0⟩]).2
    = [27 + 101 * 256, 28] := by
  decide

end Neufbox.Media
