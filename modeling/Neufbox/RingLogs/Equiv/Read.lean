import Neufbox.RingLogs.Equiv.Content

/-!
# When a ring log read stays in the retained window

`ReadsRetained` is what a read should do: at a position between `out` and `in_` it returns the
logged bytes from there on, and anywhere else it returns nothing but bytes that are retained, and
no more of them than there are.  The driver checks the position nowhere: `__ring_log_get` only cuts
the length to `in_ - pos` computed in `size_t`, which wraps.  `ringLogRead_retained_iff` says
exactly which reads are fine all the same (`ReadFits`), in every state of every run;
`ringLogRead_leaves_window` is a run in which a reader that was overtaken by the writers is given
memory that lies behind the buffer.
-/

namespace Neufbox.RingLogs

open Memory Cyclic Machine Words

variable {w k : ℕ}

/-- The position lies in the retained window or at its end. -/
def InWindow (ring : RingLog w) (pos : BitVec 64) : Prop :=
  ring.out.toInt ≤ pos.toInt ∧ pos.toInt ≤ ring.in_.toInt

instance (ring : RingLog w) (pos : BitVec 64) : Decidable (InWindow ring pos) :=
  inferInstanceAs (Decidable (_ ∧ _))

/-- The logged bytes from `pos` on: `pos` lies `in_ - pos` bytes before the end of the log. -/
def loggedFrom (ring : RingLog w) (log : List UInt8) (pos : BitVec 64) : List UInt8 :=
  log.drop (log.length - (ring.in_ - pos).toNat)

/-- The buffer offsets that hold the retained positions `out .. in_ - 1`. -/
def retainedSlots (size : ℕ) (ring : RingLog w) : List ℕ :=
  slots size ring.out.toNat (ring.in_ - ring.out).toNat

/-- What a read of `count` bytes at `pos` should return. -/
structure ReadsRetained (size : ℕ) (ring : RingLog w) (log : List UInt8) (pos : BitVec 64)
    (count : BitVec w) : Prop where
  inside : InWindow ring pos →
    (ringLogRead ring count pos).1 = (loggedFrom ring log pos).take count.toNat
  outside : ¬ InWindow ring pos →
    (ringLogGet ring count pos).length ≤ (ring.in_ - ring.out).toNat ∧
    ∀ o ∈ ringLogGet ring count pos, o ∈ retainedSlots size ring

/-- The reads that do: `pos` is in the window, or the `m = min count ((in_ - pos) mod 2^w)` bytes
that are left of the read are none, fit in a ring that is full, or lie below `in_` in a ring that
has not filled up yet. -/
def ReadFits (size : ℕ) (ring : RingLog w) (pos : BitVec 64) (count : BitVec w) : Prop :=
  let m := min count.toNat ((ring.in_ - pos).setWidth w).toNat
  let held := (ring.in_ - ring.out).toNat
  InWindow ring pos ∨ m = 0 ∨ (held = size ∧ m ≤ size) ∨
    (held < size ∧ pos.toNat % size + m ≤ held)

/-! ### The length and the offsets of a read -/

/-- Truncating commutes with the subtractions: what the length is cut to is `in_ - pos`. -/
theorem setWidth_sub_setWidth (hw : w ≤ 64) (a b c : BitVec 64) :
    (a - c).setWidth w - (b - c).setWidth w = (a - b).setWidth w := by
  have h : a - c = (a - b) + (b - c) := by bv_omega
  rw [h, BitVec.setWidth_add _ _ hw, BitVec.add_sub_cancel]

theorem toNat_ringLogGetLen (hw : w ≤ 64) (ring : RingLog w) (pos : BitVec 64) (count : BitVec w) :
    (ringLogGetLen ring count pos).toNat
      = min count.toNat ((ring.in_ - pos).setWidth w).toNat := by
  rw [ringLogGetLen, toNat_minSize, ringLogLen, setWidth_sub_setWidth hw]

/-- A full ring retains every offset of the buffer. -/
theorem mem_retainedSlots_of_full {ring : RingLog w}
    (hfull : (ring.in_ - ring.out).toNat = 2 ^ k) {o : ℕ} :
    o ∈ retainedSlots (2 ^ k) ring ↔ o < 2 ^ k := by
  rw [retainedSlots, hfull]
  constructor
  · intro ho
    obtain ⟨i, -, rfl⟩ := List.mem_map.mp ho
    exact Nat.mod_lt _ (Nat.two_pow_pos k)
  · exact mem_slots_self

namespace Holds

variable {ring : RingLog w} {log : List UInt8}

/-- The offsets a read copies from, whatever its position is. -/
theorem ringLogGet_eq (h : Holds k ring log) (hk : k < w) (hw : w ≤ 64) (pos : BitVec 64)
    (count : BitVec w) :
    ringLogGet ring count pos
      = splitSlots (2 ^ k) pos.toNat (ringLogGetLen ring count pos).toNat := by
  have hl : (minSize (ringLogGetLen ring count pos)
      (ring.size - (ringLogCur ring pos).setWidth w)).toNat
      = min (ringLogGetLen ring count pos).toNat (2 ^ k - pos.toNat % 2 ^ k) := by
    rw [toNat_minSize, h.toNat_size_sub_cur hk hw]
  unfold ringLogGet splitSlots
  dsimp only
  rw [toNat_sub_of_le (by omega), hl, h.toNat_ringLogCur hk hw]

theorem length_ringLogGet (h : Holds k ring log) (hk : k < w) (hw : w ≤ 64) (pos : BitVec 64)
    (count : BitVec w) :
    (ringLogGet ring count pos).length = (ringLogGetLen ring count pos).toNat := by
  rw [h.ringLogGet_eq hk hw, length_splitSlots]

/-! ### Positions in the window -/

/-- In the window, `in_ - pos` is the number of bytes from `pos` to the end. -/
theorem toNat_in_sub_pos_le (h : Holds k ring log) (hk : k < 63) {pos : BitVec 64}
    (hpos : InWindow ring pos) : (ring.in_ - pos).toNat ≤ min log.length (2 ^ k) := by
  have h2k : 2 ^ k < 2 ^ 63 := Nat.pow_lt_pow_right (by omega) hk
  have hlen := h.toNat_in_sub_out (by omega)
  obtain ⟨hlo, hhi⟩ := hpos
  rw [← hlen]
  -- signed comparisons bound the unsigned differences
  have h1 := BitVec.toInt_eq_toNat_cond ring.out
  have h2 := BitVec.toInt_eq_toNat_cond ring.in_
  have h3 := BitVec.toInt_eq_toNat_cond pos
  have h4 := ring.in_.isLt
  have h5 := ring.out.isLt
  have h6 := pos.isLt
  rw [BitVec.toNat_sub, BitVec.toNat_sub]
  split_ifs at h1 h2 h3 <;> omega

/-- A position in the window is a position of the log, modulo `2^64`. -/
theorem slots_pos (h : Holds k ring log) (hk : k < 63) {pos : BitVec 64}
    (hpos : InWindow ring pos) (len : ℕ) :
    slots (2 ^ k) pos.toNat len
      = slots (2 ^ k) (log.length - (ring.in_ - pos).toNat) len := by
  have hle := h.toNat_in_sub_pos_le hk hpos
  have hp : pos = BitVec.ofNat 64 (log.length - (ring.in_ - pos).toNat) := by
    have h1 : ring.in_ - (ring.in_ - pos) = pos := by bv_omega
    have h2 : BitVec.ofNat 64 (log.length - (ring.in_ - pos).toNat)
        + BitVec.ofNat 64 (ring.in_ - pos).toNat = ring.in_ := by
      rw [← BitVec.ofNat_add, Nat.sub_add_cancel (by omega), h.in_eq]
    rw [BitVec.ofNat_toNat, BitVec.setWidth_eq] at h2
    have h3 : BitVec.ofNat 64 (log.length - (ring.in_ - pos).toNat)
        = ring.in_ - (ring.in_ - pos) := by
      rw [← BitVec.add_sub_cancel (BitVec.ofNat 64 (log.length - (ring.in_ - pos).toNat))
        (ring.in_ - pos), h2]
    rw [h3, h1]
  apply List.map_congr_left
  intro i _
  conv_lhs => rw [hp]
  rw [BitVec.toNat_ofNat, ← Nat.mod_add_mod, Nat.mod_mod_of_dvd _ (Nat.pow_dvd_pow 2 (by omega)),
    Nat.mod_add_mod]

/-- In the window a read returns the logged bytes. -/
theorem ringLogRead_of_inWindow (h : Holds k ring log) (hk : k < w) (hk63 : k < 63) (hw : w ≤ 64)
    {pos : BitVec 64} (hpos : InWindow ring pos) (count : BitVec w) :
    (ringLogRead ring count pos).1 = (loggedFrom ring log pos).take count.toNat := by
  have h2k : 2 ^ k < 2 ^ w := Nat.pow_lt_pow_right (by omega) hk
  have hle := h.toNat_in_sub_pos_le hk63 hpos
  have hlen : (ringLogGetLen ring count pos).toNat = min count.toNat (ring.in_ - pos).toNat := by
    rw [toNat_ringLogGetLen hw, toNat_setWidth_of_lt _ (by omega)]
  unfold ringLogRead loggedFrom
  dsimp only
  rw [h.ringLogGet_eq hk hw, slots_eq_split (Nat.two_pow_pos k) (by omega), h.slots_pos hk63 hpos,
    map_slots_eq_of_retains h.retains (by omega) (by omega), hlen]
  -- the rest of the log is exactly `in_ - pos` bytes long
  rw [List.take_eq_take_iff, List.length_drop]
  omega

/-! ### Positions outside the window -/

/-- A ring that has not filled up retains the offsets below `in_`. -/
theorem mem_retainedSlots_of_not_full (h : Holds k ring log) (hk : k < 64)
    (hfull : (ring.in_ - ring.out).toNat < 2 ^ k) {o : ℕ} :
    o ∈ retainedSlots (2 ^ k) ring ↔ o < (ring.in_ - ring.out).toNat := by
  have hlen := h.toNat_in_sub_out hk
  rw [retainedSlots, h.slots_out hk, show log.length - 2 ^ k = 0 by omega,
    mem_slots_iff_of_le (by omega)]
  omega

/-- Outside the window a read stays in the retained bytes exactly when it fits. -/
theorem outside_iff (h : Holds k ring log) (hk : k < w) (hk63 : k < 63) (hw : w ≤ 64)
    {pos : BitVec 64} (hpos : ¬ InWindow ring pos) (count : BitVec w) :
    ((ringLogGet ring count pos).length ≤ (ring.in_ - ring.out).toNat ∧
      ∀ o ∈ ringLogGet ring count pos, o ∈ retainedSlots (2 ^ k) ring) ↔
    ReadFits (2 ^ k) ring pos count := by
  have hheld := h.toNat_in_sub_out (by omega)
  rw [h.length_ringLogGet hk hw, h.ringLogGet_eq hk hw, toNat_ringLogGetLen hw]
  unfold ReadFits
  dsimp only
  rw [or_iff_right hpos]
  generalize min count.toNat ((ring.in_ - pos).setWidth w).toNat = m
  by_cases hfull : (ring.in_ - ring.out).toNat = 2 ^ k
  · -- every offset of the buffer is retained, so only the length counts
    constructor
    · rintro ⟨hle, -⟩
      exact Or.inr (Or.inl ⟨hfull, by omega⟩)
    · intro hfits
      have hm : m ≤ 2 ^ k := by omega
      refine ⟨by omega, ?_⟩
      intro o ho
      rw [slots_eq_split (Nat.two_pow_pos k) hm] at ho
      rw [mem_retainedSlots_of_full hfull]
      obtain ⟨i, -, rfl⟩ := List.mem_map.mp ho
      exact Nat.mod_lt _ (Nat.two_pow_pos k)
  · -- only the offsets below `in_` are retained, and a read that wraps leaves them
    have hlt : (ring.in_ - ring.out).toNat < 2 ^ k := by omega
    constructor
    · rintro ⟨hle, hall⟩
      rw [slots_eq_split (Nat.two_pow_pos k) (by omega)] at hall
      have hbelow : ∀ o ∈ slots (2 ^ k) pos.toNat m, o < (ring.in_ - ring.out).toNat := by
        intro o ho
        rw [← h.mem_retainedSlots_of_not_full (by omega) hlt]
        exact hall o ho
      have := (forall_slots_lt_iff (Nat.two_pow_pos k) (by omega) hlt).mp hbelow
      omega
    · intro hfits
      have hm : m = 0 ∨ pos.toNat % 2 ^ k + m ≤ (ring.in_ - ring.out).toNat := by omega
      refine ⟨by omega, ?_⟩
      intro o ho
      rw [slots_eq_split (Nat.two_pow_pos k) (by omega)] at ho
      rw [h.mem_retainedSlots_of_not_full (by omega) hlt]
      exact (forall_slots_lt_iff (Nat.two_pow_pos k) (by omega) hlt).mpr hm o ho

end Holds

/-- **Which reads stay in the window**: in every state of every run, a read at any position, so
also at that of every open file, returns what it should exactly when `ReadFits` holds. -/
theorem ringLogRead_retained_iff (g : Geometry) (memory : ℕ → UInt8)
    (ops : List (Op g.target.sizeBits)) (pos : BitVec 64) (count : BitVec g.target.sizeBits) :
    ReadsRetained g.bytes (run step (g.setup memory) ops).1.ring
        (logged (run step (g.setup memory) ops).2) pos count ↔
      ReadFits g.bytes (run step (g.setup memory) ops).1.ring pos count := by
  have h := g.holds_run memory ops
  have hk := g.order_lt_sizeBits
  have hk63 := g.order_lt_63
  have hw := g.target.sizeBits_le
  by_cases hpos : InWindow (run step (g.setup memory) ops).1.ring pos
  · constructor
    · intro _
      exact Or.inl hpos
    · intro _
      refine ⟨fun _ => ?_, fun hn => absurd hpos hn⟩
      exact h.ringLogRead_of_inWindow hk hk63 hw hpos count
  · have hiff := h.outside_iff hk hk63 hw hpos count
    constructor
    · intro hr
      exact hiff.mp (hr.outside hpos)
    · intro hf
      exact ⟨fun hi => absurd hi hpos, fun _ => hiff.mpr hf⟩

/-- A ring of four bytes and two files.  The second one writes nine bytes; the first, still at
position `0`, then reads nine.  The window is `5 .. 8`, but the read copies nine bytes, and the
last one from offset `4`, behind the buffer. -/
theorem ringLogRead_leaves_window :
    let g : Geometry := ⟨.brcm63xx, 2, by decide⟩
    let ops : List (Op g.target.sizeBits) := [.open_ false, .open_ false,
      .write 1 (fun _ => 1) 4, .write 1 (fun _ => 2) 4, .write 1 (fun _ => 3) 1]
    let r := run step (g.setup fun _ => 0xAA) ops
    r.1.files[0]? = some 0 ∧ ringLogGet r.1.ring 9 0 = [0, 1, 2, 3, 0, 1, 2, 3, 4] ∧
      ¬ ReadsRetained g.bytes r.1.ring (logged r.2) 0 9 := by
  refine ⟨by decide, by decide, ?_⟩
  intro h
  -- nine bytes are copied while four are held
  exact absurd (h.outside (by decide)).1 (by decide)

end Neufbox.RingLogs
