import Neufbox.Lib.Cyclic
import Neufbox.Lib.Run
import Neufbox.Lib.Words
import Neufbox.RingLogs.Driver

/-!
# The ring log keeps the end of the log

`Holds k ring log` relates a ring of `2^k` bytes to the bytes `log` accepted since the last
truncation: the positions `in_` and `out` are `log.length` and `log.length - 2^k` modulo `2^64`,
and the buffer retains the last `2^k` bytes.  `holds_ringLogPut` is the step for a write,
`holds_run` the invariant over every run of the device, and `ringLog_content` reads off the
lengths, the value a write returns and the bytes between `out` and `in_`.

Nothing bounds the length of the log: the positions wrap at `2^64`, which every ring size divides,
so all the differences and masked offsets the driver computes stay right.
-/

namespace Neufbox.RingLogs

open Memory Cyclic Machine Words

variable {w k : ℕ}

/-! ### `size_t` and `loff_t` arithmetic -/

theorem toNat_minSize (a b : BitVec w) : (minSize a b).toNat = min a.toNat b.toNat :=
  toNat_ite_lt a b

/-- Widening a `size_t` to `loff_t` keeps its value. -/
theorem setWidth_eq_ofNat (a : BitVec w) : a.setWidth 64 = BitVec.ofNat 64 a.toNat := by
  apply BitVec.eq_of_toNat_eq
  rw [BitVec.toNat_setWidth, BitVec.toNat_ofNat]

theorem toNat_setWidth_of_lt {n : ℕ} (a : BitVec n) (h : a.toNat < 2 ^ w) :
    (a.setWidth w).toNat = a.toNat := by
  rw [BitVec.toNat_setWidth, Nat.mod_eq_of_lt h]

theorem ofNat_add_sub_ofNat (a b : ℕ) :
    BitVec.ofNat 64 (a + b) - BitVec.ofNat 64 a = BitVec.ofNat 64 b := by
  rw [BitVec.ofNat_add, BitVec.add_comm, BitVec.add_sub_cancel]

/-- Masking with `2^k - 1` is the remainder by `2^k`. -/
theorem toNat_and_mask (hk : k < w) (hw : w ≤ 64) (x : BitVec 64) :
    (x &&& (BitVec.ofNat w (2 ^ k) - 1).setWidth 64).toNat = x.toNat % 2 ^ k := by
  have h2k : 2 ^ k < 2 ^ w := Nat.pow_lt_pow_right (by omega) hk
  have hw2 : 2 ^ w ≤ 2 ^ 64 := Nat.pow_le_pow_right (by omega) hw
  have hpos : 0 < 2 ^ k := Nat.two_pow_pos k
  have hsize : (BitVec.ofNat w (2 ^ k)).toNat = 2 ^ k := toNat_ofNat_of_lt h2k
  have hmask : (BitVec.ofNat w (2 ^ k) - 1).toNat = 2 ^ k - 1 := by
    rw [toNat_sub_one (by omega), hsize]
  rw [BitVec.toNat_and, toNat_setWidth_of_lt _ (by omega), hmask, Nat.and_two_pow_sub_one_eq_mod]

/-! ### The invariant -/

/-- The ring of `2^k` bytes holds the end of `log`. -/
structure Holds (k : ℕ) (ring : RingLog w) (log : List UInt8) : Prop where
  size_eq : ring.size = BitVec.ofNat w (2 ^ k)
  in_eq : ring.in_ = BitVec.ofNat 64 log.length
  out_eq : ring.out = BitVec.ofNat 64 (log.length - 2 ^ k)
  retains : Retains (2 ^ k) ring.buffer log

variable {ring : RingLog w} {log : List UInt8}

namespace Holds

theorem toNat_size (h : Holds k ring log) (hk : k < w) : ring.size.toNat = 2 ^ k := by
  rw [h.size_eq, toNat_ofNat_of_lt (Nat.pow_lt_pow_right (by omega) hk)]

theorem toNat_ringLogCur (h : Holds k ring log) (hk : k < w) (hw : w ≤ 64) (pos : BitVec 64) :
    (ringLogCur ring pos).toNat = pos.toNat % 2 ^ k := by
  rw [ringLogCur, h.size_eq, toNat_and_mask hk hw]

/-- The room from the masked position to the end of the buffer. -/
theorem toNat_size_sub_cur (h : Holds k ring log) (hk : k < w) (hw : w ≤ 64) (pos : BitVec 64) :
    (ring.size - (ringLogCur ring pos).setWidth w).toNat = 2 ^ k - pos.toNat % 2 ^ k := by
  have hlt : pos.toNat % 2 ^ k < 2 ^ k := Nat.mod_lt _ (Nat.two_pow_pos k)
  have h2k : 2 ^ k < 2 ^ w := Nat.pow_lt_pow_right (by omega) hk
  have hcur : ((ringLogCur ring pos).setWidth w).toNat = pos.toNat % 2 ^ k := by
    rw [toNat_setWidth_of_lt _ (by rw [h.toNat_ringLogCur hk hw]; omega), h.toNat_ringLogCur hk hw]
  rw [toNat_sub_of_le (by rw [hcur, h.toNat_size hk]; omega), hcur, h.toNat_size hk]

/-- The number of bytes held, as a `loff_t` difference. -/
theorem in_sub_out (h : Holds k ring log) :
    ring.in_ - ring.out = BitVec.ofNat 64 (min log.length (2 ^ k)) := by
  have hlen : BitVec.ofNat 64 log.length
      = BitVec.ofNat 64 (log.length - 2 ^ k + min log.length (2 ^ k)) := by
    congr 1; omega
  rw [h.in_eq, h.out_eq, hlen, ofNat_add_sub_ofNat]

theorem toNat_in_sub_out (h : Holds k ring log) (hk : k < 64) :
    (ring.in_ - ring.out).toNat = min log.length (2 ^ k) := by
  have h2k : 2 ^ k < 2 ^ 64 := Nat.pow_lt_pow_right (by omega) hk
  rw [h.in_sub_out, toNat_ofNat_of_lt (by omega)]

/-- The cells from `out` on are those of the position before it wrapped. -/
theorem slots_out (h : Holds k ring log) (hk : k < 64) (len : ℕ) :
    slots (2 ^ k) ring.out.toNat len = slots (2 ^ k) (log.length - 2 ^ k) len := by
  apply List.map_congr_left
  intro i _
  rw [h.out_eq, BitVec.toNat_ofNat, ← Nat.mod_add_mod,
    Nat.mod_mod_of_dvd _ (Nat.pow_dvd_pow 2 hk.le), Nat.mod_add_mod]

end Holds

/-! ### Steps -/

/-- A truncating open empties the log. -/
theorem holds_truncated (h : Holds k ring log) : Holds k { ring with in_ := 0, out := 0 } [] where
  size_eq := h.size_eq
  in_eq := rfl
  out_eq := by simp
  retains := retains_nil _ _

/-- The length a write accepts. -/
theorem toNat_ringLogPut_fst (h : Holds k ring log) (hk : k < w) (buf : ℕ → UInt8)
    (count : BitVec w) :
    (ringLogPut ring buf count).1.toNat = min count.toNat (2 ^ k) := by
  unfold ringLogPut
  rw [toNat_minSize, h.toNat_size hk]

/-- The two block copies of a write are the cyclic `put` of the bytes accepted. -/
theorem ringLogPut_buffer (h : Holds k ring log) (hk : k < w) (hw : w ≤ 64) (buf : ℕ → UInt8)
    (count : BitVec w) :
    (ringLogPut ring buf count).2.buffer
      = put (2 ^ k) ring.buffer log.length (read buf 0 (min count.toNat (2 ^ k))) := by
  have hin : ring.in_.toNat % 2 ^ k = log.length % 2 ^ k := by
    rw [h.in_eq, BitVec.toNat_ofNat, Nat.mod_mod_of_dvd _ (Nat.pow_dvd_pow 2 (by omega))]
  have hlen : (minSize count ring.size).toNat = min count.toNat (2 ^ k) := by
    rw [toNat_minSize, h.toNat_size hk]
  have hl : (minSize (minSize count ring.size)
      (ring.size - (ringLogCur ring ring.in_).setWidth w)).toNat
      = min (min count.toNat (2 ^ k)) (2 ^ k - log.length % 2 ^ k) := by
    rw [toNat_minSize, hlen, h.toNat_size_sub_cur hk hw, hin]
  have hrest : (minSize count ring.size - minSize (minSize count ring.size)
      (ring.size - (ringLogCur ring ring.in_).setWidth w)).toNat
      = min count.toNat (2 ^ k) - min (min count.toNat (2 ^ k)) (2 ^ k - log.length % 2 ^ k) := by
    rw [toNat_sub_of_le (by omega), hlen, hl]
  have hbuf : (ringLogPut ring buf count).2.buffer
      = write (write ring.buffer (ringLogCur ring ring.in_).toNat (read buf 0 (minSize
          (minSize count ring.size) (ring.size - (ringLogCur ring ring.in_).setWidth w)).toNat)) 0
        (read buf (minSize (minSize count ring.size)
            (ring.size - (ringLogCur ring ring.in_).setWidth w)).toNat
          (minSize count ring.size - minSize (minSize count ring.size)
            (ring.size - (ringLogCur ring ring.in_).setWidth w)).toNat) := by
    unfold ringLogPut
    dsimp only
    split_ifs <;> rfl
  rw [hbuf, h.toNat_ringLogCur hk hw, hin, hl, hrest, put, take_read, drop_read, Nat.zero_add]

/-- The position after a write. -/
theorem ringLogPut_in (h : Holds k ring log) (hk : k < w) (buf : ℕ → UInt8) (count : BitVec w) :
    (ringLogPut ring buf count).2.in_
      = BitVec.ofNat 64 (log.length + min count.toNat (2 ^ k)) := by
  have hin : (ringLogPut ring buf count).2.in_
      = ring.in_ + (minSize count ring.size).setWidth 64 := by
    unfold ringLogPut
    dsimp only
    split_ifs <;> rfl
  rw [hin, h.in_eq, setWidth_eq_ofNat, toNat_minSize, h.toNat_size hk, BitVec.ofNat_add]

/-- `out` follows when the ring would hold more than its size. -/
theorem ringLogPut_out (ring : RingLog w) (buf : ℕ → UInt8) (count : BitVec w) :
    (ringLogPut ring buf count).2.out =
      if ((ringLogPut ring buf count).2.in_ - ring.out).setWidth w > ring.size then
        (ringLogPut ring buf count).2.in_ - ring.size.setWidth 64
      else ring.out := by
  unfold ringLogPut ringLogLen
  dsimp only
  split_ifs <;> rfl

/-- The oldest position after a write, in terms of the log. -/
theorem ringLogPut_out_eq (h : Holds k ring log) (hk : k + 1 < w) (hw : w ≤ 64) (buf : ℕ → UInt8)
    (count : BitVec w) :
    (ringLogPut ring buf count).2.out
      = BitVec.ofNat 64 (log.length + min count.toNat (2 ^ k) - 2 ^ k) := by
  have h2k : 2 ^ (k + 1) < 2 ^ w := Nat.pow_lt_pow_right (by omega) hk
  rw [Nat.pow_succ] at h2k
  have hw64 : 2 ^ w ≤ 2 ^ 64 := Nat.pow_le_pow_right (by omega) hw
  have hsize := h.toNat_size (show k < w by omega)
  rw [ringLogPut_out, ringLogPut_in h (by omega)]
  set n := min count.toNat (2 ^ k) with hn
  -- the number of bytes between the old `out` and the new `in_`, at most twice the size
  have hdiff : BitVec.ofNat 64 (log.length + n) - ring.out
      = BitVec.ofNat 64 (min log.length (2 ^ k) + n) := by
    have hsum : log.length + n = log.length - 2 ^ k + (min log.length (2 ^ k) + n) := by omega
    rw [h.out_eq, hsum, ofNat_add_sub_ofNat]
  have hlen : ((BitVec.ofNat 64 (log.length + n) - ring.out).setWidth w).toNat
      = min log.length (2 ^ k) + n := by
    have hnat : (BitVec.ofNat 64 (log.length + n) - ring.out).toNat
        = min log.length (2 ^ k) + n := by
      rw [hdiff, toNat_ofNat_of_lt (by omega)]
    rw [toNat_setWidth_of_lt _ (by omega), hnat]
  split_ifs with hgt
  · -- the oldest bytes are dropped
    have hgt' := BitVec.lt_def.mp hgt
    rw [hlen, hsize] at hgt'
    have hsum : log.length + n = 2 ^ k + (log.length + n - 2 ^ k) := by omega
    rw [setWidth_eq_ofNat, hsize]
    conv_lhs => rw [hsum]
    exact ofNat_add_sub_ofNat _ _
  · -- everything still fits: nothing was dropped before either
    have hle := mt BitVec.lt_def.mpr hgt
    rw [hlen, hsize] at hle
    rw [h.out_eq]
    congr 1
    omega

/-- **Step lemma for writes**: a write appends the bytes it accepts to the log. -/
theorem holds_ringLogPut (h : Holds k ring log) (hk : k + 1 < w) (hw : w ≤ 64) (buf : ℕ → UInt8)
    (count : BitVec w) :
    Holds k (ringLogPut ring buf count).2
      (log ++ read buf 0 (ringLogPut ring buf count).1.toNat) := by
  rw [toNat_ringLogPut_fst h (by omega)]
  refine ⟨?_, ?_, ?_, ?_⟩
  · unfold ringLogPut
    dsimp only
    split_ifs <;> exact h.size_eq
  · rw [ringLogPut_in h (by omega), List.length_append, length_read]
  · rw [ringLogPut_out_eq h hk hw, List.length_append, length_read]
  · rw [ringLogPut_buffer h (by omega) hw]
    apply retains_put (Nat.two_pow_pos k) _ h.retains
    rw [length_read]
    exact Nat.min_le_right _ _

/-- Opening a file keeps the invariant for the log that is left. -/
theorem holds_ringLogOpen (h : Holds k ring log) (trunc : Bool) :
    Holds k (ringLogOpen ring trunc).1 (if trunc then [] else log) := by
  cases trunc with
  | true => exact holds_truncated h
  | false => exact h

/-- One system call keeps the invariant. -/
theorem holds_step (hk : k + 1 < w) (hw : w ≤ 64) (dev : Dev w) (history : List Event)
    (op : Op w) (h : Holds k dev.ring (logged history)) :
    Holds k (step dev op).1.ring (logged (history ++ (step dev op).2)) := by
  cases op with
  | open_ trunc =>
    have hopen := holds_ringLogOpen h trunc
    cases trunc with
    | true => simpa [step] using hopen
    | false => simpa [step] using hopen
  | read fd count =>
    unfold step
    cases hfd : dev.files[fd]? <;> simpa [hfd] using h
  | write fd buf count =>
    unfold step
    cases hfd : dev.files[fd]? with
    | none => simpa [hfd] using h
    | some fPos => simpa [hfd, ringLogWrite] using holds_ringLogPut h hk hw buf count
  | llseek fd offset origin =>
    unfold step
    cases hfd : dev.files[fd]? <;> simpa [hfd] using h

/-! ### Runs of a registered ring -/

theorem Target.sizeBits_le (t : Target) : t.sizeBits ≤ 64 := by
  cases t <;> decide

namespace Geometry

variable (g : Geometry)

theorem order_lt_sizeBits : g.order < g.target.sizeBits := by
  have := g.order_lt
  omega

theorem order_lt_63 : g.order < 63 := by
  have := g.order_lt
  have := g.target.sizeBits_le
  omega

/-- **Run lemma**: after every sequence of system calls the ring holds the end of the log. -/
theorem holds_run (memory : ℕ → UInt8) (ops : List (Op g.target.sizeBits)) :
    Holds g.order (run step (g.setup memory) ops).1.ring
      (logged (run step (g.setup memory) ops).2) := by
  apply run_inv step (P := fun dev history => Holds g.order dev.ring (logged history))
  · exact ⟨rfl, rfl, by simp [setup], retains_nil _ _⟩
  · intro dev history op h
    exact holds_step g.order_lt g.target.sizeBits_le dev history op h

end Geometry

/-- **The ring log content**: after every sequence of system calls, `0 ≤ in - out ≤ size`, a write
accepts `min count size` bytes, and the bytes at the positions from `out` to `in` are the last
`min T size` of the `T` bytes accepted since the last truncation. -/
theorem ringLog_content (g : Geometry) (memory : ℕ → UInt8) (ops : List (Op g.target.sizeBits)) :
    let dev := (run step (g.setup memory) ops).1
    let log := logged (run step (g.setup memory) ops).2
    (0 ≤ (dev.ring.in_ - dev.ring.out).toInt ∧ (dev.ring.in_ - dev.ring.out).toInt ≤ g.bytes) ∧
    (∀ buf count fPos,
      (ringLogWrite dev.ring buf count fPos).1.toNat = min count.toNat g.bytes) ∧
    (dev.ring.in_ - dev.ring.out).toNat = min log.length g.bytes ∧
    (slots g.bytes dev.ring.out.toNat (dev.ring.in_ - dev.ring.out).toNat).map dev.ring.buffer
      = log.drop (log.length - min log.length g.bytes) := by
  intro dev log
  have h : Holds g.order dev.ring log := g.holds_run memory ops
  have hk := g.order_lt_sizeBits
  have hk63 := g.order_lt_63
  have hlen : (dev.ring.in_ - dev.ring.out).toNat = min log.length g.bytes :=
    h.toNat_in_sub_out (by omega)
  have hbytes : g.bytes < 2 ^ 63 := Nat.pow_lt_pow_right (by omega) hk63
  have hint : (dev.ring.in_ - dev.ring.out).toInt = (min log.length g.bytes : ℕ) := by
    rw [BitVec.toInt_eq_toNat_of_lt (by omega), hlen]
  refine ⟨?_, ?_, hlen, ?_⟩
  · rw [hint]; omega
  · intro buf count fPos
    exact toNat_ringLogPut_fst h hk buf count
  · rw [hlen, Geometry.bytes, h.slots_out (by omega), map_slots_window h.retains, window]
    congr 1
    omega

end Neufbox.RingLogs
