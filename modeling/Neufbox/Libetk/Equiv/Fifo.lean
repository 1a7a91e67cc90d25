import Neufbox.Lib.Cyclic
import Neufbox.Lib.Queue
import Neufbox.Lib.Run
import Neufbox.Lib.Words
import Neufbox.Libetk.Fifo

/-!
# A FIFO is a byte queue

`Refines fifo q` relates a fifo of `2^k` bytes to a queue of that capacity: the difference of the
counters, in 32 bits, is the length of the queue, and the bytes from `out` on, masked, are its
items.  Nothing is said about the counters themselves, which may wrap at any time: `2^k` divides
`2^32`, so that the masked offsets go on where they were.

Each call does to the fifo what its abstract counterpart (`call`) does to the queue, and returns the
same (`refines_step`); `fifo_refines` is the refinement over every sequence of calls.
-/

namespace Neufbox.Libetk

open Memory Cyclic Machine Queue Words

variable {k : ℕ} {fifo : Fifo}

/-! ### The abstract calls -/

/-- What a call does to the queue. -/
def call {cap : ℕ} (q : Queue UInt8 cap) : Op → Queue UInt8 cap × List Ret
  | .in_ from_ len => (q.push (read from_ 0 len.toNat), [.in_ (min len.toNat q.room)])
  | .out len =>
    (q.pop len.toNat, [.out (min len.toNat q.items.length) (q.items.take len.toNat)])
  | .skip len => (q.pop len.toNat, [])
  | .reset => (.empty, [])

/-! ### Unsigned arithmetic -/

theorem toNat_minUnsigned (x y : BitVec 32) :
    (minUnsigned x y).toNat = min x.toNat y.toNat :=
  toNat_ite_lt x y

theorem toNat_fifoOff (hsize : fifo.size.toNat = 2 ^ k) (off : BitVec 32) :
    (fifoOff fifo off).toNat = off.toNat % 2 ^ k := by
  have hpos : 0 < fifo.size.toNat := by
    rw [hsize]
    exact Nat.two_pow_pos k
  have hmask : (fifo.size - 1).toNat = 2 ^ k - 1 := by rw [toNat_sub_one hpos, hsize]
  rw [fifoOff, BitVec.toNat_and, hmask, Nat.and_two_pow_sub_one_eq_mod]

/-- The size of a fifo divides the range of the counters. -/
theorem size_dvd (hsize : fifo.size.toNat = 2 ^ k) : 2 ^ k ∣ 2 ^ 32 := by
  have hk : 2 ^ k < 2 ^ 32 := hsize ▸ fifo.size.isLt
  exact pow_dvd_pow 2 ((Nat.pow_lt_pow_iff_right (by omega)).mp hk).le

/-- A counter that wraps stays in step with the cells. -/
theorem toNat_add_mod (hsize : fifo.size.toNat = 2 ^ k) (x y : BitVec 32) :
    (x + y).toNat % 2 ^ k = (x.toNat + y.toNat) % 2 ^ k := by
  rw [BitVec.toNat_add, Nat.mod_mod_of_dvd _ (size_dvd hsize)]

/-! ### The two copies -/

/-- The lengths of the copies up to the end of the buffer and at its beginning. -/
theorem toNat_copies (hsize : fifo.size.toNat = 2 ^ k) (len off : BitVec 32) :
    let l := minUnsigned len (fifo.size - fifoOff fifo off)
    l.toNat = min len.toNat (2 ^ k - off.toNat % 2 ^ k) ∧
      (len - l).toNat = len.toNat - min len.toNat (2 ^ k - off.toNat % 2 ^ k) := by
  intro l
  have hlt : off.toNat % 2 ^ k < 2 ^ k := Nat.mod_lt _ (Nat.two_pow_pos k)
  have hoff := toNat_fifoOff hsize off
  have hl : l.toNat = min len.toNat (2 ^ k - off.toNat % 2 ^ k) := by
    rw [toNat_minUnsigned, toNat_sub_of_le (by omega), hoff, hsize]
  exact ⟨hl, by rw [toNat_sub_of_le (by omega), hl]⟩

theorem buffer_fifoInData (hsize : fifo.size.toNat = 2 ^ k) (from_ : ℕ → UInt8)
    (len off : BitVec 32) :
    (fifoInData fifo from_ len off).buffer
      = put (2 ^ k) fifo.buffer (fifo.in_ + off).toNat (read from_ 0 len.toNat) := by
  obtain ⟨hl, hrest⟩ := toNat_copies hsize len (fifo.in_ + off)
  unfold fifoInData
  dsimp only
  rw [hl, hrest, toNat_fifoOff hsize, put, take_read, drop_read, Nat.zero_add]

theorem fifoOutData_eq (hsize : fifo.size.toNat = 2 ^ k) (len off : BitVec 32) :
    fifoOutData fifo len off
      = (splitSlots (2 ^ k) (fifo.out + off).toNat len.toNat).map fifo.buffer := by
  obtain ⟨hl, hrest⟩ := toNat_copies hsize len (fifo.out + off)
  unfold fifoOutData
  dsimp only
  rw [hl, hrest, toNat_fifoOff hsize, splitSlots, List.map_append, List.map_map]
  simp only [Memory.read, Function.comp_def, Nat.zero_add]

/-! ### Refinement -/

/-- The fifo of `2^k` bytes holds the items of the queue. -/
structure Refines (fifo : Fifo) (q : Queue UInt8 (2 ^ k)) : Prop where
  size : fifo.size.toNat = 2 ^ k
  len : (fifoLen fifo).toNat = q.items.length
  queued : Queued (2 ^ k) fifo.buffer fifo.out.toNat q.items

theorem refines_empty (hsize : fifo.size.toNat = 2 ^ k) (h : fifo.in_ = fifo.out) :
    Refines fifo (.empty : Queue UInt8 (2 ^ k)) where
  size := hsize
  len := by rw [fifoLen, h, BitVec.sub_self]; rfl
  queued := queued_nil

variable {q : Queue UInt8 (2 ^ k)}

namespace Refines

theorem fifoLen_le (h : Refines fifo q) : fifoLen fifo ≤ fifoSize fifo := by
  rw [BitVec.le_def, h.len, fifoSize, h.size]
  exact q.length_le

theorem toNat_fifoAvail (h : Refines fifo q) : (fifoAvail fifo).toNat = q.room := by
  rw [fifoAvail, BitVec.toNat_sub_of_le h.fifoLen_le, h.len, fifoSize, h.size, Queue.room]

/-- **Copying out** bytes of the queue, from any of them on. -/
theorem fifoOutData_eq (h : Refines fifo q) {len off : BitVec 32}
    (hle : off.toNat + len.toNat ≤ q.items.length) :
    fifoOutData fifo len off = (q.items.drop off.toNat).take len.toNat := by
  have hdrop : Queued (2 ^ k) fifo.buffer (fifo.out + off).toNat (q.items.drop off.toNat) :=
    (h.queued.drop off.toNat).congr (toNat_add_mod h.size fifo.out off).symm
  have hlength : (q.items.drop off.toNat).length = q.items.length - off.toNat :=
    List.length_drop
  have hq := q.length_le
  rw [Libetk.fifoOutData_eq h.size]
  exact hdrop.map_splitSlots (Nat.two_pow_pos k) (by omega) (by omega)

/-- The cell that is written next. -/
theorem in_mod (h : Refines fifo q) :
    fifo.in_.toNat % 2 ^ k = (fifo.out.toNat + q.items.length) % 2 ^ k := by
  have hin : fifo.in_ = fifo.out + fifoLen fifo := by
    rw [fifoLen, BitVec.add_comm, BitVec.sub_add_cancel]
  rw [hin, toNat_add_mod h.size, h.len]

end Refines

/-- Bytes that there is room for are stored from `in` on. -/
theorem refines_put (h : Refines fifo q) {xs : List UInt8} {len : BitVec 32}
    (hlen : len.toNat = xs.length) (hroom : xs.length ≤ q.room) :
    Refines { fifo with
      buffer := put (2 ^ k) fifo.buffer fifo.in_.toNat xs, in_ := fifo.in_ + len } (q.push xs) := by
  have htotal : q.items.length + xs.length ≤ 2 ^ k := by
    have := q.length_le
    rw [Queue.room] at hroom
    omega
  have hpush : (q.push xs).items = q.items ++ xs := by
    rw [items_push, List.take_of_length_le hroom]
  refine ⟨h.size, ?_, ?_⟩
  · -- the counter may wrap, the difference does not
    have hlt : 2 ^ k < 2 ^ 32 := h.size ▸ fifo.size.isLt
    have hdiff : fifo.in_ + len - fifo.out = fifoLen fifo + len := by
      rw [fifoLen]
      bv_omega
    show (fifo.in_ + len - fifo.out).toNat = _
    rw [hdiff, BitVec.toNat_add, h.len, hlen, hpush, List.length_append,
      Nat.mod_eq_of_lt (by omega)]
  · show Queued _ (put (2 ^ k) fifo.buffer fifo.in_.toNat xs) fifo.out.toNat _
    rw [put_congr _ _ h.in_mod, hpush]
    exact h.queued.append (Nat.two_pow_pos k) htotal

/-- **`fifo_in`** appends what there is room for. -/
theorem refines_fifoIn (h : Refines fifo q) (from_ : ℕ → UInt8) (len : BitVec 32) :
    Refines (fifoIn fifo from_ len).2 (q.push (read from_ 0 len.toNat)) ∧
      (fifoIn fifo from_ len).1.toNat = min len.toNat q.room := by
  have hlen : (minUnsigned (fifoAvail fifo) len).toNat = min len.toNat q.room := by
    rw [toNat_minUnsigned, h.toNat_fifoAvail, Nat.min_comm]
  have hpush : q.push (read from_ 0 len.toNat)
      = q.push (read from_ 0 (minUnsigned (fifoAvail fifo) len).toNat) := by
    apply Queue.ext
    rw [items_push, items_push, take_read, take_read, hlen, Nat.min_assoc, Nat.min_self]
  have hput := refines_put h
    (length_read from_ 0 (minUnsigned (fifoAvail fifo) len).toNat).symm
    (by rw [length_read, hlen]; exact Nat.min_le_right _ _)
  rw [← BitVec.add_zero fifo.in_, ← buffer_fifoInData h.size, BitVec.add_zero] at hput
  rw [hpush]
  exact ⟨hput, hlen⟩

/-- The oldest bytes are given up. -/
theorem refines_fifoAddOut (h : Refines fifo q) (len : BitVec 32)
    (hlen : len.toNat ≤ q.items.length) :
    Refines (fifoAddOut fifo len) (q.pop len.toNat) where
  size := h.size
  len := by
    have hdiff : fifoLen (fifoAddOut fifo len) = fifoLen fifo - len := by
      simp only [fifoLen, fifoAddOut]
      bv_omega
    rw [hdiff, toNat_sub_of_le (h.len ▸ hlen), h.len, items_pop, List.length_drop]
  queued := (h.queued.drop len.toNat).congr (toNat_add_mod h.size fifo.out len).symm

/-- **`fifo_out`** removes the oldest bytes and returns them. -/
theorem refines_fifoOut (h : Refines fifo q) (len : BitVec 32) :
    Refines (fifoOut fifo len).2.2 (q.pop len.toNat) ∧
      (fifoOut fifo len).1.toNat = min len.toNat q.items.length ∧
      (fifoOut fifo len).2.1 = q.items.take len.toNat := by
  have hlen : (minUnsigned (fifoLen fifo) len).toNat = min len.toNat q.items.length := by
    rw [toNat_minUnsigned, h.len, Nat.min_comm]
  refine ⟨?_, hlen, ?_⟩
  · have hout := refines_fifoAddOut h (minUnsigned (fifoLen fifo) len) (by omega)
    rwa [hlen, pop_min] at hout
  · show fifoOutData fifo (minUnsigned (fifoLen fifo) len) 0 = _
    have hzero : (0 : BitVec 32).toNat = 0 := rfl
    rw [h.fifoOutData_eq (by omega), hzero, List.drop_zero, hlen, ← List.take_eq_take_min]

/-- **`fifo_skip`** drops the oldest bytes. -/
theorem refines_fifoSkip (h : Refines fifo q) (len : BitVec 32) :
    Refines (fifoSkip fifo len) (q.pop len.toNat) := by
  unfold fifoSkip
  split_ifs with hlt
  · have := BitVec.lt_def.mp hlt
    exact refines_fifoAddOut h len (by rw [← h.len]; omega)
  · have := mt BitVec.lt_def.mpr hlt
    rw [pop_of_length_le q (by rw [← h.len]; omega)]
    exact refines_empty h.size rfl

/-- **One call** keeps the relation, and returns what the queue says. -/
theorem refines_step (h : Refines fifo q) (op : Op) :
    Refines (step fifo op).1 (call q op).1 ∧ (step fifo op).2 = (call q op).2 := by
  cases op with
  | in_ from_ len =>
    obtain ⟨hnext, hret⟩ := refines_fifoIn h from_ len
    exact ⟨hnext, by simp only [step, call, hret]⟩
  | out len =>
    obtain ⟨hnext, hret, hbytes⟩ := refines_fifoOut h len
    exact ⟨hnext, by simp only [step, call, hret, hbytes]⟩
  | skip len => exact ⟨refines_fifoSkip h len, rfl⟩
  | reset => exact ⟨refines_empty h.size rfl, rfl⟩

/-- The memory behind the buffer is not written. -/
theorem buffer_step_of_ge (h : Refines fifo q) (op : Op) {j : ℕ} (hj : 2 ^ k ≤ j) :
    (step fifo op).1.buffer j = fifo.buffer j := by
  cases op with
  | in_ from_ len =>
    have hroom : (minUnsigned (fifoAvail fifo) len).toNat ≤ 2 ^ k := by
      rw [toNat_minUnsigned, h.toNat_fifoAvail, Queue.room]
      exact (Nat.min_le_left _ _).trans (Nat.sub_le _ _)
    show (fifoInData fifo from_ (minUnsigned (fifoAvail fifo) len) 0).buffer j = _
    rw [buffer_fifoInData h.size]
    exact put_apply_of_ge (Nat.two_pow_pos k) (by rwa [length_read]) hj
  | out len => rfl
  | skip len =>
    simp only [step, fifoSkip]
    split_ifs <;> rfl
  | reset => rfl

/-- **FIFO refinement.**  For every fifo whose size is a power of two, empty with its counters
anywhere, and every sequence of calls: the calls return what they return on a byte queue of that
capacity, the bytes that the fifo holds are those of the queue, and their number, which is the value
of `fifo_len`, does not exceed the size.  No memory outside of the buffer is written. -/
theorem fifo_refines (k : ℕ) (fifo : Fifo) (hsize : fifo.size.toNat = 2 ^ k)
    (hempty : fifo.in_ = fifo.out) (ops : List Op) :
    let fifo' := (run step fifo ops).1
    let q := (run call (.empty : Queue UInt8 (2 ^ k)) ops).1
    (run step fifo ops).2 = (run call (.empty : Queue UInt8 (2 ^ k)) ops).2 ∧
      Refines fifo' q ∧ (fifoLen fifo').toNat = q.items.length ∧
      fifoLen fifo' ≤ fifoSize fifo' ∧ ∀ j ≥ 2 ^ k, fifo'.buffer j = fifo.buffer j := by
  obtain ⟨⟨hrefines, hmemory⟩, hevents⟩ := run_sim step call
    (R := fun fifo' (q : Queue UInt8 (2 ^ k)) =>
      Refines fifo' q ∧ ∀ j ≥ 2 ^ k, fifo'.buffer j = fifo.buffer j)
    (fun _ _ op h => ⟨⟨(refines_step h.1 op).1, fun j hj =>
      (buffer_step_of_ge h.1 op hj).trans (h.2 j hj)⟩, (refines_step h.1 op).2⟩)
    ⟨refines_empty hsize hempty, fun _ _ => rfl⟩ ops
  exact ⟨hevents, hrefines, hrefines.len, hrefines.fifoLen_le, hmemory⟩

/-- The counters start at the end of their range, and wrap within the first call. -/
theorem fifo_refines_wrapping :
    let fifo : Fifo := ⟨fun _ => 0, 4, 0xfffffffe, 0xfffffffe⟩
    let ops : List Op := [.in_ (fun i => .ofNat (10 + i)) 7, .out 1, .in_ (fun _ => 99) 1, .out 9]
    (run step fifo ops).2 = [.in_ 4, .out 1 [10], .in_ 1, .out 4 [11, 12, 13, 99]] ∧
      (run step fifo ops).1.in_ = 3 := by
  intro fifo ops
  refine ⟨((fifo_refines 2 fifo rfl rfl ops).1).trans ?_, ?_⟩ <;> decide

/-! ### Peeking

`fifo_out_peek` adds the offset to the length before it limits it, where the bytes in front of the
offset had to be taken off what is there.  So it copies too much whenever the offset skips
something. -/

/-- How many bytes there are to peek at from the offset on. -/
def peekable (used len offset : ℕ) : ℕ := if offset < used then min len (used - offset) else 0

theorem peekable_le (used len offset : ℕ) : peekable used len offset ≤ len := by
  unfold peekable
  split_ifs <;> omega

theorem add_peekable_le {used offset : ℕ} (h : offset < used) (len : ℕ) :
    offset + peekable used len offset ≤ used := by
  rw [peekable, if_pos h]
  omega

/-- A size that is a power of two and fits in 32 bits leaves one of them. -/
theorem Refines.toNat_fifoLen_le (h : Refines fifo q) :
    (fifoLen fifo).toNat ≤ 2 ^ 31 := by
  have hlt : 2 ^ k < 2 ^ 32 := h.size ▸ fifo.size.isLt
  have hk : k ≤ 31 := Nat.le_of_lt_succ ((Nat.pow_lt_pow_iff_right (by omega)).mp hlt)
  calc (fifoLen fifo).toNat = q.items.length := h.len
    _ ≤ 2 ^ k := q.length_le
    _ ≤ 2 ^ 31 := Nat.pow_le_pow_right (by omega) hk

/-- When the number of bytes copied is the number there is: with no offset, with an empty fifo, or
when the sum of length and offset wraps to just the right value. -/
theorem min_eq_peekable_iff {used len offset : ℕ} (hused : used ≤ 2 ^ 31) (hlen : len < 2 ^ 32)
    (hoffset : offset < 2 ^ 32) :
    min used ((len + offset) % 2 ^ 32) = peekable used len offset ↔
      offset = 0 ∨ used = 0 ∨ (offset < used ∧ len + 2 * offset = 2 ^ 32 + used) ∨
        (used ≤ offset ∧ len + offset = 2 ^ 32) := by
  unfold peekable
  split_ifs with hlt <;> omega

/-- **`fifo_out_peek`.**  In every fifo that holds a byte queue: exactly the queued bytes from the
offset on are copied, at most `len` of them, and their number is returned, if and only if the offset
is 0, or there is nothing in the fifo, or the sum of `len` and `offset` wraps and leaves just their
number.  The fifo is left as it was. -/
theorem fifoOutPeek_iff {q : Queue UInt8 (2 ^ k)} (h : Refines fifo q) (len offset : BitVec 32) :
    let used := (fifoLen fifo).toNat
    let count := peekable used len.toNat offset.toNat
    let (ret, bytes, fifo') := fifoOutPeek fifo len offset
    (ret.toNat = count ∧ bytes = (q.items.drop offset.toNat).take count ∧
        bytes.length ≤ len.toNat ∧ fifo' = fifo) ↔
      offset.toNat = 0 ∨ used = 0 ∨
        (offset.toNat < used ∧ len.toNat + 2 * offset.toNat = 2 ^ 32 + used) ∨
        (used ≤ offset.toNat ∧ len.toNat + offset.toNat = 2 ^ 32) := by
  intro used count
  dsimp only [fifoOutPeek]
  have hret : (minUnsigned (fifoLen fifo) (len + offset)).toNat
      = min used ((len.toNat + offset.toNat) % 2 ^ 32) := by
    rw [toNat_minUnsigned, BitVec.toNat_add]
  rw [← min_eq_peekable_iff h.toNat_fifoLen_le len.isLt offset.isLt, ← hret]
  constructor
  · exact fun hpeek => hpeek.1
  · intro hcount
    have hlength : (fifoOutData fifo (minUnsigned (fifoLen fifo) (len + offset)) offset).length
        = count := by
      rw [fifoOutData_eq h.size, List.length_map, length_splitSlots, hcount]
    refine ⟨hcount, ?_, ?_, rfl⟩
    · by_cases hlt : offset.toNat < used
      · have hle : offset.toNat + count ≤ used := add_peekable_le hlt len.toNat
        rw [h.fifoOutData_eq (by rw [hcount, ← h.len]; exact hle), hcount]
      · have hzero : count = 0 := if_neg hlt
        rw [hzero, List.take_zero]
        exact List.eq_nil_of_length_eq_zero (hlength.trans hzero)
    · rw [hlength]
      exact peekable_le used len.toNat offset.toNat

/-- Of four bytes, two are peeked at without an offset. -/
theorem fifoOutPeek_start :
    let fifo : Fifo := (run step ⟨fun _ => 0, 4, 0, 0⟩ [.in_ (fun i => .ofNat (10 + i)) 4]).1
    (fifoOutPeek fifo 2 0).2.1 = [10, 11] := by
  intro fifo
  have h : Refines (k := 2) fifo _ := (refines_step (refines_empty rfl rfl) _).1
  exact ((fifoOutPeek_iff h 2 0).mpr (.inl rfl)).2.1.trans (by decide)

/-- One byte at offset 1 is asked for, and the caller's memory gets two. -/
theorem fifoOutPeek_past_len :
    let fifo : Fifo := (run step ⟨fun _ => 0, 4, 0, 0⟩ [.in_ (fun i => .ofNat (10 + i)) 4]).1
    fifoLen fifo = 4 ∧ (fifoOutPeek fifo 1 1).1 = 2 ∧ (fifoOutPeek fifo 1 1).2.1 = [11, 12] ∧
      peekable 4 1 1 = 1 := by
  decide

end Neufbox.Libetk
