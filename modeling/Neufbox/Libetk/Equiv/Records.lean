import Neufbox.Lib.Framed
import Neufbox.Libetk.Equiv.Fifo
import Neufbox.Libetk.Records

/-!
# A FIFO of records

`HoldsRecords w fifo rs` says that the bytes in a fifo are the records `rs`, each behind its length
in `w` bytes, and that these lengths fit.  Beside the calls on the fifo runs a queue of records
(`recCall`); `Behaves` says of one call that it answers as the queue does (`Answers`), that the
fifo holds the records of the queue after it, and that it is unchanged when the queue is.

Three things go wrong (`Recordable`): a record longer than its length field says is accepted, the
sum of a length and the size of the field wraps, and an empty fifo is asked for a record where the
memory behind it happens to say that one of length 0 is there.  A sequence of calls without these,
and no other, is one on a queue of records (`records_iff`).
-/

namespace Neufbox.Libetk

open Memory Cyclic Machine Queue Framed Endian

variable {k : ℕ} {fifo : Fifo}

/-! ### The queue of records -/

/-- There is room for a record of `n` bytes and its field. -/
def Fits (cap w : ℕ) (rs : List (List UInt8)) (n : ℕ) : Prop :=
  (frames w rs).length + (n + w) ≤ cap

instance (cap w : ℕ) (rs : List (List UInt8)) (n : ℕ) : Decidable (Fits cap w rs n) :=
  inferInstanceAs (Decidable (_ ≤ cap))

/-- What a call does to a queue of records that has `cap` bytes for them and their fields. -/
def recCall (cap w : ℕ) (rs : List (List UInt8)) : RecOp → List (List UInt8)
  | .in_ from_ n => if Fits cap w rs n.toNat then rs ++ [read from_ 0 n.toNat] else rs
  | .out n =>
    match rs with
    | [] => []
    | r :: rs => if n.toNat < r.length then r :: rs else rs
  | .peek _ => rs
  | .skip => rs.tail

/-- What a call may answer: 0 for a record that is taken or given, more than its length for one that
is rejected, and anything but 0 when there is no record to give. -/
def Answers (cap w : ℕ) (rs : List (List UInt8)) : RecOp → List RecRet → Prop
  | .in_ _ n, rets =>
    ∃ ret, rets = [.in_ ret] ∧ if Fits cap w rs n.toNat then ret = 0 else n.toNat < ret
  | .out n, rets =>
    match rs with
    | [] => ∃ ret total, rets = [.out ret [] total] ∧ ret ≠ 0
    | r :: _ =>
      rets = if n.toNat < r.length then [.out r.length [] r.length] else [.out 0 r r.length]
  | .peek _, rets =>
    match rs with
    | [] => True
    | r :: _ => rets = [.peek r.length]
  | .skip, rets => rets = []

/-! ### The length field -/

/-- Two bytes as the code puts them together. -/
theorem toNat_or_shiftLeft (x y : UInt8) :
    (BitVec.ofNat 32 x.toNat ||| BitVec.ofNat 32 y.toNat <<< 8).toNat
      = x.toNat + 256 * y.toNat := by
  have hx : x.toNat < 2 ^ 8 := x.toNat_lt
  have hy : y.toNat < 2 ^ 8 := y.toNat_lt
  rw [BitVec.toNat_or, BitVec.toNat_shiftLeft, BitVec.toNat_ofNat, BitVec.toNat_ofNat,
    Nat.mod_eq_of_lt (show x.toNat < 2 ^ 32 by omega),
    Nat.mod_eq_of_lt (show y.toNat < 2 ^ 32 by omega), Nat.shiftLeft_eq,
    Nat.mod_eq_of_lt (show y.toNat * 2 ^ 8 < 2 ^ 32 by omega), Nat.mul_comm, Nat.or_comm,
    ← Nat.two_pow_add_eq_or_of_lt hx]
  omega

variable {recsize : BitVec 32}

theorem recsize_pos (hrec : recsize = 1 ∨ recsize = 2) : 0 < recsize.toNat := by
  rcases hrec with rfl | rfl <;> decide

theorem recsize_ne_zero (hrec : recsize = 1 ∨ recsize = 2) : recsize ≠ 0 := by
  rcases hrec with rfl | rfl <;> decide

/-- The field is read from the first cells, whatever they hold. -/
theorem toNat_fifoPeekN (hsize : fifo.size.toNat = 2 ^ k) (hrec : recsize = 1 ∨ recsize = 2) :
    (fifoPeekN fifo recsize).toNat
      = decodeLE ((slots (2 ^ k) fifo.out.toNat recsize.toNat).map fifo.buffer) := by
  have hcell (off : BitVec 32) : (fifoOff fifo (fifo.out + off)).toNat
      = (fifo.out.toNat + off.toNat) % 2 ^ k := by
    rw [toNat_fifoOff hsize, toNat_add_mod hsize]
  rcases hrec with rfl | rfl
  · show (BitVec.ofNat 32 (fifo.buffer _).toNat <<< 0).toNat = _
    rw [hcell, BitVec.shiftLeft_zero, BitVec.toNat_ofNat, Nat.mod_eq_of_lt]
    · rfl
    · exact (UInt8.toNat_lt _).trans (by decide)
  · show (BitVec.ofNat 32 (fifo.buffer _).toNat <<< 0
      ||| BitVec.ofNat 32 (fifo.buffer _).toNat <<< 8).toNat = _
    rw [hcell, hcell, BitVec.shiftLeft_zero, toNat_or_shiftLeft]
    rfl

/-- The field is stored in the first free cells. -/
theorem fifoPokeN_eq (hsize : fifo.size.toNat = 2 ^ k) (hrec : recsize = 1 ∨ recsize = 2)
    (hle : recsize.toNat ≤ 2 ^ k) (n : BitVec 32) :
    fifoPokeN fifo recsize n = { fifo with
      buffer := put (2 ^ k) fifo.buffer fifo.in_.toNat (encodeLE recsize.toNat n.toNat) } := by
  have hcell (off : BitVec 32) : (fifoOff fifo (fifo.in_ + off)).toNat
      = (fifo.in_.toNat + off.toNat) % 2 ^ k := by
    rw [toNat_fifoOff hsize, toNat_add_mod hsize]
  have hpos : 0 < 2 ^ k := Nat.two_pow_pos k
  rcases hrec with rfl | rfl
  · show { fifo with buffer := Function.update fifo.buffer _ (UInt8.ofNat (n >>> 0).toNat) } = _
    rw [hcell, BitVec.ushiftRight_zero, ← put_singleton _ _ hpos]
    rfl
  · have hne : (fifo.in_.toNat + (0 : BitVec 32).toNat) % 2 ^ k
        ≠ (fifo.in_.toNat + (1 : BitVec 32).toNat) % 2 ^ k :=
      mod_ne_mod_of_lt (Nat.lt_succ_self _) (Nat.add_lt_add_left hle fifo.in_.toNat)
    have hhigh : (n >>> 8).toNat = n.toNat / 256 := by
      rw [BitVec.toNat_ushiftRight, Nat.shiftRight_eq_div_pow]
    show { fifo with
      buffer := Function.update (Function.update fifo.buffer (fifoOff fifo (fifo.in_ + 0)).toNat
          (UInt8.ofNat (n >>> 0).toNat)) (fifoOff fifo (fifo.in_ + 1)).toNat
          (UInt8.ofNat (n >>> 8).toNat) } = _
    rw [hcell, hcell, Function.update_comm hne, BitVec.ushiftRight_zero, hhigh,
      ← put_singleton _ _ hpos, ← put_singleton _ _ hpos]
    have hfield : encodeLE (2 : BitVec 32).toNat n.toNat
        = [UInt8.ofNat n.toNat] ++ [UInt8.ofNat (n.toNat / 256)] := rfl
    have hlen : [UInt8.ofNat n.toNat].length + [UInt8.ofNat (n.toNat / 256)].length ≤ 2 ^ k := hle
    rw [hfield, ← put_append fifo.buffer hpos hlen]
    rfl

/-! ### Fifo and records -/

/-- The fifo of `2^k` bytes holds the records. -/
structure HoldsRecords (k w : ℕ) (fifo : Fifo) (rs : List (List UInt8)) : Prop where
  refines : ∃ q : Queue UInt8 (2 ^ k), q.items = frames w rs ∧ Refines fifo q
  short : Short w rs

theorem holdsRecords_nil (hsize : fifo.size.toNat = 2 ^ k) (h : fifo.in_ = fifo.out) (w : ℕ) :
    HoldsRecords k w fifo [] :=
  ⟨⟨.empty, rfl, refines_empty hsize h⟩, short_nil⟩

/-- The call on the fifo does what it does to the queue of records. -/
structure Behaves (k : ℕ) (recsize : BitVec 32) (fifo : Fifo) (rs : List (List UInt8))
    (op : RecOp) : Prop where
  answers : Answers (2 ^ k) recsize.toNat rs op (recStep recsize fifo op).2
  holds : HoldsRecords k recsize.toNat (recStep recsize fifo op).1
    (recCall (2 ^ k) recsize.toNat rs op)
  unchanged : recCall (2 ^ k) recsize.toNat rs op = rs → (recStep recsize fifo op).1 = fifo

/-- What a call needs for that. -/
def Recordable (recsize : BitVec 32) (fifo : Fifo) : RecOp → Prop
  | .in_ _ n =>
    n.toNat + recsize.toNat < 2 ^ 32 ∧
      (n.toNat + recsize.toNat ≤ (fifoAvail fifo).toNat → n.toNat < 256 ^ recsize.toNat)
  | .out _ => fifo.in_ = fifo.out → fifoPeekN fifo recsize ≠ 0
  | .peek _ => True
  | .skip => True

instance (recsize : BitVec 32) (fifo : Fifo) : (op : RecOp) → Decidable (Recordable recsize fifo op)
  | .in_ _ n => inferInstanceAs (Decidable (n.toNat + recsize.toNat < 2 ^ 32 ∧ (_ → _)))
  | .out _ => inferInstanceAs (Decidable (fifo.in_ = fifo.out → fifoPeekN fifo recsize ≠ 0))
  | .peek _ => inferInstanceAs (Decidable True)
  | .skip => inferInstanceAs (Decidable True)

section

variable {rs : List (List UInt8)} {r : List UInt8} {n : BitVec 32}

/-- A call that is known on both sides. -/
theorem behaves_of_step {rs' : List (List UInt8)} {op : RecOp} {fifo' : Fifo} {rets : List RecRet}
    (hstep : recStep recsize fifo op = (fifo', rets))
    (hcall : recCall (2 ^ k) recsize.toNat rs op = rs')
    (hanswers : Answers (2 ^ k) recsize.toNat rs op rets)
    (hholds : HoldsRecords k recsize.toNat fifo' rs') (hsame : rs' = rs → fifo' = fifo) :
    Behaves k recsize fifo rs op := by
  refine ⟨?_, ?_, ?_⟩
  · rw [hstep]
    exact hanswers
  · rw [hstep, hcall]
    exact hholds
  · rw [hstep, hcall]
    exact hsame

/-! ### Putting a record in -/

theorem toNat_fifoAvail_of_holds {w : ℕ} (h : HoldsRecords k w fifo rs) :
    (fifoAvail fifo).toNat = 2 ^ k - (frames w rs).length := by
  obtain ⟨q, hq, hrefines⟩ := h.refines
  rw [hrefines.toNat_fifoAvail, Queue.room, hq]

/-- The record is rejected when its length and the field are more than there is room for. -/
theorem fifoInRec_of_lt (fifo : Fifo) (from_ : ℕ → UInt8)
    (hsum : n.toNat + recsize.toNat < 2 ^ 32) (hpos : 0 < recsize.toNat)
    (hlt : (fifoAvail fifo).toNat < n.toNat + recsize.toNat) :
    fifoInRec fifo from_ n recsize = (n + 1, fifo) := by
  have havail : fifoAvail fifo < n + recsize := by
    rw [BitVec.lt_def, BitVec.toNat_add, Nat.mod_eq_of_lt hsum]
    exact hlt
  have hne : n + 1 ≠ 0 := by bv_omega
  rw [fifoInRec, fifoInN, if_pos havail]
  exact if_neg hne

theorem fst_fifoInRec (from_ : ℕ → UInt8) :
    (fifoInRec fifo from_ n recsize).1 = (fifoInN fifo from_ n recsize).1 := by
  unfold fifoInRec
  dsimp only
  split_ifs <;> rfl

/-- A length that wraps when the field is added is always accepted. -/
theorem fifoInRec_of_ge (fifo : Fifo) (from_ : ℕ → UInt8) (hrec : recsize = 1 ∨ recsize = 2)
    (hsum : 2 ^ 32 ≤ n.toNat + recsize.toNat) : (fifoInRec fifo from_ n recsize).1 = 0 := by
  rw [fst_fifoInRec, fifoInN]
  split_ifs with hlt
  · -- there is room for nothing, and the length that is returned wraps as well
    show n + 1 = 0
    rcases hrec with rfl | rfl <;> bv_omega
  · rfl

/-- The bytes of the record are stored first, and then the field in front of them. -/
theorem fifoPokeN_fifoInData (hsize : fifo.size.toNat = 2 ^ k) (from_ : ℕ → UInt8)
    (hrec : recsize = 1 ∨ recsize = 2) (hle : n.toNat + recsize.toNat ≤ 2 ^ k) :
    fifoPokeN (fifoInData fifo from_ n recsize) recsize n = { fifo with
      buffer := put (2 ^ k) fifo.buffer fifo.in_.toNat
        (frame recsize.toNat (read from_ 0 n.toNat)) } := by
  have hsize' : (fifoInData fifo from_ n recsize).size.toNat = 2 ^ k := hsize
  have hfield : (encodeLE recsize.toNat n.toNat).length = recsize.toNat := length_encodeLE _ _
  rw [fifoPokeN_eq hsize' hrec (by omega), buffer_fifoInData hsize,
    put_congr _ _ (toNat_add_mod hsize _ _), frame, length_read,
    ← put_append _ (Nat.two_pow_pos k) (by rw [hfield, length_read]; omega), hfield]
  rfl

section

variable (h : HoldsRecords k recsize.toNat fifo rs) (hrec : recsize = 1 ∨ recsize = 2)
include h hrec

/-- **`fifo_in_rec`** with a record that there is room for. -/
theorem fifoInRec_of_le (from_ : ℕ → UInt8) (hfits : Fits (2 ^ k) recsize.toNat rs n.toNat) :
    (fifoInRec fifo from_ n recsize).1 = 0 ∧
      ∃ q : Queue UInt8 (2 ^ k),
        q.items = frames recsize.toNat (rs ++ [read from_ 0 n.toNat]) ∧
          Refines (fifoInRec fifo from_ n recsize).2 q := by
  obtain ⟨q, hq, hrefines⟩ := h.refines
  have hlt : 2 ^ k < 2 ^ 32 := hrefines.size ▸ fifo.size.isLt
  have hle : n.toNat + recsize.toNat ≤ 2 ^ k := (Nat.le_add_left _ _).trans hfits
  have hsum : (n + recsize).toNat = n.toNat + recsize.toNat := by
    rw [BitVec.toNat_add, Nat.mod_eq_of_lt (by omega)]
  have hroom : n.toNat + recsize.toNat ≤ q.room := by
    unfold Fits at hfits
    rw [Queue.room, hq]
    omega
  have havail : ¬ fifoAvail fifo < n + recsize := by
    rw [BitVec.lt_def, hrefines.toNat_fifoAvail, hsum]
    omega
  have hlength : (frame recsize.toNat (read from_ 0 n.toNat)).length
      = n.toNat + recsize.toNat := by
    rw [length_frame, length_read, Nat.add_comm]
  refine ⟨?_, q.push (frame recsize.toNat (read from_ 0 n.toNat)), ?_, ?_⟩
  · rw [fst_fifoInRec, fifoInN, if_neg havail]
  · rw [items_push, List.take_of_length_le (by omega), hq, frames_concat]
  · have hput := refines_put hrefines (hsum.trans hlength.symm) (by omega)
    rw [fifoInRec, fifoInN, if_neg havail]
    show Refines (fifoAddIn (if recsize ≠ 0 then _ else _) (n + recsize)) _
    rw [if_pos (recsize_ne_zero hrec), fifoPokeN_fifoInData hrefines.size from_ hrec hle]
    exact hput

/-- A record that there is room for behaves if its length fits in the field. -/
theorem behaves_in_of_fits (from_ : ℕ → UInt8) (hfits : Fits (2 ^ k) recsize.toNat rs n.toNat) :
    Behaves k recsize fifo rs (.in_ from_ n) ↔ n.toNat < 256 ^ recsize.toNat := by
  obtain ⟨hret, hnext⟩ := fifoInRec_of_le h hrec from_ hfits
  have hcall : recCall (2 ^ k) recsize.toNat rs (.in_ from_ n)
      = rs ++ [read from_ 0 n.toNat] := if_pos hfits
  constructor
  · intro hbehaves
    have hshort := hbehaves.holds.short
    rw [hcall, short_concat, length_read] at hshort
    exact hshort.2
  · intro hlt
    have hstep : recStep recsize fifo (.in_ from_ n)
        = ((fifoInRec fifo from_ n recsize).2, [.in_ 0]) := by
      simp only [recStep, hret]
      rfl
    have hshort : Short recsize.toNat (rs ++ [read from_ 0 n.toNat]) := by
      rw [short_concat, length_read]
      exact ⟨h.short, hlt⟩
    refine behaves_of_step hstep hcall ⟨0, rfl, ?_⟩ ⟨hnext, hshort⟩ (fun hsame => ?_)
    · rw [if_pos hfits]
    · exact absurd hsame (by simp)

/-- A record that there is no room for is rejected. -/
theorem behaves_in_of_not_fits (from_ : ℕ → UInt8) (hsum : n.toNat + recsize.toNat < 2 ^ 32)
    (hfits : ¬ Fits (2 ^ k) recsize.toNat rs n.toNat) :
    Behaves k recsize fifo rs (.in_ from_ n) := by
  have hpos := recsize_pos hrec
  have hlt : (fifoAvail fifo).toNat < n.toNat + recsize.toNat := by
    rw [toNat_fifoAvail_of_holds h]
    unfold Fits at hfits
    omega
  have hreject := fifoInRec_of_lt fifo from_ hsum hpos hlt
  have hcall : recCall (2 ^ k) recsize.toNat rs (.in_ from_ n) = rs := if_neg hfits
  have hstep : recStep recsize fifo (.in_ from_ n) = (fifo, [.in_ (n + 1).toNat]) := by
    simp only [recStep, hreject]
  refine behaves_of_step hstep hcall ⟨(n + 1).toNat, rfl, ?_⟩ h (fun _ => rfl)
  rw [if_neg hfits]
  bv_omega

/-- A record that would wrap the sum is neither rejected nor kept. -/
theorem not_behaves_in_of_ge (from_ : ℕ → UInt8) (hsum : 2 ^ 32 ≤ n.toNat + recsize.toNat) :
    ¬ Behaves k recsize fifo rs (.in_ from_ n) := by
  intro hbehaves
  obtain ⟨q, -, hrefines⟩ := h.refines
  have hlt : 2 ^ k < 2 ^ 32 := hrefines.size ▸ fifo.size.isLt
  have hfits : ¬ Fits (2 ^ k) recsize.toNat rs n.toNat := by
    unfold Fits
    omega
  obtain ⟨ret, hret, hanswer⟩ := hbehaves.answers
  have hzero : ret = 0 := by
    have hfirst := fifoInRec_of_ge fifo from_ hrec hsum
    simp only [recStep, hfirst] at hret
    simpa using hret.symm
  rw [if_neg hfits, hzero] at hanswer
  exact absurd hanswer (Nat.not_lt_zero _)

theorem behaves_in_iff (from_ : ℕ → UInt8) (n : BitVec 32) :
    Behaves k recsize fifo rs (.in_ from_ n) ↔ Recordable recsize fifo (.in_ from_ n) := by
  have hpos := recsize_pos hrec
  have hfits : n.toNat + recsize.toNat ≤ (fifoAvail fifo).toNat ↔
      Fits (2 ^ k) recsize.toNat rs n.toNat := by
    rw [toNat_fifoAvail_of_holds h, Fits]
    omega
  show _ ↔ n.toNat + recsize.toNat < 2 ^ 32 ∧ (_ → n.toNat < 256 ^ recsize.toNat)
  rw [hfits]
  by_cases hsum : n.toNat + recsize.toNat < 2 ^ 32
  · rw [and_iff_right hsum]
    by_cases hroom : Fits (2 ^ k) recsize.toNat rs n.toNat
    · rw [behaves_in_of_fits h hrec from_ hroom]
      exact ⟨fun hlt _ => hlt, fun hlt => hlt hroom⟩
    · exact iff_of_true (behaves_in_of_not_fits h hrec from_ hsum hroom) (absurd · hroom)
  · exact iff_of_false (not_behaves_in_of_ge h hrec from_ (by omega)) (fun hand => hsum hand.1)

end

/-! ### Taking a record out -/

/-- The field of the first record. -/
theorem toNat_fifoPeekN_cons (h : HoldsRecords k recsize.toNat fifo (r :: rs))
    (hrec : recsize = 1 ∨ recsize = 2) : (fifoPeekN fifo recsize).toNat = r.length := by
  obtain ⟨q, hq, hrefines⟩ := h.refines
  have hlength := length_frames_cons recsize.toNat r rs
  rw [toNat_fifoPeekN hrefines.size hrec, hrefines.queued.map_slots (by rw [hq]; omega), hq]
  exact decodeLE_take h.short

/-- The field never wraps the sum. -/
theorem toNat_fifoPeekN_add (hsize : fifo.size.toNat = 2 ^ k) (hrec : recsize = 1 ∨ recsize = 2) :
    (fifoPeekN fifo recsize + recsize).toNat
      = (fifoPeekN fifo recsize).toNat + recsize.toNat := by
  have hfield : (fifoPeekN fifo recsize).toNat < 256 ^ recsize.toNat := by
    have hlt := decodeLE_lt ((slots (2 ^ k) fifo.out.toNat recsize.toNat).map fifo.buffer)
    rwa [List.length_map, length_slots, ← toNat_fifoPeekN hsize hrec] at hlt
  rw [BitVec.toNat_add]
  apply Nat.mod_eq_of_lt
  rcases hrec with rfl | rfl
  · exact Nat.add_lt_add_right hfield 1 |>.trans (by decide)
  · exact Nat.add_lt_add_right hfield 2 |>.trans (by decide)

/-- **`fifo_out_rec` on an empty fifo** gives what the memory there says. -/
theorem fifoOutRec_of_empty (hsize : fifo.size.toNat = 2 ^ k) (hrec : recsize = 1 ∨ recsize = 2)
    (hempty : fifo.in_ = fifo.out) (n : BitVec 32) :
    fifoOutRec fifo n recsize
      = (fifoPeekN fifo recsize, [], fifoPeekN fifo recsize, fifo) := by
  have hne : recsize ≠ 0 := recsize_ne_zero hrec
  have hlen : fifoLen fifo < fifoPeekN fifo recsize + recsize := by
    have hpos : 0 < recsize.toNat := recsize_pos hrec
    rw [fifoLen, hempty, BitVec.sub_self, BitVec.lt_def, toNat_fifoPeekN_add hsize hrec]
    exact Nat.add_pos_right _ (recsize_pos hrec)
  rw [fifoOutRec, if_neg hne]
  split_ifs with hlt
  · rfl
  · rw [fifoOutN, if_pos hlen]

/-- **`fifo_out_rec`** gives the first record, if the caller has room for it. -/
theorem fifoOutRec_cons (h : HoldsRecords k recsize.toNat fifo (r :: rs))
    (hrec : recsize = 1 ∨ recsize = 2) (n : BitVec 32) :
    fifoOutRec fifo n recsize
      = if n.toNat < r.length then (fifoPeekN fifo recsize, [], fifoPeekN fifo recsize, fifo)
        else (0, r, fifoPeekN fifo recsize,
          fifoAddOut fifo (fifoPeekN fifo recsize + recsize)) := by
  have hne : recsize ≠ 0 := recsize_ne_zero hrec
  have hpeek := toNat_fifoPeekN_cons h hrec
  obtain ⟨q, hq, hrefines⟩ := h.refines
  have hlength := length_frames_cons recsize.toNat r rs
  have hlen : ¬ fifoLen fifo < fifoPeekN fifo recsize + recsize := by
    rw [BitVec.lt_def, toNat_fifoPeekN_add hrefines.size hrec, hpeek, hrefines.len, hq]
    omega
  have hdata : fifoOutData fifo (fifoPeekN fifo recsize) recsize = r := by
    rw [hrefines.fifoOutData_eq (by rw [hq, hpeek]; omega), hq, hpeek]
    exact take_drop_frames_cons recsize.toNat r rs
  have hcond : (recsize ≠ 0 ∧ n < fifoPeekN fifo recsize) ↔ n.toNat < r.length := by
    rw [and_iff_right hne, BitVec.lt_def, hpeek]
  rw [fifoOutRec, if_neg hne]
  by_cases hlt : n.toNat < r.length
  · rw [if_pos (hcond.mpr hlt), if_pos hlt]
  · rw [if_neg (mt hcond.mp hlt), if_neg hlt, fifoOutN, if_neg hlen, hdata]

/-- The first record is given up. -/
theorem holdsRecords_fifoAddOut (h : HoldsRecords k recsize.toNat fifo (r :: rs))
    (hrec : recsize = 1 ∨ recsize = 2) :
    HoldsRecords k recsize.toNat (fifoAddOut fifo (fifoPeekN fifo recsize + recsize)) rs := by
  have hpeek := toNat_fifoPeekN_cons h hrec
  obtain ⟨q, hq, hrefines⟩ := h.refines
  have hlength := length_frames_cons recsize.toNat r rs
  have hsum : (fifoPeekN fifo recsize + recsize).toNat = r.length + recsize.toNat := by
    rw [toNat_fifoPeekN_add hrefines.size hrec, hpeek]
  refine ⟨⟨_, ?_, refines_fifoAddOut hrefines _ (by rw [hsum, hq]; omega)⟩, h.short.tail⟩
  rw [items_pop, hq, hsum]
  exact drop_frames_cons recsize.toNat r rs

theorem in_eq_out_iff {w : ℕ} (h : HoldsRecords k w fifo rs) (hpos : 0 < w) :
    fifo.in_ = fifo.out ↔ rs = [] := by
  obtain ⟨q, hq, hrefines⟩ := h.refines
  have hlen : (fifo.in_ - fifo.out).toNat = (frames w rs).length := hq ▸ hrefines.len
  cases rs with
  | nil =>
    rw [frames_nil, List.length_nil] at hlen
    exact iff_of_true (by bv_omega) rfl
  | cons r rs =>
    rw [length_frames_cons] at hlen
    refine iff_of_false (fun hsame => ?_) (List.cons_ne_nil r rs)
    rw [hsame, BitVec.sub_self, show (0#32).toNat = 0 from rfl] at hlen
    omega

/-- On an empty fifo it depends on what the memory says. -/
theorem behaves_out_nil_iff (h : HoldsRecords k recsize.toNat fifo [])
    (hrec : recsize = 1 ∨ recsize = 2) (n : BitVec 32) :
    Behaves k recsize fifo [] (.out n) ↔ fifoPeekN fifo recsize ≠ 0 := by
  obtain ⟨q, -, hrefines⟩ := h.refines
  have hsame : fifo.in_ = fifo.out := (in_eq_out_iff h (recsize_pos hrec)).mpr rfl
  have hout := fifoOutRec_of_empty hrefines.size hrec hsame n
  have hstep : recStep recsize fifo (.out n) = (fifo,
      [.out (fifoPeekN fifo recsize).toNat [] (fifoPeekN fifo recsize).toNat]) := by
    simp only [recStep, hout]
  constructor
  · rintro ⟨⟨ret, total, hret, hne⟩, -, -⟩ hzero
    rw [hstep, hzero] at hret
    have hzeros : ret = 0 ∧ total = 0 := by simpa using hret.symm
    exact hne hzeros.1
  · intro hne
    refine behaves_of_step hstep rfl ⟨_, _, rfl, fun hzero => ?_⟩ h (fun _ => rfl)
    exact hne (BitVec.eq_of_toNat_eq hzero)

/-- A record that the caller has no room for stays, and the others are given. -/
theorem behaves_out_cons (h : HoldsRecords k recsize.toNat fifo (r :: rs))
    (hrec : recsize = 1 ∨ recsize = 2) (n : BitVec 32) :
    Behaves k recsize fifo (r :: rs) (.out n) := by
  have hout := fifoOutRec_cons h hrec n
  have hpeek := toNat_fifoPeekN_cons h hrec
  by_cases hlt : n.toNat < r.length
  · rw [if_pos hlt] at hout
    have hstep : recStep recsize fifo (.out n) = (fifo, [.out r.length [] r.length]) := by
      simp only [recStep, hout, hpeek]
    have hcall : recCall (2 ^ k) recsize.toNat (r :: rs) (.out n) = r :: rs := if_pos hlt
    exact behaves_of_step hstep hcall (if_pos hlt).symm h (fun _ => rfl)
  · rw [if_neg hlt] at hout
    have hstep : recStep recsize fifo (.out n)
        = (fifoAddOut fifo (fifoPeekN fifo recsize + recsize), [.out 0 r r.length]) := by
      simp only [recStep, hout, hpeek]
      rfl
    have hcall : recCall (2 ^ k) recsize.toNat (r :: rs) (.out n) = rs := if_neg hlt
    apply behaves_of_step hstep hcall (if_neg hlt).symm (holdsRecords_fifoAddOut h hrec)
    exact fun hsame => absurd hsame.symm (List.cons_ne_self r rs)

/-- A field of one byte or more is looked at in the same way, a constant for the compiler or not. -/
theorem fifoPeekRec_eq_fifoPeekN (hrec : recsize ≠ 0) (constant : Bool) :
    fifoPeekRec fifo recsize constant = fifoPeekN fifo recsize := by
  cases constant with
  | false => exact if_neg hrec
  | true => exact if_neg hrec

theorem fifoResetOut_of_empty (hsame : fifo.in_ = fifo.out) : fifoResetOut fifo = fifo := by
  obtain ⟨buffer, size, in_, out⟩ := fifo
  have hout : in_ = out := hsame
  rw [hout, fifoResetOut]

section

variable (h : HoldsRecords k recsize.toNat fifo rs) (hrec : recsize = 1 ∨ recsize = 2)
include h hrec

theorem behaves_out_iff (n : BitVec 32) :
    Behaves k recsize fifo rs (.out n) ↔ Recordable recsize fifo (.out n) := by
  have hempty := in_eq_out_iff h (recsize_pos hrec)
  show _ ↔ (fifo.in_ = fifo.out → fifoPeekN fifo recsize ≠ 0)
  rw [hempty]
  cases rs with
  | nil =>
    rw [behaves_out_nil_iff h hrec n]
    exact ⟨fun hne _ => hne, fun hne => hne rfl⟩
  | cons r rs =>
    exact iff_of_true (behaves_out_cons h hrec n) fun hnil => absurd hnil (List.cons_ne_nil r rs)

/-! ### Looking at a record, and skipping it -/

theorem behaves_peek (constant : Bool) : Behaves k recsize fifo rs (.peek constant) := by
  refine ⟨?_, h, fun _ => rfl⟩
  cases rs with
  | nil => trivial
  | cons r rs =>
    show [RecRet.peek (fifoPeekRec fifo recsize constant).toNat] = [.peek r.length]
    rw [fifoPeekRec_eq_fifoPeekN (recsize_ne_zero hrec), toNat_fifoPeekN_cons h hrec]

theorem behaves_skip : Behaves k recsize fifo rs .skip := by
  obtain ⟨q, hq, hrefines⟩ := h.refines
  have hne : recsize ≠ 0 := recsize_ne_zero hrec
  have hsum := toNat_fifoPeekN_add hrefines.size hrec
  cases rs with
  | nil =>
    have hsame : fifo.in_ = fifo.out := (in_eq_out_iff h (recsize_pos hrec)).mpr rfl
    have hcond : ¬ (recsize ≠ 0 ∧ fifoPeekN fifo recsize + recsize ≤ fifoLen fifo) := by
      rintro ⟨-, hle⟩
      have hpos := recsize_pos hrec
      rw [BitVec.le_def, hsum, fifoLen, hsame, BitVec.sub_self,
        show (0#32).toNat = 0 from rfl] at hle
      omega
    have hstep : recStep recsize fifo .skip = (fifo, []) := by
      rw [recStep, fifoSkipRec, if_neg hcond, fifoResetOut_of_empty hsame]
    exact behaves_of_step hstep rfl rfl h (fun _ => rfl)
  | cons r rs =>
    have hlength := length_frames_cons recsize.toNat r rs
    have hcond : recsize ≠ 0 ∧ fifoPeekN fifo recsize + recsize ≤ fifoLen fifo := by
      refine ⟨hne, ?_⟩
      rw [BitVec.le_def, hsum, toNat_fifoPeekN_cons h hrec, hrefines.len, hq]
      omega
    have hstep : recStep recsize fifo .skip
        = (fifoAddOut fifo (fifoPeekN fifo recsize + recsize), []) := by
      rw [recStep, fifoSkipRec, if_pos hcond]
    apply behaves_of_step hstep rfl rfl (holdsRecords_fifoAddOut h hrec)
    exact fun hsame => absurd hsame.symm (List.cons_ne_self r rs)

/-- **One call** behaves exactly if it meets the condition. -/
theorem behaves_iff (op : RecOp) :
    Behaves k recsize fifo rs op ↔ Recordable recsize fifo op := by
  cases op with
  | in_ from_ n => exact behaves_in_iff h hrec from_ n
  | out n => exact behaves_out_iff h hrec n
  | peek constant => exact iff_of_true (behaves_peek h hrec constant) trivial
  | skip => exact iff_of_true (behaves_skip h hrec) trivial

end

end

/-- **A fifo of records.**  For every fifo whose size is a power of two, empty with its counters and
its memory anyhow, every field of one or two bytes and every sequence of calls with any lengths: all
calls do what they do to a queue of records if and only if they are all `Recordable`.  That is: the
length of each record and the size of its field have a sum below `2^32`; a record that there is room
for is shorter than its field can say; and no record is asked for while the fifo is empty and the
field read from its memory is 0. -/
theorem records_iff (k : ℕ) (fifo : Fifo) (hsize : fifo.size.toNat = 2 ^ k)
    (hempty : fifo.in_ = fifo.out) (recsize : BitVec 32) (hrec : recsize = 1 ∨ recsize = 2)
    (ops : List RecOp) :
    Meets (beside (recStep recsize) (recCall (2 ^ k) recsize.toNat))
        (fun s op => Behaves k recsize s.1 s.2 op) (fifo, []) ops ↔
      Meets (recStep recsize) (Recordable recsize) fifo ops := by
  rw [← meets_beside (recStep recsize) (recCall (2 ^ k) recsize.toNat)]
  apply meets_congr (D := fun _ _ => True) (I := fun s => HoldsRecords k recsize.toNat s.1 s.2)
  · intro s op h _
    exact behaves_iff h hrec op
  · intro s op h _ hop
    exact ((behaves_iff h hrec op).mpr hop).holds
  · exact holdsRecords_nil hsize hempty _
  · exact meets_of_forall _ (fun _ _ _ => trivial) _

/-- Two records, of which the first one wraps around the end of the buffer. -/
theorem records_of_wrapping :
    let fifo : Fifo := ⟨fun _ => 7, 8, 6, 6⟩
    let ops : List RecOp := [.in_ (fun i => .ofNat (10 + i)) 2, .in_ (fun i => .ofNat (20 + i)) 3,
      .in_ (fun i => .ofNat (30 + i)) 1, .out 1, .out 9, .skip, .out 0]
    Meets (beside (recStep 1) (recCall (2 ^ 3) 1)) (fun s op => Behaves 3 1 s.1 s.2 op)
        (fifo, []) ops ∧
      (run (recStep 1) fifo ops).2 = [.in_ 0, .in_ 0, .in_ 2, .out 2 [] 2, .out 0 [10, 11] 2,
        .out 7 [] 7] := by
  intro fifo ops
  exact ⟨(records_iff 3 fifo rfl rfl 1 (.inl rfl) ops).mpr (by decide), by decide⟩

/-- A fresh fifo in zeroed memory, asked for a record, says that it gave one; and a record of 300
bytes is accepted, and comes out with 44. -/
theorem records_lost :
    let fifo : Fifo := ⟨fun _ => 0, 512, 0, 0⟩
    (run (recStep 1) fifo [.out 4]).2 = [.out 0 [] 0] ∧ ¬ Behaves 9 1 fifo [] (.out 4) ∧
      (run (recStep 1) fifo [.in_ (fun _ => 1) 300, .out 512]).2
        = [.in_ 0, .out 0 (List.replicate 44 1) 44] := by
  intro fifo
  have hout : (recStep 1 fifo (.out 4)).2 = [.out 0 [] 0] := by decide
  refine ⟨hout, ?_, by decide⟩
  intro hbehaves
  obtain ⟨ret, total, hret, hne⟩ := hbehaves.answers
  rw [hout] at hret
  have hzeros : ret = 0 ∧ total = 0 := by simpa using hret.symm
  exact hne hzeros.1

end Neufbox.Libetk
