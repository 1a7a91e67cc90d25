import Neufbox.Libetk.Equiv.Alloc
import Neufbox.Libetk.Equiv.Records
import Neufbox.Libetk.Serialize

/-!
# Serializing a FIFO and back

`fifo_serialize` copies the counters as they are, and the whole buffer, with the bytes that are not
queued.  `fifo_unserialize` allocates a buffer of that size and sets all of it again: the two fifos
differ in nothing but the memory that is not theirs (`Alike`), and every call returns the same on
both (`alike_callStep`).

For a fifo without a buffer `fifo_alloc` is asked for 0 bytes, which `roundup_pow_of_two` makes 2.
The size is then set back to 0, so that nothing is ever queued.
-/

namespace Neufbox.Libetk

open Memory Cyclic Machine Words

variable {w : ℕ} {fifo fifo' : Fifo}

/-! ### Fifos with and without a buffer -/

/-- There is no more in the fifo than it has room for, and its size is a power of two if there is a
buffer. -/
structure Sound (fifo : Fifo) : Prop where
  len_le : (fifoLen fifo).toNat ≤ fifo.size.toNat
  size : fifo.size = 0 ∨ ∃ k, fifo.size.toNat = 2 ^ k

/-- The fifos have the same size, counters and bytes. -/
structure Alike (fifo fifo' : Fifo) : Prop where
  size : fifo'.size = fifo.size
  in_ : fifo'.in_ = fifo.in_
  out : fifo'.out = fifo.out
  buffer : ∀ j < fifo.size.toNat, fifo'.buffer j = fifo.buffer j

namespace Sound

/-- An empty fifo, with its counters anywhere. -/
theorem of_empty (hempty : fifo.in_ = fifo.out)
    (hsize : fifo.size = 0 ∨ ∃ k, fifo.size.toNat = 2 ^ k) : Sound fifo := by
  have hlen : fifoLen fifo = 0 := by
    rw [fifoLen, hempty]
    exact BitVec.sub_self _
  refine ⟨?_, hsize⟩
  rw [hlen]
  exact Nat.zero_le _

theorem toNat_fifoAvail (h : Sound fifo) :
    (fifoAvail fifo).toNat = fifo.size.toNat - (fifoLen fifo).toNat := by
  rw [fifoAvail, fifoSize, toNat_sub_of_le h.len_le]

theorem fifoAddOut (h : Sound fifo) {len : BitVec 32} (hlen : len.toNat ≤ (fifoLen fifo).toNat) :
    Sound (fifoAddOut fifo len) := by
  refine ⟨?_, h.size⟩
  have hdiff : fifoLen (Libetk.fifoAddOut fifo len) = fifoLen fifo - len := by
    simp only [fifoLen, Libetk.fifoAddOut]
    bv_omega
  have hle := h.len_le
  rw [hdiff, toNat_sub_of_le hlen]
  show _ ≤ fifo.size.toNat
  omega

theorem fifoAddIn (h : Sound fifo) {len : BitVec 32} (hlen : len.toNat ≤ (fifoAvail fifo).toNat) :
    Sound (fifoAddIn fifo len) := by
  refine ⟨?_, h.size⟩
  have hsum : fifoLen (Libetk.fifoAddIn fifo len) = fifoLen fifo + len := by
    simp only [fifoLen, Libetk.fifoAddIn]
    bv_omega
  have hle := h.len_le
  have hlt := fifo.size.isLt
  rw [h.toNat_fifoAvail] at hlen
  rw [hsum, BitVec.toNat_add, Nat.mod_eq_of_lt (by omega)]
  show _ ≤ fifo.size.toNat
  omega

/-- What is copied into the buffer moves no counter. -/
theorem withBuffer (h : Sound fifo) (buffer : ℕ → UInt8) : Sound { fifo with buffer := buffer } :=
  ⟨h.len_le, h.size⟩

end Sound

/-! ### One call on two fifos -/

namespace Alike

variable (h : Alike fifo fifo')
include h

theorem fifoLen : fifoLen fifo' = fifoLen fifo := by
  rw [Libetk.fifoLen, Libetk.fifoLen, h.in_, h.out]

theorem fifoAvail : fifoAvail fifo' = fifoAvail fifo := by
  rw [Libetk.fifoAvail, Libetk.fifoAvail, fifoSize, fifoSize, h.size, h.fifoLen]

theorem fifoOff (off : BitVec 32) : fifoOff fifo' off = fifoOff fifo off := by
  rw [Libetk.fifoOff, Libetk.fifoOff, h.size]

/-- **Copying in**: the same bytes are stored in the same cells. -/
theorem fifoInData (from_ : ℕ → UInt8) (len off : BitVec 32) :
    Alike (fifoInData fifo from_ len off) (fifoInData fifo' from_ len off) where
  size := h.size
  in_ := h.in_
  out := h.out
  buffer := by
    intro j hj
    simp only [Libetk.fifoInData, h.size, h.in_, h.fifoOff]
    exact write_apply_congr _ _ (.inr (write_apply_congr _ _ (.inr (h.buffer j hj))))

/-- **Copying out** no more than there is room for stays in the buffer. -/
theorem fifoOutData (hsound : Sound fifo) {len : BitVec 32} (hlen : len.toNat ≤ fifo.size.toNat)
    (off : BitVec 32) :
    fifoOutData fifo' len off = fifoOutData fifo len off := by
  rcases hsound.size with hzero | ⟨k, hk⟩
  · -- nothing is read
    have hnone : len = 0 := BitVec.eq_of_toNat_eq (Nat.le_zero.mp (by rwa [hzero] at hlen))
    have hmin (x : BitVec 32) : minUnsigned 0 x = 0 :=
      BitVec.eq_of_toNat_eq ((toNat_minUnsigned 0 x).trans (Nat.zero_min _))
    rw [hnone, Libetk.fifoOutData, Libetk.fifoOutData, hmin, hmin]
    rfl
  · rw [fifoOutData_eq hk, fifoOutData_eq (h.size ▸ hk), h.out]
    apply List.map_congr_left
    intro j hj
    rw [slots_eq_split (Nat.two_pow_pos k) (hk ▸ hlen), slots, List.mem_map] at hj
    obtain ⟨i, -, rfl⟩ := hj
    apply h.buffer
    rw [hk]
    exact Nat.mod_lt _ (Nat.two_pow_pos k)

theorem fifoAddIn (len : BitVec 32) : Alike (fifoAddIn fifo len) (fifoAddIn fifo' len) :=
  ⟨h.size, congrArg (· + len) h.in_, h.out, h.buffer⟩

theorem fifoAddOut (len : BitVec 32) : Alike (fifoAddOut fifo len) (fifoAddOut fifo' len) :=
  ⟨h.size, h.in_, congrArg (· + len) h.out, h.buffer⟩

theorem fifoResetOut : Alike (fifoResetOut fifo) (fifoResetOut fifo') :=
  ⟨h.size, h.in_, h.in_, h.buffer⟩

theorem fifoReset : Alike (fifoReset fifo) (fifoReset fifo') :=
  ⟨h.size, rfl, rfl, h.buffer⟩

/-- A cell of the buffer is the same. -/
theorem buffer_fifoOff (hsound : Sound fifo) (hsize : fifo.size ≠ 0) (off : BitVec 32) :
    fifo'.buffer (Libetk.fifoOff fifo' off).toNat
      = fifo.buffer (Libetk.fifoOff fifo off).toNat := by
  obtain ⟨k, hk⟩ := hsound.size.resolve_left hsize
  rw [h.fifoOff]
  apply h.buffer
  rw [toNat_fifoOff hk, hk]
  exact Nat.mod_lt _ (Nat.two_pow_pos k)

theorem fifoPeekN (hsound : Sound fifo) (hsize : fifo.size ≠ 0) (recsize : BitVec 32) :
    fifoPeekN fifo' recsize = fifoPeekN fifo recsize := by
  simp only [Libetk.fifoPeekN, h.out, h.buffer_fifoOff hsound hsize]

/-- The same byte is stored in a cell of the buffer. -/
theorem update (off : BitVec 32) (x : UInt8) :
    Alike
      { fifo with
        buffer := Function.update fifo.buffer (Libetk.fifoOff fifo (fifo.in_ + off)).toNat x }
      { fifo' with
        buffer :=
          Function.update fifo'.buffer (Libetk.fifoOff fifo' (fifo'.in_ + off)).toNat x } := by
  refine ⟨h.size, h.in_, h.out, fun j hj => ?_⟩
  show Function.update fifo'.buffer _ x j = Function.update fifo.buffer _ x j
  rw [h.fifoOff, h.in_]
  by_cases hcell : j = (Libetk.fifoOff fifo (fifo.in_ + off)).toNat
  · rw [hcell, Function.update_self, Function.update_self]
  · rw [Function.update_of_ne hcell, Function.update_of_ne hcell]
    exact h.buffer j hj

theorem fifoPokeN (recsize n : BitVec 32) :
    Alike (fifoPokeN fifo recsize n) (fifoPokeN fifo' recsize n) := by
  unfold Libetk.fifoPokeN
  dsimp only
  split_ifs
  · exact (h.update 0 _).update 1 _
  · exact h.update 0 _

end Alike

/-- Two fifos that are alike, the first of which is sound. -/
def Twins (fifo fifo' : Fifo) : Prop := Alike fifo fifo' ∧ Sound fifo

/-- **A call on bytes** returns the same on both. -/
theorem twins_step (h : Twins fifo fifo') (op : Op) :
    Twins (step fifo op).1 (step fifo' op).1 ∧ (step fifo op).2 = (step fifo' op).2 := by
  obtain ⟨halike, hsound⟩ := h
  cases op with
  | in_ from_ len =>
    have hle : (minUnsigned (fifoAvail fifo) len).toNat ≤ (fifoAvail fifo).toNat := by
      rw [toNat_minUnsigned]
      exact Nat.min_le_left _ _
    simp only [step, fifoIn, halike.fifoAvail]
    exact ⟨⟨(halike.fifoInData from_ _ 0).fifoAddIn _, (hsound.withBuffer _).fifoAddIn hle⟩,
      trivial⟩
  | out len =>
    have hle : (minUnsigned (fifoLen fifo) len).toNat ≤ (fifoLen fifo).toNat := by
      rw [toNat_minUnsigned]
      exact Nat.min_le_left _ _
    simp only [step, fifoOut, halike.fifoLen,
      halike.fifoOutData hsound (hle.trans hsound.len_le)]
    exact ⟨⟨halike.fifoAddOut _, hsound.fifoAddOut hle⟩, trivial⟩
  | skip len =>
    refine ⟨?_, rfl⟩
    simp only [step, fifoSkip, halike.fifoLen]
    split_ifs with hlt
    · exact ⟨halike.fifoAddOut len, hsound.fifoAddOut (BitVec.lt_def.mp hlt).le⟩
    · exact ⟨halike.fifoResetOut, .of_empty rfl hsound.size⟩
  | reset => exact ⟨⟨halike.fifoReset, .of_empty rfl hsound.size⟩, rfl⟩

variable {recsize : BitVec 32}

/-- The field of a new record moves no counter. -/
theorem exists_fifoPokeN (fifo : Fifo) (recsize n : BitVec 32) :
    ∃ buffer, fifoPokeN fifo recsize n = { fifo with buffer := buffer } := by
  unfold fifoPokeN
  dsimp only
  split_ifs
  · exact ⟨_, rfl⟩
  · exact ⟨_, rfl⟩

/-- **A new record** that does not wrap is stored if it is available with its field. -/
theorem twins_fifoInRec (h : Twins fifo fifo') (hrec : recsize = 1 ∨ recsize = 2)
    (from_ : ℕ → UInt8) {n : BitVec 32} (hn : n.toNat + recsize.toNat < 2 ^ 32) :
    Twins (fifoInRec fifo from_ n recsize).2 (fifoInRec fifo' from_ n recsize).2 ∧
      (fifoInRec fifo from_ n recsize).1 = (fifoInRec fifo' from_ n recsize).1 := by
  obtain ⟨halike, hsound⟩ := h
  have hdata := halike.fifoInData from_ n recsize
  unfold fifoInRec fifoInN
  rw [halike.fifoAvail]
  by_cases hfull : fifoAvail fifo < n + recsize
  · have hret : n + 1 ≠ 0 := by
      have hpos := recsize_pos hrec
      intro hzero
      have := congrArg BitVec.toNat hzero
      bv_omega
    simp only [if_pos hfull, if_neg hret]
    exact ⟨⟨halike, hsound⟩, trivial⟩
  · have hle : (n + recsize).toNat ≤ (fifoAvail fifo).toNat :=
      BitVec.le_def.mp (BitVec.not_lt.mp hfull)
    simp only [if_neg hfull, if_pos (recsize_ne_zero hrec), if_true]
    refine ⟨⟨(hdata.fifoPokeN recsize n).fifoAddIn _, ?_⟩, trivial⟩
    obtain ⟨buffer, hpoke⟩ := exists_fifoPokeN (fifoInData fifo from_ n recsize) recsize n
    rw [hpoke]
    exact (hsound.withBuffer buffer).fifoAddIn hle

/-- **The oldest record** is given up only if it is there. -/
theorem twins_fifoOutRec (h : Twins fifo fifo') (hsize : fifo.size ≠ 0)
    (hrec : recsize = 1 ∨ recsize = 2) (n : BitVec 32) :
    Twins (fifoOutRec fifo n recsize).2.2.2 (fifoOutRec fifo' n recsize).2.2.2 ∧
      (fifoOutRec fifo n recsize).1 = (fifoOutRec fifo' n recsize).1 ∧
      (fifoOutRec fifo n recsize).2.1 = (fifoOutRec fifo' n recsize).2.1 ∧
      (fifoOutRec fifo n recsize).2.2.1 = (fifoOutRec fifo' n recsize).2.2.1 := by
  obtain ⟨halike, hsound⟩ := h
  obtain ⟨k, hk⟩ := hsound.size.resolve_left hsize
  have hsum := toNat_fifoPeekN_add hk hrec
  unfold fifoOutRec fifoOutN
  rw [halike.fifoPeekN hsound hsize recsize, halike.fifoLen]
  simp only [if_neg (recsize_ne_zero hrec)]
  split_ifs with hshort hmissing
  · exact ⟨⟨halike, hsound⟩, rfl, rfl, rfl⟩
  · exact ⟨⟨halike, hsound⟩, rfl, rfl, rfl⟩
  · have hle : (fifoPeekN fifo recsize + recsize).toNat ≤ (fifoLen fifo).toNat :=
      BitVec.le_def.mp (BitVec.not_lt.mp hmissing)
    have hroom : (fifoPeekN fifo recsize).toNat ≤ fifo.size.toNat := by
      have := hsound.len_le
      omega
    exact ⟨⟨halike.fifoAddOut _, hsound.fifoAddOut hle⟩, rfl,
      (halike.fifoOutData hsound hroom recsize).symm, rfl⟩

/-- **A call on records** returns the same on both. -/
theorem twins_recStep (h : Twins fifo fifo') {op : RecOp}
    (hdefined : (Call.record recsize op).Defined fifo) :
    Twins (recStep recsize fifo op).1 (recStep recsize fifo' op).1 ∧
      (recStep recsize fifo op).2 = (recStep recsize fifo' op).2 := by
  obtain ⟨hsize, hrec, hop⟩ := hdefined
  obtain ⟨halike, hsound⟩ := h
  have hpeek := halike.fifoPeekN hsound hsize recsize
  cases op with
  | in_ from_ n =>
    obtain ⟨hnext, hret⟩ := twins_fifoInRec ⟨halike, hsound⟩ hrec from_ hop
    exact ⟨hnext, by simp only [recStep, hret]⟩
  | out n =>
    obtain ⟨hnext, hret, hbytes, htotal⟩ := twins_fifoOutRec ⟨halike, hsound⟩ hsize hrec n
    exact ⟨hnext, by simp only [recStep, hret, hbytes, htotal]⟩
  | peek constant =>
    refine ⟨⟨halike, hsound⟩, ?_⟩
    simp only [recStep, fifoPeekRec_eq_fifoPeekN (recsize_ne_zero hrec), hpeek]
  | skip =>
    refine ⟨?_, rfl⟩
    simp only [recStep, fifoSkipRec, hpeek, halike.fifoLen]
    split_ifs with hle
    · exact ⟨halike.fifoAddOut _, hsound.fifoAddOut (BitVec.le_def.mp hle.2)⟩
    · exact ⟨halike.fifoResetOut, .of_empty rfl hsound.size⟩

/-- **One call** that C defines returns the same on both, and leaves them alike. -/
theorem twins_callStep (fifo fifo' : Fifo) (call : Call) (hdefined : call.Defined fifo)
    (h : Twins fifo fifo') :
    Twins (callStep fifo call).1 (callStep fifo' call).1 ∧
      (callStep fifo call).2 = (callStep fifo' call).2 := by
  cases call with
  | op op =>
    obtain ⟨hnext, hrets⟩ := twins_step h op
    exact ⟨hnext, congrArg (List.map CallRet.op) hrets⟩
  | peek len offset =>
    have hle : (minUnsigned (fifoLen fifo) (len + offset)).toNat ≤ (fifoLen fifo).toNat := by
      rw [toNat_minUnsigned]
      exact Nat.min_le_left _ _
    refine ⟨h, ?_⟩
    simp only [callStep, fifoOutPeek, h.1.fifoLen, h.1.fifoOutData h.2 (hle.trans h.2.len_le)]
  | record recsize op =>
    obtain ⟨hnext, hrets⟩ := twins_recStep h hdefined
    exact ⟨hnext, congrArg (List.map CallRet.record) hrets⟩
  | free null => exact ⟨⟨⟨rfl, rfl, rfl, fun _ _ => rfl⟩, .of_empty rfl (.inl rfl)⟩, rfl⟩

/-! ### The fifos that there are -/

/-- Whatever size is asked for, a power of two is allocated, or nothing. -/
theorem allocSize_sound {size rounded : BitVec 32} (h : allocSize w size = some rounded)
    (hw : 32 ≤ w) : rounded = 0 ∨ ∃ k, rounded.toNat = 2 ^ k := by
  unfold allocSize at h
  split_ifs at h with hpower
  · obtain ⟨k, hk⟩ := (isPowerOf2_iff _).mp hpower
    rw [toNat_setWidth_of_le hw] at hk
    exact .inr ⟨k, Option.some.inj h ▸ hk⟩
  · obtain ⟨m, hm, rfl⟩ := Option.map_eq_some_iff.mp h
    obtain ⟨zeros, -, hshl⟩ := Option.bind_eq_some_iff.mp hm
    have hpow : (m.setWidth 32).toNat = 2 ^ (zeros + 1) % 2 ^ 32 := by
      rw [BitVec.toNat_setWidth, toNat_oneShl hshl]
    rcases Nat.lt_or_ge (zeros + 1) 32 with hlt | hge
    · have hfits : 2 ^ (zeros + 1) < 2 ^ 32 := Nat.pow_lt_pow_right (by omega) hlt
      exact .inr ⟨zeros + 1, hpow.trans (Nat.mod_eq_of_lt hfits)⟩
    · have hdvd : 2 ^ 32 ∣ 2 ^ (zeros + 1) := pow_dvd_pow 2 hge
      exact .inl (BitVec.eq_of_toNat_eq (hpow.trans (Nat.mod_eq_zero_of_dvd hdvd)))

theorem Reachable.sound (hw : 32 ≤ w) (h : Reachable w fifo) : Sound fifo := by
  induction h with
  | alloc halloc =>
    obtain ⟨rounded, hrounded, hmalloc⟩ := Option.bind_eq_some_iff.mp halloc
    obtain ⟨buffer, -, rfl⟩ := Option.map_eq_some_iff.mp (Option.some.inj hmalloc)
    exact .of_empty rfl (allocSize_sound hrounded hw)
  | noMemory null => exact .of_empty rfl (.inl rfl)
  | init fifo buffer hsize =>
    have hrefines := refines_fifoInit hw fifo buffer hsize
    exact ⟨BitVec.le_def.mp hrefines.fifoLen_le, .inr ⟨_, hrefines.size⟩⟩
  | op op _ ih => exact (twins_step ⟨⟨rfl, rfl, rfl, fun _ _ => rfl⟩, ih⟩ op).1.2
  | free null _ _ => exact .of_empty rfl (.inl rfl)

/-! ### The round trip -/

/-- The bytes that are queued, the oldest one first. -/
def queuedBytes (fifo : Fifo) : List UInt8 := fifoOutData fifo (fifoLen fifo) 0

/-- For a fifo without a buffer, two bytes are allocated. -/
theorem allocSize_zero (hw : 32 ≤ w) :
    allocSize w 0 = some (((1 : BitVec w) <<< 1).setWidth 32) := by
  have hzero : ((0 : BitVec 32).setWidth w).toNat = 0 := toNat_setWidth_of_le hw 0
  have hpower : ¬ isPowerOf2 ((0 : BitVec 32).setWidth w) = true := by
    rw [isPowerOf2_iff, hzero]
    rintro ⟨j, hj⟩
    exact (Nat.two_pow_pos j).ne hj
  -- `0 - 1` has no leading zeros, at either width
  have hones : ((0 : BitVec 32).setWidth w - 1).setWidth 32 = BitVec.allOnes 32 := by
    apply BitVec.eq_of_toNat_eq
    have hone : (1 : BitVec w).toNat = 1 :=
      toNat_one (Nat.lt_of_lt_of_le (by decide) (Nat.pow_le_pow_right (by omega) hw))
    obtain ⟨q, hq⟩ : 2 ^ 32 ∣ 2 ^ w := pow_dvd_pow 2 hw
    have hpos : 0 < 2 ^ w := Nat.two_pow_pos w
    rw [BitVec.toNat_setWidth, BitVec.toNat_sub, hzero, hone, BitVec.toNat_allOnes, Nat.add_zero,
      Nat.mod_eq_of_lt (Nat.sub_lt hpos Nat.one_pos)]
    omega
  rw [allocSize, if_neg hpower, roundupPowOfTwo, hones]
  show Option.map _ (oneShl w 1) = _
  rw [oneShl, if_pos (by omega), Option.map_some]

/-- A sound fifo's size has a block that is not smaller. -/
theorem exists_allocSize (hw : 32 ≤ w) (h : Sound fifo) :
    ∃ block, allocSize w fifo.size = some block ∧ fifo.size ≤ block := by
  rcases h.size with hzero | ⟨k, hk⟩
  · rw [hzero]
    exact ⟨_, allocSize_zero hw, BitVec.le_def.mpr (Nat.zero_le _)⟩
  · exact ⟨fifo.size, allocSize_of_power hw hk, BitVec.le_refl _⟩

theorem eq_of_fifoSerialize {malloc : BitVec w → Bool} {ser : FifoSerialized}
    (h : (fifoSerialize w malloc fifo).2 = some ser) :
    ser = ⟨fifo.size, fifo.in_, fifo.out, read fifo.buffer 0 fifo.size.toNat⟩ := by
  unfold fifoSerialize at h
  dsimp only at h
  split_ifs at h
  exact (Option.some.inj h).symm

theorem fifoUnserialize_eq {malloc : BitVec 32 → Option (ℕ → UInt8)} {ser : FifoSerialized}
    {block : BitVec 32} {memory : ℕ → UInt8} (hblock : allocSize w ser.size = some block)
    (hmemory : malloc block = some memory) :
    fifoUnserialize w malloc ser
      = some (some ⟨write memory 0 ser.buffer, ser.size, ser.in_, ser.out⟩) := by
  have halloc : fifoAlloc w malloc ser.size = some (some (fifoInitBuffer memory block)) := by
    rw [fifoAlloc, hblock]
    show some ((malloc block).map _) = _
    rw [hmemory, Option.map_some]
  rw [fifoUnserialize, halloc]
  rfl

/-- What is unserialized differs only in the memory behind the buffer. -/
theorem alike_unserialized (fifo : Fifo) (memory : ℕ → UInt8) :
    Alike fifo
      ⟨write memory 0 (read fifo.buffer 0 fifo.size.toNat), fifo.size, fifo.in_, fifo.out⟩ := by
  refine ⟨rfl, rfl, rfl, fun j hj => ?_⟩
  have hlength : j < (read fifo.buffer 0 fifo.size.toNat).length := by rwa [length_read]
  have hcell := write_apply_add memory 0 _ hlength
  rwa [getElem_read, Nat.zero_add] at hcell

/-- **FIFO serialization round trip.**  For every fifo that there is: if it was serialized, the
block that `fifo_unserialize` allocates is large enough for it, and when there is memory for that
block the fifo it gives has the same size and the same bytes queued, in the same order; every
sequence of calls returns on it what it returns on the fifo that was serialized. -/
theorem fifo_serialize_round_trip (hw : 32 ≤ w) (h : Reachable w fifo) {malloc : BitVec w → Bool}
    {ser : FifoSerialized} (hser : (fifoSerialize w malloc fifo).2 = some ser) :
    ∃ block, allocSize w ser.size = some block ∧ ser.buffer.length ≤ block.toNat ∧
      ∀ (malloc' : BitVec 32 → Option (ℕ → UInt8)) (memory : ℕ → UInt8),
        malloc' block = some memory →
          ∃ fifo', fifoUnserialize w malloc' ser = some (some fifo') ∧
            fifoSize fifo' = fifoSize fifo ∧ queuedBytes fifo' = queuedBytes fifo ∧
            ∀ calls, Meets callStep (fun fifo call => call.Defined fifo) fifo calls →
              (run callStep fifo' calls).2 = (run callStep fifo calls).2 := by
  have hsound : Sound fifo := h.sound hw
  obtain ⟨block, hblock, hle⟩ := exists_allocSize hw hsound
  obtain rfl := eq_of_fifoSerialize hser
  refine ⟨block, hblock, ?_, ?_⟩
  · rw [length_read]
    exact BitVec.le_def.mp hle
  · intro malloc' memory hmemory
    have halike := alike_unserialized fifo memory
    refine ⟨_, fifoUnserialize_eq hblock hmemory, rfl, ?_, ?_⟩
    · exact halike.fifoOutData hsound hsound.len_le 0
    · intro calls hcalls
      exact (run_sim_of_meets callStep callStep (fun f f' call => twins_callStep f f' call)
        ⟨halike, hsound⟩ hcalls).2.symm

/-- Three bytes are serialized in a buffer of four, and read again in two calls. -/
theorem fifo_serialize_round_trip_three :
    let fifo := (step (fifoInit 32 ⟨fun _ => 0, 0, 0, 0⟩ (fun _ => 0) 4)
      (.in_ (fun i => .ofNat (10 + i)) 3)).1
    let ser : FifoSerialized := ⟨4, 3, 0, [10, 11, 12, 0]⟩
    (fifoSerialize 32 (fun _ => true) fifo) = (16, some ser) ∧
      ∃ fifo', fifoUnserialize 32 (fun _ => some fun _ => 99) ser = some (some fifo') ∧
        queuedBytes fifo' = [10, 11, 12] ∧
        (run callStep fifo' [.op (.out 2), .op (.out 2)]).2
          = [.op (.out 2 [10, 11]), .op (.out 1 [12])] := by
  intro fifo ser
  have hser : fifoSerialize 32 (fun _ => true) fifo = (16, some ser) := by decide
  have hreachable : Reachable 32 fifo := .op _ (.init _ _ (k := 2) rfl)
  obtain ⟨block, hblock, -, hround⟩ := fifo_serialize_round_trip (Nat.le_refl 32) hreachable
    (congrArg Prod.snd hser)
  obtain ⟨fifo', hfifo', -, hqueued, hcalls⟩ := hround (fun _ => some fun _ => 99) _ rfl
  refine ⟨hser, fifo', hfifo', hqueued.trans (by decide), ?_⟩
  exact (hcalls [.op (.out 2), .op (.out 2)] ⟨trivial, trivial, trivial⟩).trans (by decide)

end Neufbox.Libetk
