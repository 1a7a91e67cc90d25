import Neufbox.Lib.Run
import Neufbox.Libnbd.Equiv.Send

/-!
# What libnbd makes of the answers

An answer is a value `ret`, a length and a payload of that length.  Two things can go wrong with it.

*Framing.*  An answer that is longer than the caller's buffer has to be dropped as a whole, or the
next call takes the rest of it for its own answer.  `nbd_query_receive` drops it only below 512
bytes: `nbdQuery_inStep_iff` says that in a run of queries each call reads exactly its own answer if
and only if no answer is both longer than the buffer and at least 512 bytes long.

*Completeness.*  When the daemon closes the connection in the middle of an answer, `full_read`
returns what it has, which is no error to its callers: `nbdQuery_faithful_iff` says exactly which
incomplete answers are reported as an error by `nbd_query` and by `nbd_query_new`.
-/

namespace Neufbox.Libnbd

open Memory ByteStream Machine

/-- An answer of the daemon. -/
structure Answer (abi : Abi) where
  ret : BitVec 32
  payload : List UInt8
  length_lt : payload.length < 2 ^ (8 * abi.wordBytes)

variable {abi : Abi}

/-- The bytes of an answer. -/
def Answer.bytes (answer : Answer abi) : List UInt8 :=
  abi.endian.encode 4 answer.ret.toNat ++
    (abi.endian.encode abi.wordBytes answer.payload.length ++ answer.payload)

/-- The bytes that arrived on the link and were not read. -/
def Link.unread (link : Link) : List UInt8 :=
  match link.conn with
  | none => []
  | some c => delivered c.rx

/-- The value of `ret` after the bytes `arrived` came in and nothing else. -/
def Abi.retSeen (abi : Abi) (ret : BitVec 32) (arrived : List UInt8) : BitVec 32 :=
  abi.storeInt ret (arrived.take 4)

/-- The value of `count` after the bytes `arrived` came in and nothing else. -/
def Abi.countSeen (abi : Abi) (count : abi.SizeT) (arrived : List UInt8) : abi.SizeT :=
  abi.storeSize count ((arrived.drop 4).take abi.wordBytes)

/-! ### The header -/

theorem storeInt_encode (old v : BitVec 32) :
    abi.storeInt old (abi.endian.encode 4 v.toNat) = v := by
  rw [Abi.storeInt, overlay_of_length_eq (by simp), Endian.decode_encode _ v.isLt]
  exact BitVec.ofNat_toNat 32 v

theorem storeSize_encode (old : abi.SizeT) {n : ℕ} (h : n < 2 ^ (8 * abi.wordBytes)) :
    (abi.storeSize old (abi.endian.encode abi.wordBytes n)).toNat = n := by
  rw [Abi.storeSize, overlay_of_length_eq (by simp),
    Endian.decode_encode _ (by rw [abi.pow_wordBytes]; exact h), BitVec.toNat_ofNat,
    Nat.mod_eq_of_lt h]

theorem Answer.length_bytes (answer : Answer abi) :
    answer.bytes.length = 4 + (abi.wordBytes + answer.payload.length) := by
  simp [Answer.bytes]

theorem Answer.drop_bytes (answer : Answer abi) :
    answer.bytes.drop (4 + abi.wordBytes) = answer.payload := by
  rw [Answer.bytes, ← List.drop_drop, List.drop_left' (by simp), List.drop_left' (by simp)]

@[simp] theorem Answer.retSeen_bytes (answer : Answer abi) (ret : BitVec 32) :
    abi.retSeen ret answer.bytes = answer.ret := by
  rw [Abi.retSeen, Answer.bytes, List.take_left' (by simp), storeInt_encode]

@[simp] theorem Answer.toNat_countSeen_bytes (answer : Answer abi) (count : abi.SizeT) :
    (abi.countSeen count answer.bytes).toNat = answer.payload.length := by
  rw [Abi.countSeen, Answer.bytes, List.drop_left' (by simp), List.take_left' (by simp),
    storeSize_encode _ answer.length_lt]

section Receive

variable (s : List Arrival) (out : OutBuf abi) (count : abi.SizeT) (ret : BitVec 32)

/-- A failure before the length has arrived is reported. -/
theorem ret_nbdQueryReceive_of_fails
    (h : fails s = true ∧ (delivered s).length < 4 + abi.wordBytes) :
    (nbdQueryReceive abi s out count ret).ret = -1 := by
  by_cases h1 : (fullRead 4 s).failed = true
  · rw [nbdQueryReceive, if_pos h1]
  · obtain ⟨hd, hf⟩ := fullRead_rest (Bool.eq_false_iff.mpr h1)
    have h4 : 4 ≤ (delivered s).length := by
      by_contra hlt
      exact h1 (fullRead_failed_iff.mpr ⟨h.1, by omega⟩)
    have h2 : (fullRead abi.wordBytes (fullRead 4 s).rest).failed = true := by
      rw [fullRead_failed_iff, hd, hf, List.length_drop]
      exact ⟨h.1, by omega⟩
    rw [nbdQueryReceive, if_neg h1, if_pos h2]

/-- Otherwise the two reads of the header take what there is, and do not look how much it was. -/
theorem nbdQueryReceive_eq (h : ¬ (fails s = true ∧ (delivered s).length < 4 + abi.wordBytes)) :
    ∃ rest, delivered rest = (delivered s).drop (4 + abi.wordBytes) ∧ fails rest = fails s ∧
      nbdQueryReceive abi s out count ret
        = receivePayload abi rest out (abi.countSeen count (delivered s))
          (abi.retSeen ret (delivered s)) := by
  have h1 : ¬ (fullRead 4 s).failed = true := by
    rw [fullRead_failed_iff]
    exact fun hc => h ⟨hc.1, by omega⟩
  obtain ⟨hd1, hf1⟩ := fullRead_rest (Bool.eq_false_iff.mpr h1)
  have h2 : ¬ (fullRead abi.wordBytes (fullRead 4 s).rest).failed = true := by
    rw [fullRead_failed_iff, hd1, hf1, List.length_drop]
    exact fun hc => h ⟨hc.1, by omega⟩
  obtain ⟨hd2, hf2⟩ := fullRead_rest (Bool.eq_false_iff.mpr h2)
  refine ⟨(fullRead abi.wordBytes (fullRead 4 s).rest).rest, ?_, ?_, ?_⟩
  · rw [hd2, hd1, List.drop_drop]
  · rw [hf2, hf1]
  · simp only [nbdQueryReceive, if_neg h1, if_neg h2, fullRead_bytes, hd1, Abi.countSeen,
      Abi.retSeen]

/-! ### The payload -/

/-- The payload never changes what is returned, except when it is too long. -/
theorem ret_receivePayload :
    (receivePayload abi s out count ret).ret = if count > out.len then -1 else ret := by
  rw [receivePayload]
  split_ifs <;> rfl

/-- A payload that is all there is read whole, or dropped whole, or left where it is. -/
theorem rest_receivePayload (h : (delivered s).length = count.toNat) :
    delivered (receivePayload abi s out count ret).rest
        = (if count.toNat ≤ out.len.toNat ∨ count.toNat < 512 then [] else delivered s) ∧
      fails (receivePayload abi s out count ret).rest = fails s := by
  obtain ⟨-, -, hd, hf⟩ := fullRead_of_le (Nat.le_of_eq h.symm)
  rw [List.drop_eq_nil_of_le (Nat.le_of_eq h)] at hd
  by_cases hlen : count > out.len
  · have hnle : ¬ count.toNat ≤ out.len.toNat := BitVec.not_le.mpr hlen
    rw [receivePayload, if_pos hlen]
    by_cases h512 : count.toNat < 512
    · simp only [h512, if_true, or_true, hd, hf, and_self]
    · simp only [h512, hnle, if_false, or_self, and_self]
  · have hle : count.toNat ≤ out.len.toNat ∨ count.toNat < 512 := .inl (BitVec.not_lt.mp hlen)
    rw [receivePayload, if_neg hlen, if_pos hle]
    by_cases hzero : count = 0
    · rw [if_pos hzero]
      rw [hzero] at h
      exact ⟨List.eq_nil_of_length_eq_zero h, rfl⟩
    · rw [if_neg hzero]
      exact ⟨hd, hf⟩

/-- A payload that is all there and not too long ends up in the caller's buffer. -/
theorem mem_receivePayload (h : (delivered s).length = count.toNat) (hlen : ¬ count > out.len) :
    read (receivePayload abi s out count ret).mem 0 count.toNat = delivered s := by
  by_cases hzero : count = 0
  · rw [hzero] at h ⊢
    exact (List.eq_nil_of_length_eq_zero h).symm
  · have hall : (fullRead count.toNat s).bytes = delivered s := by
      rw [fullRead_bytes, List.take_of_length_le (Nat.le_of_eq h)]
    simp only [receivePayload, if_neg hlen, if_neg hzero, hall]
    rw [← h, read_write_self]

end Receive

/-! ### Incomplete answers -/

/-- A query that was sent was sent on a connection. -/
theorem exists_conn_nbdQuerySend {link : Link} {call : Call}
    (h : 0 ≤ (nbdQuerySend abi link call).1.toInt) :
    ∃ c, (nbdQuerySend abi link call).2.conn = some c := by
  obtain ⟨link', results, -, -, heq⟩ := nbdQuerySend_eq abi link call
  rw [heq] at h ⊢
  obtain hfail | ⟨c, len, -, -, hfail | ⟨body, -, hok⟩⟩ :=
    sendOn_spec abi link' (call.query abi) results
  · rw [hfail] at h
    exact absurd h neg_one_toInt
  · rw [hfail]
    exact ⟨_, rfl⟩
  · rw [hok]
    exact ⟨_, rfl⟩

/-- What a call should return: a negative value, or else the value of an answer that it received
completely, with its payload. -/
def Faithful (answer : Answer abi) (arrived : List UInt8) (ret : BitVec 32) (payload : List UInt8)
    (unread : List UInt8) : Prop :=
  ret.toInt < 0 ∨
    (arrived = answer.bytes ∧ unread = [] ∧ ret = answer.ret ∧ payload = answer.payload)

/-- `nbd_query_receive` on a complete answer that is not too long. -/
theorem nbdQueryReceive_of_complete {s : List Arrival} {answer : Answer abi}
    (h : delivered s = answer.bytes) (out : OutBuf abi) (count : abi.SizeT) (ret : BitVec 32) :
    let a := nbdQueryReceive abi s out count ret
    (delivered a.rest = if answer.payload.length ≤ out.len.toNat ∨ answer.payload.length < 512
      then [] else answer.payload) ∧
    fails a.rest = fails s ∧
    (answer.payload.length ≤ out.len.toNat →
      a.ret = answer.ret ∧ read a.mem 0 answer.payload.length = answer.payload) := by
  have hlen := answer.length_bytes
  obtain ⟨rest, hd, hf, heq⟩ := nbdQueryReceive_eq s out count ret (by rw [h]; omega)
  have hcount := answer.toNat_countSeen_bytes count
  rw [h, answer.drop_bytes] at hd
  rw [h, answer.retSeen_bytes] at heq
  obtain ⟨hrest, hrestf⟩ := rest_receivePayload rest out (abi.countSeen count answer.bytes)
    answer.ret (by rw [hd, hcount])
  rw [hcount, hd] at hrest
  rw [heq]
  refine ⟨hrest, hrestf.trans hf, ?_⟩
  intro hle
  have hngt : ¬ abi.countSeen count answer.bytes > out.len := by
    rw [gt_iff_lt, BitVec.lt_def, hcount]
    omega
  have hmem := mem_receivePayload rest out (abi.countSeen count answer.bytes) answer.ret
    (by rw [hd, hcount]) hngt
  rw [hcount, hd] at hmem
  exact ⟨by rw [ret_receivePayload, if_neg hngt], hmem⟩

theorem nbdQueryReceive_faithful_iff {s : List Arrival} (answer : Answer abi) (out : OutBuf abi)
    (count : abi.SizeT) (ret : BitVec 32) :
    Faithful answer (delivered s) (nbdQueryReceive abi s out count ret).ret
        (read (nbdQueryReceive abi s out count ret).mem 0 answer.payload.length)
        (delivered (nbdQueryReceive abi s out count ret).rest) ↔
      delivered s = answer.bytes ∨ (fails s = true ∧ (delivered s).length < 4 + abi.wordBytes) ∨
        abi.countSeen count (delivered s) > out.len ∨
        (abi.retSeen ret (delivered s)).toInt < 0 := by
  by_cases hf : fails s = true ∧ (delivered s).length < 4 + abi.wordBytes
  · have := ret_nbdQueryReceive_of_fails s out count ret hf
    simp [Faithful, hf, this]
  · obtain ⟨rest, -, -, heq⟩ := nbdQueryReceive_eq s out count ret hf
    have hret := ret_receivePayload rest out (abi.countSeen count (delivered s))
      (abi.retSeen ret (delivered s))
    rw [← heq] at hret
    by_cases hlen : abi.countSeen count (delivered s) > out.len
    · simp [Faithful, hret, hlen]
    · rw [if_neg hlen] at hret
      simp only [hf, hlen, false_or]
      constructor
      · rintro (hneg | ⟨harr, -⟩)
        · exact .inr (hret ▸ hneg)
        · exact .inl harr
      · rintro (harr | hneg)
        · -- the whole answer is there, and it fits in the buffer
          have hle : answer.payload.length ≤ out.len.toNat := by
            rw [harr, gt_iff_lt, BitVec.lt_def, answer.toNat_countSeen_bytes] at hlen
            omega
          obtain ⟨hrest, -, hfits⟩ := nbdQueryReceive_of_complete harr out count ret
          rw [if_pos (.inl hle)] at hrest
          exact .inr ⟨harr, hrest, hfits hle⟩
        · exact .inl (hret ▸ hneg)

/-- The payload `nbd_query_new` returns; an empty one may come without memory. -/
def returned (buf : Option (ℕ → UInt8)) (size : abi.SizeT) : List UInt8 :=
  match buf with
  | none => []
  | some mem => read mem 0 size.toNat

/-- The answer arrives in the pieces `nbd_query_receive_new` expects, which reads `ret` and the
length with one `read` each. -/
def ArrivesInPieces (abi : Abi) (s : List Arrival) : Prop :=
  (safeRead 4 s).bytes.length = 4 ∧
    (safeRead abi.wordBytes (safeRead 4 s).rest).bytes.length = abi.wordBytes

/-- Every exit of `nbd_query_receive_new` leaves in `*ret` what the first read stored there. -/
theorem ret_nbdQueryReceiveNew (s : List Arrival) (new : NewBuf abi) (ret : BitVec 32) :
    (nbdQueryReceiveNew abi s new ret).ret = abi.storeInt ret (safeRead 4 s).bytes := by
  simp only [nbdQueryReceiveNew]
  split_ifs <;> rfl

/-- The two reads of the header, when the whole answer arrives: neither fails, and neither takes
more than it asked for. -/
theorem safeRead_header {s : List Arrival} {answer : Answer abi}
    (hs : delivered s = answer.bytes) :
    let first := safeRead 4 s
    let second := safeRead abi.wordBytes first.rest
    (first.failed = false ∧ first.bytes.length ≤ 4) ∧
    (second.failed = false ∧ second.bytes.length ≤ abi.wordBytes) ∧
    answer.bytes = first.bytes ++ (second.bytes ++ delivered second.rest) := by
  intro first second
  obtain ⟨hk, hok1, hfail1⟩ := safeRead_spec (n := 4) (s := s)
  obtain ⟨hj, hok2, hfail2⟩ := safeRead_spec (n := abi.wordBytes) (s := (safeRead 4 s).rest)
  have h4 := abi.four_le_wordBytes
  have hlen := answer.length_bytes
  rw [← hs] at hlen
  have h1 : (safeRead 4 s).failed = false := by
    rw [← Bool.not_eq_true]
    intro hf
    rw [(hfail1 hf).1, List.length_nil] at hlen
    omega
  -- there is more to read behind the first four bytes
  have h2 : (safeRead abi.wordBytes (safeRead 4 s).rest).failed = false := by
    rw [← Bool.not_eq_true]
    intro hf
    rw [hok1 h1, (hfail2 hf).1, List.length_append, List.length_nil] at hlen
    omega
  refine ⟨⟨h1, hk⟩, ⟨h2, hj⟩, ?_⟩
  rw [← hs, hok1 h1, hok2 h2]

/-- The bytes of an answer that arrives in these pieces. -/
theorem ArrivesInPieces.header {s : List Arrival} {answer : Answer abi}
    (h : ArrivesInPieces abi s) (hs : delivered s = answer.bytes) :
    (safeRead 4 s).bytes = abi.endian.encode 4 answer.ret.toNat ∧
    (safeRead abi.wordBytes (safeRead 4 s).rest).bytes
      = abi.endian.encode abi.wordBytes answer.payload.length ∧
    delivered (safeRead abi.wordBytes (safeRead 4 s).rest).rest = answer.payload := by
  obtain ⟨hk, hj⟩ := h
  obtain ⟨-, -, hbytes⟩ := safeRead_header hs
  rw [Answer.bytes] at hbytes
  obtain ⟨hret, htail⟩ := List.append_inj hbytes (by simp [hk])
  obtain ⟨hcount, hpayload⟩ := List.append_inj htail (by simp [hj])
  exact ⟨hret.symm, hcount.symm, hpayload.symm⟩

/-- A complete answer is read to its end, with its payload behind `*size`, only in these pieces. -/
theorem arrivesInPieces_of_faithful {s : List Arrival} {answer : Answer abi} {new : NewBuf abi}
    {ret : BitVec 32} (hs : delivered s = answer.bytes)
    (hrest : delivered (nbdQueryReceiveNew abi s new ret).rest = [])
    (hbuf : returned (nbdQueryReceiveNew abi s new ret).buf
      (nbdQueryReceiveNew abi s new ret).size = answer.payload) :
    ArrivesInPieces abi s ∧ (new.malloc = true ∨ answer.payload = []) := by
  obtain ⟨⟨h1, hk⟩, ⟨h2, hj⟩, hbytes⟩ := safeRead_header hs
  have hlen := answer.length_bytes
  rw [hbytes, List.length_append, List.length_append] at hlen
  simp only [nbdQueryReceiveNew, h1, h2, Bool.false_eq_true, if_false] at hrest hbuf
  by_cases hm : new.malloc = false
  · -- nothing was read behind the header, so there is no payload
    rw [if_pos hm] at hrest hbuf
    rw [hrest, List.length_nil] at hlen
    exact ⟨⟨by omega, by omega⟩, .inr hbuf.symm⟩
  · -- at most `*size` bytes were read behind the header, as many as the payload has
    rw [if_neg hm] at hrest hbuf
    have hsize := congrArg List.length hbuf
    simp only [returned, length_read] at hsize
    have hle := length_le_of_fullRead hrest
    exact ⟨⟨by omega, by omega⟩, .inl (by simpa using hm)⟩

theorem nbdQueryReceiveNew_faithful_iff {s : List Arrival} (answer : Answer abi) (new : NewBuf abi)
    (ret : BitVec 32) :
    let a := nbdQueryReceiveNew abi s new ret
    (Faithful answer (delivered s) a.ret (returned a.buf a.size) (delivered a.rest) ↔
      (abi.storeInt ret (safeRead 4 s).bytes).toInt < 0 ∨
        (delivered s = answer.bytes ∧ ArrivesInPieces abi s ∧
          (new.malloc = true ∨ answer.payload = []))) := by
  intro a
  have hret : a.ret = abi.storeInt ret (safeRead 4 s).bytes := ret_nbdQueryReceiveNew s new ret
  rw [Faithful, hret]
  refine or_congr_right ⟨?_, ?_⟩
  · rintro ⟨hs, hrest, -, hbuf⟩
    exact ⟨hs, arrivesInPieces_of_faithful hs hrest hbuf⟩
  · rintro ⟨hs, hpieces, hmalloc⟩
    obtain ⟨⟨h1, -⟩, ⟨h2, -⟩, -⟩ := safeRead_header hs
    obtain ⟨hb1, hb2, hd⟩ := hpieces.header hs
    have hsize := storeSize_encode new.outlen answer.length_lt
    have hread := fullRead_of_le (n := answer.payload.length) (Nat.le_of_eq (congrArg _ hd.symm))
    rw [hd, List.take_length, List.drop_length] at hread
    have ha : a = nbdQueryReceiveNew abi s new ret := rfl
    simp only [nbdQueryReceiveNew, h1, h2, hb2, Bool.false_eq_true, if_false] at ha
    refine ⟨hs, ?_, by rw [hb1, storeInt_encode], ?_⟩
    · by_cases hm : new.malloc = false
      · rw [ha, if_pos hm, hd, hmalloc.resolve_left (by simp [hm])]
      · rw [ha, if_neg hm]
        simpa only [hsize] using hread.2.2.1
    · by_cases hm : new.malloc = false
      · rw [ha, if_pos hm, returned, hmalloc.resolve_left (by simp [hm])]
      · rw [ha, if_neg hm]
        simp only [returned, hsize, hread.2.1, read_write_self]

theorem Link.unread_setRx {link : Link} {c : Conn} (h : link.conn = some c) (rx : List Arrival) :
    (link.setRx rx).unread = delivered rx := by
  rw [Link.unread, Link.setRx, h]
  rfl

section Query

variable {link : Link} {call : Call} {out : OutBuf abi} {count : abi.SizeT} {new : NewBuf abi}

theorem nbdQuery_of_neg (h : (nbdQuerySend abi link call).1.toInt < 0) :
    nbdQuery abi link call out count = ((nbdQuerySend abi link call).1, out.mem,
      nbdCloseLocked (nbdQuerySend abi link call).2) := if_pos h

theorem nbdQuery_of_not_neg (h : ¬ (nbdQuerySend abi link call).1.toInt < 0) :
    nbdQuery abi link call out count
      = (let (ret, link) := nbdQuerySend abi link call
        let a := nbdQueryReceive abi (link.stream call.arrivals) out count ret
        (a.ret, a.mem, link.setRx a.rest)) := if_neg h

theorem nbdQueryNew_of_neg (h : (nbdQuerySend abi link call).1.toInt < 0) :
    nbdQueryNew abi link call new = ((nbdQuerySend abi link call).1, new.out, new.outlen,
      nbdCloseLocked (nbdQuerySend abi link call).2) := if_pos h

theorem nbdQueryNew_of_not_neg (h : ¬ (nbdQuerySend abi link call).1.toInt < 0) :
    nbdQueryNew abi link call new
      = (let (ret, link) := nbdQuerySend abi link call
        let a := nbdQueryReceiveNew abi (link.stream call.arrivals) new ret
        (a.ret, a.buf, a.size, link.setRx a.rest)) := if_neg h

end Query

/-- **Which calls are faithful to the answer.**  `nbd_query` returns a negative value, or the value
and the payload of an answer it received completely, if and only if the query was not sent, the
answer arrived completely, a read failed before the length was there, the length it took for
granted was too long for the buffer, or the value it took for granted was negative.  For
`nbd_query_new`, whose result is whatever its first read left in `ret`, that value has to be
negative, or the answer has to arrive completely and in the pieces it expects. -/
theorem nbdQuery_faithful_iff (abi : Abi) (link : Link) (call : Call) (answer : Answer abi) :
    let sent := nbdQuerySend abi link call
    let stream := sent.2.stream call.arrivals
    let arrived := delivered stream
    (∀ out count,
      Faithful answer arrived (nbdQuery abi link call out count).1
          (read (nbdQuery abi link call out count).2.1 0 answer.payload.length)
          (nbdQuery abi link call out count).2.2.unread ↔
        sent.1.toInt < 0 ∨ arrived = answer.bytes ∨
          (fails stream = true ∧ arrived.length < 4 + abi.wordBytes) ∨
          abi.countSeen count arrived > out.len ∨ (abi.retSeen sent.1 arrived).toInt < 0) ∧
    (∀ new,
      Faithful answer arrived (nbdQueryNew abi link call new).1
          (returned (nbdQueryNew abi link call new).2.1 (nbdQueryNew abi link call new).2.2.1)
          (nbdQueryNew abi link call new).2.2.2.unread ↔
        sent.1.toInt < 0 ∨ (abi.storeInt sent.1 (safeRead 4 stream).bytes).toInt < 0 ∨
          (arrived = answer.bytes ∧ ArrivesInPieces abi stream ∧
            (new.malloc = true ∨ answer.payload = []))) := by
  intro sent stream arrived
  by_cases hneg : sent.1.toInt < 0
  · -- the query was not sent, and both functions return the error of the send
    constructor
    · intro out count
      rw [nbdQuery_of_neg hneg]
      exact iff_of_true (.inl hneg) (.inl hneg)
    · intro new
      rw [nbdQueryNew_of_neg hneg]
      exact iff_of_true (.inl hneg) (.inl hneg)
  · obtain ⟨c, hc⟩ := exists_conn_nbdQuerySend (Int.not_lt.mp hneg)
    constructor
    · intro out count
      rw [nbdQuery_of_not_neg hneg, Link.unread_setRx hc, or_iff_right hneg]
      exact nbdQueryReceive_faithful_iff answer out count sent.1
    · intro new
      rw [nbdQueryNew_of_not_neg hneg, Link.unread_setRx hc, or_iff_right hneg]
      exact nbdQueryReceiveNew_faithful_iff answer new sent.1

/-- The call of a plugin without arguments, all of whose writes succeed. -/
def plainCall (arrivals : List Arrival) : Call :=
  ⟨plainArgs, fun _ => 0, [.all, .all], [], arrivals⟩

/-- The daemon closes the connection after two of five bytes of payload: `nbd_query` returns 0.  It
closes it without any answer: `nbd_query_new` returns the number of bytes it sent. -/
theorem nbdQuery_succeeds_on_incomplete :
    let link : Link := ⟨some ⟨3, [], []⟩, []⟩
    let answer : Answer .mips := ⟨0, [104, 101, 108, 108, 111], by decide⟩
    let cut : List Arrival := [.data 0 [0, 0, 0, 0, 0, 0, 5, 104, 101]]
    delivered cut = answer.bytes.take 10 ∧
      (nbdQuery .mips link (plainCall cut) ⟨fun _ => 0, 64, false, by decide⟩ 0).1 = 0 ∧
      (nbdQueryNew .mips link (plainCall []) ⟨none, 0, true, fun _ => 0⟩).1 = 55 := by
  decide

/-! ### Framing -/

/-- Nothing arrived that a later read would find. -/
def Silent (s : List Arrival) : Prop := delivered s = [] ∧ fails s = false

/-- There is no byte left of an earlier answer. -/
def Link.Silent (link : Link) : Prop := ∀ c, link.conn = some c → Libnbd.Silent c.rx

/-- A call of `nbd_query` and the answer the daemon sends to it, delivered in any chunks.  Before
it is asked the daemon sends nothing but its acknowledgement of the connection. -/
structure Exchange (abi : Abi) where
  call : Call
  out : OutBuf abi
  count : abi.SizeT
  answer : Answer abi
  delivers : delivered call.arrivals = answer.bytes
  not_fails : fails call.arrivals = false
  silent : ∀ a ∈ call.attempts, ∀ c, nbdOpenLocked a = some c → Libnbd.Silent c.rx

/-- The link after an exchange, and the value `nbd_query` returns. -/
def exchange (link : Link) (x : Exchange abi) : Link × List Int :=
  let (ret, _, link) := nbdQuery abi link x.call x.out x.count
  (link, [ret.toInt])

/-- A call that was sent reads from the start of its own answer and leaves nothing of it. -/
def InStep (link : Link) (x : Exchange abi) : Prop :=
  let sent := nbdQuerySend abi link x.call
  0 ≤ sent.1.toInt →
    delivered (sent.2.stream x.call.arrivals) = x.answer.bytes ∧ (exchange link x).1.unread = []

/-- The answer fits in the caller's buffer or, to be dropped, in `query_buffer`. -/
def AnswerFits (link : Link) (x : Exchange abi) : Prop :=
  0 ≤ (nbdQuerySend abi link x.call).1.toInt →
    x.answer.payload.length ≤ x.out.len.toNat ∨ x.answer.payload.length < 512

theorem Link.silent_of_conn_none {link : Link} (h : link.conn = none) : link.Silent :=
  fun _ hc => absurd (h.symm.trans hc) (by simp)

theorem Link.Silent.close {link : Link} (h : link.Silent) : (nbdCloseLocked link).Silent := by
  rw [nbdCloseLocked]
  split
  · exact h
  · split_ifs
    · exact silent_of_conn_none rfl
    · exact h

theorem Link.conn_assign (link : Link) (conn : Option Conn) : (link.assign conn).conn = conn := by
  rw [Link.assign]
  split <;> rfl

theorem Link.Silent.reopen {attempts : List Attempt}
    (ha : ∀ a ∈ attempts, ∀ c, nbdOpenLocked a = some c → Libnbd.Silent c.rx) (n : ℕ) {link : Link}
    (h : link.Silent) : (reopen link attempts n).Silent := by
  induction n generalizing link attempts with
  | zero => exact h
  | succ n ih =>
    have hnew : (link.assign (attempts.head?.bind nbdOpenLocked)).Silent := by
      intro c hc
      rw [Link.conn_assign, Option.bind_eq_some_iff] at hc
      obtain ⟨a, hmem, hopen⟩ := hc
      exact ha a (List.mem_of_mem_head? hmem) c hopen
    rw [Libnbd.reopen]
    split_ifs
    · exact hnew
    · exact ih (fun a hmem => ha a (List.mem_of_mem_tail hmem)) hnew

theorem Link.Silent.sendOn {link : Link} (h : link.Silent) (query : List UInt8)
    (results : List WriteResult) : (sendOn abi link query results).2.Silent := by
  obtain hw | ⟨c, len, hc, -, hw | ⟨body, -, hw⟩⟩ := sendOn_spec abi link query results
  · rw [hw]
    exact h
  all_goals
    rw [hw]
    intro c' hc'
    obtain rfl := Option.some.inj hc'
    exact h c hc

/-- Sending leaves nothing to read. -/
theorem Link.Silent.nbdQuerySend {link : Link} (h : link.Silent) (x : Exchange abi) :
    (nbdQuerySend abi link x.call).2.Silent := by
  obtain ⟨link', results, hlink, -, heq⟩ := nbdQuerySend_eq abi link x.call
  rw [heq]
  refine Link.Silent.sendOn ?_ _ _
  rcases hlink with rfl | rfl
  · exact h
  · exact Link.Silent.reopen x.silent 60 h.close

/-- **One exchange** on a silent link reads exactly its answer if and only if the answer fits, and
then leaves the link silent. -/
theorem inStep_iff {link : Link} (h : link.Silent) (x : Exchange abi) :
    (InStep link x ↔ AnswerFits link x) ∧ (AnswerFits link x → (exchange link x).1.Silent) := by
  have hsent := h.nbdQuerySend x
  by_cases hneg : (nbdQuerySend abi link x.call).1.toInt < 0
  · have hq : (exchange link x).1 = nbdCloseLocked (nbdQuerySend abi link x.call).2 := by
      rw [exchange, nbdQuery_of_neg hneg]
    refine ⟨iff_of_true ?_ ?_, fun _ => hq ▸ hsent.close⟩
    · exact fun h0 => absurd hneg (Int.not_lt.mpr h0)
    · exact fun h0 => absurd hneg (Int.not_lt.mpr h0)
  · have h0 := Int.not_lt.mp hneg
    obtain ⟨c, hc⟩ := exists_conn_nbdQuerySend h0
    have harr : delivered ((nbdQuerySend abi link x.call).2.stream x.call.arrivals)
        = x.answer.bytes := by
      rw [Link.stream, hc, delivered_append (hsent c hc).2, (hsent c hc).1, x.delivers,
        List.nil_append]
    have hfails : fails ((nbdQuerySend abi link x.call).2.stream x.call.arrivals) = false := by
      rw [Link.stream, hc, fails_append (hsent c hc).2, x.not_fails]
    obtain ⟨hrest, hrestf, -⟩ := nbdQueryReceive_of_complete harr x.out x.count
      (nbdQuerySend abi link x.call).1
    have hq : (exchange link x).1 = (nbdQuerySend abi link x.call).2.setRx
        (nbdQueryReceive abi ((nbdQuerySend abi link x.call).2.stream x.call.arrivals) x.out x.count
          (nbdQuerySend abi link x.call).1).rest := by
      rw [exchange, nbdQuery_of_not_neg hneg]
    refine ⟨⟨?_, ?_⟩, ?_⟩
    · intro hin _
      have hun := (hin h0).2
      rw [hq, Link.unread_setRx hc, hrest] at hun
      -- the payload would be left unread, so it would have to be empty, and then it fits
      by_contra hnot
      rw [if_neg hnot] at hun
      rw [hun] at hnot
      exact hnot (.inl (Nat.zero_le _))
    · intro hfits _
      refine ⟨harr, ?_⟩
      rw [hq, Link.unread_setRx hc, hrest, if_pos (hfits h0)]
    · intro hfits c' hc'
      rw [hq, Link.setRx, hc] at hc'
      obtain rfl := Option.some.inj hc'
      exact ⟨by rw [hrest, if_pos (hfits h0)], hrestf.trans hfails⟩

/-- **Framing of the answers.**  In every sequence of `nbd_query` calls, on a link with nothing left
to read, each call that is sent reads from the start of its own answer and to its end, if and only
if none of the answers is both longer than the caller's buffer and at least 512 bytes long. -/
theorem nbdQuery_inStep_iff {link : Link} (h : link.Silent) (xs : List (Exchange abi)) :
    Meets exchange InStep link xs ↔ Meets exchange AnswerFits link xs := by
  induction xs generalizing link with
  | nil => exact Iff.rfl
  | cons x xs ih =>
    obtain ⟨hiff, hnext⟩ := inStep_iff h x
    constructor
    · rintro ⟨hx, hxs⟩
      exact ⟨hiff.mp hx, (ih (hnext (hiff.mp hx))).mp hxs⟩
    · rintro ⟨hx, hxs⟩
      exact ⟨hiff.mpr hx, (ih (hnext hx)).mpr hxs⟩

/-- An answer of two bytes, in two chunks, to a caller without a buffer. -/
theorem nbdQuery_inStep_plain :
    Meets exchange InStep ⟨some ⟨3, [], []⟩, []⟩
      [(⟨plainCall [.data 0 [0, 0], .intr, .data 1 [0, 0, 0, 2, 104, 105]],
        ⟨fun _ => 0, 0, true, fun _ => rfl⟩, 0, ⟨1, [104, 105], by decide⟩, by decide, rfl,
        fun a ha => nomatch ha⟩ : Exchange .mips)] := by
  refine (nbdQuery_inStep_iff ?_ _).mpr ⟨fun _ => .inr (by decide), trivial⟩
  rintro c ⟨⟩
  exact ⟨rfl, rfl⟩

/-- An answer of 600 zero bytes to a caller with 16, and then the answer -1 to a second call: the
first call returns -1, and the second one returns 0, which it read from the payload of the first
answer. -/
theorem nbdQuery_takes_leftover_for_answer :
    let zeros : List UInt8 := .replicate 600 0
    let first : Exchange .mips := ⟨plainCall [.data 0 ([0, 0, 0, 0, 0, 2, 88] ++ zeros)],
      ⟨fun _ => 0, 16, false, by decide⟩, 0, ⟨0, zeros, by decide +kernel⟩, by decide +kernel,
      by decide, fun a ha => nomatch ha⟩
    let second : Exchange .mips := ⟨plainCall [.data 255 [255, 255, 255, 0, 0, 0, 0]],
      ⟨fun _ => 0, 16, false, by decide⟩, 0, ⟨-1, [], by decide⟩, by decide, rfl,
      fun a ha => nomatch ha⟩
    (run exchange ⟨some ⟨3, [], []⟩, []⟩ [first, second]).2 = [-1, 0] ∧
      (exchange ⟨some ⟨3, [], []⟩, []⟩ first).1.unread = zeros := by
  decide +kernel

end Neufbox.Libnbd
