import Neufbox.Lib.Run
import Neufbox.Libnbd.Equiv.Send

/-!
# The frames the daemon gets

The daemon can only make sense of a connection on which it gets whole frames, one after the other.
`nbd_query_send` gives up at the first write that fails, and its callers then close the connection;
but it takes a write that was short for a success, and `__nbd_close` does not close descriptor 0.

`Framed` is the invariant: whole frames on the open connection, and on the others at most one
incomplete frame at the end.  `framed_step` keeps it through every call that meets neither of the
two (`Orderly`), and `nbdQuery_sends_frames` lifts this to every run;
`nbdQuery_goes_on_after_short_write` is the run without the condition.
-/

namespace Neufbox.Libnbd

open Machine

variable {abi : Abi}

/-- The bytes are a sequence of whole frames. -/
def WholeFrames (abi : Abi) (bytes : List UInt8) : Prop :=
  ∃ queries : List (List UInt8), (∀ query ∈ queries, query.length < 2 ^ (8 * abi.wordBytes)) ∧
    bytes = queries.flatMap abi.frame

/-- The bytes are a sequence of whole frames and the beginning of one more. -/
def CutFrames (abi : Abi) (bytes : List UInt8) : Prop :=
  ∃ whole part query, WholeFrames abi whole ∧ bytes = whole ++ part ∧ part <+: abi.frame query ∧
    part ≠ abi.frame query

/-- Whole frames on the open connection, and on the others at most one incomplete frame, at the end
of a connection that was closed. -/
structure Framed (abi : Abi) (link : Link) : Prop where
  conn : ∀ c, link.conn = some c → 0 < c.fd ∧ WholeFrames abi c.sent
  past : ∀ p ∈ link.past, WholeFrames abi p.sent ∨ (p.closed = true ∧ CutFrames abi p.sent)

/-- No write of the call is short, and no connection gets descriptor 0. -/
def Call.Orderly (call : Call) : Prop :=
  (∀ n, .short n ∉ call.writes) ∧ ∀ a ∈ call.attempts, a.socket ≠ some 0

/-- The same for any call of the library. -/
def Op.Orderly : Op abi → Prop
  | .open_ a => a.socket ≠ some 0
  | .close => True
  | .query call _ _ => call.Orderly
  | .queryNew call _ => call.Orderly

/-! ### Frames -/

theorem wholeFrames_nil : WholeFrames abi [] := ⟨[], by simp, rfl⟩

theorem WholeFrames.append {bytes query : List UInt8} (h : WholeFrames abi bytes)
    (hlen : query.length < 2 ^ (8 * abi.wordBytes)) :
    WholeFrames abi (bytes ++ abi.frame query) := by
  obtain ⟨queries, hall, rfl⟩ := h
  refine ⟨queries ++ [query], ?_, by simp⟩
  intro q hq
  rcases List.mem_append.mp hq with hq | hq
  · exact hall q hq
  · rwa [List.mem_singleton.mp hq]

/-- The length at the start of whole frames tells where the first one ends. -/
theorem WholeFrames.next {bytes : List UInt8} {n : ℕ} (h : WholeFrames abi bytes)
    (hne : bytes ≠ []) (hn : abi.endian.decode (bytes.take abi.wordBytes) = n) :
    abi.wordBytes + n ≤ bytes.length ∧ WholeFrames abi (bytes.drop (abi.wordBytes + n)) := by
  obtain ⟨- | ⟨query, queries⟩, hall, rfl⟩ := h
  · exact absurd rfl hne
  · have hlt : query.length < 256 ^ abi.wordBytes := by
      rw [abi.pow_wordBytes]
      exact hall query List.mem_cons_self
    rw [List.flatMap_cons, Abi.frame, List.append_assoc, List.take_left' (by simp),
      Endian.decode_encode _ hlt] at hn
    subst hn
    rw [List.flatMap_cons, Abi.frame, List.append_assoc]
    refine ⟨by simp, queries, fun q hq => hall q (List.mem_cons_of_mem _ hq), ?_⟩
    rw [← List.drop_drop, List.drop_left' (by simp), List.drop_left]

/-- Without short writes a write takes all or nothing. -/
theorem Taken.eq_of_orderly {buf taken : List UInt8} {results : List WriteResult} {call : Call}
    (h : Taken buf results taken) (hsub : results ⊆ call.writes) (ho : call.Orderly) :
    taken = buf := by
  rcases h with h | ⟨n, hn, -⟩
  · exact h
  · exact absurd (hsub hn) (ho.1 n)

/-! ### Opening and closing -/

/-- What a call leaves on the link before it decides whether to close it: an incomplete frame only
together with an error. -/
structure Sent (abi : Abi) (ret : BitVec 32) (link : Link) : Prop where
  conn : ∀ c, link.conn = some c →
    0 < c.fd ∧ (WholeFrames abi c.sent ∨ (ret.toInt < 0 ∧ CutFrames abi c.sent))
  past : ∀ p ∈ link.past, WholeFrames abi p.sent ∨ (p.closed = true ∧ CutFrames abi p.sent)

theorem Framed.sent {link : Link} (h : Framed abi link) (ret : BitVec 32) : Sent abi ret link :=
  ⟨fun c hc => ⟨(h.conn c hc).1, .inl (h.conn c hc).2⟩, h.past⟩

/-- Closing makes an incomplete frame the last one of its connection. -/
theorem Sent.close {ret : BitVec 32} {link : Link} (h : Sent abi ret link) :
    Framed abi (nbdCloseLocked link) := by
  rcases hc : link.conn with - | c
  · simp only [nbdCloseLocked, hc]
    refine ⟨?_, h.past⟩
    intro c' hc'
    exact absurd (hc.symm.trans hc') (by simp)
  · obtain ⟨hfd, hframes⟩ := h.conn c hc
    simp only [nbdCloseLocked, hc, if_pos hfd]
    refine ⟨fun _ hc' => (nomatch hc'), ?_⟩
    intro p hp
    rcases List.mem_cons.mp hp with rfl | hp
    · exact hframes.imp_right fun hcut => ⟨rfl, hcut.2⟩
    · exact h.past p hp

theorem Framed.close {link : Link} (h : Framed abi link) : Framed abi (nbdCloseLocked link) :=
  (h.sent 0).close

/-- With a positive descriptor the connection really is closed. -/
theorem Framed.conn_close {link : Link} (h : Framed abi link) :
    (nbdCloseLocked link).conn = none := by
  rcases hc : link.conn with - | c
  · rw [nbdCloseLocked, hc]
    exact hc
  · simp only [nbdCloseLocked, hc, if_pos (h.conn c hc).1]

theorem fd_pos_of_nbdOpenLocked {a : Attempt} {c : Conn} (ha : a.socket ≠ some 0)
    (h : nbdOpenLocked a = some c) : 0 < c.fd ∧ c.sent = [] := by
  rw [nbdOpenLocked] at h
  split at h
  · exact nomatch h
  · rename_i fd hfd
    dsimp only at h
    split_ifs at h
    obtain rfl := Option.some.inj h
    refine ⟨Nat.pos_of_ne_zero ?_, rfl⟩
    rintro rfl
    exact ha hfd

theorem Framed.assign {link : Link} (h : Framed abi link) (hnone : link.conn = none)
    {conn : Option Conn} (hconn : ∀ c, conn = some c → 0 < c.fd ∧ c.sent = []) :
    Framed abi (link.assign conn) := by
  simp only [Link.assign, hnone]
  refine ⟨?_, h.past⟩
  intro c hc
  obtain ⟨hfd, hsent⟩ := hconn c hc
  exact ⟨hfd, hsent ▸ wholeFrames_nil⟩

theorem Framed.conn_none_of_fd {link : Link} (h : Framed abi link) (hfd : ¬ link.fd > 0) :
    link.conn = none := by
  rcases hc : link.conn with - | c
  · rfl
  · rw [Link.fd, hc] at hfd
    exact absurd (Int.natCast_pos.mpr (h.conn c hc).1) hfd

theorem Framed.open {link : Link} (h : Framed abi link) {a : Attempt} (ha : a.socket ≠ some 0) :
    Framed abi (nbdOpen link a) := by
  rw [nbdOpen]
  split_ifs with hfd
  · exact h
  · exact h.assign (h.conn_none_of_fd hfd) fun c hc => fd_pos_of_nbdOpenLocked ha hc

theorem Framed.reopen {attempts : List Attempt} (ha : ∀ a ∈ attempts, a.socket ≠ some 0) (n : ℕ)
    {link : Link} (h : Framed abi link) (hnone : link.conn = none) :
    Framed abi (reopen link attempts n) := by
  induction n generalizing link attempts with
  | zero => exact h
  | succ n ih =>
    have hnew : Framed abi (link.assign (attempts.head?.bind nbdOpenLocked)) := by
      apply h.assign hnone
      intro c hc
      obtain ⟨a, hmem, hopen⟩ := Option.bind_eq_some_iff.mp hc
      exact fd_pos_of_nbdOpenLocked (ha a (List.mem_of_mem_head? hmem)) hopen
    rw [Libnbd.reopen]
    split_ifs with hfd
    · exact hnew
    · exact ih (fun a hmem => ha a (List.mem_of_mem_tail hmem)) hnew (hnew.conn_none_of_fd hfd)

/-! ### Sending -/

/-- **Sending without short writes.** -/
theorem Framed.nbdQuerySend {link : Link} (h : Framed abi link) {call : Call} (ho : call.Orderly) :
    Sent abi (nbdQuerySend abi link call).1 (nbdQuerySend abi link call).2 := by
  obtain ⟨link', results, hlink, hsub, heq⟩ := nbdQuerySend_eq abi link call
  have h' : Framed abi link' := by
    rcases hlink with rfl | rfl
    · exact h
    · exact h.close.reopen ho.2 60 h.conn_close
  have hlen : (call.query abi).length < 2 ^ (8 * abi.wordBytes) := by
    rw [length_query]
    exact BitVec.isLt _
  rw [heq]
  obtain hw | ⟨c, len, hc, htaken, hw | ⟨body, hbody, hw⟩⟩ :=
    sendOn_spec abi link' (call.query abi) results
  · rw [hw]
    exact h'.sent _
  · -- only the length was written
    rw [hw, htaken.eq_of_orderly hsub ho]
    refine ⟨?_, h'.past⟩
    intro c' hc'
    obtain rfl := Option.some.inj hc'
    refine ⟨(h'.conn c hc).1, ?_⟩
    by_cases hq : call.query abi = []
    · left
      have := (h'.conn c hc).2.append hlen
      rwa [Abi.frame, hq, List.append_nil, ← hq] at this
    · right
      refine ⟨Int.not_le.mp neg_one_toInt, c.sent, _, call.query abi, (h'.conn c hc).2, rfl,
        List.prefix_append _ _, ?_⟩
      intro heq
      exact hq (List.append_right_eq_self.mp heq.symm)
  · -- the whole frame was written
    rw [hw, htaken.eq_of_orderly hsub ho, hbody.eq_of_orderly hsub ho]
    refine ⟨?_, h'.past⟩
    intro c' hc'
    obtain rfl := Option.some.inj hc'
    exact ⟨(h'.conn c hc).1, .inl ((h'.conn c hc).2.append hlen)⟩

/-- The link after a query, whichever of its two functions made it. -/
theorem Sent.finish {ret : BitVec 32} {link : Link} (h : Sent abi ret link)
    (rx : List ByteStream.Arrival) :
    Framed abi (if ret.toInt < 0 then nbdCloseLocked link else link.setRx rx) := by
  split_ifs with hneg
  · exact h.close
  · -- there was no error, so the frame is whole
    refine ⟨?_, h.past⟩
    intro c' hc'
    obtain ⟨c, hc, rfl⟩ := Option.map_eq_some_iff.mp hc'
    obtain ⟨hfd, hframes⟩ := h.conn c hc
    exact ⟨hfd, hframes.resolve_right fun hcut => hneg hcut.1⟩

/-! ### Runs -/

/-- **One call** that meets no short write and no descriptor 0. -/
theorem framed_step {link : Link} (h : Framed abi link) {op : Op abi} (ho : op.Orderly) :
    Framed abi (step abi link op).1 := by
  cases op with
  | open_ a => exact h.open ho
  | close => exact h.close
  | query call out count =>
    have := (h.nbdQuerySend ho).finish (nbdQueryReceive abi
      ((nbdQuerySend abi link call).2.stream call.arrivals) out count
      (nbdQuerySend abi link call).1).rest
    simp only [step, nbdQuery]
    split_ifs at this ⊢ <;> exact this
  | queryNew call new =>
    cases new with
    | none => exact h
    | some new =>
      have := (h.nbdQuerySend ho).finish (nbdQueryReceiveNew abi
        ((nbdQuerySend abi link call).2.stream call.arrivals) new
        (nbdQuerySend abi link call).1).rest
      simp only [step, nbdQueryNew]
      split_ifs at this ⊢ <;> exact this

theorem past_assign (link : Link) (conn : Option Conn) :
    link.past <:+ (link.assign conn).past := by
  rw [Link.assign]
  split
  · exact List.suffix_refl _
  · exact List.suffix_cons _ _

theorem past_close (link : Link) : link.past <:+ (nbdCloseLocked link).past := by
  rw [nbdCloseLocked]
  split
  · exact List.suffix_refl _
  · split_ifs
    · exact List.suffix_cons _ _
    · exact List.suffix_refl _

theorem past_reopen (attempts : List Attempt) (n : ℕ) (link : Link) :
    link.past <:+ (reopen link attempts n).past := by
  induction n generalizing link attempts with
  | zero => exact List.suffix_refl _
  | succ n ih =>
    rw [reopen]
    split_ifs
    · exact past_assign link _
    · exact (past_assign link _).trans (ih _ _)

theorem past_nbdQuerySend (abi : Abi) (link : Link) (call : Call) :
    link.past <:+ (nbdQuerySend abi link call).2.past := by
  obtain ⟨link', results, hlink, -, heq⟩ := nbdQuerySend_eq abi link call
  have h : link.past <:+ link'.past := by
    rcases hlink with rfl | rfl
    · exact List.suffix_refl _
    · exact (past_close link).trans (past_reopen _ _ _)
  rw [heq]
  obtain hw | ⟨c, len, -, -, hw | ⟨body, -, hw⟩⟩ := sendOn_spec abi link' (call.query abi) results
  all_goals
    rw [hw]
    exact h

/-- Whatever is called, a connection the link does not refer to any more is left as it is. -/
theorem past_step (link : Link) (op : Op abi) : link.past <:+ (step abi link op).1.past := by
  cases op with
  | open_ a =>
    simp only [step, nbdOpen]
    split_ifs
    · exact List.suffix_refl _
    · exact past_assign link _
  | close => exact past_close link
  | query call out count =>
    have := past_nbdQuerySend abi link call
    simp only [step, nbdQuery]
    split_ifs
    · exact this.trans (past_close _)
    · exact this
  | queryNew call new =>
    cases new with
    | none => exact List.suffix_refl _
    | some new =>
      have := past_nbdQuerySend abi link call
      simp only [step, nbdQueryNew]
      split_ifs
      · exact this.trans (past_close _)
      · exact this

/-- **Framing of the queries.**  In every run in which no write is short and no connection gets
descriptor 0, the daemon gets whole frames on the connection that is open, and on every other one
whole frames, or whole frames and one incomplete frame if libnbd closed the connection; and on those
it gets nothing more, whatever is called later. -/
theorem nbdQuery_sends_frames (ops : List (Op abi)) (h : ∀ op ∈ ops, op.Orderly) :
    let link := (run (step abi) .init ops).1
    (∀ c, link.conn = some c → WholeFrames abi c.sent) ∧
    (∀ p ∈ link.past, WholeFrames abi p.sent ∨ (p.closed = true ∧ CutFrames abi p.sent)) ∧
    ∀ more, link.past <:+ (run (step abi) link more).1.past := by
  have hinit : Framed abi .init := ⟨fun _ hc => (nomatch hc), fun _ hp => (nomatch hp)⟩
  have hrun : Framed abi (run (step abi) .init ops).1 :=
    run_inv_of_meets (step abi) (C := fun _ op => op.Orderly) (P := fun link _ => Framed abi link)
      (fun _ _ _ ho hf => framed_step hf ho) ops .init [] hinit
      (meets_of_forall (step abi) (fun op hop _ => h op hop) .init)
  refine ⟨fun c hc => (hrun.conn c hc).2, hrun.past, ?_⟩
  intro more
  exact run_inv (step abi) (P := fun link' _ => (run (step abi) .init ops).1.past <:+ link'.past)
    (List.suffix_refl _) (fun link' _ op hs => hs.trans (past_step link' op)) more

/-- A query of a plugin without arguments and without a buffer for the answer. -/
def plainQuery (writes : List WriteResult) (arrivals : List ByteStream.Arrival) : Op .mips :=
  .query ⟨plainArgs, fun _ => 0, writes, [], arrivals⟩
    ⟨fun _ => 0, 0, true, fun _ => rfl⟩ 0

/-- A run with a query that is answered, a write that fails and a connection that is opened
again. -/
theorem nbdQuery_sends_frames_reopened :
    let link := (run (step .mips) .init [.open_ ⟨some 3, true, [.data 6 []]⟩,
      plainQuery [.intr, .all, .all] [.data 0 [0, 0, 0, 0, 0, 0, 0]], plainQuery [.all, .fail] [],
      .open_ ⟨some 3, true, [.data 6 []]⟩,
      plainQuery [.all, .all] [.data 0 [0, 0, 0, 0, 0, 0, 0]]]).1
    link.past.map (fun p => (p.closed, p.sent.length)) = [(true, 63)] ∧ link.fd = 3 ∧
      ∀ c, link.conn = some c → WholeFrames .mips c.sent := by
  refine ⟨by decide, by decide, (nbdQuery_sends_frames _ ?_).1⟩
  simp [plainQuery, Op.Orderly, Call.Orderly]

/-- The write of a length takes two bytes of four.  The call takes this for a success, sends the
query and gets the answer the daemon gives to a frame of length 0, and the next call writes on to
the same connection. -/
theorem nbdQuery_goes_on_after_short_write :
    let link := (run (step .mips) .init [.open_ ⟨some 3, true, [.data 6 []]⟩,
      plainQuery [.short 2, .all] [.data 255 [255, 255, 255, 0, 0, 0, 0]],
      plainQuery [.all, .all] []]).1
    link.past = [] ∧ link.fd = 3 ∧ ∀ c, link.conn = some c → ¬ WholeFrames .mips c.sent := by
  intro link
  refine ⟨by decide, by decide, ?_⟩
  intro c hc hwhole
  have hsent : link.conn.map (fun c => (c.sent.length, c.sent.take 8))
      = some (116, [0, 0, 0, 0, 0, 1, 0, 0]) := by decide
  rw [hc] at hsent
  obtain ⟨hlen, hbytes⟩ := Prod.mk.inj (Option.some.inj hsent)
  obtain ⟨tail, hsplit⟩ : ∃ tail, c.sent = [0, 0, 0, 0, 0, 1, 0, 0] ++ tail :=
    ⟨c.sent.drop 8, by rw [← hbytes, List.take_append_drop]⟩
  rw [hsplit] at hwhole hlen
  -- an empty frame, and then a frame of 65536 bytes
  have hsecond : WholeFrames .mips ([0, 1, 0, 0] ++ tail) :=
    (hwhole.next (n := 0) (by simp) (by rfl)).2
  have hlong : 4 + 65536 ≤ ([0, 1, 0, 0] ++ tail).length :=
    (hsecond.next (n := 65536) (by simp) (by rfl)).1
  rw [List.length_append] at hlen hlong
  simp only [List.length_cons, List.length_nil] at hlen hlong
  omega

end Neufbox.Libnbd
