import Neufbox.Libnbd.Core

/-!
# How libnbd sends a query

`nbd_query_send` writes a frame, the length of the query and then the query, on the connection of
the link; when the first write meets `EPIPE` it does so on a new connection instead.
`nbdQuerySend_eq` takes the reconnection apart from the writing (`sendOn`), and `sendOn_spec` says
what the daemon gets from the writing.
-/

namespace Neufbox.Libnbd

open ByteStream

theorem neg_one_toInt : ¬ 0 ≤ (-1 : BitVec 32).toInt := by decide

/-- A frame: the length of a query and the query. -/
def Abi.frame (abi : Abi) (query : List UInt8) : List UInt8 :=
  abi.endian.encode abi.wordBytes query.length ++ query

/-- The query a call sends. -/
def Call.query (abi : Abi) (call : Call) : List UInt8 :=
  (buildQuery abi call.stack call.args).bytes

/-- The two writes of a frame, given up at the first error. -/
def sendOn (abi : Abi) (link : Link) (query : List UInt8) (results : List WriteResult) :
    BitVec 32 × Link :=
  match link.write (abi.endian.encode abi.wordBytes query.length) results with
  | (.ok _, link, results) => sendBody link query results
  | (.error _, link, _) => (-1, link)

/-- What a `write` takes of `buf`: all of it, unless it is short. -/
def Taken (buf : List UInt8) (results : List WriteResult) (taken : List UInt8) : Prop :=
  taken = buf ∨ ∃ n, .short n ∈ results ∧ taken = buf.take n

theorem Taken.mono {buf taken : List UInt8} {results results' : List WriteResult}
    (h : Taken buf results taken) (hsub : results ⊆ results') : Taken buf results' taken :=
  h.imp_right fun ⟨n, hn, heq⟩ => ⟨n, hsub hn, heq⟩

theorem safeWrite_subset (buf : List UInt8) (results : List WriteResult) :
    (safeWrite buf results).2 ⊆ results := by
  induction results with
  | nil => exact List.Subset.refl _
  | cons r results ih =>
    cases r with
    | intr => exact List.subset_cons_of_subset _ ih
    | all | short | epipe | fail => exact List.subset_cons_self _ _

theorem taken_of_safeWrite {buf taken : List UInt8} {results : List WriteResult}
    (h : (safeWrite buf results).1 = .ok taken) : Taken buf results taken := by
  induction results with
  | nil => exact nomatch h
  | cons r results ih =>
    cases r with
    | intr => exact (ih h).mono (List.subset_cons_self _ _)
    | all => exact .inl (Except.ok.inj h).symm
    | short n => exact .inr ⟨n, List.mem_cons_self, (Except.ok.inj h).symm⟩
    | epipe | fail => exact nomatch h

/-- The connection after the daemon received `bytes` more. -/
def Conn.receives (c : Conn) (bytes : List UInt8) : Conn := { c with sent := c.sent ++ bytes }

@[simp] theorem Conn.receives_receives (c : Conn) (xs ys : List UInt8) :
    (c.receives xs).receives ys = c.receives (xs ++ ys) := by
  simp [Conn.receives]

/-- What a write on the link does. -/
theorem Link.write_cases (link : Link) (buf : List UInt8) (results : List WriteResult) :
    (∃ e results', results' ⊆ results ∧ link.write buf results = (.error e, link, results')) ∨
    ∃ c taken results', link.conn = some c ∧ results' ⊆ results ∧ Taken buf results taken ∧
      link.write buf results
        = (.ok taken.length, { link with conn := some (c.receives taken) }, results') := by
  rcases hconn : link.conn with - | c
  · exact .inl ⟨.other, results, List.Subset.refl _, by rw [Link.write, hconn]⟩
  · have hsub := safeWrite_subset buf results
    rcases hw : safeWrite buf results with ⟨e | taken, results'⟩
    · rw [hw] at hsub
      exact .inl ⟨e, results', hsub, by simp only [Link.write, hconn, hw]⟩
    · rw [hw] at hsub
      have htaken : Taken buf results taken := taken_of_safeWrite (by rw [hw])
      exact .inr ⟨c, taken, results', rfl, hsub, htaken,
        by simp only [Link.write, hconn, hw, Conn.receives]⟩

theorem length_query (abi : Abi) (call : Call) :
    (call.query abi).length = (buildQuery abi call.stack call.args).len.toNat :=
  Memory.length_read ..

theorem Link.write_of_fd_neg {link : Link} (h : link.fd < 0) (buf : List UInt8)
    (results : List WriteResult) : link.write buf results = (.error .other, link, results) := by
  rcases hconn : link.conn with - | c
  · rw [Link.write, hconn]
  · rw [Link.fd, hconn] at h
    exact absurd h (by simp)

/-- **Reconnection**: a query is sent on the connection there is or on a new one. -/
theorem nbdQuerySend_eq (abi : Abi) (link : Link) (call : Call) :
    ∃ link' results, (link' = link ∨ link' = reopen (nbdCloseLocked link) call.attempts 60) ∧
      results ⊆ call.writes ∧
      nbdQuerySend abi link call = sendOn abi link' (call.query abi) results := by
  rw [nbdQuerySend, ← length_query]
  rcases link.write_cases (abi.endian.encode abi.wordBytes (call.query abi).length) call.writes with
    ⟨e, results, hsub, hw⟩ | ⟨c, len, results, -, -, -, hw⟩
  · cases e with
    | other => exact ⟨link, call.writes, .inl rfl, List.Subset.refl _, by simp only [sendOn, hw]⟩
    | epipe =>
      refine ⟨reopen (nbdCloseLocked link) call.attempts 60, results, .inr rfl, hsub, ?_⟩
      simp only [hw, sendOn]
      split_ifs with hfd
      · rw [Link.write_of_fd_neg hfd]
      · rfl
  · refine ⟨link, call.writes, .inl rfl, List.Subset.refl _, ?_⟩
    rw [sendOn, hw]
    rfl

/-- **What the daemon gets**: nothing, part of a frame or a frame; a frame when the call goes on. -/
theorem sendOn_spec (abi : Abi) (link : Link) (query : List UInt8) (results : List WriteResult) :
    sendOn abi link query results = (-1, link) ∨
    ∃ c len, link.conn = some c ∧ Taken (abi.endian.encode abi.wordBytes query.length) results len ∧
      (sendOn abi link query results = (-1, { link with conn := some (c.receives len) }) ∨
        ∃ body, Taken query results body ∧ sendOn abi link query results
          = (.ofNat 32 body.length, { link with conn := some (c.receives (len ++ body)) })) := by
  rcases link.write_cases (abi.endian.encode abi.wordBytes query.length) results with
    ⟨e, results', -, hw⟩ | ⟨c, len, results', hc, hsub, hlen, hw⟩
  · exact .inl (by rw [sendOn, hw])
  · refine .inr ⟨c, len, hc, hlen, ?_⟩
    rw [sendOn, hw]
    dsimp only [sendBody]
    rcases Link.write_cases { link with conn := some (c.receives len) } query results' with
      ⟨e, results'', -, hw'⟩ | ⟨c', body, results'', hc', -, hbody, hw'⟩
    · exact .inl (by rw [hw'])
    · obtain rfl : c.receives len = c' := Option.some.inj hc'
      refine .inr ⟨body, hbody.mono hsub, ?_⟩
      rw [hw', Conn.receives_receives]

end Neufbox.Libnbd
