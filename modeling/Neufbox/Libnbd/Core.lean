import Neufbox.Lib.Stream
import Neufbox.Libnbd.Query

/-!
# The libnbd link

Model of `lib/core.c`: the one connection a process has to the daemon (`nbd_link`), how it is
opened, closed and reopened, and how a query is sent and its answer received.

What the kernel and the daemon do is given with each call: the results of the `write` calls and of
the attempts to connect, in order, and what the `read` calls will find.  A list of reads ends where
the daemon closes the connection; a daemon that keeps the connection and stays silent blocks the
call, which then does not return.

A variable that `read` fills in only partly keeps the rest of its old bytes (`storeInt`,
`storeSize`).  The bytes the daemon gets on each connection are recorded in `sent`.  The mutex makes
`nbd_query` and `nbd_query_new` atomic; `syslog` and `sleep` are left out.
-/

namespace Neufbox.Libnbd

open Memory ByteStream

/-! ### The connection -/

/-- The connection `nbd_link.fd` refers to. -/
structure Conn where
  fd : ℕ
  /-- The bytes the daemon received on it. -/
  sent : List UInt8
  /-- What arrived and was not read yet. -/
  rx : List Arrival

/-- A connection the link does not refer to any more. -/
structure Past where
  closed : Bool
  sent : List UInt8
  deriving DecidableEq

/-- `nbd_link`, and the connections it had before, newest first. -/
structure Link where
  conn : Option Conn
  past : List Past

/-- The link of a process that has just started. -/
def Link.init : Link := ⟨none, []⟩

/-- `nbd_link.fd` -/
def Link.fd (link : Link) : Int :=
  match link.conn with
  | none => -1
  | some c => c.fd

/-- An assignment to `nbd_link.fd`.  A connection that is overwritten is not closed by it. -/
def Link.assign (link : Link) (conn : Option Conn) : Link :=
  match link.conn with
  | none => ⟨conn, link.past⟩
  | some c => ⟨conn, ⟨false, c.sent⟩ :: link.past⟩

/-- `__nbd_close` -/
def nbdCloseLocked (link : Link) : Link :=
  match link.conn with
  | none => link
  | some c => if c.fd > 0 then ⟨none, ⟨true, c.sent⟩ :: link.past⟩ else link

/-- What an attempt to connect meets: the descriptor `socket` returns, whether `connect` succeeds,
and what then arrives. -/
structure Attempt where
  socket : Option ℕ
  connect : Bool
  arrivals : List Arrival

def ack : UInt8 := 0x06

/-- `__nbd_open`: the new connection, or nothing where the source returns -1. -/
def nbdOpenLocked (a : Attempt) : Option Conn :=
  match a.socket with
  | none => none
  | some fd =>
    if a.connect then
      -- the daemon acknowledges the connection with one byte
      let r := safeRead 1 a.arrivals
      if r.failed = false ∧ r.bytes = [ack] then some ⟨fd, [], r.rest⟩ else none
    else none

/-- `nbd_open` -/
def nbdOpen (link : Link) (a : Attempt) : Link :=
  if link.fd > 0 then link else link.assign (nbdOpenLocked a)

/-- `nbd_close` -/
def nbdClose (link : Link) : Link := nbdCloseLocked link

/-! ### Writing -/

/-- The result of a `write` call. -/
inductive WriteResult where
  | all
  /-- Only the first `n` bytes were taken. -/
  | short (n : ℕ)
  | intr
  | epipe
  | fail
  deriving DecidableEq

inductive Errno where
  | epipe
  | other

/-- `safe_write`: the bytes taken, or the error, and the results left for later calls. -/
def safeWrite (buf : List UInt8) : List WriteResult → Except Errno (List UInt8) × List WriteResult
  | [] => (.error .other, [])
  | .intr :: results => safeWrite buf results
  | .epipe :: results => (.error .epipe, results)
  | .fail :: results => (.error .other, results)
  | .short n :: results => (.ok (buf.take n), results)
  | .all :: results => (.ok buf, results)

/-- `safe_write` on `nbd_link.fd`: the number of bytes taken.  A negative descriptor gives
`EBADF`. -/
def Link.write (link : Link) (buf : List UInt8) (results : List WriteResult) :
    Except Errno ℕ × Link × List WriteResult :=
  match link.conn with
  | none => (.error .other, link, results)
  | some c =>
    match safeWrite buf results with
    | (.error e, results) => (.error e, link, results)
    | (.ok taken, results) =>
      (.ok taken.length, { link with conn := some { c with sent := c.sent ++ taken } }, results)

/-! ### Queries -/

/-- A call of `nbd_query` or `nbd_query_new`: its arguments, the stack it finds, and what the
system calls it makes will meet. -/
structure Call where
  args : Args
  stack : ℕ → UInt8
  writes : List WriteResult
  attempts : List Attempt
  arrivals : List Arrival

/-- The loop that reopens the link, at most `n` times.  It stops at a positive descriptor. -/
def reopen (link : Link) (attempts : List Attempt) : ℕ → Link
  | 0 => link
  | n + 1 =>
    let link := link.assign (attempts.head?.bind nbdOpenLocked)
    if link.fd > 0 then link else reopen link attempts.tail n

/-- The last line of `nbd_query_send`. -/
def sendBody (link : Link) (buf : List UInt8) (results : List WriteResult) : BitVec 32 × Link :=
  match link.write buf results with
  | (.ok n, link, _) => (.ofNat 32 n, link)
  | (.error _, link, _) => (-1, link)

/-- `nbd_query_send` -/
def nbdQuerySend (abi : Abi) (link : Link) (call : Call) : BitVec 32 × Link :=
  let query := buildQuery abi call.stack call.args
  let len := abi.endian.encode abi.wordBytes query.len.toNat
  match link.write len call.writes with
  | (.ok _, link, results) => sendBody link query.bytes results
  | (.error .other, link, _) => (-1, link)
  | (.error .epipe, link, results) =>
    -- the daemon has gone: one attempt a second, for a minute
    let link := reopen (nbdCloseLocked link) call.attempts 60
    if link.fd < 0 then (-1, link)
    else
      match link.write len results with
      | (.ok _, link, results) => sendBody link query.bytes results
      | (.error _, link, _) => (-1, link)

/-- What the reads of a call will find on the link; there is nothing to read on a descriptor that
is not open. -/
def Link.stream (link : Link) (arrivals : List Arrival) : List Arrival :=
  match link.conn with
  | none => [.fail]
  | some c => c.rx ++ arrivals

def Link.setRx (link : Link) (rx : List Arrival) : Link :=
  { link with conn := link.conn.map fun c => { c with rx } }

/-- An `int` after the bytes `new` were read over it. -/
def Abi.storeInt (abi : Abi) (old : BitVec 32) (new : List UInt8) : BitVec 32 :=
  .ofNat 32 (abi.endian.decode (overlay (abi.endian.encode 4 old.toNat) new))

/-- A `size_t` after the bytes `new` were read over it. -/
def Abi.storeSize (abi : Abi) (old : abi.SizeT) (new : List UInt8) : abi.SizeT :=
  .ofNat _ (abi.endian.decode (overlay (abi.endian.encode abi.wordBytes old.toNat) new))

/-- The caller's buffer.  `nbd_set` passes no buffer, with length 0. -/
structure OutBuf (abi : Abi) where
  mem : ℕ → UInt8
  len : abi.SizeT
  isNull : Bool
  len_of_isNull : isNull → len = 0

/-- What `nbd_query_receive` leaves: its result, `*ret`, the caller's memory and the stream. -/
structure Answered where
  result : Int
  ret : BitVec 32
  mem : ℕ → UInt8
  rest : List Arrival

/-- `nbd_query_receive`, from the comparison of `count` with `len` on. -/
def receivePayload (abi : Abi) (s : List Arrival) (out : OutBuf abi) (count : abi.SizeT)
    (ret : BitVec 32) : Answered :=
  if count > out.len then
    -- an answer that is too long is read and dropped, unless it is longer than `query_buffer`
    ⟨-1, -1, out.mem, if count.toNat < 512 then (fullRead count.toNat s).rest else s⟩
  else if count = 0 then
    ⟨0, ret, if out.isNull then out.mem else write out.mem 0 [0], s⟩
  else
    let r := fullRead count.toNat s
    let mem := write (write out.mem 0 (.replicate out.len.toNat 0)) 0 r.bytes
    ⟨if r.failed then -1 else count.toInt, ret, mem, r.rest⟩

/-- `nbd_query_receive`.  `count` is the uninitialised local variable. -/
def nbdQueryReceive (abi : Abi) (s : List Arrival) (out : OutBuf abi) (count : abi.SizeT)
    (ret : BitVec 32) : Answered :=
  let r := fullRead 4 s
  let ret := abi.storeInt ret r.bytes
  -- only an error is looked at: at the end of the stream the call goes on with what it has
  if r.failed then ⟨-1, -1, out.mem, r.rest⟩
  else
    let r := fullRead abi.wordBytes r.rest
    let count := abi.storeSize count r.bytes
    if r.failed then ⟨-1, -1, out.mem, r.rest⟩
    else receivePayload abi r.rest out count ret

/-- What the caller of `nbd_query_new` passes and the allocator does: `*out` and `*outlen` before,
whether `malloc` succeeds and what the block it returns holds. -/
structure NewBuf (abi : Abi) where
  out : Option (ℕ → UInt8)
  outlen : abi.SizeT
  malloc : Bool
  heap : ℕ → UInt8

/-- What `nbd_query_receive_new` leaves: its result, `*ret`, `*buf`, `*size` and the stream. -/
structure AnsweredNew (abi : Abi) where
  result : Int
  ret : BitVec 32
  buf : Option (ℕ → UInt8)
  size : abi.SizeT
  rest : List Arrival

/-- `nbd_query_receive_new` -/
def nbdQueryReceiveNew (abi : Abi) (s : List Arrival) (new : NewBuf abi) (ret : BitVec 32) :
    AnsweredNew abi :=
  -- a single `read` for the value and another for the size; no error changes `*ret`
  let r := safeRead 4 s
  let ret := abi.storeInt ret r.bytes
  if r.failed then ⟨-1, ret, new.out, new.outlen, r.rest⟩
  else
    let r := safeRead abi.wordBytes r.rest
    let size := abi.storeSize new.outlen r.bytes
    if r.failed then ⟨-1, ret, new.out, size, r.rest⟩
    else if new.malloc = false then ⟨-1, ret, none, size, r.rest⟩
    else
      let r := fullRead size.toNat r.rest
      ⟨if r.failed then -1 else 0, ret, some (write new.heap 0 r.bytes), size, r.rest⟩

/-- `nbd_query`: the value it returns, the caller's memory and the link. -/
def nbdQuery (abi : Abi) (link : Link) (call : Call) (out : OutBuf abi) (count : abi.SizeT) :
    BitVec 32 × (ℕ → UInt8) × Link :=
  let (ret, link) := nbdQuerySend abi link call
  if ret.toInt < 0 then (ret, out.mem, nbdCloseLocked link)
  else
    let a := nbdQueryReceive abi (link.stream call.arrivals) out count ret
    (a.ret, a.mem, link.setRx a.rest)

/-- `nbd_query_new`: the value it returns, `*out`, `*outlen` and the link. -/
def nbdQueryNew (abi : Abi) (link : Link) (call : Call) (new : NewBuf abi) :
    BitVec 32 × Option (ℕ → UInt8) × abi.SizeT × Link :=
  let (ret, link) := nbdQuerySend abi link call
  if ret.toInt < 0 then (ret, new.out, new.outlen, nbdCloseLocked link)
  else
    let a := nbdQueryReceiveNew abi (link.stream call.arrivals) new ret
    (a.ret, a.buf, a.size, link.setRx a.rest)

/-! ### Runs -/

/-- A call of the library.  `nbd_query_new` without `out` returns before it does anything. -/
inductive Op (abi : Abi) where
  | open_ (a : Attempt)
  | close
  | query (call : Call) (out : OutBuf abi) (count : abi.SizeT)
  | queryNew (call : Call) (new : Option (NewBuf abi))

/-- One call: the link after it and the value it returns. -/
def step (abi : Abi) (link : Link) : Op abi → Link × List Int
  | .open_ a => (nbdOpen link a, [(nbdOpen link a).fd])
  | .close => (nbdClose link, [])
  | .query call out count =>
    let (ret, _, link) := nbdQuery abi link call out count
    (link, [ret.toInt])
  | .queryNew _ none => (link, [-1])
  | .queryNew call (some new) =>
    let (ret, _, _, link) := nbdQueryNew abi link call new
    (link, [ret.toInt])

end Neufbox.Libnbd
