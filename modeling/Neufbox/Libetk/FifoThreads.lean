import Neufbox.Libetk.Fifo

/-!
# A writer and a reader of one FIFO

Two threads use a fifo without locks: one calls `fifo_in`, the other one `fifo_out` and `fifo_skip`.
The calls of `fifo.c` are taken apart into steps, each with one access to memory that the other
thread writes or reads.  A thread's place in the code is a `Writer` or a `Reader`, with the values
of its local variables.  The threads take steps in any order, and the bytes of a `memcpy` are copied
in any order: the number in `Action.writer` and `Action.reader` says which one is next.  Accesses
take effect in the order of the program, as they do on one processor.

`fifo->in` is written by the writer only and `fifo->out` by the reader only, so that a thread can
use its own counter without a step of its own.
-/

namespace Neufbox.Libetk

open Memory

/-- Where a thread is that calls `fifo_in`. -/
inductive Writer where
  | idle
  /-- before `fifo_avail` reads `fifo->out` -/
  | avail (from_ : ℕ → UInt8) (len : BitVec 32)
  /-- `__fifo_in_data`, with the bytes that are not stored yet; then `__fifo_add_in` -/
  | copy (from_ : ℕ → UInt8) (len off : BitVec 32) (todo : List ℕ)

/-- Where a thread is that calls `fifo_out` or `fifo_skip`. -/
inductive Reader where
  | idle
  /-- `fifo_out`, before `fifo_len` reads `fifo->in` -/
  | len (len : BitVec 32)
  /-- `__fifo_out_data`, with the bytes that are not loaded yet; then `__fifo_add_out` -/
  | copy (len off : BitVec 32) (todo : List ℕ) (to_ : ℕ → UInt8)
  /-- `fifo_skip`, before `fifo_len` reads `fifo->in` -/
  | skip (len : BitVec 32)
  /-- before `__fifo_add_out` -/
  | skipAdd (len : BitVec 32)
  /-- `fifo_reset_out`, before `fifo->in` is read -/
  | reset
  /-- before `fifo->out` is written -/
  | resetOut (in_ : BitVec 32)

structure Threads where
  fifo : Fifo
  writer : Writer
  reader : Reader

inductive Action where
  /-- the writer calls `fifo_in` -/
  | fifoIn (from_ : ℕ → UInt8) (len : BitVec 32)
  | writer (next : ℕ)
  /-- the reader calls `fifo_out` -/
  | fifoOut (len : BitVec 32)
  /-- the reader calls `fifo_skip` -/
  | fifoSkip (len : BitVec 32)
  | reader (next : ℕ)

/-- What is noted of the calls. -/
inductive CallEvent where
  /-- `fifo_in` finds out how many of `len` bytes it can take. -/
  | avail (len : ℕ)
  /-- It has taken these bytes, and returns. -/
  | in_ (bytes : List UInt8)
  /-- `fifo_out` or `fifo_skip` finds out how many of `len` bytes there are. -/
  | len (len : ℕ)
  /-- `fifo_out` has copied these bytes, and returns. -/
  | out (bytes : List UInt8)
  /-- `fifo_skip` has given up this many bytes, and returns. -/
  | skip (count : ℕ)
  deriving DecidableEq

/-- The offset in the buffer at which the two `memcpy` access byte `i`. -/
def copyOff (fifo : Fifo) (off len : BitVec 32) (i : ℕ) : ℕ :=
  let l := minUnsigned len (fifo.size - off)
  if i < l.toNat then off.toNat + i else i - l.toNat

/-- A step of `fifo_in`. -/
def writerStep (s : Threads) (next : ℕ) : Threads × List CallEvent :=
  match s.writer with
  | .idle => (s, [])
  | .avail from_ len =>
    let taken := minUnsigned (fifoAvail s.fifo) len
    let off := fifoOff s.fifo (s.fifo.in_ + 0)
    ({ s with writer := .copy from_ taken off (List.range taken.toNat) }, [.avail len.toNat])
  | .copy from_ len _ [] =>
    ({ s with fifo := fifoAddIn s.fifo len, writer := .idle }, [.in_ (read from_ 0 len.toNat)])
  | .copy from_ len off todo =>
    if next ∈ todo then
      let buffer := Function.update s.fifo.buffer (copyOff s.fifo off len next) (from_ next)
      ({ s with
          fifo := { s.fifo with buffer }
          writer := .copy from_ len off (todo.filter (· ≠ next)) }, [])
    else (s, [])

/-- A step of `fifo_out` or `fifo_skip`. -/
def readerStep (s : Threads) (next : ℕ) : Threads × List CallEvent :=
  match s.reader with
  | .idle => (s, [])
  | .len len =>
    let given := minUnsigned (fifoLen s.fifo) len
    let off := fifoOff s.fifo (s.fifo.out + 0)
    ({ s with reader := .copy given off (List.range given.toNat) fun _ => 0 }, [.len len.toNat])
  | .copy len _ [] to_ =>
    ({ s with fifo := fifoAddOut s.fifo len, reader := .idle }, [.out (read to_ 0 len.toNat)])
  | .copy len off todo to_ =>
    if next ∈ todo then
      let to_ := Function.update to_ next (s.fifo.buffer (copyOff s.fifo off len next))
      ({ s with reader := .copy len off (todo.filter (· ≠ next)) to_ }, [])
    else (s, [])
  | .skip len =>
    let reader := if len < fifoLen s.fifo then .skipAdd len else .reset
    ({ s with reader }, [.len len.toNat])
  | .skipAdd len => ({ s with fifo := fifoAddOut s.fifo len, reader := .idle }, [.skip len.toNat])
  | .reset => ({ s with reader := .resetOut s.fifo.in_ }, [])
  | .resetOut in_ =>
    ({ s with fifo := { s.fifo with out := in_ }, reader := .idle },
      [.skip (in_ - s.fifo.out).toNat])

/-- A step of one of the threads.  A thread that is in a call starts no other one. -/
def threadStep (s : Threads) : Action → Threads × List CallEvent
  | .fifoIn from_ len =>
    match s.writer with
    | .idle => ({ s with writer := .avail from_ len }, [])
    | _ => (s, [])
  | .writer next => writerStep s next
  | .fifoOut len =>
    match s.reader with
    | .idle => ({ s with reader := .len len }, [])
    | _ => (s, [])
  | .fifoSkip len =>
    match s.reader with
    | .idle => ({ s with reader := .skip len }, [])
    | _ => (s, [])
  | .reader next => readerStep s next

end Neufbox.Libetk
