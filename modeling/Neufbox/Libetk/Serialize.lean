import Mathlib.Algebra.Group.Nat.Defs
import Neufbox.Libetk.Alloc
import Neufbox.Libetk.Records

/-!
# Serialized FIFOs

Model of `fifo_free`, `fifo_serialize` and `fifo_unserialize` (`fifo.c`).  `size_t` and `unsigned
long` have `w` bits.  The memory that is seen from a `NULL` pointer on is arbitrary (`null`): a fifo
without a buffer has size 0 and none of it is its own.
-/

namespace Neufbox.Libetk

open Memory

/-- `fifo_free`, after the buffer was given back. -/
def fifoFree (null : ℕ → UInt8) (_fifo : Fifo) : Fifo := fifoInitBuffer null 0

/-- `struct fifo_serialized`, and what is behind it in the same block. -/
structure FifoSerialized where
  size : BitVec 32
  in_ : BitVec 32
  out : BitVec 32
  buffer : List UInt8
  deriving DecidableEq

/-- `sizeof(struct fifo_serialized)`: three times `unsigned int`. -/
def sizeofFifoSerialized : ℕ := 12

/-- `fifo_serialize`, where `malloc` says whether there is memory for a block: the value returned
and the block. -/
def fifoSerialize (w : ℕ) (malloc : BitVec w → Bool) (fifo : Fifo) :
    BitVec w × Option FifoSerialized :=
  let len := BitVec.ofNat w sizeofFifoSerialized + fifo.size.setWidth w
  if malloc len then
    (len, some {
      size := fifo.size
      in_ := fifo.in_
      out := fifo.out
      buffer := read fifo.buffer 0 fifo.size.toNat })
  else (0, none)

/-- `fifo_unserialize`: the fifo, or `none` if there is no memory (`-1`). -/
def fifoUnserialize (w : ℕ) (malloc : BitVec 32 → Option (ℕ → UInt8)) (ser : FifoSerialized) :
    Option (Option Fifo) := do
  let fifo ← fifoAlloc w malloc ser.size
  -- what `fifo_alloc` has set is overwritten, the size too
  return fifo.map fun fifo =>
    { buffer := write fifo.buffer 0 ser.buffer
      size := ser.size
      in_ := ser.in_
      out := ser.out }

/-- A call on a fifo: one of those on bytes, `fifo_out_peek`, one of those on records, or
`fifo_free`. -/
inductive Call where
  | op (op : Op)
  | peek (len offset : BitVec 32)
  | record (recsize : BitVec 32) (op : RecOp)
  | free (null : ℕ → UInt8)

/-- What a call gives to its caller. -/
inductive CallRet where
  | op (ret : Ret)
  | peek (ret : ℕ) (bytes : List UInt8)
  | record (ret : RecRet)
  deriving DecidableEq

def callStep (fifo : Fifo) : Call → Fifo × List CallRet
  | .op op =>
    let (fifo, rets) := step fifo op
    (fifo, rets.map .op)
  | .peek len offset =>
    let (ret, bytes, fifo) := fifoOutPeek fifo len offset
    (fifo, [.peek ret.toNat bytes])
  | .record recsize op =>
    let (fifo, rets) := recStep recsize fifo op
    (fifo, rets.map .record)
  | .free null => (fifoFree null fifo, [])

/-- The fifos that there are, with `fifo_alloc` of any size and `fifo_init` of a power of two. -/
inductive Reachable (w : ℕ) : Fifo → Prop
  | alloc {malloc : BitVec 32 → Option (ℕ → UInt8)} {size : BitVec 32} {fifo : Fifo} :
    fifoAlloc w malloc size = some (some fifo) → Reachable w fifo
  /-- `fifo_alloc` without memory leaves a fifo without a buffer. -/
  | noMemory (null : ℕ → UInt8) : Reachable w (fifoInitBuffer null 0)
  | init (fifo : Fifo) (buffer : ℕ → UInt8) {size : BitVec 32} {k : ℕ} :
    size.toNat = 2 ^ k → Reachable w (fifoInit w fifo buffer size)
  | op {fifo : Fifo} (op : Op) : Reachable w fifo → Reachable w (step fifo op).1
  | free {fifo : Fifo} (null : ℕ → UInt8) : Reachable w fifo → Reachable w (fifoFree null fifo)

/-- C defines what the call does.  The calls on records look at the field in front of a record, of
one or two bytes, without a check, so there has to be a buffer; and a new record must not wrap
together with its field. -/
def Call.Defined (fifo : Fifo) : Call → Prop
  | .record recsize recOp =>
    fifo.size ≠ 0 ∧ (recsize = 1 ∨ recsize = 2) ∧
      match recOp with
      | .in_ _ n => n.toNat + recsize.toNat < 2 ^ 32
      | _ => True
  | _ => True

end Neufbox.Libetk
