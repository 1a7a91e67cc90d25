import Neufbox.Lib.Memory

/-!
# FIFOs

Model of `efixo-libetk`'s `fifo.c` and `fifo.h`.  The two counters `in` and `out` are `unsigned
int`: they run freely and wrap at `2^32`, and are masked when the buffer is accessed.

`buffer` is the memory from `fifo->buffer` on, of which the first `size` bytes belong to the fifo.
`from` is the memory of the caller, and what is copied to the caller is given as a list.
-/

namespace Neufbox.Libetk

open Memory

/-- `struct fifo` -/
structure Fifo where
  buffer : ℕ → UInt8
  size : BitVec 32
  /-- Data is added at offset `in_ % size`. -/
  in_ : BitVec 32
  /-- Data is extracted from offset `out % size`. -/
  out : BitVec 32

/-- `min`, on `unsigned int`. -/
def minUnsigned (x y : BitVec 32) : BitVec 32 := if x < y then x else y

/-- `fifo_reset` -/
def fifoReset (fifo : Fifo) : Fifo := { fifo with in_ := 0, out := 0 }

/-- `fifo_reset_out` -/
def fifoResetOut (fifo : Fifo) : Fifo := { fifo with out := fifo.in_ }

/-- `fifo_size` -/
def fifoSize (fifo : Fifo) : BitVec 32 := fifo.size

/-- `fifo_len` -/
def fifoLen (fifo : Fifo) : BitVec 32 := fifo.in_ - fifo.out

/-- `fifo_avail` -/
def fifoAvail (fifo : Fifo) : BitVec 32 := fifoSize fifo - fifoLen fifo

/-- `__fifo_add_out` -/
def fifoAddOut (fifo : Fifo) (off : BitVec 32) : Fifo := { fifo with out := fifo.out + off }

/-- `__fifo_add_in` -/
def fifoAddIn (fifo : Fifo) (off : BitVec 32) : Fifo := { fifo with in_ := fifo.in_ + off }

/-- `__fifo_off` -/
def fifoOff (fifo : Fifo) (off : BitVec 32) : BitVec 32 := off &&& (fifo.size - 1)

/-- `fifo_skip` -/
def fifoSkip (fifo : Fifo) (len : BitVec 32) : Fifo :=
  if len < fifoLen fifo then fifoAddOut fifo len else fifoResetOut fifo

/-- `__fifo_in_data` -/
def fifoInData (fifo : Fifo) (from_ : ℕ → UInt8) (len off : BitVec 32) : Fifo :=
  let off := fifoOff fifo (fifo.in_ + off)
  -- first from `in` to the end of the buffer, then the rest at its beginning
  let l := minUnsigned len (fifo.size - off)
  let buffer := write fifo.buffer off.toNat (read from_ 0 l.toNat)
  { fifo with buffer := write buffer 0 (read from_ l.toNat (len - l).toNat) }

/-- `__fifo_out_data`: the bytes it copies to the caller. -/
def fifoOutData (fifo : Fifo) (len off : BitVec 32) : List UInt8 :=
  let off := fifoOff fifo (fifo.out + off)
  let l := minUnsigned len (fifo.size - off)
  read fifo.buffer off.toNat l.toNat ++ read fifo.buffer 0 (len - l).toNat

/-- `fifo_in`: the value returned and the fifo. -/
def fifoIn (fifo : Fifo) (from_ : ℕ → UInt8) (len : BitVec 32) : BitVec 32 × Fifo :=
  let len := minUnsigned (fifoAvail fifo) len
  (len, fifoAddIn (fifoInData fifo from_ len 0) len)

/-- `fifo_out`: the value returned, the bytes copied to the caller and the fifo. -/
def fifoOut (fifo : Fifo) (len : BitVec 32) : BitVec 32 × List UInt8 × Fifo :=
  let len := minUnsigned (fifoLen fifo) len
  (len, fifoOutData fifo len 0, fifoAddOut fifo len)

/-- `fifo_out_peek`: the value returned, the bytes copied to the caller and the fifo. -/
def fifoOutPeek (fifo : Fifo) (len offset : BitVec 32) : BitVec 32 × List UInt8 × Fifo :=
  let len := minUnsigned (fifoLen fifo) (len + offset)
  (len, fifoOutData fifo len offset, fifo)

/-- A call on a fifo. -/
inductive Op where
  | in_ (from_ : ℕ → UInt8) (len : BitVec 32)
  | out (len : BitVec 32)
  | skip (len : BitVec 32)
  | reset

/-- What a call gives to its caller. -/
inductive Ret where
  | in_ (ret : ℕ)
  | out (ret : ℕ) (bytes : List UInt8)
  deriving DecidableEq

def step (fifo : Fifo) : Op → Fifo × List Ret
  | .in_ from_ len =>
    let (ret, fifo) := fifoIn fifo from_ len
    (fifo, [.in_ ret.toNat])
  | .out len =>
    let (ret, bytes, fifo) := fifoOut fifo len
    (fifo, [.out ret.toNat bytes])
  | .skip len => (fifoSkip fifo len, [])
  | .reset => (fifoReset fifo, [])

end Neufbox.Libetk
