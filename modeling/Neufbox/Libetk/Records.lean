import Neufbox.Libetk.Fifo

/-!
# Records in a FIFO

Model of the record functions of `fifo.h` and `fifo.c`.  A record is put behind a field of `recsize`
bytes with its length.  Where `recsize` is no constant for the compiler, the functions call their
`generic` versions, which do the same, except that `__fifo_peek_generic` has an answer of its own
for a field of no bytes.
-/

namespace Neufbox.Libetk

/-- `__fifo_peek_n` -/
def fifoPeekN (fifo : Fifo) (recsize : BitVec 32) : BitVec 32 :=
  -- `__FIFO_GET`
  let get (off : BitVec 32) (shift : ℕ) : BitVec 32 :=
    BitVec.ofNat 32 (fifo.buffer (fifoOff fifo (fifo.out + off)).toNat).toNat <<< shift
  let l := get 0 0
  if recsize - 1 ≠ 0 then l ||| get 1 8 else l

/-- `__fifo_poke_n` -/
def fifoPokeN (fifo : Fifo) (recsize n : BitVec 32) : Fifo :=
  -- `__FIFO_PUT`
  let put (fifo : Fifo) (off : BitVec 32) (shift : ℕ) : Fifo :=
    { fifo with
      buffer := Function.update fifo.buffer (fifoOff fifo (fifo.in_ + off)).toNat
        (UInt8.ofNat (n >>> shift).toNat) }
  let fifo := put fifo 0 0
  if recsize - 1 ≠ 0 then put fifo 1 8 else fifo

/-- `__fifo_in_n`: the value returned and the fifo. -/
def fifoInN (fifo : Fifo) (from_ : ℕ → UInt8) (len recsize : BitVec 32) : BitVec 32 × Fifo :=
  if fifoAvail fifo < len + recsize then (len + 1, fifo)
  else (0, fifoInData fifo from_ len recsize)

/-- `fifo_in_rec` -/
def fifoInRec (fifo : Fifo) (from_ : ℕ → UInt8) (n recsize : BitVec 32) : BitVec 32 × Fifo :=
  let (ret, fifo) := fifoInN fifo from_ n recsize
  if ret = 0 then
    let fifo := if recsize ≠ 0 then fifoPokeN fifo recsize n else fifo
    (ret, fifoAddIn fifo (n + recsize))
  else (ret, fifo)

/-- `__fifo_out_n`: the value returned, the bytes copied to the caller and the fifo. -/
def fifoOutN (fifo : Fifo) (len recsize : BitVec 32) : BitVec 32 × List UInt8 × Fifo :=
  if fifoLen fifo < len + recsize then (len, [], fifo)
  else (0, fifoOutData fifo len recsize, fifoAddOut fifo (len + recsize))

/-- `fifo_out_rec`: the value returned, the bytes copied to the caller, `*total` and the fifo. -/
def fifoOutRec (fifo : Fifo) (n recsize : BitVec 32) :
    BitVec 32 × List UInt8 × BitVec 32 × Fifo :=
  let l := if recsize = 0 then n else fifoPeekN fifo recsize
  if recsize ≠ 0 ∧ n < l then (l, [], l, fifo)
  else
    let (ret, bytes, fifo) := fifoOutN fifo l recsize
    (ret, bytes, l, fifo)

/-- `__fifo_peek_generic` -/
def fifoPeekGeneric (fifo : Fifo) (recsize : BitVec 32) : BitVec 32 :=
  if recsize = 0 then fifoAvail fifo else fifoPeekN fifo recsize

/-- `fifo_peek_rec`; `constant` is `__builtin_constant_p(recsize)`. -/
def fifoPeekRec (fifo : Fifo) (recsize : BitVec 32) (constant : Bool) : BitVec 32 :=
  if !constant then fifoPeekGeneric fifo recsize
  else if recsize = 0 then fifoLen fifo
  else fifoPeekN fifo recsize

/-- `fifo_skip_rec` -/
def fifoSkipRec (fifo : Fifo) (recsize : BitVec 32) : Fifo :=
  let l := fifoPeekN fifo recsize
  if recsize ≠ 0 ∧ l + recsize ≤ fifoLen fifo then fifoAddOut fifo (l + recsize)
  else fifoResetOut fifo

/-- A call on a fifo of records. -/
inductive RecOp where
  | in_ (from_ : ℕ → UInt8) (n : BitVec 32)
  | out (n : BitVec 32)
  | peek (constant : Bool)
  | skip

/-- What a call gives to its caller. -/
inductive RecRet where
  | in_ (ret : ℕ)
  | out (ret : ℕ) (bytes : List UInt8) (total : ℕ)
  | peek (len : ℕ)
  deriving DecidableEq

def recStep (recsize : BitVec 32) (fifo : Fifo) : RecOp → Fifo × List RecRet
  | .in_ from_ n =>
    let (ret, fifo) := fifoInRec fifo from_ n recsize
    (fifo, [.in_ ret.toNat])
  | .out n =>
    let (ret, bytes, total, fifo) := fifoOutRec fifo n recsize
    (fifo, [.out ret.toNat bytes total.toNat])
  | .peek constant => (fifo, [.peek (fifoPeekRec fifo recsize constant).toNat])
  | .skip => (fifoSkipRec fifo recsize, [])

end Neufbox.Libetk
