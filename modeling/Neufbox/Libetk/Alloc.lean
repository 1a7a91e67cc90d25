import Neufbox.Libetk.Fifo

/-!
# Allocating a FIFO

Model of `fifo_init` and `fifo_alloc` (`fifo.c`) and of the functions of `math.h` they use.  Those
are on `unsigned long`, of `w` bits: 32 on the box.  `none` stands for a value C does not define:
`__builtin_clz(0)`, and a shift by the width or more.
-/

namespace Neufbox.Libetk

/-- `is_power_of_2` -/
def isPowerOf2 {w : ℕ} (n : BitVec w) : Bool := n ≠ 0 ∧ n &&& (n - 1) = 0

/-- `__builtin_clz` -/
def builtinClz (x : BitVec 32) : Option ℕ := if x = 0 then none else some x.clz.toNat

/-- `1UL << shift` -/
def oneShl (w shift : ℕ) : Option (BitVec w) :=
  if shift < w then some ((1 : BitVec w) <<< shift) else none

/-- `roundup_pow_of_two`.  The argument of `__builtin_clz` is an `unsigned int`. -/
def roundupPowOfTwo {w : ℕ} (n : BitVec w) : Option (BitVec w) := do
  let zeros ← builtinClz ((n - 1).setWidth 32)
  oneShl w (zeros + 1)

/-- `_fifo_init` -/
def fifoInitBuffer (buffer : ℕ → UInt8) (size : BitVec 32) : Fifo :=
  fifoReset { buffer := buffer, size := size, in_ := 0, out := 0 }

/-- `fifo_init`: a size that is no power of two leaves the fifo as it was. -/
def fifoInit (w : ℕ) (fifo : Fifo) (buffer : ℕ → UInt8) (size : BitVec 32) : Fifo :=
  if isPowerOf2 (size.setWidth w) then fifoInitBuffer buffer size else fifo

/-- The size that `fifo_alloc` allocates. -/
def allocSize (w : ℕ) (size : BitVec 32) : Option (BitVec 32) :=
  if isPowerOf2 (size.setWidth w) then some size
  else (roundupPowOfTwo (size.setWidth w)).map (·.setWidth 32)

/-- `fifo_alloc`, where `malloc` gives the memory of a block: the fifo, or `none` if there is no
memory (`-1`, and a fifo without a buffer). -/
def fifoAlloc (w : ℕ) (malloc : BitVec 32 → Option (ℕ → UInt8)) (size : BitVec 32) :
    Option (Option Fifo) := do
  let size ← allocSize w size
  return (malloc size).map fun buffer => fifoInitBuffer buffer size

end Neufbox.Libetk
