import Mathlib.Algebra.Order.Group.Nat
import Neufbox.Lib.Memory

/-!
# The ring log driver

Model of `drivers/char/ring-logs.c`.  A ring keeps the end of a byte log in a buffer of `size`
bytes; `in_` and `out` are 64-bit file positions (`loff_t`), the position the next byte is written
to and the oldest position still held.  Lengths are `size_t`, 32 bits wide on the brcm63xx kernel
and 64 on the octeon one: the width is the parameter `w`, and all arithmetic wraps as it does in C.

`buffer` is the kernel memory from `ring->buffer` on.  Only its first `size` bytes belong to the
ring: an offset past them is memory of somebody else.  Reading is modelled by the list of offsets
the two `copy_to_user` calls copy from, so that it stays visible where each byte came from.

A device has one inode, whose size `i_size` the driver sets on writes, and any number of open
files, each with its own position.  `step` is one system call.  The mutex makes the calls atomic.
`struct device`, `struct cdev` and the file version play no part and are left out.
-/

namespace Neufbox.RingLogs

open Memory

/-- `struct ring_log`, with `w` the width of `size_t`. -/
structure RingLog (w : ℕ) where
  /-- Kernel memory, from `ring->buffer` on. -/
  buffer : ℕ → UInt8
  size : BitVec w
  /-- Data is added at offset `in_ % size`. -/
  in_ : BitVec 64
  /-- Data is extracted from offset `out % size`. -/
  out : BitVec 64

variable {w : ℕ}

/-- The kernel's `min`, on `size_t`. -/
def minSize (a b : BitVec w) : BitVec w := if a < b then a else b

/-- `__ring_log_len` -/
def ringLogLen (ring : RingLog w) : BitVec w := (ring.in_ - ring.out).setWidth w

/-- The position masked to an offset in the buffer, `pos & (ring->size - 1)`. -/
def ringLogCur (ring : RingLog w) (pos : BitVec 64) : BitVec 64 :=
  pos &&& (ring.size - 1).setWidth 64

/-- The first line of `__ring_log_get`: the length it cuts a read of `len` bytes at `pos` to. -/
def ringLogGetLen (ring : RingLog w) (len : BitVec w) (pos : BitVec 64) : BitVec w :=
  minSize len (ringLogLen ring - (pos - ring.out).setWidth w)

/-- `__ring_log_get`: the offsets into `ring->buffer` the read copies from, in order. -/
def ringLogGet (ring : RingLog w) (len : BitVec w) (pos : BitVec 64) : List ℕ :=
  let cur := ringLogCur ring pos
  let len := ringLogGetLen ring len pos
  let l := minSize len (ring.size - cur.setWidth w)
  -- first from `cur` to the end of the buffer, then the rest from its beginning
  (List.range l.toNat).map (fun i => cur.toNat + i) ++ List.range (len - l).toNat

/-- `__ring_log_put`: the length accepted and the ring after it; `buf` is user memory. -/
def ringLogPut (ring : RingLog w) (buf : ℕ → UInt8) (len : BitVec w) : BitVec w × RingLog w :=
  let cur := ringLogCur ring ring.in_
  let len := minSize len ring.size
  let l := minSize len (ring.size - cur.setWidth w)
  let buffer := write ring.buffer cur.toNat (read buf 0 l.toNat)
  let buffer := write buffer 0 (read buf l.toNat (len - l).toNat)
  let ring := { ring with buffer, in_ := ring.in_ + len.setWidth 64 }
  -- the oldest bytes are given up
  let ring := if ringLogLen ring > ring.size then
      { ring with out := ring.in_ - ring.size.setWidth 64 } else ring
  (len, ring)

/-! ### System calls -/

/-- The ring of a device, its inode's size, and the positions of the open files. -/
structure Dev (w : ℕ) where
  ring : RingLog w
  iSize : BitVec 64
  files : List (BitVec 64)

/-- `ring_log_open`: the ring after it and the position of the new file. -/
def ringLogOpen (ring : RingLog w) (trunc : Bool) : RingLog w × BitVec 64 :=
  let ring := if trunc then { ring with in_ := 0, out := 0 } else ring
  (ring, ring.out)

/-- `ring_log_read`: the bytes given to the user and the new file position. -/
def ringLogRead (ring : RingLog w) (count : BitVec w) (fPos : BitVec 64) :
    List UInt8 × BitVec 64 :=
  ((ringLogGet ring count fPos).map ring.buffer,
    fPos + (ringLogGetLen ring count fPos).setWidth 64)

/-- `ring_log_write`: the length accepted, the ring, the inode size and the new file position. -/
def ringLogWrite (ring : RingLog w) (buf : ℕ → UInt8) (count : BitVec w) (fPos : BitVec 64) :
    BitVec w × RingLog w × BitVec 64 × BitVec 64 :=
  let (ret, ring) := ringLogPut ring buf count
  (ret, ring, ring.in_, fPos + ret.setWidth 64)

/-- `ring_log_llseek`: the value returned and the new file position. -/
def ringLogLlseek (dev : Dev w) (fPos offset : BitVec 64) (origin : Int) : BitVec 64 × BitVec 64 :=
  let offset :=
    if origin = 2 then offset + dev.iSize
    else if origin = 1 then offset + fPos
    else if origin = 0 then offset + dev.ring.out
    else offset
  if 0 ≤ offset.toInt then (offset, offset) else (-22, fPos)

/-- A system call on the device.  `fd` is the index of the file in the order of the opens. -/
inductive Op (w : ℕ) where
  | open_ (trunc : Bool)
  | read (fd : ℕ) (count : BitVec w)
  | write (fd : ℕ) (buf : ℕ → UInt8) (count : BitVec w)
  | llseek (fd : ℕ) (offset : BitVec 64) (origin : Int)

/-- What the history of a device records: truncations and the bytes accepted by writes. -/
inductive Event where
  | truncated
  | accepted (bytes : List UInt8)

/-- One system call.  A call on a file that is not open does not reach the driver. -/
def step (dev : Dev w) : Op w → Dev w × List Event
  | .open_ trunc =>
    let (ring, fPos) := ringLogOpen dev.ring trunc
    ({ dev with ring, files := dev.files ++ [fPos] }, if trunc then [.truncated] else [])
  | .read fd count =>
    match dev.files[fd]? with
    | none => (dev, [])
    | some fPos => ({ dev with files := dev.files.set fd (ringLogRead dev.ring count fPos).2 }, [])
  | .write fd buf count =>
    match dev.files[fd]? with
    | none => (dev, [])
    | some fPos =>
      let (ret, ring, iSize, fPos) := ringLogWrite dev.ring buf count fPos
      ({ ring, iSize, files := dev.files.set fd fPos }, [.accepted (Memory.read buf 0 ret.toNat)])
  | .llseek fd offset origin =>
    match dev.files[fd]? with
    | none => (dev, [])
    | some fPos =>
      ({ dev with files := dev.files.set fd (ringLogLlseek dev fPos offset origin).2 }, [])

/-- The bytes accepted since the last truncation. -/
def logged (history : List Event) : List UInt8 :=
  history.foldl (fun log e => match e with
    | .truncated => []
    | .accepted bytes => log ++ bytes) []

@[simp] theorem logged_nil : logged [] = [] := rfl

@[simp] theorem logged_truncated (h : List Event) : logged (h ++ [.truncated]) = [] := by
  simp [logged]

@[simp] theorem logged_accepted (h : List Event) (bytes : List UInt8) :
    logged (h ++ [.accepted bytes]) = logged h ++ bytes := by
  simp [logged]

/-! ### Registration -/

/-- The kernels the driver is built for. -/
inductive Target where
  | brcm63xx
  | octeon
  deriving DecidableEq

/-- The width of `size_t`. -/
def Target.sizeBits : Target → ℕ
  | .brcm63xx => 32
  | .octeon => 64

/-- A ring that was set up: its size is a power of two that `kmalloc` could serve.  `kmalloc`
serves no request of half the address space or more (its limit is far lower), and
`ring_log_setup_cdev` adds no device when the allocation fails. -/
structure Geometry where
  target : Target
  order : ℕ
  order_lt : order + 1 < target.sizeBits

/-- The size of the ring, in bytes. -/
def Geometry.bytes (g : Geometry) : ℕ := 2 ^ g.order

/-- `ring_log_setup_cdev`, after a successful allocation; `kmalloc` does not clear the memory. -/
def Geometry.setup (g : Geometry) (memory : ℕ → UInt8) : Dev g.target.sizeBits where
  ring := { buffer := memory, size := BitVec.ofNat _ g.bytes, in_ := 0, out := 0 }
  iSize := 0
  files := []

end Neufbox.RingLogs
