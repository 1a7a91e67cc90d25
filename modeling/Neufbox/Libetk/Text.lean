import Neufbox.Lib.CStrings
import Neufbox.Libnbd.Query

/-!
# Texts to bytes, and texts for URLs

Model of `pack` (`pack.c`) and `http_encode` (`http.c`).  `pack` walks over the memory `s`, and how
far it has read is kept in `top`; `http_encode` walks over a buffer, and how far it has written is
kept in `top`.  `size_t` has `w` bits.
-/

namespace Neufbox.Libetk

open Memory CStrings Libnbd

/-! ### `pack.c` -/

/-- `hex` -/
def hex (c : UInt8) : UInt8 :=
  -- convert to lower
  let c := c ||| 0x20
  if 0x30 ≤ c ∧ c ≤ 0x39 then c - 0x30
  else if 0x61 ≤ c ∧ c ≤ 0x66 then c - 0x61 + 10
  else 0xff

/-- The loop of `pack`, at character `i` with room for `len` bytes: the bytes it stores, and the
first character that it has not read.  The condition looks at the character before it looks at
`len`. -/
def packLoop (s : ℕ → UInt8) (i : ℕ) : ℕ → List UInt8 × ℕ
  | 0 => ([], i + 1)
  | len + 1 =>
    if s i ≠ 0 then
      let (pck, top) := packLoop s (i + 2) len
      (((hex (s i) <<< 4) ||| hex (s (i + 1))) :: pck, top)
    else ([], i + 1)

/-- `pack`: the `len` bytes at `pck`, and the first character that was not read. -/
def pack (s : ℕ → UInt8) (len : ℕ) : List UInt8 × ℕ :=
  let (pck, top) := packLoop s 0 len
  (pck ++ List.replicate (len - pck.length) 0, top)

/-! ### `http.c` -/

/-- The local variables of `http_encode`. -/
structure Encoding (w : ℕ) where
  buf : ℕ → UInt8
  /-- As an offset from `buf`. -/
  to_ : ℕ
  len : BitVec w
  /-- No byte was stored at this offset or behind it. -/
  top : ℕ

variable {w : ℕ}

def space : UInt8 := 0x20

/-- `"%20"` -/
def escapedSpace : List UInt8 := ascii ['%', '2', '0']

/-- The body of the loop. -/
def httpEncodeChar (e : Encoding w) (c : UInt8) : Encoding w :=
  if c = space then
    -- `snprintf` returns 3, whatever there was room for
    { buf := snprintf e.buf e.to_ e.len.toNat escapedSpace
      to_ := e.to_ + 3
      len := e.len - 3
      top := max e.top (e.to_ + min e.len.toNat 4) }
  else
    { buf := Function.update e.buf e.to_ c
      to_ := e.to_ + 1
      len := e.len - 1
      top := max e.top (e.to_ + 1) }

/-- The loop of `http_encode`, which ends at the NUL or when nothing is left of `len`. -/
def httpEncodeLoop (e : Encoding w) : List UInt8 → Encoding w
  | [] => e
  | c :: from_ => if e.len ≠ 0 then httpEncodeLoop (httpEncodeChar e c) from_ else e

/-- What is behind the loop. -/
def httpEncodeEnd (e : Encoding w) : Encoding w :=
  let to_ := if e.len = 0 then e.to_ - 1 else e.to_
  { e with
    buf := Function.update e.buf to_ 0
    to_ := to_
    top := max e.top (to_ + 1) }

/-- `http_encode` -/
def httpEncode (from_ : CString) (buf : ℕ → UInt8) (len : BitVec w) : Encoding w :=
  httpEncodeEnd (httpEncodeLoop ⟨buf, 0, len, 0⟩ from_.bytes)

end Neufbox.Libetk
