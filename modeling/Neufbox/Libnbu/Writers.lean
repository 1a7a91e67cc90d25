import Neufbox.Lib.Overlay
import Neufbox.Libnbu.Buffer

/-!
# libnbu: writing strings to the memory

Model of `nbu_string_copy`, `nbu_string_vprintf` and `nbu_string_printf` on the memory, with the
addresses that are written.  Pointers, `size_t` and `int` have 32 bits, so that an index of `-1` and
one of `SIZE_MAX` are both the byte in front of the buffer.

A format is given by the text that it makes of its arguments, `NULL` by `none`.
-/

namespace Neufbox.Libnbu

variable {m : BitVec 32 → UInt8}

/-- The address of the byte with the index. -/
def cell (p : BitVec 32) (i : ℕ) : BitVec 32 := p + BitVec.ofNat 32 i

/-- `sizeof str[0]` -/
def sizeofChar : BitVec 32 := 1

/-- `strncpy`: at the NUL of the source its pointer stays, and the rest is filled with NULs. -/
def strncpy : Overlay m → BitVec 32 → BitVec 32 → ℕ → Overlay m
  | s, _, _, 0 => s
  | s, dst, src, n + 1 =>
    let c := s.mem src
    strncpy (s.store dst c) (dst + 1) (if c ≠ 0 then src + 1 else src) n

/-- `vsnprintf`, for the text that the format gives. -/
def vsnprintf (s : Overlay m) (str size : BitVec 32) (text : List UInt8) : Int × Overlay m :=
  (vsnprintfRet text.length,
    if size = 0 then s else s.storeList (cell str) (text.take (size.toNat - 1) ++ [0]))

variable (m)

/-- `nbu_string_copy` -/
def nbuStringCopyAt (str size src : BitVec 32) : NbuRet × Overlay m :=
  let s := Overlay.start m
  if src = 0 ∨ str = 0 ∨ size.toInt < 0 ∨ sizeofChar = 0 then (.error, s)
  else
    let len := size / sizeofChar
    let s := s.store (str + (len - 1)) 0
    let s := strncpy s str src len.toNat
    if s.mem (str + (len - 1)) ≠ 0 then (.error, s.store (str + (len - 1)) 0)
    else (.success, s)

variable {Args : Type*}

/-- `nbu_string_vprintf` -/
def nbuStringVprintfAt (str size : BitVec 32) (fmt : Option (Args → List UInt8)) (args : Args) :
    NbuRet × Overlay m :=
  let s := Overlay.start m
  match fmt with
  | none => (.error, s)
  | some fmt =>
    if str = 0 ∨ size.toInt < 0 then (.error, s)
    else
      let s := s.store (str + (size - 1)) 0
      let (ret, s) := vsnprintf s str size (fmt args)
      if ret < 0 then (.error, s)
      else if s.mem (str + (size - 1)) ≠ 0 ∨ size.toInt - 1 < ret then
        (.error, s.store (str + (size - 1)) 0)
      else (.success, s)

/-- `nbu_string_printf` -/
def nbuStringPrintfAt (str size : BitVec 32) (fmt : Option (Args → List UInt8)) (args : Args) :
    NbuRet × Overlay m :=
  if str = 0 ∨ size.toInt < 0 then (.error, Overlay.start m)
  else nbuStringVprintfAt m str size fmt args

end Neufbox.Libnbu
