import Neufbox.Libewf.Controller
import Neufbox.Libnbd.Query
import Mathlib.Logic.Function.Basic

/-!
# What libewf makes of a request

Model of `ewf_utils_check_referer` (`ewf_utils.c`), of `ewf_dispatcher_getpage`
(`core/ewf_dispatcher.c`), of `ewf_secure_escape_input` (`core/ewf_secure.c`) and of
`ewf_hdf_copy_cgi_query_tree` (`ewf_hdf.c`), which passes each value of a request through it.
-/

namespace Neufbox.Libewf

open Libnbu Libnbd

/-! ### The referer -/

/-- The characters that the loop over the referer goes on at. -/
def inWord (c : Char) : Bool :=
  ! (c < '0' || ('9' < c && c < '_') || ('_' < c && c < 'a') || 'z' < c)

/-- `ewf_utils_check_referer`, for the values of `CGI.ServerName` and `HTTP.Referer`: whether it
returns `EWF_SUCCESS`. -/
def ewfUtilsCheckReferer (serverName referer : String) : Bool :=
  let buf := nbuStringPrintf (64 + 1) ("http://" ++ serverName ++ "/")
  let stripped := referer.toList.takeWhile inWord
  -- `strncmp(buf, value, value_strip-value) == 0`
  nbuStringNcompare buf stripped.length referer

/-! ### The page -/

def uriPageIndex : String := "/index"

variable {H : Type}

/-- `pgname` in `ewf_dispatcher_getpage`, when the page is looked up. -/
def pgname (uri : String) : String :=
  let copy :=
    if uri = "" ∨ uri = "/" then nbuStringCopy 128 uriPageIndex else nbuStringCopy 128 uri
  -- remove query string after `?`
  String.ofList (copy.toList.takeWhile (· ≠ '?'))

/-- `ewf_dispatcher_getpage`; the table of pages finds a page by its name. -/
def ewfDispatcherGetpage (pages : List (Page H)) (uri : Option String) : Option (Page H) := do
  let uri ← uri
  pages.find? fun page => page.name = pgname uri

/-! ### The values -/

/-- A `char` as an `int`, where `char` is signed or where it is not. -/
def charToInt (signed : Bool) (c : UInt8) : Int :=
  if signed = true ∧ 128 ≤ c.toNat then (c.toNat : Int) - 256 else c.toNat

/-- `forbidden_ascii_chars`: the three quotation marks. -/
def forbiddenAsciiChars : List UInt8 := [0x22, 0x27, 0x60]

/-- `censure_char`: a blank. -/
def censureChar : UInt8 := 0x20

/-- What is stored for a character. -/
def escapeChar (signed : Bool) (c : UInt8) : UInt8 :=
  if charToInt signed c < 0x20 ∨ charToInt signed c > 0x7e then censureChar
  else if c ∈ forbiddenAsciiChars then censureChar
  else c

/-- The loop of `ewf_secure_escape_input` from `i_val` on, and what follows it. -/
def escapeLoop (signed : Bool) (bufSize : BitVec 32) :
    List UInt8 → ℕ → (ℕ → UInt8) → Bool × (ℕ → UInt8)
  | [], i, buf => (true, Function.update buf i 0)
  | c :: val, i, buf =>
    if i < (bufSize - 1).toNat then
      escapeLoop signed bufSize val (i + 1) (Function.update buf i (escapeChar signed c))
    else (false, Function.update buf i 0)

/-- `ewf_secure_escape_input`: whether it returns `EWF_SUCCESS`, and the memory from `buf` on. -/
def ewfSecureEscapeInput (signed : Bool) (val : CString) (buf : ℕ → UInt8) (bufSize : BitVec 32) :
    Bool × (ℕ → UInt8) :=
  escapeLoop signed bufSize val.bytes 0 buf

end Neufbox.Libewf
