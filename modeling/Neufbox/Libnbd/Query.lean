import Neufbox.Lib.Memory
import Neufbox.Lib.Bytes

/-!
# The libnbd query

Model of the encoder in `nbd_query_send` (`lib/core.c`).  A query is packed into a buffer of 512
bytes on the stack: the structure `query` (`argc`, twelve `argv` words, of which each holds an
offset) and behind it the argument strings.

`buf` is the stack memory from the buffer on, with whatever it held before.  A store past offset
511 is a store into somebody else's memory: `top` remembers how far the stores went.
-/

namespace Neufbox.Libnbd

open Memory

/-- The byte order of the target and the size of its `size_t`, `long` and pointers. -/
structure Abi where
  endian : Endian
  wordBytes : ℕ
  wordBytes_eq : wordBytes = 4 ∨ wordBytes = 8

/-- `size_t` -/
abbrev Abi.SizeT (abi : Abi) : Type := BitVec (8 * abi.wordBytes)

/-- The big-endian MIPS with 32-bit words the box is built on. -/
def Abi.mips : Abi := ⟨.big, 4, .inl rfl⟩

/-- `sizeof(struct query)`: `argc`, padded to a word, and twelve words. -/
def Abi.sizeofQuery (abi : Abi) : ℕ := 13 * abi.wordBytes

/-- The offset of `query->argv[i]`. -/
def Abi.argvOffset (abi : Abi) (i : ℕ) : ℕ := (1 + i) * abi.wordBytes

/-- A C string, without its terminating NUL. -/
@[ext] structure CString where
  bytes : List UInt8
  nul_free : 0 ∉ bytes
  deriving DecidableEq

/-- The arguments of a query: `plugin` and the others, at most twelve in all. -/
structure Args where
  plugin : CString
  rest : List CString
  length_le : rest.length ≤ 11

/-- The plugin `x` without arguments, for concrete calls. -/
def plainArgs : Args := ⟨⟨[120], by decide⟩, [], by decide⟩

def Args.toList (args : Args) : List CString := args.plugin :: args.rest

/-- The arguments of a call as the loop of `nbd_query_send` sees them: it ends at the first
`NULL`. -/
def untilNull : List (Option CString) → List CString
  | [] | none :: _ => []
  | some a :: argv => a :: untilNull argv

theorem length_untilNull_le (argv : List (Option CString)) :
    (untilNull argv).length ≤ argv.length := by
  induction argv with
  | nil => exact Nat.le_refl 0
  | cons a argv ih =>
    cases a with
    | none => exact Nat.zero_le _
    | some a => exact Nat.succ_le_succ ih

theorem mem_untilNull {a : CString} {argv : List (Option CString)} (h : a ∈ untilNull argv) :
    some a ∈ argv := by
  induction argv with
  | nil => exact nomatch h
  | cons b argv ih =>
    cases b with
    | none => exact nomatch h
    | some b =>
      rcases List.mem_cons.mp h with rfl | h
      · exact List.mem_cons_self
      · exact List.mem_cons_of_mem _ (ih h)

/-- Nothing is lost only if nothing is `NULL`. -/
theorem ne_none_of_length_untilNull {argv : List (Option CString)}
    (h : (untilNull argv).length = argv.length) : ∀ a ∈ argv, a ≠ none := by
  induction argv with
  | nil => exact List.forall_mem_nil _
  | cons b argv ih =>
    cases b with
    | none => exact nomatch h
    | some b => exact List.forall_mem_cons.mpr ⟨nofun, ih (Nat.succ.inj h)⟩

/-- `nbd_set(plugin, ...)` -/
def nbdSet (plugin : CString) (argv : List (Option CString)) (h : argv.length ≤ 11) : Args :=
  ⟨plugin, untilNull argv, (length_untilNull_le argv).trans h⟩

/-- The bytes `snprintf(s, n, "%s", str)` stores at `s`. -/
def snprintfStore (n : ℕ) (str : CString) : List UInt8 :=
  if n = 0 then [] else str.bytes.take (n - 1) ++ [0]

/-- What it returns: the untruncated length, or an error when that is no `int`. -/
def snprintfLen (str : CString) : Int :=
  if str.bytes.length < 2 ^ 31 then str.bytes.length else -1

/-- The local variables of the loop over the arguments. -/
structure Packing (abi : Abi) where
  buf : ℕ → UInt8
  argc : ℕ
  /-- `end`, as an offset from `buf`. -/
  end_ : ℕ
  len : abi.SizeT
  /-- No byte was stored at this offset or behind it. -/
  top : ℕ

/-- The body of the loop. -/
def packArg {abi : Abi} (p : Packing abi) (argv : CString) : Packing abi :=
  let stored := snprintfStore p.len.toNat argv
  let offset := (snprintfLen argv + 1).toNat
  let buf := write p.buf p.end_ stored
  let buf := write buf (abi.argvOffset p.argc)
    (abi.endian.encode abi.wordBytes (p.end_ - abi.sizeofQuery))
  let buf := write buf 0 (abi.endian.encode 4 (p.argc + 1))
  { buf, argc := p.argc + 1, end_ := p.end_ + offset, len := p.len - .ofNat _ offset,
    top := max p.top (p.end_ + stored.length) }

/-- The variables before the loop: the structure cleared and the string area empty. -/
def packStart (abi : Abi) (stack : ℕ → UInt8) : Packing abi :=
  let buf := write stack 0 (.replicate abi.sizeofQuery 0)
  { buf := write buf abi.sizeofQuery [0], argc := 0, end_ := abi.sizeofQuery,
    len := .ofNat _ (512 - abi.sizeofQuery - 1), top := abi.sizeofQuery + 1 }

/-- A finished query: the buffer and the number of bytes of it to send. -/
structure Query (abi : Abi) where
  buf : ℕ → UInt8
  len : abi.SizeT
  /-- No byte was stored at this offset or behind it. -/
  top : ℕ

/-- `nbd_query_send`, up to the writes. -/
def buildQuery (abi : Abi) (stack : ℕ → UInt8) (args : Args) : Query abi :=
  let p := args.toList.foldl packArg (packStart abi stack)
  -- the terminator lies behind the bytes that are sent
  let end_ := p.end_ + 1
  { buf := write p.buf end_ [0], len := .ofNat _ end_, top := max p.top (end_ + 1) }

/-- The bytes of a query, as they are written to the daemon. -/
def Query.bytes {abi : Abi} (query : Query abi) : List UInt8 := read query.buf 0 query.len.toNat

/-! ### The layout of the structure -/

section Layout

variable (abi : Abi)

theorem Abi.four_le_wordBytes : 4 ≤ abi.wordBytes := by
  rcases abi.wordBytes_eq with h | h <;> omega

theorem Abi.sizeofQuery_le : abi.sizeofQuery ≤ 104 := by
  unfold Abi.sizeofQuery
  rcases abi.wordBytes_eq with h | h <;> omega

theorem Abi.wordBytes_le_argvOffset (i : ℕ) : abi.wordBytes ≤ abi.argvOffset i :=
  Nat.le_mul_of_pos_left _ (by omega)

theorem Abi.argvOffset_add_le {i n : ℕ} (h : i < n) :
    abi.argvOffset i + abi.wordBytes ≤ abi.argvOffset n := by
  calc (1 + i) * abi.wordBytes + abi.wordBytes
      = (1 + i + 1) * abi.wordBytes := by rw [Nat.succ_mul]
    _ ≤ (1 + n) * abi.wordBytes := Nat.mul_le_mul_right _ (by omega)

theorem Abi.argvOffset_add_le_sizeofQuery {i : ℕ} (h : i < 12) :
    abi.argvOffset i + abi.wordBytes ≤ abi.sizeofQuery :=
  abi.argvOffset_add_le h

theorem Abi.lt_two_pow {n : ℕ} (h : n < 2 ^ 32) : n < 2 ^ (8 * abi.wordBytes) :=
  Nat.lt_of_lt_of_le h (Nat.pow_le_pow_right (by omega) (by have := abi.four_le_wordBytes; omega))

theorem Abi.pow_wordBytes : 256 ^ abi.wordBytes = 2 ^ (8 * abi.wordBytes) :=
  (Nat.pow_mul 2 8 abi.wordBytes).symm

end Layout

/-! ### Reading a query back

This is what the layout is for, not code of the library: the daemon is not part of the source. -/

/-- The NUL-terminated string at offset `a`. -/
def stringAt (bytes : List UInt8) (a : ℕ) : Option (List UInt8) :=
  if 0 ∈ bytes.drop a then some ((bytes.drop a).takeWhile (· ≠ 0)) else none

/-- Reads `argc` and, for each `i < argc`, the string at offset `argv[i]` of the string area. -/
def decodeQuery (abi : Abi) (bytes : List UInt8) : Option (List (List UInt8)) :=
  let argc := BitVec.ofNat 32 (abi.endian.decode (bytes.take 4))
  (List.range argc.toInt.toNat).mapM fun i =>
    let argv := abi.endian.decode ((bytes.drop (abi.argvOffset i)).take abi.wordBytes)
    stringAt bytes (abi.sizeofQuery + argv)

end Neufbox.Libnbd
