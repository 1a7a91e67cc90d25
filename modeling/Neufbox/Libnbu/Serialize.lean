import Mathlib.Algebra.Group.Int.Defs
import Neufbox.Libnbd.Query
import Neufbox.Libnbu.List

/-!
# Serialized lists

Model of `nbu_list_serialize` and `nbu_list_unserialize` (`src/list.c`).  A serialized list is the
structure `nbu_list_t`, with its pointers cleared, and for each item the size of its encoding, a
`size_t`, and the encoding.

The sizes of the buffer are `int`, although they are computed from `size_t` values: a conversion
keeps the low 32 bits, and an addition that leaves the range of `int` is undefined.  So are a copy
past the end of a block, and a read past the end of the buffer.  Which requests `malloc` and
`realloc` grant is an argument; a negative `int` becomes a `size_t` beyond `PTRDIFF_MAX`, and they
never grant that much.  `nbu_list_unserialize` does not look at what its allocations return.
-/

namespace Neufbox.Libnbu

open Memory
open Libnbd (Abi)

/-- What becomes of a call. -/
inductive Outcome (β : Type) where
  | undefined
  | error
  | done (result : β)

/-- The item functions that are given: none, and the items are blocks of `data_size` bytes, or a
function that encodes an item and one that decodes it, which may fail. -/
inductive ItemFuncs : Type → Type 1 where
  | none : ItemFuncs (List UInt8)
  | custom {α : Type} (serialize : α → Option (List UInt8))
      (unserialize : List UInt8 → Option α) : ItemFuncs α

variable {ι α : Type} [DecidableEq ι]

/-- The bytes that are stored for an item. -/
def ItemFuncs.encode {α : Type} : ItemFuncs α → ℕ → α → Option (List UInt8)
  | .none, dataSize, item => some (item.take dataSize)
  | .custom serialize _, _, item => serialize item

/-- The item that is made of the bytes; `allocated` is whether there is a block for them. -/
def ItemFuncs.decode {α : Type} (allocated : Bool) : ItemFuncs α → List UInt8 → Outcome α
  | .none, bytes => if allocated then .done bytes else .undefined
  | .custom _ unserialize, bytes =>
    match unserialize bytes with
    | .none => .error
    | some item => .done item

/-- `sizeof(nbu_list_t)`: seven words. -/
def sizeofList (abi : Abi) : ℕ := 7 * abi.wordBytes

/-- A `size_t` value converted to `int`. -/
def toInt (x : ℕ) : Int := (BitVec.ofNat 32 x).toInt

/-- The value is an `int`. -/
def IsInt (x : Int) : Prop := -(2 ^ 31) ≤ x ∧ x < 2 ^ 31

instance (x : Int) : Decidable (IsInt x) := inferInstanceAs (Decidable (_ ∧ _))

/-- Whether a block of that size is granted. -/
def grants (alloc : ℕ → Bool) (size : Int) : Bool := 0 ≤ size ∧ alloc size.toNat = true

/-- The local variables of `nbu_list_serialize`. -/
structure Serializing where
  bAlloc : Int
  bUsed : Int
  /-- `p - *buf` -/
  p : ℕ
  /-- The memory from `*buf` on, of which `b_alloc` bytes belong to the block. -/
  mem : ℕ → UInt8

/-- The body of the loop, from `b_need` on. -/
def serializeItem (abi : Abi) (alloc : ℕ → Bool) (v : Serializing) (item : List UInt8) :
    Outcome Serializing :=
  let bNeed := toInt ((abi.wordBytes + item.length) % 256 ^ abi.wordBytes)
  if ¬ IsInt (v.bUsed + bNeed) then .undefined
  else if v.bUsed + bNeed > v.bAlloc ∧ grants alloc (v.bUsed + bNeed) = false then .error
  else
    let v := if v.bUsed + bNeed > v.bAlloc then
        { v with bAlloc := v.bUsed + bNeed, p := v.bUsed.toNat } else v
    if v.bAlloc < v.p + abi.wordBytes + item.length then .undefined
    else
      let mem := write v.mem v.p (abi.endian.encode abi.wordBytes item.length)
      .done { v with
        mem := write mem (v.p + abi.wordBytes) item
        p := v.p + abi.wordBytes + item.length
        bUsed := v.bUsed + bNeed }

/-- The loop of `nbu_list_serialize`, in at most `fuel` rounds.  `alloc i` says what is granted in
round `i`. -/
def serializeLoop (abi : Abi) (funcs : ItemFuncs α) (alloc : ℕ → ℕ → Bool) (list : NbuList ι α) :
    ℕ → ℕ → Option (Ref ι) → Serializing → Outcome Serializing
  | 0, _, _, _ => .undefined
  | fuel + 1, i, marker, v =>
    match marker with
    | none => .done v
    | some .root => .done v
    | some (.node a) =>
      match list.heap a with
      | none => .undefined
      | some node =>
        match node.data with
        | none => .undefined
        | some data =>
          match funcs.encode list.dataSize data with
          | none => .error
          | some item =>
            match serializeItem abi (alloc i) v item with
            | .done v => serializeLoop abi funcs alloc list fuel (i + 1) node.next v
            | .undefined => .undefined
            | .error => .error

/-- A buffer, of `len` bytes. -/
structure Buffer where
  mem : ℕ → UInt8
  len : ℕ

/-- The structure as it is stored: `count`, `data_size`, and five pointers, all of them `NULL` (the
data of the root node always is). -/
def listHeader (abi : Abi) (list : NbuList ι α) : List UInt8 :=
  abi.endian.encode abi.wordBytes list.count ++ abi.endian.encode abi.wordBytes list.dataSize ++
    List.replicate (5 * abi.wordBytes) 0

/-- `b_alloc` before the loop. -/
def staticSize (abi : Abi) (list : NbuList ι α) : Int :=
  toInt ((sizeofList abi + (abi.wordBytes + list.dataSize) * list.count) % 256 ^ abi.wordBytes)

/-- `nbu_list_serialize`: the buffer and its length.  `malloc` says whether the first block is
granted, and `mem` is what the memory holds. -/
def nbuListSerialize (abi : Abi) (funcs : ItemFuncs α) (malloc : ℕ → Bool) (alloc : ℕ → ℕ → Bool)
    (mem : ℕ → UInt8) (fuel : ℕ) (list : NbuList ι α) : Outcome Buffer :=
  let bAlloc := staticSize abi list
  if grants malloc bAlloc = false then .error
  else if bAlloc < sizeofList abi then .undefined
  else
    let v : Serializing :=
      { bAlloc, bUsed := sizeofList abi, p := sizeofList abi
        mem := write mem 0 (listHeader abi list) }
    match serializeLoop abi funcs alloc list fuel 0 list.rootnode.next v with
    | .done v => .done ⟨v.mem, v.bAlloc.toNat⟩
    | .undefined => .undefined
    | .error => .error

/-- What the allocations of `nbu_list_unserialize` give: the one of the list, and in each round that
of the item, without item functions, and that of the node. -/
structure UnserializeEnv (ι : Type) where
  list : Bool
  item : ℕ → Bool
  node : ℕ → Option ι
  /-- No node is freed in between. -/
  node_inj : ∀ {i j a}, node i = some a → node j = some a → i = j

/-- The loop of `nbu_list_unserialize`, with `n` rounds to go. -/
def unserializeLoop (abi : Abi) (funcs : ItemFuncs α) (env : UnserializeEnv ι) (buf : Buffer) :
    ℕ → ℕ → ℕ → NbuList ι α → Outcome (NbuList ι α)
  | 0, _, _, list => .done list
  | n + 1, i, p, list =>
    if buf.len < p + abi.wordBytes then .undefined
    else
      let itemSize := abi.endian.decode (read buf.mem p abi.wordBytes)
      let p := p + abi.wordBytes
      if buf.len < p + itemSize then .undefined
      else
        match funcs.decode (env.item i) (read buf.mem p itemSize) with
        | .undefined => .undefined
        | .error => .error
        | .done item =>
          -- what the insertion returns is not looked at
          match nbuListInsertEnd list item (env.node i) with
          | none => .undefined
          | some (list, _) => unserializeLoop abi funcs env buf n (i + 1) (p + itemSize) list

/-- `nbu_list_unserialize`.  A pointer of the structure that is not `NULL` points to nowhere.  The
counter of the loop is an `unsigned int`, and does not get to a `count` of `2^32` or more. -/
def nbuListUnserialize (abi : Abi) (funcs : ItemFuncs α) (env : UnserializeEnv ι) (buf : Buffer) :
    Outcome (NbuList ι α) :=
  let w := abi.wordBytes
  if env.list = false ∨ buf.len < sizeofList abi then .undefined
  else if read buf.mem (3 * w) (4 * w) ≠ List.replicate (4 * w) 0 then .undefined
  else
    let count := abi.endian.decode (read buf.mem 0 w)
    let dataSize := abi.endian.decode (read buf.mem w w)
    if 2 ^ 32 ≤ count then .undefined
    else unserializeLoop abi funcs env buf count 0 (sizeofList abi) (nbuListNew dataSize)

end Neufbox.Libnbu
