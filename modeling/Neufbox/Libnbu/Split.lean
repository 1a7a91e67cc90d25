import Neufbox.Libnbu.List
import Neufbox.Libnbu.String

/-!
# libnbu: `nbu_string_split`

Model of `nbu_string_split` with the list that it makes.  Whether there is memory for the list, for
the copies of the items and for the nodes is an argument; a copy for which there is none is a `NULL`
in the list, and an insertion for which there is none is refused, which the function does not
notice.  The list is used without a check: `none`.
-/

namespace Neufbox.Libnbu

variable {ι : Type} [DecidableEq ι]

/-- What is returned by `nbu_list_new`, and for the `n`-th item by `strndup` or `strdup`, and by the
`calloc` of its node. -/
structure SplitMemory (ι : Type) where
  list : Bool
  strdup : ℕ → Bool
  calloc : ℕ → Option ι

/-- The copy of an item. -/
def SplitMemory.copy (mem : SplitMemory ι) (n : ℕ) (item : List Char) : Option (List Char) :=
  if mem.strdup n then some item else none

/-- The loop of `nbu_string_split`, after `n` items, and the copy of the end of the string; `none`
if it does not end within `fuel` rounds. -/
def splitListLoop (mem : SplitMemory ι) (sep : List Char) :
    ℕ → ℕ → NbuList ι (Option (List Char)) → List Char →
      Option (NbuList ι (Option (List Char)))
  | 0, _, _, _ => none
  | fuel + 1, n, list, saveptr =>
    match strstr sep saveptr with
    | some (item, saveptr) => do
      let (list, _) ← nbuListInsertEnd list (mem.copy n item) (mem.calloc n)
      splitListLoop mem sep fuel (n + 1) list saveptr
    | none => do
      let (list, _) ← nbuListInsertEnd list (mem.copy n saveptr) (mem.calloc n)
      some list

/-- `nbu_string_split` -/
def nbuStringSplitTo (mem : SplitMemory ι) (fuel : ℕ) (str sep : List Char) :
    Option (NbuList ι (Option (List Char)) × NbuRet) :=
  if mem.list then do
    let list ← splitListLoop mem sep fuel 0 (nbuListNew 4) str
    some (list, .success)
  else none

end Neufbox.Libnbu
