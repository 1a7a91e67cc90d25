import Mathlib.Logic.Function.Basic
import Neufbox.Libnbd.Query

/-!
# libetk dictionaries

Model of `src/dict.c` and `include/etk/dict.h`, and of the lists of `include/etk/list.h` they are
made of.  A dictionary is a list of entries, each with its key and its data.  All loops over it,
also those of its users (`dict_for_each_entry`), go by one cursor that is a part of the dictionary,
`dict->entry`; it is left at an entry, at the place where `list_entry` sees an entry around the head
of the list, or at `NULL`.

Entries are blocks with addresses of any type `ι`.  A function is undefined (`none`) where it
follows a pointer to something that is not allocated, and where a loop does not end within `fuel`
rounds.  What `calloc` returns is an argument.  Keys and data are strings of the caller, of which
`strdup` makes copies.
-/

namespace Neufbox.Libetk

open Function (update)
open Libnbd (CString)

/-! ### Lists -/

/-- `struct list_head`; `none` is a pointer that must not be followed, `NULL` or a poison. -/
structure ListHead (ν : Type) where
  next : Option ν
  prev : Option ν

/-- The list heads that are allocated. -/
abbrev Heads (ν : Type) := ν → Option (ListHead ν)

section Lists

variable {ν : Type} [DecidableEq ν]

/-- `list->next = next` -/
def setNext (heads : Heads ν) (list : ν) (next : Option ν) : Option (Heads ν) :=
  (heads list).map fun h => update heads list (some { h with next })

/-- `list->prev = prev` -/
def setPrev (heads : Heads ν) (list : ν) (prev : Option ν) : Option (Heads ν) :=
  (heads list).map fun h => update heads list (some { h with prev })

/-- `INIT_LIST_HEAD` -/
def initListHead (heads : Heads ν) (list : ν) : Option (Heads ν) := do
  let heads ← setNext heads list (some list)
  setPrev heads list (some list)

/-- `__list_add` -/
def listAddBetween (heads : Heads ν) (new prev next : ν) : Option (Heads ν) := do
  let heads ← setPrev heads next (some new)
  let heads ← setNext heads new (some next)
  let heads ← setPrev heads new (some prev)
  setNext heads prev (some new)

/-- `list_add_tail` -/
def listAddTail (heads : Heads ν) (new head : ν) : Option (Heads ν) := do
  let h ← heads head
  let prev ← h.prev
  listAddBetween heads new prev head

/-- `__list_del` -/
def listDelBetween (heads : Heads ν) (prev next : ν) : Option (Heads ν) := do
  let heads ← setPrev heads next (some prev)
  setNext heads prev (some next)

/-- `list_del` -/
def listDel (heads : Heads ν) (entry : ν) : Option (Heads ν) := do
  let h ← heads entry
  let prev ← h.prev
  let next ← h.next
  let heads ← listDelBetween heads prev next
  -- `LIST_POISON1` and `LIST_POISON2`
  let heads ← setNext heads entry none
  setPrev heads entry none

end Lists

/-! ### Dictionaries -/

/-- Where a list head is: in the dictionary, or in an entry.  `list_entry` makes a pointer to an
entry of it, also where there is none around the head. -/
inductive DictRef (ι : Type) where
  | head
  | entry (a : ι)
  deriving DecidableEq

/-- The strings of a `struct dict_entry`. -/
structure DictEntry where
  key : CString
  data : CString

/-- `struct dict`, with its entries: the strings of an entry at `a` are in `entries`, its list head
is in `heads`, as is that of the dictionary. -/
structure Dict (ι : Type) where
  entry : Option (DictRef ι)
  heads : Heads (DictRef ι)
  entries : ι → Option DictEntry

variable {ι : Type}

/-- A `struct dict` before it is initialised, with what is there by chance. -/
def uninitialised (entry : Option (DictRef ι)) (head : ListHead (DictRef ι)) : Dict ι where
  entry := entry
  heads
    | .head => some head
    | .entry _ => none
  entries := fun _ => none

variable [DecidableEq ι]

/-- `dict_init` -/
def dictInit (dict : Dict ι) : Option (Dict ι) :=
  (initListHead dict.heads .head).map fun heads => { dict with heads }

/-- The loop of `dict_put`, from its condition on, and whether it ended with `return`. -/
def dictPutLoop (key data : CString) : ℕ → Dict ι → Option (Dict ι × Bool)
  | 0, _ => none
  | fuel + 1, dict => do
    match ← dict.entry with
    | .head => some (dict, false)
    | .entry a =>
      let e ← dict.entries a
      if e.key = key then
        some ({ dict with entries := update dict.entries a (some { e with data }) }, true)
      else
        let list ← dict.heads (.entry a)
        dictPutLoop key data fuel { dict with entry := list.next }

/-- `dict_put` -/
def dictPut (fuel : ℕ) (dict : Dict ι) (key data : CString) (calloc : Option ι) :
    Option (Dict ι) := do
  let list ← dict.heads .head
  let (dict, found) ← dictPutLoop key data fuel { dict with entry := list.next }
  if found then some dict
  else
    let a ← calloc
    let heads := update dict.heads (.entry a) (some ⟨none, none⟩)
    let heads ← listAddTail heads (.entry a) .head
    some { entry := some (.entry a), heads, entries := update dict.entries a (some ⟨key, data⟩) }

/-- The end of an entry in `dict_remove` and in `dict_free`. -/
def dictDelete (dict : Dict ι) (a : ι) : Option (Dict ι) := do
  let heads ← listDel dict.heads (.entry a)
  some { entry := none, heads := update heads (.entry a) none,
         entries := update dict.entries a none }

/-- The loop of `dict_remove`, from its condition on, and what the function returns. -/
def dictRemoveLoop (key : CString) : ℕ → Dict ι → Option (DictRef ι) → Option (Dict ι × ℤ)
  | 0, _, _ => none
  | fuel + 1, dict, entrySafe => do
    match ← dict.entry with
    | .head => some (dict, -1)
    | .entry a =>
      let e ← dict.entries a
      if e.key = key then
        let dict ← dictDelete dict a
        some (dict, 0)
      else
        let safe ← entrySafe
        let list ← dict.heads safe
        dictRemoveLoop key fuel { dict with entry := some safe } list.next

/-- `dict_remove` -/
def dictRemove (fuel : ℕ) (dict : Dict ι) (key : CString) : Option (Dict ι × ℤ) := do
  let list ← dict.heads .head
  let first ← list.next
  let list ← dict.heads first
  dictRemoveLoop key fuel { dict with entry := some first } list.next

/-- The loop of `dict_free`, from its condition on. -/
def dictFreeLoop : ℕ → Dict ι → Option (DictRef ι) → Option (Dict ι)
  | 0, _, _ => none
  | fuel + 1, dict, entrySafe => do
    match ← dict.entry with
    | .head => some dict
    | .entry a =>
      let dict ← dictDelete dict a
      let safe ← entrySafe
      let list ← dict.heads safe
      dictFreeLoop fuel { dict with entry := some safe } list.next

/-- `dict_free` -/
def dictFree (fuel : ℕ) (dict : Dict ι) : Option (Dict ι) := do
  let list ← dict.heads .head
  let first ← list.next
  let list ← dict.heads first
  dictFreeLoop fuel { dict with entry := some first } list.next

/-- The loop of `dict_for_each_entry`, from its condition on: the keys and the data that its body
sees.  What `key` and `data` are read from at the head of the list is never used. -/
def dictVisit : ℕ → Dict ι → Option (Dict ι × List (CString × CString))
  | 0, _ => none
  | fuel + 1, dict => do
    match ← dict.entry with
    | .head => some (dict, [])
    | .entry a =>
      let e ← dict.entries a
      let list ← dict.heads (.entry a)
      let (dict, rest) ← dictVisit fuel { dict with entry := list.next }
      some (dict, (e.key, e.data) :: rest)

/-- `dict_for_each_entry` -/
def dictForEachEntry (fuel : ℕ) (dict : Dict ι) :
    Option (Dict ι × List (CString × CString)) := do
  let list ← dict.heads .head
  dictVisit fuel { dict with entry := list.next }

/-! ### Calls -/

/-- A call on a dictionary, or a loop over it. -/
inductive DictOp (ι : Type) where
  | put (key data : CString) (calloc : Option ι)
  | remove (key : CString)
  | free
  | forEachEntry

/-- What a caller gets. -/
inductive DictRet where
  | removed (ret : ℤ)
  | visited (pairs : List (CString × CString))
  deriving DecidableEq

def callDict (fuel : ℕ) (dict : Dict ι) : DictOp ι → Option (Dict ι) × List DictRet
  | .put key data calloc => (dictPut fuel dict key data calloc, [])
  | .remove key =>
    ((dictRemove fuel dict key).map Prod.fst,
      (dictRemove fuel dict key).toList.map fun r => .removed r.2)
  | .free => (dictFree fuel dict, [])
  | .forEachEntry =>
    ((dictForEachEntry fuel dict).map Prod.fst,
      (dictForEachEntry fuel dict).toList.map fun r => .visited r.2)

/-- One call of a run, which ends where the behaviour is undefined. -/
def dictStep (fuel : ℕ) (dict : Option (Dict ι)) (op : DictOp ι) :
    Option (Dict ι) × List DictRet :=
  match dict with
  | none => (none, [])
  | some dict => callDict fuel dict op

end Neufbox.Libetk
