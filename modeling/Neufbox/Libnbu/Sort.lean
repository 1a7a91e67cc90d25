import Mathlib.Data.Int.Notation
import Neufbox.Libnbu.List

/-!
# Sorting a list

Model of `nbu_list_sort` and `nbu_list_destroy` of `src/list.c`.  The items of a list are inserted
one by one into a new list, each before the first item that it does not go behind; then the old list
is destroyed.  Both loops go by the cursors of the two lists.

`nbu_list_for_each_data` ends at a data pointer that is the address of the list itself, so that the
addresses of the two lists, of the type `α` of data pointers, are arguments.  So is what `calloc`
returns: for the new list, and for the node of the `n`-th insertion.  The functions are undefined
(`none`) as those of the list are, and where a loop does not end within `fuel` rounds.
-/

namespace Neufbox.Libnbu

variable {ι α : Type} [DecidableEq ι]

/-- The loop of `nbu_list_destroy`. -/
def nbuListDestroyLoop : ℕ → NbuList ι α → Option (NbuList ι α)
  | 0, _ => none
  | fuel + 1, list =>
    if nbuListIteratorIsValid list then do
      let iterator ← list.iterator
      let node ← list.node iterator
      let list ← nbuListDestroyNode list list.iterator
      nbuListDestroyLoop fuel { list with iterator := node.next }
    else some list

/-- `nbu_list_destroy`: what is left of the list when it is freed. -/
def nbuListDestroy (fuel : ℕ) (list : NbuList ι α) : Option (NbuList ι α) :=
  nbuListDestroyLoop fuel (nbuListIteratorStart list)

variable [DecidableEq α] (sortFunc : α → α → ℤ)

/-- The inner loop of `nbu_list_sort`, from its condition on, and `inserted` when it ends. -/
def nbuListSortInner (sortedAddr data : α) (calloc : Option ι) :
    ℕ → NbuList ι α → Option (NbuList ι α × Bool)
  | 0, _ => none
  | fuel + 1, listSorted =>
    if nbuListIteratorIsValid listSorted then do
      let dataSorted ← nbuListGet listSorted
      if dataSorted ≠ sortedAddr then
        if sortFunc data dataSorted > 0 then
          let listSorted ← nbuListIteratorNext listSorted
          nbuListSortInner sortedAddr data calloc fuel listSorted
        else
          -- what the insertion returns is not looked at
          let (listSorted, _) ← nbuListInsertBefore listSorted data calloc
          some (listSorted, true)
      else some (listSorted, false)
    else some (listSorted, false)

/-- The body of the outer loop of `nbu_list_sort`. -/
def nbuListSortBody (fuel : ℕ) (sortedAddr data : α) (calloc : Option ι)
    (listSorted : NbuList ι α) : Option (NbuList ι α) := do
  let (listSorted, inserted) ←
    nbuListSortInner sortFunc sortedAddr data calloc fuel (nbuListIteratorStart listSorted)
  if inserted then some listSorted
  else
    let (listSorted, _) ← nbuListInsertEnd listSorted data calloc
    some listSorted

/-- The outer loop of `nbu_list_sort`, from its condition on, after `n` insertions: the list to sort
and the sorted list when it ends. -/
def nbuListSortLoop (tosortAddr sortedAddr : α) (calloc : ℕ → Option ι) (fuelInner : ℕ) :
    ℕ → ℕ → NbuList ι α → NbuList ι α → Option (NbuList ι α × NbuList ι α)
  | 0, _, _, _ => none
  | fuel + 1, n, listTosort, listSorted =>
    if nbuListIteratorIsValid listTosort then do
      let data ← nbuListGet listTosort
      if data ≠ tosortAddr then
        let listSorted ←
          nbuListSortBody sortFunc fuelInner sortedAddr data (calloc n) listSorted
        let listTosort ← nbuListIteratorNext listTosort
        nbuListSortLoop tosortAddr sortedAddr calloc fuelInner fuel (n + 1) listTosort listSorted
      else some (listTosort, listSorted)
    else some (listTosort, listSorted)

/-- `nbu_list_sort` -/
def nbuListSort (fuel : ℕ) (tosortAddr : α) (callocList : Option α) (calloc : ℕ → Option ι)
    (listTosort : NbuList ι α) : Option (NbuList ι α × NbuRet) := do
  -- the new list is used without a check
  let sortedAddr ← callocList
  let (listTosort, listSorted) ← nbuListSortLoop sortFunc tosortAddr sortedAddr calloc fuel fuel 0
    (nbuListIteratorStart listTosort) (nbuListNew listTosort.dataSize)
  let _ ← nbuListDestroy fuel listTosort
  some (listSorted, .success)

end Neufbox.Libnbu
