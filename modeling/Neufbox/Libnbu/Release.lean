import Neufbox.Libnbu.Sort

/-!
# libnbu: the data of a list

Model of what `src/list.c` does with the data of a list, which the list owns: a node that is
destroyed has its data released by the terminator function of the list, or by `free` if there is
none.  `nbu_list_sort` keeps the old list from releasing what is now in the new one with a
terminator function that does nothing, and gives the new list the same terminator function.
-/

namespace Neufbox.Libnbu

variable {φ ι α : Type}

/-- `data_terminator_func`: `NULL`, a function of the program, or `_nbu_list_void_terminator`. -/
inductive Terminator (φ : Type) where
  | null
  | func (f : φ)
  | void
  deriving DecidableEq

/-- How data are released. -/
inductive Release (φ α : Type) where
  | free (data : Option α)
  | call (f : φ) (data : Option α)
  deriving DecidableEq

/-- The releases of one data pointer. -/
def Terminator.release : Terminator φ → Option α → List (Release φ α)
  | .null, data => [.free data]
  | .func f, data => [.call f data]
  | .void, _ => []

/-- `nbu_list_t` with its terminator function. -/
structure OwningList (φ ι α : Type) where
  list : NbuList ι α
  terminator : Terminator φ

variable [DecidableEq ι]

/-- `nbu_list_destroy_node`, with what is released. -/
def destroyNodeReleasing (terminator : Terminator φ) (list : NbuList ι α)
    (nodeRef : Option (Ref ι)) : Option (NbuList ι α × List (Release φ α)) := do
  let ref ← nodeRef
  let node ← list.node ref
  let list ← nbuListDestroyNode list nodeRef
  some (list, terminator.release node.data)

/-- The loop of `nbu_list_destroy`: what is released. -/
def destroyLoopReleasing (terminator : Terminator φ) :
    ℕ → NbuList ι α → Option (List (Release φ α))
  | 0, _ => none
  | fuel + 1, list =>
    if nbuListIteratorIsValid list then do
      let iterator ← list.iterator
      let node ← list.node iterator
      let (list, released) ← destroyNodeReleasing terminator list list.iterator
      let rest ← destroyLoopReleasing terminator fuel { list with iterator := node.next }
      some (released ++ rest)
    else some []

/-- `nbu_list_destroy`: what is released. -/
def nbuListDestroyReleasing (fuel : ℕ) (owning : OwningList φ ι α) :
    Option (List (Release φ α)) :=
  destroyLoopReleasing owning.terminator fuel (nbuListIteratorStart owning.list)

/-- A call of `nbu_list_sort`, with what `calloc` returns for the new list and its nodes. -/
structure SortCall (ι α : Type) where
  sortFunc : α → α → ℤ
  callocList : Option α
  calloc : ℕ → Option ι
  distinct : ∀ i j a, calloc i = some a → calloc j = some a → i = j

variable [DecidableEq α]

/-- `nbu_list_sort`, with what is released. -/
def nbuListSortReleasing (fuel : ℕ) (tosortAddr : α) (call : SortCall ι α)
    (owning : OwningList φ ι α) : Option (OwningList φ ι α × List (Release φ α)) := do
  let tosort : OwningList φ ι α := { owning with terminator := .void }
  let sortedAddr ← call.callocList
  -- the function that is copied is the one that was assigned just now
  let terminator := tosort.terminator
  let (listTosort, listSorted) ← nbuListSortLoop call.sortFunc tosortAddr sortedAddr call.calloc
    fuel fuel 0 (nbuListIteratorStart tosort.list) (nbuListNew tosort.list.dataSize)
  let released ← nbuListDestroyReleasing fuel { tosort with list := listTosort }
  some (⟨listSorted, terminator⟩, released)

/-- Calls of `nbu_list_sort` one after the other; each leaves the address of the new list. -/
def sortsReleasing (fuel : ℕ) :
    α → OwningList φ ι α → List (SortCall ι α) →
      Option (OwningList φ ι α × List (Release φ α))
  | _, owning, [] => some (owning, [])
  | addr, owning, call :: calls => do
    let (owning, released) ← nbuListSortReleasing fuel addr call owning
    let addr ← call.callocList
    let (owning, rest) ← sortsReleasing fuel addr owning calls
    some (owning, released ++ rest)

end Neufbox.Libnbu
