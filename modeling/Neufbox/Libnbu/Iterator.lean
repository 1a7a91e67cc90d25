import Neufbox.Libnbu.Release

/-!
# libnbu: a list in use

Model of a program that works on a list with the functions of `src/list.c`, in any order.  It ends
where an assertion fails or `NULL` is followed, and with the destruction of the list.  What it does
is undefined where it follows a pointer to a node that is not there, where it frees something else
than a node of the list, and where a loop does not end within as many rounds as the list has items.

`nbu_list_count`, `nbu_list_iterator_is_valid`, `nbu_list_iterator_is_first` and
`nbu_list_iterator_is_last`, which look at no node, are left out, and so is `nbu_list_serialize`,
which goes over the nodes as `nbu_list_contain` does.
-/

namespace Neufbox.Libnbu

variable {ι α : Type}

section

variable [DecidableEq ι]

/-- The loop of `nbu_list_contain` with its `marker`. -/
def containLoop (list : NbuList ι α) (data : α) (compare : α → α → ℤ) :
    ℕ → Option (Ref ι) → Option NbuRet
  | 0, _ => none
  | fuel + 1, marker =>
    if marker ≠ none ∧ marker ≠ some .root then do
      let ref ← marker
      let node ← list.node ref
      let item ← node.data
      if compare item data = 0 then some .success
      else containLoop list data compare fuel node.next
    else some .error

/-- `nbu_list_contain` -/
def nbuListContain (fuel : ℕ) (list : NbuList ι α) (data : α) (compare : α → α → ℤ) :
    Option NbuRet :=
  containLoop list data compare fuel list.rootnode.next

variable [DecidableEq α]

/-- The loop of `nbu_list_get_at_index`, from its condition on, at the `i`-th item: the list and
`data` when it ends. -/
def getAtIndexLoop (addr : α) (ind : ℕ) :
    ℕ → ℕ → Option α → NbuList ι α → Option (NbuList ι α × Option α)
  | 0, _, _, _ => none
  | fuel + 1, i, data, list =>
    if nbuListIteratorIsValid list then do
      let data ← nbuListGet list
      if data ≠ addr then
        if i = ind then some (list, some data)
        else
          let list ← nbuListIteratorNext list
          getAtIndexLoop addr ind fuel (i + 1) (some data) list
      else some (list, some data)
    else some (list, data)

/-- `nbu_list_get_at_index` for the list at `addr`. -/
def nbuListGetAtIndex (fuel : ℕ) (addr : α) (list : NbuList ι α) (ind : ℕ) :
    Option (NbuList ι α × Option α) :=
  if list.count ≤ ind then some (list, none)
  else getAtIndexLoop addr ind fuel 0 none (nbuListIteratorStart list)

end

/-- A use of the list. -/
inductive ListUse (ι α : Type) where
  | call (op : ListOp ι α)
  /-- `nbu_list_get`, `nbu_list_iterator_has_next` or `nbu_list_iterator_has_previous`, which read
  the node at the iterator -/
  | look
  | contain (data : α) (compare : α → α → ℤ)
  | getAtIndex (ind : ℕ)
  | sort (call : SortCall ι α)
  | destroy

/-- The program, with the address of its list. -/
inductive ListProgram (ι α : Type) where
  | running (addr : α) (list : NbuList ι α)
  | ended
  | undefined

/-- The program goes on with the list that a function left. -/
def ListProgram.goOn (addr : α) : Option (NbuList ι α) → ListProgram ι α
  | some list => .running addr list
  | none => .undefined

variable [DecidableEq ι] [DecidableEq α]

/-- The assertion that the iterator, or the node to destroy, is not `NULL`. -/
def assertionFails (list : NbuList ι α) : ListOp ι α → Bool
  | .deleteForward | .deleteBackward | .iteratorNext | .iteratorPrevious => list.iterator = none
  | .deleteBegin => list.rootnode.next = none
  | .deleteEnd => list.rootnode.prev = none
  | _ => false

/-- What a use does. -/
def useList (addr : α) (list : NbuList ι α) : ListUse ι α → ListProgram ι α
  | .call op => if assertionFails list op then .ended else .goOn addr (callList list op).1
  | .look =>
    match list.iterator with
    | none => .ended
    | some ref => .goOn addr ((list.node ref).map fun _ => list)
  | .contain data compare =>
    .goOn addr ((nbuListContain (list.count + 1) list data compare).map fun _ => list)
  | .getAtIndex ind =>
    .goOn addr ((nbuListGetAtIndex (list.count + 1) addr list ind).map Prod.fst)
  | .sort call =>
    match call.callocList with
    | none => .ended
    | some sortedAddr =>
      .goOn sortedAddr ((nbuListSort call.sortFunc (list.count + 1) addr call.callocList
        call.calloc list).map Prod.fst)
  | .destroy =>
    match nbuListDestroy (list.count + 1) list with
    | some _ => .ended
    | none => .undefined

/-- A step of the program, which emits nothing. -/
def listProgramStep (program : ListProgram ι α) (use : ListUse ι α) :
    ListProgram ι α × List Empty :=
  match program with
  | .running addr list => (useList addr list use, [])
  | program => (program, [])

end Neufbox.Libnbu
