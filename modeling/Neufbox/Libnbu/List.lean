import Mathlib.Data.List.Basic
import Mathlib.Logic.Function.Basic

/-!
# libnbu lists

Model of `src/list.c`: cyclic doubly linked lists whose root node, a part of `nbu_list_t`, tags the
start and the end.  A new list has no links at all (`calloc`); one that was emptied again has a root
node that is linked to itself.

Addresses of nodes are of any type `ι`; `heap` holds the nodes of the list that are allocated.  A
function is undefined (`none`) where an assertion fails, where it follows a pointer to a node that
is not there, and where it frees something else than such a node.  What `calloc` returns is an
argument.  The terminator function, which frees the data of a node that is destroyed, is left out.
-/

namespace Neufbox.Libnbu

open Function (update)

/-- A pointer to a node: to the root node, or to a block of its own. -/
inductive Ref (ι : Type) where
  | root
  | node (a : ι)
  deriving DecidableEq

/-- `nbu_list_node_t`; a pointer that may be `NULL` is an option. -/
structure ListNode (ι α : Type) where
  prev : Option (Ref ι)
  next : Option (Ref ι)
  data : Option α

/-- `nbu_list_t`, with the nodes of the list. -/
structure NbuList (ι α : Type) where
  count : ℕ
  dataSize : ℕ
  rootnode : ListNode ι α
  iterator : Option (Ref ι)
  heap : ι → Option (ListNode ι α)

/-- What the insertions return. -/
inductive NbuRet where
  | success
  | error
  deriving DecidableEq

variable {ι α : Type} [DecidableEq ι]

namespace NbuList

/-- The node that a pointer points to. -/
def node (list : NbuList ι α) : Ref ι → Option (ListNode ι α)
  | .root => some list.rootnode
  | .node a => list.heap a

/-- A node is stored. -/
def set (list : NbuList ι α) (n : ListNode ι α) : Ref ι → NbuList ι α
  | .root => { list with rootnode := n }
  | .node a => { list with heap := update list.heap a (some n) }

/-- A field of a node is assigned. -/
def modify (list : NbuList ι α) (ref : Ref ι) (f : ListNode ι α → ListNode ι α) :
    Option (NbuList ι α) :=
  (list.node ref).map fun n => list.set (f n) ref

def setPrev (list : NbuList ι α) (ref : Ref ι) (prev : Option (Ref ι)) : Option (NbuList ι α) :=
  list.modify ref fun n => { n with prev }

def setNext (list : NbuList ι α) (ref : Ref ι) (next : Option (Ref ι)) : Option (NbuList ι α) :=
  list.modify ref fun n => { n with next }

/-- `free` of a node; the root node is not a block of its own. -/
def free (list : NbuList ι α) : Ref ι → Option (NbuList ι α)
  | .root => none
  | .node a => (list.heap a).map fun _ => { list with heap := update list.heap a none }

end NbuList

/-- `nbu_list_new` -/
def nbuListNew (dataSize : ℕ) : NbuList ι α where
  count := 0
  dataSize := dataSize
  rootnode := ⟨none, none, none⟩
  iterator := none
  heap := fun _ => none

/-- `nbu_list_destroy_node` -/
def nbuListDestroyNode (list : NbuList ι α) (nodeRef : Option (Ref ι)) :
    Option (NbuList ι α) := do
  let ref ← nodeRef
  let node ← list.node ref
  let list ← match node.next with
    | some next => list.setPrev next node.prev
    | none => list.setPrev .root node.prev
  -- the assignment may have been to this node
  let node ← list.node ref
  let list ← match node.prev with
    | some prev => list.setNext prev node.next
    | none => list.setNext .root node.next
  let list ← list.free ref
  some { list with count := list.count - 1 }

/-- `nbu_list_insert`, with what `calloc` returns.  Only `prev` fields are assigned before the last
use of `node_ref->next`, and only `next` fields before that of `node_ref->prev`. -/
def nbuListInsert (list : NbuList ι α) (data : α) (nodeRef : Option (Ref ι)) (direction : Bool)
    (calloc : Option ι) : Option (NbuList ι α × NbuRet) :=
  match calloc with
  | none => some (list, .error)
  | some a =>
    match nodeRef with
    | none =>
      if list.rootnode.next = none ∧ list.rootnode.prev = none then
        let list := list.set ⟨some .root, some .root, some data⟩ (.node a)
        let list := { list with
          rootnode := { list.rootnode with next := some (.node a), prev := some (.node a) } }
        some ({ list with count := list.count + 1 }, .success)
      else
        -- the new node is freed
        some (list, .error)
    | some ref => do
      let node ← list.node ref
      let list ←
        if direction then do
          let list := list.set ⟨some ref, node.next, some data⟩ (.node a)
          let list ← match node.next with
            | none => list.setPrev .root (some (.node a))
            | some next => list.setPrev next (some (.node a))
          list.setNext ref (some (.node a))
        else do
          let list := list.set ⟨node.prev, some ref, some data⟩ (.node a)
          let list ← match node.prev with
            | none => list.setNext .root (some (.node a))
            | some prev => list.setNext prev (some (.node a))
          list.setPrev ref (some (.node a))
      some ({ list with count := list.count + 1 }, .success)

/-! ### The iterator -/

/-- `nbu_list_iterator_start` -/
def nbuListIteratorStart (list : NbuList ι α) : NbuList ι α :=
  { list with iterator := list.rootnode.next }

/-- `nbu_list_iterator_end` -/
def nbuListIteratorEnd (list : NbuList ι α) : NbuList ι α :=
  { list with iterator := list.rootnode.prev }

/-- `nbu_list_iterator_next` -/
def nbuListIteratorNext (list : NbuList ι α) : Option (NbuList ι α) := do
  let iterator ← list.iterator
  let node ← list.node iterator
  some { list with iterator := node.next }

/-- `nbu_list_iterator_previous` -/
def nbuListIteratorPrevious (list : NbuList ι α) : Option (NbuList ι α) := do
  let iterator ← list.iterator
  let node ← list.node iterator
  some { list with iterator := node.prev }

/-- `nbu_list_iterator_is_valid` -/
def nbuListIteratorIsValid (list : NbuList ι α) : Bool :=
  list.iterator ≠ none ∧ list.iterator ≠ some .root

/-- `nbu_list_get`; the data pointer of a node that was inserted is not `NULL`. -/
def nbuListGet (list : NbuList ι α) : Option α := do
  let iterator ← list.iterator
  let node ← list.node iterator
  node.data

/-! ### Insertion and deletion -/

/-- `nbu_list_insert_after` -/
def nbuListInsertAfter (list : NbuList ι α) (data : α) (calloc : Option ι) :
    Option (NbuList ι α × NbuRet) :=
  nbuListInsert list data list.iterator true calloc

/-- `nbu_list_insert_before` -/
def nbuListInsertBefore (list : NbuList ι α) (data : α) (calloc : Option ι) :
    Option (NbuList ι α × NbuRet) :=
  nbuListInsert list data list.iterator false calloc

/-- `nbu_list_insert_begin` -/
def nbuListInsertBegin (list : NbuList ι α) (data : α) (calloc : Option ι) :
    Option (NbuList ι α × NbuRet) :=
  nbuListInsert list data list.rootnode.next false calloc

/-- `nbu_list_insert_end` -/
def nbuListInsertEnd (list : NbuList ι α) (data : α) (calloc : Option ι) :
    Option (NbuList ι α × NbuRet) :=
  nbuListInsert list data list.rootnode.prev true calloc

/-- `nbu_list_delete_forward` -/
def nbuListDeleteForward (list : NbuList ι α) : Option (NbuList ι α) := do
  let iterator ← list.iterator
  let node ← list.node iterator
  let list ← nbuListDestroyNode list list.iterator
  some { list with iterator := node.next }

/-- `nbu_list_delete_backward` -/
def nbuListDeleteBackward (list : NbuList ι α) : Option (NbuList ι α) := do
  let iterator ← list.iterator
  let node ← list.node iterator
  let list ← nbuListDestroyNode list list.iterator
  some { list with iterator := node.prev }

/-- `nbu_list_delete_begin` -/
def nbuListDeleteBegin (list : NbuList ι α) : Option (NbuList ι α) :=
  nbuListDestroyNode list list.rootnode.next

/-- `nbu_list_delete_end` -/
def nbuListDeleteEnd (list : NbuList ι α) : Option (NbuList ι α) :=
  nbuListDestroyNode list list.rootnode.prev

/-! ### Loops -/

/-- The data that a loop sees, which ends when the iterator is not valid; `none` if it does not end
within `fuel` rounds. -/
def nbuListVisit (move : NbuList ι α → Option (NbuList ι α)) :
    ℕ → NbuList ι α → Option (List α)
  | 0, _ => none
  | fuel + 1, list =>
    if nbuListIteratorIsValid list then do
      let data ← nbuListGet list
      let list ← move list
      let rest ← nbuListVisit move fuel list
      some (data :: rest)
    else some []

/-- The data that `nbu_list_for_each` goes over. -/
def nbuListForEach (fuel : ℕ) (list : NbuList ι α) : Option (List α) :=
  nbuListVisit nbuListIteratorNext fuel (nbuListIteratorStart list)

/-- The data that `nbu_list_for_each_rev` goes over. -/
def nbuListForEachRev (fuel : ℕ) (list : NbuList ι α) : Option (List α) :=
  nbuListVisit nbuListIteratorPrevious fuel (nbuListIteratorEnd list)

/-! ### Calls -/

/-- A call on a list. -/
inductive ListOp (ι α : Type) where
  | insertBegin (data : α) (calloc : Option ι)
  | insertEnd (data : α) (calloc : Option ι)
  | insertBefore (data : α) (calloc : Option ι)
  | insertAfter (data : α) (calloc : Option ι)
  | deleteForward
  | deleteBackward
  | deleteBegin
  | deleteEnd
  | iteratorStart
  | iteratorEnd
  | iteratorNext
  | iteratorPrevious

/-- A function that returns nothing. -/
def returnsNothing (list : Option (NbuList ι α)) : Option (NbuList ι α) × List NbuRet := (list, [])

/-- A function that says whether it succeeded. -/
def returns (r : Option (NbuList ι α × NbuRet)) : Option (NbuList ι α) × List NbuRet :=
  (r.map Prod.fst, r.toList.map Prod.snd)

def callList (list : NbuList ι α) : ListOp ι α → Option (NbuList ι α) × List NbuRet
  | .insertBegin data calloc => returns (nbuListInsertBegin list data calloc)
  | .insertEnd data calloc => returns (nbuListInsertEnd list data calloc)
  | .insertBefore data calloc => returns (nbuListInsertBefore list data calloc)
  | .insertAfter data calloc => returns (nbuListInsertAfter list data calloc)
  | .deleteForward => returnsNothing (nbuListDeleteForward list)
  | .deleteBackward => returnsNothing (nbuListDeleteBackward list)
  | .deleteBegin => returnsNothing (nbuListDeleteBegin list)
  | .deleteEnd => returnsNothing (nbuListDeleteEnd list)
  | .iteratorStart => returnsNothing (some (nbuListIteratorStart list))
  | .iteratorEnd => returnsNothing (some (nbuListIteratorEnd list))
  | .iteratorNext => returnsNothing (nbuListIteratorNext list)
  | .iteratorPrevious => returnsNothing (nbuListIteratorPrevious list)

/-- One call of a run, which ends where the behaviour is undefined. -/
def listStep (list : Option (NbuList ι α)) (op : ListOp ι α) :
    Option (NbuList ι α) × List NbuRet :=
  match list with
  | none => (none, [])
  | some list => callList list op

end Neufbox.Libnbu
