import Neufbox.Lib.Bytes
import Neufbox.Lib.Stream
import Neufbox.Libewf.Session

/-!
# API sessions

Model of `efixo-api/src/src/ewf_session.c`.  The API keeps a session list of its own, of the same
structure as the web server's (`CHALLENGE_SIZE` is its `SID_LEN`), with other functions on it: a
session is checked for being activated and for its age in one place (`ewf_session_check`), and there
is a cleaner that sweeps the list.
-/

namespace Neufbox.Api

open Libewf Libnbu Registry ByteStream

def challengeSize : ℕ := 40

/-- Not used by the source: `auth.getToken` has the number itself. -/
def maxsessionCount : ℕ := 64

def presessionTimeout : Int := 300

/-- For the password method. -/
def presessionTimeoutFast : Int := 5

def sessionTimeout : Int := 3600

/-- `ewf_session_get` -/
def ewfSessionGet (list : Sessions) (sid : String) : Option (ℕ × Session) :=
  list.find? (Session.hasId sid)

/-- The sessions `ewf_session_cleaner` keeps. -/
def cleanerKeeps (now : Int) (session : Session) : Bool :=
  ! ((session.activated = false ∧ session.tv + presessionTimeout < now) ∨
    session.tv + sessionTimeout < now)

/-- `ewf_session_cleaner`: the number of sessions it removes, and the list. -/
def ewfSessionCleaner (list : Sessions) (now : Int) : ℕ × Sessions :=
  ((list.entries.filter fun e => ! cleanerKeeps now e.2).length, list.retain (cleanerKeeps now))

/-- `ewf_session_cleaner`, on the nodes of the list. -/
def ewfSessionCleanerLoop {ι : Type} [DecidableEq ι] (fuel : ℕ) (list : NbuList ι Session)
    (now : Int) : Option (ℕ × List Session × NbuList ι Session) :=
  cleanerLoop presessionTimeout now fuel (nbuListIteratorStart list) 0 []

/-- What `ewf_session_create` meets: the clock, what its array `rdm` on the stack holds, what the
reads of `/dev/random` find, if it can be opened, and whether a list node can be allocated. -/
structure Creation where
  clock : Option Int
  stack : List UInt8
  length_stack : stack.length = challengeSize / 2
  random : Option (List Arrival)
  inserted : Bool

/-- The array `rdm`, after `file_open_read_close`, whose result is not looked at. -/
def Creation.rdm (c : Creation) : List UInt8 :=
  match c.random with
  | none => c.stack
  | some s => overlay c.stack (fullRead (challengeSize / 2) s).bytes

/-- `ewf_session_create`: the token and the list, or `none` for `EWF_ERROR`. -/
def ewfSessionCreate (list : Sessions) (bufTokenSize : ℕ) (c : Creation) :
    Option (String × Sessions) :=
  if bufTokenSize > challengeSize then
    match c.clock with
    | none => none
    | some tv =>
      let token := hexString c.rdm
      if c.inserted then
        some (token, list.add
          { activated := false, id := nbuStringCopy (challengeSize + 1) token, tv })
      else none
  else none

/-- `ewf_session_remove` -/
def ewfSessionRemove (list : Sessions) (sid : String) : Sessions := list.remove (Session.hasId sid)

variable {β : Type}

/-- `ewf_session_check`: whether the session is good, the list and the events. -/
def ewfSessionCheck (list : Sessions) (k : ℕ) (session : Session) (clock : Option Int) :
    Bool × Sessions × List (Event β) :=
  match clock with
  | none => (false, list, [])
  | some now =>
    -- an unactivated session stays in the list, an expired one does not
    if session.activated = false then (false, list, [])
    else if session.tv + sessionTimeout ≥ now then
      (true, list.update k fun session => { session with tv := now }, [])
    else (false, ewfSessionRemove list session.id, list.removed (Session.hasId session.id))

/-- `ewf_session_count` -/
def ewfSessionCount (list : Sessions) : ℕ := list.entries.length

/-- `ewf_session_validate`, which fails without a clock. -/
def ewfSessionValidate (list : Sessions) (k : ℕ) (clock : Option Int) : Option Sessions :=
  match clock with
  | none => none
  | some now => some (list.update k fun session => { session with activated := true, tv := now })

end Neufbox.Api
