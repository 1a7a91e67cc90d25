import Neufbox.Lib.Registry
import Neufbox.Libnbu.List
import Neufbox.Libnbu.String

/-!
# libewf sessions

Model of `core/ewf_session.c`: the list of sessions of the web server.  A session is unactivated
when it is created, as the challenge of a login, and becomes good when a login with it succeeds.

The list is a registry, whose handles stand for the addresses of the sessions.  Only the seconds of
a `struct timeval` are ever compared, so a time is a number of seconds.
-/

namespace Neufbox.Libewf

open Libnbu

def sidLen : ℕ := 40

def loginHashLen : ℕ := 64

def passwHashLen : ℕ := 64

def sessionTimeout : Int := 3600

/-- `ewf_session_t` -/
structure Session where
  activated : Bool
  id : String
  tv : Int
  deriving DecidableEq

/-- `ewf_session_list` -/
abbrev Sessions : Type := Registry Session

/-- The comparison in `ewf_session_list_get` and `ewf_session_list_remove`. -/
def Session.hasId (sid : String) (session : Session) : Bool :=
  nbuStringNcompare session.id (sidLen + 1) sid

/-- `ewf_session_list_add`; `inserted` is whether `nbu_list_insert_end` could allocate a node. -/
def ewfSessionListAdd (list : Sessions) (session : Session) (inserted : Bool) : Option Sessions :=
  if inserted then some (list.add session) else none

/-- `ewf_session_list_remove` -/
def ewfSessionListRemove (list : Sessions) (sid : String) : Sessions :=
  list.remove (Session.hasId sid)

/-- `ewf_session_list_get` -/
def ewfSessionListGet (list : Sessions) (sid : String) : Option (ℕ × Session) :=
  list.find? (Session.hasId sid)

/-- What a cleaner does with the session that its iterator is on, at the time `now`: a session that
is not activated lives for `lifetime` seconds.  `count` is the number of sessions removed so far. -/
def cleanSession {ι : Type} [DecidableEq ι] (lifetime now : Int) (list : NbuList ι Session)
    (session : Session) (count : ℕ) : Option (NbuList ι Session × ℕ) :=
  if session.activated = false ∧ session.tv + lifetime < now then
    (nbuListDeleteBackward list).map fun list => (list, count + 1)
  else if session.tv + sessionTimeout < now then
    (nbuListDeleteBackward list).map fun list => (list, count + 1)
  else some (list, count)

/-- The loop of a cleaner, `nbu_list_for_each_data`: the number of sessions it has removed, those it
has seen, and the list; `none` if it does not end within `fuel` rounds.  No session is stored at the
address of the list, which would end the loop as well. -/
def cleanerLoop {ι : Type} [DecidableEq ι] (lifetime now : Int) :
    ℕ → NbuList ι Session → ℕ → List Session → Option (ℕ × List Session × NbuList ι Session)
  | 0, _, _, _ => none
  | fuel + 1, list, count, seen =>
    if nbuListIteratorIsValid list then do
      let session ← nbuListGet list
      let (list, count) ← cleanSession lifetime now list session count
      let list ← nbuListIteratorNext list
      cleanerLoop lifetime now fuel list count (seen ++ [session])
    else some (count, seen, list)

/-- What `ewf_session_create` meets: the clock, if it can be read, and the bytes `fread` gets from
`/dev/random`, if it can be opened. -/
structure Entropy where
  clock : Option Int
  random : Option (List UInt8)

/-- `ewf_session_create` -/
def ewfSessionCreate (e : Entropy) : Option Session :=
  match e.clock, e.random with
  | some tv, some rdm =>
    if rdm.length = sidLen / 2 then some { activated := false, id := hexString rdm, tv } else none
  | _, _ => none

end Neufbox.Libewf
