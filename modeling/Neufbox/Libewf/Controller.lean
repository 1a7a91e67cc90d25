import Neufbox.Libewf.Smith

/-!
# The libewf controller

Model of `core/ewf_controller.c`: the access control of a page and the choice of its handlers.  The
handlers are functions of the application: `Page` is given over any type `H` of handlers, and the
controller takes what a handler does with the session list (`run`).  Rendering is left out.
-/

namespace Neufbox.Libewf

/-- `enum request_type` -/
inductive RequestType where
  | display
  | form
  | ajax
  deriving DecidableEq

/-- `ewf_page_t` -/
structure Page (H : Type) where
  name : String
  accessPolicy : PageAccess
  displayHandler : Option H
  formHandler : Option H
  ajaxHandler : Option H

def uriPageLogin : String := "/login"

variable {H : Type}

/-- The handlers of the page that the controller calls for a request, in order. -/
def Page.dispatched (page : Page H) : RequestType → List H
  | .ajax => page.ajaxHandler.toList
  | .form => page.formHandler.toList ++ page.displayHandler.toList
  | .display => page.displayHandler.toList

/-- The handlers `ewf_controller` runs after the access control answered `ctl`.  A user who needs no
login, or has logged in, is sent from the login page to the index. -/
def Page.handlers (page : Page H) (type : RequestType) (ctl : SmithCtl) : List H :=
  if ctl.toInt ≥ SmithCtl.success.toInt then
    if (ctl = .success ∨ ctl = .authOff) ∧ page.name = uriPageLogin then []
    else page.dispatched type
  else []

/-- Handlers one after the other. -/
def runHandlers (run : H → Sessions → Sessions × List SessionEvent) (list : Sessions) :
    List H → Sessions × List SessionEvent
  | [] => (list, [])
  | h :: hs =>
    let (list, events) := run h list
    let (list, events') := runHandlers run list hs
    (list, events ++ events')

/-- `ewf_controller`: the list and the events. -/
def ewfController (run : H → Sessions → Sessions × List SessionEvent) (list : Sessions)
    (type : RequestType) (page : Page H) (visit : Visit) : Sessions × List SessionEvent :=
  let (ctl, list, events) := ewfSmithAccessControl list page.accessPolicy visit
  let (list, events') := runHandlers run list (page.handlers type ctl)
  (list, events ++ events')

end Neufbox.Libewf
