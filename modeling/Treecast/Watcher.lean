import Treecast.Request
import Treecast.Routing.Resolution

/-!
# Watchers

A watcher collects what a client wants before its session starts.  Once it has started or was
closed, nothing can be added.
-/

set_option autoImplicit false

namespace Treecast

open Routing

/-- How a session is to run. -/
structure WatchOptions where
  /-- Whether the session begins with an `all`. -/
  initial : Bool
  /-- The life span that the client asks for, in milliseconds. -/
  lifeSpan : Option Nat
  caller : Option Caller
  mode : RouteMode
  deriving DecidableEq

/-- The milliseconds that a session lives: what is asked for, but no more than the limit. -/
def WatchOptions.lifeSpanWithin (o : WatchOptions) (limit : Nat) : Nat :=
  match o.lifeSpan with
  | some span => min span limit
  | none => limit

/-- What a client wants of a session. -/
structure Watcher where
  options : WatchOptions
  request : Request
  phase : WatcherPhase
  /-- Whether its session is to end. -/
  cancelled : Bool
  deriving DecidableEq

/-- What can be asked of a watcher. -/
inductive WatchCall where
  | watch (feed : FeedKey)
  | limit (feed : FeedKey) (cluster : String)
  | pin (feed : FeedKey) (cluster target : String)
  | merge (request : Request)
  deriving DecidableEq

def Request.answer (r : Request) : WatchCall → Except RequestFault Request
  | .watch feed => r.watch feed
  | .limit feed cluster => r.limit feed cluster
  | .pin feed cluster target => r.pin feed cluster target
  | .merge other => .ok (r.merge other)

namespace Watcher

/-- A watcher that wants nothing yet. -/
def create (options : WatchOptions) : Watcher := ⟨options, Request.empty, .new, false⟩

/-- The number of characters in a watcher's name; they are letters, digits, `-` and `_`. -/
def nameLength : Nat := 10

/-- Refuses unless the watcher is new. -/
def checkNew (w : Watcher) : Except Failure Unit :=
  if w.phase = .new then .ok () else .error (.illegalState w.phase)

/-- Asks for more. -/
def answer (w : Watcher) (call : WatchCall) : Watcher × Except Failure Unit :=
  match w.checkNew with
  | .error f => (w, .error f)
  | .ok () =>
    match w.request.answer call with
    | .ok request => ({ w with request }, .ok ())
    | .error fault => (w, .error (.request fault))

/-- Closes the watcher, which ends its session. -/
def close (w : Watcher) : Watcher := { w with phase := .closed, cancelled := true }

/-- Ends the session of the watcher. -/
def cancel (w : Watcher) : Watcher := { w with cancelled := true }

/-- Claims the start of the session, which needs something to watch. -/
def claimStart (w : Watcher) : Watcher × Except Failure Unit :=
  match w.checkNew with
  | .error f => (w, .error f)
  | .ok () =>
    if w.request.isEmpty then (w, .error (.request .nothingToWatch))
    else ({ w with phase := .started }, .ok ())

end Watcher

end Treecast
