import Treecast.Routing.Hijack
import Treecast.Watcher

/-!
# Long polling

What a client's request has to look like, and what is done with it before any tree is read: the
body is read, then the headers, then forced routes are applied.  The first fault is the answer.
-/

set_option autoImplicit false

namespace Treecast

open Routing

/-- What the query of a long poll may say. -/
structure PollQuery where
  trigger : Option Bool
  /-- The life span asked for, in seconds; zero means the longest possible. -/
  lifeSpan : Option Nat
  deriving DecidableEq, Repr

/-- What the headers of a long poll may say. -/
structure PollHeaders where
  mode : Option String
  cluster : Option String
  application : Option String
  deriving DecidableEq, Repr

namespace PollHeaders

/-- How names are to be read. -/
def routeMode (h : PollHeaders) : Except RequestFault RouteMode :=
  RouteMode.ofText (h.mode.getD "")

/-- Who is asking, if both names are given. -/
def caller (h : PollHeaders) : Except RequestFault (Option Caller) :=
  match h.application, h.cluster with
  | some application, some cluster =>
    if application = "" ∨ cluster = "" then .ok none
    else do
      Request.checkName .application application
      Request.checkName .cluster cluster
      return some ⟨application, cluster⟩
  | _, _ => .ok none

end PollHeaders

/-- A long poll whose request was accepted. -/
structure Poll where
  request : Request
  options : WatchOptions
  hijack : Hijack

namespace Poll

/-- The options that a query asks for. -/
def optionsOf (q : PollQuery) (caller : Option Caller) (mode : RouteMode) : WatchOptions :=
  let span := match q.lifeSpan with
    | some seconds => if seconds > 0 then some (seconds * 1000) else none
    | none => none
  ⟨q.trigger.getD true, span, caller, mode⟩

/-- Applies the forced routes of a policy: the request, how many clusters were forced, and a
fault. -/
def force (policy : Policy) (request : Request) (caller : Option Caller) :
    Request × Nat × Option RequestFault :=
  match policy.forceTable? with
  | some table => table.apply request (caller.map Caller.application)
  | none => (request, 0, none)

/-- Reads a body and the headers. -/
def read (body : List UInt8) (headers : PollHeaders) :
    Except RequestFault (Request × RouteMode × Option Caller) := do
  let request ← Request.ofBytes body
  let mode ← headers.routeMode
  let caller ← headers.caller
  return (request, mode, caller)

/-- The poll of a body, a query and headers, and how many clusters were forced onto others. -/
def ofParts (policy : Policy) (body : List UInt8) (query : PollQuery) (headers : PollHeaders) :
    Nat × Except RequestFault Poll :=
  match read body headers with
  | .error fault => (0, .error fault)
  | .ok (request, mode, caller) =>
    match force policy request caller with
    | (request, forced, none) =>
      (forced, .ok ⟨request, optionsOf query caller mode, Hijack.create policy caller mode⟩)
    | (_, forced, some fault) => (forced, .error fault)

end Poll

/-- The status of an answer that says a failure. -/
def Failure.status (f : Failure) : Nat :=
  if f.isClientError then 400 else if f.isTimeout then 504 else 500

end Treecast
