import Treecast.Routing.Resolution
import Treecast.Message
import Treecast.Meters

/-!
# Hijacking

While traffic is moved to other clusters, a hijacked client keeps asking for its old clusters and
gets the data of the cluster that its intent is routed to.  For every destination application
one mode is in force:

* *disabled*: requests and messages stay as they are;
* *checking*: the intent is asked for on the side and looked at, but the client never sees it;
* *enabled*: the intent's data is shown under every cluster name that the client asked for;
* *standalone*: as enabled, except for callers that the destination leaves alone.

A destination whose intent leads nowhere is only checked.
-/

set_option autoImplicit false

namespace Treecast.Routing

open Json (Value)

/-- What hijacking does for one destination. -/
structure Takeover where
  mode : HijackMode
  /-- The requested clusters that show the intent's data. -/
  clusters : SortedSet String
  /-- Whether the client asked for the intent itself. -/
  intentRequested : Bool
  diagnostics : List Diagnostic
  deriving DecidableEq

/-- The hijacking of one client. -/
structure Hijack where
  policy : Policy
  caller : Option Caller
  mode : RouteMode
  /-- What is done, by destination. -/
  takeovers : SortedMap String Takeover

namespace Hijack

/-- The hijacking of a client before its destinations are looked at. -/
def create (policy : Policy) (caller : Option Caller) (mode : RouteMode) : Hijack :=
  ⟨policy, caller, mode, SortedMap.empty⟩

/-- The intent whose data is shown. -/
def intent (h : Hijack) : String := h.policy.hijack.intent

/-- What is done for a destination. -/
def takeover? (h : Hijack) (application : String) : Option Takeover :=
  h.takeovers.find? application

/-- Whether any destination is hijacked or checked. -/
def isActive (h : Hijack) : Bool := h.takeovers.values.any fun t => t.mode ≠ .disabled

/-- The mode that is set for a destination; clients that route intents themselves and clients
that do not say who they are, are left alone. -/
def modeFor (h : Hijack) (application : String) : HijackMode :=
  if h.mode = .route then .disabled
  else
    match h.caller with
    | none => .disabled
    | some caller =>
      match h.policy.hijackMode caller.application (some caller.cluster) with
      | .standalone =>
        if h.policy.standaloneExcludes application caller.application then .disabled
        else .standalone
      | mode => mode

/-- The clusters of a selection that may be hijacked. -/
def hijackable (h : Hijack) (s : Selection) : SortedSet String :=
  s.clusters.filter fun c _ => !s.isPinned c && !h.policy.isIntent c

/-- What would be done for one feed of a request. -/
def candidate? (h : Hijack) (feed : FeedKey) (s : Selection) : Option Takeover :=
  let mode := h.modeFor feed.application
  let clusters := h.hijackable s
  if feed.kind ≠ .service ∨ mode = .disabled ∨ clusters.isEmpty then none
  else some ⟨mode, clusters, s.clusters.has h.intent, []⟩

/-- The destinations of a request that are to be looked at, in order. -/
def candidates (h : Hijack) (request : Request) : List (String × Takeover) :=
  request.toList.filterMap fun e =>
    (h.candidate? e.1 e.2).map fun t => (e.1.application, t)

/-- The clusters that serve the given names, and whether all names have a mapping. -/
def servedBy (d : Destination) (names : List String) (options : ResolveOptions) :
    SortedSet String × Bool :=
  names.foldl (fun (found, complete) name =>
    match d.resolve? name options with
    | some clusters => (clusters.foldl SortedSet.add found, complete)
    | none => (found, false)) (SortedMap.empty, true)

/-- What is inconsistent about a destination whose intent leads to `target`. -/
def inconsistency? (target : List String) (served : SortedSet String) (complete : Bool) :
    Option Diagnostic :=
  if !complete || served.size ≠ 1 then some .unstable
  else if served ≠ SortedSet.ofElements target then some .mismatch
  else none

def diagnose (h : Hijack) (d : Destination) (caller : CallerRoute) (t : Takeover) : Takeover :=
  match d.resolve? h.intent ⟨some caller, true, false⟩ with
  | none | some [] => { t with mode := .checking }
  | some target =>
    let (served, complete) :=
      servedBy d t.clusters.elements ⟨some caller, false, h.mode = .prefixed⟩
    match inconsistency? target served complete with
    | some diagnostic => { t with diagnostics := t.diagnostics ++ [diagnostic] }
    | none => t

/-- Looks at one destination on the given trees and keeps what is to be done for it. -/
def prepareOn (h : Hijack) (application : String) (callerTree destination : Replica)
    (caller : Caller) (t : Takeover) : Hijack :=
  let route := CallerRoute.ofReplica callerTree h.policy caller
  let t := h.diagnose ⟨application, destination, h.policy⟩ route t
  { h with takeovers := h.takeovers.insert application t }

/-- Adds the intent to what is asked of every destination. -/
def extendRequest (h : Hijack) (request : Request) : Request × Option RequestFault :=
  h.takeovers.toList.foldl (fun (request, fault) e =>
    if fault.isSome || e.2.mode = .disabled then (request, fault)
    else
      let feed : FeedKey := ⟨.service, e.1⟩
      match request.limit feed h.intent with
      | .ok request => (request.routeIntents feed, none)
      | .error fault => (request, some fault)) (request, none)

/-- What a client sees of the clusters of a destination. -/
def projectClusters (intent : String) (kind : MessageKind) (t : Takeover)
    (clusters : Entries String Value) : Entries String Value :=
  let payload := Entries.find? intent clusters
  let clusters := if t.intentRequested then clusters else Entries.erase intent clusters
  if !t.mode.projects then clusters
  else
    let clusters :=
      if kind = .all then clusters
      else t.clusters.elements.foldl (fun cs c => Entries.erase c cs) clusters
    match payload with
    | some p => t.clusters.elements.foldl (fun cs c => Entries.insert c p cs) clusters
    | none => clusters

/-- The message with every destination as the client sees it. -/
def projectSections (h : Hijack) (m : Message) : Message :=
  h.takeovers.toList.foldl (fun m e =>
    if e.2.mode = .disabled then m
    else m.alterClusters ⟨.service, e.1⟩ (projectClusters h.intent m.kind e.2)) m

/-- What the client gets of a message; nothing if nothing is left of an `update` or `delete`. -/
def project (h : Hijack) (m : Message) : Option Message :=
  if m.kind = .ping ∨ !h.isActive then some m
  else
    let m := h.projectSections m
    if m.kind = .all then some m
    else
      let m := m.prune
      if m.hasEntries then some m else none

end Hijack

end Treecast.Routing
