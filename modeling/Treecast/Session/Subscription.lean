import Treecast.Request
import Treecast.Message
import Treecast.Routing.Resolution

/-!
# Subscriptions

A subscription is one feed inside a running session: what the client wants of it, which clusters
serve each wanted name, and up to which revision of the replica the client has been told.
-/

set_option autoImplicit false

namespace Treecast

open Routing

/-- How a session reads names: its mode, the policy in force and what is known of the caller. -/
structure Viewpoint where
  mode : RouteMode
  policy : Policy
  caller : Option CallerRoute

/-- One feed of a session. -/
structure Subscription where
  feed : FeedKey
  selection : Selection
  /-- The clusters that serve each wanted name. -/
  resolved : SortedMap String (List String)
  /-- The revision that the last full section showed. -/
  seen : Nat
  deriving DecidableEq

namespace Subscription

/-- A subscription that has not been resolved yet. -/
def create (feed : FeedKey) (selection : Selection) : Subscription :=
  ⟨feed, selection, SortedMap.empty, 0⟩

/-- The tree that the subscription reads. -/
def tree (s : Subscription) : TreeKey := s.feed.tree

/-- Whether resolution asks who the caller is. -/
def needsCaller (s : Subscription) (mode : RouteMode) : Bool :=
  s.tree.kind.carriesRouting && (mode != .orig || s.selection.intentRouting)

/-- The names that the client wants. -/
def wanted (s : Subscription) (replica : Replica) : List String :=
  if s.selection.isAll then replica.clusterNames else s.selection.clusters.elements

def options (s : Subscription) (v : Viewpoint) : ResolveOptions :=
  ⟨v.caller, v.mode = .route || s.selection.intentRouting, v.mode = .prefixed⟩

/-- The clusters that serve one name: the one that it is pinned to, or those that it resolves to,
or in a tree without routing the cluster of that name. -/
def serving (s : Subscription) (replica : Replica) (v : Viewpoint) (name : String) :
    List String :=
  match s.selection.pinned.find? name with
  | some target => [target]
  | none =>
    if s.tree.kind.carriesRouting then
      (Destination.resolve? ⟨s.feed.application, replica, v.policy⟩ name (s.options v)).getD []
    else [name]

/-- The clusters that serve each wanted name. -/
def resolve (s : Subscription) (replica : Replica) (v : Viewpoint) :
    SortedMap String (List String) :=
  SortedMap.ofList ((s.wanted replica).map fun name => (name, s.serving replica v name))

/-- Resolves again. -/
def refresh (s : Subscription) (replica : Replica) (v : Viewpoint) : Subscription :=
  { s with resolved := s.resolve replica v }

/-- Adds the entries whose keys are not there yet. -/
def addMissing {ν : Type} (known more : Entries String ν) : Entries String ν :=
  more.foldl (fun known e =>
    if (Entries.find? e.1 known).isSome then known else Entries.insert e.1 e.2 known) known

/-- The keys of clusters together; a key of several clusters counts for the first of them. -/
def mergedKeys (replica : Replica) (clusters : List String) : Entries String Json.Value :=
  clusters.foldl (fun known name =>
    match replica.cluster? name with
    | some c =>
      addMissing known (c.keys.toList.map fun k => (k.1, Sections.keyEntry (some k.2.value)))
    | none => known) []

/-- The descriptive fields of clusters together; of several values the first counts. -/
def mergedInfo (replica : Replica) (clusters : List String) : Entries String Json.Value :=
  clusters.foldl (fun known name =>
    match replica.cluster? name with
    | some c => addMissing known (ClusterMetadata.decode c.value).info
    | none => known) []

/-- What a name shows. -/
def payload (s : Subscription) (replica : Replica) (clusters : List String) : Json.Value :=
  .object <|
    match s.feed.kind with
    | .serviceInfo => mergedInfo replica clusters
    | _ => mergedKeys replica clusters

/-- Writes the full section into a body. -/
def dump (s : Subscription) (replica : Replica) (body : Sections) : Sections :=
  s.resolved.toList.foldl
    (fun body e => body.putCluster s.feed e.1 (s.payload replica e.2)) (body.touch s.feed)

/-- The client is told everything up to the replica's revision. -/
def sawAll (s : Subscription) (replica : Replica) : Subscription :=
  { s with seen := replica.revision }

/-- Whether a cluster serves any wanted name. -/
def uses (s : Subscription) (cluster : String) : Bool :=
  s.resolved.values.any fun clusters => clusters.contains cluster

/-- The value that a changed key of a cluster now has under a name served by `clusters`: of a
single cluster the changed value itself, of several the first one's that has the key. -/
def keyValue (replica : Replica) (clusters : List String) (key : String)
    (changed : Option String) : Option String :=
  if clusters.length = 1 then changed
  else clusters.findSome? fun c => (replica.key? c key).map Node.value

/-- What a change of a key tells the client: updated and deleted keys by name. -/
def keyNews (s : Subscription) (replica : Replica) (cluster key : String)
    (changed : Option String) : List (String × Option String) :=
  s.resolved.toList.filterMap fun e =>
    if e.2.contains cluster then some (e.1, keyValue replica e.2 key changed) else none

end Subscription

end Treecast
