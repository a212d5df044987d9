import Treecast.Store

/-!
# Replicas

A replica is the copy of one tree that a holder keeps: the application node, its cluster nodes
and the key nodes below each cluster.  Store events are applied one at a time; each event that
changes the replica raises its revision by one and yields the change.

A node that is created again counts as updated, so that a replay after a reconnection is
harmless.  A key may arrive before its cluster; the cluster's own node is then still unknown.
-/

set_option autoImplicit false

namespace Treecast

/-- What happened to a node. -/
inductive ChangeKind where
  | created
  | updated
  | deleted
  deriving DecidableEq, Repr

/-- The place of a node in a tree. -/
inductive Level where
  | application
  | cluster (cluster : String)
  | key (cluster key : String)
  deriving DecidableEq, Repr

/-- Whether a node there carries metadata that routing reads. -/
def Level.isStructural : Level → Bool
  | .key _ _ => false
  | _ => true

/-- One change of a replica. -/
structure Change where
  revision : Nat
  kind : ChangeKind
  level : Level
  /-- The new value; none after a deletion. -/
  value : Option String
  deriving DecidableEq, Repr

/-- A cluster of a replica. -/
structure Cluster where
  /-- The cluster's own node, once it has been seen. -/
  node : Option Node
  keys : SortedMap String Node
  deriving DecidableEq

/-- The cluster of which nothing is known. -/
def Cluster.unseen : Cluster := ⟨none, SortedMap.empty⟩

/-- The value of the cluster's own node. -/
def Cluster.value (c : Cluster) : String :=
  match c.node with
  | some node => node.value
  | none => ""

/-- The copy of one tree. -/
structure Replica where
  root : String
  application : Option Node
  clusters : SortedMap String Cluster
  revision : Nat
  deriving DecidableEq

namespace Replica

/-- The replica that has seen nothing yet. -/
def empty (root : String) : Replica := ⟨root, none, SortedMap.empty, 0⟩

/-- The value of the application node. -/
def applicationValue (r : Replica) : String :=
  match r.application with
  | some node => node.value
  | none => ""

/-- The names of the clusters, in order. -/
def clusterNames (r : Replica) : List String := r.clusters.keys

def cluster? (r : Replica) (name : String) : Option Cluster := r.clusters.find? name

def hasCluster (r : Replica) (name : String) : Bool := r.clusters.contains name

def key? (r : Replica) (cluster key : String) : Option Node :=
  match r.cluster? cluster with
  | some c => c.keys.find? key
  | none => none

/-- The store path of a cluster. -/
def clusterPath (r : Replica) (cluster : String) : String := r.root ++ "/" ++ cluster

/-- Path and value of every key, cluster by cluster. -/
def instances (r : Replica) : List (String × String) :=
  r.clusters.toList.flatMap fun c =>
    c.2.keys.toList.map fun k => (r.clusterPath c.1 ++ "/" ++ k.1, k.2.value)

/-- Splits at every slash. -/
def segments : List Char → List (List Char)
  | [] => [[]]
  | c :: rest =>
    if c = '/' then [] :: segments rest
    else
      match segments rest with
      | [] => [[c]]
      | s :: more => (c :: s) :: more

/-- The place of a path in the tree at `root`; none for a path outside it or below its keys. -/
def levelAt (root path : String) : Option Level :=
  match Path.after? root.toList path.toList with
  | none => none
  | some [] => some .application
  | some ('/' :: rest) =>
    match segments rest with
    | [cluster] => if cluster.isEmpty then none else some (.cluster (String.ofList cluster))
    | [cluster, key] =>
      if cluster.isEmpty || key.isEmpty then none
      else some (.key (String.ofList cluster) (String.ofList key))
    | _ => none
  | some _ => none

/-- The place of a path in this replica's tree. -/
def classify (r : Replica) (path : String) : Option Level := levelAt r.root path

/-- The cluster of that name, or the one of which nothing is known. -/
def clusterOrUnseen (r : Replica) (name : String) : Cluster :=
  (r.cluster? name).getD Cluster.unseen

/-- Whether a node at that place was new or known. -/
def upsertKind (known : Option Node) : ChangeKind :=
  if known.isSome then .updated else .created

/-- Puts a node in its place. -/
def upsert (r : Replica) (level : Level) (node : Node) : Replica × ChangeKind :=
  match level with
  | .application => ({ r with application := some node }, upsertKind r.application)
  | .cluster name =>
    let c := r.clusterOrUnseen name
    ({ r with clusters := r.clusters.insert name { c with node := some node } },
      upsertKind c.node)
  | .key name key =>
    let c := r.clusterOrUnseen name
    ({ r with clusters := r.clusters.insert name { c with keys := c.keys.insert key node } },
      upsertKind (c.keys.find? key))

/-- Removes what is at a place and below it; none if nothing is there. -/
def remove (r : Replica) (level : Level) : Option Replica :=
  match level with
  | .application =>
    if r.application.isSome || !r.clusters.isEmpty then
      some { r with application := none, clusters := SortedMap.empty }
    else none
  | .cluster name =>
    if r.clusters.contains name then some { r with clusters := r.clusters.erase name } else none
  | .key name key =>
    match r.cluster? name with
    | none => none
    | some c =>
      if c.keys.contains key then
        some { r with clusters := r.clusters.insert name { c with keys := c.keys.erase key } }
      else none

/-- Puts a node and counts the change. -/
def put (r : Replica) (path : String) (node : Node) : Replica × Option Change :=
  match r.classify path with
  | none => (r, none)
  | some level =>
    let (r', kind) := r.upsert level node
    let revision := r.revision + 1
    ({ r' with revision }, some ⟨revision, kind, level, some node.value⟩)

/-- Removes a node and counts the change. -/
def drop (r : Replica) (path : String) : Replica × Option Change :=
  match r.classify path with
  | none => (r, none)
  | some level =>
    match r.remove level with
    | none => (r, none)
    | some r' =>
      let revision := r.revision + 1
      ({ r' with revision }, some ⟨revision, .deleted, level, none⟩)

/-- Applies one store event; the change is none when the event does not concern the tree. -/
def apply (r : Replica) : StoreEvent → Replica × Option Change
  | .created path node | .updated path node => r.put path node
  | .deleted path => r.drop path
  | .initialized | .connection _ => (r, none)

def applyAll (r : Replica) (events : List StoreEvent) : Replica :=
  events.foldl (fun r e => (r.apply e).1) r

end Replica

end Treecast
