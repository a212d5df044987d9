import Treecast.Store
import Treecast.Kind
import Treecast.Meters
import Treecast.Routing.Metadata

/-!
# Declarations of consumers

A client that reads a service cluster may be declared in that cluster's metadata as a consumer.
A declaration reads the cluster's node and, if the consumer is not there yet, writes the node
back with the consumer added, provided that nobody else wrote in between; if somebody did, it
starts over, a limited number of times.  All other metadata stays as it was.
-/

set_option autoImplicit false

namespace Treecast

open Routing

/-- How a declaration ends when it does not fail. -/
inductive Declaration where
  | recorded
  | present
  | missing
  | malformed
  deriving DecidableEq, Repr

/-- The outcome that is counted. -/
def Declaration.outcome : Declaration → DeclarationOutcome
  | .recorded => .recorded
  | .present => .present
  | .missing => .missing
  | .malformed => .malformed

/-- Who consumes: a cluster of an application. -/
structure Consumer where
  application : String
  cluster : String
  deriving DecidableEq, Repr

def Routing.ClusterMetadata.hasConsumer (m : ClusterMetadata) (c : Consumer) : Bool :=
  ((m.dependency.find? c.application).getD []).contains c.cluster

def inOrder (names : List String) : List String :=
  names.mergeSort fun a b => compare a b != .gt

def Routing.ClusterMetadata.addConsumer (m : ClusterMetadata) (c : Consumer) : ClusterMetadata :=
  let clusters := (m.dependency.find? c.application).getD []
  { m with dependency := m.dependency.insert c.application (inOrder (clusters ++ [c.cluster])) }

/-- What a declaration does after it has read the node. -/
inductive DeclareStep where
  | finish (d : Declaration)
  /-- Write the value, if the node still has that version. -/
  | write (value : String) (version : Int)
  deriving DecidableEq, Repr

/-- Looks at the node that was read. -/
def declareStep (c : Consumer) : Option Node → DeclareStep
  | none => .finish .missing
  | some node =>
    match ClusterMetadata.decode? node.value with
    | none => .finish .malformed
    | some m =>
      if m.hasConsumer c then .finish .present
      else .write (m.addConsumer c).encode node.version

/-- How far a declaration has come. -/
inductive DeclarePhase where
  | reading
  | writing (value : String) (version : Int)
  | ended (result : Except StoreError Declaration)

/-- A declaration on its way. -/
structure Declarer where
  path : String
  consumer : Consumer
  /-- How many attempts may end in a conflict. -/
  limit : Nat
  /-- How many attempts were begun. -/
  attempts : Nat
  phase : DeclarePhase

namespace Declarer

/-- The path of a service cluster. -/
def clusterPath (application cluster : String) : String :=
  Path.join [TreeKind.service.name, application, cluster]

/-- A declaration at its start, with at least one attempt. -/
def create (application cluster : String) (consumer : Consumer) (maxRetries : Nat) : Declarer :=
  ⟨clusterPath application cluster, consumer, max maxRetries 1, 1, .reading⟩

def onRead (d : Declarer) (found : Except StoreError (Option Node)) : Declarer :=
  match found with
  | .error e => { d with phase := .ended (.error e) }
  | .ok node =>
    match declareStep d.consumer node with
    | .finish result => { d with phase := .ended (.ok result) }
    | .write value version => { d with phase := .writing value version }

/-- Whether a failure means that somebody else wrote first. -/
def isConflict : StoreError → Bool
  | .versionConflict _ _ _ => true
  | _ => false

/-- The node was written, or was not. -/
def onWrite (d : Declarer) (written : Except StoreError Stat) : Declarer :=
  match written with
  | .ok _ => { d with phase := .ended (.ok .recorded) }
  | .error e =>
    if isConflict e ∧ d.attempts < d.limit then
      { d with phase := .reading, attempts := d.attempts + 1 }
    else { d with phase := .ended (.error e) }

def step (s : Store) (d : Declarer) : Store × Declarer :=
  match d.phase with
  | .reading => (s, d.onRead (s.get d.path))
  | .writing value version =>
    let (s, written) := s.set d.path value (some version)
    (s, d.onWrite written)
  | .ended _ => (s, d)

/-- What is counted for a declaration that ended so. -/
def outcomeOf : Except StoreError Declaration → DeclarationOutcome
  | .ok d => d.outcome
  | .error e => if isConflict e then .conflict else .failed

end Declarer

end Treecast
