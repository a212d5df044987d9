import Treecast.Routing.Settings
import Treecast.Request

/-!
# Forced routes

An operator may force requested cluster names, or all names with a given start, onto a fixed
cluster.  Applying the table pins those names in a request; pins that are already there stay.
-/

set_option autoImplicit false

namespace Treecast.Routing

/-- The table of forced routes. -/
structure ForceTable where
  /-- Targets by whole name. -/
  exact : SortedMap String String
  /-- Targets by the start of a name, the longest start first. -/
  starts : List (String × String)
  /-- The callers left alone, by destination. -/
  exclusions : SortedMap String (List String)

namespace ForceTable

/-- The start in a pattern that ends with `*`. -/
def start? (pattern : String) : Option String :=
  match pattern.toList.reverse with
  | '*' :: rest => some (String.ofList rest.reverse)
  | _ => none

/-- Whether the first entry is tried before the second: the one with the longer start, of two as
long the earlier one in order. -/
def triedBefore (a b : String × String) : Bool :=
  a.1.utf8ByteSize > b.1.utf8ByteSize ||
    (a.1.utf8ByteSize = b.1.utf8ByteSize && compare a.1 b.1 != .gt)

/-- The table of the settings. -/
def ofSettings (s : HijackSettings) : ForceTable :=
  let patterns := s.forceClusters.toList
  { exact := s.forceClusters.filter fun pattern _ => (start? pattern).isNone
    starts := (patterns.filterMap fun p => (start? p.1).map fun start => (start, p.2)).mergeSort
      triedBefore
    exclusions := s.forceExclusions }

/-- The cluster that a name is forced onto. -/
def lookup (t : ForceTable) (cluster : String) : Option String :=
  match t.exact.find? cluster with
  | some target => some target
  | none =>
    (t.starts.find? fun s => s.1.toList.isPrefixOf cluster.toList).map Prod.snd

/-- Whether the destination leaves the caller alone. -/
def excludes (t : ForceTable) (destination : String) (caller : Option String) : Bool :=
  match caller with
  | some caller =>
    match t.exclusions.find? destination with
    | some callers => callers.contains caller
    | none => false
  | none => false

/-- One cluster of a request that is forced onto a target. -/
structure Pin where
  feed : FeedKey
  cluster : String
  target : String
  deriving DecidableEq, Repr

def pinsFor (t : ForceTable) (caller : Option String) (key : FeedKey) (s : Selection) :
    List Pin :=
  if !key.kind.tree.carriesRouting || t.excludes key.application caller then []
  else
    s.clusters.elements.filterMap fun cluster =>
      if s.isPinned cluster then none
      else (t.lookup cluster).map fun target => ⟨key, cluster, target⟩

def pins (t : ForceTable) (request : Request) (caller : Option String) : List Pin :=
  request.toList.flatMap fun e => t.pinsFor caller e.1 e.2

/-- Sets pins one after another up to the first that is refused. -/
def setPins : Request → List Pin → (done : Nat) → Request × Nat × Option RequestFault
  | request, [], done => (request, done, none)
  | request, p :: rest, done =>
    match request.pin p.feed p.cluster p.target with
    | .ok request => setPins request rest (done + 1)
    | .error fault => (request, done, some fault)

/-- Pins what the table forces.  Returns the request, how many clusters were pinned, and why the
next one was refused, if one was. -/
def apply (t : ForceTable) (request : Request) (caller : Option String) :
    Request × Nat × Option RequestFault :=
  setPins request (t.pins request caller) 0

end ForceTable

end Treecast.Routing
