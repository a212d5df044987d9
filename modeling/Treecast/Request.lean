import Treecast.Error
import Treecast.Json.Reader
import Treecast.Json.Decode

/-!
# Subscription requests

A request names feeds and, for each, the clusters that the client wants; no cluster means all of
them.  A cluster may be *pinned*: it is then served from a fixed cluster, whatever routing says.

A body is `{kind: {application: [cluster, …]}}`.  It is read kind by kind in the order of
their names, and the first offending item is reported.
-/

set_option autoImplicit false

namespace Treecast

/-- What a client wants of one feed. -/
structure Selection where
  /-- The clusters by the client's names; none of them means every cluster. -/
  clusters : SortedSet String
  /-- The clusters that serve pinned names. -/
  pinned : SortedMap String String
  /-- Whether route intents among the names are resolved in every route mode. -/
  intentRouting : Bool
  deriving DecidableEq

namespace Selection

/-- Every cluster, nothing pinned. -/
def all : Selection := ⟨SortedMap.empty, SortedMap.empty, false⟩

instance : Inhabited Selection := ⟨all⟩

/-- Whether every cluster is wanted. -/
def isAll (s : Selection) : Bool := s.clusters.isEmpty

def isPinned (s : Selection) (cluster : String) : Bool := s.pinned.contains cluster

def limit (s : Selection) (cluster : String) : Selection :=
  { s with clusters := s.clusters.add cluster }

/-- Adds a cluster that `target` serves. -/
def pin (s : Selection) (cluster target : String) : Selection :=
  { s with clusters := s.clusters.add cluster, pinned := s.pinned.insert cluster target }

/-- Both selections together; of two pins of one name the second one's stays. -/
def union (s other : Selection) : Selection :=
  ⟨s.clusters.union other.clusters, s.pinned.union other.pinned,
    s.intentRouting || other.intentRouting⟩

end Selection

/-- A subscription request. -/
structure Request where
  selections : SortedMap FeedKey Selection
  deriving DecidableEq

namespace Request

/-- The request for nothing. -/
def empty : Request := ⟨SortedMap.empty⟩

instance : Inhabited Request := ⟨empty⟩

/-- What is wanted of a feed. -/
def find? (r : Request) (key : FeedKey) : Option Selection := r.selections.find? key

/-- The feeds with what is wanted of them, by kind and application. -/
def toList (r : Request) : List (FeedKey × Selection) := r.selections.toList

def isEmpty (r : Request) : Bool := r.selections.isEmpty

/-- The number of feeds. -/
def size (r : Request) : Nat := r.selections.size

/-- Refuses a name that is not valid. -/
def checkName (role : NameRole) (name : String) : Except RequestFault Unit :=
  if isValidName name then .ok () else .error (.invalidName role name)

/-- What is wanted of a feed so far. -/
def selectionOf (r : Request) (key : FeedKey) : Selection := (r.find? key).getD Selection.all

/-- Changes what is wanted of a feed, which is added if it is new. -/
def alter (r : Request) (key : FeedKey) (f : Selection → Selection) : Request :=
  ⟨r.selections.insert key (f (r.selectionOf key))⟩

def watch (r : Request) (key : FeedKey) : Except RequestFault Request := do
  checkName .application key.application
  return r.alter key id

/-- Asks for one cluster of a feed, besides those asked for already. -/
def limit (r : Request) (key : FeedKey) (cluster : String) : Except RequestFault Request := do
  checkName .cluster cluster
  checkName .application key.application
  return r.alter key (·.limit cluster)

/-- Asks for one cluster of a feed, to be served from `target`. -/
def pin (r : Request) (key : FeedKey) (cluster target : String) :
    Except RequestFault Request := do
  checkName .cluster cluster
  checkName .cluster target
  checkName .application key.application
  return r.alter key (·.pin cluster target)

/-- Resolves intents in every route mode for a feed that is asked for. -/
def routeIntents (r : Request) (key : FeedKey) : Request :=
  ⟨r.selections.modify key fun s => { s with intentRouting := true }⟩

/-- Both requests together. -/
def merge (r other : Request) : Request :=
  other.toList.foldl (fun acc e => acc.alter e.1 (·.union e.2)) r

/-- The body as decoded: for every kind its applications with their clusters. -/
abbrev Body := SortedMap String (SortedMap String (List String))

def bodyOfText? (text : String) : Option Body := do
  let value ← Json.readSource text
  value.mapOf? (Json.Value.mapOf? (Json.Value.listOf? Json.Value.text?))

/-- Adds a feed with its clusters, in the order in which they are listed. -/
def addFeed (r : Request) (key : FeedKey) (clusters : List String) :
    Except RequestFault Request := do
  let r ← r.watch key
  clusters.foldlM (fun r cluster => r.limit key cluster) r

/-- Adds the feeds of one kind. -/
def addKind (r : Request) (kindName : String) (applications : SortedMap String (List String)) :
    Except RequestFault Request :=
  match FeedKind.ofName? kindName with
  | none => .error (.unknownFeed kindName)
  | some kind => applications.toList.foldlM (fun r a => r.addFeed ⟨kind, a.1⟩ a.2) r

/-- The request of a decoded body. -/
def ofBody (body : Body) : Except RequestFault Request := do
  let r ← body.toList.foldlM (fun r k => r.addKind k.1 k.2) empty
  if r.isEmpty then throw .nothingToWatch
  return r

/-- The request in a body's bytes. -/
def ofBytes (bytes : List UInt8) : Except RequestFault Request :=
  match (Json.textOfBytes? bytes).bind bodyOfText? with
  | none => .error .malformedBody
  | some body => ofBody body

end Request

end Treecast
