import Treecast.Sorted
import Treecast.Path
import Treecast.Error

/-!
# The coordination store

A tree of versioned nodes, kept as a map from paths, with watches on subtrees.  A watch first
receives one `created` event per node that is already there, then `initialized`, then every
later change at or below its root in the order in which the changes were made.  Events wait in
the watch's queue until its reader takes them.

Every operation checks its arguments before it changes anything, so a refused operation leaves
the store as it was.
-/

set_option autoImplicit false

namespace Treecast

/-- A stored node. -/
structure Node where
  value : String
  /-- How often the value was set since the node was created. -/
  version : Int
  /-- How many nodes are one segment below. -/
  childCount : Nat
  deriving DecidableEq, Repr, Inhabited

/-- What is reported of a node after a write. -/
structure Stat where
  version : Int
  childCount : Nat
  deriving DecidableEq, Repr

def Node.stat (node : Node) : Stat := ⟨node.version, node.childCount⟩

/-- Changes of the store session. -/
inductive Connection where
  | suspended
  | lost
  | reconnected
  deriving DecidableEq, Repr

/-- The word for a session change. -/
def Connection.word : Connection → String
  | .suspended => "suspended"
  | .lost => "lost"
  | .reconnected => "reconnected"

/-- The session change of that word. -/
def Connection.ofWord? (text : String) : Option Connection :=
  [Connection.suspended, .lost, .reconnected].find? (·.word = text)

/-- What a watch tells its reader. -/
inductive StoreEvent where
  | created (path : String) (node : Node)
  | updated (path : String) (node : Node)
  | deleted (path : String)
  | initialized
  | connection (state : Connection)
  deriving DecidableEq, Repr

/-- A watch on the nodes at or below `root`. -/
structure Watch where
  id : Nat
  root : String
  /-- Whether anyone still reads the queue. -/
  read : Bool
  queue : List StoreEvent
  deriving DecidableEq, Repr

/-- The store. -/
structure Store where
  nodes : SortedMap String Node
  watches : List Watch
  /-- The id of the next watch. -/
  nextWatch : Nat

namespace Store

/-- The store without nodes and watches. -/
def empty : Store := ⟨SortedMap.empty, [], 0⟩

instance : Inhabited Store := ⟨empty⟩

def has (s : Store) (path : String) : Bool := s.nodes.contains path

/-- Refuses a path that is not well formed. -/
def checkPath (path : String) : Except StoreError Unit :=
  if Path.isWellFormed path then .ok () else .error (.invalidPath path)

/-- The node at `path`, if there is one. -/
def get (s : Store) (path : String) : Except StoreError (Option Node) := do
  checkPath path
  return s.nodes.find? path

/-- The names of the nodes one segment below `path`. -/
def childNames (s : Store) (path : String) : List String :=
  s.nodes.keys.filterMap (Path.childName? path)

/-- The names of the nodes one segment below a stored node, or below `/`. -/
def children (s : Store) (path : String) : Except StoreError (List String) := do
  checkPath path
  if path ≠ Path.top ∧ ¬ s.has path then throw (.noNode path)
  return s.childNames path

/-- Queues `event` to every watch that covers `path`; a covering watch that nobody reads is
removed. -/
def publish (s : Store) (path : String) (event : StoreEvent) : Store :=
  { s with
    watches := s.watches.filterMap fun w =>
      if Path.isUnder path w.root then
        if w.read then some { w with queue := w.queue ++ [event] } else none
      else some w }

/-- Queues a session change to every watch. -/
def announce (s : Store) (state : Connection) : Store :=
  { s with
    watches := s.watches.map fun w =>
      if w.read then { w with queue := w.queue ++ [.connection state] } else w }

/-- Changes the child count of the node above `path`, if it is stored. -/
def countAtParent (s : Store) (path : String) (change : Nat → Nat) : Store :=
  match Path.parent? path with
  | none => s
  | some parent =>
    { s with
      nodes := s.nodes.modify parent fun n => { n with childCount := change n.childCount } }

/-- Stores a new node and tells the watches. -/
def addNode (s : Store) (path value : String) : Store :=
  let node : Node := ⟨value, 0, 0⟩
  let s := { s with nodes := s.nodes.insert path node }
  (s.countAtParent path (· + 1)).publish path (.created path node)

/-- Removes a node and tells the watches. -/
def removeNode (s : Store) (path : String) : Store :=
  let s := { s with nodes := s.nodes.erase path }
  (s.countAtParent path (· - 1)).publish path (.deleted path)

/-- The paths above `path` and below `/`, the nearest first, at most `steps` of them. -/
def ancestorsFrom : (steps : Nat) → String → List String
  | 0, _ => []
  | steps + 1, path =>
    match Path.parent? path with
    | none => []
    | some parent => if parent = Path.top then [] else parent :: ancestorsFrom steps parent

/-- The paths above `path` and below `/`, the nearest first. -/
def ancestors (path : String) : List String := ancestorsFrom path.length path

/-- The ancestors of `path` up to the first stored one, the nearest first. -/
def missingAncestors (s : Store) (path : String) : List String :=
  (ancestors path).takeWhile fun a => !s.has a

/-- Why a node cannot be created, if it cannot. -/
def createFault? (s : Store) (path : String) (makeParents : Bool) : Option StoreError :=
  if ¬ Path.isWellFormed path then some (.invalidPath path)
  else if s.has path then some (.nodeExists path)
  else
    match s.missingAncestors path with
    | [] => none
    | nearest :: _ => if makeParents then none else some (.noNode nearest)

/-- Creates a node; with `makeParents`, missing ancestors are created first, outermost first,
with empty values. -/
def create (s : Store) (path value : String) (makeParents : Bool) :
    Store × Except StoreError Stat :=
  match s.createFault? path makeParents with
  | some fault => (s, .error fault)
  | none =>
    let s := (s.missingAncestors path).reverse.foldl (fun s parent => s.addNode parent "") s
    (s.addNode path value, .ok ⟨0, 0⟩)

/-- The stored node at `path`, if the path is well formed, the node exists and has the expected
version. -/
def checked (s : Store) (path : String) (expected : Option Int) : Except StoreError Node := do
  checkPath path
  match s.nodes.find? path with
  | none => throw (.noNode path)
  | some node =>
    match expected with
    | none => return node
    | some version =>
      if node.version = version then return node
      else throw (.versionConflict path version node.version)

/-- Sets the value of a stored node; with `expected`, only a node of that version. -/
def set (s : Store) (path value : String) (expected : Option Int) :
    Store × Except StoreError Stat :=
  match s.checked path expected with
  | .error fault => (s, .error fault)
  | .ok node =>
    let node := { node with value, version := node.version + 1 }
    let s := { s with nodes := s.nodes.insert path node }
    (s.publish path (.updated path node), .ok node.stat)

/-- The stored paths below `path`. -/
def descendants (s : Store) (path : String) : List String :=
  s.nodes.keys.filter fun p => p ≠ path && Path.isUnder p path

/-- Whether the first path is removed before the second: the deeper one first, of two as deep
the later one in path order. -/
def removedBefore (a b : String) : Bool :=
  Path.depth a > Path.depth b || (Path.depth a = Path.depth b && compare a b != .lt)

/-- Deletes a stored node; with `expected`, only a node of that version, and with `recursive`
also everything below it, the deepest nodes first. -/
def delete (s : Store) (path : String) (expected : Option Int) (recursive : Bool) :
    Store × Except StoreError Unit :=
  match s.checked path expected with
  | .error fault => (s, .error fault)
  | .ok _ =>
    let below := s.descendants path
    if ¬ below.isEmpty ∧ ¬ recursive then (s, .error (.notEmpty path))
    else ((below.mergeSort removedBefore ++ [path]).foldl removeNode s, .ok ())

/-- What a new watch on `root` finds in its queue. -/
def replay (s : Store) (root : String) : List StoreEvent :=
  (s.nodes.toList.filter fun e => Path.isUnder e.1 root).map (fun e => .created e.1 e.2) ++
    [.initialized]

/-- Starts a watch on the nodes at or below `root` and returns its id. -/
def watch (s : Store) (root : String) : Store × Except StoreError Nat :=
  if Path.isWellFormed root then
    ({ s with
        watches := s.watches ++ [⟨s.nextWatch, root, true, s.replay root⟩]
        nextWatch := s.nextWatch + 1 }, .ok s.nextWatch)
  else (s, .error (.invalidPath root))

/-- The events waiting in a watch. -/
def pending (s : Store) (id : Nat) : List StoreEvent :=
  match s.watches.find? (·.id = id) with
  | some w => w.queue
  | none => []

/-- Empties a watch's queue. -/
def clear (s : Store) (id : Nat) : Store :=
  { s with watches := s.watches.map fun w => if w.id = id then { w with queue := [] } else w }

/-- Marks a watch that nobody reads any more. -/
def abandon (s : Store) (id : Nat) : Store :=
  { s with
    watches := s.watches.map fun w => if w.id = id then { w with read := false } else w }

/-- Removes the watches that nobody reads. -/
def prune (s : Store) : Store := { s with watches := s.watches.filter (·.read) }

end Store

end Treecast
