import Treecast.Replica
import Treecast.Routing.Metadata

/-!
# Holders

A holder keeps the replica of one tree and a log of its changes.  It is created *new*; once it is
started, the events of its store watch are handled one by one, and it is *initialized* when the
first full snapshot is there.  A holder that is closed stays closed.

The log is a list of all entries in order.  A reader has a cursor into it; of the entries that
it has not read, only the last `capacity` are kept for it, and the others are lost to it.
-/

set_option autoImplicit false

namespace Treecast

/-- Where a holder stands in its life. -/
inductive HolderPhase where
  | new
  | starting
  | initialized
  /-- The store session was interrupted after the snapshot; the replica is kept. -/
  | suspended
  | closed
  deriving DecidableEq, Repr

/-- Whether the first full snapshot is there. -/
def HolderPhase.isReady : HolderPhase → Bool
  | .initialized | .suspended => true
  | _ => false

def HolderPhase.word : HolderPhase → String
  | .new => "new"
  | .starting => "starting"
  | .initialized => "initialized"
  | .suspended => "suspended"
  | .closed => "closed"

/-- An entry of a change log. -/
inductive LogEntry where
  | changed (change : Change)
  | connection (state : Connection)
  | closed
  deriving DecidableEq, Repr

structure Holder where
  key : TreeKey
  phase : HolderPhase
  replica : Replica
  log : List LogEntry
  /-- How many unread entries are kept for a reader. -/
  capacity : Nat
  deriving DecidableEq

namespace Holder

/-- A new holder, whose log keeps `capacity` entries, at least one, rounded up to a power of
two. -/
def create (key : TreeKey) (capacity : Nat) : Holder :=
  ⟨key, .new, Replica.empty key.root, [], (max capacity 1).nextPowerOfTwo⟩

instance : Inhabited Holder := ⟨create ⟨"", .service⟩ 1⟩

/-- Whether the first full snapshot is there. -/
def isReady (h : Holder) : Bool := h.phase.isReady

def isClosed (h : Holder) : Bool := h.phase = .closed

/-- Starts a new holder; a holder that is not new stays as it is. -/
def start (h : Holder) : Holder := if h.phase = .new then { h with phase := .starting } else h

/-- Closes the holder, which the log says once. -/
def close (h : Holder) : Holder :=
  if h.phase = .closed then h else { h with phase := .closed, log := h.log ++ [.closed] }

/-- The phase after a change of the store session. -/
def phaseOn (phase : HolderPhase) : Connection → HolderPhase
  | .suspended | .lost => if phase = .initialized then .suspended else phase
  | .reconnected => if phase = .suspended then .initialized else phase

/-- Handles one event of the store watch of a holder that is started. -/
def handle (h : Holder) (event : StoreEvent) : Holder :=
  match event with
  | .initialized => if h.phase = .starting then { h with phase := .initialized } else h
  | .connection state =>
    { h with phase := phaseOn h.phase state, log := h.log ++ [.connection state] }
  | event =>
    match h.replica.apply event with
    | (replica, some change) => { h with replica, log := h.log ++ [.changed change] }
    | (replica, none) => { h with replica }

/-- Handles the events of a store watch in order; a holder that is closed or was never started
handles none. -/
def handleAll (h : Holder) (events : List StoreEvent) : Holder :=
  if h.phase = .closed ∨ h.phase = .new then h else events.foldl handle h

/-- What a reader finds at its cursor. -/
inductive Unread where
  | entry (entry : LogEntry)
  /-- So many entries were lost to the reader. -/
  | lagged (lost : Nat)
  deriving DecidableEq, Repr

/-- Reads on from a cursor: what is there, and the next cursor. -/
def readAt (h : Holder) (cursor : Nat) : Option (Unread × Nat) :=
  let kept := h.log.length - h.capacity
  if cursor < kept then some (.lagged (kept - cursor), kept)
  else (h.log[cursor]?).map fun e => (.entry e, cursor + 1)

/-- Everything that a reader has not read yet, and the cursor at the end of the log. -/
def readAll (h : Holder) (cursor : Nat) : List Unread × Nat :=
  let kept := h.log.length - h.capacity
  let entries := (h.log.drop (max cursor kept)).map Unread.entry
  (if cursor < kept then .lagged (kept - cursor) :: entries else entries,
    max cursor h.log.length)

/-- Path and value of every key. -/
def instances (h : Holder) : List (String × String) := h.replica.instances

/-- The descriptive fields of clusters; of all clusters if none is named, and of none in a tree
that carries no routing. -/
def info (h : Holder) (clusters : List String) : SortedMap String (Entries String Json.Value) :=
  if !h.key.kind.carriesRouting then SortedMap.empty
  else
    let names := if clusters.isEmpty then h.replica.clusterNames else clusters
    SortedMap.ofList <| names.filterMap fun name =>
      (h.replica.cluster? name).map fun c => (name, (Routing.ClusterMetadata.decode c.value).info)

end Holder

end Treecast
