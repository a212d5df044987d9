import Treecast.Store

/-!
# A store with faults

A store behind switches that make it fail on purpose: watches may be refused, end at once or
be fed by hand, reads may fail, and another writer may come first.  Every watch that is asked for
is recorded.
-/

set_option autoImplicit false

namespace Treecast

/-- What happens to a watch that is asked for. -/
inductive WatchFault where
  | normal
  | refused
  | endsAtOnce
  | fedByHand
  deriving DecidableEq, Repr

def WatchFault.ofWord? : String → Option WatchFault
  | "" => some .normal
  | "fail" => some .refused
  | "end" => some .endsAtOnce
  | "script" => some .fedByHand
  | _ => none

/-- Where a reader of store events gets them. -/
inductive Feed where
  /-- From a watch of the store. -/
  | stored (watch : Nat)
  /-- From a watch that is fed by hand. -/
  | byHand (script : Nat)
  /-- From nowhere: the watch has ended. -/
  | ended
  deriving DecidableEq, Repr

/-- A watch that is fed by hand. -/
structure Script where
  id : Nat
  root : String
  queue : List StoreEvent
  /-- Whether anyone reads it. -/
  read : Bool
  /-- Whether it may still be fed. -/
  fed : Bool
  deriving DecidableEq, Repr

/-- A store with faults. -/
structure Backend where
  store : Store
  watchFault : WatchFault
  /-- How many of the next reads fail. -/
  failingReads : Nat
  /-- Before how many of the next versioned writes another writer comes first. -/
  conflicts : Nat
  scripts : List Script
  /-- The roots of all watches that were asked for, in order. -/
  watched : List String

namespace Backend

/-- A store without faults. -/
def create (store : Store) : Backend := ⟨store, .normal, 0, 0, [], []⟩

instance : Inhabited Backend := ⟨create Store.empty⟩

def watch (b : Backend) (root : String) : Backend × Except StoreError Feed :=
  let b := { b with watched := b.watched ++ [root] }
  match b.watchFault with
  | .normal =>
    let (store, watch) := b.store.watch root
    ({ b with store }, watch.map Feed.stored)
  | .refused => (b, .error .sessionClosed)
  | .endsAtOnce => (b, .ok .ended)
  | .fedByHand =>
    let id := b.scripts.length
    let scripts := b.scripts.map fun s => if s.root = root then { s with fed := false } else s
    ({ b with scripts := scripts ++ [⟨id, root, [], true, true⟩] }, .ok (.byHand id))

/-- The script that feeds a root. -/
def script? (b : Backend) (root : String) : Option Script :=
  b.scripts.find? fun s => s.root = root && s.fed

def updateScript (b : Backend) (id : Nat) (f : Script → Script) : Backend :=
  { b with scripts := b.scripts.map fun s => if s.id = id then f s else s }

/-- Feeds an event by hand; says whether anyone reads it, or nothing if the root is not fed by
hand. -/
def feed (b : Backend) (root : String) (event : StoreEvent) : Backend × Option Bool :=
  match b.script? root with
  | none => (b, none)
  | some s =>
    if s.read then
      (b.updateScript s.id fun s => { s with queue := s.queue ++ [event] }, some true)
    else (b, some false)

/-- Ends a watch that is fed by hand; says whether there was one. -/
def feedEnd (b : Backend) (root : String) : Backend × Bool :=
  match b.script? root with
  | none => (b, false)
  | some s => (b.updateScript s.id fun s => { s with fed := false }, true)

/-- Takes the events that wait for a reader, and says whether none will follow. -/
def take (b : Backend) : Feed → Backend × List StoreEvent × Bool
  | .stored watch =>
    match b.store.pending watch with
    | [] => (b, [], false)
    | events => ({ b with store := b.store.clear watch }, events, false)
  | .byHand id =>
    match b.scripts.find? (·.id = id) with
    | none => (b, [], true)
    | some s => (b.updateScript id fun s => { s with queue := [] }, s.queue, !s.fed)
  | .ended => (b, [], true)

/-- The reader goes away. -/
def abandon (b : Backend) : Feed → Backend
  | .stored watch => { b with store := b.store.abandon watch }
  | .byHand id => b.updateScript id fun s => { s with read := false }
  | .ended => b

def get (b : Backend) (path : String) : Backend × Except StoreError (Option Node) :=
  if b.failingReads > 0 then
    ({ b with failingReads := b.failingReads - 1 }, .error .sessionClosed)
  else (b, b.store.get path)

/-- Another writer sets a node to its own value. -/
def interfere (s : Store) (path : String) : Store :=
  match s.get path with
  | .ok (some node) => (s.set path node.value none).1
  | _ => s

def set (b : Backend) (path value : String) (expected : Option Int) :
    Backend × Except StoreError Stat :=
  let b :=
    if expected.isSome ∧ b.conflicts > 0 then
      { b with conflicts := b.conflicts - 1, store := interfere b.store path }
    else b
  let (store, written) := b.store.set path value expected
  ({ b with store }, written)

/-- Lifts an operation of the store. -/
def onStore {α : Type} (b : Backend) (f : Store → Store × α) : Backend × α :=
  let (store, r) := f b.store
  ({ b with store }, r)

end Backend

end Treecast
