import Treecast.Service.Backend
import Treecast.Hub.Call
import Treecast.Hub.Sweep
import Treecast.Session.Basic
import Treecast.LongPoll
import Treecast.Keepalive
import Treecast.Dependency

/-!
# The service

One process of the service with its store, in virtual time: holders with their writers, sessions
with their channels, readers, and jobs that wait for something.  Time passes only when it is
told to.  The clock of the interest index is another one: it moves with every reading.
-/

set_option autoImplicit false

namespace Treecast

open Routing

/-- Which holder is meant. -/
inductive HolderRef where
  /-- One that the hub created. -/
  | ofHub (id : Nat)
  /-- One that stands alone. -/
  | alone (id : Nat)
  deriving DecidableEq, Repr

/-- Something that a reader received. -/
inductive Received where
  | event (event : StoreEvent)
  | unread (unread : Holder.Unread)
  | message (message : Message)

/-- What reads a stream. -/
inductive Reader where
  /-- A reader of store events. -/
  | events (feed : Feed)
  /-- A reader of a change log. -/
  | log (holder : HolderRef) (cursor : Nat)
  /-- A client that takes messages when it likes. -/
  | slow (session : Nat)
  /-- A client that takes messages at once. -/
  | prompt (session : Nat)
  /-- A client of a long poll, which takes messages at once. -/
  | poll (session : Nat) (hijack : Hijack) (keepalive : Keepalive)

/-- The session that a reader takes messages from. -/
def Reader.session? : Reader → Option Nat
  | .slow s | .prompt s | .poll s _ _ => some s
  | _ => none

/-- A session with its leases and its channel. -/
structure LiveSession where
  session : Session
  /-- The leases on the holders, by tree. -/
  leases : SortedMap TreeKey Nat
  /-- How far each log was read. -/
  cursors : SortedMap TreeKey Nat
  /-- Messages that found no room in the channel yet. -/
  backlog : List Message
  /-- Messages in the channel. -/
  channel : List Message
  deadline : Nat
  /-- Whether it is to end. -/
  cancelled : Bool
  /-- Whether the client went away. -/
  deserted : Bool
  /-- Whether it has ended; the channel may still hold messages. -/
  ended : Bool

/-- One of several leases that are called for together. -/
inductive Part where
  | open_ (key : TreeKey)
  | called (key : TreeKey) (call : Nat)
  | held (key : TreeKey) (lease : Nat)
  | failed (failure : Failure)

def Part.isHeld : Part → Bool
  | .held _ _ => true
  | _ => false

/-- Where the messages of a session that is about to start will go. -/
inductive Outlet where
  | slow (reader : String)
  | prompt (reader : String)
  | poll (reader : String) (hijack : Hijack)

/-- The name of the reader at an outlet. -/
def Outlet.reader : Outlet → String
  | .slow r | .prompt r | .poll r _ => r

/-- Which tree of a destination under preparation is being loaded. -/
inductive PrepareStage where
  | begin_
  | callerTree (call : Nat)
  | destinationTree (callerLease call : Nat)

/-- A hijack under preparation. -/
structure Preparation where
  hijack : Hijack
  caller : Caller
  /-- The destinations that are still to be looked at, the present one first. -/
  left : List (String × Takeover)
  stage : PrepareStage

/-- A session under way to its start. -/
structure Launching where
  options : WatchOptions
  request : Request
  parts : List Part
  outlet : Outlet
  /-- The watcher that is started, if it has a name. -/
  watcher : Option String

/-- Something that may have to wait. -/
inductive Task where
  | lease (name : String) (call : Nat)
  | holderStart (holder : HolderRef)
  | holderWait (holder : HolderRef) (deadline limit : Nat)
  | launch (launching : Launching)
  | prepare (preparation : Preparation) (request : Request)
  | poll (preparation : Preparation) (poll : Poll) (reader : String)

/-- A task with its number and the name it was given. -/
structure Job where
  id : Nat
  name : String
  task : Task

inductive JobResult where
  | leased (key : TreeKey) (phase : HolderPhase)
  | finished
  | started
  | streaming
  | prepared (hijack : Hijack) (request : Request)
  | failed (failure : Failure)
  /-- A long poll was refused. -/
  | refused (failure : Failure)

/-- A watcher with the session that it started. -/
structure WatcherEntry where
  watcher : Watcher
  session : Option Nat
  /-- Whether it is busy with its start, and not to be reached. -/
  starting : Bool

/-- The periodic sweep. -/
inductive Sweeper where
  /-- It was never started. -/
  | unused
  | running (every next : Nat)
  | stopped

/-- The settings of a service. -/
structure ServiceSettings where
  hub : HubSettings
  cleaner : SweepSettings
  condition : EvictionCondition
  sessions : SessionSettings
  dependency : DependencySettings
  keepaliveMillis : Nat

structure Service where
  settings : ServiceSettings
  policy : Policy
  time : Nat
  clock : Nat
  backend : Backend
  hub : Hub
  /-- The holders that stand alone, by number. -/
  alone : SortedMap Nat Holder
  aloneNames : SortedMap String Nat
  nextAlone : Nat
  /-- The store events that each holder's writer reads. -/
  writers : List (HolderRef × Feed)
  leaseNames : SortedMap String Nat
  watchers : SortedMap String WatcherEntry
  sessions : SortedMap Nat LiveSession
  nextSession : Nat
  readers : SortedMap String Reader
  hijacks : SortedMap String Hijack
  jobs : List Job
  nextJob : Nat
  sweeper : Sweeper
  /-- What readers received since the last report, in order. -/
  received : List (String × Received)
  /-- The readers whose stream ended since the last report. -/
  ended : List String
  /-- The jobs that ended since the last report. -/
  results : List (Job × JobResult)
  /-- Whether something happened that others may have to look at. -/
  stirred : Bool

namespace Service

/-- A service with a store. -/
def create (settings : ServiceSettings) (policy : Policy) (store : Store) : Service where
  settings := settings
  policy := policy
  time := 0
  clock := 0
  backend := Backend.create store
  hub := Hub.create settings.hub
  alone := SortedMap.empty
  aloneNames := SortedMap.empty
  nextAlone := 0
  writers := []
  leaseNames := SortedMap.empty
  watchers := SortedMap.empty
  sessions := SortedMap.empty
  nextSession := 0
  readers := SortedMap.empty
  hijacks := SortedMap.empty
  jobs := []
  nextJob := 0
  sweeper := .unused
  received := []
  ended := []
  results := []
  stirred := false

def stir (sv : Service) : Service := { sv with stirred := true }

def count (sv : Service) (meter : Meter) : Service := { sv with hub := sv.hub.count meter }

/-- How far the clock moves between two readings. -/
def ticksPerReading : Nat := 1000

/-- Runs an operation of the hub that reads the clock. -/
def onHub {α : Type} (sv : Service) (f : Hub → (now : Nat) → Hub × α) : Service × α :=
  let now := sv.clock + ticksPerReading
  let (hub, r) := f sv.hub now
  ({ sv with hub, clock := now }, r)

/-- Runs an operation of the hub that reads the clock and returns nothing. -/
def onHub' (sv : Service) (f : Hub → (now : Nat) → Hub) : Service :=
  let now := sv.clock + ticksPerReading
  { sv with hub := f sv.hub now, clock := now }

/-- Runs an operation of the backend. -/
def onBackend {α : Type} (sv : Service) (f : Backend → Backend × α) : Service × α :=
  let (backend, r) := f sv.backend
  ({ sv with backend }, r)

def holder? (sv : Service) : HolderRef → Option Holder
  | .ofHub id => sv.hub.holder? id
  | .alone id => sv.alone.find? id

def updateHolder (sv : Service) (ref : HolderRef) (f : Holder → Holder) : Service :=
  match ref with
  | .ofHub id => { sv with hub := sv.hub.updateHolder id f }
  | .alone id => { sv with alone := sv.alone.modify id f }

/-- The holder of a tree that the hub has registered. -/
def registered? (sv : Service) (key : TreeKey) : Option HolderRef :=
  (sv.hub.slot? key).map fun s => .ofHub s.holder

def leasedHolder? (sv : Service) (lease : Nat) : Option HolderRef :=
  (sv.hub.leases.find? lease).map fun l => .ofHub l.holder

/-- The holder of that name: one that stands alone, or the one that a lease is on. -/
def namedHolder? (sv : Service) (name : String) : Option HolderRef :=
  match sv.aloneNames.find? name with
  | some id => some (.alone id)
  | none => (sv.leaseNames.find? name).bind sv.leasedHolder?

/-- Opens the store watch of a holder that is started. -/
def openFeed (sv : Service) (ref : HolderRef) (key : TreeKey) : Service × Except StoreError Unit :=
  match sv.onBackend fun b => b.watch key.root with
  | (sv, .ok feed) => (({ sv with writers := sv.writers ++ [(ref, feed)] }).stir, .ok ())
  | (sv, .error e) => (sv, .error e)

def startHolder (sv : Service) (ref : HolderRef) : Service × Option Failure :=
  match sv.holder? ref with
  | none => (sv, none)
  | some holder =>
    if holder.phase ≠ .new then (sv, none)
    else
      match (sv.updateHolder ref Holder.start).openFeed ref holder.key with
      | (sv, .ok ()) => (sv, none)
      | (sv, .error e) => (sv.updateHolder ref Holder.close, some (.store e))

end Service

end Treecast
