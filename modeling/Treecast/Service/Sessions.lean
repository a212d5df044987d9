import Treecast.Service.Basic

/-!
# Live sessions

Starting a session, moving its messages through the channel to the reader, and ending it.  A
session whose channel is full keeps the message that found no room and reads no further log
entries until there is room.
-/

set_option autoImplicit false

namespace Treecast.Service

open Routing

/-! ## Declarations -/

/-- Runs a declaration to its end, in at most so many steps. -/
def runDeclarer (sv : Service) : (steps : Nat) → Declarer → Service × Except StoreError Declaration
  | 0, _ => (sv, .error .sessionClosed)
  | steps + 1, d =>
    match d.phase with
    | .ended result => (sv.count (.declarations (Declarer.outcomeOf result)), result)
    | .reading =>
      let (sv, found) := sv.onBackend fun b => b.get d.path
      runDeclarer sv steps (d.onRead found)
    | .writing value version =>
      let (sv, written) := sv.onBackend fun b => b.set d.path value (some version)
      runDeclarer sv steps (d.onWrite written)

/-- Declares a consumer of a service cluster.  Only conflicts make it start over, and there are
no more of them than are still to come from the backend. -/
def declare (sv : Service) (application cluster : String) (consumer : Consumer) :
    Service × Except StoreError Declaration :=
  sv.runDeclarer (2 * sv.backend.conflicts + 4)
    (Declarer.create application cluster consumer sv.settings.dependency.maxRetries)

/-- Declares the client of a session at every service cluster that it reads. -/
def declareAll (sv : Service) (s : Session) : Service :=
  match s.caller with
  | some caller =>
    if sv.settings.dependency.enabled then
      (s.suppliers caller).foldl
        (fun sv e => (sv.declare e.1 e.2 ⟨caller.application, caller.cluster⟩).1) sv
    else sv
  | none => sv

/-! ## The channel -/

def updateSession (sv : Service) (id : Nat) (f : LiveSession → LiveSession) : Service :=
  { sv with sessions := sv.sessions.modify id f }

/-- The reader of a session, with its name. -/
def readerOf? (sv : Service) (session : Nat) : Option (String × Reader) :=
  sv.readers.toList.find? fun e => e.2.session? == some session

def receive (sv : Service) (reader : String) (r : Received) : Service :=
  { sv with received := sv.received ++ [(reader, r)] }

/-- How many messages a channel holds. -/
def channelCapacity (sv : Service) : Nat := max sv.settings.sessions.channelCapacity 1

/-- A prompt reader takes a message. -/
def deliver (sv : Service) (name : String) (reader : Reader) (m : Message) : Service :=
  match reader with
  | .poll s hijack keepalive =>
    match hijack.project m with
    | some m =>
      let readers := sv.readers.insert name (.poll s hijack (keepalive.sent sv.time))
      { sv with readers }.receive name (.message m)
    | none => sv
  | _ => sv.receive name (.message m)

/-- Puts a message into the channel of a session, or hands it to a prompt reader; says whether
there was room. -/
def emit (sv : Service) (id : Nat) (m : Message) : Service × Bool :=
  let counted := (sv.count (.messages m.kind)).stir
  match sv.readerOf? id with
  | some (_, .slow _) =>
    match sv.sessions.find? id with
    | some s =>
      if s.channel.length < sv.channelCapacity then
        (counted.updateSession id fun s => { s with channel := s.channel ++ [m] }, true)
      else (sv, false)
    | none => (sv, false)
  | some (name, reader) => (counted.deliver name reader m, true)
  | none => (sv, false)

/-- Emits messages until there is no room; returns those that are left. -/
def emitAll (sv : Service) (id : Nat) : List Message → Service × List Message
  | [] => (sv, [])
  | m :: rest =>
    match sv.emit id m with
    | (sv, true) => emitAll sv id rest
    | (sv, false) => (sv, m :: rest)

/-! ## The end of a session -/

/-- The stream of a reader ends. -/
def endReader (sv : Service) (name : String) : Service :=
  { sv with readers := sv.readers.erase name, ended := sv.ended ++ [name] }.stir

/-- A session ends: its leases are dropped in the order of their trees, and a prompt reader sees
the end of the stream. -/
def endSession (sv : Service) (id : Nat) : Service :=
  match sv.sessions.find? id with
  | none => sv
  | some s =>
    let sv := { sv with hub := { sv.hub with meters := sv.hub.meters.discount .watchers } }
    let sv := s.leases.values.foldl (fun sv l => sv.onHub' fun h now => h.dropLease now l) sv
    let sv := sv.stir
    match sv.readerOf? id with
    | some (_, .slow _) =>
      sv.updateSession id fun s => { s with leases := SortedMap.empty, ended := true }
    | some (name, _) => { sv with sessions := sv.sessions.erase id }.endReader name
    | none => { sv with sessions := sv.sessions.erase id }

/-! ## The work of a session -/

/-- The replicas that the leases of a session are on. -/
def replicasOf (sv : Service) (leases : SortedMap TreeKey Nat) : Replicas := fun key =>
  match ((leases.find? key).bind sv.leasedHolder?).bind sv.holder? with
  | some holder => holder.replica
  | none => Replica.empty key.root

/-- What a session reads next: the tree, what was read, and the next cursor. -/
def unreadOf? (sv : Service) (s : LiveSession) : Option (TreeKey × Holder.Unread × Nat) :=
  s.cursors.toList.findSome? fun e =>
    (((s.leases.find? e.1).bind sv.leasedHolder?).bind sv.holder?).bind fun holder =>
      (holder.readAt e.2).map fun r => (e.1, r.1, r.2)

/-- A session handles what it has read. -/
def handleUnread (sv : Service) (id : Nat) (s : LiveSession) (tree : TreeKey)
    (unread : Holder.Unread) (cursor : Nat) : Service :=
  let r := s.session.react (sv.replicasOf s.leases) sv.policy tree unread
  let sv := match r.resynced with
    | some cause => sv.count (.resyncs cause)
    | none => sv
  let sv := sv.updateSession id fun s =>
    { s with
      session := r.session
      cursors := s.cursors.insert tree cursor
      backlog := r.messages }
  if r.ends then sv.endSession id else sv.stir

/-- One step of a session; says whether it may do another. -/
def stepSession (sv : Service) (id : Nat) : Service × Bool :=
  match sv.sessions.find? id with
  | none => (sv, false)
  | some s =>
    if s.ended then (sv, false)
    else if s.deserted then (sv.endSession id, false)
    else if s.backlog ≠ [] then
      let (sv, left) := sv.emitAll id s.backlog
      (sv.updateSession id fun s => { s with backlog := left }, left.isEmpty)
    else if s.cancelled || s.deadline ≤ sv.time then (sv.endSession id, false)
    else
      match sv.unreadOf? s with
      | some (tree, unread, cursor) => (sv.handleUnread id s tree unread cursor, true)
      | none => (sv, false)

/-- Steps of a session until it waits, at most so many. -/
def runSession (sv : Service) (id : Nat) : (steps : Nat) → Service
  | 0 => sv
  | steps + 1 =>
    match sv.stepSession id with
    | (sv, true) => runSession sv id steps
    | (sv, false) => sv

/-- How many steps a session can take before it waits. -/
def sessionSteps (sv : Service) (s : LiveSession) : Nat :=
  let unread := s.cursors.toList.foldl (fun n e =>
    match ((s.leases.find? e.1).bind sv.leasedHolder?).bind sv.holder? with
    | some holder => n + (holder.log.length - e.2)
    | none => n) 0
  2 * unread + 4

def runSessions (sv : Service) : Service :=
  sv.sessions.toList.foldl (fun sv e => sv.runSession e.1 (sv.sessionSteps e.2)) sv

/-! ## The start of a session -/

/-- The cursors at the ends of the logs. -/
def cursorsAtEnd (sv : Service) (leases : SortedMap TreeKey Nat) : SortedMap TreeKey Nat :=
  leases.map fun _ lease =>
    match (sv.leasedHolder? lease).bind sv.holder? with
    | some holder => holder.log.length
    | none => 0

/-- A reader goes away. -/
def dropReader (sv : Service) (name : String) : Service × Bool :=
  match sv.readers.find? name with
  | none => (sv, false)
  | some reader =>
    let sv := { sv with readers := sv.readers.erase name }.stir
    match reader with
    | .events feed => ({ sv with backend := sv.backend.abandon feed }, true)
    | .log _ _ => (sv, true)
    | .slow s | .prompt s | .poll s _ _ =>
      match sv.sessions.find? s with
      | some live =>
        if live.ended then ({ sv with sessions := sv.sessions.erase s }, true)
        else
          (sv.updateSession s fun live => { live with deserted := true, cancelled := true }, true)
      | none => (sv, true)

def readerAt (sv : Service) (outlet : Outlet) (session : Nat) : Reader :=
  match outlet with
  | .slow _ => .slow session
  | .prompt _ => .prompt session
  | .poll _ hijack =>
    .poll session hijack (Keepalive.start sv.settings.keepaliveMillis sv.time)

/-- A session is there with its leases and its reader, and has sent nothing yet. -/
def openSession (sv : Service) (l : Launching) (session : Session)
    (leases : SortedMap TreeKey Nat) : Service :=
  let id := sv.nextSession
  let cancelled :=
    match l.watcher.bind sv.watchers.find? with
    | some entry => entry.watcher.cancelled
    | none => false
  let limit := sv.settings.sessions.maxLifeSpanSeconds * 1000
  let live : LiveSession :=
    { session, leases, cursors := sv.cursorsAtEnd leases
      backlog := [], channel := []
      deadline := sv.time + l.options.lifeSpanWithin limit
      cancelled, deserted := false, ended := false }
  let (sv, _) := sv.dropReader l.outlet.reader
  let sv :=
    { sv with
      sessions := sv.sessions.insert id live
      nextSession := id + 1
      readers := sv.readers.insert l.outlet.reader (sv.readerAt l.outlet id)
      watchers := match l.watcher with
        | some name => sv.watchers.modify name fun e => { e with session := some id }
        | none => sv.watchers }
  (sv.count .watchers).stir

/-- What a session sends when it starts: all that it shows, if that was asked for. -/
def greeting (sv : Service) (l : Launching) (leases : SortedMap TreeKey Nat) : List Message :=
  let body := (Session.start l.request l.options.mode l.options.caller sv.policy
    (sv.replicasOf leases)).2
  if l.options.initial then [body.message .all] else []

/-- Starts a session on leases that are held. -/
def startSession (sv : Service) (l : Launching) (leases : SortedMap TreeKey Nat) : Service :=
  let session := (Session.start l.request l.options.mode l.options.caller sv.policy
    (sv.replicasOf leases)).1
  let greeted := (sv.openSession l session leases).emitAll sv.nextSession (sv.greeting l leases)
  greeted.1.declareAll session

end Treecast.Service
