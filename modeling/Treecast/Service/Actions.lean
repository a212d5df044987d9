import Treecast.Service.Settle

/-!
# Actions

What can be done to a service from outside, apart from what its store, hub and settings offer by
themselves.  An action that may have to wait becomes a job.
-/

set_option autoImplicit false

namespace Treecast.Service

open Routing

/-! ## The store -/

/-- Starts a reader of the store events at or below a path. -/
def watchStore (sv : Service) (name path : String) : Service × Except StoreError Unit :=
  match sv.onBackend fun b => b.watch path with
  | (sv, .ok feed) =>
    let (sv, _) := sv.dropReader name
    ({ sv with readers := sv.readers.insert name (.events feed) }, .ok ())
  | (sv, .error e) => (sv, .error e)

/-! ## Leases and holders -/

def lease (sv : Service) (name : String) (key : TreeKey) : Service × Except Failure Nat :=
  match sv.callFor key with
  | (sv, .ok call) =>
    let (sv, job) := sv.addJob name (.lease name call)
    (sv, .ok job)
  | (sv, .error f) => (sv, .error f)

/-- Releases a named lease, which is kept. -/
def releaseLease (sv : Service) (name : String) : Service × Bool :=
  match sv.leaseNames.find? name with
  | some lease => ((sv.onHub' fun h now => h.releaseLease now lease).stir, true)
  | none => (sv, false)

def dropNamedLease (sv : Service) (name : String) : Service × Bool :=
  match sv.leaseNames.find? name with
  | some lease => ({ sv with leaseNames := sv.leaseNames.erase name }.dropLease lease, true)
  | none => (sv, false)

/-- Whether two named leases are on the same holder. -/
def sameHolder (sv : Service) (name other : String) : Option Bool := do
  let a ← (sv.leaseNames.find? name).bind sv.leasedHolder?
  let b ← (sv.leaseNames.find? other).bind sv.leasedHolder?
  return decide (a = b)

/-- Makes a holder that stands alone. -/
def newHolder (sv : Service) (name : String) (key : TreeKey) (capacity : Nat) : Service :=
  let id := sv.nextAlone
  { sv with
    alone := sv.alone.insert id (Holder.create key capacity)
    aloneNames := sv.aloneNames.insert name id
    nextAlone := id + 1 }

/-- Drops a holder that stands alone. -/
def dropHolder (sv : Service) (name : String) : Service × Bool :=
  if sv.aloneNames.contains name then
    ({ sv with aloneNames := sv.aloneNames.erase name }, true)
  else (sv, false)

def closeHolder (sv : Service) (ref : HolderRef) : Service :=
  (sv.updateHolder ref Holder.close).stir

/-- Starts a reader of a holder's log, at its end. -/
def follow (sv : Service) (name : String) (ref : HolderRef) : Service :=
  let cursor := match sv.holder? ref with
    | some holder => holder.log.length
    | none => 0
  let (sv, _) := sv.dropReader name
  { sv with readers := sv.readers.insert name (.log ref cursor) }

/-! ## Sessions -/

def newWatcher (sv : Service) (name : String) (options : WatchOptions) : Service :=
  { sv with watchers := sv.watchers.insert name ⟨Watcher.create options, none, false⟩ }

/-- A named watcher, unless it is busy with its start. -/
def watcher? (sv : Service) (name : String) : Option WatcherEntry :=
  match sv.watchers.find? name with
  | some entry => if entry.starting then none else some entry
  | none => none

/-- Changes a named watcher; `none` if it is not to be reached. -/
def onWatcher {α : Type} (sv : Service) (name : String) (f : Watcher → Watcher × α) :
    Service × Option α :=
  match sv.watcher? name with
  | none => (sv, none)
  | some entry =>
    let (watcher, r) := f entry.watcher
    let sv := { sv with watchers := sv.watchers.insert name { entry with watcher } }
    let sv := match entry.session with
      | some id =>
        if watcher.cancelled then sv.updateSession id fun s => { s with cancelled := true } else sv
      | none => sv
    (sv.stir, some r)

/-- Starts the session of a named watcher, whose messages go to a reader of the same name. -/
def startWatcher (sv : Service) (name : String) (slow : Bool) :
    Service × Option (Except Failure Nat) :=
  match sv.onWatcher name Watcher.claimStart with
  | (sv, none) => (sv, none)
  | (sv, some (.error f)) => (sv, some (.error f))
  | (sv, some (.ok ())) =>
    match sv.watchers.find? name with
    | none => (sv, none)
    | some entry =>
      let outlet := if slow then Outlet.slow name else .prompt name
      let l := launching entry.watcher.options entry.watcher.request outlet (some name)
      let sv := { sv with watchers := sv.watchers.insert name { entry with starting := true } }
      let (sv, job) := sv.addJob name (.launch l)
      (sv, some (.ok job))

/-- The session that a slow reader takes messages from. -/
def slowSession? (sv : Service) (name : String) : Option Nat :=
  match sv.readers.find? name with
  | some (.slow s) => some s
  | _ => none

/-- Takes a message from the channel of a session, and runs until idle. -/
def takeMessage (sv : Service) (session : Nat) : Service × Option Message :=
  match (sv.sessions.find? session).map LiveSession.channel with
  | some (m :: rest) =>
    ((sv.updateSession session fun s => { s with channel := rest }).settle, some m)
  | _ => (sv, none)

/-- Takes messages from the channel of a session, at most so many; says whether the end of the
stream was seen. -/
def takeMessages (sv : Service) (name : String) (session : Nat) :
    (limit : Nat) → Service × List Message × Bool
  | 0 => (sv, [], false)
  | limit + 1 =>
    match sv.takeMessage session with
    | (sv, some m) =>
      let (sv, more, ended) := takeMessages sv name session limit
      (sv, m :: more, ended)
    | (sv, none) =>
      match sv.sessions.find? session with
      | some s =>
        if s.ended then
          ({ sv with
              sessions := sv.sessions.erase session
              readers := sv.readers.erase name }, [], true)
        else (sv, [], false)
      | none => (sv, [], false)

/-! ## Long polls and hijacks -/

def openPoll (sv : Service) (name : String) (body : List UInt8) (query : PollQuery)
    (headers : PollHeaders) : Service × Except Failure Nat :=
  let (forced, read) := Poll.ofParts sv.policy body query headers
  let sv := (List.range forced).foldl (fun sv _ => sv.count .forceRouted) sv
  match read with
  | .error fault => (sv, .error (.request fault))
  | .ok poll =>
    let (sv, job) := sv.addJob name (.poll (preparationOf poll.hijack poll.request) poll name)
    (sv, .ok job)

/-- Takes the result of a job out of the results. -/
def takeResult (sv : Service) (job : Nat) : Service × Option JobResult :=
  ({ sv with results := sv.results.filter fun e => e.1.id ≠ job },
    (sv.results.find? fun e => e.1.id = job).map Prod.snd)

/-- At how many instants a preparation looks whether it can go on. -/
def preparationStops : Nat := 4096

/-- Prepares the hijack of a client for a request, letting time pass where trees have to be
loaded, and keeps it under a name. -/
def prepareHijack (sv : Service) (name : String) (caller : Option Caller) (mode : RouteMode)
    (request : Request) : Service × Hijack :=
  let h := Hijack.create sv.policy caller mode
  let (sv, job) := sv.addJob name (.prepare (preparationOf h request) request)
  let (sv, result) := (sv.runJob job preparationStops).takeResult job
  let h := match result with
    | some (.prepared prepared _) => prepared
    | _ => h
  ({ sv with hijacks := sv.hijacks.insert name h }, h)

/-! ## The periodic sweep -/

/-- Starts the periodic sweep, if the settings enable it; the first sweep is one interval away.
With no time between two sweeps it stops at once. -/
def startSweeper (sv : Service) : Service × Bool :=
  let every := sv.settings.cleaner.intervalMillis
  if sv.settings.cleaner.enabled then
    ({ sv with sweeper := if every = 0 then .stopped else .running every (sv.time + every) }, true)
  else (sv, false)

/-- Stops the periodic sweep; says whether it was ever started. -/
def stopSweeper (sv : Service) : Service × Bool :=
  match sv.sweeper with
  | .unused => (sv, false)
  | _ => ({ sv with sweeper := .stopped }, true)

/-! ## Reports -/

/-- What happened since the last report. -/
structure Report where
  received : List (String × Received)
  ended : List String
  results : List (Job × JobResult)

/-- Runs until idle and reports. -/
def report (sv : Service) : Service × Report :=
  let sv := sv.settle
  ({ sv with received := [], ended := [], results := [] }, ⟨sv.received, sv.ended, sv.results⟩)

end Treecast.Service
