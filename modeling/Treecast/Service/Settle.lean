import Treecast.Service.Jobs

/-!
# Running until idle, and the passing of time

After every action the service runs until nothing more can happen without time or another action:
writers apply what the store tells them, jobs are looked at, sessions read their logs, readers
read.  When time passes, it stops at every instant at which something is due.
-/

set_option autoImplicit false

namespace Treecast.Service

open Routing

/-! ## Writers -/

/-- The writer of a holder goes away. -/
def dropWriter (sv : Service) (ref : HolderRef) (feed : Feed) : Service :=
  { sv with
    writers := sv.writers.filter fun e => e.1 ≠ ref
    backend := sv.backend.abandon feed }

/-- The writer of a holder applies all events that wait for it; when its watch has ended, it
closes the holder. -/
def runWriter (sv : Service) (ref : HolderRef) (feed : Feed) : Service :=
  match sv.holder? ref with
  | none => sv.dropWriter ref feed
  | some holder =>
    if holder.isClosed then (sv.dropWriter ref feed).stir
    else
      match sv.onBackend fun b => b.take feed with
      | (sv, [], false) => sv
      | (sv, events, ended) =>
        let sv := (sv.updateHolder ref fun h => h.handleAll events).stir
        if ended then (sv.updateHolder ref Holder.close).dropWriter ref feed else sv

def runWriters (sv : Service) : Service := sv.writers.foldl (fun sv e => sv.runWriter e.1 e.2) sv

/-! ## Readers -/

/-- The holders that jobs keep. -/
def keptHolders (sv : Service) : List HolderRef := sv.jobs.flatMap fun j => keptBy j.task

/-- Whether anything still refers to a holder. -/
def isKept (sv : Service) (ref : HolderRef) : Bool :=
  sv.keptHolders.contains ref ||
    match ref with
    | .alone id => sv.aloneNames.values.contains id
    | .ofHub id =>
      sv.hub.registry.values.any (·.holder = id) || sv.hub.leases.values.any (·.holder = id)

/-- A reader of store events or of a log reads all that is there. -/
def runReader (sv : Service) (name : String) : Reader → Service
  | .events feed =>
    match sv.onBackend fun b => b.take feed with
    | (sv, events, ended) =>
      let sv := events.foldl (fun sv e => (sv.receive name (.event e)).stir) sv
      if ended then sv.endReader name else sv
  | .log ref cursor =>
    match sv.holder? ref with
    | none => sv.endReader name
    | some holder =>
      let (unread, cursor) := holder.readAll cursor
      let sv := unread.foldl (fun sv u => (sv.receive name (.unread u)).stir) sv
      let sv := { sv with readers := sv.readers.insert name (.log ref cursor) }
      if sv.isKept ref then sv else sv.endReader name
  | _ => sv

def runReaders (sv : Service) : Service :=
  sv.readers.toList.foldl (fun sv e => sv.runReader e.1 e.2) sv

/-- Holders that stand alone and that nothing refers to any more go away with their writers. -/
def reap (sv : Service) : Service :=
  sv.alone.keys.foldl (fun sv id =>
    if sv.isKept (.alone id) then sv
    else
      let feeds := sv.writers.filter fun e => e.1 = .alone id
      let sv := feeds.foldl (fun sv e => sv.dropWriter e.1 e.2) sv
      { sv with alone := sv.alone.erase id }) sv

/-! ## Running until idle -/

/-- One round: writers, jobs, sessions, readers. -/
def round (sv : Service) : Service :=
  (runSessions (pollJobs (runWriters { sv with stirred := false }))).runReaders.reap

/-- Rounds until nothing happens in one, at most so many. -/
def rounds (sv : Service) : (limit : Nat) → Service
  | 0 => sv
  | limit + 1 =>
    let sv := sv.round
    if sv.stirred then rounds sv limit else sv

/-- More rounds than the parts of the service can keep one another busy. -/
def roundLimit (sv : Service) : Nat :=
  64 + 8 * (sv.jobs.length + sv.sessions.size + sv.writers.length + sv.readers.size +
    sv.hub.calls.size)

/-- Runs until idle. -/
def settle (sv : Service) : Service := sv.rounds sv.roundLimit

/-! ## Time -/

/-- The instants at which something is due. -/
def instants (sv : Service) : List Nat :=
  sv.jobs.flatMap (fun j => sv.deadlinesOf j.task) ++
  (sv.sessions.values.filter fun s => !s.ended).map (·.deadline) ++
  (sv.readers.values.filterMap fun
    | .poll _ _ keepalive => some keepalive.due
    | _ => none) ++
  (match sv.sweeper with
    | .running _ next => [next]
    | _ => [])

/-- The next instant after now at which something is due. -/
def nextInstant? (sv : Service) : Option Nat :=
  (sv.instants.filter fun t => t > sv.time).min?

/-- Pings the long polls whose ping is due. -/
def pingPolls (sv : Service) : Service :=
  sv.readers.toList.foldl (fun sv e =>
    match e.2 with
    | .poll s hijack keepalive =>
      if keepalive.due ≤ sv.time then
        let readers := sv.readers.insert e.1 (.poll s hijack (keepalive.sent sv.time))
        { sv with readers }.receive e.1 (.message .ping)
      else sv
    | _ => sv) sv

def sweep (sv : Service) : Service × Except SweepFault SweepReport :=
  let (sv, r) := sv.onHub fun h now => h.sweep sv.settings.cleaner sv.settings.condition now
  (sv.stir, r)

/-- Sweeps if the periodic sweep is due; a sweep that fails is counted. -/
def sweepIfDue (sv : Service) : Service :=
  match sv.sweeper with
  | .running every next =>
    if next ≤ sv.time then
      match { sv with sweeper := .running every (next + every) }.sweep with
      | (sv, .ok _) => sv
      | (sv, .error _) => sv.count .sweepFailures
    else sv
  | _ => sv

/-- Goes to an instant and does what is due then. -/
def moveTo (sv : Service) (time : Nat) : Service :=
  let sv := { sv with time }.settle
  sv.pingPolls.sweepIfDue.settle

/-- Lets time pass until `target`, in at most so many stops. -/
def passUntil (sv : Service) (target : Nat) : (stops : Nat) → Service
  | 0 => sv.moveTo target
  | stops + 1 =>
    match sv.nextInstant? with
    | some t => if t ≤ target then passUntil (sv.moveTo t) target stops else sv.moveTo target
    | none => sv.moveTo target

def advance (sv : Service) (millis : Nat) : Service := sv.passUntil (sv.time + millis) (millis + 1)

def isWaiting (sv : Service) (job : Nat) : Bool := sv.jobs.any (·.id = job)

/-- Runs until a job has ended, letting time pass where that is needed, in at most so many
stops. -/
def runJob (sv : Service) (job : Nat) : (stops : Nat) → Service
  | 0 => sv
  | stops + 1 =>
    let sv := sv.settle
    if sv.isWaiting job then
      match sv.nextInstant? with
      | some t => runJob (sv.moveTo t) job stops
      | none => sv
    else sv

end Treecast.Service
