import Treecast.Service.Sessions

/-!
# Jobs

What may have to wait: a lease, the start or the load of a holder, the start of a session, the
preparation of a hijack, a long poll.  Looking at a job does everything for it that can be done
without waiting.
-/

set_option autoImplicit false

namespace Treecast.Service

open Routing

/-! ## Leases -/

/-- Starts the holder of an admitted call. -/
def launchCall (sv : Service) (call : Nat) : Service × Option Failure :=
  let (sv, watched) :=
    match sv.hub.watchFor? call with
    | some lease => sv.openFeed (.ofHub lease.holder) lease.key
    | none => (sv, .ok ())
  sv.stir.onHub fun h now => h.launch now sv.time call watched

/-- Looks at a call: starts its holder if it was admitted, and ends it if it can end. -/
def pollCall (sv : Service) (call : Nat) : Service × Option (Except Failure Nat) :=
  let (sv, failure) := if sv.hub.isAdmitted call then sv.launchCall call else (sv, none)
  match failure with
  | some f => (sv.stir, some (.error f))
  | none =>
    match sv.onHub fun h now => h.tryEnd now sv.time call with
    | (sv, none) => (sv, none)
    | (sv, some r) => (sv.stir, some r)

/-- Calls for a lease. -/
def callFor (sv : Service) (key : TreeKey) : Service × Except Failure Nat :=
  sv.onHub fun h now => h.request now sv.time key

def dropLease (sv : Service) (lease : Nat) : Service :=
  (sv.onHub' fun h now => h.dropLease now lease).stir

/-- Looks at the call for one of several leases. -/
def pollCalled (sv : Service) (key : TreeKey) (call : Nat) : Service × Part :=
  match sv.pollCall call with
  | (sv, none) => (sv, .called key call)
  | (sv, some (.ok lease)) => (sv, .held key lease)
  | (sv, some (.error f)) => (sv, .failed f)

/-- Looks at one of several leases. -/
def pollPart (sv : Service) : Part → Service × Part
  | .open_ key =>
    match sv.callFor key with
    | (sv, .ok call) => sv.pollCalled key call
    | (sv, .error f) => (sv, .failed f)
  | .called key call => sv.pollCalled key call
  | .held key lease => (sv, .held key lease)
  | .failed f => (sv, .failed f)

/-- Gives up one of several leases. -/
def dropPart (sv : Service) : Part → Service
  | .open_ _ => sv
  | .called _ call => (sv.onHub' fun h now => h.abandon now call).stir
  | .held _ lease => sv.dropLease lease
  | .failed _ => sv

/-- Looks at a few leases in order, after those in `done`; the first failure gives up all
others at once. -/
def pollFew (sv : Service) (done : List Part) : List Part → Service × Except Failure (List Part)
  | [] => (sv, .ok done)
  | p :: rest =>
    match sv.pollPart p with
    | (sv, .failed f) => ((done ++ rest).foldl dropPart sv, .error f)
    | (sv, p) => pollFew sv (done ++ [p]) rest

/-- The failure whose turn it is: every lease before it is held. -/
def dueFailure? (parts : List Part) : Option Failure :=
  match parts.dropWhile Part.isHeld with
  | .failed f :: _ => some f
  | _ => none

/-- Gives up many leases: first those that are waited for, the last one first, then those that
are held, the first ones last. -/
def dropMany (sv : Service) (parts : List Part) : Service :=
  let first := parts.takeWhile Part.isHeld
  let rest := parts.dropWhile Part.isHeld
  let waiting := (rest.filter fun p => !p.isHeld).reverse
  (waiting ++ rest.filter Part.isHeld ++ first).foldl dropPart sv

/-- Looks at many leases in order, after those in `done`; a failure gives up all others once
every lease before it is held. -/
def pollMany (sv : Service) (done : List Part) : List Part → Service × Except Failure (List Part)
  | [] => (sv, .ok done)
  | p :: rest =>
    let (sv, p) := sv.pollPart p
    match dueFailure? (done ++ p :: rest) with
    | some f => (sv.dropMany (done ++ p :: rest), .error f)
    | none => pollMany sv (done ++ [p]) rest

/-- So many leases are a few; a failure among more of them waits for its turn. -/
def fewLeases : Nat := 30

/-- Looks at several leases that are called for together. -/
def pollParts (sv : Service) (parts : List Part) : Service × Except Failure (List Part) :=
  if parts.length ≤ fewLeases then sv.pollFew [] parts else sv.pollMany [] parts

/-- The leases, if all are held. -/
def heldLeases? (parts : List Part) : Option (SortedMap TreeKey Nat) :=
  let held? : Part → Option (TreeKey × Nat)
    | .held key lease => some (key, lease)
    | _ => none
  (parts.mapM held?).map SortedMap.ofList

/-! ## The preparation of a hijack -/

/-- How far the preparation for one destination got. -/
inductive Prepared where
  | waiting (stage : PrepareStage)
  /-- A tree did not load, and the destination is left alone. -/
  | skipped
  | looked (hijack : Hijack)

/-- The diagnostics that a destination has are counted. -/
def countDiagnostics (sv : Service) (hijack : Hijack) (application : String) : Service :=
  match hijack.takeover? application with
  | some t => t.diagnostics.foldl (fun sv d => sv.count (.hijack d t.mode)) sv
  | none => sv

/-- Looks at the two trees of a destination. -/
def lookAt (sv : Service) (h : Hijack) (caller : Caller) (application : String) (t : Takeover)
    (callerLease lease : Nat) : Service × Prepared :=
  let replica (lease : Nat) : Replica :=
    match (sv.leasedHolder? lease).bind sv.holder? with
    | some holder => holder.replica
    | none => Replica.empty ""
  let h := h.prepareOn application (replica callerLease) (replica lease) caller t
  (((sv.countDiagnostics h application).dropLease lease).dropLease callerLease, .looked h)

/-- Goes on once the destination's tree was called for. -/
def prepareDestination (sv : Service) (h : Hijack) (caller : Caller) (application : String)
    (t : Takeover) (callerLease call : Nat) : Service × Prepared :=
  match sv.pollCall call with
  | (sv, none) => (sv, .waiting (.destinationTree callerLease call))
  | (sv, some (.error _)) => (sv.dropLease callerLease, .skipped)
  | (sv, some (.ok lease)) => sv.lookAt h caller application t callerLease lease

/-- Goes on once the caller's own tree was called for. -/
def prepareCaller (sv : Service) (h : Hijack) (caller : Caller) (application : String)
    (t : Takeover) (call : Nat) : Service × Prepared :=
  match sv.pollCall call with
  | (sv, none) => (sv, .waiting (.callerTree call))
  | (sv, some (.error _)) => (sv, .skipped)
  | (sv, some (.ok callerLease)) =>
    match sv.callFor ⟨application, .service⟩ with
    | (sv, .error _) => (sv.dropLease callerLease, .skipped)
    | (sv, .ok call) => sv.prepareDestination h caller application t callerLease call

/-- Goes on with the preparation for one destination. -/
def prepareOne (sv : Service) (h : Hijack) (caller : Caller) (application : String)
    (t : Takeover) : PrepareStage → Service × Prepared
  | .begin_ =>
    match sv.callFor ⟨caller.application, .service⟩ with
    | (sv, .error _) => (sv, .skipped)
    | (sv, .ok call) => sv.prepareCaller h caller application t call
  | .callerTree call => sv.prepareCaller h caller application t call
  | .destinationTree callerLease call =>
    sv.prepareDestination h caller application t callerLease call

/-- Goes on with a preparation: returns what is left of it, or the prepared hijack. -/
def prepareAll (sv : Service) (caller : Caller) (h : Hijack) :
    (stage : PrepareStage) → List (String × Takeover) → Service × (Preparation ⊕ Hijack)
  | _, [] => (sv, .inr h)
  | stage, (application, t) :: rest =>
    match sv.prepareOne h caller application t stage with
    | (sv, .waiting stage) => (sv, .inl ⟨h, caller, (application, t) :: rest, stage⟩)
    | (sv, .skipped) => prepareAll sv caller h .begin_ rest
    | (sv, .looked h) => prepareAll sv caller h .begin_ rest

/-- Goes on with a preparation. -/
def goOn (sv : Service) (p : Preparation) : Service × (Preparation ⊕ Hijack) :=
  sv.prepareAll p.caller p.hijack p.stage p.left

/-- A preparation at its start; without a caller there is nothing to look at. -/
def preparationOf (h : Hijack) (request : Request) : Preparation :=
  match h.caller with
  | some caller => ⟨h, caller, h.candidates request, .begin_⟩
  | none => ⟨h, ⟨"", ""⟩, [], .begin_⟩

/-! ## Looking at jobs -/

/-- What became of a task: it waits, or it ended. -/
inductive Polled where
  | waiting (task : Task)
  | ended (result : JobResult)

/-- How the start of a session ended, seen from its outlet. -/
def launchResult (outlet : Outlet) (failure : Option Failure) : JobResult :=
  match outlet, failure with
  | .poll _ _, some f => .refused f
  | .poll _ _, none => .streaming
  | _, some f => .failed f
  | _, none => .started

/-- The watcher of a start that ended is there again. -/
def freeWatcher (sv : Service) (watcher : Option String) : Service :=
  match watcher with
  | some name =>
    { sv with watchers := sv.watchers.modify name fun e => { e with starting := false } }
  | none => sv

/-- Goes on with the start of a session. -/
def pollLaunch (sv : Service) (l : Launching) : Service × Polled :=
  match sv.pollParts l.parts with
  | (sv, .error f) => (sv.freeWatcher l.watcher, .ended (launchResult l.outlet (some f)))
  | (sv, .ok parts) =>
    match heldLeases? parts with
    | some leases =>
      ((sv.startSession l leases).freeWatcher l.watcher, .ended (launchResult l.outlet none))
    | none => (sv, .waiting (.launch { l with parts }))

/-- The start of a session for a request. -/
def launching (options : WatchOptions) (request : Request) (outlet : Outlet)
    (watcher : Option String) : Launching :=
  let trees := Session.treesOf request options.mode options.caller
  ⟨options, request, trees.map Part.open_, outlet, watcher⟩

/-- Starts the session of a long poll whose hijack is prepared. -/
def pollPrepared (sv : Service) (h : Hijack) (poll : Poll) (reader : String) : Service × Polled :=
  match h.extendRequest poll.request with
  | (_, some fault) => (sv, .ended (.refused (.request fault)))
  | (request, none) => sv.pollLaunch (launching poll.options request (.poll reader h) none)

/-- Names a lease; the one that had the name is dropped. -/
def nameLease (sv : Service) (name : String) (lease : Nat) : Service :=
  let old := sv.leaseNames.find? name
  let sv := { sv with leaseNames := sv.leaseNames.insert name lease }
  match old with
  | some old => sv.dropLease old
  | none => sv

/-- Goes on with the call for a named lease. -/
def pollLease (sv : Service) (name : String) (call : Nat) : Service × Polled :=
  match sv.pollCall call with
  | (sv, none) => (sv, .waiting (.lease name call))
  | (sv, some (.error f)) => (sv, .ended (.failed f))
  | (sv, some (.ok lease)) =>
    match sv.hub.leases.find? lease with
    | none => (sv, .ended .finished)
    | some l =>
      let phase := match sv.hub.holder? l.holder with
        | some holder => holder.phase
        | none => .closed
      (sv.nameLease name lease, .ended (.leased l.key phase))

def pollWait (sv : Service) (ref : HolderRef) (deadline limit : Nat) : Polled :=
  match sv.holder? ref with
  | none => .ended .finished
  | some holder =>
    match Hub.waitVerdict holder.key (some holder) sv.time deadline limit with
    | none => .waiting (.holderWait ref deadline limit)
    | some (.ok ()) => .ended .finished
    | some (.error f) => .ended (.failed f)

def pollTask (sv : Service) : Task → Service × Polled
  | .lease name call => sv.pollLease name call
  | .holderStart ref =>
    match sv.startHolder ref with
    | (sv, none) => (sv, .ended .finished)
    | (sv, some f) => (sv, .ended (.failed f))
  | .holderWait ref deadline limit => (sv, sv.pollWait ref deadline limit)
  | .launch l => sv.pollLaunch l
  | .prepare p request =>
    match sv.goOn p with
    | (sv, .inl p) => (sv, .waiting (.prepare p request))
    | (sv, .inr h) => (sv, .ended (.prepared h request))
  | .poll p poll reader =>
    match sv.goOn p with
    | (sv, .inl p) => (sv, .waiting (.poll p poll reader))
    | (sv, .inr h) => sv.pollPrepared h poll reader

def pollJob (sv : Service) (job : Job) : Service :=
  match sv.pollTask job.task with
  | (sv, .waiting task) => { sv with jobs := sv.jobs ++ [{ job with task }] }
  | (sv, .ended result) => stir { sv with results := sv.results ++ [(job, result)] }

/-- Looks at every job in order. -/
def pollJobs (sv : Service) : Service := sv.jobs.foldl pollJob { sv with jobs := [] }

/-- Adds a job and returns its number. -/
def addJob (sv : Service) (name : String) (task : Task) : Service × Nat :=
  let id := sv.nextJob
  (stir { sv with jobs := sv.jobs ++ [⟨id, name, task⟩], nextJob := id + 1 }, id)

/-- The instants at which a job may end for waiting too long. -/
def deadlinesOf (sv : Service) (task : Task) : List Nat :=
  let ofCall (call : Nat) : List Nat :=
    ((sv.hub.calls.find? call).bind fun c => c.phase.deadline?).toList
  let ofPart : Part → List Nat
    | .called _ call => ofCall call
    | _ => []
  let ofStage : PrepareStage → List Nat
    | .begin_ => []
    | .callerTree call | .destinationTree _ call => ofCall call
  match task with
  | .lease _ call => ofCall call
  | .holderStart _ => []
  | .holderWait _ deadline _ => [deadline]
  | .launch l => l.parts.flatMap ofPart
  | .prepare p _ => ofStage p.stage
  | .poll p _ _ => ofStage p.stage

/-- The holder that a job keeps. -/
def keptBy : Task → List HolderRef
  | .holderWait ref _ _ => [ref]
  | _ => []

end Treecast.Service
