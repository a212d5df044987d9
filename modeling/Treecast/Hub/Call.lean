import Treecast.Hub.Basic
import Treecast.Error

/-!
# Calls for a lease

A call takes a lease at once and then waits until the holder has loaded.  The call that created
the holder first passes the startup gate and starts it; all others wait for it to do so.  A call
has the same time for all its waiting: what it spent at the gate, by the clock, it does not have
for the load.

A call that fails gives up its permit and its lease, and evicts the holder if nobody else has a
lease on it.  A call that is dropped while it waits gives up its permit and its lease only.
-/

set_option autoImplicit false

namespace Treecast.Hub

/-- When the wait of a call that comes now ends. -/
def deadlineAt (h : Hub) (time : Nat) : Nat := time + h.settings.initTimeoutMillis

/-- Ticks of the clock in a millisecond. -/
def ticksPerMilli : Nat := 1000000

/-- The milliseconds that are left of the time of a call that began so long ago. -/
def timeLeft (h : Hub) (now began : Nat) : Nat :=
  h.settings.initTimeoutMillis - (now - began) / ticksPerMilli

/-- Calls for a lease on the holder of a tree. -/
def call (h : Hub) (now time : Nat) (key : TreeKey) : Hub × Nat :=
  let (h, lease, created) := (h.track now key).takeLease key
  let id := h.nextCall
  let h := { h with nextCall := id + 1 }
  if created then
    let (gate, admitted) := h.gate.enter id
    let phase := if admitted then .admitted else .waiting (h.deadlineAt time)
    ({ h with gate, calls := h.calls.insert id ⟨lease, phase, now⟩ }, id)
  else ({ h with calls := h.calls.insert id ⟨lease, .following (h.deadlineAt time), now⟩ }, id)

/-- Calls for a lease on the holder of an application's tree, if the name is valid. -/
def request (h : Hub) (now time : Nat) (key : TreeKey) : Hub × Except Failure Nat :=
  if isValidName key.application then
    let (h, id) := h.call now time key
    (h, .ok id)
  else (h, .error (.request (.invalidName .application key.application)))

def callLease? (h : Hub) (c : Call) : Option Lease := h.leases.find? c.lease

/-- The holder that a call waits for. -/
def callHolder? (h : Hub) (c : Call) : Option Holder :=
  (h.callLease? c).bind fun lease => h.holder? lease.holder

/-- The tree whose store watch an admitted call has to open: that of a holder that is still
new. -/
def watchFor? (h : Hub) (id : Nat) : Option Lease := do
  let c ← h.calls.find? id
  let lease ← h.callLease? c
  let holder ← h.holder? lease.holder
  if c.phase = .admitted ∧ holder.phase = .new then some lease else none

/-- Whether a call has a permit but has not started its holder. -/
def isAdmitted (h : Hub) (id : Nat) : Bool :=
  match h.calls.find? id with
  | some c => c.phase = .admitted
  | none => false

def setPhase (h : Hub) (id : Nat) (phase : CallPhase) : Hub :=
  { h with calls := h.calls.modify id fun c => { c with phase } }

/-- Returns a permit, which goes to the first call in line. -/
def returnPermit (h : Hub) : Hub :=
  match h.gate.leave with
  | (gate, some next) => { h with gate }.setPhase next .admitted
  | (gate, none) => { h with gate }

/-- A call leaves the gate: its permit is returned, or its place in line. -/
def leaveGate (h : Hub) (id : Nat) (phase : CallPhase) : Hub :=
  match phase with
  | .waiting _ => { h with gate := h.gate.giveUp id }
  | .admitted | .loading _ => h.returnPermit
  | .following _ => h

/-- Takes a call off the list of calls and out of the gate. -/
def endCall (h : Hub) (id : Nat) (c : Call) : Hub :=
  Hub.leaveGate { h with calls := h.calls.erase id } id c.phase

/-- Drops a call that has not returned. -/
def abandon (h : Hub) (now : Nat) (id : Nat) : Hub :=
  match h.calls.find? id with
  | some c => (h.endCall id c).dropLease now c.lease
  | none => h

/-- What a failed call counts as. -/
def lossOf (failure : Failure) : LoadFailure :=
  match failure with
  | .initTimeout _ _ => .timeout
  | .holderClosed _ => .closed
  | _ => .store

def fail (h : Hub) (now : Nat) (id : Nat) (failure : Failure) : Hub :=
  match h.calls.find? id with
  | none => h
  | some c =>
    let h := if c.phase.isCreator then h.count (.initFailures (lossOf failure)) else h
    let lease := h.callLease? c
    let h := (h.endCall id c).dropLease now c.lease
    match lease with
    | some lease => h.evictFailed lease.key lease.holder
    | none => h

def succeed (h : Hub) (id : Nat) : Hub :=
  match h.calls.find? id with
  | none => h
  | some c => (if c.phase.isCreator then h.count .initSamples else h).endCall id c

def leasedCall? (h : Hub) (id : Nat) : Option (Call × Lease) := do
  let c ← h.calls.find? id
  let lease ← h.callLease? c
  return (c, lease)

/-- An admitted call starts its holder; `watched` says how opening the store watch went. -/
def launch (h : Hub) (now time : Nat) (id : Nat) (watched : Except StoreError Unit) :
    Hub × Option Failure :=
  match h.leasedCall? id with
  | none => (h, none)
  | some (c, lease) =>
    let h := h.updateHolder lease.holder Holder.start
    match watched with
    | .error e => ((h.closeHolder lease.holder).fail now id (.store e), some (.store e))
    | .ok () => (h.setPhase id (.loading (time + h.timeLeft now c.began)), none)

/-- How a wait for a holder ends, if it ends now; a holder that is ready or closed comes before
the deadline. -/
def waitVerdict (key : TreeKey) (holder : Option Holder) (time deadline limit : Nat) :
    Option (Except Failure Unit) :=
  let onTime := if deadline ≤ time then some (.error (.initTimeout key limit)) else none
  match holder with
  | some holder =>
    if holder.isReady then some (.ok ())
    else if holder.isClosed then some (.error (.holderClosed key))
    else onTime
  | none => onTime

/-- How a call ends, if it ends now. -/
def verdict (h : Hub) (time : Nat) (c : Call) : Option (Except Failure Unit) :=
  match h.callLease? c with
  | none => none
  | some lease =>
    let limit := h.settings.initTimeoutMillis
    match c.phase with
    | .waiting deadline =>
      if deadline ≤ time then some (.error (.initTimeout lease.key limit)) else none
    | .admitted => none
    | .loading deadline | .following deadline =>
      waitVerdict lease.key (h.callHolder? c) time deadline limit

/-- Ends a call if it ends now, with its lease or its failure. -/
def tryEnd (h : Hub) (now time : Nat) (id : Nat) : Hub × Option (Except Failure Nat) :=
  match h.calls.find? id with
  | none => (h, none)
  | some c =>
    match h.verdict time c with
    | none => (h, none)
    | some (.ok ()) => (h.succeed id, some (.ok c.lease))
    | some (.error failure) => (h.fail now id failure, some (.error failure))

end Treecast.Hub
