import Treecast.Holder
import Treecast.Interest
import Treecast.Meters
import Treecast.Settings.Basic

/-!
# The hub

The hub registers one holder per tree and counts the leases on it.  A holder whose last lease is
released stays registered, so that it is still warm for the next client, until it is evicted.

A lease is on one instance of a holder: when a closed holder was replaced, a lease on the old one
no longer counts.  Every holder that the hub ever created is kept in `holders`, so that leases on
old ones can still be read.

Holders are started behind a gate with a fixed number of permits.  A call that finds none free waits
in line; a permit that is returned goes to the first in line.
-/

set_option autoImplicit false

namespace Treecast

/-! ## The startup gate -/

/-- The permits that are free and the calls in line for one. -/
structure Gate where
  free : Nat
  waiting : List Nat
  deriving DecidableEq, Repr

namespace Gate

/-- A gate with all its permits. -/
def ofSize (permits : Nat) : Gate := ⟨permits, []⟩

/-- Asks for a permit; says whether the call has it at once. -/
def enter (g : Gate) (call : Nat) : Gate × Bool :=
  if g.free = 0 then ({ g with waiting := g.waiting ++ [call] }, false)
  else ({ g with free := g.free - 1 }, true)

/-- Returns a permit; names the call that gets it. -/
def leave (g : Gate) : Gate × Option Nat :=
  match g.waiting with
  | first :: rest => ({ g with waiting := rest }, some first)
  | [] => ({ g with free := g.free + 1 }, none)

/-- Leaves the line. -/
def giveUp (g : Gate) (call : Nat) : Gate := { g with waiting := g.waiting.filter (· ≠ call) }

end Gate

/-! ## Holders and leases -/

/-- A registered holder with the number of leases on it. -/
structure Slot where
  holder : Nat
  refs : Nat
  deriving DecidableEq, Repr

/-- A lease on a holder. -/
structure Lease where
  key : TreeKey
  holder : Nat
  released : Bool
  deriving DecidableEq, Repr

/-- How far a call for a lease has come. -/
inductive CallPhase where
  /-- It created the holder and waits for a permit to start it. -/
  | waiting (deadline : Nat)
  /-- It created the holder and has a permit, but has not started it yet. -/
  | admitted
  /-- It started the holder, holds a permit and waits for the snapshot. -/
  | loading (deadline : Nat)
  /-- It waits for a holder that another call created. -/
  | following (deadline : Nat)
  deriving DecidableEq, Repr

/-- Whether a call in that phase holds a permit. -/
def CallPhase.hasPermit : CallPhase → Bool
  | .admitted | .loading _ => true
  | _ => false

/-- Whether a call in that phase created its holder. -/
def CallPhase.isCreator : CallPhase → Bool
  | .following _ => false
  | _ => true

/-- When a call's present wait ends. -/
def CallPhase.deadline? : CallPhase → Option Nat
  | .waiting d | .loading d | .following d => some d
  | .admitted => none

/-- A call for a lease that has not returned yet. -/
structure Call where
  lease : Nat
  phase : CallPhase
  /-- When it came, by the clock. -/
  began : Nat
  deriving DecidableEq, Repr

/-- How many holders are registered, and how many of them have leases. -/
structure HubStats where
  holders : Nat
  referenced : Nat
  deriving DecidableEq, Repr

structure Hub where
  settings : HubSettings
  registry : SortedMap TreeKey Slot
  /-- Every holder that was created, by number. -/
  holders : SortedMap Nat Holder
  /-- The leases that exist, by number. -/
  leases : SortedMap Nat Lease
  /-- The calls that have not returned, by number. -/
  calls : SortedMap Nat Call
  gate : Gate
  interest : Interest
  meters : Meters
  nextHolder : Nat
  nextLease : Nat
  nextCall : Nat

namespace Hub

/-- A hub without holders. -/
def create (settings : HubSettings) : Hub :=
  ⟨settings, SortedMap.empty, SortedMap.empty, SortedMap.empty, SortedMap.empty,
    Gate.ofSize settings.startupConcurrency, Interest.empty, Meters.zero, 0, 0, 0⟩

instance : Inhabited Hub := ⟨create HubSettings.standard⟩

/-- The registered holder of a tree. -/
def slot? (h : Hub) (key : TreeKey) : Option Slot := h.registry.find? key

def holder? (h : Hub) (id : Nat) : Option Holder := h.holders.find? id

/-- The registered holder of a tree, without a lease on it. -/
def registered? (h : Hub) (key : TreeKey) : Option Holder :=
  (h.slot? key).bind fun s => h.holder? s.holder

/-- The number of leases on a registered holder. -/
def references? (h : Hub) (key : TreeKey) : Option Nat := (h.slot? key).map Slot.refs

/-- How many holders are registered, and how many of them have leases. -/
def stats (h : Hub) : HubStats :=
  ⟨h.registry.size, (h.registry.values.filter fun s => s.refs > 0).length⟩

def count (h : Hub) (meter : Meter) : Hub := { h with meters := h.meters.count meter }

/-- Reads the number of registered holders into its meter. -/
def gauge (h : Hub) : Hub := { h with meters := h.meters.set .holders h.registry.size }

def track (h : Hub) (now : Nat) (key : TreeKey) : Hub :=
  { h with interest := h.interest.touch key now }

/-- Drops a tree from the interest index. -/
def forget (h : Hub) (key : TreeKey) : Hub := { h with interest := h.interest.remove key }

def updateHolder (h : Hub) (id : Nat) (f : Holder → Holder) : Hub :=
  { h with holders := h.holders.modify id f }

def closeHolder (h : Hub) (id : Nat) : Hub := h.updateHolder id Holder.close

/-- The registered holder of a tree, unless it is closed. -/
def openSlot? (h : Hub) (key : TreeKey) : Option Slot :=
  match h.slot? key with
  | some s =>
    match h.holder? s.holder with
    | some holder => if holder.isClosed then none else some s
    | none => none
  | none => none

/-- Registers a new holder for a tree, with one lease on it. -/
def register (h : Hub) (key : TreeKey) : Hub × Nat :=
  let id := h.nextHolder
  ({ h with
      registry := h.registry.insert key ⟨id, 1⟩
      holders := h.holders.insert id (Holder.create key h.settings.changeLogCapacity)
      nextHolder := id + 1 }, id)

/-- Adds a lease on a holder to the leases that exist. -/
def addLease (h : Hub) (key : TreeKey) (holder : Nat) : Hub × Nat :=
  let id := h.nextLease
  ({ h with leases := h.leases.insert id ⟨key, holder, false⟩, nextLease := id + 1 }, id)

/-- Takes a lease on the open holder of a tree, which is created if there is none; says whether
it was. -/
def takeLease (h : Hub) (key : TreeKey) : Hub × Nat × Bool :=
  match h.openSlot? key with
  | some s =>
    let h := { h with registry := h.registry.insert key { s with refs := s.refs + 1 } }
    let (h, lease) := h.gauge.addLease key s.holder
    (h, lease, false)
  | none =>
    let (h, holder) := h.register key
    let (h, lease) := h.gauge.addLease key holder
    (h, lease, true)

/-- Drops one reference from a slot; without a reference nothing happens, and with the last one
interest is noted. -/
def dropReference (h : Hub) (now : Nat) (key : TreeKey) (s : Slot) : Hub :=
  if s.refs = 0 then h
  else
    let h := { h with registry := h.registry.insert key { s with refs := s.refs - 1 } }
    if s.refs = 1 then h.track now key else h

/-- Drops one reference from whatever holder is registered for a tree. -/
def release (h : Hub) (now : Nat) (key : TreeKey) : Hub :=
  match h.slot? key with
  | some s => h.dropReference now key s
  | none => h

/-- Releases a lease; only a lease on the registered instance counts, and only once. -/
def releaseLease (h : Hub) (now : Nat) (id : Nat) : Hub :=
  match h.leases.find? id with
  | none => h
  | some lease =>
    if lease.released then h
    else
      let h := { h with leases := h.leases.insert id { lease with released := true } }
      match h.slot? lease.key with
      | some s => if s.holder = lease.holder then h.dropReference now lease.key s else h
      | none => h

/-- Releases a lease, which then no longer exists. -/
def dropLease (h : Hub) (now : Nat) (id : Nat) : Hub :=
  let h := h.releaseLease now id
  { h with leases := h.leases.erase id }

/-- Removes a holder from the registry and closes it. -/
def unregister (h : Hub) (key : TreeKey) (s : Slot) : Hub :=
  Hub.closeHolder { h with registry := h.registry.erase key }.gauge s.holder

/-- Evicts an instance that failed to load, if it is still registered, without leases and not
ready. -/
def evictFailed (h : Hub) (key : TreeKey) (holder : Nat) : Hub :=
  match h.slot? key with
  | some s =>
    let ready := match h.holder? holder with
      | some holder => holder.isReady
      | none => false
    if s.holder = holder ∧ s.refs = 0 ∧ !ready then (h.unregister key s).forget key else h
  | none => h

/-- Evicts the holder of a tree if it has no leases; says whether it did. -/
def tryEvict (h : Hub) (key : TreeKey) : Hub × Bool :=
  match h.slot? key with
  | some s => if s.refs = 0 then (h.unregister key s, true) else (h, false)
  | none => (h, false)

/-- Closes every registered holder, leases or not. -/
def closeAll (h : Hub) : Hub :=
  let slots := h.registry.toList
  let h := { h with registry := SortedMap.empty }.gauge
  slots.foldl (fun h e => (h.forget e.1).closeHolder e.2.holder) h

end Hub

end Treecast
