import Treecast.Hub.Basic

/-!
# Sweeps

A sweep first asks a condition whether evicting is worthwhile now.  If it is, every holder
without leases whose last interest is long enough ago is evicted, the oldest interest first.
Then entries of the interest index that are older still are dropped.
-/

set_option autoImplicit false

namespace Treecast

/-- Why a sweep stopped. -/
inductive SweepFault where
  | failed (reason : String)
  | crashed
  deriving DecidableEq, Repr

/-- Decides whether a sweep may evict. -/
abbrev EvictionCondition := HubStats → Except SweepFault Bool

/-- Evicts while more holders are registered than the given number. -/
def EvictionCondition.above (limit : Nat) : EvictionCondition := fun stats =>
  .ok (decide (stats.holders > limit))

/-- What a sweep did. -/
structure SweepReport where
  /-- The evicted trees, the oldest interest first. -/
  evicted : List TreeKey
  /-- How many entries of the interest index were dropped for their age. -/
  purged : Nat
  deriving DecidableEq, Repr

namespace Hub

/-- Ticks of the clock in a second. -/
def ticksPerSecond : Nat := 1000000000

/-- The instant that lies so many seconds before `now`; none before the clock began. -/
def secondsBefore (now seconds : Nat) : Option Nat :=
  if ticksPerSecond * seconds ≤ now then some (now - ticksPerSecond * seconds) else none

/-- Evicts the holder of a tree if it has no leases and no interest was noted since that
instant; says whether it did. -/
def evictIdle (h : Hub) (key : TreeKey) (moment : Nat) : Hub × Bool :=
  match h.slot? key with
  | some s =>
    if s.refs = 0 then
      match h.interest.removeIfUnchanged key moment with
      | (interest, true) =>
        ((Hub.unregister { h with interest } key s).count .evictions, true)
      | (_, false) => (h, false)
    else (h, false)
  | none => (h, false)

/-- Evicts those of the candidates that are idle. -/
def evictAll (h : Hub) : List (Nat × TreeKey) → Hub × List TreeKey
  | [] => (h, [])
  | (moment, key) :: rest =>
    let (h, evicted) := h.evictIdle key moment
    let (h, more) := evictAll h rest
    (h, if evicted then key :: more else more)

/-- Drops those of the entries that are unchanged, and counts them. -/
def purge (h : Hub) : List (Nat × TreeKey) → Hub × Nat
  | [] => (h, 0)
  | (moment, key) :: rest =>
    let (interest, removed) := h.interest.removeIfUnchanged key moment
    let (h, more) := purge { h with interest } rest
    (h, if removed then more + 1 else more)

/-- Evicts the holders that are idle since before the retention time. -/
def evictStale (h : Hub) (settings : SweepSettings) (now : Nat) : Hub × List TreeKey :=
  match secondsBefore now settings.retentionSeconds with
  | some cutoff => h.evictAll (h.interest.olderThan cutoff)
  | none => (h, [])

/-- Drops the entries of the interest index that lie beyond the horizon. -/
def purgeStale (h : Hub) (settings : SweepSettings) (now : Nat) : Hub × Nat :=
  match secondsBefore now settings.staleHorizonSeconds with
  | some horizon => h.purge (h.interest.olderThan horizon)
  | none => (h, 0)

/-- Sweeps at the instant `now`; when the condition fails, nothing is done. -/
def sweep (h : Hub) (settings : SweepSettings) (condition : EvictionCondition) (now : Nat) :
    Hub × Except SweepFault SweepReport :=
  match condition h.stats with
  | .error fault => (h, .error fault)
  | .ok allowed =>
    let (h, evicted) := if allowed then h.evictStale settings now else (h, [])
    let (h, purged) := h.purgeStale settings now
    (h, .ok ⟨evicted, purged⟩)

end Hub

end Treecast
