import Treecast.Routing.Settings

/-!
# Settings of the service

What an operator sets, section by section, with the values that hold where nothing is set.
-/

set_option autoImplicit false

namespace Treecast

/-- The listening side of the service. -/
structure ServerSettings where
  listenAddress : String
  /-- Seconds without a message after which a ping is sent. -/
  keepaliveSeconds : Nat
  deriving DecidableEq, Repr

/-- The registry of holders. -/
structure HubSettings where
  /-- How many holders may be starting at one time. -/
  startupConcurrency : Nat
  /-- Milliseconds in which a tree has to load. -/
  initTimeoutMillis : Nat
  /-- How many changes a holder's log keeps for a slow reader. -/
  changeLogCapacity : Nat
  deriving DecidableEq, Repr

/-- The eviction of idle holders. -/
structure SweepSettings where
  enabled : Bool
  intervalMillis : Nat
  /-- Seconds after which an idle holder may be evicted. -/
  retentionSeconds : Nat
  /-- Seconds after which an entry of the interest index is dropped. -/
  staleHorizonSeconds : Nat
  /-- Nothing is evicted while the hub holds no more holders than this. -/
  minHolders : Nat
  deriving DecidableEq, Repr

/-- The sessions of clients. -/
structure SessionSettings where
  maxLifeSpanSeconds : Nat
  lifeSpanJitterSeconds : Nat
  /-- How many messages wait for a slow client. -/
  channelCapacity : Nat
  deriving DecidableEq, Repr

/-- The declaration of consumers. -/
structure DependencySettings where
  enabled : Bool
  /-- How often a write is tried when others come first. -/
  maxRetries : Nat
  deriving DecidableEq, Repr

/-- The exposition of measurements. -/
structure MonitoringSettings where
  enabled : Bool
  portNumber : Nat
  deriving DecidableEq, Repr

structure Settings where
  server : ServerSettings
  hub : HubSettings
  cleaner : SweepSettings
  watcher : SessionSettings
  route : Routing.RouteSettings
  hijack : Routing.HijackSettings
  dependency : DependencySettings
  monitoring : MonitoringSettings
  deriving DecidableEq

/-- The listening side where nothing is set. -/
def ServerSettings.standard : ServerSettings := ⟨"0.0.0.0:5000", 15⟩

/-- The registry where nothing is set. -/
def HubSettings.standard : HubSettings := ⟨8, 5000, 1024⟩

/-- Eviction where nothing is set. -/
def SweepSettings.standard : SweepSettings := ⟨true, 60000, 300, 3600, 0⟩

/-- Sessions where nothing is set. -/
def SessionSettings.standard : SessionSettings := ⟨3600, 300, 64⟩

/-- Declaration where nothing is set. -/
def DependencySettings.standard : DependencySettings := ⟨false, 3⟩

/-- Exposition where nothing is set. -/
def MonitoringSettings.standard : MonitoringSettings := ⟨false, 8080⟩

/-- The settings where nothing is set. -/
def Settings.standard : Settings :=
  ⟨.standard, .standard, .standard, .standard, .standard, .standard, .standard, .standard⟩

instance : Inhabited Settings := ⟨Settings.standard⟩

end Treecast
