import Treecast.Settings.Basic
import Treecast.Json.Decode

/-!
# Reading and writing settings

Settings are read from values of any kind that can be asked for numbers, texts, lists and
members (`Reading`).  A section is a set of named fields, or a list of them in their order; a
field that is missing has its standard value and one that is not known is ignored.
-/

set_option autoImplicit false

namespace Treecast

open Routing

/-- How typed data is read from values of type `V`. -/
structure Reading (V : Type) where
  /-- A whole number up to a limit. -/
  nat? : Nat → V → Option Nat
  flag? : V → Option Bool
  text? : V → Option String
  items? : V → Option (List V)
  members? : V → Option (List (String × V))
  mode? : V → Option HijackMode
  /-- Whether a list may have more items than a section has fields. -/
  extraItems : Bool

namespace Reading

/-- Reads JSON values. -/
def json : Reading Json.Value where
  nat? := Json.Value.natUpTo?
  flag? := Json.Value.flag?
  text? := Json.Value.text?
  items?
    | .array items => some items
    | _ => none
  members? := Json.Value.members?
  mode? v := v.variant?.bind HijackMode.ofText?
  extraItems := false

variable {V α : Type} (r : Reading V)

/-- The fields of a section, by name. -/
def fields? (names : List String) (v : V) : Option (SortedMap String V) :=
  match r.members? v with
  | some members => some (SortedMap.ofList members)
  | none =>
    match r.items? v with
    | some items =>
      if r.extraItems || items.length ≤ names.length then
        some (SortedMap.ofList (names.zip items))
      else none
    | none => none

def fieldOr (fields : SortedMap String V) (name : String) (read : V → Option α) (missing : α) :
    Option α :=
  match fields.find? name with
  | some v => read v
  | none => some missing

/-- A whole number of 64 bits. -/
def word? : V → Option Nat := r.nat? (Nat.pow 2 64 - 1)

def texts? (v : V) : Option (List String) := do (← r.items? v).mapM r.text?

/-- A map of values that are read by `read`. -/
def map? (read : V → Option α) (v : V) : Option (SortedMap String α) := do
  let members ← (← r.members? v).mapM fun m => (read m.2).map fun x => (m.1, x)
  return SortedMap.ofList members

/-- The listening side. -/
def server? (v : V) : Option ServerSettings := do
  let fs ← r.fields? ["listen_address", "keepalive_interval_in_secs"] v
  let s := ServerSettings.standard
  return ⟨← fieldOr fs "listen_address" r.text? s.listenAddress,
    ← fieldOr fs "keepalive_interval_in_secs" r.word? s.keepaliveSeconds⟩

/-- The registry's section. -/
def hub? (v : V) : Option HubSettings := do
  let fs ← r.fields? ["startup_concurrency", "init_timeout_in_ms", "change_log_capacity"] v
  let s := HubSettings.standard
  return ⟨← fieldOr fs "startup_concurrency" r.word? s.startupConcurrency,
    ← fieldOr fs "init_timeout_in_ms" r.word? s.initTimeoutMillis,
    ← fieldOr fs "change_log_capacity" r.word? s.changeLogCapacity⟩

/-- The section of eviction. -/
def cleaner? (v : V) : Option SweepSettings := do
  let fs ← r.fields? ["enabled", "sweep_interval_in_ms", "retention_in_secs",
    "stale_horizon_in_secs", "min_holders"] v
  let s := SweepSettings.standard
  return ⟨← fieldOr fs "enabled" r.flag? s.enabled,
    ← fieldOr fs "sweep_interval_in_ms" r.word? s.intervalMillis,
    ← fieldOr fs "retention_in_secs" r.word? s.retentionSeconds,
    ← fieldOr fs "stale_horizon_in_secs" r.word? s.staleHorizonSeconds,
    ← fieldOr fs "min_holders" r.word? s.minHolders⟩

/-- The section of sessions, with the given standard jitter. -/
def watcherWith? (jitter : Nat) (v : V) : Option SessionSettings := do
  let fs ← r.fields? ["max_life_span_in_secs", "life_span_jitter_in_secs", "channel_capacity"] v
  let s := SessionSettings.standard
  return ⟨← fieldOr fs "max_life_span_in_secs" r.word? s.maxLifeSpanSeconds,
    ← fieldOr fs "life_span_jitter_in_secs" r.word? jitter,
    ← fieldOr fs "channel_capacity" r.word? s.channelCapacity⟩

def watcher? (v : V) : Option SessionSettings :=
  r.watcherWith? SessionSettings.standard.lifeSpanJitterSeconds v

def route? (v : V) : Option RouteSettings := do
  let fs ← r.fields? ["intents", "ezones", "default_policy", "max_resolve_depth"] v
  let s := RouteSettings.standard
  return ⟨← fieldOr fs "intents" r.texts? s.intents,
    ← fieldOr fs "ezones" r.texts? s.ezones,
    ← fieldOr fs "default_policy" (r.map? r.text?) s.defaultPolicy,
    ← fieldOr fs "max_resolve_depth" r.word? s.maxResolveDepth⟩

def hijack? (v : V) : Option HijackSettings := do
  let fs ← r.fields? ["intent", "modes", "ezone_defaults", "standalone_exclusions",
    "force_routing_enabled", "force_routing_clusters", "force_routing_exclusions"] v
  let s := HijackSettings.standard
  return ⟨← fieldOr fs "intent" r.text? s.intent,
    ← fieldOr fs "modes" (r.map? r.mode?) s.modes,
    ← fieldOr fs "ezone_defaults" (r.map? r.mode?) s.ezoneDefaults,
    ← fieldOr fs "standalone_exclusions" (r.map? r.texts?) s.standaloneExclusions,
    ← fieldOr fs "force_routing_enabled" r.flag? s.forceEnabled,
    ← fieldOr fs "force_routing_clusters" (r.map? r.text?) s.forceClusters,
    ← fieldOr fs "force_routing_exclusions" (r.map? r.texts?) s.forceExclusions⟩

/-- The section of declarations. -/
def dependency? (v : V) : Option DependencySettings := do
  let fs ← r.fields? ["enabled", "max_retries"] v
  let s := DependencySettings.standard
  return ⟨← fieldOr fs "enabled" r.flag? s.enabled, ← fieldOr fs "max_retries" r.word? s.maxRetries⟩

/-- The section of exposition. -/
def monitoring? (v : V) : Option MonitoringSettings := do
  let fs ← r.fields? ["prometheus_enabled", "prometheus_port"] v
  let s := MonitoringSettings.standard
  return ⟨← fieldOr fs "prometheus_enabled" r.flag? s.enabled,
    ← fieldOr fs "prometheus_port" (r.nat? 65535) s.portNumber⟩

/-- The names of the sections, in their order. -/
def sectionNames : List String :=
  ["server", "hub", "cleaner", "watcher", "route", "hijack", "dependency", "monitoring"]

def settings? (v : V) : Option Settings := do
  let fs ← r.fields? sectionNames v
  let s := Settings.standard
  return ⟨← fieldOr fs "server" r.server? s.server, ← fieldOr fs "hub" r.hub? s.hub,
    ← fieldOr fs "cleaner" r.cleaner? s.cleaner, ← fieldOr fs "watcher" r.watcher? s.watcher,
    ← fieldOr fs "route" r.route? s.route, ← fieldOr fs "hijack" r.hijack? s.hijack,
    ← fieldOr fs "dependency" r.dependency? s.dependency,
    ← fieldOr fs "monitoring" r.monitoring? s.monitoring⟩

end Reading

open Json (Value)

/-- The section of routes as a value. -/
def routeValue (s : RouteSettings) : Value :=
  Value.ofMembers [("intents", .strings s.intents), ("ezones", .strings s.ezones),
    ("default_policy", .ofMap .string s.defaultPolicy),
    ("max_resolve_depth", .nat s.maxResolveDepth)]

/-- The section of hijacking as a value; modes are written by their letters. -/
def hijackValue (s : HijackSettings) : Value :=
  let mode (m : HijackMode) := Value.string m.code
  Value.ofMembers [("intent", .string s.intent), ("modes", .ofMap mode s.modes),
    ("ezone_defaults", .ofMap mode s.ezoneDefaults),
    ("standalone_exclusions", .ofMap .strings s.standaloneExclusions),
    ("force_routing_enabled", .bool s.forceEnabled),
    ("force_routing_clusters", .ofMap .string s.forceClusters),
    ("force_routing_exclusions", .ofMap .strings s.forceExclusions)]

def Settings.toValue (s : Settings) : Value :=
  Value.ofMembers
    [("server", .ofMembers [("listen_address", .string s.server.listenAddress),
        ("keepalive_interval_in_secs", .nat s.server.keepaliveSeconds)]),
      ("hub", .ofMembers [("startup_concurrency", .nat s.hub.startupConcurrency),
        ("init_timeout_in_ms", .nat s.hub.initTimeoutMillis),
        ("change_log_capacity", .nat s.hub.changeLogCapacity)]),
      ("cleaner", .ofMembers [("enabled", .bool s.cleaner.enabled),
        ("sweep_interval_in_ms", .nat s.cleaner.intervalMillis),
        ("retention_in_secs", .nat s.cleaner.retentionSeconds),
        ("stale_horizon_in_secs", .nat s.cleaner.staleHorizonSeconds),
        ("min_holders", .nat s.cleaner.minHolders)]),
      ("watcher", .ofMembers [("max_life_span_in_secs", .nat s.watcher.maxLifeSpanSeconds),
        ("life_span_jitter_in_secs", .nat s.watcher.lifeSpanJitterSeconds),
        ("channel_capacity", .nat s.watcher.channelCapacity)]),
      ("route", routeValue s.route),
      ("hijack", hijackValue s.hijack),
      ("dependency", .ofMembers [("enabled", .bool s.dependency.enabled),
        ("max_retries", .nat s.dependency.maxRetries)]),
      ("monitoring", .ofMembers [("prometheus_enabled", .bool s.monitoring.enabled),
        ("prometheus_port", .nat s.monitoring.portNumber)])]

end Treecast
