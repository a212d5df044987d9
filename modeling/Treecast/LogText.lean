import Treecast.Settings.Basic
import Treecast.Holder
import Treecast.Hub.Basic
import Treecast.Text.Classes

/-!
# Log texts

How the parts of the service appear in its log: a name and fields in braces, texts in quotes.
-/

set_option autoImplicit false

namespace Treecast.LogText

/-- How a character is written inside quotes: an unprintable one by its number. -/
def escape (c : Char) : List Char :=
  if c = '"' then ['\\', '"']
  else if c = '\\' then ['\\', '\\']
  else if c = '\n' then ['\\', 'n']
  else if c = '\r' then ['\\', 'r']
  else if c = '\t' then ['\\', 't']
  else if c = '\x00' then ['\\', '0']
  else if Text.isUnprintable c then ['\\', 'u', '\x7b'] ++ Nat.toDigits 16 c.toNat ++ ['\x7d']
  else [c]

def quoted (text : String) : String :=
  String.ofList ('"' :: text.toList.flatMap escape ++ ['"'])

/-- A name with fields; `more` says that some are not shown. -/
def record (name : String) (fields : List (String × String)) (more : Bool) : String :=
  let shown := fields.map fun f => f.1 ++ ": " ++ f.2
  let shown := if more then shown ++ [".."] else shown
  name ++ " \x7b " ++ ", ".intercalate shown ++ " \x7d"

def flag (b : Bool) : String := if b then "true" else "false"

def store (s : Store) : String :=
  record "MemoryStore" [("nodes", toString s.nodes.size), ("watches", toString s.watches.length)]
    false

/-- The registry's section of the settings. -/
def hubSettings (s : HubSettings) : String :=
  record "HubConfig"
    [("startup_concurrency", toString s.startupConcurrency),
      ("init_timeout_in_ms", toString s.initTimeoutMillis),
      ("change_log_capacity", toString s.changeLogCapacity)] false

def hub (h : Hub) : String :=
  let stats := record "HubStats"
    [("holder_count", toString h.stats.holders),
      ("referenced_count", toString h.stats.referenced)] false
  record "TreeHub" [("config", hubSettings h.settings), ("stats", stats)] true

/-- The section of eviction. -/
def sweepSettings (s : SweepSettings) : String :=
  record "CleanerConfig"
    [("enabled", flag s.enabled), ("sweep_interval_in_ms", toString s.intervalMillis),
      ("retention_in_secs", toString s.retentionSeconds),
      ("stale_horizon_in_secs", toString s.staleHorizonSeconds),
      ("min_holders", toString s.minHolders)] false

/-- The eviction of idle holders. -/
def cleaner (s : SweepSettings) (h : Hub) : String :=
  record "TreeHolderCleaner"
    [("config", sweepSettings s), ("tracked", toString h.interest.size)] false

def sessionSettings (s : SessionSettings) : String :=
  record "WatcherConfig"
    [("max_life_span_in_secs", toString s.maxLifeSpanSeconds),
      ("life_span_jitter_in_secs", toString s.lifeSpanJitterSeconds),
      ("channel_capacity", toString s.channelCapacity)] false

/-- What sessions share. -/
def context (h : Hub) (s : SessionSettings) (d : DependencySettings) : String :=
  record "WatchContext"
    [("hub", hub h), ("config", sessionSettings s), ("dependency", flag d.enabled)] false

/-- The service of long polls. -/
def service (keepaliveMillis : Nat) : String :=
  record "LongPollService" [("keepalive", spanText keepaliveMillis)] true

/-- The recorder of consumers. -/
def recorder (d : DependencySettings) : String :=
  record "StoreDependencyRecorder" [("max_retries", toString (max d.maxRetries 1))] false

def kind : TreeKind → String
  | .service => "Service"
  | .switch => "Switch"
  | .config => "Config"

def treeKey (key : TreeKey) : String :=
  record "HolderKey" [("application", quoted key.application), ("tree_type", kind key.kind)] false

def lease (l : Lease) : String :=
  record "HolderLease" [("key", treeKey l.key), ("released", flag l.released)] false

def phase : HolderPhase → String
  | .new => "New"
  | .starting => "Starting"
  | .initialized => "Initialized"
  | .suspended => "Suspended"
  | .closed => "Closed"

def holder (h : Holder) : String :=
  record "TreeHolder" [("key", treeKey h.key), ("state", phase h.phase)] false

def stream : String := record "WatchStream" [] true

def settings (s : Settings) : String :=
  let server := record "ServerConfig"
    [("listen_address", quoted s.server.listenAddress),
      ("keepalive_interval_in_secs", toString s.server.keepaliveSeconds)] false
  record "ArborConfig"
    [("server", server), ("hub", hubSettings s.hub), ("cleaner", sweepSettings s.cleaner)] true

end Treecast.LogText
