import Treecast.Settings.Basic
import Treecast.Net.SocketAddress

/-!
# Which settings are accepted

Each section has its own check; the settings as a whole are checked section by section, and the
first fault is reported.
-/

set_option autoImplicit false

namespace Treecast

open Routing

/-- Why settings are refused. -/
inductive SettingsFault where
  | listenAddress (text : String)
  | zeroKeepalive
  | zeroStartupConcurrency
  | zeroInitTimeout
  | zeroChangeLog
  | zeroSweepInterval
  | horizonWithinRetention (horizon retention : Nat)
  | zeroLifeSpan
  | zeroChannel
  | emptyIntent
  | badEzone
  | zeroDepth
  | emptyHijackIntent
  | badPattern (pattern : String)
  | badTarget (pattern : String)
  | zeroRetries
  | zeroPortNumber
  | privilegedPortNumber (number : Nat)
  deriving DecidableEq, Repr

namespace SettingsFault

/-- Whether the fault is reported as one of the settings' values and not of their form. -/
def concernsValue : SettingsFault → Bool
  | .listenAddress _ | .zeroKeepalive | .zeroPortNumber | .privilegedPortNumber _ => true
  | _ => false

def reason : SettingsFault → String
  | .listenAddress text => "listen_address " ++ text ++ ": invalid socket address syntax"
  | .zeroKeepalive => "keepalive_interval_in_secs cannot be 0"
  | .zeroStartupConcurrency => "startup_concurrency must be greater than 0"
  | .zeroInitTimeout => "init_timeout_in_ms must be at least 1ms"
  | .zeroChangeLog => "change_log_capacity must be > 0"
  | .zeroSweepInterval => "sweep_interval_in_ms cannot be 0"
  | .horizonWithinRetention horizon retention =>
    "stale_horizon_in_secs " ++ toString horizon ++
      " should be greater than retention_in_secs " ++ toString retention
  | .zeroLifeSpan => "max_life_span_in_secs must be greater than 0"
  | .zeroChannel => "channel_capacity must be > 0"
  | .emptyIntent => "intents cannot contain empty names"
  | .badEzone =>
    "ezones must be non-empty, must not contain '-' and must not be '" ++ overallEzone ++ "'"
  | .zeroDepth => "max_resolve_depth must be greater than 0"
  | .emptyHijackIntent => "hijack intent cannot be empty"
  | .badPattern pattern =>
    "force routing pattern '" ++ pattern ++
      "' must be an exact name or a single trailing '*' prefix"
  | .badTarget pattern =>
    "force routing target for '" ++ pattern ++ "' must be a physical cluster name"
  | .zeroRetries => "dependency max_retries must be > 0 when enabled"
  | .zeroPortNumber => "prometheus_port cannot be 0 when enabled"
  | .privilegedPortNumber number =>
    "prometheus_port " ++ toString number ++ " is a privileged port (requires root)"

def message (f : SettingsFault) : String :=
  if f.concernsValue then "Invalid config: " ++ f.reason else f.reason

end SettingsFault

/-- Refuses with `fault` where the condition holds. -/
def refuseIf (condition : Bool) (fault : SettingsFault) : Except SettingsFault Unit :=
  if condition then .error fault else .ok ()

/-- The address to listen on. -/
def ServerSettings.socketAddress (s : ServerSettings) :
    Except SettingsFault Net.SocketAddress :=
  match Net.SocketAddress.ofText? s.listenAddress with
  | some address => .ok address
  | none => .error (.listenAddress s.listenAddress)

/-- Checks the listening side. -/
def ServerSettings.check (s : ServerSettings) : Except SettingsFault Unit := do
  let _ ← s.socketAddress
  refuseIf (s.keepaliveSeconds == 0) .zeroKeepalive

/-- Checks the registry's section. -/
def HubSettings.check (s : HubSettings) : Except SettingsFault Unit := do
  refuseIf (s.startupConcurrency == 0) .zeroStartupConcurrency
  refuseIf (s.initTimeoutMillis == 0) .zeroInitTimeout
  refuseIf (s.changeLogCapacity == 0) .zeroChangeLog

/-- Checks the section of eviction. -/
def SweepSettings.check (s : SweepSettings) : Except SettingsFault Unit := do
  refuseIf (s.intervalMillis == 0) .zeroSweepInterval
  refuseIf (s.staleHorizonSeconds ≤ s.retentionSeconds)
    (.horizonWithinRetention s.staleHorizonSeconds s.retentionSeconds)

/-- Checks the section of sessions. -/
def SessionSettings.check (s : SessionSettings) : Except SettingsFault Unit := do
  refuseIf (s.maxLifeSpanSeconds == 0) .zeroLifeSpan
  refuseIf (s.channelCapacity == 0) .zeroChannel

/-- Checks the section of routes. -/
def Routing.RouteSettings.check (s : RouteSettings) : Except SettingsFault Unit := do
  refuseIf (s.intents.any (· == "")) .emptyIntent
  refuseIf (s.ezones.any fun e => e == "" || e.toList.contains '-' || e == overallEzone) .badEzone
  refuseIf (s.maxResolveDepth == 0) .zeroDepth

/-- A pattern without the stars at its end. -/
def patternStem (pattern : String) : List Char :=
  (pattern.toList.reverse.dropWhile (· = '*')).reverse

def checkForced (pattern target : String) : Except SettingsFault Unit := do
  let stem := patternStem pattern
  refuseIf (stem.isEmpty || stem.contains '*') (.badPattern pattern)
  refuseIf (target == "" || target.toList.contains '*') (.badTarget pattern)

/-- Checks the section of hijacking. -/
def Routing.HijackSettings.check (s : HijackSettings) : Except SettingsFault Unit := do
  refuseIf (s.intent == "") .emptyHijackIntent
  s.forceClusters.toList.forM fun e => checkForced e.1 e.2

/-- Checks the section of declarations. -/
def DependencySettings.check (s : DependencySettings) : Except SettingsFault Unit :=
  refuseIf (s.enabled && s.maxRetries == 0) .zeroRetries

/-- Checks the section of exposition. -/
def MonitoringSettings.check (s : MonitoringSettings) : Except SettingsFault Unit := do
  refuseIf (s.enabled && s.portNumber == 0) .zeroPortNumber
  refuseIf (s.enabled && s.portNumber < 1024) (.privilegedPortNumber s.portNumber)

namespace Settings

/-- Checks all sections in their order. -/
def check (s : Settings) : Except SettingsFault Unit := do
  s.server.check
  s.hub.check
  s.cleaner.check
  s.watcher.check
  s.route.check
  s.hijack.check
  s.dependency.check
  s.monitoring.check

end Settings

end Treecast
