import Treecast.Sorted
import Treecast.Routing.Metadata

/-!
# Routing settings

What an operator sets about routes and about hijacking, with the defaults.
-/

set_option autoImplicit false

namespace Treecast.Routing

/-- Settings of the resolution of cluster names. -/
structure RouteSettings where
  /-- The names that stand for an intent and not for a cluster. -/
  intents : List String
  /-- The known ezones. -/
  ezones : List String
  /-- The last default route of an intent. -/
  defaultPolicy : SortedMap String String
  /-- How many links are followed one after another. -/
  maxResolveDepth : Nat
  deriving DecidableEq

/-- The settings of routes where an operator sets none. -/
def RouteSettings.standard : RouteSettings :=
  ⟨[directIntent], [], SortedMap.ofList [(directIntent, "channel-stable-1")], 4⟩

instance : Inhabited RouteSettings := ⟨RouteSettings.standard⟩

/-- How far a caller's traffic is hijacked. -/
inductive HijackMode where
  | disabled
  | checking
  | enabled
  | standalone
  deriving DecidableEq, Repr

namespace HijackMode

def every : List HijackMode := [.disabled, .checking, .enabled, .standalone]

def name : HijackMode → String
  | .disabled => "disabled"
  | .checking => "checking"
  | .enabled => "enabled"
  | .standalone => "standalone"

/-- The letter of a mode. -/
def code : HijackMode → String
  | .disabled => "D"
  | .checking => "C"
  | .enabled => "E"
  | .standalone => "S"

/-- The mode of that letter or name. -/
def ofText? (text : String) : Option HijackMode :=
  every.find? fun m => m.code = text || m.name = text

/-- Whether messages are changed for the client. -/
def projects : HijackMode → Bool
  | .enabled | .standalone => true
  | _ => false

end HijackMode

/-- Settings of hijacking and forced routes. -/
structure HijackSettings where
  /-- The intent that hijacked clusters are routed through. -/
  intent : String
  /-- Modes by application, or by application and cluster. -/
  modes : SortedMap String HijackMode
  /-- Modes by the caller's ezone. -/
  ezoneDefaults : SortedMap String HijackMode
  /-- The callers that standalone mode leaves alone, by destination. -/
  standaloneExclusions : SortedMap String (List String)
  /-- Whether forced routes are applied. -/
  forceEnabled : Bool
  /-- Forced targets by cluster name, or by the start of a name and `*`. -/
  forceClusters : SortedMap String String
  /-- The callers that forced routes leave alone, by destination. -/
  forceExclusions : SortedMap String (List String)
  deriving DecidableEq

/-- The settings of hijacking where an operator sets none. -/
def HijackSettings.standard : HijackSettings :=
  ⟨directIntent, SortedMap.empty, SortedMap.empty, SortedMap.empty, false, SortedMap.empty,
    SortedMap.empty⟩

instance : Inhabited HijackSettings := ⟨HijackSettings.standard⟩

end Treecast.Routing
