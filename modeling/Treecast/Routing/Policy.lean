import Treecast.Routing.Ezone
import Treecast.Routing.Force

/-!
# The routing policy

The questions that sessions ask about the settings in force.
-/

set_option autoImplicit false

namespace Treecast.Routing

/-- The settings in force. -/
structure Policy where
  route : RouteSettings
  hijack : HijackSettings
  deriving DecidableEq

namespace Policy

/-- The policy where an operator sets nothing. -/
def standard : Policy := ⟨RouteSettings.standard, HijackSettings.standard⟩

instance : Inhabited Policy := ⟨standard⟩

/-- Whether a name stands for an intent. -/
def isIntent (p : Policy) (cluster : String) : Bool := p.route.intents.contains cluster

/-- The outermost ezone of a cluster name, and the name without known prefixes. -/
def splitEzone (p : Policy) (cluster : String) : Option String × String :=
  Ezone.split p.route.ezones cluster

/-- The last default route of an intent, in the caller's ezone. -/
def defaultRoute? (p : Policy) (intent : String) (ezone : Option String) : Option String :=
  (p.route.defaultPolicy.find? intent).map fun cluster =>
    match ezone with
    | some ezone => Ezone.prefixed ezone cluster
    | none => cluster

/-- The hijack mode set for a caller: for its cluster, else for its application, else for its
ezone. -/
def hijackMode (p : Policy) (application : String) (cluster : Option String) : HijackMode :=
  let byCluster := cluster.bind fun c => p.hijack.modes.find? (scopedKey application c)
  let byApplication := p.hijack.modes.find? application
  let byEzone := (cluster.bind fun c => (p.splitEzone c).1).bind p.hijack.ezoneDefaults.find?
  ((byCluster.or byApplication).or byEzone).getD .disabled

/-- Whether standalone mode leaves a caller of the destination alone. -/
def standaloneExcludes (p : Policy) (destination caller : String) : Bool :=
  match p.hijack.standaloneExclusions.find? destination with
  | some callers => callers.contains caller
  | none => false

/-- The table of forced routes, while they are applied. -/
def forceTable? (p : Policy) : Option ForceTable :=
  if p.hijack.forceEnabled then some (ForceTable.ofSettings p.hijack) else none

end Policy

end Treecast.Routing
