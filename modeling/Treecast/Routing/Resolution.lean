import Treecast.Routing.Policy
import Treecast.Replica

/-!
# Resolution of cluster names

A requested name is either an intent, which routes lead to a cluster, or a cluster name.  The
links of a cluster are then followed down to the clusters that serve it.  Resolution is a
function of one replica and the policy.
-/

set_option autoImplicit false

namespace Treecast.Routing

/-- How a session wants cluster names to be read. -/
inductive RouteMode where
  /-- Names are cluster names. -/
  | orig
  /-- A name without ezone is first tried in the caller's ezone. -/
  | prefixed
  /-- Names that stand for an intent are routed. -/
  | route
  deriving DecidableEq, Repr

namespace RouteMode

/-- The name of a mode. -/
def name : RouteMode → String
  | .orig => "orig"
  | .prefixed => "prefix"
  | .route => "route"

/-- The mode of a text, blanks around it and the case of ASCII letters aside; the empty text is
the first mode. -/
def ofText (text : String) : Except RequestFault RouteMode :=
  let plain := Text.asciiLower (Text.trim text)
  if plain = "" then .ok .orig
  else
    match [RouteMode.orig, .prefixed, .route].find? (·.name = plain) with
    | some mode => .ok mode
    | none => .error (.unknownMode plain)

end RouteMode

/-- Who is asking. -/
structure Caller where
  application : String
  cluster : String
  deriving DecidableEq, Repr

/-- The caller, with what its own cluster's metadata says about routes. -/
structure CallerRoute where
  application : String
  cluster : String
  /-- The known ezone prefixes of the caller's cluster, outermost first. -/
  ezones : List String
  metadata : ClusterMetadata
  deriving DecidableEq

namespace CallerRoute

/-- A caller without metadata. -/
def bare (policy : Policy) (caller : Caller) : CallerRoute :=
  ⟨caller.application, caller.cluster, Ezone.chain policy.route.ezones caller.cluster,
    ClusterMetadata.empty⟩

/-- A caller with the metadata that its own service tree has for its cluster. -/
def ofReplica (replica : Replica) (policy : Policy) (caller : Caller) : CallerRoute :=
  match replica.cluster? caller.cluster with
  | some c => { bare policy caller with metadata := ClusterMetadata.decode c.value }
  | none => bare policy caller

/-- The caller's outermost ezone. -/
def ezone? (c : CallerRoute) : Option String := c.ezones.head?

end CallerRoute

/-- How names are to be resolved. -/
structure ResolveOptions where
  caller : Option CallerRoute
  /-- Whether names that stand for an intent are routed. -/
  intentRouting : Bool
  /-- Whether a name without ezone is first tried in the caller's ezone. -/
  ezonePrefix : Bool

/-- The destination of resolution: an application with its service tree. -/
structure Destination where
  application : String
  replica : Replica
  policy : Policy

namespace Destination

/-- The links of a cluster. -/
def links (d : Destination) (cluster : String) : List String :=
  match d.replica.cluster? cluster with
  | some c => (ClusterMetadata.decode c.value).link
  | none => []

/-- Appends the names that are not there yet. -/
def appendNew (known names : List String) : List String :=
  names.foldl (fun known name => if known.contains name then known else known ++ [name]) known

/-- Follows links from `cluster`, reached over `trail`, depth first, while `hops` is not used
up; none for a cycle or too long a chain. -/
def follow (d : Destination) : (hops : Nat) → (trail : List String) → String →
    Option (List String)
  | 0, _, _ => none
  | hops + 1, trail, cluster =>
    if trail.contains cluster then none
    else
      match d.links cluster with
      | [] => some [cluster]
      | links =>
        links.foldlM (fun found link =>
          (d.follow hops (cluster :: trail) link).map (appendNew found)) []

/-- The clusters that serve a cluster: itself if it has no links, else those that its links lead
to, each once; none if links run in a cycle or more than the permitted number of them lie on
the way. -/
def physical? (d : Destination) (cluster : String) : Option (List String) :=
  d.follow (d.policy.route.maxResolveDepth + 1) [] cluster

/-- The cluster that an intent leads this caller to: by the caller's own routes, by the
destination's default routes for each of the caller's ezones and then for every caller, or by
the policy's default. -/
def intentTarget? (d : Destination) (intent : String) (caller : CallerRoute) : Option String :=
  let defaults := ApplicationMetadata.decode d.replica.applicationValue
  (caller.metadata.routeTo? d.application intent).or <|
    (caller.ezones.findSome? (defaults.routeIn? · intent)).or <|
      (defaults.routeFor? none intent).or (d.policy.defaultRoute? intent caller.ezone?)

/-- The same name in the caller's ezone, if the name has none and that cluster is there. -/
def inCallerEzone? (d : Destination) (cluster : String) (caller : Option CallerRoute) :
    Option String := do
  let ezone ← caller.bind CallerRoute.ezone?
  let candidate := Ezone.prefixed ezone cluster
  if (d.policy.splitEzone cluster).1.isNone && d.replica.hasCluster candidate then some candidate
  else none

/-- The clusters that serve a requested name; none if there is no mapping. -/
def resolve? (d : Destination) (cluster : String) (options : ResolveOptions) :
    Option (List String) :=
  if options.intentRouting && d.policy.isIntent cluster then do
    let caller ← options.caller
    let target ← d.intentTarget? cluster caller
    d.physical? target
  else if options.ezonePrefix then
    match d.inCallerEzone? cluster options.caller with
    | some candidate => d.physical? candidate
    | none => d.physical? cluster
  else d.physical? cluster

end Destination

end Treecast.Routing
