import Treecast.Session.Subscription
import Treecast.Holder
import Treecast.Meters

/-!
# Sessions

A session follows the change logs of the trees that it reads and turns every change into messages
for its client.  It starts from a full section for every feed.  A change of a key becomes an
`update` or a `delete`; a change of metadata resolves the feeds that it concerns again, and those
whose names are now served by other clusters are sent in full as an `all`.  After a gap in a log
every feed that depends on that tree is sent in full.

A replica may be ahead of the log entry that is handled.  Each feed remembers the revision that
its last full section showed, and entries up to it are passed over.
-/

set_option autoImplicit false

namespace Treecast

open Routing

/-- The replicas that a session reads. -/
abbrev Replicas := TreeKey → Replica

/-- A running session. -/
structure Session where
  mode : RouteMode
  caller : Option Caller
  /-- The caller's own tree, if names are read with regard to the caller. -/
  callerTree : Option TreeKey
  callerRoute : Option CallerRoute
  /-- The revision of the caller's own tree that the route shows. -/
  callerSeen : Nat
  subscriptions : List Subscription
  deriving DecidableEq

namespace Session

/-- How the session reads names under a policy. -/
def viewpoint (s : Session) (policy : Policy) : Viewpoint := ⟨s.mode, policy, s.callerRoute⟩

def subscriptionsOf (request : Request) : List Subscription :=
  request.toList.map fun e => Subscription.create e.1 e.2

/-- The tree that says where the caller goes, if the request depends on it. -/
def callerTreeOf (request : Request) (mode : RouteMode) (caller : Option Caller) :
    Option TreeKey :=
  if (subscriptionsOf request).any (·.needsCaller mode) then
    caller.map fun c => ⟨c.application, .service⟩
  else none

/-- The trees that a session reads, in order. -/
def treesOf (request : Request) (mode : RouteMode) (caller : Option Caller) : List TreeKey :=
  let trees := SortedSet.ofElements ((subscriptionsOf request).map Subscription.tree)
  match callerTreeOf request mode caller with
  | some tree => (trees.add tree).elements
  | none => trees.elements

/-- Reads the caller's route from its own tree. -/
def readCaller (s : Session) (replicas : Replicas) (policy : Policy) : Session :=
  match s.callerTree, s.caller with
  | some tree, some caller =>
    { s with
      callerRoute := some (CallerRoute.ofReplica (replicas tree) policy caller)
      callerSeen := (replicas tree).revision }
  | _, _ => s

def sendInFull (replicas : Replicas) (v : Viewpoint) (sub : Subscription) (body : Sections) :
    Subscription × Sections :=
  let replica := replicas sub.tree
  let sub := sub.refresh replica v
  (sub.sawAll replica, sub.dump replica body)

/-- Handles the subscriptions one after another while a body is put together. -/
def visit (f : Subscription → Sections → Subscription × Sections) :
    List Subscription → Sections → List Subscription × Sections
  | [], body => ([], body)
  | sub :: rest, body =>
    let (sub, body) := f sub body
    let (rest, body) := visit f rest body
    (sub :: rest, body)

/-- A session at its start, and the body of its first `all`. -/
def start (request : Request) (mode : RouteMode) (caller : Option Caller) (policy : Policy)
    (replicas : Replicas) : Session × Sections :=
  let s : Session :=
    ⟨mode, caller, callerTreeOf request mode caller, none, 0, subscriptionsOf request⟩
  let s := s.readCaller replicas policy
  let (subscriptions, body) :=
    visit (sendInFull replicas (s.viewpoint policy)) s.subscriptions Sections.empty
  ({ s with subscriptions }, body)

/-- The message of that kind, unless its body is empty. -/
def messageUnlessEmpty (kind : MessageKind) (body : Sections) : List Message :=
  if body.isEmpty then [] else [body.message kind]

/-- Whether a subscription is told of a change of a key of `tree`. -/
def hears (sub : Subscription) (tree : TreeKey) (revision : Nat) : Bool :=
  sub.tree = tree && sub.feed.kind != .serviceInfo && revision > sub.seen

/-- The keys of one subscription that a change concerns, with their feed. -/
def newsFor (replicas : Replicas) (tree : TreeKey) (change : Change) (cluster key : String)
    (sub : Subscription) : List (FeedKey × String × Option String) :=
  if hears sub tree change.revision then
    (sub.keyNews (replicas tree) cluster key change.value).map fun n => (sub.feed, n.1, n.2)
  else []

/-- Adds to a body the news that are, or are not, about a key that is gone. -/
def putNews (key : String) (gone : Bool) (news : List (FeedKey × String × Option String)) :
    Sections :=
  news.foldl (fun body n =>
    if n.2.2.isNone = gone then body.putKey n.1 n.2.1 key n.2.2 else body) Sections.empty

/-- Handles a change of a key: an `update` with the names under which it has a value, and a
`delete` with those under which it is gone. -/
def onKeyChange (s : Session) (replicas : Replicas) (tree : TreeKey) (change : Change)
    (cluster key : String) : List Message :=
  let news := s.subscriptions.flatMap (newsFor replicas tree change cluster key)
  messageUnlessEmpty .update (putNews key false news) ++
    messageUnlessEmpty .delete (putNews key true news)

/-- Whether a change of metadata concerns what is known of the caller. -/
def concernsCaller (s : Session) (tree : TreeKey) (change : Change) : Bool :=
  s.callerTree = some tree && change.revision > s.callerSeen &&
    match change.level with
    | .application => true
    | .cluster cluster =>
      match s.caller with
      | some caller => cluster = caller.cluster
      | none => false
    | .key _ _ => false

/-- Whether a change of metadata touches descriptive fields that a subscription shows. -/
def touchesInfo (sub : Subscription) (change : Change) : Bool :=
  sub.feed.kind = .serviceInfo &&
    match change.level with
    | .cluster cluster => sub.uses cluster
    | _ => false

/-- Handles a change of metadata for one subscription. -/
def reconsider (replicas : Replicas) (v : Viewpoint) (tree : TreeKey) (change : Change)
    (callerMoved : Bool) (sub : Subscription) (body : Sections) : Subscription × Sections :=
  let bound := sub.tree = tree && change.revision > sub.seen
  if !bound && !(callerMoved && sub.needsCaller v.mode) then (sub, body)
  else
    let replica := replicas sub.tree
    let fresh := sub.refresh replica v
    if fresh.resolved ≠ sub.resolved || (bound && touchesInfo sub change) then
      (fresh.sawAll replica, fresh.dump replica body)
    else if bound then ({ sub with seen := max sub.seen change.revision }, body)
    else (sub, body)

/-- Handles a change of metadata. -/
def onMetadataChange (s : Session) (replicas : Replicas) (policy : Policy) (tree : TreeKey)
    (change : Change) : Session × List Message :=
  let callerMoved := s.concernsCaller tree change
  let s := if callerMoved then s.readCaller replicas policy else s
  let (subscriptions, body) :=
    visit (reconsider replicas (s.viewpoint policy) tree change callerMoved) s.subscriptions
      Sections.empty
  ({ s with subscriptions }, messageUnlessEmpty .all body)

/-- Sends every feed in full that depends on a tree whose log had a gap. -/
def resync (s : Session) (replicas : Replicas) (policy : Policy) (tree : TreeKey) :
    Session × List Message :=
  let ofCaller := s.callerTree = some tree
  let s := if ofCaller then s.readCaller replicas policy else s
  let v := s.viewpoint policy
  let (subscriptions, body) :=
    visit (fun sub body =>
      if sub.tree = tree || (ofCaller && sub.needsCaller s.mode) then
        sendInFull replicas v sub body
      else (sub, body)) s.subscriptions Sections.empty
  ({ s with subscriptions }, messageUnlessEmpty .all body)

/-- What a session does with what it reads from a log. -/
structure Reaction where
  session : Session
  messages : List Message
  /-- The cause that is counted, if feeds were sent in full. -/
  resynced : Option ResyncCause
  /-- Whether the session ends because a holder closed. -/
  ends : Bool

/-- Handles what is read from the log of `tree`. -/
def react (s : Session) (replicas : Replicas) (policy : Policy) (tree : TreeKey) :
    Holder.Unread → Reaction
  | .lagged _ =>
    let (s, messages) := s.resync replicas policy tree
    ⟨s, messages, some .lagged, false⟩
  | .entry (.connection _) => ⟨s, [], none, false⟩
  | .entry .closed => ⟨s, [], none, true⟩
  | .entry (.changed change) =>
    match change.level with
    | .key cluster key => ⟨s, s.onKeyChange replicas tree change cluster key, none, false⟩
    | _ =>
      let (s, messages) := s.onMetadataChange replicas policy tree change
      ⟨s, messages, if messages.isEmpty then none else some .structural, false⟩

/-- The service clusters of other applications that the session reads, as pairs of application
and cluster. -/
def suppliers (s : Session) (caller : Caller) : List (String × String) :=
  let applications := s.subscriptions.foldl
    (fun (known : SortedMap String (SortedSet String)) sub =>
      if sub.feed.kind ≠ .service ∨ sub.feed.application = caller.application then known
      else
        sub.resolved.values.flatten.foldl (fun known cluster =>
          known.insert sub.feed.application
            (((known.find? sub.feed.application).getD SortedMap.empty).add cluster)) known)
    SortedMap.empty
  applications.toList.flatMap fun a => a.2.elements.map fun cluster => (a.1, cluster)

end Session

end Treecast
