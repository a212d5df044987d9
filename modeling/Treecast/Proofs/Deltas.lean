import Treecast.Proofs.Interleaving

/-!
# Exactly once and in order

Between two dumps of a subscription its client is told of the changes of keys one by one.  Under a
name that a single cluster serves these are the cluster's changes that the session handles, those
above the revision of the first dump, each once, in the order of the log and with its own value.
A change of metadata that does not move the mapping raises the revision that the subscription has
seen, but only to its own: what comes later in the log is above it, however far ahead the replica
is.

## Results

* `Session.told_react`: what a session tells when it reads and does not dump.
* `deltas_span`: what it tells as long as it does not dump.
* `World.deltas_between_dumps`: exactly once and in order, in every run.
-/

set_option autoImplicit false

namespace Treecast

open Routing
open Json (Value)

/-! ## What messages tell of keys -/

/-- A key with what a message says of it. -/
structure Delta where
  kind : MessageKind
  key : String
  value : Value
  deriving DecidableEq

/-- What a message tells of keys under a name of a section. -/
def Message.deltas (feed : FeedKey) (name : String) (m : Message) : List Delta :=
  match ((m.clusters? feed).bind (Entries.find? name)).bind Value.members? with
  | some entries => entries.map fun e => ⟨m.kind, e.1, e.2⟩
  | none => []

/-- Whether messages send a section in full. -/
def dumps (messages : List Message) (feed : FeedKey) : Bool :=
  messages.any fun m => m.kind = .all && (m.clusters? feed).isSome

/-- What a change of a key of a cluster is told as: an `update` with its value, or a `delete` with
null. -/
def Change.delta? (cluster : String) (change : Change) : Option Delta :=
  match change.level with
  | .key c key =>
    if c = cluster then
      some ⟨if change.value.isNone then .delete else .update, key,
        Sections.keyEntry change.value⟩
    else none
  | _ => none

namespace Session

theorem deltas_messageUnlessEmpty (kind : MessageKind) (body : Sections) (feed : FeedKey)
    (name : String) : (messageUnlessEmpty kind body).flatMap (Message.deltas feed name) =
      match (body.payload? feed name).bind Value.members? with
      | some entries => entries.map fun e => ⟨kind, e.1, e.2⟩
      | none => [] := by
  rw [messageUnlessEmpty, Sections.payload?_eq_bind]
  split
  · rename_i hempty
    have hview := Sections.view_of_isEmpty hempty feed
    rw [Sections.view, Option.map_eq_none_iff] at hview
    rw [hview]
    rfl
  · rw [List.flatMap_cons, List.flatMap_nil, List.append_nil, Message.deltas,
      Sections.clusters?_message]
    rfl

theorem dumps_append (messages more : List Message) (feed : FeedKey) :
    dumps (messages ++ more) feed = (dumps messages feed || dumps more feed) :=
  List.any_append

theorem dumps_all (body : Sections) (feed : FeedKey) :
    dumps (messageUnlessEmpty .all body) feed = (body.sections.find? feed).isSome := by
  rw [messageUnlessEmpty]
  split
  · rename_i hempty
    have hview := Sections.view_of_isEmpty hempty feed
    rw [Sections.view, Option.map_eq_none_iff] at hview
    rw [hview]
    rfl
  · simp only [dumps, List.any_cons, List.any_nil, Sections.clusters?_message, Bool.or_false]
    rfl

theorem dumps_of_ne_all {kind : MessageKind} (hkind : kind ≠ .all) (body : Sections)
    (feed : FeedKey) : dumps (messageUnlessEmpty kind body) feed = false := by
  rw [messageUnlessEmpty]
  split
  · rfl
  · have : (body.message kind).kind = kind := rfl
    simp [dumps, this, hkind]

variable {s : Session} {replicas : Replicas} {policy : Policy} {tree : TreeKey} {change : Change}
  {feed : FeedKey} {name p : String} {sub : Subscription}

theorem dumps_onKeyChange (s : Session) (replicas : Replicas) (tree : TreeKey) (change : Change)
    (cluster key : String) (feed : FeedKey) :
    dumps (s.onKeyChange replicas tree change cluster key) feed = false := by
  rw [onKeyChange, dumps_append, dumps_of_ne_all (by decide), dumps_of_ne_all (by decide)]
  rfl

/-- A change of a key is told once under a name, or not at all. -/
theorem deltas_onKeyChange (s : Session) (replicas : Replicas) (tree : TreeKey) (change : Change)
    (cluster key : String) (hdistinct : (s.subscriptions.map Subscription.feed).Nodup)
    (feed : FeedKey) (name : String) :
    (s.onKeyChange replicas tree change cluster key).flatMap (Message.deltas feed name) =
      match s.told? replicas tree change cluster key feed name with
      | some value =>
        [⟨if value.isNone then .delete else .update, key, Sections.keyEntry value⟩]
      | none => [] := by
  rw [onKeyChange, List.flatMap_append, deltas_messageUnlessEmpty, deltas_messageUnlessEmpty,
    payload?_putNews s replicas tree change cluster key false hdistinct,
    payload?_putNews s replicas tree change cluster key true hdistinct]
  cases s.told? replicas tree change cluster key feed name with
  | none => rfl
  | some value => cases value <;> rfl

/-- Under a name that one cluster serves, a change of a key is told with its own value. -/
theorem told?_of_single (hsub : subscriptionOf? s.subscriptions feed = some sub)
    (hkind : feed.kind ≠ .serviceInfo) (hname : sub.resolved.find? name = some [p])
    (cluster key : String) :
    s.told? replicas tree change cluster key feed name =
      if (sub.tree = tree ∧ sub.seen < change.revision) ∧ cluster = p then some change.value
      else none := by
  have hfeed : sub.feed = feed := by simpa using List.find?_some hsub
  have hheard : hears sub tree change.revision = true ↔
      sub.tree = tree ∧ sub.seen < change.revision := by
    simp [hears_iff, hfeed, hkind]
  rw [told?, hsub, Option.bind_some, hname, Option.bind_some, tells?]
  by_cases hh : hears sub tree change.revision = true
  · rw [if_pos hh]
    by_cases hp : cluster = p
    · simp [hheard.1 hh, hp, Subscription.keyValue]
    · simp [hp]
  · rw [if_neg hh, if_neg fun h => hh (hheard.2 h.1)]

theorem dumps_redump (replicas : Replicas) {g : Subscription → Subscription × Bool}
    (hfeed : ∀ sub, (g sub).1.feed = sub.feed) {subs : List Subscription}
    (hdistinct : (subs.map Subscription.feed).Nodup) (feed : FeedKey) :
    dumps (messageUnlessEmpty .all (visit (redump replicas g) subs Sections.empty).2) feed =
      (subscriptionOf? subs feed).any fun sub => (g sub).2 := by
  rw [dumps_all, ← Option.isSome_map (f := payloadsOf)]
  show ((visit (redump replicas g) subs Sections.empty).2.view feed).isSome = _
  rw [visit_redump_view hfeed subs hdistinct Sections.empty fun _ _ => rfl]
  cases subscriptionOf? subs feed with
  | none => rfl
  | some sub =>
    dsimp only
    cases h : (g sub).2 <;> simp [h]

/-- An `all` that does not carry a section tells nothing of its keys. -/
theorem deltas_of_not_dumps {body : Sections}
    (h : dumps (messageUnlessEmpty .all body) feed = false) (name : String) :
    (messageUnlessEmpty .all body).flatMap (Message.deltas feed name) = [] := by
  rw [dumps_all, Option.isSome_eq_false_iff, Option.isNone_iff_eq_none] at h
  rw [deltas_messageUnlessEmpty, Sections.payload?_eq_bind, h]
  rfl

theorem reconsidered_cases (replicas : Replicas) (v : Viewpoint) (tree : TreeKey) (change : Change)
    (callerMoved : Bool) (sub : Subscription) :
    let r := reconsidered replicas v tree change callerMoved sub
    r.2 = true ∧ r.1.seen = (replicas sub.tree).revision ∨
      r.2 = false ∧ r.1.resolved = sub.resolved ∧
        r.1.seen = if sub.tree = tree ∧ sub.seen < change.revision then change.revision
          else sub.seen := by
  rcases reconsidered_inv replicas v tree change callerMoved sub with
    hfull | ⟨hbound, -, -, hseen⟩ | ⟨hbound, -, hsame⟩
  · rw [hfull]
    exact .inl ⟨rfl, rfl⟩
  · rw [hseen, if_pos hbound]
    exact .inr ⟨rfl, rfl, Nat.max_eq_right (Nat.le_of_lt hbound.2)⟩
  · rw [hsame, if_neg hbound]
    exact .inr ⟨rfl, rfl, rfl⟩

theorem resent_cases (s : Session) (replicas : Replicas) (policy : Policy) (tree : TreeKey)
    (ofCaller : Bool) (sub : Subscription) :
    let r := s.resent replicas policy tree ofCaller sub
    r.2 = true ∧ r.1.seen = (replicas sub.tree).revision ∨
      r.2 = false ∧ r.1 = sub ∧ sub.tree ≠ tree := by
  rcases s.resent_inv replicas policy tree ofCaller sub with hfull | ⟨htree, -, hsame⟩
  · rw [hfull]
    exact .inl ⟨rfl, rfl⟩
  · rw [hsame]
    exact .inr ⟨rfl, rfl, htree⟩

/-- A subscription that is sent in full has seen the replica as it is. -/
theorem fresh_redump {g : Subscription → Subscription × Bool}
    (horigin : ∀ sub, (g sub).1.origin = sub.origin)
    (hseen : ∀ sub, (g sub).2 = true → (g sub).1.seen = (replicas sub.tree).revision)
    {subs : List Subscription} (hdistinct : (subs.map Subscription.feed).Nodup) :
    let visited := visit (redump replicas g) subs Sections.empty
    ∀ sub ∈ visited.1, dumps (messageUnlessEmpty .all visited.2) sub.feed = true →
      sub.seen = (replicas sub.tree).revision := by
  intro visited sub hsub hdumps
  have hfeed : ∀ sub, (g sub).1.feed = sub.feed := fun sub =>
    Subscription.feed_of_origin (horigin sub)
  rw [dumps_redump replicas hfeed hdistinct] at hdumps
  rw [visit_redump_fst] at hsub
  obtain ⟨old, hold, rfl⟩ := List.mem_map.1 hsub
  rw [hfeed, subscriptionOf?_of_mem hdistinct hold, Option.any_some] at hdumps
  have htree : (g old).1.tree = old.tree := congrArg FeedKey.tree (hfeed old)
  rw [htree]
  exact hseen old hdumps

/-- **Whenever a session sends a section in full**, its subscription has seen the replica as it
is. -/
theorem fresh_react (s : Session) (replicas : Replicas) (policy : Policy) (tree : TreeKey)
    (read : Holder.Unread) (hdistinct : (s.subscriptions.map Subscription.feed).Nodup) :
    ∀ sub ∈ (s.react replicas policy tree read).session.subscriptions,
      dumps (s.react replicas policy tree read).messages sub.feed = true →
      sub.seen = (replicas sub.tree).revision := by
  have hnone : ∀ sub ∈ s.subscriptions, dumps [] sub.feed = true →
      sub.seen = (replicas sub.tree).revision := fun _ _ h => nomatch h
  unfold react
  split
  · rw [resync_eq]
    have hsubs := (s.readCaller_keeps_if replicas policy (p := s.callerTree = some tree) rfl).2.2.2
    refine fresh_redump (fun sub => origin_resent _ _ _ _ _ sub) (fun sub hsent => ?_)
      (by rwa [hsubs])
    exact ((resent_cases _ _ _ _ _ sub).resolve_right fun h => by simp [h.1] at hsent).2
  · exact hnone
  · exact hnone
  · split
    · intro sub _ hdumps
      rw [dumps_onKeyChange] at hdumps
      cases hdumps
    · rw [onMetadataChange_eq]
      rename_i change _ _
      have hsubs := (s.readCaller_keeps_if replicas policy
        (p := s.concernsCaller tree change = true) rfl).2.2.2
      refine fresh_redump (fun sub => origin_reconsidered _ _ _ _ _ sub) (fun sub hsent => ?_)
        (by rwa [hsubs])
      exact ((reconsidered_cases _ _ _ _ _ sub).resolve_right fun h => by simp [h.1] at hsent).2

end Session

namespace Subscription

/-- What a subscription has seen when something was read and it was not sent in full. -/
def seenAfter (sub : Subscription) (tree : TreeKey) : Holder.Unread → Nat
  | .entry (.changed change) =>
    if change.level.isStructural ∧ sub.tree = tree ∧ sub.seen < change.revision then
      change.revision
    else sub.seen
  | _ => sub.seen

/-- What is told of the keys of a cluster when something was read. -/
def toldOf (sub : Subscription) (p : String) (tree : TreeKey) : Holder.Unread → List Delta
  | .entry (.changed change) =>
    if sub.tree = tree ∧ sub.seen < change.revision then (change.delta? p).toList else []
  | _ => []

end Subscription

namespace Session

variable {s : Session} {replicas : Replicas} {policy : Policy} {tree : TreeKey} {change : Change}
  {feed : FeedKey} {name p : String} {sub : Subscription}

/-- A subscription of a session whose subscriptions are handled one after another, if it is not
sent in full. -/
theorem unsent_redump {g : Subscription → Subscription × Bool}
    (horigin : ∀ sub, (g sub).1.origin = sub.origin) {subs : List Subscription}
    (hdistinct : (subs.map Subscription.feed).Nodup) (hsub : subscriptionOf? subs feed = some sub) :
    let visited := visit (redump replicas g) subs Sections.empty
    dumps (messageUnlessEmpty .all visited.2) feed = false →
      (g sub).2 = false ∧ subscriptionOf? visited.1 feed = some (g sub).1 ∧
      ∀ name, (messageUnlessEmpty .all visited.2).flatMap (Message.deltas feed name) = [] := by
  intro visited hquiet
  have hfeed : ∀ sub, (g sub).1.feed = sub.feed := fun sub =>
    Subscription.feed_of_origin (horigin sub)
  have hdumps := dumps_redump replicas hfeed hdistinct feed
  rw [hsub, Option.any_some] at hdumps
  refine ⟨hdumps.symm.trans hquiet, ?_, deltas_of_not_dumps hquiet⟩
  rw [visit_redump_fst, subscriptionOf?_map hfeed, hsub, Option.map_some]

/-- What becomes of a subscription, of whose section nothing is sent in full, when something is
read: its mapping stays, and under a name that the cluster `p` serves the new changes of the
cluster's keys are told. -/
structure Told (sub : Subscription) (p name : String) (tree : TreeKey) (read : Holder.Unread)
    (s' : Session) (messages : List Message) (sub' : Subscription) : Prop where
  found : subscriptionOf? s'.subscriptions sub.feed = some sub'
  resolved : sub'.resolved = sub.resolved
  seen : sub'.seen = sub.seenAfter tree read
  deltas : messages.flatMap (Message.deltas sub.feed name) = sub.toldOf p tree read
  noGap : ∀ lost, read = .lagged lost → sub.tree ≠ tree

theorem told_resync (hdistinct : (s.subscriptions.map Subscription.feed).Nodup)
    (hsub : subscriptionOf? s.subscriptions sub.feed = some sub) (lost : Nat) :
    let r := s.resync replicas policy tree
    dumps r.2 sub.feed = false → Told sub p name tree (.lagged lost) r.1 r.2 sub := by
  rw [resync_eq]
  dsimp only
  generalize hx : (if s.callerTree = some tree then s.readCaller replicas policy else s) = x
  have hsubs := (s.readCaller_keeps_if replicas policy hx).2.2.2
  rw [hsubs]
  intro hquiet
  obtain ⟨hunsent, hfound, hdeltas⟩ := unsent_redump
    (fun sub => origin_resent x replicas policy tree _ sub) hdistinct hsub hquiet
  have hcases := resent_cases x replicas policy tree (decide (s.callerTree = some tree)) sub
  obtain ⟨-, hsame, hother⟩ := hcases.resolve_left fun h => by simp [h.1] at hunsent
  rw [hsame] at hfound
  exact ⟨hfound, rfl, rfl, hdeltas name, fun _ _ => hother⟩

theorem told_onMetadataChange (hdistinct : (s.subscriptions.map Subscription.feed).Nodup)
    (hsub : subscriptionOf? s.subscriptions sub.feed = some sub)
    (hstructural : change.level.isStructural = true) :
    let r := s.onMetadataChange replicas policy tree change
    dumps r.2 sub.feed = false →
      ∃ sub', Told sub p name tree (.entry (.changed change)) r.1 r.2 sub' := by
  rw [onMetadataChange_eq]
  dsimp only
  generalize hx : (if s.concernsCaller tree change = true then s.readCaller replicas policy
    else s) = x
  have hsubs := (s.readCaller_keeps_if replicas policy hx).2.2.2
  rw [hsubs]
  intro hquiet
  obtain ⟨hunsent, hfound, hdeltas⟩ := unsent_redump
    (fun sub => origin_reconsidered replicas _ tree change _ sub) hdistinct hsub hquiet
  have hcases := reconsidered_cases replicas (x.viewpoint policy) tree change
    (s.concernsCaller tree change) sub
  obtain ⟨-, hresolved, hseen⟩ := hcases.resolve_left fun h => by simp [h.1] at hunsent
  refine ⟨_, hfound, hresolved, ?_, ?_, fun _ h => nomatch h⟩
  · rw [hseen, Subscription.seenAfter]
    simp only [hstructural, true_and]
  · have hnone : change.delta? p = none := by
      cases hlevel : change.level with
      | key cluster key =>
        rw [hlevel] at hstructural
        cases hstructural
      | _ => simp only [Change.delta?, hlevel]
    rw [hdeltas name, Subscription.toldOf, hnone]
    split <;> rfl

theorem told_onKeyChange (hdistinct : (s.subscriptions.map Subscription.feed).Nodup)
    (hsub : subscriptionOf? s.subscriptions sub.feed = some sub)
    (hkind : sub.feed.kind ≠ .serviceInfo) (hname : sub.resolved.find? name = some [p])
    {cluster key : String} (hlevel : change.level = .key cluster key) :
    Told sub p name tree (.entry (.changed change)) s
      (s.onKeyChange replicas tree change cluster key) sub := by
  refine ⟨hsub, rfl, ?_, ?_, fun _ h => nomatch h⟩
  · rw [Subscription.seenAfter, if_neg fun h => ?_]
    rw [hlevel] at h
    exact nomatch h.1
  · rw [deltas_onKeyChange s replicas tree change cluster key hdistinct,
      told?_of_single hsub hkind hname, Subscription.toldOf, Change.delta?, hlevel]
    dsimp only
    by_cases hnew : sub.tree = tree ∧ sub.seen < change.revision
    · by_cases hp : cluster = p
      · rw [if_pos ⟨hnew, hp⟩, if_pos hnew, if_pos hp]
        rfl
      · rw [if_neg fun h => hp h.2, if_pos hnew, if_neg hp]
        rfl
    · rw [if_neg fun h => hnew h.1, if_neg hnew]

/-- **What a session tells when it reads** and does not send a section in full. -/
theorem told_react (hdistinct : (s.subscriptions.map Subscription.feed).Nodup)
    (hsub : subscriptionOf? s.subscriptions sub.feed = some sub)
    (hkind : sub.feed.kind ≠ .serviceInfo) (hname : sub.resolved.find? name = some [p])
    (read : Holder.Unread) :
    let r := s.react replicas policy tree read
    dumps r.messages sub.feed = false →
      ∃ sub', Told sub p name tree read r.session r.messages sub' := by
  cases read with
  | lagged lost => exact fun hquiet => ⟨sub, told_resync hdistinct hsub lost hquiet⟩
  | entry e =>
    cases e with
    | connection state => exact fun _ => ⟨sub, hsub, rfl, rfl, rfl, fun _ h => nomatch h⟩
    | closed => exact fun _ => ⟨sub, hsub, rfl, rfl, rfl, fun _ h => nomatch h⟩
    | changed change =>
      unfold react
      dsimp only
      split
      · exact fun _ => ⟨sub, told_onKeyChange hdistinct hsub hkind hname ‹_›⟩
      · rename_i hother
        refine told_onMetadataChange hdistinct hsub ?_
        cases hlevel : change.level with
        | key cluster key => exact absurd hlevel (hother cluster key)
        | _ => rfl

end Session

/-! ## Spans of a history -/

namespace Note

/-- Whether the section of a feed was sent in full. -/
def sends (n : Note) (feed : FeedKey) : Bool := dumps n.messages feed

/-- What was told of keys under a name. -/
def deltas (n : Note) (feed : FeedKey) (name : String) : List Delta :=
  n.messages.flatMap (Message.deltas feed name)

/-- The entry of the log of `tree` that was handled. -/
def entry? (tree : TreeKey) (n : Note) : Option LogEntry :=
  match n.read with
  | some (t, .entry e) => if t = tree then some e else none
  | _ => none

/-- Whether a gap in the log of `tree` was handled. -/
def LostOf (tree : TreeKey) (n : Note) : Prop := ∃ lost, n.read = some (tree, .lagged lost)

/-- What a session did when it read something. -/
def Follows (policy : Policy) (s : Session) (n : Note) : Prop :=
  ∃ tree read, n.read = some (tree, read) ∧
    n.session = (s.react n.replicas policy tree read).session ∧
    n.messages = (s.react n.replicas policy tree read).messages

end Note

/-- The entries of the log of `tree` that were handled, in order. -/
def entriesOf (tree : TreeKey) (notes : List Note) : List LogEntry :=
  notes.filterMap (Note.entry? tree)

/-- A session that reads on, note by note. -/
def Continues (policy : Policy) : Session → List Note → Session → Prop
  | s, [], s' => s = s'
  | s, n :: rest, s' => n.Follows policy s ∧ Continues policy n.session rest s'

variable {policy : Policy} {s s' : Session} {span : List Note} {sub : Subscription}
  {request : Request} {mode : RouteMode} {caller : Option Caller}

theorem Continues.snoc {n : Note} (h : Continues policy s span s') (hn : n.Follows policy s') :
    Continues policy s (span ++ [n]) n.session := by
  induction span generalizing s with
  | nil =>
    cases h
    exact ⟨hn, rfl⟩
  | cons m rest ih => exact ⟨h.1, ih h.2⟩

theorem Continues.left {later : List Note} (h : Continues policy s (span ++ later) s') :
    ∃ middle, Continues policy s span middle := by
  induction span generalizing s with
  | nil => exact ⟨s, rfl⟩
  | cons n rest ih =>
    obtain ⟨middle, hrest⟩ := ih h.2
    exact ⟨middle, h.1, hrest⟩

theorem Serves.distinct (h : Serves request mode caller s) :
    (s.subscriptions.map Subscription.feed).Nodup := by
  have : s.subscriptions.map Subscription.feed =
      (Session.subscriptionsOf request).map Subscription.feed := by
    rw [← h.served, List.map_map]
    rfl
  rw [this]
  exact nodup_subscriptionsOf request

theorem entriesOf_cons (tree : TreeKey) (n : Note) (rest : List Note) :
    entriesOf tree (n :: rest) = (n.entry? tree).toList ++ entriesOf tree rest := by
  rw [entriesOf, List.filterMap_cons]
  cases n.entry? tree <;> rfl

namespace Subscription

variable {n : Note} {tree : TreeKey} {read : Holder.Unread}

theorem toldOf_eq (sub : Subscription) (p : String) (hread : n.read = some (tree, read)) :
    sub.toldOf p tree read = ((changesOf (n.entry? sub.tree).toList).filter
      fun change => sub.seen < change.revision).filterMap (Change.delta? p) := by
  rw [Note.entry?, hread]
  cases read with
  | lagged lost => rfl
  | entry e =>
    dsimp only
    by_cases htree : tree = sub.tree
    · rw [if_pos htree]
      cases e with
      | changed change =>
        rw [toldOf]
        by_cases hnew : sub.seen < change.revision
        · rw [if_pos ⟨htree.symm, hnew⟩]
          cases hdelta : change.delta? p <;>
            simp [changesOf, LogEntry.change?, hnew, hdelta]
        · rw [if_neg fun h => hnew h.2]
          simp [changesOf, LogEntry.change?, hnew]
      | _ => rfl
    · rw [if_neg htree]
      cases e with
      | changed change =>
        rw [toldOf, if_neg fun h => htree h.1.symm]
        rfl
      | _ => rfl

/-- Of what follows in the log nothing is covered by a change that was passed over. -/
theorem filter_seenAfter (sub : Subscription) (hread : n.read = some (tree, read))
    {rest : List Change} (hincreasing : (changesOf (n.entry? sub.tree).toList ++ rest).Pairwise
      fun a b => a.revision < b.revision) :
    rest.filter (fun change => sub.seenAfter tree read < change.revision) =
      rest.filter fun change => sub.seen < change.revision := by
  unfold seenAfter
  split
  · rename_i change
    split
    · rename_i hnew
      obtain ⟨-, htree, hnew⟩ := hnew
      rw [Note.entry?, hread] at hincreasing
      dsimp only at hincreasing
      rw [if_pos htree.symm] at hincreasing
      refine List.filter_congr fun c hc => ?_
      have hlater : change.revision < c.revision :=
        (List.pairwise_append.1 hincreasing).2.2 change List.mem_cons_self c hc
      rw [decide_eq_true hlater, decide_eq_true (Nat.lt_trans hnew hlater)]
    · rfl
  · rfl

end Subscription

/-- **What a session tells as long as it does not send the section in full**: under a name that
one cluster serves, the changes of the cluster's keys that it handles, as far as the subscription
had not seen them.  The induction is on the span; a change of metadata raises what is seen to its
own revision, and all later changes are above it. -/
theorem deltas_span {name p : String} (hcontinues : Continues policy s span s')
    (hserves : Serves request mode caller s) (hsub : sub ∈ s.subscriptions)
    (hkind : sub.feed.kind ≠ .serviceInfo) (hname : sub.resolved.find? name = some [p])
    (hquiet : ∀ n ∈ span, n.sends sub.feed = false)
    (hincreasing : (changesOf (entriesOf sub.tree span)).Pairwise
      fun a b => a.revision < b.revision) :
    span.flatMap (Note.deltas · sub.feed name) =
      ((changesOf (entriesOf sub.tree span)).filter
        fun change => sub.seen < change.revision).filterMap (Change.delta? p) ∧
    ∀ n ∈ span, ¬ n.LostOf sub.tree := by
  induction span generalizing s sub with
  | nil => exact ⟨rfl, fun _ h => absurd h List.not_mem_nil⟩
  | cons n rest ih =>
    obtain ⟨⟨tree, read, hread, hsession, hmessages⟩, hrest⟩ := hcontinues
    have hsends := hquiet n List.mem_cons_self
    rw [Note.sends, hmessages] at hsends
    obtain ⟨sub', htold⟩ := Session.told_react hserves.distinct
      (Session.subscriptionOf?_of_mem hserves.distinct hsub) hkind hname read hsends
    have hfound := htold.found
    rw [← hsession] at hfound
    have hfeed : sub'.feed = sub.feed := by simpa using List.find?_some hfound
    have htree : sub'.tree = sub.tree := congrArg FeedKey.tree hfeed
    rw [entriesOf_cons, changesOf_append] at hincreasing ⊢
    have hstep := ih hrest (hsession ▸ hserves.react n.replicas policy tree read)
      (List.mem_of_find?_eq_some hfound) (hfeed ▸ hkind) (htold.resolved ▸ hname)
      (fun m hm => hfeed ▸ hquiet m (List.mem_cons_of_mem n hm))
      (htree ▸ (List.pairwise_append.1 hincreasing).2.1)
    rw [hfeed, htree, htold.seen, sub.filter_seenAfter hread hincreasing] at hstep
    refine ⟨?_, fun m hm => ?_⟩
    · rw [List.flatMap_cons, List.filter_append, List.filterMap_append, hstep.1, Note.deltas,
        hmessages, htold.deltas, sub.toldOf_eq p hread]
    · rcases List.mem_cons.1 hm with rfl | hm
      · rintro ⟨lost, hlost⟩
        rw [hread] at hlost
        cases hlost
        exact htold.noGap lost rfl rfl
      · exact hstep.2 m hm

/-! ## Histories and logs -/

namespace World

/-- How a history follows the log of a holder: what was handled stands in the log before the
cursor, and without a gap it stands there in one piece. -/
structure Traced (w : World) (history : List Note) (tree : TreeKey) (b : Bookmark) (h : Holder) :
    Prop where
  found : w.holders.find? b.holder = some h
  within : b.cursor ≤ h.log.length
  handled : (entriesOf tree history).Sublist (h.log.take b.cursor)
  stretches : ∀ past span later, history = past ++ (span ++ later) →
    (∀ n ∈ span, ¬ n.LostOf tree) →
    ∃ k, k ≤ b.cursor ∧ (later = [] → k = b.cursor) ∧ entriesOf tree span <:+ h.log.take k

variable {policy : Policy} {w w' : World} {c : Client} {history : List Note} {tree : TreeKey}
  {b : Bookmark} {h : Holder} {n : Note}

theorem entriesOf_snoc (tree : TreeKey) (history : List Note) (n : Note) :
    entriesOf tree (history ++ [n]) = entriesOf tree history ++ (n.entry? tree).toList := by
  rw [entriesOf, List.filterMap_append, List.filterMap_cons]
  cases n.entry? tree <;> rfl

theorem Traced.stir (ht : w.Traced history tree b h) (hstir : w.Stirs w') :
    ∃ h', w'.Traced history tree b h' := by
  obtain ⟨h', hh', hmoves⟩ := hstir.holders _ h ht.found
  obtain ⟨more, hlog⟩ : ∃ more, h'.log = h.log ++ more := by
    cases hmoves.grown with
    | quiet hlog => exact ⟨_, hlog⟩
    | moved hlog => exact ⟨_, hlog⟩
  have htake : ∀ k, k ≤ b.cursor → h'.log.take k = h.log.take k := by
    intro k hk
    rw [hlog, List.take_append_of_le_length (Nat.le_trans hk ht.within)]
  refine ⟨h', hh', Nat.le_trans ht.within hmoves.grown.length_le, ?_,
    fun past span later heq hgap => ?_⟩
  · rw [htake _ (Nat.le_refl _)]
    exact ht.handled
  · obtain ⟨k, hk, hend, hsuffix⟩ := ht.stretches past span later heq hgap
    exact ⟨k, hk, hend, (htake k hk).symm ▸ hsuffix⟩

/-- One more note: a gap, or what stands next in the log. -/
theorem Traced.snoc (ht : w.Traced history tree b h) {next : Nat} (hle : b.cursor ≤ next)
    (hnext : next ≤ h.log.length)
    (hread : n.LostOf tree ∧ n.entry? tree = none ∨
      h.log.take next = h.log.take b.cursor ++ (n.entry? tree).toList) :
    w.Traced (history ++ [n]) tree { b with cursor := next } h := by
  refine ⟨ht.found, hnext, ?_, fun past span later heq hgap => ?_⟩
  · rw [entriesOf_snoc]
    rcases hread with ⟨-, hnone⟩ | htake
    · rw [hnone, Option.toList_none, List.append_nil]
      exact ht.handled.trans (List.take_sublist_take_left hle)
    · rw [htake]
      exact ht.handled.append (List.Sublist.refl _)
  · rcases List.eq_nil_or_concat later with rfl | ⟨later', m, rfl⟩
    · rcases List.eq_nil_or_concat span with rfl | ⟨span', m, rfl⟩
      · exact ⟨next, Nat.le_refl _, fun _ => rfl, List.nil_suffix⟩
      · -- the span ends with the new note
        rw [List.concat_eq_append, List.append_nil, ← List.append_assoc] at heq
        obtain ⟨hhistory, hm⟩ := List.append_inj' heq rfl
        cases hm
        rw [List.concat_eq_append] at hgap ⊢
        have hlost := hgap n (List.mem_append.2 (.inr List.mem_cons_self))
        obtain ⟨k, -, hend, hsuffix⟩ := ht.stretches past span' [] (by simpa using hhistory)
          fun m hm => hgap m (List.mem_append.2 (.inl hm))
        obtain rfl := hend rfl
        refine ⟨next, Nat.le_refl _, fun _ => rfl, ?_⟩
        rw [entriesOf_snoc, hread.resolve_left fun hgap => hlost hgap.1]
        obtain ⟨front, hfront⟩ := hsuffix
        exact ⟨front, by rw [← hfront, List.append_assoc]⟩
    · rw [List.concat_eq_append, ← List.append_assoc, ← List.append_assoc] at heq
      obtain ⟨hhistory, -⟩ := List.append_inj' heq rfl
      obtain ⟨k, hk, -, hsuffix⟩ := ht.stretches past span later'
        (by rw [hhistory, List.append_assoc]) hgap
      exact ⟨k, Nat.le_trans hk hle, fun hnil => by simp at hnil, hsuffix⟩

theorem Traced.read (ht : w.Traced history tree b h) {unread : Holder.Unread} {next : Nat}
    (hr : h.readAt b.cursor = some (unread, next)) (hn : n.read = some (tree, unread)) :
    w.Traced (history ++ [n]) tree { b with cursor := next } h := by
  have hwithin := Holder.readAt_within hr
  cases unread with
  | lagged lost =>
    have hlt := (Holder.readAt_lagged hr).1
    refine ht.snoc (Nat.le_of_lt hlt) hwithin (.inl ⟨⟨lost, hn⟩, ?_⟩)
    rw [Note.entry?, hn]
  | entry e =>
    obtain ⟨rfl, hdrop⟩ := Holder.readAt_entry hr
    refine ht.snoc (Nat.le_succ _) hwithin (.inr ?_)
    have hentry : n.entry? tree = some e := by
      rw [Note.entry?, hn]
      exact if_pos rfl
    have hget : h.log[b.cursor]? = some e := by
      rw [← List.head?_drop, hdrop]
      rfl
    rw [List.take_add_one, hget, hentry]

/-- A note on another tree. -/
theorem Traced.other (ht : w.Traced history tree b h) {other : TreeKey} {unread : Holder.Unread}
    (hn : n.read = some (other, unread)) (hne : other ≠ tree) :
    w.Traced (history ++ [n]) tree b h := by
  refine ht.snoc (Nat.le_refl _) ht.within (.inr ?_)
  have hentry : n.entry? tree = none := by
    rw [Note.entry?, hn]
    cases unread with
    | lagged lost => rfl
    | entry e => exact if_neg hne
  rw [hentry, Option.toList_none, List.append_nil]

/-- The history of a session: every note follows from the one before, a section that was sent in
full shows the replica as it was, and what was handled stands in the logs. -/
structure Recorded (policy : Policy) (w : World) (c : Client) : Prop where
  trees : ∀ tree, (c.bookmarks.find? tree).isSome ↔
    tree ∈ Session.treesOf c.request c.mode c.caller
  serves : Serves c.request c.mode c.caller c.session
  notes : ∀ n ∈ c.history, Serves c.request c.mode c.caller n.session ∧
    ∀ sub ∈ n.session.subscriptions, n.sends sub.feed = true →
      sub.seen = (n.replicas sub.tree).revision
  linked : ∀ past n rest, c.history = past ++ n :: rest → Continues policy n.session rest c.session
  traced : ∀ tree b, c.bookmarks.find? tree = some b → ∃ h, w.Traced c.history tree b h

theorem fresh_start (request : Request) (mode : RouteMode) (caller : Option Caller)
    (policy : Policy) (replicas : Replicas) :
    ∀ sub ∈ (Session.start request mode caller policy replicas).1.subscriptions,
      sub.seen = (replicas sub.tree).revision := by
  intro sub hsub
  rw [Session.start_eq] at hsub
  dsimp only at hsub
  rw [Session.visit_redump_fst] at hsub
  obtain ⟨old, -, rfl⟩ := List.mem_map.1 hsub
  rfl

theorem recorded_start {request : Request} {mode : RouteMode} {caller : Option Caller}
    {bookmarks : SortedMap TreeKey Bookmark}
    (hkeys : bookmarks.keys = Session.treesOf request mode caller)
    (hreach : ∀ tree b, bookmarks.find? tree = some b → ∃ h, w.Reaches tree b h) :
    w.Recorded policy (.start request mode caller policy bookmarks (w.replicasOf bookmarks)) := by
  have hserves := serves_start request mode caller policy (w.replicasOf bookmarks)
  refine ⟨fun tree => ?_, hserves, fun n hn => ?_, fun past n rest heq => ?_, fun tree b hb => ?_⟩
  · rw [Client.start, ← hkeys, SortedMap.mem_keys_iff]
  · rw [List.mem_singleton.1 hn]
    exact ⟨hserves, fun sub hsub _ => fresh_start request mode caller policy _ sub hsub⟩
  · cases past with
    | nil =>
      cases heq
      rfl
    | cons m past =>
      have := congrArg List.length heq
      simp [Client.start] at this
  · obtain ⟨h, hreach⟩ := hreach tree b hb
    -- nothing was handled yet
    have hnone : ∀ notes : List Note, (∀ n ∈ notes, n.read = none) → entriesOf tree notes = [] := by
      intro notes hnotes
      refine List.filterMap_eq_nil_iff.2 fun n hn => ?_
      rw [Note.entry?, hnotes n hn]
    have hfirst : ∀ n ∈ (Client.start request mode caller policy bookmarks
        (w.replicasOf bookmarks)).history, n.read = none := by
      intro n hn
      rw [List.mem_singleton.1 hn]
    refine ⟨h, hreach.found, hreach.within, ?_, fun past span later heq _ =>
      ⟨b.cursor, Nat.le_refl _, fun _ => rfl, ?_⟩⟩
    · rw [hnone _ hfirst]
      exact List.nil_sublist _
    · rw [hnone span fun n hn => hfirst n (heq ▸ by simp [hn])]
      exact List.nil_suffix

theorem Recorded.read (hc : w.Recorded policy c) {h : Holder} {cursor next : Nat}
    {unread : Holder.Unread} (hf : w.followed? c.bookmarks tree = some (h, cursor))
    (hr : h.readAt cursor = some (unread, next)) :
    w.Recorded policy (c.handle (w.replicasOf c.bookmarks) policy tree unread next) := by
  obtain ⟨b, hb, hh, rfl⟩ := bookmark_of_followed? hf
  have hserves := hc.serves.react (w.replicasOf c.bookmarks) policy tree unread
  refine ⟨fun other => ?_, hserves, fun n hn => ?_, fun past n rest heq => ?_,
    fun other b' hb' => ?_⟩
  · rw [isSome_bookmark_handle]
    exact hc.trees other
  · rcases List.mem_append.1 hn with hn | hn
    · exact hc.notes n hn
    · rw [List.mem_singleton.1 hn]
      exact ⟨hserves, Session.fresh_react _ _ _ _ _ hc.serves.distinct⟩
  · rcases append_singleton_eq_append_cons heq with ⟨rfl, rfl⟩ | ⟨front, rfl, hhistory⟩
    · rfl
    · exact (hc.linked past n front hhistory).snoc ⟨tree, unread, rfl, rfl, rfl⟩
  · rcases bookmark_of_handle hb' with ⟨rfl, b₀, hb₀, rfl⟩ | ⟨hne, hb'⟩
    · obtain rfl : b₀ = b := Option.some.inj (hb₀.symm.trans hb)
      obtain ⟨h', ht⟩ := hc.traced other b₀ hb
      obtain rfl : h' = h := Option.some.inj (ht.found.symm.trans hh)
      exact ⟨h', ht.read hr rfl⟩
    · obtain ⟨h', ht⟩ := hc.traced other b' hb'
      exact ⟨h', ht.other rfl (Ne.symm hne)⟩

/-- **Histories are recorded.** -/
theorem recorded_kept (policy : Policy) : Kept policy fun w c => w.Recorded policy c where
  stir _ _ _ _ hstir hc :=
    { hc with
      traced := fun tree b hb =>
        have ⟨_, ht⟩ := hc.traced tree b hb
        ht.stir hstir }
  start _ _ _ _ _ _ hkeys hreach := recorded_start hkeys hreach
  read _ _ _ _ _ _ _ _ hc _ hf hr := hc.read hf hr
  leave _ _ hc := ⟨hc.trees, hc.serves, hc.notes, hc.linked, hc.traced⟩

/-- **Exactly once and in order.**  In every run, take a subscription of keys, a name that a single
cluster `p` serves, a note that sent the section in full and a span after it in which the section
was not sent in full again.  Under the name the span tells exactly the changes of the keys of `p`
that were handled in it and are above the revision of the replica that was sent, each once, as an
`update` with its value or a `delete` with null.  They stand in the order of their revisions, and
the entries that were handled stand in the holder's log in one piece. -/
theorem deltas_between_dumps (policy : Policy) (acts : List Act) (c : Client)
    (hclient : (empty.run policy acts).client = some c) (past span later : List Note) (n : Note)
    (hhistory : c.history = past ++ n :: (span ++ later)) (sub : Subscription)
    (hsub : sub ∈ n.session.subscriptions) (hkind : sub.feed.kind ≠ .serviceInfo)
    (hsends : n.sends sub.feed = true) (hquiet : ∀ m ∈ span, m.sends sub.feed = false)
    (name p : String) (hname : sub.resolved.find? name = some [p]) :
    let handled := entriesOf sub.tree span
    let changes := (changesOf handled).filter
      fun change => (n.replicas sub.tree).revision < change.revision
    span.flatMap (Note.deltas · sub.feed name) = changes.filterMap (Change.delta? p) ∧
    changes.Pairwise (fun a b => a.revision < b.revision) ∧
    ∃ b h, c.bookmarks.find? sub.tree = some b ∧
      (empty.run policy acts).holders.find? b.holder = some h ∧ handled <:+: h.log := by
  intro handled changes
  have hw := (recorded_kept policy).run acts
  have hc := hw.client c hclient
  obtain ⟨hserves, hfresh⟩ := hc.notes n (hhistory ▸ by simp)
  have htree : sub.tree ∈ Session.treesOf c.request c.mode c.caller :=
    mem_treesOf sub.origin (hserves.served ▸ List.mem_map_of_mem hsub)
  obtain ⟨b, hb⟩ := Option.isSome_iff_exists.1 ((hc.trees sub.tree).2 htree)
  obtain ⟨h, ht⟩ := hc.traced sub.tree b hb
  have hlogged := (hw.grounded.holders _ _ ht.found).logged
  -- what was handled is part of the log, so its revisions increase
  have hincreasing : (changesOf handled).Pairwise fun a b => a.revision < b.revision := by
    have hsublist : handled.Sublist (entriesOf sub.tree c.history) := by
      rw [hhistory]
      refine List.Sublist.filterMap _ ?_
      exact (List.sublist_append_left span later).trans
        ((List.sublist_cons_self n _).trans (List.sublist_append_right past _))
    have hlog := (hsublist.trans ht.handled).trans (List.take_sublist b.cursor h.log)
    exact hlogged.increasing.sublist (hlog.filterMap LogEntry.change?)
  obtain ⟨middle, hcontinues⟩ := (hc.linked past n (span ++ later) hhistory).left
  obtain ⟨hdeltas, hgap⟩ := deltas_span hcontinues hserves hsub hkind hname hquiet hincreasing
  rw [hfresh sub hsub hsends] at hdeltas
  obtain ⟨k, -, -, hsuffix⟩ := ht.stretches (past ++ [n]) span later (by simp [hhistory]) hgap
  exact ⟨hdeltas, hincreasing.filter _, b, h, hb, ht.found,
    hsuffix.isInfix.trans (List.take_prefix k h.log).isInfix⟩

/-- The start of the session of `shopRun`. -/
def shopStart : Note :=
  shopClient.history.head (List.ne_nil_of_length_pos (by decide +kernel))

/-- Its only subscription. -/
def shopSubscription : Subscription :=
  shopStart.session.subscriptions.head (List.ne_nil_of_length_pos (by decide +kernel))

/-- A session starts when the third change is in its replica already; it reads this one first, and
then an update, a change of metadata and a deletion. -/
theorem deltas_between_dumps_shopRun :
    let span := shopClient.history.tail
    shopClient.history = [] ++ shopStart :: (span ++ []) ∧
    shopSubscription ∈ shopStart.session.subscriptions ∧
    shopSubscription.feed.kind ≠ .serviceInfo ∧
    shopStart.sends shopSubscription.feed = true ∧
    (∀ m ∈ span, m.sends shopSubscription.feed = false) ∧
    shopSubscription.resolved.find? "a" = some ["a"] ∧
    (shopStart.replicas shopSubscription.tree).revision = 3 ∧
    (changesOf (entriesOf shopSubscription.tree span)).map Change.revision = [3, 4, 5, 6] ∧
    span.flatMap (Note.deltas · shopSubscription.feed "a") =
      [⟨.update, "1", Sections.keyEntry (some "y")⟩, ⟨.delete, "1", Sections.keyEntry none⟩] := by
  intro span
  have hhistory : shopClient.history = [] ++ shopStart :: (span ++ []) := by
    rw [List.append_nil, List.nil_append, shopStart, List.cons_head_tail]
  have hsub : shopSubscription ∈ shopStart.session.subscriptions := List.head_mem _
  have hfacts : shopSubscription.feed.kind ≠ .serviceInfo ∧
      shopStart.sends shopSubscription.feed = true ∧
      (∀ m ∈ shopClient.history.tail, m.sends shopSubscription.feed = false) ∧
      shopSubscription.resolved.find? "a" = some ["a"] ∧
      (shopStart.replicas shopSubscription.tree).revision = 3 ∧
      (changesOf (entriesOf shopSubscription.tree shopClient.history.tail)).map
        Change.revision = [3, 4, 5, 6] := by
    decide +kernel
  obtain ⟨hkind, hsends, hquiet, hname, hrevision, hrevisions⟩ := hfacts
  refine ⟨hhistory, hsub, hkind, hsends, hquiet, hname, hrevision, hrevisions, ?_⟩
  rw [(deltas_between_dumps .standard shopRun shopClient client_shopRun [] span [] shopStart
    hhistory shopSubscription hsub hkind hsends hquiet "a" "a" hname).1]
  decide +kernel

end World

end Treecast
