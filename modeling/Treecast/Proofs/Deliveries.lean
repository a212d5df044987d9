import Treecast.Session.Basic
import Treecast.Proofs.Reading
import Treecast.Proofs.View

/-!
# What sessions deliver

The messages of one reaction, seen section by section.  A handling of metadata or of a gap sends
some subscriptions in full and says nothing of the others (`redump`).  A change of a key is told
under each name that is served by its cluster, once and with one value (`told?`).

## Results

* `visit_redump_view`: the sections of an `all`.
* `receiveAll_onKeyChange`: what a client holds after a change of a key.
-/

set_option autoImplicit false

namespace Treecast

open Routing
open Json (Value)

/-! ## Sections as views -/

namespace Sections

/-- What a body carries. -/
def view (b : Sections) : View := fun feed => (b.sections.find? feed).map payloadsOf

theorem ofMessage_message (b : Sections) (kind : MessageKind) :
    View.ofMessage (b.message kind) = b.view := by
  funext feed
  rw [View.ofMessage, clusters?_message, view]

theorem view_of_isEmpty {b : Sections} (h : b.isEmpty = true) (feed : FeedKey) :
    b.view feed = none := by
  have : b.sections.entries = [] := List.isEmpty_iff.1 h
  rw [view, SortedMap.find?, this]
  rfl

/-- The payload of a cluster so far. -/
def payload? (b : Sections) (feed : FeedKey) (name : String) : Option Value :=
  Entries.find? name (b.clusters feed)

theorem payload?_eq_bind (b : Sections) (feed : FeedKey) (name : String) :
    b.payload? feed name = (b.sections.find? feed).bind (Entries.find? name) := by
  rw [payload?, clusters]
  cases b.sections.find? feed <;> rfl

theorem payload?_putCluster (b : Sections) (feed : FeedKey) (name : String) (p : Value)
    (feed' : FeedKey) (name' : String) :
    (b.putCluster feed name p).payload? feed' name' =
      if feed' = feed ∧ name' = name then some p else b.payload? feed' name' := by
  rw [payload?, payload?, clusters, putCluster, SortedMap.find?_insert]
  by_cases hf : feed' = feed
  · subst hf
    rw [if_pos rfl, Option.getD_some, Entries.find?_insert]
    by_cases hn : name' = name <;> simp [hn]
  · rw [if_neg hf, if_neg fun h => hf h.1, clusters]

/-- Setting the first key of a cluster. -/
theorem payload?_putKey {b : Sections} {feed : FeedKey} {name : String}
    (h : b.payload? feed name = none) (key : String) (value : Option String) (feed' : FeedKey)
    (name' : String) :
    (b.putKey feed name key value).payload? feed' name' =
      if feed' = feed ∧ name' = name then some (.object [(key, keyEntry value)])
      else b.payload? feed' name' := by
  have : b.putKey feed name key value =
      b.putCluster feed name (.object [(key, keyEntry value)]) := by
    rw [payload?] at h
    rw [putKey, h]
    rfl
  rw [this, payload?_putCluster]

theorem find?_putKey_other (b : Sections) {feed other : FeedKey} (h : other ≠ feed)
    (name key : String) (value : Option String) :
    (b.putKey feed name key value).sections.find? other = b.sections.find? other := by
  unfold putKey
  split
  · exact (SortedMap.find?_insert _ _ _ _).trans (if_neg h)
  · exact (SortedMap.find?_insert _ _ _ _).trans (if_neg h)

end Sections

/-! ## Full sections -/

namespace Subscription

/-- The subscription as it was created. -/
def origin (s : Subscription) : Subscription := create s.feed s.selection

theorem feed_of_origin {s s' : Subscription} (h : s'.origin = s.origin) : s'.feed = s.feed :=
  show s'.origin.feed = s.origin.feed from congrArg feed h

/-- The full section: the payload of every name. -/
def fullSection (s : Subscription) (r : Replica) : Payloads := fun name =>
  (s.resolved.find? name).map (s.payload r)

theorem find?_dump_other (s : Subscription) (r : Replica) (body : Sections) {feed : FeedKey}
    (h : feed ≠ s.feed) : (s.dump r body).sections.find? feed = body.sections.find? feed := by
  unfold dump
  have htouch : (body.touch s.feed).sections.find? feed = body.sections.find? feed := by
    rw [Sections.touch, SortedMap.find?_insert, if_neg h]
  rw [← htouch]
  generalize body.touch s.feed = start
  induction s.resolved.toList generalizing start with
  | nil => rfl
  | cons e rest ih =>
    rw [List.foldl_cons, ih]
    exact (SortedMap.find?_insert _ _ _ _).trans (if_neg h)

theorem isSome_find?_dump (s : Subscription) (r : Replica) (body : Sections) :
    ((s.dump r body).sections.find? s.feed).isSome := by
  have hput : ∀ (es : Entries String (List String)) (start : Sections),
      (start.sections.find? s.feed).isSome →
      ((es.foldl (fun body e => body.putCluster s.feed e.1 (s.payload r e.2)) start).sections.find?
        s.feed).isSome := by
    intro es
    induction es with
    | nil => exact fun _ h => h
    | cons e rest ih =>
      intro start _
      have hput : (start.putCluster s.feed e.1 (s.payload r e.2)).sections.find? s.feed =
          some (Entries.insert e.1 (s.payload r e.2) (start.clusters s.feed)) :=
        (SortedMap.find?_insert _ _ _ _).trans (if_pos rfl)
      refine ih _ ?_
      rw [hput]
      rfl
  refine hput s.resolved.toList (body.touch s.feed) ?_
  rw [Sections.touch, SortedMap.find?_insert, if_pos rfl]
  rfl

/-- **A dump writes the full section and nothing else.** -/
theorem view_dump (s : Subscription) (r : Replica) {body : Sections}
    (hnew : body.sections.find? s.feed = none) (feed : FeedKey) :
    (s.dump r body).view feed =
      if feed = s.feed then some (s.fullSection r) else body.view feed := by
  by_cases hf : feed = s.feed
  · subst hf
    obtain ⟨clusters, hc⟩ := Option.isSome_iff_exists.1 (s.isSome_find?_dump r body)
    rw [if_pos rfl, Sections.view, hc, Option.map_some]
    congr 1
    funext name
    have hlook := Entries.look_foldl
      (fun (b : Sections) name clusters => b.putCluster s.feed name (s.payload r clusters))
      (fun b name => b.payload? s.feed name) (fun clusters _ => some (s.payload r clusters))
      (fun b name clusters other => by
        rw [Sections.payload?_putCluster]
        by_cases ho : other = name <;> simp [ho])
      s.resolved.sorted (body.touch s.feed) name
    have htouch : (body.touch s.feed).payload? s.feed name = none := by
      rw [Sections.payload?_eq_bind, Sections.touch, SortedMap.find?_insert, if_pos rfl,
        Sections.clusters, hnew]
      rfl
    have hdump : (s.dump r body).payload? s.feed name = Entries.find? name clusters := by
      rw [Sections.payload?_eq_bind, hc, Option.bind_some]
    rw [payloadsOf, ← hdump, fullSection, SortedMap.find?]
    refine hlook.trans ?_
    rw [htouch]
    cases s.resolved.entries.find? name <;> rfl
  · rw [if_neg hf, Sections.view, find?_dump_other s r body hf, Sections.view]

end Subscription

namespace Session

variable {replicas : Replicas}

/-- A handling that may send a subscription in full, and says nothing of it otherwise. -/
def redump (replicas : Replicas) (g : Subscription → Subscription × Bool) (sub : Subscription)
    (body : Sections) : Subscription × Sections :=
  ((g sub).1, if (g sub).2 then (g sub).1.dump (replicas sub.tree) body else body)

def subscriptionOf? (subs : List Subscription) (feed : FeedKey) : Option Subscription :=
  subs.find? (·.feed = feed)

theorem subscriptionOf?_cons_self (sub : Subscription) (rest : List Subscription) :
    subscriptionOf? (sub :: rest) sub.feed = some sub := by
  simp [subscriptionOf?]

theorem subscriptionOf?_cons_of_ne {sub : Subscription} {feed : FeedKey} (hf : feed ≠ sub.feed)
    (rest : List Subscription) :
    subscriptionOf? (sub :: rest) feed = subscriptionOf? rest feed := by
  rw [subscriptionOf?, List.find?_cons_of_neg (by simpa using Ne.symm hf)]
  rfl

variable {g : Subscription → Subscription × Bool}

theorem find?_redump_other (hfeed : ∀ s, (g s).1.feed = s.feed) {sub : Subscription}
    {feed : FeedKey} (hf : feed ≠ sub.feed) (body : Sections) :
    (redump replicas g sub body).2.sections.find? feed = body.sections.find? feed := by
  rw [redump]
  dsimp only
  split
  · exact Subscription.find?_dump_other _ _ _ (by rwa [hfeed])
  · rfl

theorem view_redump (hfeed : ∀ s, (g s).1.feed = s.feed) {sub : Subscription} {body : Sections}
    (hnew : body.sections.find? sub.feed = none) :
    (redump replicas g sub body).2.view sub.feed =
      if (g sub).2 then some ((g sub).1.fullSection (replicas sub.tree)) else none := by
  rw [redump]
  dsimp only
  split
  · rw [Subscription.view_dump _ _ (by rwa [hfeed]), hfeed, if_pos rfl]
  · rw [Sections.view, hnew, Option.map_none]

theorem visit_redump_fst (subs : List Subscription) (body : Sections) :
    (visit (redump replicas g) subs body).1 = subs.map fun s => (g s).1 := by
  induction subs generalizing body with
  | nil => rfl
  | cons sub rest ih => exact congrArg ((g sub).1 :: ·) (ih _)

theorem find?_visit_other (hfeed : ∀ s, (g s).1.feed = s.feed) {feed : FeedKey}
    (subs : List Subscription) (hother : ∀ s ∈ subs, feed ≠ s.feed) (body : Sections) :
    (visit (redump replicas g) subs body).2.sections.find? feed = body.sections.find? feed := by
  induction subs generalizing body with
  | nil => rfl
  | cons sub rest ih =>
    have hrest := fun s hs => hother s (List.mem_cons_of_mem sub hs)
    exact (ih hrest _).trans (find?_redump_other hfeed (hother sub List.mem_cons_self) body)

/-- **The sections of a body that is put together by handling one subscription after another.** -/
theorem visit_redump_view (hfeed : ∀ s, (g s).1.feed = s.feed) (subs : List Subscription)
    (hdistinct : (subs.map Subscription.feed).Nodup) (body : Sections)
    (hnew : ∀ s ∈ subs, body.sections.find? s.feed = none) (feed : FeedKey) :
    (visit (redump replicas g) subs body).2.view feed =
      match subscriptionOf? subs feed with
      | some s => if (g s).2 then some ((g s).1.fullSection (replicas s.tree)) else none
      | none => body.view feed := by
  induction subs generalizing body with
  | nil => rfl
  | cons sub rest ih =>
    rw [List.map_cons] at hdistinct
    obtain ⟨hfirst, hdistinct⟩ := List.nodup_cons.1 hdistinct
    have hother : ∀ s ∈ rest, s.feed ≠ sub.feed :=
      fun s hs he => hfirst (he ▸ List.mem_map_of_mem hs)
    rw [visit]
    by_cases hf : feed = sub.feed
    · subst hf
      rw [subscriptionOf?_cons_self, Sections.view,
        find?_visit_other hfeed rest fun s hs he => hother s hs he.symm]
      exact view_redump hfeed (hnew sub List.mem_cons_self)
    · rw [subscriptionOf?_cons_of_ne hf]
      refine (ih hdistinct _ fun s hs => ?_).trans ?_
      · -- the first subscription leaves the other sections alone
        rw [find?_redump_other hfeed (hother s hs)]
        exact hnew s (List.mem_cons_of_mem _ hs)
      · cases subscriptionOf? rest feed with
        | some s => rfl
        | none =>
          dsimp only
          rw [Sections.view, find?_redump_other hfeed hf, Sections.view]

theorem receiveAll_all (v : View) (body : Sections) (feed : FeedKey) :
    v.receiveAll (messageUnlessEmpty .all body) feed = (body.view feed).or (v feed) := by
  rw [messageUnlessEmpty]
  split
  · rename_i hempty
    rw [Sections.view_of_isEmpty hempty, Option.none_or]
    rfl
  · have hreceive := View.receive_all v (m := body.message .all) rfl feed
    rw [Sections.ofMessage_message] at hreceive
    exact hreceive

/-! ## Handlings of metadata and of gaps -/

/-- A subscription that is sent in full. -/
def inFull (replicas : Replicas) (v : Viewpoint) (sub : Subscription) : Subscription :=
  (sub.refresh (replicas sub.tree) v).sawAll (replicas sub.tree)

/-- A subscription after a change of metadata, and whether it is sent in full. -/
def reconsidered (replicas : Replicas) (v : Viewpoint) (tree : TreeKey) (change : Change)
    (callerMoved : Bool) (sub : Subscription) : Subscription × Bool :=
  let bound := sub.tree = tree && change.revision > sub.seen
  if !bound && !(callerMoved && sub.needsCaller v.mode) then (sub, false)
  else if (sub.refresh (replicas sub.tree) v).resolved ≠ sub.resolved ||
      (bound && touchesInfo sub change) then
    (inFull replicas v sub, true)
  else if bound then ({ sub with seen := max sub.seen change.revision }, false)
  else (sub, false)

theorem reconsider_eq (replicas : Replicas) (v : Viewpoint) (tree : TreeKey) (change : Change)
    (callerMoved : Bool) :
    reconsider replicas v tree change callerMoved =
      redump replicas (reconsidered replicas v tree change callerMoved) := by
  funext sub body
  unfold reconsider redump reconsidered
  dsimp only
  split
  · rfl
  · split
    · rfl
    · split <;> rfl

/-- A subscription after a gap in the log of `tree`, and whether it is sent in full. -/
def resent (s : Session) (replicas : Replicas) (policy : Policy) (tree : TreeKey)
    (ofCaller : Bool) (sub : Subscription) : Subscription × Bool :=
  if sub.tree = tree || (ofCaller && sub.needsCaller s.mode) then
    (inFull replicas (s.viewpoint policy) sub, true)
  else (sub, false)

/-- **What a change of metadata does to a subscription**: it is sent in full; or the change is of
its tree and new, but moves no name and touches no descriptive field, and is seen without anything
being said; or the change is not, and nothing happens. -/
theorem reconsidered_inv (replicas : Replicas) (v : Viewpoint) (tree : TreeKey) (change : Change)
    (callerMoved : Bool) (sub : Subscription) :
    let r := reconsidered replicas v tree change callerMoved sub
    let bound := sub.tree = tree ∧ sub.seen < change.revision
    r = (inFull replicas v sub, true) ∨
      (bound ∧ sub.resolved = sub.resolve (replicas sub.tree) v ∧ touchesInfo sub change = false ∧
        r = ({ sub with seen := max sub.seen change.revision }, false)) ∨
      (¬ bound ∧ (callerMoved = true → sub.needsCaller v.mode = true →
        sub.resolved = sub.resolve (replicas sub.tree) v) ∧ r = (sub, false)) := by
  have hbound : (decide (sub.tree = tree) && decide (change.revision > sub.seen)) = true ↔
      sub.tree = tree ∧ sub.seen < change.revision := by simp
  unfold reconsidered
  dsimp only
  split
  · rename_i hout
    simp only [Bool.and_eq_true, Bool.not_eq_true', Bool.eq_false_iff, ne_eq, hbound] at hout
    exact .inr (.inr ⟨hout.1, fun hmoved hneeds => absurd ⟨hmoved, hneeds⟩ hout.2, rfl⟩)
  · split
    · exact .inl rfl
    · rename_i hunsent
      simp only [Bool.or_eq_true, not_or, Bool.not_eq_true, decide_eq_false_iff_not, ne_eq,
        Classical.not_not] at hunsent
      obtain ⟨hresolved, htouched⟩ := hunsent
      split
      · rename_i hb
        rw [hb, Bool.true_and] at htouched
        exact .inr (.inl ⟨hbound.1 hb, hresolved.symm, htouched, rfl⟩)
      · rename_i hb
        exact .inr (.inr ⟨fun h => hb (hbound.2 h), fun _ _ => hresolved.symm, rfl⟩)
/-- **What a gap does to a subscription**: it is sent in full, or it is of another tree and does not
ask for a caller who is read anew. -/
theorem resent_inv (s : Session) (replicas : Replicas) (policy : Policy) (tree : TreeKey)
    (ofCaller : Bool) (sub : Subscription) :
    s.resent replicas policy tree ofCaller sub = (inFull replicas (s.viewpoint policy) sub, true) ∨
      (sub.tree ≠ tree ∧ (ofCaller = true → sub.needsCaller s.mode = false) ∧
        s.resent replicas policy tree ofCaller sub = (sub, false)) := by
  unfold resent
  split
  · exact .inl rfl
  · rename_i hout
    simp only [Bool.or_eq_true, decide_eq_true_eq, not_or, Bool.and_eq_true, not_and,
      Bool.not_eq_true] at hout
    exact .inr ⟨hout.1, hout.2, rfl⟩

theorem origin_reconsidered (replicas : Replicas) (v : Viewpoint) (tree : TreeKey)
    (change : Change) (callerMoved : Bool) (sub : Subscription) :
    (reconsidered replicas v tree change callerMoved sub).1.origin = sub.origin := by
  rcases reconsidered_inv replicas v tree change callerMoved sub with h | ⟨-, -, -, h⟩ | ⟨-, -, h⟩
  · rw [h]
    rfl
  · rw [h]
    rfl
  · rw [h]

theorem origin_resent (s : Session) (replicas : Replicas) (policy : Policy) (tree : TreeKey)
    (ofCaller : Bool) (sub : Subscription) :
    (s.resent replicas policy tree ofCaller sub).1.origin = sub.origin := by
  rcases s.resent_inv replicas policy tree ofCaller sub with h | ⟨-, -, h⟩
  · rw [h]
    rfl
  · rw [h]

/-- The session after its subscriptions were handled, with the sections that it sends. -/
theorem onMetadataChange_eq (s : Session) (replicas : Replicas) (policy : Policy) (tree : TreeKey)
    (change : Change) :
    s.onMetadataChange replicas policy tree change =
      let moved := s.concernsCaller tree change
      let s := if moved then s.readCaller replicas policy else s
      let visited := visit
        (redump replicas (reconsidered replicas (s.viewpoint policy) tree change moved))
        s.subscriptions Sections.empty
      ({ s with subscriptions := visited.1 }, messageUnlessEmpty .all visited.2) := by
  rw [onMetadataChange]
  simp only [reconsider_eq]

theorem resync_eq (s : Session) (replicas : Replicas) (policy : Policy) (tree : TreeKey) :
    s.resync replicas policy tree =
      let ofCaller := s.callerTree = some tree
      let s := if ofCaller then s.readCaller replicas policy else s
      let visited := visit (redump replicas (s.resent replicas policy tree ofCaller))
        s.subscriptions Sections.empty
      ({ s with subscriptions := visited.1 }, messageUnlessEmpty .all visited.2) := by
  have hresent : ∀ (x : Session) (ofCaller : Bool), (fun (sub : Subscription) body =>
        if sub.tree = tree || (ofCaller && sub.needsCaller x.mode) then
          sendInFull replicas (x.viewpoint policy) sub body
        else (sub, body)) = redump replicas (x.resent replicas policy tree ofCaller) := by
    intro x ofCaller
    funext sub body
    unfold redump resent
    generalize (decide (sub.tree = tree) || (ofCaller && sub.needsCaller x.mode)) = concerned
    cases concerned <;> rfl
  rw [resync]
  simp only [hresent]

/-! ## The start -/

/-- What is known of the caller from its own tree. -/
def callerOn (policy : Policy) (replicas : Replicas) (callerTree : Option TreeKey)
    (caller : Option Caller) : Option CallerRoute :=
  match callerTree, caller with
  | some tree, some caller => some (CallerRoute.ofReplica (replicas tree) policy caller)
  | _, _ => none

theorem readCaller_keeps (s : Session) (replicas : Replicas) (policy : Policy) :
    (s.readCaller replicas policy).mode = s.mode ∧
      (s.readCaller replicas policy).caller = s.caller ∧
      (s.readCaller replicas policy).callerTree = s.callerTree ∧
      (s.readCaller replicas policy).subscriptions = s.subscriptions := by
  unfold readCaller
  split <;> exact ⟨rfl, rfl, rfl, rfl⟩

theorem readCaller_keeps_if (s : Session) (replicas : Replicas) (policy : Policy) {p : Prop}
    [Decidable p] {x : Session} (hx : (if p then s.readCaller replicas policy else s) = x) :
    x.mode = s.mode ∧ x.caller = s.caller ∧ x.callerTree = s.callerTree ∧
      x.subscriptions = s.subscriptions := by
  rw [← hx]
  split
  · exact s.readCaller_keeps replicas policy
  · exact ⟨rfl, rfl, rfl, rfl⟩

theorem callerRoute_readCaller (s : Session) (replicas : Replicas) (policy : Policy) :
    (s.readCaller replicas policy).callerRoute =
      (callerOn policy replicas s.callerTree s.caller).or s.callerRoute := by
  unfold readCaller callerOn
  cases s.callerTree with
  | none => rfl
  | some tree => cases s.caller <;> rfl

/-- A session that has not read anything yet. -/
def unstarted (request : Request) (mode : RouteMode) (caller : Option Caller) : Session :=
  ⟨mode, caller, callerTreeOf request mode caller, none, 0, subscriptionsOf request⟩

/-- How a new session reads names. -/
theorem viewpoint_unstarted (request : Request) (mode : RouteMode) (caller : Option Caller)
    (policy : Policy) (replicas : Replicas) :
    ((unstarted request mode caller).readCaller replicas policy).viewpoint policy =
      ⟨mode, policy, callerOn policy replicas (callerTreeOf request mode caller) caller⟩ := by
  rw [viewpoint, callerRoute_readCaller, (readCaller_keeps _ replicas policy).1]
  simp only [unstarted, Option.or_none]

/-- A new session reads its caller and sends everything in full. -/
theorem start_eq (request : Request) (mode : RouteMode) (caller : Option Caller) (policy : Policy)
    (replicas : Replicas) :
    start request mode caller policy replicas =
      let x := (unstarted request mode caller).readCaller replicas policy
      let visited := visit
        (redump replicas fun sub => (inFull replicas (x.viewpoint policy) sub, true))
        x.subscriptions Sections.empty
      ({ x with subscriptions := visited.1 }, visited.2) := rfl

/-! ## Changes of keys -/

/-- The news under a name. -/
def newsOf? (news : List (FeedKey × String × Option String)) (feed : FeedKey) (name : String) :
    Option (Option String) :=
  (news.find? fun n => n.1 = feed ∧ n.2.1 = name).map fun n => n.2.2

theorem newsOf?_cons_self (feed : FeedKey) (name : String) (value : Option String)
    (rest : List (FeedKey × String × Option String)) :
    newsOf? ((feed, name, value) :: rest) feed name = some value := by
  simp [newsOf?]

theorem newsOf?_cons_of_ne {feed feed' : FeedKey} {name name' : String}
    (hne : ¬ (feed' = feed ∧ name' = name)) (value : Option String)
    (rest : List (FeedKey × String × Option String)) :
    newsOf? ((feed, name, value) :: rest) feed' name' = newsOf? rest feed' name' := by
  rw [newsOf?, List.find?_cons_of_neg (by simpa using fun hf hm => hne ⟨hf.symm, hm.symm⟩)]
  rfl

theorem newsOf?_eq_none {feed : FeedKey} {name : String}
    {news : List (FeedKey × String × Option String)}
    (h : ∀ n ∈ news, ¬ (n.1 = feed ∧ n.2.1 = name)) : newsOf? news feed name = none := by
  rw [newsOf?, List.find?_eq_none.2 fun n hn => by simpa using h n hn]
  rfl

theorem payload?_foldl_putKey (key : String) (gone : Bool)
    (news : List (FeedKey × String × Option String))
    (hdistinct : (news.map fun n => (n.1, n.2.1)).Nodup) (body : Sections)
    (hnew : ∀ n ∈ news, body.payload? n.1 n.2.1 = none) (feed : FeedKey) (name : String) :
    (news.foldl (fun body n =>
      if n.2.2.isNone = gone then body.putKey n.1 n.2.1 key n.2.2 else body) body).payload?
        feed name =
      match newsOf? news feed name with
      | some value =>
        if value.isNone = gone then some (.object [(key, Sections.keyEntry value)]) else none
      | none => body.payload? feed name := by
  induction news generalizing body with
  | nil => rfl
  | cons n rest ih =>
    obtain ⟨f, m, value⟩ := n
    rw [List.map_cons] at hdistinct
    obtain ⟨hfirst, hdistinct⟩ := List.nodup_cons.1 hdistinct
    have hnone := hnew _ List.mem_cons_self
    have hstep : ∀ f' m', (if value.isNone = gone then body.putKey f m key value
        else body).payload? f' m' = if (f' = f ∧ m' = m) ∧ value.isNone = gone then
          some (.object [(key, Sections.keyEntry value)]) else body.payload? f' m' := by
      intro f' m'
      by_cases hgone : value.isNone = gone
      · rw [if_pos hgone, Sections.payload?_putKey hnone]
        simp only [hgone, and_true]
      · simp only [hgone, and_false, if_false]
    have hrest : ∀ x ∈ rest, ¬ (x.1 = f ∧ x.2.1 = m) := by
      rintro x hx ⟨rfl, rfl⟩
      exact hfirst (List.mem_map_of_mem (f := fun n => (n.1, n.2.1)) hx)
    rw [List.foldl_cons, ih hdistinct _ fun x hx => ?_]
    · by_cases hhere : feed = f ∧ name = m
      · obtain ⟨rfl, rfl⟩ := hhere
        rw [newsOf?_eq_none hrest, newsOf?_cons_self]
        dsimp only
        rw [hstep]
        by_cases hgone : value.isNone = gone
        · simp [hgone]
        · simpa [hgone] using hnone
      · rw [newsOf?_cons_of_ne hhere, hstep, if_neg fun h => hhere h.1]
    · rw [hstep, if_neg fun h => hrest x hx h.1]
      exact hnew x (List.mem_cons_of_mem _ hx)

/-- The names of entries that have something to tell, with what they tell. -/
def tellings {α β : Type} (f : α → Option β) (entries : Entries String α) : List (String × β) :=
  entries.filterMap fun e => (f e.2).map fun v => (e.1, v)

theorem tellings_names_sublist {α β : Type} (f : α → Option β) (entries : Entries String α) :
    ((tellings f entries).map Prod.fst).Sublist (entries.map Prod.fst) := by
  induction entries with
  | nil => exact List.Sublist.refl _
  | cons e rest ih =>
    rw [tellings, List.filterMap_cons]
    cases f e.2 with
    | none => exact ih.cons e.1
    | some v => exact ih.cons_cons e.1

theorem find?_tellings {α β : Type} (f : α → Option β) {entries : Entries String α}
    (hs : entries.Sorted) (name : String) :
    ((tellings f entries).find? (·.1 = name)).map Prod.snd =
      (Entries.find? name entries).bind f := by
  induction entries with
  | nil => rfl
  | cons e rest ih =>
    obtain ⟨k, v⟩ := e
    have ih := ih (List.pairwise_cons.1 hs).2
    rw [tellings, List.filterMap_cons]
    by_cases hk : k = name
    · subst hk
      rw [Entries.find?_cons_self, Option.bind_some]
      cases hf : f v with
      | some x => simp
      | none =>
        -- the name does not come again
        rw [Entries.find?_eq_none_of_forall_ne fun e he => Entries.ne_of_mem_tail hs he] at ih
        exact ih
    · rw [Entries.find?_cons_of_ne (Ne.symm hk)]
      cases hf : f v with
      | none => exact ih
      | some x =>
        simp only [Option.map_some]
        rw [List.find?_cons_of_neg (by simpa using hk)]
        exact ih

theorem hears_iff {sub : Subscription} {tree : TreeKey} {revision : Nat} :
    hears sub tree revision = true ↔
      sub.tree = tree ∧ sub.feed.kind ≠ .serviceInfo ∧ sub.seen < revision := by
  simp [hears, and_assoc]

/-- What a subscription tells of a changed key under the clusters of a name. -/
def tells? (replicas : Replicas) (tree : TreeKey) (change : Change) (cluster key : String)
    (sub : Subscription) (clusters : List String) : Option (Option String) :=
  if hears sub tree change.revision then
    if clusters.contains cluster then
      some (Subscription.keyValue (replicas tree) clusters key change.value)
    else none
  else none

/-- What a change of a key tells under a name, if anything: the value that the key now has there,
or that it has none. -/
def told? (s : Session) (replicas : Replicas) (tree : TreeKey) (change : Change)
    (cluster key : String) (feed : FeedKey) (name : String) : Option (Option String) :=
  (subscriptionOf? s.subscriptions feed).bind fun sub =>
    (sub.resolved.find? name).bind (tells? replicas tree change cluster key sub)

theorem newsFor_eq (replicas : Replicas) (tree : TreeKey) (change : Change) (cluster key : String)
    (sub : Subscription) : newsFor replicas tree change cluster key sub =
      (tellings (tells? replicas tree change cluster key sub) sub.resolved.toList).map
        fun n => (sub.feed, n.1, n.2) := by
  unfold newsFor
  cases hhears : hears sub tree change.revision with
  | false =>
    have : tells? replicas tree change cluster key sub = fun _ => none := by
      funext clusters
      rw [tells?, hhears]
      rfl
    rw [this]
    simp [tellings]
  | true =>
    have : tells? replicas tree change cluster key sub = fun clusters =>
        if clusters.contains cluster then
          some (Subscription.keyValue (replicas tree) clusters key change.value) else none := by
      funext clusters
      rw [tells?, hhears]
      rfl
    rw [this, if_pos rfl, Subscription.keyNews, tellings]
    congr 2
    funext e
    split <;> rfl

theorem feed_of_mem_newsFor {replicas : Replicas} {tree : TreeKey} {change : Change}
    {cluster key : String} {sub : Subscription} {n : FeedKey × String × Option String}
    (h : n ∈ newsFor replicas tree change cluster key sub) : n.1 = sub.feed := by
  rw [newsFor_eq] at h
  obtain ⟨t, -, rfl⟩ := List.mem_map.1 h
  rfl

theorem newsOf?_newsFor (replicas : Replicas) (tree : TreeKey) (change : Change)
    (cluster key : String) (sub : Subscription) (feed : FeedKey) (name : String) :
    newsOf? (newsFor replicas tree change cluster key sub) feed name =
      if sub.feed = feed then
        (sub.resolved.find? name).bind (tells? replicas tree change cluster key sub)
      else none := by
  rw [newsFor_eq, newsOf?, List.find?_map, Option.map_map]
  by_cases hf : sub.feed = feed
  · rw [if_pos hf, SortedMap.find?, ← find?_tellings _ sub.resolved.sorted]
    simp only [hf, Function.comp_def, true_and]
    rfl
  · rw [if_neg hf, List.find?_eq_none.2 fun x _ => by simp [hf]]
    rfl

theorem newsOf?_append (news more : List (FeedKey × String × Option String)) (feed : FeedKey)
    (name : String) :
    newsOf? (news ++ more) feed name = (newsOf? news feed name).or (newsOf? more feed name) := by
  rw [newsOf?, List.find?_append, Option.map_or]
  rfl

theorem newsOf?_flatMap (replicas : Replicas) (tree : TreeKey) (change : Change)
    (cluster key : String) (subs : List Subscription)
    (hdistinct : (subs.map Subscription.feed).Nodup) (feed : FeedKey) (name : String) :
    newsOf? (subs.flatMap (newsFor replicas tree change cluster key)) feed name =
      (subscriptionOf? subs feed).bind fun sub =>
        (sub.resolved.find? name).bind (tells? replicas tree change cluster key sub) := by
  induction subs with
  | nil => rfl
  | cons sub rest ih =>
    rw [List.map_cons] at hdistinct
    obtain ⟨hfirst, hdistinct⟩ := List.nodup_cons.1 hdistinct
    rw [List.flatMap_cons, newsOf?_append, ih hdistinct, newsOf?_newsFor]
    by_cases hf : sub.feed = feed
    · subst hf
      have hlater : subscriptionOf? rest sub.feed = none :=
        List.find?_eq_none.2 fun s hs => by
          simpa using fun he : s.feed = sub.feed => hfirst (he ▸ List.mem_map_of_mem hs)
      rw [if_pos rfl, subscriptionOf?_cons_self, hlater]
      exact Option.or_none
    · rw [if_neg hf, Option.none_or, subscriptionOf?_cons_of_ne (Ne.symm hf)]

theorem nodup_news (replicas : Replicas) (tree : TreeKey) (change : Change)
    (cluster key : String) (subs : List Subscription)
    (hdistinct : (subs.map Subscription.feed).Nodup) :
    ((subs.flatMap (newsFor replicas tree change cluster key)).map
      fun n => (n.1, n.2.1)).Nodup := by
  induction subs with
  | nil => exact List.Pairwise.nil
  | cons sub rest ih =>
    rw [List.map_cons] at hdistinct
    obtain ⟨hfirst, hdistinct⟩ := List.nodup_cons.1 hdistinct
    rw [List.flatMap_cons, List.map_append]
    refine List.nodup_append.2 ⟨?_, ih hdistinct, ?_⟩
    · -- under one feed every name is told once
      rw [newsFor_eq, List.map_map]
      have hnames : ((tellings (tells? replicas tree change cluster key sub)
          sub.resolved.toList).map Prod.fst).Nodup :=
        (tellings_names_sublist _ _).nodup sub.resolved.nodup_keys
      refine List.pairwise_map.2 ((List.pairwise_map.1 hnames).imp fun hne he => ?_)
      exact hne (congrArg Prod.snd he)
    · intro a ha b hb hab
      obtain ⟨x, hx, rfl⟩ := List.mem_map.1 ha
      obtain ⟨y, hy, rfl⟩ := List.mem_map.1 hb
      obtain ⟨s, hs, hy⟩ := List.mem_flatMap.1 hy
      have hxy : x.1 = y.1 := (Prod.mk.inj hab).1
      refine hfirst ?_
      rw [← feed_of_mem_newsFor hx, hxy, feed_of_mem_newsFor hy]
      exact List.mem_map_of_mem hs

theorem payload?_putNews (s : Session) (replicas : Replicas) (tree : TreeKey) (change : Change)
    (cluster key : String) (gone : Bool)
    (hdistinct : (s.subscriptions.map Subscription.feed).Nodup) (feed : FeedKey) (name : String) :
    (putNews key gone (s.subscriptions.flatMap
      (newsFor replicas tree change cluster key))).payload? feed name =
      match s.told? replicas tree change cluster key feed name with
      | some value =>
        if value.isNone = gone then some (.object [(key, Sections.keyEntry value)]) else none
      | none => none := by
  rw [told?, ← newsOf?_flatMap replicas tree change cluster key s.subscriptions hdistinct]
  exact payload?_foldl_putKey key gone _ (nodup_news replicas tree change cluster key _ hdistinct)
    Sections.empty (fun _ _ => rfl) feed name

theorem receiveAll_update (v : View) (body : Sections) {feed : FeedKey} {held : Payloads}
    (hv : v feed = some held) :
    v.receiveAll (messageUnlessEmpty .update body) feed = some fun name =>
      match body.payload? feed name with
      | some news => some (setKeys (held name) news)
      | none => held name := by
  rw [messageUnlessEmpty]
  simp only [Sections.payload?_eq_bind]
  split
  · rename_i hempty
    have hview := Sections.view_of_isEmpty hempty feed
    rw [Sections.view, Option.map_eq_none_iff] at hview
    rw [hview]
    exact hv
  · refine Eq.trans (b := v.receive (body.message .update) feed) rfl ?_
    rw [View.receive, Sections.clusters?_message, hv]
    cases body.sections.find? feed with
    | none => rfl
    | some clusters => exact receiveSection_update held clusters

theorem receiveAll_delete (v : View) (body : Sections) {feed : FeedKey} {held : Payloads}
    (hv : v feed = some held) :
    v.receiveAll (messageUnlessEmpty .delete body) feed = some fun name =>
      match body.payload? feed name with
      | some gone => (held name).map (dropKeys · gone)
      | none => held name := by
  rw [messageUnlessEmpty]
  simp only [Sections.payload?_eq_bind]
  split
  · rename_i hempty
    have hview := Sections.view_of_isEmpty hempty feed
    rw [Sections.view, Option.map_eq_none_iff] at hview
    rw [hview]
    exact hv
  · refine Eq.trans (b := v.receive (body.message .delete) feed) rfl ?_
    rw [View.receive, Sections.clusters?_message, hv]
    cases body.sections.find? feed <;> rfl

/-- A payload after a key was told. -/
def tell (key : String) (held : Option Value) : Option (Option String) → Option Value
  | some (some value) =>
    some (setKeys held (.object [(key, Sections.keyEntry (some value))]))
  | some none => held.map (dropKeys · (.object [(key, Sections.keyEntry none)]))
  | none => held

/-- **What a client holds after a change of a key.** -/
theorem receiveAll_onKeyChange (s : Session) (replicas : Replicas) (tree : TreeKey)
    (change : Change) (cluster key : String)
    (hdistinct : (s.subscriptions.map Subscription.feed).Nodup) {v : View} {feed : FeedKey}
    {held : Payloads} (hv : v feed = some held) :
    v.receiveAll (s.onKeyChange replicas tree change cluster key) feed = some fun name =>
      tell key (held name) (s.told? replicas tree change cluster key feed name) := by
  rw [onKeyChange, View.receiveAll_append, receiveAll_delete _ _ (receiveAll_update v _ hv)]
  congr 1
  funext name
  rw [payload?_putNews s replicas tree change cluster key false hdistinct,
    payload?_putNews s replicas tree change cluster key true hdistinct]
  cases s.told? replicas tree change cluster key feed name with
  | none => rfl
  | some value => cases value <;> rfl

theorem find?_foldl_putKey_other (key : String) (gone : Bool) {feed : FeedKey}
    (news : List (FeedKey × String × Option String)) (hother : ∀ n ∈ news, feed ≠ n.1)
    (body : Sections) :
    (news.foldl (fun body n =>
      if n.2.2.isNone = gone then body.putKey n.1 n.2.1 key n.2.2 else body)
        body).sections.find? feed = body.sections.find? feed := by
  induction news generalizing body with
  | nil => rfl
  | cons n rest ih =>
    rw [List.foldl_cons, ih fun x hx => hother x (List.mem_cons_of_mem _ hx)]
    split
    · exact Sections.find?_putKey_other body (hother n List.mem_cons_self) _ _ _
    · rfl

/-- A feed that is not subscribed to is not heard of. -/
theorem receiveAll_onKeyChange_other (s : Session) (replicas : Replicas) (tree : TreeKey)
    (change : Change) (cluster key : String) (v : View) {feed : FeedKey}
    (hfeed : subscriptionOf? s.subscriptions feed = none) :
    v.receiveAll (s.onKeyChange replicas tree change cluster key) feed = v feed := by
  have hnews : ∀ n ∈ s.subscriptions.flatMap (newsFor replicas tree change cluster key),
      feed ≠ n.1 := by
    intro n hn he
    obtain ⟨sub, hsub, hn⟩ := List.mem_flatMap.1 hn
    have := List.find?_eq_none.1 hfeed sub hsub
    rw [feed_of_mem_newsFor hn] at he
    simp [he] at this
  have hsections : ∀ gone, (putNews key gone (s.subscriptions.flatMap
      (newsFor replicas tree change cluster key))).sections.find? feed = none :=
    fun gone => find?_foldl_putKey_other key gone _ hnews Sections.empty
  have hmessage : ∀ (w : View) kind gone, w.receiveAll (messageUnlessEmpty kind (putNews key gone
      (s.subscriptions.flatMap (newsFor replicas tree change cluster key)))) feed = w feed := by
    intro w kind gone
    rw [messageUnlessEmpty]
    split
    · rfl
    · refine Eq.trans (b := w.receive _ feed) rfl ?_
      rw [View.receive, Sections.clusters?_message, hsections]
  rw [onKeyChange, View.receiveAll_append, hmessage, hmessage]

end Session

end Treecast
