import Treecast.Proofs.InStep

/-!
# Sessions keep their clients in step

A session and what its client holds are in step (`Synced`) when every subscription is, and what
is known of the caller is.  Replicas may move on, and entries, gaps and the end of a log may come,
in any order: each step keeps this.  When nothing is unread any more the client holds what a new
session would send.

## Results

* `Synced.advance`: replicas move on.
* `Synced.onKeyChange`, `Synced.onMetadataChange`, `Synced.resync`: the session reads on.
* `synced_start`: a new session.
* `Synced.view_eq`: a client that nothing is kept from holds what a new session would send.
-/

set_option autoImplicit false

namespace Treecast

open Routing
open Json (Value)

/-! ## The caller -/

/-- What a session knows of its caller is in step: it is what the caller's own tree says, unless a
change of the caller's cluster is still unread. -/
structure CallerInStep (policy : Policy) (replicas : Replicas) (unread : TreeKey → List Change)
    (s : Session) : Prop where
  seen_le : ∀ tree caller, s.callerTree = some tree → s.caller = some caller →
    s.callerSeen ≤ (replicas tree).revision
  route : ∀ tree caller, s.callerTree = some tree → s.caller = some caller →
    Settled (unread tree) (fun level => level = .cluster caller.cluster) s.callerSeen →
    s.callerRoute = Session.callerOn policy replicas s.callerTree s.caller
  absent : s.callerTree = none ∨ s.caller = none → s.callerRoute = none

/-- What is read of the log of `tree`, and `change` with it, is not unread any more. -/
structure Taken (unread unread' : TreeKey → List Change) (tree : TreeKey) (change : Change) :
    Prop where
  here : unread tree = change :: unread' tree
  elsewhere : ∀ other, other ≠ tree → unread other = unread' other

variable {policy : Policy} {replicas replicas' : Replicas} {unread unread' : TreeKey → List Change}
  {s : Session} {view : View} {tree : TreeKey} {change : Change}

theorem Taken.settled (ht : Taken unread unread' tree change) {other : TreeKey}
    {places : Level → Prop} {seen : Nat} (h : Settled (unread' other) places seen)
    (hchange : other = tree → places change.level → change.revision ≤ seen) :
    Settled (unread other) places seen := by
  by_cases ho : other = tree
  · subst ho
    rw [ht.here]
    exact h.cons (hchange rfl)
  · rwa [ht.elsewhere other ho]

theorem Taken.here_or_elsewhere (ht : Taken unread unread' tree change) (other : TreeKey) :
    other = tree ∧ unread other = change :: unread' other ∨
      other ≠ tree ∧ unread other = unread' other := by
  by_cases ho : other = tree
  · subst ho
    exact .inl ⟨rfl, ht.here⟩
  · exact .inr ⟨ho, ht.elsewhere other ho⟩

namespace CallerInStep

theorem advance (h : CallerInStep policy replicas unread s)
    (ha : ∀ tree, Advanced (replicas tree) (unread tree) (replicas' tree) (unread' tree))
    (hs : ∀ tree, (replicas tree).AllSeen) (hs' : ∀ tree, (replicas' tree).AllSeen) :
    CallerInStep policy replicas' unread' s := by
  refine ⟨fun tree caller ht hc => ?_, fun tree caller ht hc hsettled => ?_, h.absent⟩
  · exact Nat.le_trans (h.seen_le tree caller ht hc) (ha tree).revision_le
  · obtain ⟨hbefore, hsame⟩ := (ha tree).settled (h.seen_le tree caller ht hc) hsettled
    rw [h.route tree caller ht hc hbefore, ht, hc, Session.callerOn, Session.callerOn]
    exact congrArg some
      (CallerRoute.ofReplica_congr (hs tree) (hs' tree) caller (hsame _ rfl))

/-- A change that does not concern the caller is read. -/
theorem skip (h : CallerInStep policy replicas unread s) (ht : Taken unread unread' tree change)
    (hout : s.concernsCaller tree change = false) :
    CallerInStep policy replicas unread' s := by
  refine ⟨h.seen_le, fun other caller htree hcaller hsettled => ?_, h.absent⟩
  refine h.route other caller htree hcaller (ht.settled hsettled ?_)
  rintro rfl hlevel
  simpa [Session.concernsCaller, htree, hcaller, hlevel] using hout

/-- A caller whose tree was read anew is in step, whatever is unread. -/
theorem readCaller (habsent : s.callerTree = none ∨ s.caller = none → s.callerRoute = none) :
    CallerInStep policy replicas unread (s.readCaller replicas policy) := by
  obtain ⟨-, hcaller, htree, -⟩ := s.readCaller_keeps replicas policy
  have hroute := s.callerRoute_readCaller replicas policy
  refine ⟨fun tree caller ht hc => ?_, fun tree caller ht hc _ => ?_, fun h => ?_⟩
  · rw [htree] at ht
    rw [hcaller] at hc
    simp only [Session.readCaller, ht, hc]
    exact Nat.le_refl _
  · rw [hroute, ht, hc, ← htree, ← hcaller, ht, hc]
    rfl
  · rw [htree, hcaller] at h
    have hnone : Session.callerOn policy replicas s.callerTree s.caller = none := by
      unfold Session.callerOn
      split
      · rename_i htree hcaller
        rcases h with h | h
        · rw [h] at htree
          cases htree
        · rw [h] at hcaller
          cases hcaller
      · rfl
    rw [hroute, habsent h, hnone]
    rfl

end CallerInStep

/-! ## The invariant -/

/-- A session and what its client holds are in step with what the session has read. -/
structure Synced (policy : Policy) (replicas : Replicas) (unread : TreeKey → List Change)
    (s : Session) (view : View) : Prop where
  distinct : (s.subscriptions.map Subscription.feed).Nodup
  caller : CallerInStep policy replicas unread s
  subscriptions : ∀ sub ∈ s.subscriptions,
    sub.InStep (replicas sub.tree) (unread sub.tree) (s.viewpoint policy) view
  others : ∀ feed, Session.subscriptionOf? s.subscriptions feed = none → view feed = none

/-- **Replicas move on.** -/
theorem Synced.advance (h : Synced policy replicas unread s view)
    (ha : ∀ tree, Advanced (replicas tree) (unread tree) (replicas' tree) (unread' tree))
    (hs : ∀ tree, (replicas tree).AllSeen) (hs' : ∀ tree, (replicas' tree).AllSeen) :
    Synced policy replicas' unread' s view :=
  ⟨h.distinct, h.caller.advance ha hs hs',
    fun sub hsub => (h.subscriptions sub hsub).advance (ha sub.tree) (hs _) (hs' _), h.others⟩

/-! ## Reading on -/

theorem Session.subscriptionOf?_of_mem {subs : List Subscription}
    (hdistinct : (subs.map Subscription.feed).Nodup) {sub : Subscription} (hsub : sub ∈ subs) :
    subscriptionOf? subs sub.feed = some sub := by
  induction subs with
  | nil => cases hsub
  | cons first rest ih =>
    rw [List.map_cons] at hdistinct
    obtain ⟨hfirst, hdistinct⟩ := List.nodup_cons.1 hdistinct
    rcases List.mem_cons.1 hsub with rfl | hsub
    · exact subscriptionOf?_cons_self _ _
    · have hne : sub.feed ≠ first.feed := fun he => hfirst (he ▸ List.mem_map_of_mem hsub)
      rw [subscriptionOf?_cons_of_ne hne]
      exact ih hdistinct hsub

/-- What a client holds of a subscription after a change of a key. -/
theorem Session.view_onKeyChange (hdistinct : (s.subscriptions.map Subscription.feed).Nodup)
    {sub : Subscription} (hsub : sub ∈ s.subscriptions) (replicas : Replicas) (tree : TreeKey)
    (change : Change) (cluster key : String) {held : Payloads} (hheld : view sub.feed = some held) :
    view.receiveAll (s.onKeyChange replicas tree change cluster key) sub.feed =
      some fun name => Session.tell key (held name) ((sub.resolved.find? name).bind
        (Session.tells? replicas tree change cluster key sub)) := by
  rw [s.receiveAll_onKeyChange replicas tree change cluster key hdistinct hheld]
  simp only [Session.told?, subscriptionOf?_of_mem hdistinct hsub, Option.bind_some]

/-- Of a subscription to another tree nothing is said. -/
theorem Session.view_onKeyChange_elsewhere
    (hdistinct : (s.subscriptions.map Subscription.feed).Nodup) {sub : Subscription}
    (hsub : sub ∈ s.subscriptions) (replicas : Replicas) (change : Change) (cluster key : String)
    (htree : sub.tree ≠ tree) (hheld : (view sub.feed).isSome) :
    view.receiveAll (s.onKeyChange replicas tree change cluster key) sub.feed = view sub.feed := by
  obtain ⟨held, hheld⟩ := Option.isSome_iff_exists.1 hheld
  have htells : Session.tells? replicas tree change cluster key sub = fun _ => none := by
    funext clusters
    simp [Session.tells?, Session.hears, htree]
  rw [view_onKeyChange hdistinct hsub replicas tree change cluster key hheld, hheld, htells]
  congr 1
  funext name
  cases sub.resolved.find? name <;> rfl

/-- **A change of a key is read.** -/
theorem Synced.onKeyChange (h : Synced policy replicas unread s view)
    (hp : ∀ tree, Pending (replicas tree) (unread tree)) (ht : Taken unread unread' tree change)
    {cluster key : String} (hlevel : change.level = .key cluster key) :
    Synced policy replicas unread' s
      (view.receiveAll (s.onKeyChange replicas tree change cluster key)) := by
  have hcaller : s.concernsCaller tree change = false := by
    simp [Session.concernsCaller, hlevel]
  refine ⟨h.distinct, h.caller.skip ht hcaller, fun sub hsub => ?_, fun feed hfeed => ?_⟩
  · have hstep := h.subscriptions sub hsub
    rcases ht.here_or_elsewhere sub.tree with ⟨htree, hhere⟩ | ⟨htree, hsame⟩
    · rw [htree] at hstep hhere ⊢
      rw [hhere] at hstep
      exact hstep.told htree (hhere ▸ hp tree) hlevel fun held =>
        Session.view_onKeyChange h.distinct hsub replicas tree change cluster key
    · rw [← hsame]
      obtain ⟨held, hheld, -⟩ := hstep.shown
      exact hstep.of_view (Session.view_onKeyChange_elsewhere h.distinct hsub replicas change
        cluster key htree (Option.isSome_of_eq_some hheld))
  · rw [s.receiveAll_onKeyChange_other replicas tree change cluster key view hfeed]
    exact h.others feed hfeed

/-! ## Sending in full -/

section SendingInFull

variable {g : Subscription → Subscription × Bool} {x : Session}

theorem feeds_map (hfeed : ∀ sub, (g sub).1.feed = sub.feed) (subs : List Subscription) :
    (subs.map fun sub => (g sub).1).map Subscription.feed = subs.map Subscription.feed := by
  rw [List.map_map]
  exact List.map_congr_left fun sub _ => hfeed sub

theorem subscriptionOf?_map (hfeed : ∀ sub, (g sub).1.feed = sub.feed) (subs : List Subscription)
    (feed : FeedKey) : Session.subscriptionOf? (subs.map fun sub => (g sub).1) feed =
      (Session.subscriptionOf? subs feed).map fun sub => (g sub).1 := by
  rw [Session.subscriptionOf?, List.find?_map]
  simp only [Function.comp_def, hfeed]
  rfl

/-- **Subscriptions that are handled one after another.**  What holds of each once it is handled, if
its client gets it in full or holds what it held of it, holds of all of them. -/
theorem forall_visited (view : View) {P : TreeKey → Subscription → View → Prop}
    {subs : List Subscription} (hfeed : ∀ sub, (g sub).1.feed = sub.feed)
    (hdistinct : (subs.map Subscription.feed).Nodup)
    (hsubs : ∀ sub ∈ subs, ∀ view' : View,
      (view' sub.feed = if (g sub).2 then some ((g sub).1.fullSection (replicas sub.tree))
        else view sub.feed) → P sub.tree (g sub).1 view') :
    let visited := Session.visit (Session.redump replicas g) subs Sections.empty
    (visited.1.map Subscription.feed).Nodup ∧ ∀ sub ∈ visited.1,
      P sub.tree sub (view.receiveAll (Session.messageUnlessEmpty .all visited.2)) := by
  intro visited
  have hfirst : visited.1 = subs.map fun sub => (g sub).1 := Session.visit_redump_fst _ _
  rw [hfirst]
  refine ⟨by rwa [feeds_map hfeed], fun sub' hsub' => ?_⟩
  obtain ⟨sub, hsub, rfl⟩ := List.mem_map.1 hsub'
  rw [show (g sub).1.tree = sub.tree from congrArg FeedKey.tree (hfeed sub)]
  refine hsubs sub hsub _ ?_
  rw [Session.receiveAll_all, Session.visit_redump_view hfeed _ hdistinct Sections.empty
    fun _ _ => rfl, Session.subscriptionOf?_of_mem hdistinct hsub]
  dsimp only
  split <;> rfl

/-- **A session whose subscriptions are handled one after another** is in step if each of them is:
those that are sent in full, and the others with what the client held of them. -/
theorem Synced.redump (hfeed : ∀ sub, (g sub).1.feed = sub.feed)
    (hdistinct : (x.subscriptions.map Subscription.feed).Nodup)
    (hothers : ∀ feed, Session.subscriptionOf? x.subscriptions feed = none → view feed = none)
    (hcaller : CallerInStep policy replicas unread x)
    (hsubs : ∀ sub ∈ x.subscriptions, ∀ view' : View,
      (view' sub.feed = if (g sub).2 then some ((g sub).1.fullSection (replicas sub.tree))
        else view sub.feed) →
      (g sub).1.InStep (replicas sub.tree) (unread sub.tree) (x.viewpoint policy) view') :
    let visited := Session.visit (Session.redump replicas g) x.subscriptions Sections.empty
    Synced policy replicas unread { x with subscriptions := visited.1 }
      (view.receiveAll (Session.messageUnlessEmpty .all visited.2)) := by
  intro visited
  obtain ⟨hdistinct', hinStep⟩ := forall_visited view (P := fun tree sub view' =>
    sub.InStep (replicas tree) (unread tree) (x.viewpoint policy) view') hfeed hdistinct hsubs
  refine ⟨hdistinct', ⟨hcaller.seen_le, hcaller.route, hcaller.absent⟩, hinStep,
    fun feed hnone => ?_⟩
  rw [show visited.1 = x.subscriptions.map fun sub => (g sub).1 from
    Session.visit_redump_fst _ _, subscriptionOf?_map hfeed, Option.map_eq_none_iff] at hnone
  rw [Session.receiveAll_all, Session.visit_redump_view hfeed _ hdistinct Sections.empty
    fun _ _ => rfl, hnone]
  exact hothers feed hnone

end SendingInFull

/-- **A change of metadata is read.** -/
theorem Synced.onMetadataChange (h : Synced policy replicas unread s view)
    (hp : ∀ tree, Pending (replicas tree) (unread tree)) (ht : Taken unread unread' tree change)
    (hstructural : change.level.isStructural = true) :
    Synced policy replicas unread' (s.onMetadataChange replicas policy tree change).1
      (view.receiveAll (s.onMetadataChange replicas policy tree change).2) := by
  rw [Session.onMetadataChange_eq]
  dsimp only
  generalize hx : (if s.concernsCaller tree change = true then s.readCaller replicas policy
    else s) = x
  obtain ⟨hmode, -, -, hsubs⟩ := s.readCaller_keeps_if replicas policy hx
  have hcaller : CallerInStep policy replicas unread' x := by
    rw [← hx]
    split
    · exact .readCaller h.caller.absent
    · rename_i hout
      exact h.caller.skip ht (Bool.eq_false_iff.2 hout)
  have hroute : s.concernsCaller tree change = false → x.callerRoute = s.callerRoute := by
    intro hout
    rw [← hx, hout]
    rfl
  refine Synced.redump
    (fun sub => Subscription.feed_of_origin (Session.origin_reconsidered _ _ _ _ _ sub))
    (hsubs ▸ h.distinct)
    (hsubs ▸ h.others) hcaller fun sub hsub view' hview' => ?_
  rw [hsubs] at hsub
  refine (h.subscriptions sub hsub).reconsidered (hp sub.tree) hstructural ?_ hmode rfl hroute
    hview'
  exact ht.here_or_elsewhere sub.tree

/-- **A gap is read**: whatever the log lost, what depends on its tree is sent in full. -/
theorem Synced.resync (h : Synced policy replicas unread s view)
    (hp : ∀ tree, Pending (replicas tree) (unread tree))
    (helsewhere : ∀ other, other ≠ tree → unread other = unread' other) :
    Synced policy replicas unread' (s.resync replicas policy tree).1
      (view.receiveAll (s.resync replicas policy tree).2) := by
  rw [Session.resync_eq]
  dsimp only
  generalize hx : (if s.callerTree = some tree then s.readCaller replicas policy else s) = x
  obtain ⟨hmode, -, -, hsubs⟩ := s.readCaller_keeps_if replicas policy hx
  have hcaller : CallerInStep policy replicas unread' x := by
    rw [← hx]
    split
    · exact .readCaller h.caller.absent
    · rename_i hout
      refine ⟨h.caller.seen_le, fun other caller htree hcaller hsettled => ?_, h.caller.absent⟩
      refine h.caller.route other caller htree hcaller ?_
      rwa [helsewhere other fun he => hout (he ▸ htree)]
  have hroute : decide (s.callerTree = some tree) = false → x.callerRoute = s.callerRoute := by
    intro hout
    rw [← hx, if_neg (of_decide_eq_false hout)]
  refine Synced.redump
    (fun sub => Subscription.feed_of_origin (Session.origin_resent _ _ _ _ _ sub))
    (hsubs ▸ h.distinct)
    (hsubs ▸ h.others) hcaller fun sub hsub view' hview' => ?_
  rw [hsubs] at hsub
  exact (h.subscriptions sub hsub).resent (hp sub.tree).seen (helsewhere sub.tree) hmode rfl hroute
    hview'

/-! ## From the start -/

/-- What a session was started for, which does not change while it runs. -/
structure Serves (request : Request) (mode : RouteMode) (caller : Option Caller) (s : Session) :
    Prop where
  mode_eq : s.mode = mode
  caller_eq : s.caller = caller
  callerTree_eq : s.callerTree = Session.callerTreeOf request mode caller
  served : s.subscriptions.map Subscription.origin = Session.subscriptionsOf request

variable {request : Request} {mode : RouteMode} {caller : Option Caller}

theorem nodup_subscriptionsOf (request : Request) :
    ((Session.subscriptionsOf request).map Subscription.feed).Nodup := by
  rw [Session.subscriptionsOf, List.map_map]
  exact request.selections.nodup_keys

theorem receiveAll_empty (body : Sections) :
    View.empty.receiveAll (Session.messageUnlessEmpty .all body) =
      View.ofMessage (body.message .all) := by
  funext feed
  rw [Session.receiveAll_all, Sections.ofMessage_message]
  exact Option.or_none

/-- **A new session is in step**, whatever is unread. -/
theorem synced_start (request : Request) (mode : RouteMode) (caller : Option Caller)
    (policy : Policy) (replicas : Replicas) (unread : TreeKey → List Change) :
    let started := Session.start request mode caller policy replicas
    Synced policy replicas unread started.1 (View.ofMessage (started.2.message .all)) := by
  rw [Session.start_eq]
  dsimp only
  rw [← receiveAll_empty]
  have hsubs := (Session.readCaller_keeps (.unstarted request mode caller) replicas policy).2.2.2
  refine Synced.redump (fun _ => rfl) ?_ (fun _ _ => rfl) (.readCaller fun _ => rfl)
    fun sub _ view' hview' => Subscription.inStep_inFull sub hview'
  rw [hsubs]
  exact nodup_subscriptionsOf request

theorem serves_start (request : Request) (mode : RouteMode) (caller : Option Caller)
    (policy : Policy) (replicas : Replicas) :
    Serves request mode caller (Session.start request mode caller policy replicas).1 := by
  obtain ⟨hmode, hcaller, htree, hsubs⟩ :=
    Session.readCaller_keeps (.unstarted request mode caller) replicas policy
  rw [Session.start_eq]
  refine ⟨hmode, hcaller, htree, ?_⟩
  dsimp only
  rw [Session.visit_redump_fst, hsubs, List.map_map]
  refine (List.map_congr_left fun sub hsub => ?_).trans (List.map_id _)
  obtain ⟨e, -, rfl⟩ := List.mem_map.1 hsub
  rfl

/-- Handling the subscriptions one after another does not change what they were created for. -/
theorem Serves.redump (h : Serves request mode caller s) {x : Session}
    (hx : x.mode = s.mode ∧ x.caller = s.caller ∧ x.callerTree = s.callerTree ∧
      x.subscriptions = s.subscriptions) {g : Subscription → Subscription × Bool}
    (horigin : ∀ sub, (g sub).1.origin = sub.origin) (body : Sections) :
    Serves request mode caller { x with
      subscriptions := (Session.visit (Session.redump replicas g) x.subscriptions body).1 } := by
  obtain ⟨hmode, hcaller, htree, hsubs⟩ := hx
  refine ⟨hmode.trans h.mode_eq, hcaller.trans h.caller_eq, htree.trans h.callerTree_eq, ?_⟩
  dsimp only
  rw [Session.visit_redump_fst, hsubs, List.map_map, ← h.served]
  exact List.map_congr_left fun sub _ => horigin sub

theorem Serves.react (h : Serves request mode caller s) (replicas : Replicas) (policy : Policy)
    (tree : TreeKey) (unread : Holder.Unread) :
    Serves request mode caller (s.react replicas policy tree unread).session := by
  have hmetadata : ∀ change,
      Serves request mode caller (s.onMetadataChange replicas policy tree change).1 := by
    intro change
    rw [Session.onMetadataChange_eq]
    exact h.redump (s.readCaller_keeps_if replicas policy rfl)
      (fun sub => Session.origin_reconsidered _ _ _ _ _ sub) _
  unfold Session.react
  split
  · rw [Session.resync_eq]
    exact h.redump (s.readCaller_keeps_if replicas policy rfl)
      (fun sub => Session.origin_resent _ _ _ _ _ sub) _
  · exact h
  · exact h
  · split
    · exact h
    · exact hmetadata _

/-- **Whatever a session reads** keeps what is kept by changes of keys, changes of metadata and
gaps. -/
theorem Session.react_keeps {P : (TreeKey → List Change) → Session → View → Prop}
    (hP : P unread s view) {read : Holder.Unread}
    (hhere : ∀ e, read = .entry e → unread tree = e.change?.toList ++ unread' tree)
    (helsewhere : ∀ other, other ≠ tree → unread other = unread' other)
    (hkey : ∀ change cluster key, Taken unread unread' tree change →
      change.level = .key cluster key →
      P unread' s (view.receiveAll (s.onKeyChange replicas tree change cluster key)))
    (hmetadata : ∀ change, Taken unread unread' tree change → change.level.isStructural = true →
      P unread' (s.onMetadataChange replicas policy tree change).1
        (view.receiveAll (s.onMetadataChange replicas policy tree change).2))
    (hgap : P unread' (s.resync replicas policy tree).1
      (view.receiveAll (s.resync replicas policy tree).2)) :
    P unread' (s.react replicas policy tree read).session
      (view.receiveAll (s.react replicas policy tree read).messages) := by
  have hquiet : unread tree = unread' tree → P unread' s view := by
    intro hsame
    have hall : unread = unread' := by
      funext other
      by_cases ho : other = tree
      · rw [ho, hsame]
      · exact helsewhere other ho
    rwa [← hall]
  cases read with
  | lagged lost => exact hgap
  | entry e =>
    have hhere := hhere e rfl
    cases e with
    | connection state => exact hquiet hhere
    | closed => exact hquiet hhere
    | changed change =>
      have ht : Taken unread unread' tree change := ⟨hhere, helsewhere⟩
      unfold Session.react
      dsimp only
      split
      · exact hkey change _ _ ht ‹_›
      · refine hmetadata change ht ?_
        cases hlevel : change.level with
        | key cluster key => exact absurd hlevel (by rename_i hno; exact hno cluster key)
        | _ => rfl

/-- **Whatever a session reads, it keeps its client in step.** -/
theorem Synced.react (h : Synced policy replicas unread s view)
    (hp : ∀ tree, Pending (replicas tree) (unread tree)) {read : Holder.Unread}
    (hhere : ∀ e, read = .entry e → unread tree = e.change?.toList ++ unread' tree)
    (helsewhere : ∀ other, other ≠ tree → unread other = unread' other) :
    Synced policy replicas unread' (s.react replicas policy tree read).session
      (view.receiveAll (s.react replicas policy tree read).messages) :=
  Session.react_keeps (P := Synced policy replicas) h hhere helsewhere
    (fun _ _ _ ht hlevel => h.onKeyChange hp ht hlevel)
    (fun _ ht hstructural => h.onMetadataChange hp ht hstructural) (h.resync hp helsewhere)

theorem mem_treesOf (sub : Subscription) (h : sub ∈ Session.subscriptionsOf request) :
    sub.tree ∈ Session.treesOf request mode caller := by
  have hsub : sub.tree ∈ (Session.subscriptionsOf request).map Subscription.tree :=
    List.mem_map_of_mem h
  unfold Session.treesOf
  dsimp only
  split
  · exact SortedSet.mem_elements_add.2 (.inr (SortedSet.mem_elements_ofElements.2 hsub))
  · exact SortedSet.mem_elements_ofElements.2 hsub

theorem callerTree_mem_treesOf {tree : TreeKey}
    (h : Session.callerTreeOf request mode caller = some tree) :
    tree ∈ Session.treesOf request mode caller := by
  rw [Session.treesOf, h]
  exact SortedSet.mem_elements_add.2 (.inl rfl)

/-- With nothing unread, what is known of the caller is what a new session would find. -/
theorem CallerInStep.route_eq (h : CallerInStep policy replicas unread s)
    (hunread : ∀ tree, unread tree = []) (hs : ∀ tree, (replicas tree).AllSeen)
    (hsame : ∀ tree, s.callerTree = some tree → (replicas' tree).AllSeen ∧
      ∀ level, (replicas tree).value? level = (replicas' tree).value? level) :
    s.callerRoute = Session.callerOn policy replicas' s.callerTree s.caller := by
  cases htree : s.callerTree with
  | none => exact h.absent (.inl htree)
  | some tree =>
    cases hcaller : s.caller with
    | none => exact h.absent (.inr hcaller)
    | some caller =>
      obtain ⟨hs', hsame⟩ := hsame tree htree
      rw [h.route tree caller htree hcaller (hunread tree ▸ .nil _ _), htree, hcaller]
      exact congrArg some (CallerRoute.ofReplica_congr (hs tree) hs' caller (hsame _))

/-- **A client that nothing is kept from holds what a new session would send**, on these replicas
or on others with the same values. -/
theorem Synced.view_eq (h : Synced policy replicas unread s view)
    (hserves : Serves request mode caller s) (hunread : ∀ tree, unread tree = [])
    (hs : ∀ tree, (replicas tree).AllSeen)
    (hsame : ∀ tree ∈ Session.treesOf request mode caller, (replicas' tree).AllSeen ∧
      ∀ level, (replicas tree).value? level = (replicas' tree).value? level) :
    view = View.ofMessage
      ((Session.start request mode caller policy replicas').2.message .all) := by
  have hroute := h.caller.route_eq hunread hs fun tree htree =>
    hsame tree (callerTree_mem_treesOf (hserves.callerTree_eq.symm.trans htree))
  have hsubs := (Session.readCaller_keeps (.unstarted request mode caller) replicas' policy).2.2.2
  have hdistinct : ((Session.unstarted request mode caller).subscriptions.map
    Subscription.feed).Nodup := nodup_subscriptionsOf request
  funext feed
  rw [Sections.ofMessage_message, Session.start_eq]
  dsimp only
  rw [Session.viewpoint_unstarted, hsubs,
    Session.visit_redump_view (fun _ => rfl) _ hdistinct _ fun _ _ => rfl]
  rw [show (Session.unstarted request mode caller).subscriptions =
      s.subscriptions.map Subscription.origin from hserves.served.symm,
    subscriptionOf?_map (g := fun sub => (sub.origin, true)) fun _ => rfl]
  cases hfind : Session.subscriptionOf? s.subscriptions feed with
  | none => exact h.others feed hfind
  | some sub =>
    obtain rfl : sub.feed = feed := by simpa using List.find?_some hfind
    have hsub := List.mem_of_find?_eq_some hfind
    have hstep := h.subscriptions sub hsub
    rw [hunread] at hstep
    have hmem : sub.origin ∈ Session.subscriptionsOf request :=
      hserves.served ▸ List.mem_map_of_mem hsub
    obtain ⟨hs', hsame⟩ := hsame _ (mem_treesOf sub.origin hmem)
    rw [hserves.callerTree_eq, hserves.caller_eq] at hroute
    exact hstep.view_eq (hs _) hs' hsame hserves.mode_eq.symm rfl hroute.symm

end Treecast
