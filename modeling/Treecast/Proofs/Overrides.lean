import Treecast.Proofs.Convergence
import Treecast.Proofs.Pins

/-!
# Pins override routing

A session keeps its client up to date under the names that it pinned, whatever becomes of the
policy: a name that is resolved anew is served by the same cluster, and what changes in the cluster
is told or sent in full (`Subscription.KeepsPins`).  Nothing else is known of the session here, so
every act of a run may find another policy in force (`World.runUnder`), which metadata of routing,
callers and modes depend on.

## Results

* `Session.KeepsPins.react`: whatever a session reads, it keeps its pins.
* `World.upholds_kept`: so does the session of a world.
* `World.own_run`: under a pinned name the client of a run, hijacked or not, is shown the cluster's
  own data, in every `all` and once the changes of the tree are handled.
-/

set_option autoImplicit false

namespace Treecast

open Routing
open Json (Value)

/-! ## Subscriptions -/

namespace Subscription

/-- Under every pinned name of a subscription its client is shown what the cluster has by itself,
but for what is still unread. -/
structure KeepsPins (s : Subscription) (r : Replica) (unread : List Change) (view : View) :
    Prop where
  seen_le : s.seen ≤ r.revision
  held : (view s.feed).isSome
  resolved : ∀ name target, s.selection.Pins name target → s.resolved.find? name = some [target]
  shown : ∀ name target, s.selection.Pins name target →
    s.UpToDate r unread [target] (view.under s.feed name)

variable {s : Subscription} {r r' : Replica} {unread unread' rest : List Change} {change : Change}
  {view view' : View}

/-- A subscription that was sent in full keeps its pins, whatever is unread. -/
theorem keepsPins_inFull {replicas : Replicas} {v : Viewpoint} (sub : Subscription)
    (hview : view sub.feed =
      some ((Session.inFull replicas v sub).fullSection (replicas sub.tree))) :
    (Session.inFull replicas v sub).KeepsPins (replicas sub.tree) unread view := by
  have hresolved : ∀ name target, sub.selection.Pins name target →
      (Session.inFull replicas v sub).resolved.find? name = some [target] :=
    fun name target hpins => find?_resolve_of_pins hpins (replicas sub.tree) v
  refine ⟨Nat.le_refl _, Option.isSome_of_eq_some hview, hresolved, fun name target hpins => ?_⟩
  have hunder : view.under sub.feed name =
      some ((Session.inFull replicas v sub).payload (replicas sub.tree) [target]) := by
    rw [View.under, hview, Option.bind_some, fullSection, hresolved name target hpins]
    rfl
  rw [show (Session.inFull replicas v sub).feed = sub.feed from rfl, hunder]
  exact upToDate_payload _ _ _ _

theorem KeepsPins.advance (h : s.KeepsPins r unread view) (ha : Advanced r unread r' unread')
    (hs : r.AllSeen) (hs' : r'.AllSeen) : s.KeepsPins r' unread' view :=
  ⟨Nat.le_trans h.seen_le ha.revision_le, h.held, h.resolved, fun name target hpins =>
    (h.shown name target hpins).advance h.seen_le ha hs hs'⟩

theorem KeepsPins.of_view (h : s.KeepsPins r unread view) (hview : view' s.feed = view s.feed) :
    s.KeepsPins r unread view' := by
  refine ⟨h.seen_le, by rw [hview]; exact h.held, h.resolved, fun name target hpins => ?_⟩
  rw [View.under, hview]
  exact h.shown name target hpins

/-- A change is read without anything being said. -/
theorem KeepsPins.read (h : s.KeepsPins r (change :: rest) view) (hp : Pending r (change :: rest))
    {seen : Nat} (hle : s.seen ≤ seen) (hseen : seen ≤ max s.seen change.revision)
    (hchange : ∀ name target, s.selection.Pins name target → ∀ key,
      s.Reads [target] key change.level → change.revision ≤ s.seen) :
    ({ s with seen } : Subscription).KeepsPins r rest view := by
  have hbound := hp.bounded change List.mem_cons_self
  have hseenLe := h.seen_le
  refine ⟨?_, h.held, h.resolved, fun name target hpins => ?_⟩
  · dsimp only
    omega
  · exact (h.shown name target hpins).read hp.newer hle hseen (hchange name target hpins)

/-- A change of a key is told under the pinned names that it concerns. -/
theorem KeepsPins.told {replicas : Replicas} {tree : TreeKey} (htree : s.tree = tree)
    (h : s.KeepsPins (replicas tree) (change :: rest) view)
    (hp : Pending (replicas tree) (change :: rest)) {cluster key : String}
    (hlevel : change.level = .key cluster key)
    (hview : ∀ held, view s.feed = some held → view' s.feed = some fun name =>
      Session.tell key (held name) ((s.resolved.find? name).bind
        (Session.tells? replicas tree change cluster key s))) :
    s.KeepsPins (replicas tree) rest view' := by
  obtain ⟨held, hheld⟩ := Option.isSome_iff_exists.1 h.held
  refine ⟨h.seen_le, Option.isSome_of_eq_some (hview held hheld), h.resolved,
    fun name target hpins => ?_⟩
  have hshown := h.shown name target hpins
  rw [View.under, hheld] at hshown
  rw [View.under, hview held hheld, Option.bind_some]
  dsimp only
  rw [h.resolved name target hpins]
  exact hshown.told htree hp hlevel

/-- A change that is covered, or is of another tree, keeps the pins. -/
theorem KeepsPins.pass {tree : TreeKey} {before after : List Change} (h : s.KeepsPins r before view)
    (hp : Pending r before)
    (hread : s.tree = tree ∧ before = change :: after ∨ s.tree ≠ tree ∧ before = after)
    (hcovered : s.tree = tree → change.revision ≤ s.seen) : s.KeepsPins r after view := by
  rcases hread with ⟨htree, rfl⟩ | ⟨-, rfl⟩
  · exact h.read hp (Nat.le_refl _) (Nat.le_max_left _ _) fun _ _ _ _ _ => hcovered htree
  · exact h

/-- **A change of metadata keeps the pins**, whatever it does to other names and however names are
read by now. -/
theorem KeepsPins.reconsidered {replicas : Replicas} {v : Viewpoint} {tree : TreeKey}
    {callerMoved : Bool} {before after : List Change}
    (h : s.KeepsPins (replicas s.tree) before view) (hp : Pending (replicas s.tree) before)
    (hstructural : change.level.isStructural = true)
    (hread : s.tree = tree ∧ before = change :: after ∨ s.tree ≠ tree ∧ before = after)
    (hview : view' s.feed =
      if (Session.reconsidered replicas v tree change callerMoved s).2 then
        some ((Session.reconsidered replicas v tree change callerMoved s).1.fullSection
          (replicas s.tree))
      else view s.feed) :
    (Session.reconsidered replicas v tree change callerMoved s).1.KeepsPins (replicas s.tree) after
      view' := by
  rcases Session.reconsidered_inv replicas v tree change callerMoved s with
    hfull | ⟨hbound, -, htouched, hseen⟩ | ⟨hbound, -, hsame⟩
  · rw [hfull] at hview ⊢
    exact keepsPins_inFull s hview
  · rw [hseen] at hview ⊢
    rcases hread with ⟨-, rfl⟩ | ⟨htree, -⟩
    · refine KeepsPins.of_view ?_ hview
      refine h.read hp (Nat.le_max_left _ _) (Nat.le_refl _) fun name target hpins key hreads => ?_
      -- the cluster's descriptive fields would have been sent anew
      rw [touchesInfo_of_reads hstructural ⟨name, h.resolved name target hpins⟩ hreads] at htouched
      cases htouched
    · exact absurd hbound.1 htree
  · rw [hsame] at hview ⊢
    exact (h.pass hp hread fun htree =>
      Nat.not_lt.1 fun hnew => hbound ⟨htree, hnew⟩).of_view hview

/-- A gap keeps the pins. -/
theorem KeepsPins.resent {replicas : Replicas} {tree : TreeKey} {ofCaller : Bool} {x : Session}
    {policy : Policy} {before after : List Change}
    (h : s.KeepsPins (replicas s.tree) before view) (hread : s.tree ≠ tree → before = after)
    (hview : view' s.feed = if (x.resent replicas policy tree ofCaller s).2 then
        some ((x.resent replicas policy tree ofCaller s).1.fullSection (replicas s.tree))
      else view s.feed) :
    (x.resent replicas policy tree ofCaller s).1.KeepsPins (replicas s.tree) after view' := by
  rcases x.resent_inv replicas policy tree ofCaller s with hfull | ⟨htree, -, hsame⟩
  · rw [hfull] at hview ⊢
    exact keepsPins_inFull s hview
  · rw [hsame] at hview ⊢
    exact (hread htree ▸ h).of_view hview

end Subscription

/-! ## Sessions -/

namespace Session

/-- Every subscription of a session keeps its pins. -/
structure KeepsPins (replicas : Replicas) (unread : TreeKey → List Change) (s : Session)
    (view : View) : Prop where
  distinct : (s.subscriptions.map Subscription.feed).Nodup
  subscriptions : ∀ sub ∈ s.subscriptions,
    sub.KeepsPins (replicas sub.tree) (unread sub.tree) view

variable {policy : Policy} {replicas replicas' : Replicas} {unread unread' : TreeKey → List Change}
  {s : Session} {view : View} {tree : TreeKey} {change : Change}

theorem KeepsPins.advance (h : KeepsPins replicas unread s view)
    (ha : ∀ tree, Advanced (replicas tree) (unread tree) (replicas' tree) (unread' tree))
    (hs : ∀ tree, (replicas tree).AllSeen) (hs' : ∀ tree, (replicas' tree).AllSeen) :
    KeepsPins replicas' unread' s view :=
  ⟨h.distinct, fun sub hsub => (h.subscriptions sub hsub).advance (ha sub.tree) (hs _) (hs' _)⟩

theorem KeepsPins.onKeyChange (h : KeepsPins replicas unread s view)
    (hp : ∀ tree, Pending (replicas tree) (unread tree)) (ht : Taken unread unread' tree change)
    {cluster key : String} (hlevel : change.level = .key cluster key) :
    KeepsPins replicas unread' s
      (view.receiveAll (s.onKeyChange replicas tree change cluster key)) := by
  refine ⟨h.distinct, fun sub hsub => ?_⟩
  have hkeeps := h.subscriptions sub hsub
  rcases ht.here_or_elsewhere sub.tree with ⟨htree, hhere⟩ | ⟨htree, hsame⟩
  · rw [htree] at hkeeps hhere ⊢
    rw [hhere] at hkeeps
    exact hkeeps.told htree (hhere ▸ hp tree) hlevel fun held =>
      view_onKeyChange h.distinct hsub replicas tree change cluster key
  · rw [← hsame]
    exact hkeeps.of_view (view_onKeyChange_elsewhere h.distinct hsub replicas change cluster key
      htree hkeeps.held)

theorem KeepsPins.onMetadataChange (h : KeepsPins replicas unread s view)
    (hp : ∀ tree, Pending (replicas tree) (unread tree)) (ht : Taken unread unread' tree change)
    (hstructural : change.level.isStructural = true) :
    KeepsPins replicas unread' (s.onMetadataChange replicas policy tree change).1
      (view.receiveAll (s.onMetadataChange replicas policy tree change).2) := by
  rw [onMetadataChange_eq]
  dsimp only
  generalize hx : (if s.concernsCaller tree change = true then s.readCaller replicas policy
    else s) = x
  obtain ⟨-, -, -, hsubs⟩ := s.readCaller_keeps_if replicas policy hx
  obtain ⟨hdistinct, hkeeps⟩ := forall_visited view (P := fun tree sub view' =>
      sub.KeepsPins (replicas tree) (unread' tree) view')
    (fun sub => Subscription.feed_of_origin
      (origin_reconsidered replicas (x.viewpoint policy) tree change _ sub))
    h.distinct fun sub hsub view' hview' => (h.subscriptions sub hsub).reconsidered (hp sub.tree)
      hstructural (ht.here_or_elsewhere sub.tree) hview'
  rw [hsubs]
  exact ⟨hdistinct, hkeeps⟩

theorem KeepsPins.resync (h : KeepsPins replicas unread s view)
    (helsewhere : ∀ other, other ≠ tree → unread other = unread' other) :
    KeepsPins replicas unread' (s.resync replicas policy tree).1
      (view.receiveAll (s.resync replicas policy tree).2) := by
  rw [resync_eq]
  dsimp only
  generalize hx : (if s.callerTree = some tree then s.readCaller replicas policy else s) = x
  obtain ⟨-, -, -, hsubs⟩ := s.readCaller_keeps_if replicas policy hx
  obtain ⟨hdistinct, hkeeps⟩ := forall_visited view (P := fun tree sub view' =>
      sub.KeepsPins (replicas tree) (unread' tree) view')
    (fun sub => Subscription.feed_of_origin (origin_resent x replicas policy tree _ sub))
    h.distinct fun sub hsub view' hview' =>
      (h.subscriptions sub hsub).resent (helsewhere sub.tree) hview'
  rw [hsubs]
  exact ⟨hdistinct, hkeeps⟩

/-- **Whatever a session reads, it keeps its pins.** -/
theorem KeepsPins.react (h : KeepsPins replicas unread s view)
    (hp : ∀ tree, Pending (replicas tree) (unread tree)) {read : Holder.Unread}
    (hhere : ∀ e, read = .entry e → unread tree = e.change?.toList ++ unread' tree)
    (helsewhere : ∀ other, other ≠ tree → unread other = unread' other) :
    KeepsPins replicas unread' (s.react replicas policy tree read).session
      (view.receiveAll (s.react replicas policy tree read).messages) :=
  react_keeps (P := KeepsPins replicas) h hhere helsewhere
    (fun _ _ _ ht hlevel => h.onKeyChange hp ht hlevel)
    (fun _ ht hstructural => h.onMetadataChange hp ht hstructural) (h.resync helsewhere)

theorem keepsPins_start (request : Request) (mode : RouteMode) (caller : Option Caller)
    (policy : Policy) (replicas : Replicas) (unread : TreeKey → List Change) :
    let started := start request mode caller policy replicas
    KeepsPins replicas unread started.1 (View.ofMessage (started.2.message .all)) := by
  rw [start_eq]
  dsimp only
  rw [← receiveAll_empty]
  have hsubs := (readCaller_keeps (.unstarted request mode caller) replicas policy).2.2.2
  obtain ⟨hdistinct, hkeeps⟩ := forall_visited View.empty (P := fun tree sub view' =>
      sub.KeepsPins (replicas tree) (unread tree) view')
    (g := fun sub => (inFull replicas _ sub, true)) (fun _ => rfl)
    (nodup_subscriptionsOf request) fun sub _ view' hview' =>
      Subscription.keepsPins_inFull sub hview'
  rw [hsubs]
  exact ⟨hdistinct, hkeeps⟩

/-! ## Sections that are sent in full -/

/-- An `all` shows the own data of clusters under the pinned names of its sections. -/
theorem held_redump {v : Viewpoint} {g : Subscription → Subscription × Bool}
    (hfeed : ∀ sub, (g sub).1.feed = sub.feed)
    (hfull : ∀ sub, (g sub).2 = true → (g sub).1 = inFull replicas v sub)
    {subs : List Subscription} (hdistinct : (subs.map Subscription.feed).Nodup) :
    ∀ m ∈ messageUnlessEmpty .all (visit (redump replicas g) subs Sections.empty).2,
      ∀ sub ∈ subs, ∀ held, View.ofMessage m sub.feed = some held → ∀ name target,
        sub.selection.Pins name target →
          held name = some ((replicas sub.tree).own sub.feed.kind target) := by
  intro m hm sub hsub held hheld name target hpins
  unfold messageUnlessEmpty at hm
  split at hm
  · cases hm
  · rw [List.mem_singleton.1 hm, Sections.ofMessage_message, visit_redump_view hfeed subs hdistinct
      Sections.empty fun _ _ => rfl, subscriptionOf?_of_mem hdistinct hsub] at hheld
    dsimp only at hheld
    split at hheld
    · rename_i hsent
      rw [hfull sub hsent] at hheld
      cases hheld
      exact Subscription.fullSection_of_pins hpins replicas v
    · cases hheld

theorem kind_of_mem {kind : MessageKind} {body : Sections} {m : Message}
    (hm : m ∈ messageUnlessEmpty kind body) : m.kind = kind := by
  unfold messageUnlessEmpty at hm
  split at hm
  · cases hm
  · rw [List.mem_singleton.1 hm]
    rfl

/-- **Every `all` of a session** shows the own data of clusters under the pinned names of its
sections. -/
theorem held_react (hdistinct : (s.subscriptions.map Subscription.feed).Nodup)
    (replicas : Replicas) (policy : Policy) (tree : TreeKey) (read : Holder.Unread) :
    ∀ m ∈ (s.react replicas policy tree read).messages, m.kind = .all →
      ∀ sub ∈ s.subscriptions, ∀ held, View.ofMessage m sub.feed = some held → ∀ name target,
        sub.selection.Pins name target →
          held name = some ((replicas sub.tree).own sub.feed.kind target) := by
  unfold react
  split
  · rw [resync_eq]
    dsimp only
    generalize hx : (if s.callerTree = some tree then s.readCaller replicas policy else s) = x
    rw [(s.readCaller_keeps_if replicas policy hx).2.2.2]
    intro m hm _
    refine held_redump (v := x.viewpoint policy)
      (fun sub => Subscription.feed_of_origin (origin_resent _ _ _ _ _ sub))
      (fun sub hsent => ?_) hdistinct m hm
    rcases x.resent_inv replicas policy tree _ sub with hfull | ⟨-, -, hsame⟩
    · rw [hfull]
    · rw [hsame] at hsent
      cases hsent
  · exact fun _ hm => nomatch hm
  · exact fun _ hm => nomatch hm
  · split
    · intro m hm hall
      rcases List.mem_append.1 hm with hm | hm <;> rw [kind_of_mem hm] at hall <;> cases hall
    · rw [onMetadataChange_eq]
      dsimp only
      rename_i change _ _
      generalize hx : (if s.concernsCaller tree change = true then s.readCaller replicas policy
        else s) = x
      rw [(s.readCaller_keeps_if replicas policy hx).2.2.2]
      intro m hm _
      refine held_redump (v := x.viewpoint policy)
        (fun sub => Subscription.feed_of_origin (origin_reconsidered _ _ _ _ _ sub))
        (fun sub hsent => ?_) hdistinct m hm
      rcases reconsidered_inv replicas (x.viewpoint policy) tree change _ sub with
        hfull | ⟨-, -, -, hseen⟩ | ⟨-, -, hsame⟩
      · rw [hfull]
      · rw [hseen] at hsent
        cases hsent
      · rw [hsame] at hsent
        cases hsent

end Session

/-- The subscription of a pinned feed in a session that serves a request. -/
theorem Serves.exists_pinned {request : Request} {mode : RouteMode} {caller : Option Caller}
    {s : Session} (h : Serves request mode caller s) {feed : FeedKey} {name target : String}
    (hpin : request.Pins feed name target) :
    ∃ sub ∈ s.subscriptions, sub.feed = feed ∧ sub.selection.Pins name target := by
  obtain ⟨selection, hselection, hpins⟩ := hpin
  have hmem : Subscription.create feed selection ∈ Session.subscriptionsOf request :=
    List.mem_map.2 ⟨(feed, selection), SortedMap.mem_toList_iff.2 hselection, rfl⟩
  rw [← h.served] at hmem
  obtain ⟨sub, hsub, horigin⟩ := List.mem_map.1 hmem
  refine ⟨sub, hsub, congrArg Subscription.feed horigin, ?_⟩
  rw [show sub.selection = selection from congrArg Subscription.selection horigin]
  exact hpins

/-! ## Runs under changing policies -/

/-- The messages of a moment are in order, and an `all` among them shows the own data of clusters
under the pinned names of its sections. -/
structure Note.KeepsPins (request : Request) (n : Note) : Prop where
  sorted : ∀ m ∈ n.messages, m.body.SortedTo 3
  held : ∀ m ∈ n.messages, m.kind = .all → ∀ feed held, View.ofMessage m feed = some held →
    ∀ name target, request.Pins feed name target →
      held name = some ((n.replicas feed.tree).own feed.kind target)

namespace World

/-- Things happen in order, each under the policy that is in force then. -/
def runUnder (w : World) (acts : List (Policy × Act)) : World :=
  acts.foldl (fun w a => w.act a.1 a.2) w

/-- **Every run keeps a property of the session** that is kept under every policy. -/
theorem Kept.runUnder {I : World → Client → Prop} (hk : ∀ policy, Kept policy I)
    (acts : List (Policy × Act)) : (empty.runUnder acts).Has I :=
  List.foldlRecOn (motive := fun w : World => w.Has I) _ _ (has_empty I) fun _ hw a _ =>
    (hk a.1).act hw a.2

variable {policy : Policy} {w w' : World} {c : Client} {bookmarks : SortedMap TreeKey Bookmark}
  {tree : TreeKey} {h : Holder}

/-- The bookmarks of a session lie in the logs of holders of its trees, and while it is open, before
the entry that says that the holder is closed. -/
structure Follows (w : World) (c : Client) : Prop where
  trees : ∀ tree, (c.bookmarks.find? tree).isSome ↔
    tree ∈ Session.treesOf c.request c.mode c.caller
  within : ∀ tree b, c.bookmarks.find? tree = some b →
    ∃ h, w.holders.find? b.holder = some h ∧ h.key = tree ∧ b.cursor ≤ h.log.length
  reaches : c.isOpen = true → ∀ tree b, c.bookmarks.find? tree = some b → ∃ h, w.Reaches tree b h

theorem Follows.stir (hf : w.Follows c) (hstir : w.Stirs w') : w'.Follows c := by
  refine ⟨hf.trees, fun tree b hb => ?_, fun hopen tree b hb => ?_⟩
  · obtain ⟨h, hh, hkey, hcursor⟩ := hf.within tree b hb
    obtain ⟨h', hh', hmoves⟩ := hstir.holders _ h hh
    exact ⟨h', hh', hmoves.key.trans hkey, Nat.le_trans hcursor hmoves.grown.length_le⟩
  · obtain ⟨h, hreach⟩ := hf.reaches hopen tree b hb
    obtain ⟨h', -, hreach'⟩ := hreach.stir hstir
    exact ⟨h', hreach'⟩

theorem Follows.read (hf : w.Follows c) (hw : w.Grounded) (hopen : c.isOpen = true)
    {cursor next : Nat} {read : Holder.Unread}
    (hfollowed : w.followed? c.bookmarks tree = some (h, cursor))
    (hr : h.readAt cursor = some (read, next)) (policy : Policy) :
    w.Follows (c.handle (w.replicasOf c.bookmarks) policy tree read next) := by
  refine ⟨fun other => ?_, fun other b' hb' => ?_, fun hopen' other b' =>
    reaches_handle hw (hf.reaches hopen) hfollowed hr hopen'⟩
  · rw [isSome_bookmark_handle]
    exact hf.trees other
  · rcases bookmark_of_handle hb' with ⟨rfl, b, hb, rfl⟩ | ⟨-, hb'⟩
    · obtain ⟨h', hh', hkey, -⟩ := hf.within other b hb
      rw [followed?_eq hb hh'] at hfollowed
      cases hfollowed
      exact ⟨h, hh', hkey, Holder.readAt_within hr⟩
    · exact hf.within other b' hb'

/-- A session keeps its pins, and so did every message that it sent. -/
structure Upholds (w : World) (c : Client) : Prop where
  follows : w.Follows c
  serves : Serves c.request c.mode c.caller c.session
  pins : c.session.KeepsPins (w.replicasOf c.bookmarks) (w.unreadOf c.bookmarks) c.view
  notes : ∀ note ∈ c.history, note.KeepsPins c.request

/-- **Whatever happens to the holders**, a session keeps its pins. -/
theorem Upholds.stir (hu : w.Upholds c) (hw : w.Grounded) (hstir : w.Stirs w') : w'.Upholds c := by
  have hadvanced := hstir.advanced fun tree b hb =>
    let ⟨h, hh, _, hcursor⟩ := hu.follows.within tree b hb
    ⟨h, hh, hcursor⟩
  exact ⟨hu.follows.stir hstir, hu.serves, hu.pins.advance hadvanced
    (fun tree => (hw.pending _ tree).seen) (fun tree => (hstir.grounded.pending _ tree).seen),
    hu.notes⟩

theorem upholds_start {request : Request} {mode : RouteMode} {caller : Option Caller}
    (hkeys : bookmarks.keys = Session.treesOf request mode caller)
    (hreach : ∀ tree b, bookmarks.find? tree = some b → ∃ h, w.Reaches tree b h) :
    w.Upholds (.start request mode caller policy bookmarks (w.replicasOf bookmarks)) := by
  have hview := View.receive_empty (m := Sections.message (Session.start request mode caller
    policy (w.replicasOf bookmarks)).2 .all) rfl
  refine ⟨⟨fun tree => ?_, fun tree b hb => ?_, fun _ => hreach⟩,
    serves_start request mode caller policy _, ?_, fun note hnote => ?_⟩
  · rw [Client.start, ← hkeys, SortedMap.mem_keys_iff]
  · obtain ⟨h, hreach⟩ := hreach tree b hb
    exact ⟨h, hreach.found, hreach.key, hreach.within⟩
  · have hpins := Session.keepsPins_start request mode caller policy (w.replicasOf bookmarks)
      (w.unreadOf bookmarks)
    dsimp only at hpins
    rw [← hview] at hpins
    exact hpins
  · rw [List.mem_singleton.1 hnote]
    refine ⟨fun m hm => ?_, fun m hm _ feed held hheld name target hpin => ?_⟩
    · rw [List.mem_singleton.1 hm]
      exact (Session.sorted_start request mode caller policy _).message .all
    · rw [List.mem_singleton.1 hm] at hheld
      have hpin : request.Pins feed name target := hpin
      have hunder := Session.under_start hpin mode caller policy (w.replicasOf bookmarks)
      rw [View.under, hheld] at hunder
      exact hunder

/-- **The session reads on** and keeps its pins, under whatever policy. -/
theorem Upholds.read (hu : w.Upholds c) (hw : w.Grounded) (hopen : c.isOpen = true)
    {cursor next : Nat} {read : Holder.Unread}
    (hfollowed : w.followed? c.bookmarks tree = some (h, cursor))
    (hr : h.readAt cursor = some (read, next)) (policy : Policy) :
    w.Upholds (c.handle (w.replicasOf c.bookmarks) policy tree read next) := by
  obtain ⟨hhere, helsewhere⟩ := unreadOf_modify hfollowed hr
  refine ⟨hu.follows.read hw hopen hfollowed hr policy, hu.serves.react _ _ _ _, ?_,
    fun note hnote => ?_⟩
  · rw [Client.view_handle, Client.handle]
    dsimp only
    rw [replicasOf_modify]
    exact hu.pins.react (hw.pending _) hhere helsewhere
  · rcases List.mem_append.1 hnote with hnote | hnote
    · exact hu.notes note hnote
    · rw [List.mem_singleton.1 hnote]
      refine ⟨Session.sortedTo_react _ _ policy tree read,
        fun m hm hall feed held hheld name target hpin => ?_⟩
      obtain ⟨sub, hsub, rfl, hpins⟩ := hu.serves.exists_pinned hpin
      exact Session.held_react hu.pins.distinct _ policy tree read m hm hall sub hsub held hheld
        name target hpins

/-- **A session keeps its pins under every policy.** -/
theorem upholds_kept (policy : Policy) : Kept policy Upholds where
  stir _ _ _ hw hstir hu := hu.stir hw hstir
  start _ _ _ _ _ _ hkeys hreach := upholds_start hkeys hreach
  read _ _ _ _ _ _ _ hw hu hopen hf hr := hu.read hw hopen hf hr policy
  leave _ _ hu := ⟨⟨hu.follows.trees, hu.follows.within, fun hopen => nomatch hopen⟩, hu.serves,
    hu.pins, hu.notes⟩

/-- With nothing unread of a feed's tree, its client is shown the cluster's own data under a pinned
name. -/
theorem Upholds.under_view (hu : w.Upholds c) (hw : w.Grounded) {feed : FeedKey}
    {name target : String} (hpin : c.request.Pins feed name target)
    (hunread : w.unreadOf c.bookmarks feed.tree = []) :
    c.view.under feed name = some ((w.replicasOf c.bookmarks feed.tree).own feed.kind target) := by
  obtain ⟨sub, hsub, rfl, hpins⟩ := hu.serves.exists_pinned hpin
  have hshown := (hu.pins.subscriptions sub hsub).shown name target hpins
  have hseen := (hw.pending c.bookmarks sub.tree).seen
  rw [show w.unreadOf c.bookmarks sub.tree = [] from hunread] at hshown
  rw [hshown.eq_entries hseen hseen fun _ _ _ => rfl, ← Subscription.payload_eq,
    Subscription.payload_single]
  rfl

/-- An open session to which all has come reads the store's subtrees. -/
theorem Follows.isSubtreeOf (hf : w.Follows c) (hw : w.Grounded) (hopen : c.isOpen = true)
    (hidle : w.isIdle c = true) (htree : tree ∈ Session.treesOf c.request c.mode c.caller) :
    (w.replicasOf c.bookmarks tree).IsSubtreeOf w.store := by
  obtain ⟨b, hb⟩ := Option.isSome_iff_exists.1 ((hf.trees tree).2 htree)
  obtain ⟨h, hreach⟩ := hf.reaches hopen tree b hb
  obtain ⟨hpending, hdrop⟩ := rest_of_isIdle hidle hb hreach.found
  exact (hreach.shows hw hb hpending hdrop).2.isSubtreeOf

/-- **A pin overrides routing.**  Of a request that pins a name of a feed to a cluster, by itself or
by a forced route, and of any hijacking that was prepared for it, with any policy, caller and mode:

* whatever is in the trees, the first `all` that the client gets shows the cluster's own data under
  the name, however its session reads names;
* in every run, in which each act finds whatever policy in force, so does every `all` that carries
  the feed's section, by the replica as it was then;
* and once the session has handled every change of the feed's tree, what the client is shown under
  the name is the cluster's own data in the replica, which is the store's subtree when all has come
  to an open session. -/
theorem own_run {request extended : Request} {feed : FeedKey} {name target : String}
    (hpin : request.Pinned feed name target) {policy : Policy} {caller : Option Caller}
    {mode : RouteMode} {h : Hijack} (hprepared : Hijack.Prepared policy caller mode request h)
    (hextend : h.extendRequest request = (extended, none)) :
    (∀ mode caller policy replicas, ∃ first : Message,
      h.project ((Session.start extended mode caller policy replicas).2.message .all) =
        some first ∧ first.kind = .all ∧
      (View.ofMessage first).under feed name =
        some ((replicas feed.tree).own feed.kind target)) ∧
    ∀ acts c, (empty.runUnder acts).client = some c → c.request = extended →
      let w := empty.runUnder acts
      let replica := w.replicasOf c.bookmarks feed.tree
      (∀ note ∈ c.history, ∀ m ∈ note.messages.filterMap h.project, m.kind = .all →
        (m.clusters? feed).isSome → (View.ofMessage m).under feed name =
          some ((note.replicas feed.tree).own feed.kind target)) ∧
      (w.unreadOf c.bookmarks feed.tree = [] →
        (View.empty.receiveAll ((c.history.flatMap Note.messages).filterMap h.project)).under feed
          name = some (replica.own feed.kind target)) ∧
      (c.isOpen = true → w.isIdle c = true → replica.IsSubtreeOf w.store) := by
  have hpins : extended.Pins feed name target := by
    have := hpin.pins.extendRequest h
    rwa [hextend] at this
  have hspared := hprepared.spares hpin.pins
  refine ⟨fun mode caller policy replicas => ?_, fun acts c hc hrequest => ?_⟩
  · refine ⟨_, Hijack.project_of_all rfl, h.kind_projectSections _, ?_⟩
    rw [hspared.under_projectSections
      ((Session.sorted_start extended mode caller policy replicas).message .all)]
    exact Session.under_start hpins mode caller policy replicas
  · intro w replica
    have hhas := Kept.runUnder upholds_kept acts
    have hu := hhas.client c hc
    rw [← hrequest] at hpins
    refine ⟨fun note hnote m hm hall hcarried => ?_, fun hunread => ?_, fun hopen hidle => ?_⟩
    · obtain ⟨original, horiginal, hproject⟩ := List.mem_filterMap.1 hm
      obtain ⟨hkind, rfl⟩ := Hijack.of_project_all hproject hall
      have hnote := hu.notes note hnote
      have hsorted := hnote.sorted original horiginal
      rw [hspared.under_projectSections hsorted]
      rw [h.isSome_clusters?_projectSections] at hcarried
      obtain ⟨clusters, hclusters⟩ := Option.isSome_iff_exists.1 hcarried
      have hcarried : View.ofMessage original feed = some (payloadsOf clusters) := by
        rw [View.ofMessage, hclusters, Option.map_some]
      rw [View.under, hcarried]
      exact hnote.held original horiginal hkind feed _ hcarried name target hpins
    · have hsorted : ∀ m ∈ c.history.flatMap Note.messages, m.body.SortedTo 3 := by
        intro m hm
        obtain ⟨note, hnote, hm⟩ := List.mem_flatMap.1 hm
        exact (hu.notes note hnote).sorted m hm
      rw [hspared.under_filterMap_project hsorted rfl]
      exact hu.under_view hhas.grounded hpins hunread
    · obtain ⟨s, hs, -⟩ := hpins
      refine hu.follows.isSubtreeOf hhas.grounded hopen hidle
        (mem_treesOf (.create feed s) (List.mem_map.2 ⟨(feed, s), ?_, rfl⟩))
      exact SortedMap.mem_toList_iff.2 hs

/-- Callers of `web` are hijacked, and the intent has a default route. -/
def movedPolicy : Policy where
  route := { RouteSettings.standard with defaultPolicy := SortedMap.ofList [("direct", "d")] }
  hijack := { HijackSettings.standard with modes := SortedMap.ofList [("web", .enabled)] }

/-- The name `a` is forced onto `b`. -/
def forcedRoutes : ForceTable := ⟨SortedMap.ofList [("a", "b")], [], SortedMap.empty⟩

/-- Two clusters are asked for. -/
def askedSelection : Selection := ⟨SortedSet.ofElements ["a", "c"], SortedMap.empty, false⟩

/-- Two clusters of `shop` are asked for. -/
def askedRequest : Request := ⟨SortedMap.ofList [(⟨.service, "shop"⟩, askedSelection)]⟩

/-- The same, with the forced routes. -/
def forcedRequest : Request := (forcedRoutes.apply askedRequest (some "web")).1

/-- The hijacking of a client in `web`, which is shown the intent's data under the name that is not
forced. -/
def movedHijack : Hijack :=
  (Hijack.create movedPolicy (some ⟨"web", "w"⟩) .orig).prepareOn "shop"
    (Replica.empty "/service/web") (Replica.empty "/service/shop") ⟨"web", "w"⟩
    ⟨.enabled, SortedSet.ofElements ["c"], false, []⟩

/-- The request with the intent. -/
def movedRequest : Request := (movedHijack.extendRequest forcedRequest).1

/-- A session starts while `b` has one key; then the key is set and `a` gets a link to another
cluster, and the session reads on under another policy. -/
def movedRun : List (Policy × Act) :=
  let shop : TreeKey := ⟨"shop", .service⟩
  let web : TreeKey := ⟨"web", .service⟩
  let before : List Act :=
    [.hold shop 8, .hold web 8, .call (.create "/service/shop/b/1" "x" true), .write 0, .write 0,
      .write 0, .write 0, .write 1, .start movedRequest .orig (some ⟨"web", "w"⟩)
        (SortedMap.ofList [(shop, ⟨0, 2⟩), (web, ⟨1, 0⟩)])]
  let after : List Act :=
    [.call (.set "/service/shop/b/1" "y" none),
      .call (.create "/service/shop/a" "\x7b\"link\":[\"c\"]\x7d" false), .write 0, .write 0,
      .read shop, .read shop, .read shop, .read web]
  before.map (movedPolicy, ·) ++ after.map (Policy.standard, ·)

/-- The session of `movedRun`. -/
def movedClient : Client := (empty.runUnder movedRun).client.get (by decide +kernel)

/-- A client of a forced route, hijacked under another name of the same feed. -/
theorem own_run_forced :
    let feed : FeedKey := ⟨.service, "shop"⟩
    let w := empty.runUnder movedRun
    forcedRequest.Pinned feed "a" "b" ∧
    Hijack.Prepared movedPolicy (some ⟨"web", "w"⟩) .orig forcedRequest movedHijack ∧
    movedHijack.extendRequest forcedRequest = (movedRequest, none) ∧
    w.client = some movedClient ∧ movedClient.request = movedRequest ∧
    w.unreadOf movedClient.bookmarks feed.tree = [] ∧
    movedClient.isOpen = true ∧ w.isIdle movedClient = true ∧
    (w.replicasOf movedClient.bookmarks feed.tree).IsSubtreeOf w.store ∧
    (View.empty.receiveAll ((movedClient.history.flatMap Note.messages).filterMap
      movedHijack.project)).under feed "a" =
        some (.object [("1", .object [("value", .string "y")])]) := by
  intro feed w
  have hforces : forcedRoutes.Forces askedRequest (some "web") feed "a" "b" :=
    ⟨rfl, rfl, ⟨askedSelection, by decide +kernel⟩, by decide +kernel⟩
  have hpinned : forcedRequest.Pinned feed "a" "b" :=
    .inr ⟨forcedRoutes, askedRequest, some "web", 1, by decide +kernel, .inr hforces⟩
  have hprepared :
      Hijack.Prepared movedPolicy (some ⟨"web", "w"⟩) .orig forcedRequest movedHijack :=
    Hijack.Prepared.start.look _ _ rfl (by decide +kernel)
  have hextend : movedHijack.extendRequest forcedRequest = (movedRequest, none) := by
    decide +kernel
  have hclient : w.client = some movedClient := (Option.some_get _).symm
  have hrest : movedClient.request = movedRequest ∧
      w.unreadOf movedClient.bookmarks feed.tree = [] ∧ movedClient.isOpen = true ∧
      w.isIdle movedClient = true ∧
      (w.replicasOf movedClient.bookmarks feed.tree).own feed.kind "b" =
        .object [("1", .object [("value", .string "y")])] := by decide +kernel
  obtain ⟨hrequest, hunread, hopen, hidle, hown⟩ := hrest
  obtain ⟨-, hview, hsubtree⟩ :=
    (own_run hpinned hprepared hextend).2 movedRun movedClient hclient hrequest
  rw [← hown]
  exact ⟨hpinned, hprepared, hextend, hclient, hrequest, hunread, hopen, hidle,
    hsubtree hopen hidle, hview hunread⟩

end World

end Treecast
