import Treecast.Proofs.Admission
import Treecast.Proofs.SessionSync

/-!
# Checked destinations

A destination that is only checked has its intent asked for on the side, and the client is to see
nothing of it.  What it sees first differs all the same, for one kind of names: asking for the
intent turns the routing of intents on for the whole feed, so that a requested name that stands
for another intent is routed, as for a client that routes intents itself, and no longer taken
literally.  Every other name shows what it shows without hijacking.

## Results

* `Session.view_start`, `Session.firstSection_eq`: what a new session shows of a feed.
* `Hijack.extendRequest_eq`: the request with its intents.
* `Hijack.shownFirst_create`, `Hijack.shownFirst_checking`: the first sections of a client, without
  hijacking and of a destination that is checked.
* `Hijack.shownFirst_checked`: how the two compare, name by name.
-/

set_option autoImplicit false

namespace Treecast

open Routing
open Json (Value)

/-! ## The first `all` of a session -/

namespace Sections

/-- The clusters of every section are in order. -/
def Sorted (b : Sections) : Prop :=
  ∀ key clusters, b.sections.find? key = some clusters → Entries.Sorted clusters

variable {b : Sections}

theorem sorted_empty : empty.Sorted := fun _ _ hfind => nomatch hfind

theorem Sorted.clusters (hb : b.Sorted) (key : FeedKey) : Entries.Sorted (b.clusters key) := by
  rw [Sections.clusters]
  cases hfind : b.sections.find? key with
  | none => exact List.Pairwise.nil
  | some clusters => exact hb key clusters hfind

theorem Sorted.put (hb : b.Sorted) (key : FeedKey) {clusters : Entries String Value}
    (hclusters : clusters.Sorted) : Sorted ⟨b.sections.insert key clusters⟩ := by
  intro other found hfound
  rw [SortedMap.find?_insert] at hfound
  split at hfound
  · cases hfound
    exact hclusters
  · exact hb other found hfound

theorem Sorted.dump (hb : b.Sorted) (s : Subscription) (r : Replica) : (s.dump r b).Sorted := by
  refine List.foldlRecOn (motive := Sorted) _ _ (hb.put s.feed (hb.clusters s.feed)) ?_
  exact fun body hbody e _ =>
    hbody.put s.feed (Entries.insert_sorted e.1 _ (hbody.clusters s.feed))

end Sections

namespace Session

theorem sorted_visit_redump (replicas : Replicas) (g : Subscription → Subscription × Bool)
    (subs : List Subscription) :
    ∀ {body : Sections}, body.Sorted → (visit (redump replicas g) subs body).2.Sorted := by
  induction subs with
  | nil => exact fun hbody => hbody
  | cons sub rest ih =>
    intro body hbody
    rw [visit]
    refine ih ?_
    unfold redump
    dsimp only
    split
    · exact hbody.dump _ _
    · exact hbody

/-- How a session reads names at its start. -/
def viewpointAt (request : Request) (mode : RouteMode) (caller : Option Caller) (policy : Policy)
    (replicas : Replicas) : Viewpoint :=
  ⟨mode, policy, callerOn policy replicas (callerTreeOf request mode caller) caller⟩

theorem subscriptionOf?_subscriptionsOf (request : Request) (feed : FeedKey) :
    subscriptionOf? (subscriptionsOf request) feed =
      (request.find? feed).map (Subscription.create feed) := by
  cases hfind : request.find? feed with
  | some s =>
    have hmem : Subscription.create feed s ∈ subscriptionsOf request :=
      List.mem_map.2 ⟨(feed, s), SortedMap.mem_toList_iff.2 hfind, rfl⟩
    exact subscriptionOf?_of_mem (nodup_subscriptionsOf request) hmem
  | none =>
    refine List.find?_eq_none.2 fun sub hsub => ?_
    obtain ⟨⟨key, s⟩, hmem, rfl⟩ := List.mem_map.1 hsub
    have hs : request.find? key = some s := SortedMap.mem_toList_iff.1 hmem
    intro heq
    rw [show key = feed from of_decide_eq_true heq, hfind] at hs
    cases hs

variable (request : Request) (mode : RouteMode) (caller : Option Caller) (policy : Policy)
  (replicas : Replicas)

/-- What a session shows at its start of a feed of which this is wanted. -/
def firstSection (feed : FeedKey) (s : Selection) : Payloads :=
  (inFull replicas (viewpointAt request mode caller policy replicas)
    (.create feed s)).fullSection (replicas feed.tree)

theorem sorted_start : (start request mode caller policy replicas).2.Sorted := by
  rw [start_eq]
  exact sorted_visit_redump replicas _ _ Sections.sorted_empty

/-- **A new session shows every feed in full.** -/
theorem view_start (feed : FeedKey) :
    (start request mode caller policy replicas).2.view feed =
      (request.find? feed).map (firstSection request mode caller policy replicas feed) := by
  have hsubs : ((unstarted request mode caller).readCaller replicas policy).subscriptions =
      subscriptionsOf request := (readCaller_keeps _ replicas policy).2.2.2
  rw [start_eq]
  dsimp only
  rw [viewpoint_unstarted, hsubs, visit_redump_view (fun _ => rfl) _ (nodup_subscriptionsOf request)
    _ fun _ _ => rfl, subscriptionOf?_subscriptionsOf]
  cases request.find? feed <;> rfl

/-- It shows the names that are wanted, each as it is served. -/
theorem firstSection_eq (feed : FeedKey) (s : Selection) (name : String) :
    firstSection request mode caller policy replicas feed s name =
      if name ∈ (Subscription.create feed s).wanted (replicas feed.tree) then
        some ((Subscription.create feed s).payload (replicas feed.tree)
          ((Subscription.create feed s).serving (replicas feed.tree)
            (viewpointAt request mode caller policy replicas) name))
      else none := by
  have hresolved := Subscription.find?_resolve (.create feed s) (replicas feed.tree)
    (viewpointAt request mode caller policy replicas) name
  rw [firstSection, Subscription.fullSection]
  refine (congrArg (Option.map _) hresolved).trans ?_
  split <;> rfl

variable {request mode}

/-- A session that has to know who the caller is reads the caller's own tree. -/
theorem callerOn_of_needsCaller {feed : FeedKey} {s : Selection} (hs : request.find? feed = some s)
    (hneeds : (Subscription.create feed s).needsCaller mode = true) :
    callerOn policy replicas (callerTreeOf request mode caller) caller =
      caller.map fun c => CallerRoute.ofReplica (replicas ⟨c.application, .service⟩) policy c := by
  have hany : (subscriptionsOf request).any (·.needsCaller mode) = true :=
    List.any_eq_true.2 ⟨_, List.mem_map.2 ⟨(feed, s), SortedMap.mem_toList_iff.2 hs, rfl⟩, hneeds⟩
  rw [callerTreeOf, if_pos hany]
  cases caller <;> rfl

end Session

/-! ## Asking for the intent on the side -/

/-- A selection with an intent that is asked for on the side. -/
def Selection.withIntent (s : Selection) (intent : String) : Selection :=
  { s.limit intent with intentRouting := true }

namespace Routing

namespace Destination

/-- A name that stands for no intent is not routed. -/
theorem resolve?_of_literal (d : Destination) {name : String}
    (hname : d.policy.isIntent name = false) (caller : Option CallerRoute) (routing routing' : Bool)
    (ezonePrefix : Bool) :
    d.resolve? name ⟨caller, routing, ezonePrefix⟩ =
      d.resolve? name ⟨caller, routing', ezonePrefix⟩ := by
  simp only [resolve?, hname, Bool.and_false, Bool.false_eq_true, if_false]

/-- An intent that is routed is not tried in the caller's ezone. -/
theorem resolve?_of_intent (d : Destination) {name : String}
    (hname : d.policy.isIntent name = true) (caller : Option CallerRoute)
    (ezonePrefix ezonePrefix' : Bool) :
    d.resolve? name ⟨caller, true, ezonePrefix⟩ = d.resolve? name ⟨caller, true, ezonePrefix'⟩ := by
  simp only [resolve?, hname, Bool.and_self, if_true]

end Destination

/-- The same policy with hijacking switched off. -/
def Policy.unhijacked (p : Policy) : Policy :=
  { p with
    hijack := { p.hijack with modes := SortedMap.empty, ezoneDefaults := SortedMap.empty } }

/-- Names resolve alike whether or not callers are hijacked. -/
theorem Destination.resolve?_unhijacked (policy : Policy) (application : String) (r : Replica)
    (name : String) (options : ResolveOptions) :
    resolve? ⟨application, r, policy.unhijacked⟩ name options =
      resolve? ⟨application, r, policy⟩ name options := by
  have hlinks : ∀ cluster, links ⟨application, r, policy.unhijacked⟩ cluster =
      links ⟨application, r, policy⟩ cluster := fun _ => rfl
  have hphysical : ∀ cluster, physical? ⟨application, r, policy.unhijacked⟩ cluster =
      physical? ⟨application, r, policy⟩ cluster :=
    fun cluster => follow_congr hlinks _ [] cluster
  simp only [resolve?, hphysical]
  rfl

end Routing

namespace Subscription

theorem serving_unhijacked (s : Subscription) (r : Replica) (mode : RouteMode) (policy : Policy)
    (caller : Option CallerRoute) (name : String) :
    s.serving r ⟨mode, policy.unhijacked, caller⟩ name =
      s.serving r ⟨mode, policy, caller⟩ name := by
  simp only [serving, Destination.resolve?_unhijacked]
  rfl

theorem mem_wanted {s : Selection} (hsome : s.isAll = false) (feed : FeedKey) (r : Replica)
    (name : String) : name ∈ (create feed s).wanted r ↔ s.clusters.has name = true := by
  rw [wanted, show (create feed s).selection = s from rfl, if_neg (by simp [hsome])]
  exact SortedMap.mem_keys_iff

theorem mem_wanted_withIntent (s : Selection) (intent : String) (feed : FeedKey) (r : Replica)
    (name : String) :
    name ∈ (create feed (s.withIntent intent)).wanted r ↔
      name = intent ∨ s.clusters.has name = true := by
  have hhas : (s.withIntent intent).clusters.has name = true ↔
      name = intent ∨ s.clusters.has name = true := by
    refine SortedMap.mem_keys_iff.symm.trans (SortedSet.mem_elements_add.trans ?_)
    exact or_congr_right SortedMap.mem_keys_iff
  have hsome : (s.withIntent intent).isAll = false := by
    cases hall : (s.withIntent intent).isAll with
    | false => rfl
    | true =>
      have hintent : (s.withIntent intent).clusters.find? intent = some () :=
        (SortedMap.find?_insert _ _ _ _).trans (if_pos rfl)
      rw [SortedMap.eq_empty_of_isEmpty hall] at hintent
      cases hintent
  exact (mem_wanted hsome feed r name).trans hhas

/-- **With the intent on the side** a requested intent that is not pinned is served as in route
mode, and every other name as without it. -/
theorem serving_withIntent {feed : FeedKey} (hfeed : feed.kind = .service) (s : Selection)
    (intent : String) (r : Replica) (mode : RouteMode) (policy : Policy)
    {caller caller' : Option CallerRoute}
    (hcaller : (create feed s).needsCaller mode = true → caller' = caller) (name : String) :
    (create feed (s.withIntent intent)).serving r ⟨mode, policy, caller⟩ name =
      if policy.isIntent name ∧ s.isPinned name = false then
        (create feed s).serving r ⟨.route, policy, caller⟩ name
      else (create feed s).serving r ⟨mode, policy, caller'⟩ name := by
  have hrouting : feed.tree.kind.carriesRouting = true := by
    rw [FeedKey.tree, hfeed]
    rfl
  rw [← serving_of_caller _ r policy hcaller name]
  cases hpinned : s.pinned.find? name with
  | some target =>
    have hpin : s.isPinned name = true := by
      rw [Selection.isPinned, SortedMap.contains, hpinned]
      rfl
    simp only [serving, create, Selection.withIntent, Selection.limit, hpinned, hpin]
    simp
  | none =>
    have hpin : s.isPinned name = false := by
      rw [Selection.isPinned, SortedMap.contains, hpinned]
      rfl
    simp only [serving, create, tree, Selection.withIntent, Selection.limit, hpinned, hpin,
      hrouting, if_true, and_true, options]
    cases hname : policy.isIntent name with
    | true =>
      rw [if_pos rfl, Bool.or_true, decide_true, Bool.true_or]
      exact congrArg (Option.getD · []) (Destination.resolve?_of_intent _ hname caller _ _)
    | false =>
      rw [if_neg Bool.false_ne_true]
      exact congrArg (Option.getD · []) (Destination.resolve?_of_literal _ hname caller _ _ _)

end Subscription

namespace Routing.Hijack

variable {h : Hijack} {policy : Policy} {caller : Option Caller} {mode : RouteMode}
  {request : Request} {application : String} {t : Takeover}

/-- The request with the intent of one destination. -/
def askOnTheSide (intent : String) (r : Request) (application : String) (t : Takeover) : Request :=
  if t.mode = .disabled then r
  else
    (r.alter ⟨.service, application⟩ (·.limit intent)).routeIntents ⟨.service, application⟩

theorem find?_askOnTheSide (intent : String) (r : Request) (application : String) (t : Takeover)
    (other : String) :
    (askOnTheSide intent r application t).find? ⟨.service, other⟩ =
      if other = application then
        if t.mode = .disabled then r.find? ⟨.service, other⟩
        else some (((r.find? ⟨.service, other⟩).getD .all).withIntent intent)
      else r.find? ⟨.service, other⟩ := by
  unfold askOnTheSide
  by_cases hmode : t.mode = .disabled
  · simp only [hmode, if_true, ite_self]
  · rw [if_neg hmode, if_neg hmode, Request.find?_routeIntents, Request.find?_alter,
      Request.find?_alter, if_pos rfl]
    by_cases hother : other = application
    · subst hother
      rw [if_pos rfl, if_pos rfl]
      rfl
    · have hne : (⟨.service, other⟩ : FeedKey) ≠ ⟨.service, application⟩ :=
        fun heq => hother (congrArg FeedKey.application heq)
      rw [if_neg hne, if_neg hne, if_neg hother]

/-- **With valid names the request gets the intent of every destination.** -/
theorem extendRequest_eq (hh : Addressed policy h)
    (hintent : isValidName policy.hijack.intent = true) (request : Request) :
    h.extendRequest request =
      (h.takeovers.toList.foldl
        (fun r e => askOnTheSide policy.hijack.intent r e.1 e.2) request, none) := by
  have hsame : h.intent = policy.hijack.intent := by rw [intent, hh.policy_eq]
  rw [extendRequest, hsame]
  have hentries := hh.destinations
  generalize h.takeovers.toList = entries at hentries ⊢
  induction entries generalizing request with
  | nil => rfl
  | cons e rest ih =>
    have hrest := fun r => ih r fun e he => hentries e (List.mem_cons_of_mem _ he)
    have hvalid : isValidName (FeedKey.mk .service e.1).application = true :=
      hentries e List.mem_cons_self
    have hlimit := (Request.limit_eq_ok_iff (r := request)).2 ⟨hintent, hvalid, rfl⟩
    rw [List.foldl_cons, List.foldl_cons, ← hrest]
    congr 1
    unfold askOnTheSide
    by_cases hmode : e.2.mode = .disabled
    · simp [hmode]
    · simp [hmode, hlimit]

/-- What is asked of a destination that is hijacked or checked. -/
theorem find?_extended (intent : String) (ht : h.takeover? application = some t)
    (hmode : t.mode ≠ .disabled) {s : Selection}
    (hs : request.find? ⟨.service, application⟩ = some s) :
    (h.takeovers.toList.foldl (fun r e => askOnTheSide intent r e.1 e.2) request).find?
      ⟨.service, application⟩ = some (s.withIntent intent) := by
  have hlook := Entries.look_foldl (askOnTheSide intent)
    (fun r application => r.find? ⟨.service, application⟩)
    (fun t asked =>
      if t.mode = .disabled then asked else some ((asked.getD .all).withIntent intent))
    (find?_askOnTheSide intent) h.takeovers.sorted request application
  rw [show h.takeovers.entries.find? application = some t from ht] at hlook
  refine hlook.trans ?_
  dsimp only
  rw [if_neg hmode, hs]
  rfl

/-! ## Prepared hijackings -/

theorem Prepared.same (hp : Prepared policy caller mode request h) :
    h.policy = policy ∧ h.caller = caller ∧ h.mode = mode := by
  induction hp with
  | start => exact ⟨rfl, rfl, rfl⟩
  | look _ _ _ _ _ ih => exact ih

theorem Prepared.addressed (hp : Prepared policy caller mode request h) (hr : request.WellNamed) :
    Addressed policy h := by
  induction hp with
  | start => exact addressed_create policy caller mode
  | look callerTree destination _ _ hmem ih =>
    exact ih.prepareOn (valid_of_candidate hr _ hmem) callerTree destination _ _

/-- A candidate goes back to what is asked of its destination. -/
theorem of_mem_candidates (hmem : (application, t) ∈ h.candidates request) :
    t.mode = h.modeFor application ∧ h.modeFor application ≠ .disabled ∧
      ∃ s, request.find? ⟨.service, application⟩ = some s ∧ s.isAll = false ∧
        t.intentRequested = s.clusters.has h.intent ∧ t.clusters = h.hijackable s := by
  obtain ⟨⟨⟨kind, asked⟩, s⟩, hs, hcandidate⟩ := List.mem_filterMap.1 hmem
  obtain ⟨_, hcandidate, hpair⟩ := Option.map_eq_some_iff.1 hcandidate
  cases hpair
  unfold candidate? at hcandidate
  dsimp only at hcandidate
  split at hcandidate
  · cases hcandidate
  · rename_i hwanted
    cases hcandidate
    simp only [not_or, ne_eq, Decidable.not_not, Bool.not_eq_true] at hwanted
    obtain ⟨rfl, hmode, hsome⟩ := hwanted
    refine ⟨rfl, hmode, s, SortedMap.mem_toList_iff.1 hs, ?_, rfl, rfl⟩
    rw [Selection.isAll]
    cases hall : s.clusters.isEmpty with
    | false => rfl
    | true =>
      rw [hijackable, SortedMap.eq_empty_of_isEmpty hall] at hsome
      cases hsome

/-- What is done for a destination goes back to what is asked of it. -/
theorem Prepared.requested (hp : Prepared policy caller mode request h)
    (ht : h.takeover? application = some t) :
    ∃ s, request.find? ⟨.service, application⟩ = some s ∧ s.isAll = false ∧
      t.intentRequested = s.clusters.has policy.hijack.intent := by
  induction hp with
  | start => cases ht
  | look callerTree destination hbefore _ hmem ih =>
    rw [takeover?, prepareOn, SortedMap.find?_insert] at ht
    split at ht
    · rename_i heq
      cases ht
      subst heq
      obtain ⟨-, -, s, hs, hsome, hrequested, -⟩ := of_mem_candidates hmem
      rw [intent, hbefore.same.1] at hrequested
      exact ⟨s, hs, hsome, (diagnose_keeps _ _ _ _).2.trans hrequested⟩
    · exact ih ht

theorem modeFor_unhijacked (policy : Policy) (caller : Option Caller) (mode : RouteMode)
    (application : String) :
    (create policy.unhijacked caller mode).modeFor application = .disabled := by
  have hmode : ∀ (application : String) (cluster : Option String),
      policy.unhijacked.hijackMode application cluster = .disabled := by
    intro application cluster
    cases cluster with
    | none => rfl
    | some cluster =>
      have hezone : ((policy.unhijacked.splitEzone cluster).1).bind
          policy.unhijacked.hijack.ezoneDefaults.find? = none := by
        cases (policy.unhijacked.splitEzone cluster).1 <;> rfl
      rw [Policy.hijackMode, Option.bind_some, Option.bind_some, hezone]
      rfl
  unfold modeFor
  split
  · rfl
  · split
    · rfl
    · rename_i c _
      rw [show (create policy.unhijacked caller mode).policy = policy.unhijacked from rfl,
        hmode c.application (some c.cluster)]

/-- Where no destination is to be hijacked nothing is taken over. -/
theorem Prepared.eq_create_of_disabled (hp : Prepared policy caller mode request h)
    (hdisabled : ∀ application s, request.find? ⟨.service, application⟩ = some s →
      (create policy caller mode).modeFor application = .disabled) :
    h = create policy caller mode := by
  induction hp with
  | start => rfl
  | look callerTree destination _ _ hmem ih =>
    rw [ih] at hmem
    obtain ⟨-, hactive, s, hs, -⟩ := of_mem_candidates hmem
    exact absurd (hdisabled _ s hs) hactive

/-- Where hijacking is switched off nothing is taken over. -/
theorem Prepared.eq_create (hp : Prepared policy.unhijacked caller mode request h) :
    h = create policy.unhijacked caller mode :=
  hp.eq_create_of_disabled fun application _ _ => modeFor_unhijacked policy caller mode application

/-! ## First sections -/

/-- The section of a feed in the first `all` that a client gets, unless its request is refused. -/
def shownFirst (h : Hijack) (request : Request) (replicas : Replicas) (feed : FeedKey) :
    Option Payloads :=
  match h.extendRequest request with
  | (extended, none) =>
    (h.project ((Session.start extended h.mode h.caller h.policy replicas).2.message .all)).bind
      fun m => View.ofMessage m feed
  | (_, some _) => none

theorem project_of_all {m : Message} (hm : m.kind = .all) :
    h.project m = some (h.projectSections m) := by
  unfold project
  cases hactive : h.isActive with
  | false => rw [if_pos (.inr rfl), projectSections_of_not_active hactive]
  | true => simp [hm]

/-- **A client that is not hijacked** gets what its session shows. -/
theorem shownFirst_create (policy : Policy) (caller : Option Caller) (mode : RouteMode)
    (request : Request) (replicas : Replicas) (feed : FeedKey) :
    (create policy caller mode).shownFirst request replicas feed =
      (request.find? feed).map
        (Session.firstSection request mode caller policy replicas feed) := by
  rw [← Session.view_start, ← Sections.ofMessage_message]
  rfl

/-- Of a destination with its intent the client gets what is shown of it. -/
theorem view_projectSections (hsound : h.Sound) {b : Sections} (hb : b.Sorted)
    (ht : h.takeover? application = some t) (hmode : t.mode ≠ .disabled) {held : Payloads}
    (hheld : b.view ⟨.service, application⟩ = some held)
    (hintent : (held h.intent).isSome = true) :
    View.ofMessage (h.projectSections (b.message .all)) ⟨.service, application⟩ =
      some (t.shown h.intent held) := by
  have htakeover : h.takeoverOf? ⟨.service, application⟩ = some t := by
    rw [takeoverOf?, if_pos rfl, ht, Option.filter_some_pos (by simpa using hmode)]
  obtain ⟨clusters, hfind, rfl⟩ := Option.map_eq_some_iff.1 hheld
  rw [View.ofMessage, clusters?_projectSections, htakeover, Sections.clusters?_message, hfind]
  exact congrArg some
    (payloadsOf_projectClusters (hsound.takeoverOf? htakeover) (hb _ _ hfind) hintent)

/-- **A client of a destination that is taken over or checked** gets what is shown of the request
with the intent. -/
theorem shownFirst_takenOver (hp : Prepared policy caller mode request h) (hr : request.WellNamed)
    (hintent : isValidName policy.hijack.intent = true)
    (ht : h.takeover? application = some t) (hmode : t.mode ≠ .disabled) {s : Selection}
    (hs : request.find? ⟨.service, application⟩ = some s) (replicas : Replicas) :
    ∃ extended : Request,
      extended.find? ⟨.service, application⟩ = some (s.withIntent policy.hijack.intent) ∧
      h.shownFirst request replicas ⟨.service, application⟩ =
        some (t.shown policy.hijack.intent
          (Session.firstSection extended mode caller policy replicas ⟨.service, application⟩
            (s.withIntent policy.hijack.intent))) := by
  obtain ⟨hpolicy, hcaller, hsameMode⟩ := hp.same
  have hextend := extendRequest_eq (hp.addressed hr) hintent request
  have hfind := find?_extended policy.hijack.intent ht hmode hs
  generalize h.takeovers.toList.foldl _ request = extended at hextend hfind
  refine ⟨extended, hfind, ?_⟩
  have hview := Session.view_start extended mode caller policy replicas ⟨.service, application⟩
  rw [hfind, Option.map_some] at hview
  have hasked : (Session.firstSection extended mode caller policy replicas ⟨.service, application⟩
      (s.withIntent policy.hijack.intent) h.intent).isSome = true := by
    rw [Session.firstSection_eq, if_pos]
    · rfl
    · rw [intent, hpolicy]
      exact (Subscription.mem_wanted_withIntent _ _ _ _ _).2 (.inl rfl)
  rw [shownFirst, hextend, hpolicy, hcaller, hsameMode]
  dsimp only
  rw [project_of_all rfl, Option.bind_some, view_projectSections hp.sound
    (Session.sorted_start extended mode caller policy replicas) ht hmode hview hasked, intent,
    hpolicy]

/-- **A client of a destination that is checked** gets what its session shows of the request with
the intent, which is left out. -/
theorem shownFirst_checking (hp : Prepared policy caller mode request h) (hr : request.WellNamed)
    (hintent : isValidName policy.hijack.intent = true)
    (ht : h.takeover? application = some t) (hmode : t.mode = .checking) {s : Selection}
    (hs : request.find? ⟨.service, application⟩ = some s)
    (hhidden : s.clusters.has policy.hijack.intent = false) (replicas : Replicas) :
    ∃ extended : Request,
      extended.find? ⟨.service, application⟩ = some (s.withIntent policy.hijack.intent) ∧
      h.shownFirst request replicas ⟨.service, application⟩ = some fun name =>
        if name = policy.hijack.intent then none
        else Session.firstSection extended mode caller policy replicas ⟨.service, application⟩
          (s.withIntent policy.hijack.intent) name := by
  have htaken : t.mode ≠ .disabled := by simp [hmode]
  obtain ⟨extended, hfind, hshown⟩ := shownFirst_takenOver hp hr hintent ht htaken hs replicas
  obtain ⟨s', hs', -, hrequested⟩ := hp.requested ht
  rw [hs] at hs'
  cases hs'
  refine ⟨extended, hfind, hshown.trans (congrArg some (funext fun name => ?_))⟩
  simp [Takeover.shown, hrequested, hhidden, hmode, HijackMode.projects]

/-- Names that are served with the intent on the side, and in the two runs that know of no
hijacking. -/
theorem serving_checked {extended : Request} {feed : FeedKey} (hfeed : feed.kind = .service)
    {s : Selection} (hs : request.find? feed = some s) {intent : String}
    (hextended : extended.find? feed = some (s.withIntent intent)) (policy : Policy)
    (caller : Option Caller) (mode : RouteMode) (replicas : Replicas) (name : String) :
    (Subscription.create feed (s.withIntent intent)).serving (replicas feed.tree)
        (Session.viewpointAt extended mode caller policy replicas) name =
      if policy.isIntent name ∧ s.isPinned name = false then
        (Subscription.create feed s).serving (replicas feed.tree)
          (Session.viewpointAt request .route caller policy replicas) name
      else
        (Subscription.create feed s).serving (replicas feed.tree)
          (Session.viewpointAt request mode caller policy.unhijacked replicas) name := by
  have hrouting : feed.tree.kind.carriesRouting = true := by
    rw [FeedKey.tree, hfeed]
    rfl
  have hneeds : (Subscription.create feed (s.withIntent intent)).needsCaller mode = true := by
    simp [Subscription.needsCaller, Subscription.create, Subscription.tree, hrouting,
      Selection.withIntent]
  have hneedsRouted : (Subscription.create feed s).needsCaller .route = true := by
    simp [Subscription.needsCaller, Subscription.create, Subscription.tree, hrouting]
  rw [Session.viewpointAt, Session.callerOn_of_needsCaller caller policy replicas hextended hneeds,
    Session.viewpointAt, Session.callerOn_of_needsCaller caller policy replicas hs hneedsRouted,
    Session.viewpointAt, Subscription.serving_unhijacked]
  refine Subscription.serving_withIntent hfeed s intent _ mode policy (fun hneeds => ?_) name
  exact Session.callerOn_of_needsCaller caller policy.unhijacked replicas hs hneeds

/-- **What a destination that is only checked shows first.**  Of a request that does not ask for
the intent, a client sees the same names as with hijacking switched off.  Each of them shows the
same, unless it stands for an intent itself and is not pinned; then it shows what it shows to a
client that routes intents. -/
theorem shownFirst_checked {plain : Hijack} (hp : Prepared policy caller mode request h)
    (hplain : Prepared policy.unhijacked caller mode request plain) (hr : request.WellNamed)
    (hintent : isValidName policy.hijack.intent = true)
    (ht : h.takeover? application = some t) (hmode : t.mode = .checking) {s : Selection}
    (hs : request.find? ⟨.service, application⟩ = some s)
    (hhidden : s.clusters.has policy.hijack.intent = false) (replicas : Replicas) :
    let feed : FeedKey := ⟨.service, application⟩
    ∃ shown plainly routed : Payloads,
      h.shownFirst request replicas feed = some shown ∧
      plain.shownFirst request replicas feed = some plainly ∧
      (create policy caller .route).shownFirst request replicas feed = some routed ∧
      ∀ name, (shown name).isSome = s.clusters.has name ∧
        shown name =
          if policy.isIntent name ∧ s.isPinned name = false then routed name else plainly name := by
  intro feed
  obtain ⟨extended, hfind, hshown⟩ := shownFirst_checking hp hr hintent ht hmode hs hhidden replicas
  obtain ⟨s', hs', hsome, -⟩ := hp.requested ht
  rw [hs] at hs'
  cases hs'
  have hplainly := shownFirst_create policy.unhijacked caller mode request replicas feed
  have hrouted := shownFirst_create policy caller .route request replicas feed
  rw [← hplain.eq_create, hs] at hplainly
  rw [hs] at hrouted
  refine ⟨_, _, _, hshown, hplainly, hrouted, fun name => ?_⟩
  have hwithIntent := Session.firstSection_eq extended mode caller policy replicas feed
    (s.withIntent policy.hijack.intent) name
  have hwithout := fun (p : Policy) (m : RouteMode) =>
    Session.firstSection_eq request m caller p replicas feed s name
  simp only [Subscription.mem_wanted_withIntent, Subscription.mem_wanted hsome]
    at hwithIntent hwithout
  rw [hwithIntent, hwithout, hwithout]
  by_cases hname : name = policy.hijack.intent
  · subst hname
    simp [hhidden]
  · cases hhas : s.clusters.has name with
    | false => simp [hname]
    | true =>
      have hserving := serving_checked rfl hs hfind policy caller mode replicas name
      simp only [hname, false_or, if_true, if_false, Option.isSome_some, true_and]
      rw [hserving]
      split <;> rfl

/-- Two intents, each with a default route; callers of `web` are checked. -/
def twoIntents : Policy where
  route :=
    { RouteSettings.standard with
      intents := ["direct", "proxy"]
      defaultPolicy := SortedMap.ofList [("direct", "a"), ("proxy", "b")] }
  hijack := { HijackSettings.standard with modes := SortedMap.ofList [("web", .checking)] }

/-- A cluster with one key. -/
def clusterOf (value : String) : Cluster :=
  ⟨some ⟨"", 0, 1⟩, SortedMap.ofList [("1", ⟨value, 0, 0⟩)]⟩

/-- The tree of `shop`, where a cluster has the name of an intent. -/
def shopTree : Replica :=
  ⟨"/service/shop", some ⟨"", 0, 3⟩,
    SortedMap.ofList [("a", clusterOf "x"), ("b", clusterOf "y"), ("proxy", clusterOf "z")], 7⟩

/-- The only tree with clusters is that of `shop`. -/
def shopTrees : Replicas := fun key =>
  if key.application = "shop" then shopTree else Replica.empty key.root

/-- A cluster of `shop` is asked for, and the one with the name of an intent. -/
def proxyBody : List UInt8 :=
  "\x7b\"service\":\x7b\"shop\":[\"a\",\"proxy\"]\x7d\x7d".toUTF8.toList

/-- What is asked for of `shop`. -/
def proxySelection : Selection :=
  ⟨SortedSet.ofElements ["a", "proxy"], SortedMap.empty, false⟩

/-- What is asked for. -/
def proxyRequest : Request := ⟨SortedMap.ofList [(⟨.service, "shop"⟩, proxySelection)]⟩

/-- The hijacking of a client in `web`, which is checked. -/
def proxyHijack : Hijack :=
  (create twoIntents (some ⟨"web", "main"⟩) .orig).prepareOn "shop" (Replica.empty "/service/web")
    shopTree ⟨"web", "main"⟩ ⟨.checking, SortedSet.ofElements ["a"], false, []⟩

theorem proxyHijack_prepared :
    Prepared twoIntents (some ⟨"web", "main"⟩) .orig proxyRequest proxyHijack :=
  Prepared.start.look _ _ rfl (by decide +kernel)

theorem shownFirst_checked_proxy :
    let feed : FeedKey := ⟨.service, "shop"⟩
    let plain := create twoIntents.unhijacked (some ⟨"web", "main"⟩) .orig
    Request.ofBytes proxyBody = .ok proxyRequest ∧
    proxySelection.clusters.has twoIntents.hijack.intent = false ∧
    ∃ shown plainly routed : Payloads,
      proxyHijack.shownFirst proxyRequest shopTrees feed = some shown ∧
      plain.shownFirst proxyRequest shopTrees feed = some plainly ∧
      (create twoIntents (some ⟨"web", "main"⟩) .route).shownFirst proxyRequest shopTrees feed =
        some routed ∧
      ∀ name, (shown name).isSome = proxySelection.clusters.has name ∧
        shown name =
          if twoIntents.isIntent name ∧ proxySelection.isPinned name = false then routed name
          else plainly name := by
  have hread : Request.ofBytes proxyBody = .ok proxyRequest := by decide +kernel
  have hhidden : proxySelection.clusters.has twoIntents.hijack.intent = false := by decide +kernel
  exact ⟨hread, hhidden,
    shownFirst_checked proxyHijack_prepared .start (Request.wellNamed_ofBytes hread)
      (by decide +kernel) rfl (by decide +kernel) rfl hhidden shopTrees⟩

/-- A client that is only checked, and does not ask for the intent, sees another payload under the
name of another intent than it sees with hijacking switched off. -/
theorem shownFirst_proxy_differs :
    let feed : FeedKey := ⟨.service, "shop"⟩
    let plain := create twoIntents.unhijacked (some ⟨"web", "main"⟩) .orig
    Prepared twoIntents (some ⟨"web", "main"⟩) .orig proxyRequest proxyHijack ∧
    Prepared twoIntents.unhijacked (some ⟨"web", "main"⟩) .orig proxyRequest plain ∧
    (proxyHijack.takeover? "shop").map Takeover.mode = some .checking ∧
    proxySelection.clusters.has twoIntents.hijack.intent = false ∧
    proxySelection.clusters.has "proxy" = true ∧
    ((proxyHijack.shownFirst proxyRequest shopTrees feed).bind fun shown => shown "proxy") =
      some (.object [("1", .object [("value", .string "y")])]) ∧
    ((plain.shownFirst proxyRequest shopTrees feed).bind fun shown => shown "proxy") =
      some (.object [("1", .object [("value", .string "z")])]) :=
  ⟨proxyHijack_prepared, .start, by decide +kernel⟩

end Routing.Hijack

end Treecast
