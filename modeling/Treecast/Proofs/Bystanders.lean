import Treecast.Proofs.Diagnosis

/-!
# What hijacking leaves alone

A hijacking is prepared for some destinations of one request, each in a mode of its own.  Whatever
else is in a request or in a message stays as it is: feeds of other kinds, other applications,
clusters that are not hijacked, and anything in a body that is no section at all.

A message may lose its empty sections, and an `update` or `delete` may be dropped altogether; but
nothing gets lost with it that was not hijacked.  For this a message is looked at in two ways: entry
by entry (`Message.payloadAt?`), where empty sections make no difference, and as a whole without the
service sections of some applications (`Message.withoutService`), where they do.

## Results

* `Message.prune_withoutService_prune`: pruning a message and taking sections out of it.
* `Hijack.payloadAt?_projectSections`, `Hijack.withoutService_projectSections`: what the rewriting
  of sections leaves alone.
* `Hijack.modeFor_eq_disabled_iff`, `Hijack.Prepared.eq_create_of_disabled`: which destinations are
  left alone, and what is prepared if all of them are.
* `Hijack.extended_extendRequest`: what is asked for on the side.
* `Hijack.spares_bystanders`: hijacking touches only what it hijacks.
-/

set_option autoImplicit false

namespace Treecast

open Json (Value)

namespace Message

/-! ## Parts of a message -/

/-- The payload of a cluster in a section, whatever its kind is called. -/
def payloadAt? (m : Message) (kind application cluster : String) : Option Value :=
  ((m.body.get? kind).bind (Value.get? application)).bind (Value.get? cluster)

/-- An object without some of its members. -/
def dropMembers (drop : String → Bool) : Value → Value
  | .object members => .object (members.filter fun e => !drop e.1)
  | v => v

/-- The message without the service sections of some applications. -/
def withoutService (m : Message) (drop : String → Bool) : Message :=
  { m with body := alterMember FeedKind.service.name (dropMembers drop) m.body }

variable {m : Message} {v w : Value} {key : String} {drop : String → Bool}

/-- The value is an object whose members are in order. -/
def IsObject (v : Value) : Prop :=
  ∃ members : Entries String Value, members.Sorted ∧ v = .object members

/-- Objects are the same if they have the same members. -/
theorem IsObject.ext (hv : IsObject v) (hw : IsObject w) (h : ∀ key, v.get? key = w.get? key) :
    v = w := by
  obtain ⟨members, hs, rfl⟩ := hv
  obtain ⟨others, ho, rfl⟩ := hw
  rw [Entries.ext_find? hs ho h]

theorem IsObject.sortedTo (hv : IsObject v) : v.SortedTo 1 := by
  obtain ⟨members, hs, rfl⟩ := hv
  refine ⟨hs, fun e _ => ?_⟩
  cases e.2 <;> trivial

theorem IsObject.alterMember (hv : IsObject v) (key : String) (f : Value → Value) :
    IsObject (alterMember key f v) := by
  obtain ⟨members, hs, rfl⟩ := hv
  cases hfind : Entries.find? key members with
  | none => exact ⟨members, hs, by simp only [Message.alterMember, hfind]⟩
  | some w =>
    exact ⟨_, Entries.insert_sorted key (f w) hs, by simp only [Message.alterMember, hfind]⟩

/-- An entry of a service section is one of the clusters there. -/
theorem payloadAt?_service (m : Message) (application cluster : String) :
    m.payloadAt? FeedKind.service.name application cluster =
      (m.clusters? ⟨.service, application⟩).bind (Entries.find? cluster) := by
  have hget : ∀ v : Value, v.get? cluster = v.members?.bind (Entries.find? cluster) := by
    intro v
    cases v <;> rfl
  rw [payloadAt?, clusters?, Option.bind_assoc]
  cases m.body.get? FeedKind.service.name with
  | none => rfl
  | some sections =>
    simp only [Option.bind_eq_bind, Option.bind_some]
    cases sections.get? application with
    | none => rfl
    | some v => exact hget v

theorem alterMember_congr {f g : Value → Value} (h : ∀ w, v.get? key = some w → f w = g w) :
    alterMember key f v = alterMember key g v := by
  cases v with
  | object members =>
    cases hfind : Entries.find? key members with
    | none => simp only [alterMember, hfind]
    | some w => simp only [alterMember, hfind, h w hfind]
  | _ => rfl

/-- Two changes of one member are one change. -/
theorem alterMember_alterMember (h : v.SortedTo 1) (f g : Value → Value) :
    alterMember key f (alterMember key g v) = alterMember key (fun w => f (g w)) v := by
  cases v with
  | object members =>
    cases hfind : Entries.find? key members with
    | none => simp only [alterMember, hfind]
    | some w =>
      have hnew : Entries.find? key (Entries.insert key (g w) members) = some (g w) := by
        rw [Entries.find?_insert, if_pos rfl]
      simp only [alterMember, hfind, hnew, Entries.insert_insert key (g w) (f (g w)) h.1]
  | _ => rfl

/-- A change of a member that is taken out anyway. -/
theorem dropMembers_alterMember (h : v.SortedTo 1) (hkey : drop key = true) (f : Value → Value) :
    dropMembers drop (alterMember key f v) = dropMembers drop v := by
  cases v with
  | object members =>
    cases hfind : Entries.find? key members with
    | none => simp only [alterMember, hfind]
    | some w =>
      have hsorted := Entries.insert_sorted key (f w) h.1
      simp only [alterMember, hfind, dropMembers]
      refine IsObject.ext ⟨_, Entries.filter_sorted _ hsorted, rfl⟩
        ⟨_, Entries.filter_sorted _ h.1, rfl⟩ fun other => ?_
      rw [Value.get?, Value.get?, Entries.find?_filter _ other hsorted,
        Entries.find?_filter _ other h.1, Entries.find?_insert]
      by_cases hother : other = key
      · rw [if_pos hother, hother, hfind]
        simp [Option.filter, hkey]
      · rw [if_neg hother]
  | _ => rfl

/-- **Changing a service section** leaves the message without it as it is. -/
theorem withoutService_alterClusters (hm : m.body.SortedTo 2) {application : String}
    (hdrop : drop application = true) (f : Entries String Value → Entries String Value) :
    (m.alterClusters ⟨.service, application⟩ f).withoutService drop = m.withoutService drop := by
  rw [withoutService, withoutService, alterClusters]
  dsimp only
  rw [alterMember_alterMember hm.of_succ]
  congr 1
  refine alterMember_congr fun w hw => ?_
  exact dropMembers_alterMember (hm.get? hw) hdrop _

/-! ## Empty sections -/

theorem pruneKind_pruneKind (v : Value) : pruneKind (pruneKind v) = pruneKind v := by
  cases v with
  | object sections => simp [pruneKind, List.filter_filter]
  | _ => rfl

theorem pruneKind_dropMembers (drop : String → Bool) (v : Value) :
    pruneKind (dropMembers drop v) = dropMembers drop (pruneKind v) := by
  cases v with
  | object sections =>
    simp only [dropMembers, pruneKind, List.filter_filter, Bool.and_comm]
  | _ => rfl

theorem isEmptyObject_dropMembers (h : v.isEmptyObject = true) :
    (dropMembers drop v).isEmptyObject = true := by
  cases v with
  | object members =>
    have hnil : members = [] := List.isEmpty_iff.1 h
    subst hnil
    rfl
  | _ => cases h

/-- Pruning a second time does nothing. -/
theorem prune_prune (m : Message) : m.prune.prune = m.prune := by
  obtain ⟨kind, body⟩ := m
  cases body with
  | object kinds =>
    have hkept : ∀ e ∈ (kinds.map fun k => (k.1, pruneKind k.2)).filter
        (fun k => !k.2.isEmptyObject), (e.1, pruneKind e.2) = e := by
      intro e he
      obtain ⟨k, -, rfl⟩ := List.mem_map.1 (List.mem_filter.1 he).1
      rw [pruneKind_pruneKind]
    simp only [prune, List.map_congr_left hkept, List.map_id', List.filter_filter, Bool.and_self]
  | _ => rfl

theorem payloadAt?_eq_sectionAt? (m : Message) (kind application cluster : String) :
    m.payloadAt? kind application cluster =
      (m.sectionAt? kind application).bind (Value.get? cluster) :=
  rfl

/-- Empty sections hold no entry. -/
theorem payloadAt?_prune (hm : m.body.SortedTo 2) (kind application cluster : String) :
    m.prune.payloadAt? kind application cluster = m.payloadAt? kind application cluster := by
  rw [payloadAt?_eq_sectionAt?, payloadAt?_eq_sectionAt?, sectionAt?_prune hm, bind_get?_filter]

/-- A message without entries has none in any section. -/
theorem payloadAt?_of_hasEntries (h : m.hasEntries = false) (kind application cluster : String) :
    m.payloadAt? kind application cluster = none := by
  obtain ⟨messageKind, body⟩ := m
  refine Option.eq_none_iff_forall_ne_some.2 fun payload hentry => ?_
  obtain ⟨clusters, hclusters, hcluster⟩ := Option.bind_eq_some_iff.1 hentry
  obtain ⟨sections, hsections, happlication⟩ := Option.bind_eq_some_iff.1 hclusters
  cases body with
  | object kinds =>
    have hkind := List.any_eq_false.1 h _ (Entries.mem_of_find? hsections)
    cases sections with
    | object sections =>
      have hnone := List.any_eq_false.1 (Bool.eq_false_iff.2 hkind) _
        (Entries.mem_of_find? happlication)
      cases clusters with
      | object members =>
        have hnil : members = [] := by simpa [sectionHasEntries] using hnone
        subst hnil
        cases hcluster
      | _ => cases hcluster
    | _ => cases happlication
  | _ => cases hsections

theorem IsObject.prune {kind : MessageKind} (hv : IsObject v) :
    IsObject (prune ⟨kind, v⟩).body := by
  obtain ⟨members, hs, rfl⟩ := hv
  exact ⟨_, Entries.filter_sorted _ (Entries.map_sorted (fun _ v => pruneKind v) hs), rfl⟩

/-- What is empty before a change of its sections is empty after it. -/
theorem filter_map_pruneKind {f : Value → Value} (hcomm : ∀ v, pruneKind (f v) = f (pruneKind v))
    (hempty : ∀ v, v.isEmptyObject = true → (f v).isEmptyObject = true) (o : Option Value) :
    ((((o.map pruneKind).filter fun v => !v.isEmptyObject).map f).map pruneKind).filter
        (fun v => !v.isEmptyObject) =
      ((o.map f).map pruneKind).filter fun v => !v.isEmptyObject := by
  cases o with
  | none => rfl
  | some v =>
    simp only [Option.map_some]
    cases hv : (pruneKind v).isEmptyObject with
    | true =>
      rw [Option.filter_some_neg (by simp [hv]), Option.filter_some_neg]
      · rfl
      · simp [hcomm, hempty _ hv]
    | false =>
      rw [Option.filter_some_pos (by simp [hv]), Option.map_some, Option.map_some, hcomm,
        pruneKind_pruneKind, hcomm]

/-- **Pruning first** makes no difference to a message that some sections are taken out of, once it
is pruned then. -/
theorem prune_withoutService_prune (hm : m.body.SortedTo 1) (drop : String → Bool) :
    (m.prune.withoutService drop).prune = (m.withoutService drop).prune := by
  obtain ⟨kind, body⟩ := m
  cases body with
  | object kinds =>
    have hbody : IsObject (.object kinds) := ⟨kinds, hm.1, rfl⟩
    have hpruned : IsObject (prune ⟨kind, .object kinds⟩).body := hbody.prune
    have hfirst := hpruned.alterMember FeedKind.service.name (dropMembers drop)
    have hthen := hbody.alterMember FeedKind.service.name (dropMembers drop)
    have hbodies : (prune ⟨kind, alterMember FeedKind.service.name (dropMembers drop)
          (prune ⟨kind, .object kinds⟩).body⟩).body =
        (prune ⟨kind, alterMember FeedKind.service.name (dropMembers drop)
          (.object kinds)⟩).body := by
      refine hfirst.prune.ext hthen.prune fun other => ?_
      rw [get?_prune hfirst.sortedTo, get?_prune hthen.sortedTo]
      simp only [get?_alterMember, get?_prune hm]
      split
      · exact filter_map_pruneKind (pruneKind_dropMembers drop)
          (fun _ => isEmptyObject_dropMembers) _
      · have hkept := filter_map_pruneKind (f := id) (fun _ => rfl) (fun _ => id)
          ((Value.object kinds).get? other)
        simpa only [Option.map_id_fun, id_eq] using hkept
    have hsame : ∀ x y : Message, x.kind = y.kind → x.body = y.body → x = y := by
      rintro ⟨_, _⟩ ⟨_, _⟩ rfl rfl
      rfl
    exact hsame _ _ (by simp only [kind_prune, withoutService]) hbodies
  | _ => rfl

end Message

namespace Routing.Hijack

variable {h : Hijack} {policy : Policy} {caller : Option Caller} {mode : RouteMode}
  {request : Request} {application : String} {t : Takeover} {m m' : Message}

/-! ## Rewritten messages -/

/-- Whether an application is a destination that was looked at. -/
def isDestination (h : Hijack) (application : String) : Bool := (h.takeover? application).isSome

/-- The entry is one that hijacking is about: the intent of a destination, if the client did not ask
for it, or a hijacked cluster, unless the destination is only checked. -/
def Hijacks (h : Hijack) (kind application cluster : String) : Prop :=
  kind = FeedKind.service.name ∧ ∃ t, h.takeover? application = some t ∧
    ((cluster = h.intent ∧ t.intentRequested = false) ∨
      (t.mode.projects = true ∧ t.clusters.has cluster = true))

theorem get?_projectSections_of_ne {kind : String} (hkind : kind ≠ FeedKind.service.name)
    (h : Hijack) (m : Message) : (h.projectSections m).body.get? kind = m.body.get? kind := by
  refine projectSections_keeps (P := fun x => x.body.get? kind = m.body.get? kind) h rfl
    fun x application f _ hx => ?_
  exact ((Message.get?_alterMember _ _ _ _).trans (if_neg hkind)).trans hx

/-- **Entry by entry** rewriting touches only what is hijacked. -/
theorem payloadAt?_projectSections (hm : m.body.inOrder = m.body) {kind cluster : String}
    (hnot : ¬ h.Hijacks kind application cluster) :
    (h.projectSections m).payloadAt? kind application cluster =
      m.payloadAt? kind application cluster := by
  by_cases hkind : kind = FeedKind.service.name
  · subst hkind
    rw [Message.payloadAt?_service, Message.payloadAt?_service, clusters?_projectSections]
    cases ht : h.takeoverOf? ⟨.service, application⟩ with
    | none => rfl
    | some t =>
      have htakeover : h.takeover? application = some t := by
        rw [takeoverOf?, if_pos rfl] at ht
        exact (Option.filter_eq_some_iff.1 ht).1
      cases hc : m.clusters? ⟨.service, application⟩ with
      | none => rfl
      | some clusters =>
        have hs := Message.sorted_of_inOrder hm hc
        have hhidden : ¬ (cluster = h.intent ∧ ¬ t.intentRequested = true) :=
          fun hc => hnot ⟨rfl, t, htakeover, .inl ⟨hc.1, Bool.eq_false_iff.2 hc.2⟩⟩
        have hshown : ¬ (t.mode.projects = true ∧ t.clusters.has cluster = true) :=
          fun hc => hnot ⟨rfl, t, htakeover, .inr hc⟩
        simp only [Option.map_some, Option.bind_some]
        rw [find?_projectClusters h.intent m.kind t hs]
        simp only [hshown, hhidden, if_false]
  · rw [Message.payloadAt?, Message.payloadAt?, get?_projectSections_of_ne hkind]

/-- **As a whole** a message without the sections of destinations stays as it is. -/
theorem withoutService_projectSections (hm : m.body.SortedTo 2) (h : Hijack) :
    (h.projectSections m).withoutService h.isDestination = m.withoutService h.isDestination := by
  have hkept := projectSections_keeps (P := fun x => x.body.SortedTo 2 ∧
    x.withoutService h.isDestination = m.withoutService h.isDestination) h ⟨hm, rfl⟩
  refine (hkept fun x application f hdestination hx => ⟨?_, ?_⟩).2
  · exact Message.sortedTo_alterClusters hx.1 _ f
  · rw [Message.withoutService_alterClusters hx.1 hdestination, hx.2]

/-- What the client gets of a message, if it gets it. -/
structure Rewritten (h : Hijack) (m m' : Message) : Prop where
  kind : m'.kind = m.kind
  /-- Every entry stays, but for those that are hijacked. -/
  entries : ∀ kind application cluster, ¬ h.Hijacks kind application cluster →
    m'.payloadAt? kind application cluster = m.payloadAt? kind application cluster
  /-- All that is no service section of a destination stays; an `update` or `delete` may lose its
  empty sections. -/
  rest : m'.withoutService h.isDestination = m.withoutService h.isDestination ∨
    ((m.kind = .update ∨ m.kind = .delete) ∧ m'.prune = m' ∧
      (m'.withoutService h.isDestination).prune = (m.withoutService h.isDestination).prune)

/-- Why the client does not get a message. -/
structure Dropped (h : Hijack) (m : Message) : Prop where
  kind : m.kind = .update ∨ m.kind = .delete
  /-- No entry is left. -/
  left : ∀ kind application cluster,
    (h.projectSections m).payloadAt? kind application cluster = none
  /-- Only entries were lost that are hijacked. -/
  lost : ∀ kind application cluster, (m.payloadAt? kind application cluster).isSome = true →
    h.Hijacks kind application cluster

/-- **Every message** is rewritten or dropped. -/
theorem project_spares (hm : m.body.inOrder = m.body) (h : Hijack) :
    match h.project m with
    | some m' => h.Rewritten m m'
    | none => h.Dropped m := by
  have hsorted : m.body.SortedTo 2 := Value.sortedTo_of_inOrder 2 hm
  have hsections := sortedTo_projectSections h hsorted
  have hwhole := withoutService_projectSections hsorted h
  unfold project
  by_cases hidle : m.kind = .ping ∨ (!h.isActive) = true
  · rw [if_pos hidle]
    exact ⟨rfl, fun _ _ _ _ => rfl, .inl rfl⟩
  rw [if_neg hidle]
  dsimp only
  by_cases hall : m.kind = .all
  · rw [if_pos ((kind_projectSections h m).trans hall)]
    exact ⟨kind_projectSections h m, fun _ _ _ hnot => payloadAt?_projectSections hm hnot,
      .inl hwhole⟩
  rw [if_neg fun heq => hall ((kind_projectSections h m).symm.trans heq)]
  have hkind : m.kind = .update ∨ m.kind = .delete := by
    cases hkind : m.kind with
    | all => exact absurd hkind hall
    | update => exact .inl rfl
    | delete => exact .inr rfl
    | ping => exact absurd (.inl hkind) hidle
  cases hleft : (h.projectSections m).prune.hasEntries with
  | true =>
    rw [if_pos rfl]
    refine ⟨(Message.kind_prune _).trans (kind_projectSections h m), ?_, .inr ⟨hkind, ?_, ?_⟩⟩
    · intro kind application cluster hnot
      rw [Message.payloadAt?_prune hsections]
      exact payloadAt?_projectSections hm hnot
    · exact Message.prune_prune _
    · rw [Message.prune_withoutService_prune hsections.of_succ, hwhole]
  | false =>
    have hnone : ∀ kind application cluster,
        (h.projectSections m).payloadAt? kind application cluster = none := by
      intro kind application cluster
      rw [← Message.payloadAt?_prune hsections]
      exact Message.payloadAt?_of_hasEntries hleft kind application cluster
    rw [if_neg Bool.false_ne_true]
    refine ⟨hkind, hnone, fun kind application cluster hsome => ?_⟩
    refine Classical.byContradiction fun hnot => ?_
    rw [← payloadAt?_projectSections hm hnot, hnone] at hsome
    cases hsome

/-! ## Destinations that are left alone -/

/-- Why a destination is left alone: the client routes intents itself, or does not say who it is, or
the settings do not hijack it, or they except it from standalone mode. -/
def LeftAlone (policy : Policy) (caller : Option Caller) (mode : RouteMode)
    (application : String) : Prop :=
  mode = .route ∨ caller = none ∨ ∃ c, caller = some c ∧
    (policy.hijackMode c.application (some c.cluster) = .disabled ∨
      (policy.hijackMode c.application (some c.cluster) = .standalone ∧
        policy.standaloneExcludes application c.application = true))

theorem modeFor_eq_disabled_iff :
    (create policy caller mode).modeFor application = .disabled ↔
      LeftAlone policy caller mode application := by
  unfold LeftAlone modeFor create
  dsimp only
  by_cases hroute : mode = .route
  · simp [hroute]
  cases caller with
  | none => simp [hroute]
  | some c =>
    cases hmode : policy.hijackMode c.application (some c.cluster) with
    | standalone =>
      by_cases hexcluded : policy.standaloneExcludes application c.application = true
      · simp [hroute, hmode, hexcluded]
      · simp [hroute, hmode, hexcluded]
    | _ => simp [hroute, hmode]

/-- What is prepared for a destination does something. -/
theorem Prepared.mode_ne_disabled (hp : Prepared policy caller mode request h)
    (ht : h.takeover? application = some t) : t.mode ≠ .disabled := by
  induction hp with
  | start => cases ht
  | look callerTree destination _ _ hmem ih =>
    rw [takeover?, prepareOn, SortedMap.find?_insert] at ht
    split at ht
    · cases ht
      obtain ⟨hmode, hactive, -⟩ := of_mem_candidates hmem
      rw [mode_diagnose]
      split
      · rwa [hmode]
      · exact HijackMode.noConfusion
    · exact ih ht

/-! ## Requests -/

/-- Every feed is asked for as before, but for destinations, for which the intent may be asked for
on the side.  Some of their clusters are asked for by name, and these and the pins all stay. -/
def Extended (h : Hijack) (request extended : Request) : Prop :=
  ∀ feed, extended.find? feed = request.find? feed ∨
    ∃ s, feed.kind = .service ∧ h.isDestination feed.application = true ∧
      request.find? feed = some s ∧ s.isAll = false ∧
      extended.find? feed = some
        { s with clusters := s.clusters.add h.intent, intentRouting := true }

/-- Asking for an intent a second time does nothing. -/
theorem withIntent_withIntent (s : Selection) (intent : String) :
    (s.withIntent intent).withIntent intent = s.withIntent intent := by
  have hadd : (s.clusters.add intent).add intent = s.clusters.add intent :=
    SortedMap.insert_of_find? (by rw [SortedSet.add, SortedMap.find?_insert, if_pos rfl])
  simp only [Selection.withIntent, Selection.limit, hadd]

/-- Asking for the intent of one destination. -/
theorem Extended.askFor {asked : Request × Option RequestFault} {e : String × Takeover}
    (he : h.Extended request asked.1) (hdestination : h.isDestination e.1 = true)
    (hasked : ∃ s, request.find? ⟨.service, e.1⟩ = some s ∧ s.isAll = false) :
    h.Extended request (askFor h.intent asked e).1 := by
  unfold Hijack.askFor
  split
  · exact he
  split
  · rename_i limited hlimit
    obtain ⟨-, -, rfl⟩ := Request.limit_eq_ok_iff.1 hlimit
    intro feed
    dsimp only
    rw [Request.find?_routeIntents, Request.find?_alter, Request.find?_alter, if_pos rfl]
    by_cases hfeed : feed = ⟨.service, e.1⟩
    · subst hfeed
      obtain ⟨s, hs, hsome⟩ := hasked
      -- the intent may have been asked for before
      have hknown : ∃ known, asked.1.selectionOf ⟨.service, e.1⟩ = known ∧
          known.withIntent h.intent = s.withIntent h.intent := by
        rcases he ⟨.service, e.1⟩ with hsame | ⟨s', -, -, hs', -, hextended⟩
        · exact ⟨s, by rw [Request.selectionOf, hsame, hs, Option.getD_some], rfl⟩
        · cases hs.symm.trans hs'
          refine ⟨s.withIntent h.intent, ?_, withIntent_withIntent s h.intent⟩
          rw [Request.selectionOf, hextended, Option.getD_some]
          rfl
      obtain ⟨known, hknown, hsame⟩ := hknown
      refine .inr ⟨s, rfl, hdestination, hs, hsome, ?_⟩
      rw [if_pos rfl, hknown]
      exact congrArg some hsame
    · rw [if_neg hfeed, if_neg hfeed]
      exact he feed
  · exact he

/-- **What is asked for on the side**, even if the request is refused in the end. -/
theorem extended_extendRequest (hp : Prepared policy caller mode request h) :
    h.Extended request (h.extendRequest request).1 := by
  rw [extendRequest_eq_foldl]
  refine List.foldlRecOn (motive := fun asked : Request × Option RequestFault =>
    h.Extended request asked.1) _ _ (fun _ => .inl rfl) fun asked hasked e he => ?_
  have ht : h.takeover? e.1 = some e.2 := SortedMap.mem_toList_iff.1 he
  obtain ⟨s, hs, hsome, -⟩ := hp.requested ht
  exact hasked.askFor (by rw [isDestination, ht, Option.isSome_some]) ⟨s, hs, hsome⟩

/-- A refusal ends it. -/
theorem foldl_askFor_of_refused (intent : String) (entries : List (String × Takeover))
    (asked : Request) (fault : RequestFault) :
    entries.foldl (Hijack.askFor intent) (asked, some fault) = (asked, some fault) := by
  induction entries with
  | nil => rfl
  | cons e rest ih =>
    rw [List.foldl_cons]
    exact ih

/-- A request that is not refused gets the intent of every destination. -/
theorem extendRequest_of_accepted (haccepted : (h.extendRequest request).2 = none) :
    h.extendRequest request =
      (h.takeovers.toList.foldl (fun r e => askOnTheSide h.intent r e.1 e.2) request, none) := by
  rw [extendRequest_eq_foldl] at haccepted ⊢
  revert haccepted
  generalize h.takeovers.toList = entries
  induction entries generalizing request with
  | nil => exact fun _ => rfl
  | cons e rest ih =>
    rw [List.foldl_cons, List.foldl_cons]
    intro haccepted
    have hfirst : Hijack.askFor h.intent (request, none) e =
        (askOnTheSide h.intent request e.1 e.2, none) := by
      unfold Hijack.askFor askOnTheSide
      by_cases hmode : e.2.mode = .disabled
      · simp [hmode]
      · cases hlimit : request.limit ⟨.service, e.1⟩ h.intent with
        | error fault =>
          have hrefused : Hijack.askFor h.intent (request, none) e = (request, some fault) := by
            simp [Hijack.askFor, hmode, hlimit]
          rw [hrefused, foldl_askFor_of_refused] at haccepted
          cases haccepted
        | ok limited =>
          obtain ⟨-, -, rfl⟩ := Request.limit_eq_ok_iff.1 hlimit
          simp [hmode]
    rw [hfirst] at haccepted ⊢
    exact ih haccepted

/-- **Hijacking touches only what it hijacks.**  Take a hijacking that was prepared, in whatever
modes, for some destinations of a request, and any message.

* If the client gets the message, its kind is the same, and so is every entry that is not hijacked
  and everything that is no service section of a destination, but that an `update` or `delete` loses
  its empty sections.  If the client does not get it, then it is an `update` or `delete` without an
  entry left, and of hijacked entries only.
* If every destination of the request is left alone, the request stays as it is, and so does every
  message.
* What is asked for stays asked for.  For destinations alone the intent is asked for besides, to be
  resolved as an intent; and for all of them, unless the request is refused. -/
theorem spares_bystanders (hp : Prepared policy caller mode request h)
    (hm : m.body.inOrder = m.body) :
    (match h.project m with
      | some m' => h.Rewritten m m'
      | none => h.Dropped m) ∧
    ((∀ application s, request.find? ⟨.service, application⟩ = some s →
        LeftAlone policy caller mode application) →
      h.extendRequest request = (request, none) ∧ h.project m = some m) ∧
    h.Extended request (h.extendRequest request).1 ∧
    ((h.extendRequest request).2 = none → ∀ application t, h.takeover? application = some t →
      ∃ s, request.find? ⟨.service, application⟩ = some s ∧
        (h.extendRequest request).1.find? ⟨.service, application⟩ = some
          { s with clusters := s.clusters.add h.intent, intentRouting := true }) := by
  refine ⟨project_spares hm h, fun halone => ?_, extended_extendRequest hp,
    fun haccepted application t ht => ?_⟩
  · have hcreate := hp.eq_create_of_disabled fun application s hs =>
      modeFor_eq_disabled_iff.2 (halone application s hs)
    rw [hcreate]
    exact ⟨rfl, if_pos (.inr rfl)⟩
  · obtain ⟨s, hs, -⟩ := hp.requested ht
    refine ⟨s, hs, ?_⟩
    rw [extendRequest_of_accepted haccepted]
    exact find?_extended h.intent ht (hp.mode_ne_disabled ht) hs

/-- An update with a hijacked section, the same clusters in two other sections, and an empty one. -/
def mixedUpdate : Message :=
  ⟨.update, .object [
    ("config", .object [
      ("shop", .object [("a", .string "x"), ("direct", .string "y")]),
      ("web", .object [])]),
    ("service", .object [
      ("other", .object [("a", .string "x"), ("direct", .string "y")]),
      ("shop", .object [("a", .string "x"), ("direct", .string "y")])])]⟩

/-- The same without the empty section, and with the intent under the hijacked names. -/
def mixedUpdateShown : Message :=
  ⟨.update, .object [
    ("config", .object [
      ("shop", .object [("a", .string "x"), ("direct", .string "y")])]),
    ("service", .object [
      ("other", .object [("a", .string "x"), ("direct", .string "y")]),
      ("shop", .object [("a", .string "y"), ("b", .string "y")])])]⟩

theorem spares_bystanders_shop :
    Prepared webPolicy (some ⟨"web", "w"⟩) .orig shopRequest shopHijack ∧
    mixedUpdate.body.inOrder = mixedUpdate.body ∧
    shopHijack.project mixedUpdate = some mixedUpdateShown ∧
    shopHijack.Rewritten mixedUpdate mixedUpdateShown ∧
    shopHijack.Extended shopRequest (shopHijack.extendRequest shopRequest).1 := by
  have hprepared : Prepared webPolicy (some ⟨"web", "w"⟩) .orig shopRequest shopHijack :=
    Prepared.start.look _ _ rfl (by decide)
  have horder : mixedUpdate.body.inOrder = mixedUpdate.body := by decide
  have hproject : shopHijack.project mixedUpdate = some mixedUpdateShown := by decide
  obtain ⟨hrewritten, -, hextended, -⟩ := spares_bystanders hprepared horder
  rw [hproject] at hrewritten
  exact ⟨hprepared, horder, hproject, hrewritten, hextended⟩

end Routing.Hijack

end Treecast
