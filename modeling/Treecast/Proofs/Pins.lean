import Treecast.Proofs.Checking
import Treecast.Proofs.ForcedRoutes
import Treecast.Proofs.Metadata

/-!
# Pins

A pin has a name of a feed served from one fixed cluster.  Nothing that becomes of a request on its
way to a session takes a pin away: forced routes add pins of their own, and hijacking adds its
intent.  Resolution looks at pins first, and hijacking leaves pinned names alone, so that what a
session shows under the name, rewritten or not, is what the cluster shows by itself
(`Replica.own`): no metadata of routing, no caller and no mode has a say in it.

## Results

* `Request.Pinned.pins`, `Request.Pins.extendRequest`: pins stay.
* `Subscription.serving_of_pins`: a pinned name is served by its cluster.
* `Hijack.Prepared.spares`, `Hijack.Spares.under_filterMap_project`: rewriting does not change what
  is shown under a pinned name.
* `Session.under_start`: the first `all` shows the cluster's own data under a pinned name.
-/

set_option autoImplicit false

namespace Treecast

open Routing
open Json (Value)

/-! ## Pinned requests -/

namespace Selection

/-- A name is asked for and pinned to a cluster. -/
def Pins (s : Selection) (name target : String) : Prop :=
  s.clusters.has name = true ∧ s.pinned.find? name = some target

variable {s : Selection} {name target : String}

theorem Pins.limit (h : s.Pins name target) (cluster : String) :
    (s.limit cluster).Pins name target :=
  ⟨by rw [Selection.limit, SortedSet.has_add, h.1, Bool.or_true], h.2⟩

theorem Pins.isPinned (h : s.Pins name target) : s.isPinned name = true := by
  rw [Selection.isPinned, SortedMap.contains, h.2]
  rfl

end Selection

namespace Request

/-- A request asks for a name of a feed and pins it to a cluster. -/
def Pins (r : Request) (feed : FeedKey) (name target : String) : Prop :=
  ∃ s, r.find? feed = some s ∧ s.Pins name target

variable {r r' : Request} {feed key : FeedKey} {name target cluster : String}

theorem Pins.alter (h : r.Pins feed name target) {f : Selection → Selection}
    (hf : key = feed → ∀ s : Selection, s.Pins name target → (f s).Pins name target) :
    (r.alter key f).Pins feed name target := by
  obtain ⟨s, hs, hpins⟩ := h
  rw [Pins, find?_alter]
  by_cases hkey : feed = key
  · subst hkey
    rw [if_pos rfl, selectionOf, hs]
    exact ⟨_, rfl, hf rfl s hpins⟩
  · rw [if_neg hkey]
    exact ⟨s, hs, hpins⟩

theorem Pins.limit (h : r.Pins feed name target) (hok : r.limit key cluster = .ok r') :
    r'.Pins feed name target := by
  obtain ⟨-, -, rfl⟩ := limit_eq_ok_iff.1 hok
  exact h.alter fun _ _ hs => hs.limit cluster

theorem Pins.routeIntents (h : r.Pins feed name target) (key : FeedKey) :
    (r.routeIntents key).Pins feed name target := by
  obtain ⟨s, hs, hpins⟩ := h
  rw [Pins, find?_routeIntents]
  split
  · rename_i hkey
    subst hkey
    rw [hs]
    exact ⟨_, rfl, hpins⟩
  · exact ⟨s, hs, hpins⟩

end Request

/-! ## Forced routes -/

namespace Routing.ForceTable

variable {request request' : Request} {feed : FeedKey} {name target : String}

/-- **A table of forced routes** sets the pins that it forces, and leaves those that are there. -/
theorem pins_apply {t : ForceTable} {caller : Option String} {n : Nat}
    (h : request.Pins feed name target ∨ t.Forces request caller feed name target)
    (happly : t.apply request caller = (request', n, none)) : request'.Pins feed name target := by
  have hasked : ∃ asked, request.find? feed = some asked ∧ asked.clusters.has name = true ∧
      (asked.pinned.find? name = some target ∨ t.Forces request caller feed name target) := by
    rcases h with ⟨asked, hasked, hhas, hpinned⟩ | hforces
    · exact ⟨asked, hasked, hhas, .inl hpinned⟩
    · obtain ⟨asked, hasked, hhas, -⟩ := hforces.asked
      exact ⟨asked, hasked, hhas, .inr hforces⟩
  obtain ⟨asked, hasked, hhas, hpinned⟩ := hasked
  have hafter := find?_apply happly feed
  rw [hasked, Option.map_some] at hafter
  exact ⟨_, hafter, hhas, (find?_pinnedIn_pins hasked).2 hpinned⟩

end Routing.ForceTable

/-- A name is pinned in a request: it was asked for so, or a table of forced routes was applied to a
request that pins it or of which it forces the name. -/
def Request.Pinned (r : Request) (feed : FeedKey) (name target : String) : Prop :=
  r.Pins feed name target ∨ ∃ (t : ForceTable) (raw : Request) (caller : Option String) (n : Nat),
    t.apply raw caller = (r, n, none) ∧
      (raw.Pins feed name target ∨ t.Forces raw caller feed name target)

theorem Request.Pinned.pins {r : Request} {feed : FeedKey} {name target : String}
    (h : r.Pinned feed name target) : r.Pins feed name target :=
  h.elim id fun ⟨_, _, _, _, happly, hforced⟩ => ForceTable.pins_apply hforced happly

/-- **The request with the intents of hijacking** has the pins of the request. -/
theorem Request.Pins.extendRequest {r : Request} {feed : FeedKey} {name target : String}
    (h : r.Pins feed name target) (hijack : Hijack) :
    (hijack.extendRequest r).1.Pins feed name target := by
  unfold Hijack.extendRequest
  refine List.foldlRecOn (motive := fun asked : Request × Option RequestFault =>
    asked.1.Pins feed name target) _ _ h ?_
  intro asked hasked e _
  dsimp only
  split
  · exact hasked
  · split
    · exact (hasked.limit ‹_›).routeIntents _
    · exact hasked

/-! ## Pinned names of subscriptions -/

namespace Routing.ClusterMetadata

theorem sorted_info (text : String) : Entries.Sorted (decode text).info := by
  rw [decode]
  cases h : decode? text with
  | none => exact List.Pairwise.nil
  | some m => exact (Value.members_of_inOrder (inOrder_info_of_decode? h)).1

end Routing.ClusterMetadata

/-- What a cluster shows by itself in a feed of that kind: its keys with their values, or its
descriptive fields.  A cluster that is not there shows nothing. -/
def Replica.own (r : Replica) (kind : FeedKind) (cluster : String) : Value :=
  .object <|
    match r.cluster? cluster with
    | none => []
    | some c =>
      match kind with
      | .serviceInfo => (ClusterMetadata.decode c.value).info
      | _ => c.keys.toList.map fun e => (e.1, .object [("value", .string e.2.value)])

namespace Subscription

theorem addMissing_nil {ν : Type} {more : Entries String ν} (h : more.Sorted) :
    addMissing [] more = more :=
  Entries.ext_find? (addMissing_sorted List.Pairwise.nil more) h fun key =>
    (find?_addMissing [] more key).trans (Option.none_or ..)

/-- **A name that one cluster serves** shows what the cluster shows by itself. -/
theorem payload_single (s : Subscription) (r : Replica) (cluster : String) :
    s.payload r [cluster] = r.own s.feed.kind cluster := by
  have hmerged : ∀ entries : Cluster → Entries String Value,
      (∀ c, Entries.Sorted (entries c)) → merged entries r [cluster] =
        ((r.cluster? cluster).map entries).getD [] := by
    intro entries hsorted
    rw [merged, List.foldl_cons, List.foldl_nil]
    cases r.cluster? cluster with
    | none => rfl
    | some c => exact addMissing_nil (hsorted c)
  have hkeys := hmerged keyEntries fun c =>
    Entries.map_sorted (fun _ node => Sections.keyEntry (some (Node.value node))) c.keys.sorted
  have hinfo := hmerged infoEntries fun c => ClusterMetadata.sorted_info c.value
  unfold payload
  rw [mergedKeys_eq, mergedInfo_eq, hkeys, hinfo, Replica.own]
  cases r.cluster? cluster <;> cases s.feed.kind <;> rfl

variable {s : Subscription} {name target : String}

/-- **A pinned name is served by its cluster**, however names are read. -/
theorem serving_of_pins (h : s.selection.Pins name target) (r : Replica) (v : Viewpoint) :
    s.serving r v name = [target] := by
  rw [serving, h.2]

theorem find?_resolve_of_pins (h : s.selection.Pins name target) (r : Replica) (v : Viewpoint) :
    (s.resolve r v).find? name = some [target] := by
  have hsome : s.selection.isAll = false := by
    cases hall : s.selection.isAll with
    | false => rfl
    | true =>
      have hhas := h.1
      rw [SortedMap.eq_empty_of_isEmpty hall] at hhas
      cases hhas
  have hwanted : name ∈ s.wanted r := (mem_wanted hsome s.feed r name).2 h.1
  rw [find?_resolve, if_pos hwanted, serving_of_pins h]

/-- A subscription that is sent in full shows the cluster's own data under a pinned name. -/
theorem fullSection_of_pins (h : s.selection.Pins name target) (replicas : Replicas)
    (v : Viewpoint) : (Session.inFull replicas v s).fullSection (replicas s.tree) name =
      some ((replicas s.tree).own s.feed.kind target) := by
  have hresolved : (Session.inFull replicas v s).resolved.find? name = some [target] :=
    find?_resolve_of_pins h (replicas s.tree) v
  rw [fullSection, hresolved]
  exact congrArg some (payload_single _ _ target)

end Subscription

/-! ## Messages in order -/

namespace Sections

variable {b : Sections}

theorem sortedTo_addSection {body : Entries String Value} (hbody : (Value.object body).SortedTo 3)
    (key : FeedKey) {clusters : Entries String Value} (hclusters : clusters.Sorted) :
    (Value.object (addSection body key clusters)).SortedTo 3 := by
  have hsection : (Value.object clusters).SortedTo 1 :=
    ⟨hclusters, fun e _ => by cases e.2 <;> trivial⟩
  have hkind : ∀ sections : Entries String Value, (Value.object sections).SortedTo 2 →
      (Value.object (Entries.insert key.application (.object clusters) sections)).SortedTo 2 := by
    refine fun sections hs => ⟨Entries.insert_sorted _ _ hs.1, fun e he => ?_⟩
    rcases Entries.mem_insert he with rfl | he
    · exact hsection
    · exact hs.2 e he
  refine ⟨Entries.insert_sorted _ _ hbody.1, fun e he => ?_⟩
  rcases Entries.mem_insert he with rfl | he
  · refine hkind _ ?_
    split
    · rename_i sections hsections
      exact hbody.2 _ (Entries.mem_of_find? hsections)
    · exact ⟨List.Pairwise.nil, fun _ he => nomatch he⟩
  · exact hbody.2 e he

/-- A message of a body whose clusters are in order has its objects in order down to them. -/
theorem Sorted.message (hb : b.Sorted) (kind : MessageKind) : (b.message kind).body.SortedTo 3 := by
  have hsections : ∀ s ∈ b.sections.toList, Entries.Sorted s.2 := fun s hs =>
    hb s.1 s.2 (SortedMap.mem_toList_iff.1 hs)
  refine List.foldlRecOn (motive := fun body => (Value.object body).SortedTo 3) _ _
    ⟨List.Pairwise.nil, fun _ he => nomatch he⟩ ?_
  exact fun body hbody s hs => sortedTo_addSection hbody s.1 (hsections s hs)

theorem Sorted.putKey (hb : b.Sorted) (key : FeedKey) (cluster name : String)
    (value : Option String) : (b.putKey key cluster name value).Sorted := by
  unfold Sections.putKey
  split
  · exact hb.put key (Entries.insert_sorted cluster _ (hb.clusters key))
  · exact hb.put key (hb.clusters key)

end Sections

namespace Session

theorem sortedTo_messageUnlessEmpty {body : Sections} (hbody : body.Sorted) (kind : MessageKind) :
    ∀ m ∈ messageUnlessEmpty kind body, m.body.SortedTo 3 := by
  intro m hm
  unfold messageUnlessEmpty at hm
  split at hm
  · cases hm
  · rw [List.mem_singleton.1 hm]
    exact hbody.message kind

theorem sorted_putNews (key : String) (gone : Bool)
    (news : List (FeedKey × String × Option String)) : (putNews key gone news).Sorted := by
  refine List.foldlRecOn (motive := Sections.Sorted) _ _ Sections.sorted_empty ?_
  intro body hbody n _
  split
  · exact hbody.putKey _ _ _ _
  · exact hbody

/-- **The messages of a session** have their objects in order down to the clusters. -/
theorem sortedTo_react (s : Session) (replicas : Replicas) (policy : Policy) (tree : TreeKey)
    (read : Holder.Unread) :
    ∀ m ∈ (s.react replicas policy tree read).messages, m.body.SortedTo 3 := by
  have hall := fun (g : Subscription → Subscription × Bool) (subs : List Subscription) =>
    sortedTo_messageUnlessEmpty (sorted_visit_redump replicas g subs Sections.sorted_empty) .all
  unfold react
  split
  · rw [resync_eq]
    exact hall _ _
  · exact fun _ hm => nomatch hm
  · exact fun _ hm => nomatch hm
  · split
    · intro m hm
      rcases List.mem_append.1 hm with hm | hm
      · exact sortedTo_messageUnlessEmpty (sorted_putNews _ _ _) _ m hm
      · exact sortedTo_messageUnlessEmpty (sorted_putNews _ _ _) _ m hm
    · rw [onMetadataChange_eq]
      exact hall _ _

end Session

/-! ## What is shown under a name -/

/-- What is shown under a name after a message that carries its section, by what it carries for the
name. -/
def payloadAfter (kind : MessageKind) (old news : Option Value) : Option Value :=
  match kind, news with
  | .all, _ => news
  | .update, some keys => some (setKeys old keys)
  | .delete, some keys => old.map (dropKeys · keys)
  | _, _ => old

namespace View

/-- What a client is shown under a name of a feed. -/
def under (v : View) (feed : FeedKey) (name : String) : Option Value :=
  (v feed).bind fun held => held name

theorem under_receive (v : View) (m : Message) (feed : FeedKey) (name : String) :
    (v.receive m).under feed name =
      match (m.clusters? feed).map (Entries.find? name) with
      | some news => payloadAfter m.kind (v.under feed name) news
      | none => v.under feed name := by
  rw [under, receive]
  cases m.clusters? feed with
  | none => rfl
  | some clusters =>
    rw [under, Option.map_some]
    dsimp only
    cases m.kind with
    | all => rfl
    | ping => cases Entries.find? name clusters <;> rfl
    | update =>
      cases v feed with
      | some held =>
        rw [receiveSection_update, Option.bind_some, Option.bind_some, Payloads.update,
          Payloads.change]
        cases Entries.find? name clusters <;> rfl
      | none =>
        cases clusters with
        | nil => rfl
        | cons e rest =>
          show ((Payloads.update (fun _ => none) (e :: rest)) name) = _
          rw [Payloads.update, Payloads.change]
          cases Entries.find? name (e :: rest) <;> rfl
    | delete =>
      cases v feed with
      | some held =>
        show held.delete clusters name = _
        rw [Payloads.delete, Payloads.change]
        cases Entries.find? name clusters <;> rfl
      | none => cases Entries.find? name clusters <;> rfl

theorem under_ofMessage (m : Message) (feed : FeedKey) (name : String) :
    (ofMessage m).under feed name = ((m.clusters? feed).map (Entries.find? name)).join := by
  rw [under, ofMessage]
  cases m.clusters? feed <;> rfl

end View

/-! ## Rewriting -/

namespace Routing.Hijack

variable {policy : Policy} {caller : Option Caller} {mode : RouteMode} {request : Request}
  {h : Hijack} {feed : FeedKey} {name target : String}

/-- A name of a feed is not taken over, and it is not an intent that is hidden. -/
def Spares (h : Hijack) (feed : FeedKey) (name : String) : Prop :=
  ∀ t, h.takeoverOf? feed = some t →
    t.clusters.has name = false ∧ (name = h.intent → t.intentRequested = true)

/-- **Hijacking leaves pinned names alone.** -/
theorem Prepared.spares (hp : Prepared policy caller mode request h)
    (hpin : request.Pins feed name target) : h.Spares feed name := by
  intro t ht
  unfold takeoverOf? at ht
  split at ht
  · rename_i hkind
    replace ht := (Option.filter_eq_some_iff.1 ht).1
    have hfeed : feed = ⟨.service, feed.application⟩ := by rw [← hkind]
    induction hp with
    | start => cases ht
    | @look h c application before callerTree destination _ _ hmem ih =>
      rw [takeover?, prepareOn, SortedMap.find?_insert] at ht
      split at ht
      · rename_i heq
        cases ht
        obtain ⟨s, hs, hpins⟩ := hpin
        obtain ⟨-, -, s', hs', -, hrequested, hclusters⟩ := of_mem_candidates hmem
        rw [← heq, ← hfeed, hs] at hs'
        cases hs'
        obtain ⟨hkept, hkeptRequested⟩ := h.diagnose_keeps ⟨application, destination, h.policy⟩
          (CallerRoute.ofReplica callerTree h.policy c) before
        rw [hkept, hkeptRequested, hrequested, hclusters]
        refine ⟨?_, fun hname => ?_⟩
        · -- only what is not pinned may be taken over
          rw [hijackable, SortedSet.has, SortedMap.contains, SortedMap.find?_filter,
            hpins.isPinned]
          cases s.clusters.find? name <;> rfl
        · rw [show h.intent = name from hname.symm]
          exact hpins.1
      · exact ih ht
  · cases ht

theorem isSome_clusters?_projectSections (h : Hijack) (m : Message) (feed : FeedKey) :
    ((h.projectSections m).clusters? feed).isSome = (m.clusters? feed).isSome := by
  rw [clusters?_projectSections]
  cases h.takeoverOf? feed with
  | none => rfl
  | some t => exact Option.isSome_map

/-- Rewriting does not change what a message carries under a name that is spared. -/
theorem Spares.find?_projectSections (hs : h.Spares feed name) {m : Message}
    (hm : m.body.SortedTo 3) :
    ((h.projectSections m).clusters? feed).map (Entries.find? name) =
      (m.clusters? feed).map (Entries.find? name) := by
  rw [clusters?_projectSections]
  cases ht : h.takeoverOf? feed with
  | none => rfl
  | some t =>
    obtain ⟨hfree, hrequested⟩ := hs t ht
    dsimp only
    cases hc : m.clusters? feed with
    | none => rfl
    | some clusters =>
      have hshown : ¬ (name = h.intent ∧ ¬ t.intentRequested = true) :=
        fun hhidden => hhidden.2 (hrequested hhidden.1)
      rw [Option.map_some, Option.map_some, Option.map_some,
        find?_projectClusters h.intent m.kind t (Message.sorted_of_sortedTo hm hc)]
      dsimp only
      rw [if_neg hshown, if_neg (by simp [hfree])]

/-- What a client gets as an `all` was one, and was rewritten. -/
theorem of_project_all {m original : Message} (hproject : h.project original = some m)
    (hall : m.kind = .all) : original.kind = .all ∧ m = h.projectSections original := by
  have hkind : m.kind = original.kind := by
    unfold project at hproject
    split at hproject
    · cases hproject
      rfl
    · dsimp only at hproject
      split at hproject
      · cases hproject
        exact h.kind_projectSections original
      · split at hproject
        · cases hproject
          rw [Message.kind_prune, kind_projectSections]
        · cases hproject
  have horiginal := hkind.symm.trans hall
  rw [project_of_all horiginal] at hproject
  exact ⟨horiginal, (Option.some.inj hproject).symm⟩

theorem Spares.under_projectSections (hs : h.Spares feed name) {m : Message}
    (hm : m.body.SortedTo 3) : (View.ofMessage (h.projectSections m)).under feed name =
      (View.ofMessage m).under feed name := by
  rw [View.under_ofMessage, View.under_ofMessage, hs.find?_projectSections hm]

/-- **What a client is shown under a name that is spared** is the same of rewritten messages. -/
theorem Spares.under_filterMap_project (hs : h.Spares feed name) {messages : List Message}
    (hsorted : ∀ m ∈ messages, m.body.SortedTo 3) :
    ∀ {v v' : View}, v'.under feed name = v.under feed name →
      (v'.receiveAll (messages.filterMap h.project)).under feed name =
        (v.receiveAll messages).under feed name := by
  induction messages with
  | nil => exact fun hv => hv
  | cons m rest ih =>
    intro v v' hv
    have hm := hsorted m List.mem_cons_self
    rw [receiveAll_filterMap_cons_of_sortedTo h hm.of_succ]
    refine ih (fun x hx => hsorted x (List.mem_cons_of_mem m hx)) ?_
    rw [View.under_receive, View.under_receive, hs.find?_projectSections hm, kind_projectSections,
      hv]

end Routing.Hijack

/-! ## The first section -/

namespace Session

variable {request : Request} {feed : FeedKey} {name target : String}

/-- **The first `all`** shows the cluster's own data under a pinned name. -/
theorem under_start (hpin : request.Pins feed name target) (mode : RouteMode)
    (caller : Option Caller) (policy : Policy) (replicas : Replicas) :
    (View.ofMessage ((start request mode caller policy replicas).2.message .all)).under feed name =
      some ((replicas feed.tree).own feed.kind target) := by
  obtain ⟨s, hs, hpins⟩ := hpin
  rw [Sections.ofMessage_message, View.under, view_start, hs, Option.map_some, Option.bind_some,
    firstSection]
  exact Subscription.fullSection_of_pins (s := .create feed s) hpins replicas _

end Session

end Treecast
