import Treecast.Session.Subscription
import Treecast.Proofs.Places

/-!
# What subscriptions read

A subscription reads a replica place by place, and only values (`Replica.value?`).  Names are
resolved by the values of metadata alone.  A key under a name is read from the first of its
clusters that has the key, and a descriptive field from the first cluster whose metadata has it.

## Results

* `CallerRoute.ofReplica_congr`: the caller's route depends on the metadata of its own cluster.
* `Subscription.resolve_congr`: what names resolve to depends on metadata, and on the caller's
  route only if the subscription needs it.
* `Subscription.find?_resolve`: the names that are resolved are those that are wanted.
* `Subscription.find?_entries_congr`: what a name shows under a key depends on the places that
  the key is read from.
-/

set_option autoImplicit false

namespace Treecast

open Routing
open Json (Value)

namespace Replica

/-- The value at a place. -/
def value? (r : Replica) (level : Level) : Option String := (r.node? level).map Node.value

variable {r r' : Replica}

theorem Moved.value?_elsewhere {change : Change} (hm : Moved r change r') {level : Level}
    (hne : level ≠ change.level) : r'.value? level = r.value? level := by
  rw [value?, value?, hm.elsewhere level hne]

theorem hasCluster_eq (hs : r.AllSeen) (c : String) :
    r.hasCluster c = (r.value? (.cluster c)).isSome := by
  rw [value?, Option.isSome_map]
  cases hc : r.hasCluster c with
  | true => exact (hs c hc).symm
  | false =>
    rw [hasCluster, SortedMap.contains, Option.isSome_eq_false_iff,
      Option.isNone_iff_eq_none] at hc
    rw [node?, cluster?, hc]
    rfl

theorem value_of_cluster? (hs : r.AllSeen) {c : String} {x : Cluster} (hx : r.cluster? c = some x) :
    r.value? (.cluster c) = some x.value := by
  have hseen := hs c (Option.isSome_iff_exists.2 ⟨x, hx⟩)
  rw [node?, hx, Option.bind_some] at hseen
  obtain ⟨node, hnode⟩ := Option.isSome_iff_exists.1 hseen
  rw [value?, node?, hx, Option.bind_some, Cluster.value, hnode]
  rfl

theorem value?_of_cluster?_eq_none {c : String} (hx : r.cluster? c = none) :
    r.value? (.cluster c) = none := by
  rw [value?, node?, hx]
  rfl

theorem applicationValue_eq (r : Replica) :
    r.applicationValue = (r.value? .application).getD "" := by
  rw [applicationValue, value?, node?]
  cases r.application <;> rfl

/-- Two replicas have the same metadata. -/
def SameMetadata (r r' : Replica) : Prop :=
  ∀ level : Level, level.isStructural = true → r.value? level = r'.value? level

theorem SameMetadata.hasCluster (h : r.SameMetadata r') (hs : r.AllSeen) (hs' : r'.AllSeen)
    (c : String) : r.hasCluster c = r'.hasCluster c := by
  rw [hasCluster_eq hs, hasCluster_eq hs', h (.cluster c) rfl]

theorem SameMetadata.clusterNames (h : r.SameMetadata r') (hs : r.AllSeen) (hs' : r'.AllSeen) :
    r.clusterNames = r'.clusterNames := by
  have hnames : ∀ x : Replica, x.clusterNames = (x.clusters.map fun _ _ => ()).keys := by
    intro x
    simp only [Replica.clusterNames, SortedMap.keys, SortedMap.map, List.map_map]
    rfl
  have hsets : (r.clusters.map fun _ _ => ()) = r'.clusters.map fun _ _ => () := by
    refine SortedMap.ext_find? fun c => ?_
    have hc := h.hasCluster hs hs' c
    rw [Replica.hasCluster, Replica.hasCluster, SortedMap.contains, SortedMap.contains] at hc
    rw [SortedMap.find?_map, SortedMap.find?_map]
    revert hc
    cases r.clusters.find? c <;> cases r'.clusters.find? c <;> simp
  rw [hnames, hnames, hsets]

end Replica

/-! ## Resolution -/

namespace Routing

variable {r r' : Replica} {policy : Policy}

theorem CallerRoute.ofReplica_congr (hs : r.AllSeen) (hs' : r'.AllSeen) (caller : Caller)
    (h : r.value? (.cluster caller.cluster) = r'.value? (.cluster caller.cluster)) :
    ofReplica r policy caller = ofReplica r' policy caller := by
  have hread : ∀ {x : Replica}, x.AllSeen → ofReplica x policy caller =
      (x.value? (.cluster caller.cluster)).elim (bare policy caller) fun value =>
        { bare policy caller with metadata := ClusterMetadata.decode value } := by
    intro x hx
    rw [ofReplica]
    cases hc : x.cluster? caller.cluster with
    | none =>
      rw [Replica.value?_of_cluster?_eq_none hc]
      rfl
    | some c =>
      rw [Replica.value_of_cluster? hx hc]
      rfl
  rw [hread hs, hread hs', h]

namespace Destination

theorem links_congr (hs : r.AllSeen) (hs' : r'.AllSeen) (h : r.SameMetadata r')
    (application cluster : String) :
    links ⟨application, r, policy⟩ cluster = links ⟨application, r', policy⟩ cluster := by
  have hread : ∀ {x : Replica}, x.AllSeen → links ⟨application, x, policy⟩ cluster =
      (x.value? (.cluster cluster)).elim [] fun value => (ClusterMetadata.decode value).link := by
    intro x hx
    rw [links]
    cases hc : x.cluster? cluster with
    | none =>
      rw [Replica.value?_of_cluster?_eq_none hc]
      rfl
    | some c =>
      rw [Replica.value_of_cluster? hx hc]
      rfl
  rw [hread hs, hread hs', h (.cluster cluster) rfl]

theorem follow_congr {d d' : Destination} (h : ∀ cluster, d.links cluster = d'.links cluster)
    (hops : Nat) :
    ∀ trail cluster, d.follow hops trail cluster = d'.follow hops trail cluster := by
  induction hops with
  | zero => exact fun _ _ => rfl
  | succ hops ih =>
    intro trail cluster
    have hfollow : (fun (found : List String) link =>
          (d.follow hops (cluster :: trail) link).map (appendNew found)) =
        fun found link => (d'.follow hops (cluster :: trail) link).map (appendNew found) := by
      funext found link
      rw [ih]
    unfold follow
    rw [h cluster, hfollow]

theorem resolve?_congr (hs : r.AllSeen) (hs' : r'.AllSeen) (h : r.SameMetadata r')
    (application cluster : String) (options : ResolveOptions) :
    resolve? ⟨application, r, policy⟩ cluster options =
      resolve? ⟨application, r', policy⟩ cluster options := by
  have hphysical : ∀ name, physical? ⟨application, r, policy⟩ name =
      physical? ⟨application, r', policy⟩ name :=
    fun name => follow_congr (links_congr hs hs' h application) _ [] name
  have hintent : ∀ caller, intentTarget? ⟨application, r, policy⟩ cluster caller =
      intentTarget? ⟨application, r', policy⟩ cluster caller := by
    intro caller
    rw [intentTarget?, intentTarget?, Replica.applicationValue_eq, Replica.applicationValue_eq,
      h .application rfl]
  have hezone : inCallerEzone? ⟨application, r, policy⟩ cluster options.caller =
      inCallerEzone? ⟨application, r', policy⟩ cluster options.caller := by
    rw [inCallerEzone?, inCallerEzone?]
    simp only [h.hasCluster hs hs']
  simp only [resolve?, hphysical, hintent, hezone]

/-- Resolution that neither routes intents nor tries ezones does not ask who the caller is. -/
theorem resolve?_of_orig (d : Destination) (cluster : String) (caller : Option CallerRoute) :
    d.resolve? cluster ⟨caller, false, false⟩ = d.physical? cluster := by
  simp [resolve?]

end Destination

end Routing

namespace Subscription

variable {r r' : Replica}

/-- Who is asking matters only where the subscription needs to know it. -/
theorem serving_of_caller (s : Subscription) (r : Replica) {mode : RouteMode} (policy : Policy)
    {caller caller' : Option CallerRoute} (hcaller : s.needsCaller mode = true → caller' = caller)
    (name : String) :
    s.serving r ⟨mode, policy, caller⟩ name = s.serving r ⟨mode, policy, caller'⟩ name := by
  cases hneeds : s.needsCaller mode with
  | true => rw [hcaller hneeds]
  | false =>
    rw [serving, serving]
    cases s.selection.pinned.find? name with
    | some target => rfl
    | none =>
      cases hrouting : s.tree.kind.carriesRouting with
      | false => rfl
      | true =>
        -- names are read as they are, whoever asks
        simp only [needsCaller, hrouting, Bool.true_and, Bool.or_eq_false_iff,
          bne_eq_false_iff_eq] at hneeds
        obtain ⟨rfl, hintent⟩ := hneeds
        simp only [options, hintent, reduceCtorEq, decide_false, Bool.or_false,
          Destination.resolve?_of_orig]

/-- **What names resolve to depends on metadata**, and on the caller only where the
subscription needs to know it. -/
theorem resolve_congr (s : Subscription) (hs : r.AllSeen) (hs' : r'.AllSeen)
    (h : r.SameMetadata r') {v v' : Viewpoint} (hmode : v'.mode = v.mode)
    (hpolicy : v'.policy = v.policy)
    (hcaller : s.needsCaller v.mode = true → v'.caller = v.caller) :
    s.resolve r v = s.resolve r' v' := by
  obtain ⟨mode, policy, caller⟩ := v
  obtain ⟨mode', policy', caller'⟩ := v'
  subst hmode hpolicy
  have hwanted : s.wanted r = s.wanted r' := by
    rw [wanted, wanted, h.clusterNames hs hs']
  have hserving : ∀ name, s.serving r ⟨mode', policy', caller⟩ name =
      s.serving r' ⟨mode', policy', caller'⟩ name := by
    intro name
    rw [s.serving_of_caller r policy' hcaller, serving, serving]
    simp only [Destination.resolve?_congr hs hs' h]
  simp only [resolve, hwanted, hserving]

/-- A subscription resolves the names that it wants, and no others. -/
theorem find?_resolve (s : Subscription) (r : Replica) (v : Viewpoint) (name : String) :
    (s.resolve r v).find? name =
      if name ∈ s.wanted r then some (s.serving r v name) else none :=
  SortedMap.find?_ofList_map (s.serving r v) (s.wanted r) name

/-! ## Payloads -/

theorem find?_addMissing {ν : Type} (known more : Entries String ν) (key : String) :
    Entries.find? key (addMissing known more) =
      (Entries.find? key known).or (Entries.find? key more) := by
  unfold addMissing
  induction more generalizing known with
  | nil => rw [List.foldl_nil, Entries.find?, Option.or_none]
  | cons e rest ih =>
    obtain ⟨k, v⟩ := e
    rw [List.foldl_cons, ih]
    by_cases hk : key = k
    · subst hk
      rw [Entries.find?_cons_self]
      cases hknown : Entries.find? key known with
      | none => simp [Entries.find?_insert]
      | some w => simp [hknown]
    · rw [Entries.find?_cons_of_ne hk]
      split
      · rfl
      · rw [Entries.find?_insert, if_neg hk]

theorem addMissing_sorted {ν : Type} {known : Entries String ν} (h : known.Sorted)
    (more : Entries String ν) : (addMissing known more).Sorted := by
  unfold addMissing
  induction more generalizing known with
  | nil => exact h
  | cons e rest ih =>
    rw [List.foldl_cons]
    split
    · exact ih h
    · exact ih (Entries.insert_sorted e.1 e.2 h)

/-- The entries of clusters together, those of the first cluster first. -/
def merged (entries : Cluster → Entries String Value) (r : Replica) (clusters : List String) :
    Entries String Value :=
  clusters.foldl (fun known name =>
    match r.cluster? name with
    | some c => addMissing known (entries c)
    | none => known) []

def keyEntries (c : Cluster) : Entries String Value :=
  c.keys.toList.map fun k => (k.1, Sections.keyEntry (some k.2.value))

/-- The descriptive fields of a cluster. -/
def infoEntries (c : Cluster) : Entries String Value := (ClusterMetadata.decode c.value).info

theorem mergedKeys_eq (r : Replica) (clusters : List String) :
    mergedKeys r clusters = merged keyEntries r clusters := rfl

theorem mergedInfo_eq (r : Replica) (clusters : List String) :
    mergedInfo r clusters = merged infoEntries r clusters := rfl

theorem find?_merged (entries : Cluster → Entries String Value) (r : Replica)
    (clusters : List String) (key : String) :
    Entries.find? key (merged entries r clusters) =
      clusters.findSome? fun c => (r.cluster? c).bind fun x => Entries.find? key (entries x) := by
  have hfold : ∀ known : Entries String Value, Entries.find? key (clusters.foldl (fun known name =>
      match r.cluster? name with
      | some c => addMissing known (entries c)
      | none => known) known) = (Entries.find? key known).or
        (clusters.findSome? fun c => (r.cluster? c).bind fun x =>
          Entries.find? key (entries x)) := by
    induction clusters with
    | nil => exact fun known => Option.or_none.symm
    | cons c rest ih =>
      intro known
      rw [List.foldl_cons, ih, List.findSome?_cons]
      cases r.cluster? c with
      | none => rfl
      | some x =>
        dsimp only
        rw [find?_addMissing, Option.or_assoc, Option.bind_some]
        cases Entries.find? key (entries x) <;> rfl
  exact hfold []

theorem merged_sorted (entries : Cluster → Entries String Value) (r : Replica)
    (clusters : List String) : (merged entries r clusters).Sorted := by
  have hfold : ∀ known : Entries String Value, known.Sorted →
      Entries.Sorted (clusters.foldl (fun known name =>
        match r.cluster? name with
        | some c => addMissing known (entries c)
        | none => known) known) := by
    induction clusters with
    | nil => exact fun _ h => h
    | cons c rest ih =>
      intro known h
      rw [List.foldl_cons]
      refine ih _ ?_
      split
      · exact addMissing_sorted h _
      · exact h
  exact hfold [] List.Pairwise.nil

/-- The entries that a name shows. -/
def entries (s : Subscription) (r : Replica) (clusters : List String) : Entries String Value :=
  match s.feed.kind with
  | .serviceInfo => mergedInfo r clusters
  | _ => mergedKeys r clusters

theorem payload_eq (s : Subscription) (r : Replica) (clusters : List String) :
    s.payload r clusters = .object (s.entries r clusters) := by
  unfold payload entries
  cases s.feed.kind <;> rfl

theorem entries_sorted (s : Subscription) (r : Replica) (clusters : List String) :
    (s.entries r clusters).Sorted := by
  rw [entries]
  split
  · exact merged_sorted infoEntries r clusters
  · exact merged_sorted keyEntries r clusters

/-- A key is read from the first of the clusters that has it. -/
theorem find?_mergedKeys (r : Replica) (clusters : List String) (key : String) :
    Entries.find? key (mergedKeys r clusters) = clusters.findSome? fun c =>
      (r.value? (.key c key)).map fun v => Sections.keyEntry (some v) := by
  rw [mergedKeys_eq, find?_merged]
  congr 1
  funext c
  rw [Replica.value?, Replica.node?, Replica.key?_eq_bind]
  cases r.cluster? c with
  | none => rfl
  | some x =>
    rw [Option.bind_some, Option.bind_some, keyEntries,
      Entries.find?_map (fun _ node => Sections.keyEntry (some (Node.value node))), Option.map_map]
    rfl

/-- A descriptive field is read from the first of the clusters whose metadata has it. -/
theorem find?_mergedInfo (hs : r.AllSeen) (clusters : List String) (key : String) :
    Entries.find? key (mergedInfo r clusters) =
      clusters.findSome? fun c => (r.value? (.cluster c)).bind fun v =>
        Entries.find? key (ClusterMetadata.decode v).info := by
  rw [mergedInfo_eq, find?_merged]
  congr 1
  funext c
  cases hc : r.cluster? c with
  | none =>
    rw [Replica.value?_of_cluster?_eq_none hc]
    rfl
  | some x =>
    rw [Replica.value_of_cluster? hs hc]
    rfl

/-- The places that a key is read from under a name that is served by these clusters. -/
def Reads (s : Subscription) (clusters : List String) (key : String) (level : Level) : Prop :=
  match s.feed.kind with
  | .serviceInfo => ∃ c ∈ clusters, level = .cluster c
  | _ => ∃ c ∈ clusters, level = .key c key

theorem findSome?_congr {α β : Type} {f g : α → Option β} {xs : List α}
    (h : ∀ x ∈ xs, f x = g x) : xs.findSome? f = xs.findSome? g := by
  induction xs with
  | nil => rfl
  | cons x rest ih =>
    rw [List.findSome?_cons, List.findSome?_cons, h x List.mem_cons_self,
      ih fun y hy => h y (List.mem_cons_of_mem _ hy)]

/-- **What a name shows under a key depends on the places that the key is read from.** -/
theorem find?_entries_congr (s : Subscription) (hs : r.AllSeen) (hs' : r'.AllSeen)
    {clusters : List String} {key : String}
    (h : ∀ level, s.Reads clusters key level → r.value? level = r'.value? level) :
    Entries.find? key (s.entries r clusters) = Entries.find? key (s.entries r' clusters) := by
  cases hkind : s.feed.kind with
  | serviceInfo =>
    simp only [Reads, hkind] at h
    simp only [entries, hkind]
    rw [find?_mergedInfo hs, find?_mergedInfo hs']
    exact findSome?_congr fun c hc => by rw [h _ ⟨c, hc, rfl⟩]
  | _ =>
    simp only [Reads, hkind] at h
    simp only [entries, hkind]
    rw [find?_mergedKeys, find?_mergedKeys]
    exact findSome?_congr fun c hc => by rw [h _ ⟨c, hc, rfl⟩]

end Subscription

end Treecast
