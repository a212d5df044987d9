import Mathlib.Data.List.Induction
import Treecast.Proofs.ChangeLog
import Treecast.Proofs.Replication

/-!
# Replicas and their histories

What a replica holds is determined by the events that it was told, whatever they were: created,
updated and deleted nodes at any paths, in any order and however often.  A place holds the node of
the last upsert of its path, unless that path or one above it was deleted since.  A cluster is
there if it or one of its keys was put and it was not deleted since, so that a key may come before
its cluster.

The history is read from its back: one more event either starts what is asked for, or ends it, or
changes nothing (`lasts_concat`).

## Results

* `Replica.node?_apply`, `Replica.hasCluster_apply`: one event more, place by place and cluster by
  cluster.
* `Replica.node?_applyAll`, `Replica.hasCluster_applyAll`: the places and the clusters after any
  history.
* `Replica.applyAll_replayed`: creations of nodes that are there change nothing but the revision.
* `Replica.determined_by_history`: all of a replica from its history.
-/

set_option autoImplicit false

namespace Treecast

/-! ## Histories -/

namespace StoreEvent

/-- The event tells of this node at this path. -/
def Upserts (path : String) (node : Node) (e : StoreEvent) : Prop :=
  e = .created path node ∨ e = .updated path node

/-- The event tells that a node at one of these paths is gone. -/
def Deletes (paths : List String) (e : StoreEvent) : Prop := ∃ path ∈ paths, e = .deleted path

end StoreEvent

/-- Some event starts what no later one ends. -/
def Lasts (starts ends : StoreEvent → Prop) (events : List StoreEvent) : Prop :=
  ∃ before e after, events = before ++ e :: after ∧ starts e ∧ ∀ later ∈ after, ¬ ends later

/-- Some upsert of the path has no later deletion of one of these paths. -/
def Stands (path : String) (above : List String) (events : List StoreEvent) : Prop :=
  Lasts (fun e => ∃ node, e.Upserts path node) (·.Deletes above) events

/-- The last upsert of the path told of this node, and has no later deletion of one of these
paths. -/
def LastPut (path : String) (node : Node) (above : List String) (events : List StoreEvent) : Prop :=
  Lasts (·.Upserts path node) (fun e => (∃ other, e.Upserts path other) ∨ e.Deletes above) events

section Histories

variable {starts ends : StoreEvent → Prop} {events : List StoreEvent} {path : String}
  {above : List String}

theorem not_lasts_nil : ¬ Lasts starts ends [] := by
  rintro ⟨before, e, after, heq, -⟩
  have hlength := congrArg List.length heq
  simp at hlength

/-- One more event starts it, or does not end it. -/
theorem lasts_concat (e : StoreEvent) :
    Lasts starts ends (events ++ [e]) ↔ starts e ∨ (¬ ends e ∧ Lasts starts ends events) :=
  exists_split_concat_iff (fun _ => starts) ends

/-- Of the upserts that were not deleted since, there is a last one. -/
theorem stands_iff_exists_lastPut : Stands path above events ↔
    ∃ node, LastPut path node above events := by
  induction events using List.reverseRecOn with
  | nil => exact ⟨fun h => absurd h not_lasts_nil, fun ⟨_, h⟩ => absurd h not_lasts_nil⟩
  | append_singleton events e ih =>
    unfold Stands LastPut at ih ⊢
    simp only [lasts_concat, ih]
    by_cases hputs : ∃ node, e.Upserts path node
    · obtain ⟨node, hnode⟩ := hputs
      exact ⟨fun _ => ⟨node, .inl hnode⟩, fun _ => .inl ⟨node, hnode⟩⟩
    · simp only [not_exists.1 hputs, exists_false, false_or, exists_and_left]

end Histories

/-! ## Paths at and above a place -/

/-- The path of a place and the paths above it in the tree at `root`. -/
def Level.lineage (root : String) : Level → List String
  | .application => [root]
  | .cluster c => [Path.child root c, root]
  | .key c k => [Path.child (Path.child root c) k, Path.child root c, root]

/-- What is at a path covers a place exactly if the path is that of the place or above it. -/
theorem Level.any_covers_iff {root path : String} {level : Level} (h : level.IsProper) :
    (Replica.levelAt root path).any (·.covers level) = true ↔ path ∈ level.lineage root := by
  constructor
  · intro hany
    obtain ⟨above, habove, hcovers⟩ := (Option.any_eq_true _ _).1 hany
    obtain ⟨-, rfl⟩ := Replica.levelAt_eq_some_iff.1 habove
    cases above <;> cases level <;>
      simp only [covers, Bool.and_eq_true, decide_eq_true_eq, Bool.false_eq_true] at hcovers <;>
      simp [lineage, Level.path, hcovers]
  · intro hmem
    have hself : ∀ above : Level, above.IsProper → above.covers level = true →
        (Replica.levelAt root (above.path root)).any (·.covers level) = true := by
      intro above hproper hcovers
      rw [Replica.levelAt_path root hproper]
      exact hcovers
    cases level with
    | application =>
      rw [List.mem_singleton.1 hmem]
      exact hself .application trivial rfl
    | cluster c =>
      simp only [lineage, List.mem_cons, List.not_mem_nil, or_false] at hmem
      rcases hmem with rfl | rfl
      · exact hself (.cluster c) h (by simp [covers])
      · exact hself .application trivial rfl
    | key c k =>
      simp only [lineage, List.mem_cons, List.not_mem_nil, or_false] at hmem
      rcases hmem with rfl | rfl | rfl
      · exact hself (.key c k) h (by simp [covers])
      · have hcluster : (Level.cluster c).IsProper := h.1
        exact hself (.cluster c) hcluster (by simp [covers])
      · exact hself .application trivial rfl

namespace Replica

variable {r : Replica}

/-! ## One event more -/

theorem classify_eq_some_iff {path : String} {level : Level} (h : level.IsProper) :
    r.classify path = some level ↔ path = level.path r.root := by
  rw [classify, levelAt_eq_some_iff]
  exact and_iff_right h

/-- **One event at one place**: the node is what the event puts there, or it was there before and
the event neither replaces nor removes it. -/
theorem node?_apply (r : Replica) {level : Level} (h : level.IsProper) (e : StoreEvent)
    (node : Node) :
    (r.apply e).1.node? level = some node ↔
      e.Upserts (level.path r.root) node ∨
        (¬ ((∃ other, e.Upserts (level.path r.root) other) ∨ e.Deletes (level.lineage r.root)) ∧
          r.node? level = some node) := by
  have hput : ∀ path new, (r.put path new).1.node? level = some node ↔
      (path = level.path r.root ∧ new = node) ∨
        (path ≠ level.path r.root ∧ r.node? level = some node) := by
    intro path new
    rw [node?_put]
    by_cases hpath : path = level.path r.root
    · rw [if_pos ((classify_eq_some_iff h).2 hpath)]
      simp [hpath]
    · rw [if_neg fun hclass => hpath ((classify_eq_some_iff h).1 hclass)]
      simp [hpath]
  cases e with
  | created path new =>
    refine (hput path new).trans ?_
    simp [StoreEvent.Upserts, StoreEvent.Deletes]
  | updated path new =>
    refine (hput path new).trans ?_
    simp [StoreEvent.Upserts, StoreEvent.Deletes]
  | deleted path =>
    rw [apply, node?_drop, classify]
    by_cases hpath : path ∈ level.lineage r.root
    · rw [if_pos ((Level.any_covers_iff h).2 hpath)]
      simp [StoreEvent.Upserts, StoreEvent.Deletes, hpath]
    · rw [if_neg fun hany => hpath ((Level.any_covers_iff h).1 hany)]
      simp [StoreEvent.Upserts, StoreEvent.Deletes, hpath]
  | initialized => simp [apply, StoreEvent.Upserts, StoreEvent.Deletes]
  | connection state => simp [apply, StoreEvent.Upserts, StoreEvent.Deletes]

/-- A place whose names are no segments stays empty. -/
theorem node?_apply_of_not_isProper {level : Level} (h : ¬ level.IsProper)
    (hnone : r.node? level = none) (e : StoreEvent) : (r.apply e).1.node? level = none := by
  refine apply_cases (P := fun x => x.1.node? level = none) ?_ ?_ hnone e
  · intro path node
    have hclass : r.classify path ≠ some level := fun hclass => h (levelAt_eq_some_iff.1 hclass).1
    rw [node?_put, if_neg hclass]
    exact hnone
  · intro path
    rw [node?_drop, hnone]
    split <;> rfl

theorem hasCluster_upsert (r : Replica) (level : Level) (node : Node) (c : String) :
    (r.upsert level node).1.hasCluster c = true ↔
      (level = .cluster c ∨ ∃ k, level = .key c k) ∨ r.hasCluster c = true := by
  have hinsert : ∀ c' x, (r.clusters.insert c' x).contains c = true ↔
      c' = c ∨ r.clusters.contains c = true := by
    intro c' x
    rw [SortedMap.contains, SortedMap.find?_insert]
    by_cases hc : c = c'
    · simp [hc]
    · simp [hc, Ne.symm hc, SortedMap.contains]
  cases level with
  | application => simp [upsert, hasCluster]
  | cluster c' => simpa [upsert, hasCluster] using hinsert c' _
  | key c' k => simpa [upsert, hasCluster] using hinsert c' _

theorem hasCluster_put (r : Replica) (path : String) (node : Node) (c : String) :
    (r.put path node).1.hasCluster c = true ↔
      (r.classify path = some (.cluster c) ∨ ∃ k, r.classify path = some (.key c k)) ∨
        r.hasCluster c = true := by
  unfold put
  split
  · rename_i hnone
    simp [hnone]
  · rename_i level hlevel
    simp only [hlevel, Option.some.injEq]
    exact hasCluster_upsert r level node c

/-- A cluster that was there and is not removed is still there. -/
theorem hasCluster_remove {r' : Replica} {level : Level} (h : r.remove level = some r')
    {c : String} (hc : r.hasCluster c = true) (hcovers : level.covers (.cluster c) = false) :
    r'.hasCluster c = true := by
  cases level with
  | application => cases hcovers
  | cluster c' =>
    have hne : c ≠ c' := fun heq => by simp [Level.covers, heq] at hcovers
    simp only [remove] at h
    split at h
    · cases h
      simpa [hasCluster, SortedMap.contains, hne] using hc
    · cases h
  | key c' k =>
    simp only [remove] at h
    split at h
    · cases h
    · split at h
      · cases h
        by_cases heq : c = c'
        · simp [hasCluster, SortedMap.contains, heq]
        · simpa [hasCluster, SortedMap.contains, heq] using hc
      · cases h

/-- Where there is nothing to remove, there is no cluster. -/
theorem hasCluster_of_remove_eq_none {level : Level} (h : r.remove level = none) {c : String}
    (hcovers : level.covers (.cluster c) = true) : r.hasCluster c = false := by
  cases level with
  | application =>
    simp only [remove] at h
    split at h
    · cases h
    · rename_i hnone
      simp only [Bool.or_eq_true, Bool.not_eq_true', not_or, Bool.not_eq_true,
        Bool.not_eq_false] at hnone
      have hempty := SortedMap.eq_empty_of_isEmpty hnone.2
      rw [hasCluster, hempty]
      rfl
  | cluster c' =>
    obtain rfl : c' = c := by simpa [Level.covers] using hcovers
    simp only [remove] at h
    split at h
    · cases h
    · rename_i hnone
      exact Bool.eq_false_iff.2 hnone
  | key c' k => cases hcovers

theorem hasCluster_drop (r : Replica) (path : String) (c : String) :
    (r.drop path).1.hasCluster c = true ↔
      ¬ (r.classify path).any (·.covers (.cluster c)) = true ∧ r.hasCluster c = true := by
  unfold drop
  split
  · rename_i hnone
    simp [hnone]
  · rename_i level hlevel
    rw [hlevel, Option.any_some]
    split
    · rename_i hnone
      refine (and_iff_right_of_imp fun hc hcovers => ?_).symm
      rw [hasCluster_of_remove_eq_none hnone hcovers] at hc
      cases hc
    · rename_i r' hr'
      constructor
      · intro hc
        obtain ⟨hbefore, hcovers⟩ := hasCluster_of_remove hr' hc
        exact ⟨by rw [hcovers]; exact Bool.false_ne_true, hbefore⟩
      · rintro ⟨hcovers, hc⟩
        have hleft := hasCluster_remove hr' hc (Bool.eq_false_iff.2 hcovers)
        exact hleft

/-- The event puts this cluster or one of its keys. -/
def PutsCluster (root c : String) (e : StoreEvent) : Prop :=
  (∃ node, e.Upserts (Path.child root c) node) ∨
    ∃ k node, Path.IsSegment k ∧ e.Upserts (Path.child (Path.child root c) k) node

/-- **One event and one cluster.** -/
theorem hasCluster_apply (r : Replica) {c : String} (h : Path.IsSegment c) (e : StoreEvent) :
    (r.apply e).1.hasCluster c = true ↔
      PutsCluster r.root c e ∨
        (¬ e.Deletes [Path.child r.root c, r.root] ∧ r.hasCluster c = true) := by
  have hcluster : (Level.cluster c).IsProper := h
  have hput : ∀ path node, (r.put path node).1.hasCluster c = true ↔
      (path = Path.child r.root c ∨
        ∃ k, Path.IsSegment k ∧ path = Path.child (Path.child r.root c) k) ∨
      r.hasCluster c = true := by
    intro path node
    rw [hasCluster_put, classify_eq_some_iff hcluster]
    refine or_congr (or_congr Iff.rfl (exists_congr fun k => ?_)) Iff.rfl
    rw [classify, levelAt_eq_some_iff]
    exact and_congr_left fun _ => and_iff_right h
  cases e with
  | created path node =>
    refine (hput path node).trans ?_
    simp [PutsCluster, StoreEvent.Upserts, StoreEvent.Deletes]
  | updated path node =>
    refine (hput path node).trans ?_
    simp [PutsCluster, StoreEvent.Upserts, StoreEvent.Deletes]
  | deleted path =>
    rw [apply, hasCluster_drop, classify, Level.any_covers_iff hcluster]
    simp [PutsCluster, StoreEvent.Upserts, StoreEvent.Deletes, Level.lineage]
  | initialized => simp [apply, PutsCluster, StoreEvent.Upserts, StoreEvent.Deletes]
  | connection state => simp [apply, PutsCluster, StoreEvent.Upserts, StoreEvent.Deletes]

/-- A cluster whose name is no segment never comes. -/
theorem hasCluster_apply_of_not_isSegment {c : String} (h : ¬ Path.IsSegment c)
    (hnone : r.hasCluster c = false) (e : StoreEvent) : (r.apply e).1.hasCluster c = false := by
  refine apply_cases (P := fun x => x.1.hasCluster c = false) ?_ ?_ hnone e
  · intro path node
    rw [Bool.eq_false_iff, Ne, hasCluster_put, hnone]
    rintro ((hclass | ⟨k, hclass⟩) | hc)
    · exact h (levelAt_eq_some_iff.1 hclass).1
    · exact h (levelAt_eq_some_iff.1 hclass).1.1
    · cases hc
  · intro path
    rw [Bool.eq_false_iff, Ne, hasCluster_drop, hnone]
    exact fun hc => Bool.false_ne_true hc.2

/-! ## Whole histories -/

theorem applyAll_concat (r : Replica) (events : List StoreEvent) (e : StoreEvent) :
    r.applyAll (events ++ [e]) = ((r.applyAll events).apply e).1 :=
  applyAll_append r events [e]

/-- **A place after a history**: it holds the node of the last upsert of its path that no deletion
at or above it came after. -/
theorem node?_applyAll (root : String) (events : List StoreEvent) (level : Level) (node : Node) :
    ((empty root).applyAll events).node? level = some node ↔
      level.IsProper ∧ LastPut (level.path root) node (level.lineage root) events := by
  have hempty : (empty root).node? level = none := by cases level <;> rfl
  by_cases h : level.IsProper
  · rw [and_iff_right h]
    induction events using List.reverseRecOn with
    | nil =>
      rw [show (empty root).applyAll [] = empty root from rfl, hempty]
      exact ⟨nofun, fun hlast => absurd hlast not_lasts_nil⟩
    | append_singleton events e ih =>
      have hmore : LastPut (level.path root) node (level.lineage root) (events ++ [e]) ↔ _ :=
        lasts_concat e
      rw [applyAll_concat, node?_apply _ h, root_applyAll, hmore]
      exact or_congr Iff.rfl (and_congr_right fun _ => ih)
  · have hnone : ((empty root).applyAll events).node? level = none := by
      induction events using List.reverseRecOn with
      | nil => exact hempty
      | append_singleton events e ih =>
        rw [applyAll_concat]
        exact node?_apply_of_not_isProper h ih e
    rw [hnone]
    exact ⟨nofun, fun hlast => absurd hlast.1 h⟩

theorem isSome_node?_applyAll (root : String) (events : List StoreEvent) (level : Level) :
    (((empty root).applyAll events).node? level).isSome = true ↔
      level.IsProper ∧ Stands (level.path root) (level.lineage root) events := by
  rw [Option.isSome_iff_exists, stands_iff_exists_lastPut]
  simp only [node?_applyAll, exists_and_left]

/-- **A cluster after a history**: it or one of its keys was put, and no deletion at or above it
came after. -/
theorem hasCluster_applyAll (root : String) (events : List StoreEvent) (c : String) :
    ((empty root).applyAll events).hasCluster c = true ↔
      Path.IsSegment c ∧
        Lasts (PutsCluster root c) (·.Deletes [Path.child root c, root]) events := by
  have hempty : (empty root).hasCluster c = false := rfl
  by_cases h : Path.IsSegment c
  · rw [and_iff_right h]
    induction events using List.reverseRecOn with
    | nil =>
      rw [show (empty root).applyAll [] = empty root from rfl, hempty]
      exact ⟨nofun, fun hlast => absurd hlast not_lasts_nil⟩
    | append_singleton events e ih =>
      rw [applyAll_concat, hasCluster_apply _ h, root_applyAll, lasts_concat]
      exact or_congr Iff.rfl (and_congr_right fun _ => ih)
  · have hnone : ((empty root).applyAll events).hasCluster c = false := by
      induction events using List.reverseRecOn with
      | nil => exact hempty
      | append_singleton events e ih =>
        rw [applyAll_concat]
        exact hasCluster_apply_of_not_isSegment h ih e
    rw [hnone]
    exact ⟨nofun, fun hlast => absurd hlast.1 h⟩

/-! ## Replays -/

/-- Putting a node that is there changes nothing. -/
theorem upsert_of_node? {level : Level} {node : Node} (h : r.node? level = some node) :
    (r.upsert level node).1 = r := by
  have hinsert : ∀ c x, r.cluster? c = some x → r.clusters.insert c x = r.clusters :=
    fun c x hx => SortedMap.insert_of_find? hx
  cases level with
  | application =>
    have hnode : r.application = some node := h
    rw [upsert, ← hnode]
  | cluster c =>
    obtain ⟨x, hx, hnode⟩ := Option.bind_eq_some_iff.1 h
    have hsame : ({ x with node := some node } : Cluster) = x := by rw [← hnode]
    simp only [upsert, clusterOrUnseen, hx, Option.getD_some, hsame, hinsert c x hx]
  | key c k =>
    rw [node?, key?_eq_bind] at h
    obtain ⟨x, hx, hnode⟩ := Option.bind_eq_some_iff.1 h
    have hsame : ({ x with keys := x.keys.insert k node } : Cluster) = x := by
      rw [SortedMap.insert_of_find? hnode]
    simp only [upsert, clusterOrUnseen, hx, Option.getD_some, hsame, hinsert c x hx]

/-- The event tells that a node of the replica was created, as it is. -/
def Replays (r : Replica) (e : StoreEvent) : Prop :=
  ∃ level node, level.IsProper ∧ r.node? level = some node ∧
    e = .created (level.path r.root) node

theorem apply_replayed {e : StoreEvent} (h : r.Replays e) :
    (r.apply e).1 = { r with revision := r.revision + 1 } := by
  obtain ⟨level, node, hproper, hnode, rfl⟩ := h
  have hclass : r.classify (level.path r.root) = some level := levelAt_path r.root hproper
  have hsame := upsert_of_node? hnode
  simp only [apply, put, hclass, hsame]

/-- **Creations of nodes that are there change nothing but the revision.** -/
theorem applyAll_replayed (r : Replica) (events : List StoreEvent) (h : ∀ e ∈ events, r.Replays e) :
    r.applyAll events = { r with revision := r.revision + events.length } := by
  induction events generalizing r with
  | nil => rfl
  | cons e rest ih =>
    obtain ⟨hfirst, hrest⟩ := List.forall_mem_cons.1 h
    have hstill : ∀ e ∈ rest, Replays { r with revision := r.revision + 1 } e := by
      intro e he
      obtain ⟨level, node, hproper, hnode, heq⟩ := hrest e he
      refine ⟨level, node, hproper, ?_, heq⟩
      cases level <;> exact hnode
    rw [applyAll_cons, apply_replayed hfirst, ih _ hstill, List.length_cons, Nat.add_assoc,
      Nat.add_comm 1]

/-- **A replica is determined by its history.**  After any events, told to a replica that had seen
nothing:

* a key is there if some upsert of its path has no later deletion of its path, of its cluster's or
  of the root, and it then holds the node of the last upsert;
* a cluster is there if some upsert of its path, or of the path of a key in it, has no later
  deletion of its path or of the root, and its own node is that of the last upsert of its path, if
  there is one since the last of these deletions;
* the application's node is that of the last upsert of the root, if it was not deleted since;
* events that tell once more that nodes were created, as they are, change nothing but the
  revision. -/
theorem determined_by_history (root : String) (events : List StoreEvent) :
    let r := (empty root).applyAll events
    (∀ c k,
      let path := Path.child (Path.child root c) k
      let above := [path, Path.child root c, root]
      ((r.key? c k).isSome = true ↔
        (Path.IsSegment c ∧ Path.IsSegment k) ∧ Stands path above events) ∧
      ∀ node, r.key? c k = some node ↔
        (Path.IsSegment c ∧ Path.IsSegment k) ∧ LastPut path node above events) ∧
    (∀ c,
      let path := Path.child root c
      (r.hasCluster c = true ↔
        Path.IsSegment c ∧ Lasts
          (fun e => (∃ node, e.Upserts path node) ∨
            ∃ k node, Path.IsSegment k ∧ e.Upserts (Path.child path k) node)
          (·.Deletes [path, root]) events) ∧
      ∀ node, (r.cluster? c).bind Cluster.node = some node ↔
        Path.IsSegment c ∧ LastPut path node [path, root] events) ∧
    (∀ node, r.application = some node ↔ LastPut root node [root] events) ∧
    (∀ replayed : List StoreEvent,
      (∀ e ∈ replayed, ∃ level node,
        r.node? level = some node ∧ e = .created (level.path root) node) →
      r.applyAll replayed = { r with revision := r.revision + replayed.length }) := by
  intro r
  have hroot : r.root = root := root_applyAll (empty root) events
  refine ⟨fun c k => ⟨?_, fun node => ?_⟩, fun c => ⟨?_, fun node => ?_⟩, fun node => ?_,
    fun replayed hreplayed => ?_⟩
  · exact isSome_node?_applyAll root events (.key c k)
  · exact node?_applyAll root events (.key c k) node
  · exact hasCluster_applyAll root events c
  · exact node?_applyAll root events (.cluster c) node
  · have happlication := node?_applyAll root events .application node
    exact happlication.trans (and_iff_right trivial)
  · refine r.applyAll_replayed replayed fun e he => ?_
    obtain ⟨level, node, hnode, rfl⟩ := hreplayed e he
    have hproper := ((node?_applyAll root events level node).1 hnode).1
    exact ⟨level, node, hproper, hnode, by rw [hroot]⟩

end Replica

end Treecast
