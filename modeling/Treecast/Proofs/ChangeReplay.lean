import Treecast.Proofs.LifeCycle
import Treecast.Proofs.Replication

/-!
# Replaying changes

What a replica holds, told apart from how it came there, are its contents: the values of its
application node, of its clusters and of their keys.  A change names a place and what is there
now, and that is enough to carry the contents on: replaying the changes of any events, by place
and value alone, turns the contents before them into the contents after them.  Nothing is assumed
of the events.  They may put a key below a missing cluster, remove a cluster with its keys, or
remove what was never there.

Since revisions count the changes, a snapshot of the contents together with the changes above its
revision gives the contents of any later time.

## Results

* `Replica.contents_apply`, `Replica.contents_applyAll`: the contents after one event, and after
  any events.
* `Replica.revision_changesOver`: which revisions the changes of a run have.
* `Holder.hears_act`, `Holder.hears_run`: a holder's log tells the changes of its replica, all of
  them and no others.
* `Replica.changes_tell_contents`: the change log is a faithful delta.
-/

set_option autoImplicit false

namespace Treecast

/-! ## Contents -/

/-- The values in a cluster. -/
structure ClusterContents where
  /-- The value of the cluster's own node, once it has been seen. -/
  value : Option String
  keys : SortedMap String String
  deriving DecidableEq

/-- The cluster of which nothing is known. -/
def ClusterContents.unseen : ClusterContents := ⟨none, SortedMap.empty⟩

/-- The values in a tree. -/
structure Contents where
  application : Option String
  clusters : SortedMap String ClusterContents
  deriving DecidableEq

namespace Contents

/-- The cluster of that name, or the one of which nothing is known. -/
def clusterOrUnseen (c : Contents) (name : String) : ClusterContents :=
  (c.clusters.find? name).getD .unseen

/-- Puts a value in its place. -/
def put (c : Contents) (value : String) : Level → Contents
  | .application => { c with application := some value }
  | .cluster name =>
    let cluster := c.clusterOrUnseen name
    { c with clusters := c.clusters.insert name { cluster with value := some value } }
  | .key name key =>
    let cluster := c.clusterOrUnseen name
    { c with clusters :=
        c.clusters.insert name { cluster with keys := cluster.keys.insert key value } }

/-- Removes what is at a place and below it. -/
def clear (c : Contents) : Level → Contents
  | .application => ⟨none, SortedMap.empty⟩
  | .cluster name => { c with clusters := c.clusters.erase name }
  | .key name key =>
    { c with clusters :=
        c.clusters.modify name fun cluster => { cluster with keys := cluster.keys.erase key } }

/-- What a change tells: the value that is at a place now, or that the place is empty. -/
def amend (c : Contents) (level : Level) : Option String → Contents
  | some value => c.put value level
  | none => c.clear level

/-- Replays changes, of which only the place and the value are read. -/
def replay (c : Contents) (changes : List Change) : Contents :=
  changes.foldl (fun c change => c.amend change.level change.value) c

theorem replay_append (c : Contents) (changes more : List Change) :
    c.replay (changes ++ more) = (c.replay changes).replay more :=
  List.foldl_append

end Contents

/-- The values in a cluster. -/
def Cluster.contents (c : Cluster) : ClusterContents :=
  ⟨c.node.map Node.value, c.keys.map fun _ node => node.value⟩

namespace Replica

/-- The values in a replica. -/
def contents (r : Replica) : Contents :=
  ⟨r.application.map Node.value, r.clusters.map fun _ c => c.contents⟩

/-- The changes that events yield, in order. -/
def changesOver (r : Replica) : List StoreEvent → List Change
  | [] => []
  | event :: rest => (r.apply event).2.toList ++ (r.apply event).1.changesOver rest

variable {r : Replica}

/-! ## One event -/

theorem contents_clusterOrUnseen (r : Replica) (name : String) :
    r.contents.clusterOrUnseen name = (r.clusterOrUnseen name).contents := by
  simp only [Contents.clusterOrUnseen, contents, SortedMap.find?_map, clusterOrUnseen, cluster?]
  cases r.clusters.find? name <;> rfl

theorem contents_upsert (r : Replica) (level : Level) (node : Node) :
    (r.upsert level node).1.contents = r.contents.put node.value level := by
  cases level with
  | application => rfl
  | cluster name =>
    simp only [Contents.put, contents_clusterOrUnseen]
    simp only [contents, upsert, SortedMap.map_insert, Cluster.contents, Option.map_some]
  | key name key =>
    simp only [Contents.put, contents_clusterOrUnseen]
    simp only [contents, upsert, SortedMap.map_insert, Cluster.contents]

theorem contents_of_remove {r' : Replica} {level : Level} (h : r.remove level = some r') :
    r'.contents = r.contents.clear level := by
  cases level with
  | application =>
    simp only [remove] at h
    split at h
    · cases h
      rfl
    · cases h
  | cluster name =>
    simp only [remove] at h
    split at h
    · cases h
      simp only [contents, Contents.clear, SortedMap.map_erase]
    · cases h
  | key name key =>
    simp only [remove] at h
    split at h
    · cases h
    · rename_i c hc
      split at h
      · cases h
        have hcluster : r.clusters.find? name = some c := hc
        simp only [contents, Contents.clear, SortedMap.modify, SortedMap.find?_map, hcluster,
          Option.map_some, SortedMap.map_insert, Cluster.contents, SortedMap.map_erase]
      · cases h

/-- **What an event does to the contents is what its change tells.** -/
theorem contents_apply (r : Replica) (event : StoreEvent) :
    (r.apply event).1.contents = r.contents.replay (r.apply event).2.toList := by
  refine apply_cases (P := fun x => x.1.contents = r.contents.replay x.2.toList) ?_ ?_ rfl event
  · intro path node
    unfold put
    split
    · rfl
    · exact contents_upsert r _ node
  · intro path
    unfold drop
    split
    · rfl
    · split
      · rfl
      · rename_i hremoved
        have hcontents := contents_of_remove hremoved
        exact hcontents

/-- An event without a change leaves everything as it is; any other one raises the revision by
one, to that of its change. -/
theorem apply_counts (r : Replica) (event : StoreEvent) :
    match (r.apply event).2 with
    | none => (r.apply event).1 = r
    | some change =>
      (r.apply event).1.revision = r.revision + 1 ∧ change.revision = r.revision + 1 := by
  split
  · rename_i hnone
    exact apply_eq_self hnone
  · rename_i change hsome
    obtain ⟨hrevision, hnumber⟩ := Holder.revision_of_apply hsome
    exact ⟨hrevision, hnumber.trans hrevision⟩

/-! ## Any number of events -/

theorem changesOver_append (r : Replica) (events more : List StoreEvent) :
    r.changesOver (events ++ more) =
      r.changesOver events ++ (r.applyAll events).changesOver more := by
  induction events generalizing r with
  | nil => rfl
  | cons event rest ih =>
    rw [List.cons_append, changesOver, ih, changesOver, List.append_assoc, applyAll_cons]

theorem contents_applyAll (r : Replica) (events : List StoreEvent) :
    (r.applyAll events).contents = r.contents.replay (r.changesOver events) := by
  induction events generalizing r with
  | nil => rfl
  | cons event rest ih =>
    rw [applyAll_cons, ih, contents_apply, changesOver, Contents.replay_append]

/-- The changes of a run are numbered on from the revision before it, up to the one after it. -/
theorem revision_changesOver (r : Replica) (events : List StoreEvent) :
    (r.changesOver events).map Change.revision =
        List.range' (r.revision + 1) (r.changesOver events).length ∧
      (r.applyAll events).revision = r.revision + (r.changesOver events).length := by
  induction events generalizing r with
  | nil => exact ⟨rfl, rfl⟩
  | cons event rest ih =>
    obtain ⟨hnumbers, hlast⟩ := ih (r.apply event).1
    have hcounts := r.apply_counts event
    rw [applyAll_cons, changesOver]
    cases hchange : (r.apply event).2 with
    | none =>
      rw [hchange] at hcounts
      rw [hcounts] at hnumbers hlast ⊢
      exact ⟨hnumbers, hlast⟩
    | some change =>
      rw [hchange] at hcounts
      obtain ⟨hrevision, hnumber⟩ := hcounts
      rw [hrevision] at hnumbers hlast
      simp only [Option.toList_some, List.cons_append, List.nil_append, List.map_cons,
        List.length_cons, List.range'_succ, hnumbers, hnumber, hlast, true_and]
      omega

/-- The revisions of the changes of a run tell them apart from those before and after it. -/
theorem between_of_mem_changesOver {events : List StoreEvent} {change : Change}
    (hchange : change ∈ r.changesOver events) :
    r.revision < change.revision ∧ change.revision ≤ (r.applyAll events).revision := by
  obtain ⟨hnumbers, hlast⟩ := r.revision_changesOver events
  have hmem : change.revision ∈ (r.changesOver events).map Change.revision :=
    List.mem_map_of_mem hchange
  rw [hnumbers, List.mem_range'_1] at hmem
  omega

/-- The changes above the revision of a snapshot are those of the events after it. -/
theorem changes_above (r : Replica) (before after : List StoreEvent) :
    (r.changesOver (before ++ after)).filter ((r.applyAll before).revision < ·.revision) =
      (r.applyAll before).changesOver after := by
  have hold : (r.changesOver before).filter ((r.applyAll before).revision < ·.revision) = [] := by
    refine List.filter_eq_nil_iff.2 fun change hchange => ?_
    have hle := (between_of_mem_changesOver hchange).2
    simpa using hle
  have hnew : ((r.applyAll before).changesOver after).filter
      ((r.applyAll before).revision < ·.revision) = (r.applyAll before).changesOver after := by
    refine List.filter_eq_self.2 fun change hchange => ?_
    have hlt := (between_of_mem_changesOver hchange).1
    simpa using hlt
  rw [changesOver_append, List.filter_append, hold, hnew, List.nil_append]

/-- **A snapshot and the changes above its revision give the contents of any later time.** -/
theorem contents_of_snapshot (r : Replica) (before after : List StoreEvent) :
    (r.applyAll (before ++ after)).contents =
      (r.applyAll before).contents.replay
        ((r.changesOver (before ++ after)).filter ((r.applyAll before).revision < ·.revision)) := by
  rw [changes_above, applyAll_append, contents_applyAll]

end Replica

/-! ## The log of a holder -/

namespace Holder

/-- Between two holders, the replica was led on by these events, and just their changes logged. -/
structure Hears (h : Holder) (events : List StoreEvent) (h' : Holder) : Prop where
  replica : h'.replica = h.replica.applyAll events
  changes : changesOf h'.log = changesOf h.log ++ h.replica.changesOver events

variable {h h' h'' : Holder}

theorem Hears.trans {events more : List StoreEvent} (hfirst : h.Hears events h')
    (hmore : h'.Hears more h'') : h.Hears (events ++ more) h'' where
  replica := by rw [hmore.replica, hfirst.replica, Replica.applyAll_append]
  changes := by
    rw [hmore.changes, hfirst.changes, hfirst.replica, Replica.changesOver_append,
      List.append_assoc]

/-- The log grows by nothing that tells of a change. -/
theorem Hears.of_quiet (hreplica : h'.replica = h.replica) {more : List LogEntry}
    (hlog : h'.log = h.log ++ more) (hmore : changesOf more = []) : h.Hears [] h' where
  replica := hreplica
  changes := by rw [hlog, changesOf_append, hmore, Replica.changesOver]

theorem hears_close (h : Holder) : h.Hears [] h.close := by
  unfold close
  split
  · exact .of_quiet rfl (List.append_nil _).symm rfl
  · exact .of_quiet rfl rfl rfl

theorem hears_handle (h : Holder) (event : StoreEvent) : h.Hears [event] (h.handle event) := by
  refine handle_cases (P := fun event h' => h.Hears [event] h') h ?_ ?_ ?_ ?_ event
  · intro _
    exact ⟨rfl, (List.append_nil _).symm⟩
  · intro event hnone
    refine ⟨(Replica.apply_eq_self hnone).symm, ?_⟩
    simp [Replica.changesOver, hnone]
  · intro state
    exact ⟨rfl, changesOf_append h.log [.connection state]⟩
  · intro event change hchange
    refine ⟨rfl, ?_⟩
    rw [changesOf_append]
    simp [Replica.changesOver, hchange, changesOf, LogEntry.change?]

/-- One act leads the replica on by some events, and logs just their changes. -/
theorem hears_act (h : Holder) (act : Act) : ∃ events, h.Hears events (h.act act) := by
  have hidle : h.Hears [] h := .of_quiet rfl (List.append_nil _).symm rfl
  cases act with
  | start watched =>
    have hstart : h.Hears [] h.start := by
      unfold start
      split
      · exact .of_quiet rfl (List.append_nil _).symm rfl
      · exact hidle
    refine ⟨[], ?_⟩
    rw [Holder.act]
    split
    · cases watched with
      | true => exact hstart
      | false => exact hstart.trans h.start.hears_close
    · exact hidle
  | close => exact ⟨[], h.hears_close⟩
  | event event =>
    rw [Holder.act, handleAll]
    split
    · exact ⟨[], hidle⟩
    · exact ⟨[event], h.hears_handle event⟩
  | watchEnded => exact ⟨[], h.hears_close⟩

/-- So does every sequence of acts. -/
theorem hears_run (h : Holder) (acts : List Act) : ∃ events, h.Hears events (h.run acts) := by
  induction acts generalizing h with
  | nil => exact ⟨[], .of_quiet rfl (List.append_nil _).symm rfl⟩
  | cons a rest ih =>
    obtain ⟨events, hfirst⟩ := h.hears_act a
    obtain ⟨more, hmore⟩ := ih (h.act a)
    exact ⟨events ++ more, hfirst.trans hmore⟩

/-- **A snapshot of a holder's replica and the changes above its revision in the holder's log give
the contents at any later time.** -/
theorem contents_of_log (key : TreeKey) (capacity : Nat) (before after : List Act) :
    let snapshot := ((create key capacity).run before).replica
    let h := ((create key capacity).run before).run after
    h.replica.contents =
      snapshot.contents.replay ((changesOf h.log).filter (snapshot.revision < ·.revision)) := by
  intro snapshot h
  obtain ⟨events, hbefore⟩ := (create key capacity).hears_run before
  obtain ⟨more, hafter⟩ := ((create key capacity).run before).hears_run after
  have hsnapshot : snapshot = (create key capacity).replica.applyAll events := hbefore.replica
  have hheard := hbefore.trans hafter
  have hlog : changesOf h.log = (create key capacity).replica.changesOver (events ++ more) :=
    hheard.changes
  rw [hlog, hsnapshot, ← Replica.contents_of_snapshot, ← hheard.replica]

end Holder

namespace Replica

/-- **The change log is a faithful delta.**  For every replica and every sequence of events: an
event without a change leaves the replica as it is, and any other one raises the revision by one,
to that of its change; replaying the changes by place and value turns the contents before the
events into those after them; and at any split of the events the contents of that time, with the
changes whose revision is above the one of that time, give the contents at the end.  The same holds
of the replica and the log of a holder, whatever happens to it. -/
theorem changes_tell_contents :
    (∀ (r : Replica) (event : StoreEvent),
      match (r.apply event).2 with
      | none => (r.apply event).1 = r
      | some change =>
        (r.apply event).1.revision = r.revision + 1 ∧ change.revision = r.revision + 1) ∧
    (∀ (r : Replica) (events : List StoreEvent),
      r.contents.replay (r.changesOver events) = (r.applyAll events).contents) ∧
    (∀ (r : Replica) (before after : List StoreEvent),
      let snapshot := r.applyAll before
      let changes := r.changesOver (before ++ after)
      snapshot.contents.replay (changes.filter (snapshot.revision < ·.revision)) =
        (r.applyAll (before ++ after)).contents) ∧
    (∀ (key : TreeKey) (capacity : Nat) (before after : List Holder.Act),
      let snapshot := ((Holder.create key capacity).run before).replica
      let h := ((Holder.create key capacity).run before).run after
      snapshot.contents.replay ((changesOf h.log).filter (snapshot.revision < ·.revision)) =
        h.replica.contents) := by
  refine ⟨apply_counts, ?_, ?_, ?_⟩
  · intro r events
    exact (r.contents_applyAll events).symm
  · intro r before after
    exact (r.contents_of_snapshot before after).symm
  · intro key capacity before after
    exact (Holder.contents_of_log key capacity before after).symm

end Replica

end Treecast
