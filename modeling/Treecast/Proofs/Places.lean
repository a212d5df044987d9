import Treecast.Proofs.Path

/-!
# Replicas place by place

`Replica.node? r level` is the node that a replica has at a place of its tree.  An event writes
one place or empties one place and everything below it.

Events are *tidy* if nothing is put below a missing cluster and nothing is removed that still has
something below it.  Tidy events change the replica at a single place, and leave no cluster
without its own node.

## Results

* `Replica.node?_put`, `Replica.node?_drop`: the places after any event.
* `Replica.apply_moved`: a tidy event that yields a change moves the replica by exactly that
  change.
-/

set_option autoImplicit false

namespace Treecast.Replica

/-- The node at a place. -/
def node? (r : Replica) : Level → Option Node
  | .application => r.application
  | .cluster c => (r.cluster? c).bind Cluster.node
  | .key c k => r.key? c k

variable {r : Replica}

/-! ## Single places -/

theorem key?_eq_bind (r : Replica) (c k : String) :
    r.key? c k = (r.cluster? c).bind fun x => x.keys.find? k := by
  unfold key?
  cases r.cluster? c <;> rfl

theorem clusterOrUnseen_node (r : Replica) (c : String) :
    (r.clusterOrUnseen c).node = r.node? (.cluster c) := by
  rw [node?, clusterOrUnseen]
  cases r.cluster? c <;> rfl

theorem clusterOrUnseen_keys (r : Replica) (c k : String) :
    (r.clusterOrUnseen c).keys.find? k = r.node? (.key c k) := by
  rw [node?, key?_eq_bind, clusterOrUnseen]
  cases r.cluster? c <;> rfl

theorem cluster?_insert (r : Replica) (c : String) (x : Cluster) (c' : String) :
    cluster? { r with clusters := r.clusters.insert c x } c' =
      if c' = c then some x else r.cluster? c' :=
  SortedMap.find?_insert r.clusters c x c'

theorem node?_upsert (r : Replica) (level : Level) (node : Node) (other : Level) :
    (r.upsert level node).1.node? other = if other = level then some node else r.node? other := by
  cases level with
  | application =>
    cases other <;> simp [upsert, node?, cluster?, key?]
  | cluster c =>
    cases other with
    | application => simp [upsert, node?]
    | cluster c' =>
      by_cases h : c' = c
      · simp [upsert, node?, cluster?_insert, h]
      · simp [upsert, node?, cluster?_insert, h]
    | key c' k =>
      by_cases h : c' = c
      · subst h
        simp only [upsert, node?, key?_eq_bind, cluster?_insert, if_true, Option.bind_some,
          clusterOrUnseen_keys, reduceCtorEq, if_false]
      · simp [upsert, node?, key?_eq_bind, cluster?_insert, h]
  | key c k =>
    cases other with
    | application => simp [upsert, node?]
    | cluster c' =>
      by_cases h : c' = c
      · subst h
        simp only [upsert, node?, cluster?_insert, if_true, Option.bind_some,
          clusterOrUnseen_node, reduceCtorEq, if_false]
      · simp [upsert, node?, cluster?_insert, h]
    | key c' k' =>
      by_cases h : c' = c
      · subst h
        simp only [upsert, node?, key?_eq_bind, cluster?_insert, if_true, Option.bind_some,
          SortedMap.find?_insert, clusterOrUnseen_keys, Level.key.injEq, true_and]
      · simp [upsert, node?, key?_eq_bind, cluster?_insert, h]

theorem node?_of_remove {r' : Replica} {level : Level} (h : r.remove level = some r')
    (other : Level) : r'.node? other = if level.covers other then none else r.node? other := by
  cases level with
  | application =>
    simp only [remove] at h
    split at h
    · cases h
      cases other <;> simp [node?, cluster?, key?, Level.covers]
    · cases h
  | cluster c =>
    simp only [remove] at h
    split at h
    · cases h
      cases other with
      | application => simp [node?, Level.covers]
      | cluster c' =>
        by_cases hc : c' = c
        · simp [node?, cluster?, Level.covers, hc]
        · simp [node?, cluster?, Level.covers, hc, Ne.symm hc]
      | key c' k' =>
        by_cases hc : c' = c
        · simp [node?, key?_eq_bind, cluster?, Level.covers, hc]
        · simp [node?, key?_eq_bind, cluster?, Level.covers, hc, Ne.symm hc]
    · cases h
  | key c k =>
    simp only [remove] at h
    split at h
    · cases h
    · rename_i x hx
      split at h
      · cases h
        cases other with
        | application => simp [node?, Level.covers]
        | cluster c' =>
          by_cases hc : c' = c
          · subst hc
            simp [node?, cluster?_insert, hx, Level.covers]
          · simp [node?, cluster?_insert, hc, Level.covers]
        | key c' k' =>
          by_cases hc : c' = c
          · subst hc
            simp [node?, key?_eq_bind, cluster?_insert, hx, Level.covers, eq_comm]
          · simp [node?, key?_eq_bind, cluster?_insert, hc, Ne.symm hc, Level.covers]
      · cases h

/-- A cluster that is left was there, and is not covered by the place that was emptied. -/
theorem hasCluster_of_remove {r' : Replica} {level : Level} (h : r.remove level = some r')
    {c : String} (hc : r'.hasCluster c = true) :
    r.hasCluster c = true ∧ level.covers (.cluster c) = false := by
  cases level with
  | application =>
    simp only [remove] at h
    split at h
    · cases h
      simp [hasCluster, SortedMap.contains] at hc
    · cases h
  | cluster c' =>
    simp only [remove] at h
    split at h
    · cases h
      by_cases hcc : c = c'
      · simp [hasCluster, SortedMap.contains, hcc] at hc
      · simp only [Level.covers, Ne.symm hcc, decide_false, and_true]
        simpa [hasCluster, SortedMap.contains, hcc] using hc
    · cases h
  | key c' k =>
    refine ⟨?_, rfl⟩
    simp only [remove] at h
    split at h
    · cases h
    · rename_i x hx
      split at h
      · cases h
        by_cases hcc : c = c'
        · rw [hcc, hasCluster, SortedMap.contains]
          exact Option.isSome_iff_exists.2 ⟨x, hx⟩
        · simpa [hasCluster, SortedMap.contains, hcc] using hc
      · cases h

theorem node?_of_remove_eq_none {level other : Level} (h : r.remove level = none)
    (hc : level.covers other = true) : r.node? other = none := by
  cases level with
  | application =>
    simp only [remove] at h
    split at h
    · cases h
    · rename_i hnone
      simp only [Bool.or_eq_true, Bool.not_eq_true', not_or, Bool.not_eq_true,
        Option.isSome_eq_false_iff, Option.isNone_iff_eq_none, Bool.not_eq_false] at hnone
      have hempty := SortedMap.eq_empty_of_isEmpty hnone.2
      cases other <;> simp [node?, key?, cluster?, hnone.1, hempty]
  | cluster c =>
    simp only [remove] at h
    split at h
    · cases h
    · rename_i hnone
      have hnone : r.clusters.find? c = none := by
        rwa [SortedMap.contains, Bool.not_eq_true, Option.isSome_eq_false_iff,
          Option.isNone_iff_eq_none] at hnone
      cases other <;> simp_all [Level.covers, node?, key?, cluster?]
  | key c k =>
    simp only [remove] at h
    cases other with
    | application => cases hc
    | cluster c' => cases hc
    | key c' k' =>
      simp only [Level.covers, Bool.and_eq_true, decide_eq_true_eq] at hc
      obtain ⟨rfl, rfl⟩ := hc
      rw [node?, key?_eq_bind]
      split at h
      · rename_i hnone
        rw [hnone, Option.bind_none]
      · rename_i x hx
        split at h
        · cases h
        · rename_i hnone
          rw [hx, Option.bind_some]
          rwa [SortedMap.contains, Bool.not_eq_true, Option.isSome_eq_false_iff,
            Option.isNone_iff_eq_none] at hnone

/-! ## Events -/

theorem node?_put (r : Replica) (path : String) (node : Node) (other : Level) :
    (r.put path node).1.node? other =
      if r.classify path = some other then some node else r.node? other := by
  unfold put
  split
  · rename_i h
    simp [h]
  · rename_i level h
    have hrev : ∀ (x : Replica) n, node? { x with revision := n } other = x.node? other :=
      fun x n => by cases other <;> rfl
    rw [hrev, node?_upsert, h]
    by_cases hl : other = level
    · rw [hl, if_pos rfl, if_pos rfl]
    · rw [if_neg hl, if_neg fun hs => hl (Option.some.inj hs).symm]

theorem node?_drop (r : Replica) (path : String) (other : Level) :
    (r.drop path).1.node? other =
      if (r.classify path).any (·.covers other) then none else r.node? other := by
  unfold drop
  split
  · rename_i h
    simp [h]
  · rename_i level h
    rw [h, Option.any_some]
    split
    · rename_i hnone
      split
      · rename_i hc
        exact node?_of_remove_eq_none hnone hc
      · rfl
    · rename_i r' hr'
      have hrev : ∀ n, node? { r' with revision := n } other = r'.node? other :=
        fun n => by cases other <;> rfl
      rw [hrev, node?_of_remove hr']

/-- Every cluster has its own node. -/
def AllSeen (r : Replica) : Prop :=
  ∀ c, r.hasCluster c = true → (r.node? (.cluster c)).isSome

/-- Nothing is put below a missing cluster, and nothing removed that has something below it. -/
def Tidy (r : Replica) : StoreEvent → Prop
  | .created path _ | .updated path _ =>
    ∀ c k, r.classify path = some (.key c k) → r.hasCluster c = true
  | .deleted path =>
    ∀ level other, r.classify path = some level → level.covers other = true → other ≠ level →
      r.node? other = none
  | _ => True

theorem AllSeen.put (hs : r.AllSeen) {path : String} {node : Node}
    (ht : r.Tidy (.created path node)) : (r.put path node).1.AllSeen := by
  intro c hc
  rw [node?_put]
  split
  · rfl
  · rename_i hne
    refine hs c ?_
    unfold Replica.put at hc
    split at hc
    · exact hc
    · rename_i level hl
      cases level with
      | application => exact hc
      | cluster c' =>
        rw [hl, Option.some.injEq, Level.cluster.injEq] at hne
        simpa [upsert, hasCluster, SortedMap.contains, Ne.symm hne] using hc
      | key c' k =>
        by_cases h : c = c'
        · exact h ▸ ht c' k hl
        · simpa [upsert, hasCluster, SortedMap.contains, h] using hc

theorem AllSeen.drop (hs : r.AllSeen) (path : String) : (r.drop path).1.AllSeen := by
  intro c hc
  rw [node?_drop]
  unfold Replica.drop at hc
  split at hc
  · rename_i h
    simpa [h] using hs c hc
  · rename_i level h
    split at hc
    · rename_i hnone
      rw [h, Option.any_some]
      have hsome := hs c hc
      split
      · rename_i hcov
        rw [node?_of_remove_eq_none hnone hcov] at hsome
        exact hsome
      · exact hsome
    · rename_i r' hr'
      obtain ⟨hbefore, hcovers⟩ := hasCluster_of_remove hr' hc
      rw [h, Option.any_some, hcovers]
      exact hs c hbefore

theorem root_put (r : Replica) (path : String) (node : Node) :
    (r.put path node).1.root = r.root := by
  unfold Replica.put
  split
  · rfl
  · rename_i level _
    cases level <;> rfl

theorem root_of_remove {r' : Replica} {level : Level} (h : r.remove level = some r') :
    r'.root = r.root := by
  cases level <;> simp only [remove] at h
  case application =>
    split at h <;> cases h
    rfl
  case cluster c =>
    split at h <;> cases h
    rfl
  case key c k =>
    split at h
    · cases h
    · split at h <;> cases h
      rfl

theorem root_drop (r : Replica) (path : String) : (r.drop path).1.root = r.root := by
  unfold Replica.drop
  split
  · rfl
  · split
    · rfl
    · rename_i r' hr'
      have := root_of_remove hr'
      exact this

/-- What an event can come to: a node is put, a node is removed, or nothing happens. -/
theorem apply_cases {P : Replica × Option Change → Prop} (hput : ∀ path node, P (r.put path node))
    (hdrop : ∀ path, P (r.drop path)) (hidle : P (r, none)) (event : StoreEvent) :
    P (r.apply event) := by
  cases event with
  | created path node => exact hput path node
  | updated path node => exact hput path node
  | deleted path => exact hdrop path
  | initialized => exact hidle
  | connection state => exact hidle

@[simp] theorem root_apply (r : Replica) (event : StoreEvent) :
    (r.apply event).1.root = r.root :=
  apply_cases (P := fun x => x.1.root = r.root) (root_put r) (root_drop r) rfl event

/-- `r'` is `r` after one change at one place. -/
structure Moved (r : Replica) (change : Change) (r' : Replica) : Prop where
  root : r'.root = r.root
  revision : r'.revision = r.revision + 1
  numbered : change.revision = r'.revision
  here : (r'.node? change.level).map Node.value = change.value
  elsewhere : ∀ level, level ≠ change.level → r'.node? level = r.node? level

theorem put_moved (r : Replica) {path : String} {node : Node} {change : Change}
    (h : (r.put path node).2 = some change) : Moved r change (r.put path node).1 := by
  have hroot := root_put r path node
  have hnode := node?_put r path node
  revert hroot hnode h
  unfold Replica.put
  split
  · intro h
    cases h
  · rename_i level hl
    intro h hroot hnode
    cases h
    refine ⟨hroot, rfl, rfl, ?_, fun other hne => ?_⟩
    · rw [hnode, hl, if_pos rfl]
      rfl
    · rw [hnode, hl, if_neg fun he => hne (Option.some.inj he).symm]

theorem drop_moved {path : String} {change : Change} (ht : r.Tidy (.deleted path))
    (h : (r.drop path).2 = some change) : Moved r change (r.drop path).1 := by
  have hroot := root_drop r path
  have hnode := node?_drop r path
  revert hroot hnode h
  unfold Replica.drop
  split
  · intro h
    cases h
  · rename_i level hl
    split
    · intro h
      cases h
    · intro h hroot hnode
      cases h
      refine ⟨hroot, rfl, rfl, ?_, fun other hne => ?_⟩
      · rw [hnode, hl, Option.any_some, if_pos (by cases level <;> simp [Level.covers])]
        rfl
      · rw [hnode, hl, Option.any_some]
        split
        · rename_i hc
          exact (ht level other hl hc hne).symm
        · rfl

theorem put_eq_self {path : String} {node : Node} (h : (r.put path node).2 = none) :
    (r.put path node).1 = r := by
  revert h
  unfold Replica.put
  split
  · intro _
    rfl
  · intro h
    cases h

theorem drop_eq_self {path : String} (h : (r.drop path).2 = none) : (r.drop path).1 = r := by
  revert h
  unfold Replica.drop
  split
  · intro _
    rfl
  · split
    · intro _
      rfl
    · intro h
      cases h

/-- An event that yields no change leaves the replica alone. -/
theorem apply_eq_self {event : StoreEvent} (h : (r.apply event).2 = none) :
    (r.apply event).1 = r := by
  revert h
  exact apply_cases (P := fun x => x.2 = none → x.1 = r) (fun _ _ => put_eq_self)
    (fun _ => drop_eq_self) (fun _ => rfl) event

/-- **A tidy event that yields a change moves the replica by that change.** -/
theorem apply_moved {event : StoreEvent} {change : Change} (ht : r.Tidy event)
    (h : (r.apply event).2 = some change) : Moved r change (r.apply event).1 := by
  cases event with
  | created path node => exact put_moved r h
  | updated path node => exact put_moved r h
  | deleted path => exact drop_moved ht h
  | initialized => cases h
  | connection state => cases h

theorem AllSeen.apply (hs : r.AllSeen) {event : StoreEvent} (ht : r.Tidy event) :
    (r.apply event).1.AllSeen := by
  cases event with
  | created path node => exact hs.put ht
  | updated path node => exact hs.put ht
  | deleted path => exact hs.drop path
  | initialized => exact hs
  | connection state => exact hs

end Treecast.Replica
