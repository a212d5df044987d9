import Treecast.Proofs.Places
import Treecast.Proofs.StoreCalls

/-!
# Replication

A watch's queue leads the replica of its reader to the store: applying the waiting events, all
of them tidy, gives the replica that shows the store's subtree (`Store.Leads`).  The replay
that a new watch finds does so for the empty replica, every single write keeps it for the
watches that are read, and so every call does.

## Results

* `Store.leads_kept`, `Store.leads_watch`: calls keep what a watch leads to, and a new watch
  leads the empty replica to the store.
* `Store.pending_shows_subtree`: whenever a watch was started between calls, the events in its
  queue turn the empty replica into the store's subtree.
-/

set_option autoImplicit false

namespace Treecast

/-! ## Replicas that show a store -/

namespace Replica

/-- The replica has exactly the nodes that are stored at its places, with their values and
versions. -/
structure Shows (r : Replica) (s : Store) : Prop where
  seen : r.AllSeen
  cores : ∀ level, (r.node? level).map Node.core =
    if level.IsProper then s.core? (level.path r.root) else none

/-- The replica is the store's subtree: its application node is the one stored at the root, its
clusters are the nodes stored one segment below and their keys those stored two segments below,
each with its stored value and version. -/
structure IsSubtreeOf (r : Replica) (s : Store) : Prop where
  application : r.application.map Node.core = s.core? r.root
  clusters : ∀ c, r.hasCluster c = true ↔
    Path.IsSegment c ∧ s.has (Path.child r.root c) = true
  nodes : ∀ c x, r.cluster? c = some x → x.node.map Node.core = s.core? (Path.child r.root c)
  keys : ∀ c k, (r.key? c k).map Node.core =
    if Path.IsSegment c ∧ Path.IsSegment k then s.core? (Path.child (Path.child r.root c) k)
    else none

variable {r : Replica} {s s' : Store}

theorem Shows.of_core?_eq (h : r.Shows s) (hs : ∀ level : Level,
    s'.core? (level.path r.root) = s.core? (level.path r.root)) : r.Shows s' :=
  ⟨h.seen, fun level => by rw [h.cores, hs]⟩

theorem Shows.isSome (h : r.Shows s) {level : Level} (hl : level.IsProper) :
    (r.node? level).isSome = s.has (level.path r.root) := by
  rw [Store.has_eq_isSome_core?, ← Option.isSome_map (f := Node.core), h.cores, if_pos hl]

theorem hasCluster_of_isSome {c : String} (h : (r.node? (.cluster c)).isSome) :
    r.hasCluster c = true := by
  rw [node?, cluster?, Option.isSome_bind] at h
  rw [hasCluster, SortedMap.contains]
  cases hc : r.clusters.find? c with
  | none => simp [hc] at h
  | some x => rfl

theorem Shows.isSubtreeOf (h : r.Shows s) : r.IsSubtreeOf s := by
  have hclusters : ∀ c, r.hasCluster c = true ↔
      Path.IsSegment c ∧ s.has (Path.child r.root c) = true := by
    refine fun c => ⟨fun hc => ?_, fun hc => hasCluster_of_isSome ?_⟩
    · have hsome := h.seen c hc
      have hproper : (Level.cluster c).IsProper := by
        refine Classical.byContradiction fun hn => ?_
        rw [← Option.isSome_map (f := Node.core), h.cores, if_neg hn] at hsome
        cases hsome
      exact ⟨hproper, by rwa [h.isSome hproper] at hsome⟩
    · have hproper : (Level.cluster c).IsProper := hc.1
      rw [h.isSome hproper]
      exact hc.2
  refine ⟨h.cores .application, hclusters, fun c x hx => ?_, fun c k => h.cores (.key c k)⟩
  have hcore := h.cores (.cluster c)
  have hproper : (Level.cluster c).IsProper :=
    ((hclusters c).1 (Option.isSome_iff_exists.2 ⟨x, hx⟩)).1
  rwa [node?, hx, Option.bind_some, if_pos hproper] at hcore

/-- A node is put below a cluster that is there, if above its path everything is stored. -/
theorem Shows.tidy_put (h : r.Shows s) (hroot : Path.IsRoot r.root) {path : String}
    (hready : s.ParentReady path) (node : Node) : r.Tidy (.created path node) := by
  intro c k hk
  obtain ⟨⟨hc, hkey⟩, rfl⟩ := levelAt_eq_some_iff.1 hk
  have hne : Path.child r.root c ≠ "" := fun he => by
    have := congrArg String.toList he
    simp at this
  have hparent : Path.parent? (Path.child (Path.child r.root c) k) = some (Path.child r.root c) :=
    Path.parent?_child hne hkey.2
  have hproper : (Level.cluster c).IsProper := hc
  refine hasCluster_of_isSome ?_
  rw [h.isSome hproper]
  exact (hready _ hparent).resolve_left (Path.child_ne_top hroot.1)

theorem Shows.put (h : r.Shows s) {path : String} {node : Node}
    (ht : r.Tidy (.created path node))
    (hs : ∀ other, s'.core? other = if other = path then some node.core else s.core? other) :
    (r.put path node).1.Shows s' := by
  refine ⟨h.seen.put ht, fun level => ?_⟩
  rw [node?_put, root_put, hs, classify]
  by_cases hl : level.IsProper
  · by_cases hp : level.path r.root = path
    · rw [if_pos hl, if_pos hp, if_pos (levelAt_eq_some_iff.2 ⟨hl, hp.symm⟩), Option.map_some]
    · rw [if_pos hl, if_neg hp, if_neg fun he => hp (levelAt_eq_some_iff.1 he).2.symm, h.cores,
        if_pos hl]
  · rw [if_neg hl, if_neg fun he => hl (levelAt_eq_some_iff.1 he).1, h.cores, if_neg hl]

/-- A node is removed when nothing is below it, if nothing is stored below its path. -/
theorem Shows.tidy_drop (h : r.Shows s) (hroot : Path.IsRoot r.root) {path : String}
    (hbelow : s.NothingBelow path) : r.Tidy (.deleted path) := by
  intro level other hlevel hcover hne
  obtain ⟨hl, rfl⟩ := levelAt_eq_some_iff.1 hlevel
  by_cases ho : other.IsProper
  · cases hnode : r.node? other with
    | none => rfl
    | some node =>
      have hstored : s.has (other.path r.root) = true := by
        rw [← h.isSome ho, hnode]
        rfl
      have := hbelow _ hstored (Level.isUnder_of_covers hroot hcover)
      exact absurd (Level.path_inj ho hl this) hne
  · have := h.cores other
    rwa [if_neg ho, Option.map_eq_none_iff] at this

theorem Shows.drop (h : r.Shows s) {path : String} (ht : r.Tidy (.deleted path))
    (hs : ∀ other, s'.core? other = if other = path then none else s.core? other) :
    (r.drop path).1.Shows s' := by
  refine ⟨h.seen.drop path, fun level => ?_⟩
  rw [node?_drop, root_drop, hs]
  cases hp : r.classify path with
  | none =>
    rw [Option.any_none, if_neg Bool.false_ne_true, h.cores]
    by_cases hl : level.IsProper
    · have hne : level.path r.root ≠ path := fun he => by
        rw [classify, ← he, levelAt_path r.root hl] at hp
        cases hp
      rw [if_pos hl, if_pos hl, if_neg hne]
    · rw [if_neg hl, if_neg hl]
  | some here =>
    obtain ⟨hhere, rfl⟩ := levelAt_eq_some_iff.1 hp
    rw [Option.any_some]
    by_cases he : level = here
    · subst he
      have : level.covers level = true := by cases level <;> simp [Level.covers]
      rw [if_pos this, if_pos hhere, if_pos rfl, Option.map_none]
    · have hcores : (if here.covers level = true then none else r.node? level) = r.node? level := by
        split
        · rename_i hcover
          exact (ht here level hp hcover he).symm
        · rfl
      rw [hcores, h.cores]
      by_cases hl : level.IsProper
      · rw [if_pos hl, if_pos hl, if_neg fun hpath => he (Level.path_inj hl hhere hpath)]
      · rw [if_neg hl, if_neg hl]

/-! ## Queues -/

/-- Every event is tidy for the replica that it meets. -/
def Orderly : Replica → List StoreEvent → Prop
  | _, [] => True
  | r, event :: rest => r.Tidy event ∧ Orderly (r.apply event).1 rest

theorem applyAll_cons (r : Replica) (event : StoreEvent) (rest : List StoreEvent) :
    r.applyAll (event :: rest) = (r.apply event).1.applyAll rest := rfl

theorem applyAll_append (r : Replica) (events more : List StoreEvent) :
    r.applyAll (events ++ more) = (r.applyAll events).applyAll more :=
  List.foldl_append

theorem root_empty (root : String) : (empty root).root = root := rfl

@[simp] theorem root_applyAll (r : Replica) (events : List StoreEvent) :
    (r.applyAll events).root = r.root := by
  induction events generalizing r with
  | nil => rfl
  | cons event rest ih => rw [applyAll_cons, ih, root_apply]

theorem orderly_append {events more : List StoreEvent} :
    r.Orderly (events ++ more) ↔ r.Orderly events ∧ (r.applyAll events).Orderly more := by
  induction events generalizing r with
  | nil => exact ⟨fun h => ⟨trivial, h⟩, fun h => h.2⟩
  | cons event rest ih =>
    rw [List.cons_append, Orderly, Orderly, ih, applyAll_cons, and_assoc]

/-- The queue leads the replica to the store. -/
structure CatchesUp (r : Replica) (queue : List StoreEvent) (s : Store) : Prop where
  isRoot : Path.IsRoot r.root
  orderly : r.Orderly queue
  caughtUp : (r.applyAll queue).Shows s

variable {queue : List StoreEvent}

theorem CatchesUp.snoc (h : r.CatchesUp queue s) {event : StoreEvent}
    (ht : (r.applyAll queue).Tidy event) (hs : ((r.applyAll queue).apply event).1.Shows s') :
    r.CatchesUp (queue ++ [event]) s' := by
  refine ⟨h.isRoot, orderly_append.2 ⟨h.orderly, ht, trivial⟩, ?_⟩
  rw [applyAll_append]
  exact hs

/-- Reading the first event leaves a queue that leads on. -/
theorem CatchesUp.tail {event : StoreEvent} (h : r.CatchesUp (event :: queue) s) :
    r.Tidy event ∧ (r.apply event).1.CatchesUp queue s := by
  refine ⟨h.orderly.1, ?_, h.orderly.2, h.caughtUp⟩
  rw [root_apply]
  exact h.isRoot

theorem CatchesUp.of_core?_eq (h : r.CatchesUp queue s) (hs : ∀ level : Level,
    s'.core? (level.path r.root) = s.core? (level.path r.root)) : r.CatchesUp queue s' :=
  ⟨h.isRoot, h.orderly, h.caughtUp.of_core?_eq (by simpa using hs)⟩

/-- An event that is about no node leaves everything as it is. -/
theorem CatchesUp.snoc_connection (h : r.CatchesUp queue s) (state : Connection)
    (hs : s'.nodes = s.nodes) : r.CatchesUp (queue ++ [.connection state]) s' :=
  h.snoc trivial (h.caughtUp.of_core?_eq fun level => by rw [Store.core?, Store.core?, hs])

end Replica

namespace Store

variable {s : Store} {id : Nat} {w : Watch}

/-! ## Single watches -/

/-- The watch with that id. -/
def watch? (s : Store) (id : Nat) : Option Watch := s.watches.find? (·.id = id)

theorem pending_of_watch? (h : s.watch? id = some w) : s.pending id = w.queue := by
  rw [watch?] at h
  simp only [pending, h]

/-- What a watch that is read holds after an event at `path`. -/
def told (w : Watch) (path : String) (event : StoreEvent) : Watch :=
  if Path.isUnder path w.root then { w with queue := w.queue ++ [event] } else w

/-- A pass over the watches that keeps their ids and keeps this watch. -/
theorem find?_filterMap_watches {f : Watch → Option Watch}
    (hid : ∀ x y, f x = some y → y.id = x.id) {watches : List Watch} {w' : Watch}
    (h : watches.find? (·.id = id) = some w) (hw : f w = some w') :
    (watches.filterMap f).find? (·.id = id) = some w' := by
  induction watches with
  | nil => cases h
  | cons x rest ih =>
    by_cases hx : x.id = id
    · rw [List.find?_cons_of_pos (by simpa using hx), Option.some.injEq] at h
      subst h
      rw [List.filterMap_cons_some hw, List.find?_cons_of_pos (by simpa [hid x w' hw] using hx)]
    · rw [List.find?_cons_of_neg (by simpa using hx)] at h
      cases hf : f x with
      | none =>
        rw [List.filterMap_cons_none hf]
        exact ih h
      | some y =>
        rw [List.filterMap_cons_some hf, List.find?_cons_of_neg (by simpa [hid x y hf] using hx)]
        exact ih h

/-- A change of every watch that keeps the ids. -/
theorem find?_map_watches {f : Watch → Watch} (hid : ∀ x, (f x).id = x.id) {watches : List Watch}
    (h : watches.find? (·.id = id) = some w) :
    (watches.map f).find? (·.id = id) = some (f w) := by
  rw [← List.filterMap_eq_map]
  refine find?_filterMap_watches (fun x y hy => ?_) h rfl
  cases hy
  exact hid x

theorem watch?_publish (h : s.watch? id = some w) (hread : w.read = true) (path : String)
    (event : StoreEvent) : (s.publish path event).watch? id = some (told w path event) := by
  refine find?_filterMap_watches (fun x y hy => ?_) h ?_
  · split at hy
    · split at hy <;> cases hy
      rfl
    · cases hy
      rfl
  · rw [told, hread]
    split <;> rfl

theorem watch?_announce (h : s.watch? id = some w) (hread : w.read = true) (state : Connection) :
    (s.announce state).watch? id = some { w with queue := w.queue ++ [.connection state] } := by
  rw [watch?, announce, find?_map_watches (fun x => ?_) h, if_pos hread]
  split <;> rfl

theorem watch?_of_watches_eq {s' : Store} (h : s'.watches = s.watches) :
    s'.watch? id = s.watch? id := by
  rw [watch?, watch?, h]

theorem watches_countAtParent (s : Store) (path : String) (change : Nat → Nat) :
    (s.countAtParent path change).watches = s.watches := by
  unfold countAtParent
  split <;> rfl

theorem watches_publish {s' : Store} (h : s'.watches = s.watches) (path : String)
    (event : StoreEvent) : (s'.publish path event).watches = (s.publish path event).watches := by
  rw [publish, publish, h]

theorem watch?_addNode (h : s.watch? id = some w) (hread : w.read = true) (path value : String) :
    (s.addNode path value).watch? id = some (told w path (.created path ⟨value, 0, 0⟩)) := by
  rw [← watch?_publish h hread]
  exact watch?_of_watches_eq (watches_publish (watches_countAtParent _ _ _) _ _)

theorem watch?_removeNode (h : s.watch? id = some w) (hread : w.read = true) (path : String) :
    (s.removeNode path).watch? id = some (told w path (.deleted path)) := by
  rw [← watch?_publish h hread]
  exact watch?_of_watches_eq (watches_publish (watches_countAtParent _ _ _) _ _)

theorem watch?_rewrite (h : s.watch? id = some w) (hread : w.read = true) (path : String)
    (node : Node) : (s.rewrite path node).watch? id = some (told w path (.updated path node)) := by
  rw [← watch?_publish h hread]
  exact watch?_of_watches_eq (watches_publish rfl _ _)

theorem watch?_watch (h : s.watch? id = some w) (root : String) :
    (s.watch root).1.watch? id = some w := by
  unfold Store.watch
  split
  · rw [watch?, List.find?_append]
    rw [watch?] at h
    rw [h, Option.some_or]
  · exact h

/-! ## Leading a replica -/

/-- The watch with that id is read, and what is queued there leads the replica to the store. -/
def Leads (s : Store) (id : Nat) (r : Replica) : Prop :=
  ∃ w, s.watch? id = some w ∧ w.read = true ∧ w.root = r.root ∧ r.CatchesUp w.queue s

variable {r : Replica}

theorem Leads.pending (h : s.Leads id r) : r.CatchesUp (s.pending id) s := by
  obtain ⟨w, hw, -, -, hcatch⟩ := h
  rwa [pending_of_watch? hw]

/-- A single write at `path` that tells the watch of an event. -/
theorem Leads.write {s' : Store} {path : String} {event : StoreEvent} (h : s.Leads id r)
    (hw : ∀ w, s.watch? id = some w → w.read = true →
      s'.watch? id = some (told w path event))
    (hs : ∀ other, other ≠ path → s'.core? other = s.core? other)
    (htold : ∀ queue, r.CatchesUp queue s → r.CatchesUp (queue ++ [event]) s') :
    s'.Leads id r := by
  obtain ⟨w, hwatch, hread, hroot, hcatch⟩ := h
  refine ⟨told w path event, hw w hwatch hread, ?_, ?_, ?_⟩
  · rw [told]
    split <;> exact hread
  · rw [told]
    split <;> exact hroot
  · rw [told]
    split
    · exact htold w.queue hcatch
    · rename_i hout
      refine hcatch.of_core?_eq fun level => hs _ ?_
      rintro rfl
      rw [hroot] at hout
      exact hout (Level.isUnder_root hcatch.isRoot level)

/-- **Calls keep what a watch leads to.** -/
theorem leads_kept (id : Nat) (r : Replica) : Kept fun s => s.Leads id r where
  add s path value h _ _ hready := by
    refine h.write (fun w hw hread => watch?_addNode hw hread path value)
      (fun other hne => by rw [core?_addNode, if_neg hne]) fun queue hcatch => ?_
    have ht := hcatch.caughtUp.tidy_put (by simpa using hcatch.isRoot) hready ⟨value, 0, 0⟩
    exact hcatch.snoc ht (hcatch.caughtUp.put ht fun other => core?_addNode s path value other)
  rewrite s path node value h hnode := by
    refine h.write (fun w hw hread => watch?_rewrite hw hread path _)
      (fun other hne => by rw [core?_rewrite, if_neg hne]) fun queue hcatch => ?_
    -- the node is stored already, so its cluster is there
    have ht : (r.applyAll queue).Tidy
        (.updated path ⟨value, node.version + 1, node.childCount⟩) := by
      intro c k hk
      obtain ⟨hp, hpath⟩ := Replica.levelAt_eq_some_iff.1 hk
      have hsome := hcatch.caughtUp.isSome hp
      rw [← hpath, has, SortedMap.contains, hnode, Replica.node?, Replica.key?_eq_bind] at hsome
      rw [Replica.hasCluster, SortedMap.contains]
      cases hc : (r.applyAll queue).clusters.find? c with
      | none => simp [Replica.cluster?, hc] at hsome
      | some x => rfl
    exact hcatch.snoc ht (hcatch.caughtUp.put ht fun other => core?_rewrite s path _ other)
  remove s path h _ hbelow := by
    refine h.write (fun w hw hread => watch?_removeNode hw hread path)
      (fun other hne => by rw [core?_removeNode, if_neg hne]) fun queue hcatch => ?_
    have ht := hcatch.caughtUp.tidy_drop (by simpa using hcatch.isRoot) hbelow
    exact hcatch.snoc ht (hcatch.caughtUp.drop ht fun other => core?_removeNode s path other)
  announce s state h := by
    obtain ⟨w, hw, hread, hroot, hcatch⟩ := h
    exact ⟨_, watch?_announce hw hread state, hread, hroot, hcatch.snoc_connection state rfl⟩
  watch s root h hwf := by
    obtain ⟨w, hw, hread, hroot, hcatch⟩ := h
    refine ⟨w, watch?_watch hw root, hread, hroot, hcatch.of_core?_eq fun level => ?_⟩
    rw [Store.watch, if_pos hwf]
    rfl

/-! ## New watches -/

/-- Every watch has a number below the next one. -/
def Numbered (s : Store) : Prop := ∀ w ∈ s.watches, w.id < s.nextWatch

theorem Numbered.of_watches {s' : Store} (h : s.Numbered) (hn : s'.nextWatch = s.nextWatch)
    (hs : ∀ w ∈ s'.watches, ∃ w' ∈ s.watches, w'.id = w.id) : s'.Numbered := by
  intro w hw
  obtain ⟨w', hw', hid⟩ := hs w hw
  rw [← hid, hn]
  exact h w' hw'

theorem Numbered.publish (h : s.Numbered) (path : String) (event : StoreEvent) :
    (s.publish path event).Numbered := by
  refine h.of_watches rfl fun w hw => ?_
  obtain ⟨x, hx, hw⟩ := List.mem_filterMap.1 hw
  refine ⟨x, hx, ?_⟩
  split at hw
  · split at hw <;> cases hw
    rfl
  · cases hw
    rfl

theorem nextWatch_countAtParent (s : Store) (path : String) (change : Nat → Nat) :
    (s.countAtParent path change).nextWatch = s.nextWatch := by
  unfold countAtParent
  split <;> rfl

theorem Numbered.countAtParent (h : s.Numbered) (path : String) (change : Nat → Nat) :
    (s.countAtParent path change).Numbered := by
  intro w hw
  rw [nextWatch_countAtParent]
  rw [watches_countAtParent] at hw
  exact h w hw

theorem numbered_kept : Kept Numbered where
  add s path value h _ _ _ := by
    have hs : ({ s with nodes := s.nodes.insert path ⟨value, 0, 0⟩ } : Store).Numbered := h
    exact (hs.countAtParent path (· + 1)).publish path (.created path ⟨value, 0, 0⟩)
  rewrite _ path node value h _ :=
    Numbered.publish h path (.updated path ⟨value, node.version + 1, node.childCount⟩)
  remove s path h _ _ := by
    have hs : ({ s with nodes := s.nodes.erase path } : Store).Numbered := h
    exact (hs.countAtParent path (· - 1)).publish path (.deleted path)
  announce s state h := by
    refine h.of_watches rfl fun w hw => ?_
    obtain ⟨x, hx, rfl⟩ := List.mem_map.1 hw
    refine ⟨x, hx, ?_⟩
    split <;> rfl
  watch s root h hwf := by
    intro w hw
    rw [Store.watch, if_pos hwf] at hw ⊢
    rcases List.mem_append.1 hw with hw | hw
    · have := h w hw
      exact Nat.lt_succ_of_lt this
    · rw [List.mem_singleton.1 hw]
      exact Nat.lt_succ_self _

/-- The store that holds only these entries. -/
def holding (entries : Entries String Node) : Store := ⟨SortedMap.ofList entries, [], 0⟩

theorem core?_holding_snoc (entries : Entries String Node) (path : String) (node : Node)
    (other : String) : (holding (entries ++ [(path, node)])).core? other =
      if other = path then some node.core else (holding entries).core? other := by
  have : (holding (entries ++ [(path, node)])).nodes =
      (holding entries).nodes.insert path node := by
    have : Entries.ofList (entries ++ [(path, node)]) =
        Entries.insert path node (Entries.ofList entries) := List.foldl_append
    refine SortedMap.ext_find? fun key => ?_
    exact congrArg (Entries.find? key) this
  rw [core?, this, SortedMap.find?_insert]
  split <;> rfl

theorem core?_holding {entries : Entries String Node} (h : entries.Sorted) (path : String) :
    (holding entries).core? path = (entries.find? path).map Node.core := by
  have : (holding entries).nodes.entries = entries := Entries.ofList_eq_self h
  rw [core?, SortedMap.find?, this]

/-- Adding entries in their order, each when everything above it is there. -/
theorem catchesUp_entries (hroot : Path.IsRoot r.root) {entries : Entries String Node}
    (hsorted : entries.Sorted)
    (hparents : ∀ c k, entries.find? (Level.path r.root (.key c k)) ≠ none →
      Level.IsProper (.key c k) → entries.find? (Level.path r.root (.cluster c)) ≠ none)
    (rest : Entries String Node) :
    ∀ done, done ++ rest = entries → r.Shows (holding done) →
      r.CatchesUp (rest.map fun e => .created e.1 e.2) (holding entries) := by
  induction rest generalizing r with
  | nil =>
    intro done hdone hshows
    rw [List.append_nil] at hdone
    exact ⟨hroot, trivial, hdone ▸ hshows⟩
  | cons e rest ih =>
    obtain ⟨path, node⟩ := e
    intro done hdone hshows
    have ht : r.Tidy (.created path node) := by
      intro c k hlevel
      obtain ⟨hproper, rfl⟩ := Replica.levelAt_eq_some_iff.1 hlevel
      have hmem : (Level.path r.root (.key c k), node) ∈ entries := by
        rw [← hdone]
        simp
      have hstored := hparents c k (by rw [Entries.find?_of_mem hsorted hmem]; simp) hproper
      obtain ⟨n, hn⟩ := Option.ne_none_iff_exists'.1 hstored
      have hn := Entries.mem_of_find? hn
      rw [← hdone] at hn hsorted
      -- the cluster's path comes before the key's
      have hn := Entries.mem_left_of_lt hsorted hn (Path.lt_child (Path.child r.root c) k)
      have hdone := (List.pairwise_append.1 hsorted).1
      have hcluster : (Level.cluster c).IsProper := hproper.1
      refine Replica.hasCluster_of_isSome ?_
      rw [hshows.isSome hcluster, has_eq_isSome_core?,
        core?_holding hdone, Entries.find?_of_mem hdone hn]
      rfl
    have hshows' : (r.put path node).1.Shows (holding (done ++ [(path, node)])) :=
      hshows.put ht (core?_holding_snoc done path node)
    have hroot' : (r.put path node).1.root = r.root := Replica.root_put r path node
    have hrest := ih (r := (r.put path node).1) (hroot' ▸ hroot) (by rwa [hroot'])
      (done ++ [(path, node)]) (by rw [← hdone]; simp) hshows'
    exact ⟨hroot, ⟨ht, hrest.orderly⟩, hrest.caughtUp⟩

theorem shows_empty (root : String) : (Replica.empty root).Shows (holding []) := by
  refine ⟨fun c hc => ?_, fun level => ?_⟩
  · cases hc
  · have : ((Replica.empty root).node? level).map Node.core = none := by
      cases level <;> rfl
    rw [this]
    split <;> rfl

/-- What a new watch finds in its queue leads the empty replica to the store. -/
theorem catchesUp_replay (hs : s.Rooted) {root : String} (hroot : Path.IsRoot root) :
    (Replica.empty root).CatchesUp (s.replay root) s := by
  have hfind : ∀ path, Path.isUnder path root = true →
      Entries.find? path (s.nodes.toList.filter fun e => Path.isUnder e.1 root) =
        s.nodes.find? path := by
    intro path hu
    refine (Entries.find?_filter _ path s.nodes.sorted).trans ?_
    rw [SortedMap.find?]
    cases s.nodes.entries.find? path with
    | none => rfl
    | some node => simp [hu]
  have hsorted : Entries.Sorted (s.nodes.toList.filter fun e => Path.isUnder e.1 root) :=
    Entries.filter_sorted _ s.nodes.sorted
  have hentries := catchesUp_entries (r := Replica.empty root) hroot hsorted (fun c k hk hp => ?_)
    _ [] rfl (shows_empty root)
  · have hcatch : (Replica.empty root).CatchesUp
        ((s.nodes.toList.filter fun e => Path.isUnder e.1 root).map fun e =>
          .created e.1 e.2) s :=
      hentries.of_core?_eq fun level => by
        rw [Replica.root_empty, core?_holding hsorted, hfind _ (Level.isUnder_root hroot level)]
        rfl
    exact hcatch.snoc trivial hcatch.caughtUp
  · rw [Replica.root_empty, hfind _ (Level.isUnder_root hroot _)] at hk ⊢
    have hparent := hs.parents _ (Option.isSome_iff_ne_none.2 hk) (Path.child root c)
      (Path.parent?_child (fun he => ?_) hp.2.2)
    · exact Option.isSome_iff_ne_none.1 (hparent.resolve_left (Path.child_ne_top hroot.1))
    · have := congrArg String.toList he
      simp at this

/-- A new watch has the next number, and the replay in its queue. -/
theorem watch?_new (hn : s.Numbered) {root : String} (hwf : Path.isWellFormed root = true) :
    (s.watch root).1.watch? s.nextWatch = some ⟨s.nextWatch, root, true, s.replay root⟩ := by
  have hnone : s.watches.find? (·.id = s.nextWatch) = none := by
    refine List.find?_eq_none.2 fun w hw => ?_
    have := hn w hw
    simp only [decide_eq_true_eq]
    omega
  rw [Store.watch, if_pos hwf, watch?, List.find?_append, hnone]
  simp

/-- **A new watch leads the empty replica to the store.** -/
theorem leads_watch (hs : s.Rooted) (hn : s.Numbered) {root : String} (hroot : Path.IsRoot root)
    (hwf : Path.isWellFormed root = true) :
    (s.watch root).2 = .ok s.nextWatch ∧
      (s.watch root).1.Leads s.nextWatch (Replica.empty root) := by
  refine ⟨?_, _, watch?_new hn hwf, rfl, rfl, ?_⟩
  · rw [Store.watch, if_pos hwf]
  · rw [Store.watch, if_pos hwf]
    exact (catchesUp_replay hs hroot).of_core?_eq fun _ => rfl

/-- **A watch's queue turns the empty replica into the store's subtree.**  This holds after any
calls before and after the watch was started, whether they succeeded or not. -/
theorem pending_shows_subtree (before after : List Call) (key : TreeKey)
    (hkey : isValidName key.application = true) :
    ∃ id, ((empty.run before).watch key.root).2 = .ok id ∧
      let s := ((empty.run before).watch key.root).1.run after
      ((Replica.empty key.root).applyAll (s.pending id)).IsSubtreeOf s := by
  have hrooted := rooted_run before
  have hnumbered := numbered_kept.run before rooted_empty (fun _ h => by cases h)
  have hwf := TreeKey.isWellFormed_root hkey
  obtain ⟨hid, hleads⟩ := leads_watch hrooted hnumbered (TreeKey.isRoot_root key) hwf
  have hrooted' := rooted_kept.watch _ _ hrooted hwf
  have := (leads_kept _ _).run after hrooted' hleads
  exact ⟨_, hid, this.pending.caughtUp.isSubtreeOf⟩

/-- A tree with a sibling of a longer name is deleted as a whole and created again below the
watch. -/
theorem pending_shows_subtree_recreated :
    isValidName "shop" = true ∧
    ∃ id, ((empty.run [.create "/service/shop/a/1" "x" true, .create "/service/shop2/a" "y" true,
        .delete "/service/shop" none true, .create "/service/shop/a/1/deep" "z" true]).watch
        "/service/shop").2 = .ok id ∧
      let s := ((empty.run [.create "/service/shop/a/1" "x" true,
        .create "/service/shop2/a" "y" true, .delete "/service/shop" none true,
        .create "/service/shop/a/1/deep" "z" true]).watch "/service/shop").1.run
        [.set "/service/shop/a/1" "v" none, .set "/service/shop/a/1" "w" (some 0),
          .create "/service/shop/a/2" "u" false, .delete "/service/shop/a" none false]
      ((Replica.empty "/service/shop").applyAll (s.pending id)).IsSubtreeOf s :=
  ⟨by decide, pending_shows_subtree _ _ ⟨"shop", .service⟩ (by decide)⟩

end Store

end Treecast
