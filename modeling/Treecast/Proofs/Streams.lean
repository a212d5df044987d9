import Mathlib.Data.List.Forall2
import Treecast.Proofs.Interleaving

/-!
# What a watch tells

The stream of a watch is everything that its reader has taken so far and what still waits.  It
begins with the nodes that were there, in the order of their paths, and goes on with what every
later call had to report (`Store.Reports`), as far as it lies under the root of the watch.  Calls
report one write after another: nothing is created before what is above it, and nothing is deleted
before what is below it.

So a replica that is fed from the stream never has a cluster without its own node, and never drops
a node with something left below it.

## Results

* `Store.perform_reports`: a call tells every watch what it has to report, and nothing else.
* `Transcript.Follows.call`, `Transcript.Follows.other`, `Transcript.Follows.run`: what one step,
  and what a run, adds to the stream of a watch.
* `Transcript.Mirrors.act`: a replica that has read what was taken is led on by what waits.
* `Transcript.stream_run`: the whole stream of a watch, whatever happens before and after it is
  started, and what replicas find in it.
-/

set_option autoImplicit false

namespace Treecast

/-- The path that an event is about. -/
def StoreEvent.path? : StoreEvent → Option String
  | .created path _ | .updated path _ | .deleted path => some path
  | .initialized | .connection _ => none

/-- Whether a watch on `root` is told of an event. -/
def StoreEvent.isFor (root : String) (event : StoreEvent) : Bool :=
  event.path?.all (Path.isUnder · root)

/-- A watch that is told of events, as far as they are for its root. -/
def Watch.hear (w : Watch) (events : List StoreEvent) : Watch :=
  { w with queue := w.queue ++ events.filter (·.isFor w.root) }

theorem Watch.hear_nil (w : Watch) : w.hear [] = w := by
  rw [hear, List.filter_nil, List.append_nil]

theorem Watch.hear_append (w : Watch) (events more : List StoreEvent) :
    w.hear (events ++ more) = (w.hear events).hear more := by
  simp only [hear, List.filter_append, List.append_assoc]

namespace Store

variable {s s' : Store} {id : Nat} {w : Watch} {path root : String}

/-! ## Several writes -/

theorem told_eq_hear (w : Watch) {event : StoreEvent} (hpath : event.path? = some path) :
    told w path event = w.hear [event] := by
  have hfor : event.isFor w.root = Path.isUnder path w.root := by
    rw [StoreEvent.isFor, hpath, Option.all_some]
  cases hu : Path.isUnder path w.root with
  | true =>
    rw [told, if_pos hu, Watch.hear, List.filter_cons_of_pos (hfor.trans hu), List.filter_nil]
  | false =>
    rw [told, if_neg (by simp [hu]), Watch.hear, List.filter_cons_of_neg (by simp [hfor, hu]),
      List.filter_nil, List.append_nil]

theorem has_addNodes (paths : List String) :
    ∀ (s : Store) (other : String),
      (paths.foldl (fun s p => s.addNode p "") s).has other = true ↔
        other ∈ paths ∨ s.has other = true := by
  induction paths with
  | nil => simp
  | cons p rest ih =>
    intro s other
    rw [List.foldl_cons, ih, has_addNode, List.mem_cons, or_assoc, or_left_comm]

theorem has_removeNodes (paths : List String) :
    ∀ (s : Store) (other : String),
      (paths.foldl removeNode s).has other = true ↔ other ∉ paths ∧ s.has other = true := by
  induction paths with
  | nil => simp
  | cons p rest ih =>
    intro s other
    rw [List.foldl_cons, ih, has_removeNode, List.mem_cons, not_or, and_assoc, and_left_comm]

theorem watch?_addNodes (paths : List String) :
    ∀ {s : Store} {w : Watch}, s.watch? id = some w → w.read = true →
      (paths.foldl (fun s p => s.addNode p "") s).watch? id =
        some (w.hear (paths.map fun p => .created p ⟨"", 0, 0⟩)) := by
  induction paths with
  | nil => exact fun hw _ => hw.trans (congrArg some (Watch.hear_nil _).symm)
  | cons p rest ih =>
    intro s w hw hread
    have hfirst := watch?_addNode hw hread p ""
    rw [told_eq_hear w rfl] at hfirst
    rw [List.foldl_cons, ih hfirst hread, ← Watch.hear_append]
    rfl

theorem watch?_removeNodes (paths : List String) :
    ∀ {s : Store} {w : Watch}, s.watch? id = some w → w.read = true →
      (paths.foldl removeNode s).watch? id = some (w.hear (paths.map .deleted)) := by
  induction paths with
  | nil => exact fun hw _ => hw.trans (congrArg some (Watch.hear_nil _).symm)
  | cons p rest ih =>
    intro s w hw hread
    have hfirst := watch?_removeNode hw hread p
    rw [told_eq_hear w rfl] at hfirst
    rw [List.foldl_cons, ih hfirst hread, ← Watch.hear_append]
    rfl

/-! ## What calls report -/

def accepts (s : Store) : Call → Bool
  | .create path value makeParents => (s.create path value makeParents).2.isOk
  | .set path value expected => (s.set path value expected).2.isOk
  | .delete path expected recursive => (s.delete path expected recursive).2.isOk
  | .announce _ => true
  | .watch root => (s.watch root).2.isOk

/-- What a call has to report, to whom it may concern. -/
inductive Reports (s : Store) : Call → List StoreEvent → Prop where
  /-- A call that fails has nothing to report. -/
  | refused {call : Call} (hrefused : s.accepts call = false) : Reports s call []
  /-- Every node that was not stored before, each below all those that come before it. -/
  | created {path value : String} {makeParents : Bool} {above : List String}
      (hok : s.accepts (.create path value makeParents) = true)
      (hnew : ∀ p, p ∈ above ++ [path] ↔
        (s.perform (.create path value makeParents)).has p = true ∧ s.has p = false)
      (horder : (above ++ [path]).Pairwise fun p q => q ≠ p ∧ Path.isUnder q p = true) :
      Reports s (.create path value makeParents)
        (above.map (fun p => .created p ⟨"", 0, 0⟩) ++ [.created path ⟨value, 0, 0⟩])
  | updated {path value : String} {expected : Option Int} {node : Node}
      (hok : s.accepts (.set path value expected) = true)
      (hnode : s.nodes.find? path = some node) :
      Reports s (.set path value expected)
        [.updated path ⟨value, node.version + 1, node.childCount⟩]
  /-- Every node that is stored no longer, each once and none before what is below it. -/
  | deleted {path : String} {expected : Option Int} {recursive : Bool} {victims : List String}
      (hok : s.accepts (.delete path expected recursive) = true)
      (hgone : ∀ p, p ∈ victims ↔
        s.has p = true ∧ (s.perform (.delete path expected recursive)).has p = false)
      (hnodup : victims.Nodup)
      (horder : victims.Pairwise fun p q => Path.isUnder q p = false) :
      Reports s (.delete path expected recursive) (victims.map .deleted)
  | announced (state : Connection) : Reports s (.announce state) [.connection state]
  | watched (root : String) : Reports s (.watch root) []

/-- A path is longer than those above it. -/
theorem pairwise_ancestorsFrom :
    ∀ (steps : Nat) (path : String), (path :: ancestorsFrom steps path).Pairwise fun p q =>
      q.length < p.length ∧ Path.isUnder p q = true := by
  intro steps
  induction steps with
  | zero => exact fun path => List.pairwise_singleton _ path
  | succ steps ih =>
    intro path
    rw [ancestorsFrom]
    split
    · exact List.pairwise_singleton _ path
    · rename_i parent hp
      split
      · exact List.pairwise_singleton _ path
      · rename_i htop
        have hlt := Path.length_parent?_lt hp htop
        obtain ⟨-, name, -, rfl⟩ := Path.eq_child_of_parent? hp htop
        have hunder := Path.isUnder_child name htop (Path.isUnder_self parent)
        refine List.pairwise_cons.2 ⟨fun q hq => ?_, ih parent⟩
        rcases List.mem_cons.1 hq with rfl | hq
        · exact ⟨hlt, hunder⟩
        · obtain ⟨hlt', hunder'⟩ := (List.pairwise_cons.1 (ih parent)).1 q hq
          exact ⟨Nat.lt_trans hlt' hlt, Path.isUnder_trans htop hunder hunder'⟩

/-- The ancestors that a call creates and its own path, outermost first. -/
theorem pairwise_missingAncestors (s : Store) (path : String) :
    ((s.missingAncestors path).reverse ++ [path]).Pairwise fun p q =>
      q ≠ p ∧ Path.isUnder q p = true := by
  have hsub : (path :: s.missingAncestors path).Sublist (path :: ancestors path) :=
    (List.takeWhile_prefix _).sublist.cons_cons path
  rw [← List.reverse_cons, List.pairwise_reverse]
  refine ((pairwise_ancestorsFrom path.length path).sublist hsub).imp ?_
  rintro p q ⟨hlt, hunder⟩
  refine ⟨?_, hunder⟩
  rintro rfl
  exact Nat.lt_irrefl _ hlt

theorem has_eq_false_of_mem_missingAncestors {p : String} (hp : p ∈ s.missingAncestors path) :
    s.has p = false := by
  have hall := List.all_takeWhile (p := fun a => !s.has a) (l := ancestors path)
  simpa using List.all_eq_true.1 hall p hp

theorem has_eq_false_of_createFault? {makeParents : Bool}
    (hfault : s.createFault? path makeParents = none) : s.has path = false := by
  unfold createFault? at hfault
  split at hfault
  · cases hfault
  · split at hfault
    · cases hfault
    · rename_i hnew
      exact Bool.eq_false_iff.2 hnew

/-- A call that is refused leaves everything as it was. -/
theorem perform_of_refused {call : Call} (hrefused : s.accepts call = false) :
    s.perform call = s := by
  cases call with
  | create path value makeParents =>
    simp only [accepts, perform, create] at hrefused ⊢
    split at hrefused
    · rfl
    · cases hrefused
  | set path value expected =>
    simp only [accepts, perform, set] at hrefused ⊢
    split at hrefused
    · rfl
    · cases hrefused
  | delete path expected recursive =>
    simp only [accepts, perform, delete] at hrefused ⊢
    split at hrefused
    · rfl
    · split at hrefused
      · rename_i hbelow
        exact congrArg Prod.fst (if_pos hbelow)
      · cases hrefused
  | announce state => cases hrefused
  | watch root =>
    simp only [accepts, perform, watch] at hrefused ⊢
    split at hrefused
    · cases hrefused
    · rename_i hroot
      rw [if_neg hroot]

/-- A successful creation adds the missing ancestors, outermost first, and then the node. -/
theorem perform_create {value : String} {makeParents : Bool}
    (hok : s.accepts (.create path value makeParents) = true) :
    s.has path = false ∧ s.perform (.create path value makeParents) =
      Store.addNode ((s.missingAncestors path).reverse.foldl (fun s p => s.addNode p "") s) path
        value := by
  have hfault : s.createFault? path makeParents = none := by
    cases hfault : s.createFault? path makeParents with
    | none => rfl
    | some fault =>
      simp only [accepts, create, hfault] at hok
      cases hok
  refine ⟨has_eq_false_of_createFault? hfault, ?_⟩
  simp only [perform, create, hfault]

/-- A successful write rewrites the stored node. -/
theorem perform_set {value : String} {expected : Option Int}
    (hok : s.accepts (.set path value expected) = true) :
    ∃ node, s.nodes.find? path = some node ∧ s.perform (.set path value expected) =
      s.rewrite path ⟨value, node.version + 1, node.childCount⟩ := by
  cases hnode : s.checked path expected with
  | error fault =>
    simp only [accepts, set, hnode] at hok
    cases hok
  | ok node =>
    refine ⟨node, (checked_eq_ok hnode).2, ?_⟩
    simp only [perform, set, hnode]
    rfl

/-- A successful deletion removes the node and all below it, one after another. -/
theorem perform_delete {expected : Option Int} {recursive : Bool}
    (hok : s.accepts (.delete path expected recursive) = true) :
    s.has path = true ∧
      s.perform (.delete path expected recursive) = (s.removals path).foldl removeNode s := by
  cases hnode : s.checked path expected with
  | error fault =>
    simp only [accepts, delete, hnode] at hok
    cases hok
  | ok node =>
    refine ⟨Option.isSome_iff_exists.2 ⟨node, (checked_eq_ok hnode).2⟩, ?_⟩
    simp only [accepts, delete, hnode] at hok
    split at hok
    · cases hok
    · rename_i hbelow
      simp only [perform, delete, hnode]
      exact congrArg Prod.fst (if_neg hbelow)

theorem create_reports {value : String} {makeParents : Bool}
    (hok : s.accepts (.create path value makeParents) = true) :
    ∃ events, s.Reports (.create path value makeParents) events ∧
      ∀ id w, s.watch? id = some w → w.read = true →
        (s.perform (.create path value makeParents)).watch? id = some (w.hear events) := by
  obtain ⟨hnew, hperform⟩ := perform_create hok
  refine ⟨_, .created hok (fun p => ?_) (s.pairwise_missingAncestors path),
    fun id w hw hread => ?_⟩
  · rw [hperform, has_addNode, has_addNodes, List.mem_append, List.mem_singleton]
    constructor
    · rintro (hp | rfl)
      · exact ⟨.inr (.inl hp), has_eq_false_of_mem_missingAncestors (List.mem_reverse.1 hp)⟩
      · exact ⟨.inl rfl, hnew⟩
    · rintro ⟨rfl | hp | hp, hnew⟩
      · exact .inr rfl
      · exact .inl hp
      · rw [hp] at hnew
        cases hnew
  · have habove := watch?_addNodes (s.missingAncestors path).reverse hw hread
    rw [hperform, watch?_addNode habove hread, told_eq_hear _ rfl, ← Watch.hear_append]

theorem set_reports {value : String} {expected : Option Int}
    (hok : s.accepts (.set path value expected) = true) :
    ∃ events, s.Reports (.set path value expected) events ∧
      ∀ id w, s.watch? id = some w → w.read = true →
        (s.perform (.set path value expected)).watch? id = some (w.hear events) := by
  obtain ⟨node, hnode, hperform⟩ := perform_set hok
  refine ⟨_, .updated hok hnode, fun id w hw hread => ?_⟩
  rw [hperform, watch?_rewrite hw hread, told_eq_hear _ rfl]

theorem delete_reports (hs : s.Rooted) {expected : Option Int} {recursive : Bool}
    (hok : s.accepts (.delete path expected recursive) = true) :
    ∃ events, s.Reports (.delete path expected recursive) events ∧
      ∀ id w, s.watch? id = some w → w.read = true →
        (s.perform (.delete path expected recursive)).watch? id = some (w.hear events) := by
  obtain ⟨hpath, hperform⟩ := perform_delete hok
  have hnodup := s.nodup_removals path
  refine ⟨(s.removals path).map .deleted, .deleted hok (fun p => ?_) hnodup ?_,
    fun id w hw hread => ?_⟩
  · have hmem := mem_removals_iff hpath p
    have hafter := has_removeNodes (s.removals path) s p
    rw [hperform, Bool.eq_false_iff, ne_eq, hafter]
    constructor
    · exact fun hp => ⟨(hmem.1 hp).1, fun hstill => hstill.1 hp⟩
    · exact fun ⟨hp, hgone⟩ => Classical.byContradiction fun hnot => hgone ⟨hnot, hp⟩
  · refine List.Pairwise.imp₂ ?_ (hs.pairwise_removals hpath) hnodup
    intro p q hunder hne
    exact Bool.eq_false_iff.2 fun hu => hne (hunder hu).symm
  · rw [hperform, watch?_removeNodes _ hw hread]

/-- **A call tells every watch what it has to report**, as far as it is for the watch. -/
theorem perform_reports (hs : s.Rooted) (call : Call) :
    ∃ events, s.Reports call events ∧ ∀ id w, s.watch? id = some w → w.read = true →
      (s.perform call).watch? id = some (w.hear events) := by
  cases hok : s.accepts call with
  | false =>
    refine ⟨[], .refused hok, fun id w hw _ => ?_⟩
    rw [perform_of_refused hok, hw, Watch.hear_nil]
  | true =>
    cases call with
    | create path value makeParents => exact create_reports hok
    | set path value expected => exact set_reports hok
    | delete path expected recursive => exact delete_reports hs hok
    | announce state =>
      exact ⟨_, .announced state, fun id w hw hread => watch?_announce hw hread state⟩
    | watch root =>
      refine ⟨_, .watched root, fun id w hw _ => ?_⟩
      rw [Watch.hear_nil]
      exact watch?_watch hw root

/-! ### What reports contain -/

theorem Reports.isWellFormed (hs : s.Rooted) {call : Call} {events : List StoreEvent}
    (hreports : s.Reports call events) {event : StoreEvent} (he : event ∈ events)
    (hpath : event.path? = some path) : Path.isWellFormed path = true := by
  cases hreports with
  | refused hrefused => cases he
  | created hok hnew horder =>
    refine (hs.perform _).wellFormed path ((hnew path).1 ?_).1
    rw [List.mem_append, List.mem_singleton]
    rcases List.mem_append.1 he with he | he
    · obtain ⟨p, hp, rfl⟩ := List.mem_map.1 he
      cases hpath
      exact .inl hp
    · cases List.mem_singleton.1 he
      cases hpath
      exact .inr rfl
  | updated hok hnode =>
    cases List.mem_singleton.1 he
    cases hpath
    exact hs.wellFormed _ (Option.isSome_iff_exists.2 ⟨_, hnode⟩)
  | deleted hok hgone hnodup horder =>
    obtain ⟨p, hp, rfl⟩ := List.mem_map.1 he
    cases hpath
    exact hs.wellFormed _ ((hgone _).1 hp).1
  | announced state =>
    cases List.mem_singleton.1 he
    cases hpath
  | watched root => cases he

theorem Reports.initialized_notMem {call : Call} {events : List StoreEvent}
    (hreports : s.Reports call events) : .initialized ∉ events := by
  cases hreports <;> simp

/-! ## New watches -/

/-- What a new watch on `root` finds: the nodes stored at or below it, in the order of their
paths. -/
structure Finds (s : Store) (root : String) (found : List (String × Node)) : Prop where
  complete : ∀ path node,
    (path, node) ∈ found ↔ s.nodes.find? path = some node ∧ Path.isUnder path root = true
  ordered : found.Pairwise fun e f => e.1 < f.1

theorem finds_filter (s : Store) (root : String) :
    s.Finds root (s.nodes.toList.filter fun e => Path.isUnder e.1 root) where
  complete path node := by
    rw [List.mem_filter, SortedMap.mem_toList_iff]
  ordered := by
    have hlt : ∀ a b : String, compare a b = .lt → a < b := by
      intro a b hab
      refine Classical.byContradiction fun hnot => ?_
      change compareOfLessAndEq a b = .lt at hab
      rw [compareOfLessAndEq, if_neg hnot] at hab
      split at hab <;> cases hab
    exact (s.nodes.sorted.filter _).imp fun {e f} he => hlt e.1 f.1 he

theorem isWellFormed_of_mem_replay (hs : s.Rooted) {event : StoreEvent}
    (he : event ∈ s.replay root) (hpath : event.path? = some path) :
    Path.isWellFormed path = true := by
  rcases List.mem_append.1 he with he | he
  · obtain ⟨⟨p, node⟩, hfound, rfl⟩ := List.mem_map.1 he
    cases hpath
    have hnode := (((s.finds_filter root).complete _ _).1 hfound).1
    exact hs.wellFormed _ (Option.isSome_iff_exists.2 ⟨node, hnode⟩)
  · cases List.mem_singleton.1 he
    cases hpath

/-! ## What readers do -/

theorem watch?_prune (hw : s.watch? id = some w) (hread : w.read = true) :
    s.prune.watch? id = some w := by
  rw [prune, watch?, ← List.filterMap_eq_filter]
  refine find?_filterMap_watches (fun x y hy => ?_) hw ?_
  · rw [(Option.guard_eq_some_iff.1 hy).1]
  · rw [Option.guard_eq_some_iff]
    exact ⟨rfl, hread⟩

theorem watch?_takeFirst (hw : s.watch? id = some w) :
    (s.takeFirst id).watch? id = some { w with queue := w.queue.tail } := by
  have hid : w.id = id := by simpa using List.find?_some hw
  rw [watch?, Store.takeFirst, find?_map_watches (fun x => ?_) hw, if_pos hid]
  split <;> rfl

/-- What is done to one watch does not matter to the others. -/
theorem watch?_map_other (hw : s.watch? id = some w) {other : Nat} (hne : id ≠ other)
    (f : Watch → Watch) (hid : ∀ x, (f x).id = x.id) :
    ({ s with watches := s.watches.map fun x => if x.id = other then f x else x } : Store).watch?
      id = some w := by
  have hwid : w.id = id := by simpa using List.find?_some hw
  rw [watch?, find?_map_watches (fun x => ?_) hw, if_neg (hwid ▸ hne)]
  split
  · exact hid x
  · rfl

theorem Leads.prune {r : Replica} (h : s.Leads id r) : s.prune.Leads id r := by
  obtain ⟨w, hw, hread, hroot, hcatch⟩ := h
  exact ⟨w, watch?_prune hw hread, hread, hroot, hcatch.of_core?_eq fun _ => rfl⟩

theorem Numbered.prune (h : s.Numbered) : s.prune.Numbered :=
  h.of_watches rfl fun w hw => ⟨w, (List.mem_filter.1 hw).1, rfl⟩

end Store

namespace Replica

variable {r : Replica} {root : String}

/-- Reading on as events come in keeps every cluster with its own node. -/
theorem Orderly.allSeen {events : List StoreEvent} :
    ∀ {r : Replica}, r.Orderly events → r.AllSeen → (r.applyAll events).AllSeen := by
  induction events with
  | nil => exact fun _ hs => hs
  | cons event rest ih => exact fun ho hs => ih ho.2 (hs.apply ho.1)

/-- Wherever a replica of the tree at `root` stops reading: every cluster has its own node, and a
node that is deleted next has nothing left below it. -/
structure ParentsFirst (root : String) (stream : List StoreEvent) : Prop where
  seen : ∀ front back, stream = front ++ back → ((empty root).applyAll front).AllSeen
  cluster : ∀ front path back, stream = front ++ .deleted path :: back →
    ∀ c x, ((empty root).applyAll front).classify path = some (.cluster c) →
      ((empty root).applyAll front).cluster? c = some x → x.keys = SortedMap.empty
  application : ∀ front path back, stream = front ++ .deleted path :: back →
    ((empty root).applyAll front).classify path = some .application →
      ((empty root).applyAll front).clusters = SortedMap.empty

theorem allSeen_empty (root : String) : (empty root).AllSeen := by
  intro c hc
  cases hc

theorem Orderly.parentsFirst {stream : List StoreEvent} (ho : (empty root).Orderly stream) :
    ParentsFirst root stream := by
  have hsplit : ∀ front event back, stream = front ++ event :: back →
      ((empty root).applyAll front).AllSeen ∧ ((empty root).applyAll front).Tidy event := by
    rintro front event back rfl
    obtain ⟨hfront, hback⟩ := orderly_append.1 ho
    exact ⟨hfront.allSeen (allSeen_empty root), hback.1⟩
  refine ⟨fun front back hstream => ?_, fun front path back hstream c x hlevel hx => ?_,
    fun front path back hstream hlevel => ?_⟩
  · subst hstream
    exact (orderly_append.1 ho).1.allSeen (allSeen_empty root)
  · obtain ⟨-, ht⟩ := hsplit front _ back hstream
    refine SortedMap.ext_find? fun k => ?_
    have hnone := ht _ (.key c k) hlevel (by simp [Level.covers]) Level.noConfusion
    rw [node?, key?_eq_bind, hx, Option.bind_some] at hnone
    exact hnone
  · obtain ⟨hseen, ht⟩ := hsplit front _ back hstream
    refine SortedMap.ext_find? fun c => ?_
    have hnone := ht _ (.cluster c) hlevel rfl Level.noConfusion
    cases hc : ((empty root).applyAll front).clusters.find? c with
    | none => rfl
    | some x =>
      have hsome := hseen c (Option.isSome_iff_exists.2 ⟨x, hc⟩)
      rw [hnone] at hsome
      cases hsome

/-- The only place of a well formed path in the tree at the top is the top itself. -/
theorem eq_application_of_levelAt_top {path : String} (hwf : Path.isWellFormed path = true)
    {level : Level} (hlevel : levelAt Path.top path = some level) : level = .application := by
  obtain ⟨hproper, rfl⟩ := levelAt_eq_some_iff.1 hlevel
  obtain ⟨-, -, hno⟩ := Path.isWellFormed_iff.1 hwf
  cases level with
  | application => rfl
  | cluster c =>
    simp [Level.path, Path.top, Path.hasEmptySegment] at hno
  | key c k =>
    simp [Level.path, Path.top, Path.hasEmptySegment] at hno

section Top

variable {r : Replica} {event : StoreEvent} (hroot : r.root = Path.top)
  (hwf : ∀ path, event.path? = some path → Path.isWellFormed path = true)

include hroot hwf

theorem eq_application_of_classify_top {path : String} (hpath : event.path? = some path)
    {level : Level} (hlevel : r.classify path = some level) : level = .application :=
  eq_application_of_levelAt_top (hwf path hpath) (hroot ▸ hlevel)

/-- No event gives a cluster to a replica of the tree at the top. -/
theorem clusters_apply_top (hnone : r.clusters = SortedMap.empty) :
    (r.apply event).1.clusters = SortedMap.empty := by
  have hput : ∀ path node, event.path? = some path →
      (r.put path node).1.clusters = SortedMap.empty := by
    intro path node hpath
    unfold put
    split
    · exact hnone
    · rename_i level hlevel
      rw [eq_application_of_classify_top hroot hwf hpath hlevel]
      exact hnone
  cases event with
  | created path node => exact hput path node rfl
  | updated path node => exact hput path node rfl
  | deleted path =>
    change (r.drop path).1.clusters = SortedMap.empty
    unfold drop
    split
    · exact hnone
    · rename_i level hlevel
      rw [eq_application_of_classify_top hroot hwf rfl hlevel]
      split
      · exact hnone
      · rename_i r' hr'
        simp only [remove] at hr'
        split at hr' <;> cases hr'
        rfl
  | initialized => exact hnone
  | connection state => exact hnone

/-- Without clusters every event is tidy. -/
theorem tidy_top (hnone : r.clusters = SortedMap.empty) : r.Tidy event := by
  have hplace : ∀ path level, event.path? = some path → r.classify path = some level →
      level = .application := fun _ _ hpath hlevel =>
    eq_application_of_classify_top hroot hwf hpath hlevel
  cases event with
  | created path node => exact fun c k hlevel => absurd (hplace path _ rfl hlevel) Level.noConfusion
  | updated path node => exact fun c k hlevel => absurd (hplace path _ rfl hlevel) Level.noConfusion
  | deleted path =>
    intro level other hlevel _ hne
    have hempty : ∀ c, r.cluster? c = none := fun c => by
      rw [cluster?, hnone]
      rfl
    rw [hplace path level rfl hlevel] at hne
    cases other with
    | application => exact absurd rfl hne
    | cluster c => rw [node?, hempty, Option.bind_none]
    | key c k => rw [node?, key?_eq_bind, hempty, Option.bind_none]
  | initialized => trivial
  | connection state => trivial

end Top

/-- A replica of the tree at the top has no clusters, so its queue is always in order. -/
theorem orderly_top {events : List StoreEvent}
    (hwf : ∀ event ∈ events, ∀ path, event.path? = some path → Path.isWellFormed path = true) :
    ∀ {r : Replica}, r.root = Path.top → r.clusters = SortedMap.empty → r.Orderly events := by
  induction events with
  | nil => exact fun _ _ => trivial
  | cons event rest ih =>
    intro r hroot hnone
    have hevent := hwf event List.mem_cons_self
    have hrest := fun e he => hwf e (List.mem_cons_of_mem _ he)
    exact ⟨tidy_top hroot hevent hnone,
      ih hrest ((root_apply r event).trans hroot) (clusters_apply_top hroot hevent hnone)⟩

end Replica

/-! ## Readers -/

/-- A store, and what readers have taken from each watch. -/
structure Transcript where
  store : Store
  taken : Nat → List StoreEvent

namespace Transcript

variable {t : Transcript} {id : Nat} {root : String} {said : List StoreEvent}

/-- What can happen next. -/
inductive Act where
  | call (call : Store.Call)
  /-- The reader of a watch takes the next event, if there is one. -/
  | take (watch : Nat)
  /-- The reader of a watch goes away. -/
  | leave (watch : Nat)
  /-- Watches that nobody reads are removed. -/
  | prune
  deriving DecidableEq

/-- The empty store. -/
def empty : Transcript := ⟨Store.empty, fun _ => []⟩

def act (t : Transcript) : Act → Transcript
  | .call call => { t with store := t.store.perform call }
  | .take watch =>
    match t.store.pending watch with
    | [] => t
    | event :: _ =>
      ⟨t.store.takeFirst watch,
        fun other => if other = watch then t.taken watch ++ [event] else t.taken other⟩
  | .leave watch => { t with store := t.store.abandon watch }
  | .prune => { t with store := t.store.prune }

/-- Things happen in order. -/
def run (t : Transcript) (acts : List Act) : Transcript := acts.foldl act t

/-- Everything that a watch has told so far: what was taken and what waits. -/
def stream (t : Transcript) (id : Nat) : List StoreEvent := t.taken id ++ t.store.pending id

/-- The calls among what happens, each with the store that it meets. -/
def calls : Transcript → List Act → List (Store × Store.Call)
  | _, [] => []
  | t, .call call :: rest => (t.store, call) :: calls (t.act (.call call)) rest
  | t, a :: rest => calls (t.act a) rest

/-! ### What always holds -/

/-- The store is in order, and nothing was taken from watches that are still to come. -/
structure Sound (t : Transcript) : Prop where
  rooted : t.store.Rooted
  numbered : t.store.Numbered
  fresh : ∀ id, t.store.nextWatch ≤ id → t.taken id = []

theorem sound_empty : empty.Sound where
  rooted := Store.rooted_empty
  numbered w hw := by cases hw
  fresh _ _ := rfl

theorem act_take_of_nil (hnil : t.store.pending id = []) : t.act (.take id) = t := by
  rw [act, hnil]

theorem act_take_of_cons {event : StoreEvent} {rest : List StoreEvent}
    (hcons : t.store.pending id = event :: rest) :
    t.act (.take id) = ⟨t.store.takeFirst id,
      fun other => if other = id then t.taken id ++ [event] else t.taken other⟩ := by
  rw [act, hcons]

theorem Sound.act (hs : t.Sound) (a : Act) : (t.act a).Sound := by
  cases a with
  | call call =>
    refine ⟨hs.rooted.perform call, Store.numbered_kept.perform hs.rooted hs.numbered call,
      fun id hid => hs.fresh id (Nat.le_of_not_lt fun hlt => ?_)⟩
    exact Nat.not_lt_of_le hid ((Store.given_kept id).perform hs.rooted hlt call)
  | take watch =>
    cases hpending : t.store.pending watch with
    | nil => rwa [act_take_of_nil hpending]
    | cons event rest =>
      rw [act_take_of_cons hpending]
      refine ⟨hs.rooted.of_nodes_eq rfl, hs.numbered.takeFirst watch, fun id hid => ?_⟩
      -- a watch that has something to take was started before
      have hne : id ≠ watch := by
        rintro rfl
        simp only [Store.pending] at hpending
        split at hpending
        · rename_i w hw
          have hlt := hs.numbered w (List.mem_of_find?_eq_some hw)
          have hwid : w.id = id := by simpa using List.find?_some hw
          exact Nat.lt_irrefl id (Nat.lt_of_lt_of_le (hwid ▸ hlt) hid)
        · cases hpending
      exact (if_neg hne).trans (hs.fresh id hid)
  | leave watch => exact ⟨hs.rooted.of_nodes_eq rfl, hs.numbered.abandon watch, hs.fresh⟩
  | prune => exact ⟨hs.rooted.of_nodes_eq rfl, hs.numbered.prune, hs.fresh⟩

theorem Sound.run (acts : List Act) : ∀ {t : Transcript}, t.Sound → (t.run acts).Sound := by
  induction acts with
  | nil => exact fun hs => hs
  | cons a rest ih => exact fun hs => ih (hs.act a)

theorem Sound.rooted_of_mem_calls (acts : List Act) :
    ∀ {t : Transcript}, t.Sound → ∀ c ∈ t.calls acts, c.1.Rooted := by
  induction acts with
  | nil =>
    intro t _ c hc
    cases hc
  | cons a rest ih =>
    intro t hs c hc
    cases a with
    | call call =>
      rcases List.mem_cons.1 hc with rfl | hc
      · exact hs.rooted
      · exact ih (hs.act _) c hc
    | take watch => exact ih (hs.act _) c hc
    | leave watch => exact ih (hs.act _) c hc
    | prune => exact ih (hs.act _) c hc

/-! ### One watch -/

/-- The watch on `root` is read, and that is what it has told so far. -/
def Follows (t : Transcript) (id : Nat) (root : String) (said : List StoreEvent) : Prop :=
  ∃ w, t.store.watch? id = some w ∧ w.read = true ∧ w.root = root ∧ t.taken id ++ w.queue = said

theorem Follows.stream_eq (hf : t.Follows id root said) : t.stream id = said := by
  obtain ⟨w, hw, -, -, hqueue⟩ := hf
  rw [Transcript.stream, Store.pending_of_watch? hw, hqueue]

/-- **A call** adds what it has to report. -/
theorem Follows.call (hf : t.Follows id root said) (hs : t.Sound) (call : Store.Call) :
    ∃ events, t.store.Reports call events ∧
      (t.act (.call call)).Follows id root (said ++ events.filter (·.isFor root)) := by
  obtain ⟨w, hw, hread, rfl, hqueue⟩ := hf
  obtain ⟨events, hreports, htold⟩ := Store.perform_reports hs.rooted call
  refine ⟨events, hreports, w.hear events, htold id w hw hread, hread, rfl, ?_⟩
  rw [← hqueue, List.append_assoc]
  rfl

/-- Whatever else happens adds nothing. -/
theorem Follows.other (hf : t.Follows id root said) {a : Act} (hcall : ∀ call, a ≠ .call call)
    (hstays : a ≠ .leave id) : (t.act a).Follows id root said := by
  obtain ⟨w, hw, hread, hroot, hqueue⟩ := hf
  cases a with
  | call call => exact absurd rfl (hcall call)
  | take watch =>
    cases hpending : t.store.pending watch with
    | nil =>
      rw [act_take_of_nil hpending]
      exact ⟨w, hw, hread, hroot, hqueue⟩
    | cons event rest =>
      rw [act_take_of_cons hpending]
      by_cases hid : id = watch
      · subst hid
        rw [Store.pending_of_watch? hw] at hpending
        refine ⟨_, Store.watch?_takeFirst hw, hread, hroot, ?_⟩
        dsimp only
        rw [if_pos rfl, ← hqueue, hpending, List.append_assoc]
        rfl
      · refine ⟨w, Store.watch?_map_other hw hid _ fun _ => rfl, hread, hroot, ?_⟩
        dsimp only
        rw [if_neg hid, hqueue]
  | leave watch =>
    have hne : id ≠ watch := fun he => hstays (congrArg Act.leave he.symm)
    exact ⟨w, Store.watch?_map_other hw hne _ fun _ => rfl, hread, hroot, hqueue⟩
  | prune => exact ⟨w, Store.watch?_prune hw hread, hread, hroot, hqueue⟩

/-- **A run** adds what its calls had to report, one after another. -/
theorem Follows.run (acts : List Act) :
    ∀ {t : Transcript} {said : List StoreEvent}, t.Follows id root said → t.Sound →
      .leave id ∉ acts →
      ∃ reports, List.Forall₂ (fun c events => c.1.Reports c.2 events) (t.calls acts) reports ∧
        (t.run acts).Follows id root (said ++ reports.flatten.filter (·.isFor root)) := by
  induction acts with
  | nil =>
    intro t said hf _ _
    refine ⟨[], .nil, ?_⟩
    rwa [List.flatten_nil, List.filter_nil, List.append_nil]
  | cons a rest ih =>
    intro t said hf hs hstays
    obtain ⟨hne, hrest⟩ := not_or.1 (mt List.mem_cons.2 hstays)
    have hother : (∀ call, a ≠ .call call) → t.calls (a :: rest) = (t.act a).calls rest →
        ∃ reports, List.Forall₂ (fun c events => c.1.Reports c.2 events) (t.calls (a :: rest))
            reports ∧
          (t.run (a :: rest)).Follows id root
            (said ++ reports.flatten.filter (·.isFor root)) := by
      intro hcall hcalls
      rw [hcalls]
      exact ih (hf.other hcall (Ne.symm hne)) (hs.act a) hrest
    cases a with
    | call call =>
      obtain ⟨events, hreports, hf'⟩ := hf.call hs call
      obtain ⟨reports, hall, hrun⟩ := ih hf' (hs.act _) hrest
      refine ⟨events :: reports, .cons hreports hall, ?_⟩
      rw [List.flatten_cons, List.filter_append, ← List.append_assoc]
      exact hrun
    | take watch => exact hother (fun _ => Act.noConfusion) rfl
    | leave watch => exact hother (fun _ => Act.noConfusion) rfl
    | prune => exact hother (fun _ => Act.noConfusion) rfl

/-! ### The replica of a reader -/

/-- A replica of the tree at `root` has read what was taken, and is led on by what waits. -/
structure Mirrors (t : Transcript) (id : Nat) (root : String) : Prop where
  orderly : (Replica.empty root).Orderly (t.taken id)
  leads : t.store.Leads id ((Replica.empty root).applyAll (t.taken id))

theorem Mirrors.orderly_stream (hm : t.Mirrors id root) :
    (Replica.empty root).Orderly (t.stream id) :=
  Replica.orderly_append.2 ⟨hm.orderly, hm.leads.pending.orderly⟩

/-- **Whatever happens**, short of its reader going away, leaves the replica led on. -/
theorem Mirrors.act (hm : t.Mirrors id root) (hs : t.Sound) {a : Act} (hstays : a ≠ .leave id) :
    (t.act a).Mirrors id root := by
  cases a with
  | call call => exact ⟨hm.orderly, (Store.leads_kept id _).perform hs.rooted hm.leads call⟩
  | take watch =>
    cases hpending : t.store.pending watch with
    | nil => rwa [act_take_of_nil hpending]
    | cons event rest =>
      rw [act_take_of_cons hpending]
      by_cases hid : id = watch
      · subst hid
        obtain ⟨ht, hleads⟩ := hm.leads.takeFirst hpending
        constructor <;> dsimp only <;> rw [if_pos rfl]
        · exact Replica.orderly_append.2 ⟨hm.orderly, ht, trivial⟩
        · rw [Replica.applyAll_append]
          exact hleads
      · constructor <;> dsimp only <;> rw [if_neg hid]
        · exact hm.orderly
        · exact hm.leads.takeFirst_other hid
  | leave watch =>
    exact ⟨hm.orderly, hm.leads.abandon_other fun he => hstays (congrArg Act.leave he.symm)⟩
  | prune => exact ⟨hm.orderly, hm.leads.prune⟩

theorem Mirrors.run (acts : List Act) :
    ∀ {t : Transcript}, t.Mirrors id root → t.Sound → .leave id ∉ acts →
      (t.run acts).Mirrors id root := by
  induction acts with
  | nil => exact fun hm _ _ => hm
  | cons a rest ih =>
    intro t hm hs hstays
    obtain ⟨hne, hrest⟩ := not_or.1 (mt List.mem_cons.2 hstays)
    exact ih (hm.act hs (Ne.symm hne)) (hs.act a) hrest

/-! ### New watches -/

/-- A new watch has the replay in its queue. -/
theorem Sound.follows_watch (hs : t.Sound) (hroot : Path.isWellFormed root = true) :
    (t.store.watch root).2 = .ok t.store.nextWatch ∧
      (t.act (.call (.watch root))).Follows t.store.nextWatch root (t.store.replay root) := by
  have hnew := hs.fresh t.store.nextWatch (Nat.le_refl _)
  refine ⟨?_, ⟨t.store.nextWatch, root, true, t.store.replay root⟩,
    Store.watch?_new hs.numbered hroot, rfl, rfl, ?_⟩
  · rw [Store.watch, if_pos hroot]
  · exact congrArg (· ++ t.store.replay root) hnew

theorem Sound.mirrors_watch (hs : t.Sound) (hroot : Path.isWellFormed root = true)
    (htop : Path.IsRoot root) :
    (t.act (.call (.watch root))).Mirrors t.store.nextWatch root := by
  have hnew := hs.fresh t.store.nextWatch (Nat.le_refl _)
  constructor
  · change (Replica.empty root).Orderly (t.taken t.store.nextWatch)
    rw [hnew]
    trivial
  · change (t.store.watch root).1.Leads _ ((Replica.empty root).applyAll
      (t.taken t.store.nextWatch))
    rw [hnew]
    exact (Store.leads_watch hs.rooted hs.numbered htop hroot).2

/-- What is true of every event that a call reports is true of all that calls report. -/
theorem forall_mem_reports {P : StoreEvent → Prop} {met : List (Store × Store.Call)}
    {reports : List (List StoreEvent)}
    (hall : List.Forall₂ (fun c events => c.1.Reports c.2 events) met reports)
    (hP : ∀ c ∈ met, ∀ events, c.1.Reports c.2 events → ∀ event ∈ events, P event) :
    ∀ event ∈ reports.flatten, P event := by
  induction hall with
  | nil =>
    intro event he
    cases he
  | cons hreports _ ih =>
    intro event he
    rw [List.flatten_cons, List.mem_append] at he
    rcases he with he | he
    · exact hP _ List.mem_cons_self _ hreports event he
    · exact ih (fun c hc => hP c (List.mem_cons_of_mem _ hc)) event he

/-- **The stream of a watch.**  Whatever happened before it was started and whatever happens
afterwards, until its reader goes away: the stream consists of the nodes stored at or below the
root at the start, in the order of their paths, of one `initialized`, and of what every later call
had to report, call by call, as far as it is for the root.  Wherever a replica of the tree at the
root stops reading, every cluster has its own node, and when a cluster or the application is
deleted next, it has no keys or clusters left. -/
theorem stream_run (before after : List Act) {root : String}
    (hroot : Path.isWellFormed root = true)
    (hstays : .leave (empty.run before).store.nextWatch ∉ after) :
    let t := empty.run before
    let started := t.act (.call (.watch root))
    let stream := (started.run after).stream t.store.nextWatch
    (t.store.watch root).2 = .ok t.store.nextWatch ∧
    (∃ found reports, t.store.Finds root found ∧
      List.Forall₂ (fun c events => c.1.Reports c.2 events) (started.calls after) reports ∧
      stream = found.map (fun e => .created e.1 e.2) ++
        .initialized :: reports.flatten.filter (·.isFor root)) ∧
    stream.count .initialized = 1 ∧
    Replica.ParentsFirst root stream := by
  intro t started stream
  have hs : t.Sound := sound_empty.run before
  have hs' : started.Sound := hs.act _
  obtain ⟨hid, hfollows⟩ := hs.follows_watch hroot
  obtain ⟨reports, hall, hrun⟩ := hfollows.run after hs' hstays
  have hstream : stream = t.store.replay root ++ reports.flatten.filter (·.isFor root) :=
    hrun.stream_eq
  refine ⟨hid, ⟨_, reports, t.store.finds_filter root, hall, ?_⟩, ?_, ?_⟩
  · rw [hstream, Store.replay, List.append_assoc]
    rfl
  · have hreports := forall_mem_reports (P := fun event => event ≠ .initialized) hall
      fun c _ events hreports event he heq => hreports.initialized_notMem (heq ▸ he)
    have hrest : .initialized ∉ reports.flatten.filter (·.isFor root) := fun he =>
      hreports _ (List.mem_filter.1 he).1 rfl
    rw [hstream, Store.replay, List.count_append, List.count_append, List.count_eq_zero.2 hrest,
      List.count_eq_zero.2 (by simp)]
    rfl
  · by_cases htop : root = Path.top
    · refine (Replica.orderly_top (fun event he path hpath => ?_) htop rfl).parentsFirst
      rw [hstream, List.mem_append] at he
      rcases he with he | he
      · exact Store.isWellFormed_of_mem_replay hs.rooted he hpath
      · have hreports := forall_mem_reports
          (P := fun event => event.path? = some path → Path.isWellFormed path = true) hall
          fun c hc events hreports event he hpath =>
            hreports.isWellFormed (hs'.rooted_of_mem_calls after c hc) he hpath
        exact hreports event (List.mem_filter.1 he).1 hpath
    · have hempty : root ≠ "" := by
        rintro rfl
        exact absurd hroot (by decide)
      have hmirrors := (hs.mirrors_watch hroot ⟨hempty, htop⟩).run after hs' hstays
      exact hmirrors.orderly_stream.parentsFirst

/-- A tree is created from its deepest node on, watched, read in part, and deleted as a whole. -/
theorem stream_run_shop :
    let before : List Act := [.call (.create "/service/shop/b/1" "x" true),
      .call (.watch "/service"), .call (.create "/service/shop/a" "y" false)]
    let after : List Act := [.take 1, .call (.create "/service/shop/a/2/deep" "z" true), .leave 0,
      .call (.set "/service/shop/b" "v" (some 7)), .take 1, .prune,
      .call (.delete "/service" none true)]
    let t := empty.run before
    let started := t.act (.call (.watch "/service/shop"))
    let stream := (started.run after).stream 1
    t.store.nextWatch = 1 ∧
    (∃ found reports, t.store.Finds "/service/shop" found ∧
      List.Forall₂ (fun c events => c.1.Reports c.2 events) (started.calls after) reports ∧
      stream = found.map (fun e => .created e.1 e.2) ++
        .initialized :: reports.flatten.filter (·.isFor "/service/shop")) ∧
    Replica.ParentsFirst "/service/shop" stream := by
  intro before after t started stream
  have hroot : Path.isWellFormed "/service/shop" = true := by decide
  obtain ⟨-, htold, -, horder⟩ := stream_run before after hroot (by decide +kernel)
  exact ⟨rfl, htold, horder⟩

end Transcript

end Treecast
