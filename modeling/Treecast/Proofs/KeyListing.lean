import Treecast.Proofs.Histories
import Treecast.Proofs.TextBytes

/-!
# Listing the keys of a replica

A replica lists path and value of its keys cluster by cluster, and the keys of a cluster one after
another.  Every key is listed once, with the value that it has.  The order of the listing is that of
places, which need not be that of paths: in a path a slash follows the cluster's name, and so a
longer name that goes on with a character before the slash comes first (`Overtakes`), though in the
listing it comes after the shorter one.  A dash and a dot are such characters.

## Results

* `Path.compare_child_child`: in which order the paths of keys of two clusters are.
* `Replica.sorted_places`: the order in which a replica lists its keys.
* `Replica.instances_exact`: what is listed, and when paths are listed in the order of their bytes.
* `Replica.instances_overtaken`: they need not be.
-/

set_option autoImplicit false

namespace Treecast

/-! ## The order of paths -/

theorem compare_eq_lt_iff {a b : String} : compare a b = .lt ↔ a.toList < b.toList :=
  compareOfLessAndEq_eq_lt.trans String.lt_iff

theorem append_lt_append_iff {front a b : List Char} : front ++ a < front ++ b ↔ a < b := by
  induction front with
  | nil => rfl
  | cons c front ih =>
    rw [List.cons_append, List.cons_append, List.cons_lt_cons_iff, ih]
    simp

/-- The first name goes on where the second one ends, with a character before the slash. -/
def Overtakes (name other : String) : Prop :=
  ∃ c rest, name.toList = other.toList ++ c :: rest ∧ c < '/'

/-- Of two names in order, with a slash behind each, the greater one may come first. -/
theorem append_slash_lt_iff {a b s t : List Char} (h : a < b) (hb : '/' ∉ b) :
    a ++ '/' :: s < b ++ '/' :: t ↔ ¬ ∃ c rest, b = a ++ c :: rest ∧ c < '/' := by
  induction h with
  | @nil c rest =>
    -- the shorter name has ended
    have hne : '/' ≠ c := fun heq => hb (heq ▸ List.mem_cons_self)
    have hlt : '/' < c ↔ ¬ c < '/' := by
      constructor
      · exact Char.lt_asymm
      · intro hnot
        exact Std.lt_of_le_of_ne (Char.not_lt.1 hnot) hne
    simp [List.cons_lt_cons_iff, hne, hlt]
  | @cons c a b _ ih =>
    have hrest := ih (List.not_mem_of_not_mem_cons hb)
    simp [hrest]
  | @rel c a d b hlt =>
    have hne : d ≠ c := by
      rintro rfl
      exact Char.lt_irrefl _ hlt
    simp [List.cons_lt_cons_iff, hlt, hne]

namespace Path

variable {root c c' k k' : String}

/-- The keys of one cluster have their paths in the order of their names. -/
theorem compare_child (base : String) :
    compare (child base k) (child base k') = .lt ↔ compare k k' = .lt := by
  rw [compare_eq_lt_iff, compare_eq_lt_iff, toList_child, toList_child, append_lt_append_iff,
    List.cons_lt_cons_iff]
  simp

/-- The paths of keys of two clusters in order are in that order, unless the second name overtakes
the first. -/
theorem compare_child_child (h : compare c c' = .lt) (hc' : IsSegment c') :
    compare (child (child root c) k) (child (child root c') k') = .lt ↔ ¬ Overtakes c' c := by
  have hpaths : ∀ name key, (child (child root name) key).toList =
      root.toList ++ '/' :: (name.toList ++ '/' :: key.toList) := by
    intro name key
    simp
  rw [compare_eq_lt_iff, hpaths, hpaths, append_lt_append_iff, List.cons_lt_cons_iff,
    append_slash_lt_iff (compare_eq_lt_iff.1 h) hc'.2]
  simp [Overtakes]

theorem compare_of_overtakes (h : Overtakes c' c) : compare c c' = .lt := by
  obtain ⟨x, rest, hname, -⟩ := h
  rw [compare_eq_lt_iff, hname]
  nth_rewrite 1 [← List.append_nil c.toList]
  exact append_lt_append_iff.2 (List.nil_lt_cons x rest)

end Path

/-! ## The order of the listing -/

namespace Replica

variable {r : Replica}

/-- The cluster and the name of each key, with its node, in the order in which they are listed. -/
def places (r : Replica) : List ((String × String) × Node) :=
  r.clusters.toList.flatMap fun c => c.2.keys.toList.map fun k => ((c.1, k.1), k.2)

/-- The order of keys by cluster, and within a cluster by name. -/
def Precedes (a b : String × String) : Prop :=
  compare a.1 b.1 = .lt ∨ a.1 = b.1 ∧ compare a.2 b.2 = .lt

theorem Precedes.ne {a b : String × String} (h : Precedes a b) : a ≠ b := by
  rintro rfl
  rcases h with h | ⟨-, h⟩ <;> rw [Std.ReflOrd.compare_self] at h <;> cases h

theorem Precedes.asymm {a b : String × String} (h : Precedes a b) : ¬ Precedes b a := by
  rintro (h' | ⟨heq, h'⟩)
  · rcases h with h | ⟨heq, -⟩
    · rw [Std.OrientedCmp.gt_of_lt h'] at h
      cases h
    · rw [heq, Std.ReflOrd.compare_self] at h'
      cases h'
  · rcases h with h | ⟨-, h⟩
    · rw [heq, Std.ReflOrd.compare_self] at h
      cases h
    · rw [Std.OrientedCmp.gt_of_lt h'] at h
      cases h

theorem instances_eq (r : Replica) : r.instances =
    r.places.map fun e => (Level.path r.root (.key e.1.1 e.1.2), e.2.value) := by
  rw [instances, places, List.map_flatMap]
  simp only [List.map_map]
  rfl

theorem mem_places_iff {c k : String} {node : Node} :
    ((c, k), node) ∈ r.places ↔ r.key? c k = some node := by
  rw [places, List.mem_flatMap, key?_eq_bind, Option.bind_eq_some_iff]
  constructor
  · rintro ⟨⟨name, x⟩, hx, hmem⟩
    obtain ⟨⟨key, n⟩, hkey, heq⟩ := List.mem_map.1 hmem
    cases heq
    exact ⟨x, SortedMap.mem_toList_iff.1 hx, SortedMap.mem_toList_iff.1 hkey⟩
  · rintro ⟨x, hx, hkey⟩
    exact ⟨(c, x), SortedMap.mem_toList_iff.2 hx,
      List.mem_map.2 ⟨(k, node), SortedMap.mem_toList_iff.2 hkey, rfl⟩⟩

/-- **Keys are listed** by cluster, and within a cluster by name. -/
theorem sorted_places (r : Replica) : r.places.Pairwise fun a b => Precedes a.1 b.1 := by
  rw [places, List.pairwise_flatMap]
  constructor
  · intro c _
    exact List.pairwise_map.2 (c.2.keys.sorted.imp fun h => .inr ⟨rfl, h⟩)
  · refine r.clusters.sorted.imp fun {c d} h a ha b hb => ?_
    obtain ⟨k, -, rfl⟩ := List.mem_map.1 ha
    obtain ⟨k', -, rfl⟩ := List.mem_map.1 hb
    exact .inl h

/-- What holds of all keys as they are listed holds of any two, the one that is listed first
before the other. -/
theorem rel_of_precedes {R : (String × String) × Node → (String × String) × Node → Prop}
    (h : r.places.Pairwise R) {a b : (String × String) × Node} (ha : a ∈ r.places)
    (hb : b ∈ r.places) (hab : Precedes a.1 b.1) : R a b := by
  have hsorted := r.sorted_places
  obtain ⟨i, hi, rfl⟩ := List.mem_iff_getElem.1 ha
  obtain ⟨j, hj, rfl⟩ := List.mem_iff_getElem.1 hb
  rcases Nat.lt_trichotomy i j with hlt | rfl | hlt
  · exact List.pairwise_iff_getElem.1 h i j hi hj hlt
  · exact absurd rfl hab.ne
  · exact absurd (List.pairwise_iff_getElem.1 hsorted j i hj hi hlt) hab.asymm

/-! ## Replicas of trees -/

variable {root : String} {events : List StoreEvent}

theorem isSegment_of_key? {c k : String} {node : Node}
    (h : ((empty root).applyAll events).key? c k = some node) :
    Path.IsSegment c ∧ Path.IsSegment k :=
  ((node?_applyAll root events (.key c k) node).1 h).1

/-- The paths of two keys, the first of which is listed before the second, are in order unless the
second one's cluster overtakes the first one's. -/
theorem compare_path_iff {a b : String × String} (h : Precedes a b) (hb : Path.IsSegment b.1) :
    compare (Level.path root (.key a.1 a.2)) (Level.path root (.key b.1 b.2)) = .lt ↔
      ¬ Overtakes b.1 a.1 := by
  rcases h with h | ⟨heq, h⟩
  · exact Path.compare_child_child h hb
  · rw [heq]
    refine iff_of_true ((Path.compare_child _).2 h) fun hover => ?_
    have hself := Path.compare_of_overtakes hover
    rw [Std.ReflOrd.compare_self] at hself
    cases hself

/-- Paths are listed in the order of their bytes unless one cluster overtakes another. -/
theorem pairwise_octets_iff :
    ((((empty root).applyAll events).instances.map fun e => Json.octets e.1).Pairwise (· < ·)) ↔
      ∀ a ∈ ((empty root).applyAll events).places, ∀ b ∈ ((empty root).applyAll events).places,
        ¬ Overtakes b.1.1 a.1.1 := by
  generalize hr : (empty root).applyAll events = r
  have hpath : ∀ a b : (String × String) × Node, b ∈ r.places → Precedes a.1 b.1 →
      (Json.octets (Level.path r.root (.key a.1.1 a.1.2)) <
        Json.octets (Level.path r.root (.key b.1.1 b.1.2)) ↔ ¬ Overtakes b.1.1 a.1.1) := by
    intro a b hb hab
    rw [Json.octets_lt_iff]
    exact compare_path_iff hab (isSegment_of_key? (hr ▸ mem_places_iff.1 hb)).1
  rw [instances_eq, List.map_map, List.pairwise_map]
  constructor
  · intro h a ha b hb hover
    have hab : Precedes a.1 b.1 := .inl (Path.compare_of_overtakes hover)
    exact (hpath a b hb hab).1 (rel_of_precedes h ha hb hab) hover
  · intro h
    refine r.sorted_places.imp_of_mem fun {a b} ha hb hab => ?_
    exact (hpath a b hb hab).2 (h a ha b hb)

/-- **What a replica lists.**  After any events every key is listed, with its path and its value,
and nothing else is: what is listed is the path of a key with the value of its node, which is what
the last upsert told that was not undone.  No path is listed twice.  The listing goes by cluster,
and within a cluster by key, and so it has the paths in the order of their bytes just if no cluster
with keys overtakes another one with keys. -/
theorem instances_exact (root : String) (events : List StoreEvent) :
    let r := (empty root).applyAll events
    (∀ c k node, r.key? c k = some node →
      let path := Path.child (Path.child root c) k
      r.classify path = some (.key c k) ∧ (path, node.value) ∈ r.instances) ∧
    (∀ path value, (path, value) ∈ r.instances → ∃ c k node,
      r.classify path = some (.key c k) ∧ r.key? c k = some node ∧ value = node.value ∧
        LastPut path node [path, Path.child root c, root] events) ∧
    (r.instances.map Prod.fst).Nodup ∧
    (r.instances.Pairwise fun a b => ∃ c k c' k',
      r.classify a.1 = some (.key c k) ∧ r.classify b.1 = some (.key c' k') ∧
        (compare c c' = .lt ∨ c = c' ∧ compare k k' = .lt)) ∧
    ((r.instances.map fun e => Json.octets e.1).Pairwise (· < ·) ↔
      ∀ c k c' k', (r.key? c k).isSome = true → (r.key? c' k').isSome = true →
        ¬ Overtakes c' c) := by
  intro r
  have hroot : r.root = root := root_applyAll (empty root) events
  have hpath : ∀ e ∈ r.places, r.classify (Level.path r.root (.key e.1.1 e.1.2)) =
      some (.key e.1.1 e.1.2) := by
    intro e he
    have hproper : (Level.key e.1.1 e.1.2).IsProper := isSegment_of_key? (mem_places_iff.1 he)
    exact levelAt_path r.root hproper
  refine ⟨fun c k node hnode => ?_, fun path value hmem => ?_, ?_, ?_, ?_⟩
  · have hplace := mem_places_iff.2 hnode
    have hclass := hpath ((c, k), node) hplace
    rw [hroot] at hclass
    refine ⟨hclass, ?_⟩
    rw [instances_eq, hroot]
    exact List.mem_map.2 ⟨((c, k), node), hplace, rfl⟩
  · rw [instances_eq] at hmem
    obtain ⟨⟨⟨c, k⟩, node⟩, hplace, heq⟩ := List.mem_map.1 hmem
    cases heq
    have hnode := mem_places_iff.1 hplace
    have hlast := ((node?_applyAll root events (.key c k) node).1 hnode).2
    refine ⟨c, k, node, hpath _ hplace, hnode, rfl, ?_⟩
    rw [hroot]
    exact hlast
  · rw [instances_eq, List.map_map]
    refine List.pairwise_map.2 (r.sorted_places.imp_of_mem fun {a b} ha hb hab heq => ?_)
    have hsame : some (Level.key a.1.1 a.1.2) = some (.key b.1.1 b.1.2) := by
      rw [← hpath a ha, ← hpath b hb]
      exact congrArg r.classify heq
    obtain ⟨hcluster, hkey⟩ := Level.key.inj (Option.some.inj hsame)
    exact hab.ne (Prod.ext hcluster hkey)
  · rw [instances_eq]
    refine List.pairwise_map.2 (r.sorted_places.imp_of_mem fun {a b} ha hb hab => ?_)
    exact ⟨_, _, _, _, hpath a ha, hpath b hb, hab⟩
  · refine pairwise_octets_iff.trans ⟨fun h c k c' k' hc hc' => ?_, fun h a ha b hb => ?_⟩
    · obtain ⟨node, hnode⟩ := Option.isSome_iff_exists.1 hc
      obtain ⟨node', hnode'⟩ := Option.isSome_iff_exists.1 hc'
      exact h _ (mem_places_iff.2 hnode) _ (mem_places_iff.2 hnode')
    · exact h _ _ _ _ (Option.isSome_of_eq_some (mem_places_iff.1 ha))
        (Option.isSome_of_eq_some (mem_places_iff.1 hb))

/-- **Paths that are listed out of order**: the cluster `a` is listed before `a-b`, but in paths
the dash comes before the slash. -/
theorem instances_overtaken :
    let r := (empty "/service/shop").applyAll
      [.created "/service/shop/a/k" ⟨"1", 0, 0⟩, .created "/service/shop/a-b/k" ⟨"2", 0, 0⟩]
    r.instances = [("/service/shop/a/k", "1"), ("/service/shop/a-b/k", "2")] ∧
      ¬ (r.instances.map fun e => Json.octets e.1).Pairwise (· < ·) := by
  decide

end Replica

end Treecast
