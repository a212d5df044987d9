import Treecast.Proofs.Path

/-!
# Calls to the store

Every call is a chain of single writes: nodes are added below stored nodes, set, or removed when
nothing is left below them.  What single writes keep, every call keeps (`Kept.perform`).

## Results

* `Store.Kept.run`: a property that single writes keep holds after every sequence of calls.
* `Store.rooted_run`: after every sequence of calls all stored paths are well formed, and above
  a stored path everything is stored.
-/

set_option autoImplicit false

namespace Treecast

/-- Value and version of a node. -/
def Node.core (node : Node) : String × Int := (node.value, node.version)

namespace Store

/-- The calls of a store's users. -/
inductive Call where
  | create (path value : String) (makeParents : Bool)
  | set (path value : String) (expected : Option Int)
  | delete (path : String) (expected : Option Int) (recursive : Bool)
  | announce (state : Connection)
  | watch (root : String)
  deriving DecidableEq, Repr

/-- The store after a call, successful or not. -/
def perform (s : Store) : Call → Store
  | .create path value makeParents => (s.create path value makeParents).1
  | .set path value expected => (s.set path value expected).1
  | .delete path expected recursive => (s.delete path expected recursive).1
  | .announce state => s.announce state
  | .watch root => (s.watch root).1

/-- The store after calls in order. -/
def run (s : Store) (calls : List Call) : Store := calls.foldl perform s

/-- Stores another node at a stored path and tells the watches. -/
def rewrite (s : Store) (path : String) (node : Node) : Store :=
  ({ s with nodes := s.nodes.insert path node } : Store).publish path (.updated path node)

/-! ## What single writes do to the nodes -/

/-- Value and version of the node at `path`. -/
def core? (s : Store) (path : String) : Option (String × Int) :=
  (s.nodes.find? path).map Node.core

theorem has_eq_isSome_core? (s : Store) (path : String) : s.has path = (s.core? path).isSome := by
  rw [has, core?, SortedMap.contains, Option.isSome_map]

theorem find?_countAtParent (s : Store) (path : String) (change : Nat → Nat) (other : String) :
    (s.countAtParent path change).nodes.find? other =
      if Path.parent? path = some other then
        (s.nodes.find? other).map fun n => { n with childCount := change n.childCount }
      else s.nodes.find? other := by
  unfold countAtParent
  split
  · rename_i hparent
    rw [hparent, if_neg nofun]
  · rename_i parent hparent
    rw [hparent, SortedMap.find?_modify]
    by_cases h : other = parent
    · rw [if_pos h, if_pos (congrArg some h.symm), h]
    · rw [if_neg h, if_neg fun heq => h (Option.some.inj heq).symm]

theorem core?_countAtParent (s : Store) (path : String) (change : Nat → Nat) (other : String) :
    (s.countAtParent path change).core? other = s.core? other := by
  rw [core?, find?_countAtParent, core?]
  split
  · rw [Option.map_map]
    rfl
  · rfl

@[simp] theorem core?_addNode (s : Store) (path value other : String) :
    (s.addNode path value).core? other =
      if other = path then some (value, 0) else s.core? other := by
  have : (s.addNode path value).core? other =
      (({ s with nodes := s.nodes.insert path ⟨value, 0, 0⟩ } : Store).countAtParent path
        (· + 1)).core? other := rfl
  rw [this, core?_countAtParent]
  by_cases h : other = path <;> simp [core?, h, Node.core]

@[simp] theorem core?_removeNode (s : Store) (path other : String) :
    (s.removeNode path).core? other = if other = path then none else s.core? other := by
  have : (s.removeNode path).core? other =
      (({ s with nodes := s.nodes.erase path } : Store).countAtParent path (· - 1)).core?
        other := rfl
  rw [this, core?_countAtParent]
  by_cases h : other = path <;> simp [core?, h]

@[simp] theorem core?_rewrite (s : Store) (path : String) (node : Node) (other : String) :
    (s.rewrite path node).core? other = if other = path then some node.core else s.core? other := by
  by_cases h : other = path <;> simp [core?, rewrite, publish, h]

theorem has_addNode (s : Store) (path value other : String) :
    (s.addNode path value).has other = true ↔ other = path ∨ s.has other = true := by
  simp only [has_eq_isSome_core?, core?_addNode]
  by_cases h : other = path <;> simp [h]

theorem has_addNode_of_ne (s : Store) {path other : String} (value : String)
    (hne : other ≠ path) : (s.addNode path value).has other = s.has other := by
  rw [has_eq_isSome_core?, has_eq_isSome_core?, core?_addNode, if_neg hne]

theorem has_removeNode (s : Store) (path other : String) :
    (s.removeNode path).has other = true ↔ other ≠ path ∧ s.has other = true := by
  simp only [has_eq_isSome_core?, core?_removeNode]
  by_cases h : other = path <;> simp [h]

theorem has_rewrite {s : Store} {path : String} (hpath : s.has path = true) (node : Node)
    (other : String) : (s.rewrite path node).has other = s.has other := by
  rw [has_eq_isSome_core?, core?_rewrite]
  split
  · rename_i h
    rw [h, hpath]
    rfl
  · rw [has_eq_isSome_core?]

/-! ## What single writes keep -/

/-- The node above `path`, if it is not `/`, is stored. -/
def ParentReady (s : Store) (path : String) : Prop :=
  ∀ parent, Path.parent? path = some parent → parent = Path.top ∨ s.has parent = true

/-- Nothing is stored below `path`. -/
def NothingBelow (s : Store) (path : String) : Prop :=
  ∀ other, s.has other = true → Path.isUnder other path = true → other = path

/-- Stored paths are well formed, and above a stored path everything is stored. -/
structure Rooted (s : Store) : Prop where
  wellFormed : ∀ path, s.has path = true → Path.isWellFormed path = true
  parents : ∀ path, s.has path = true → s.ParentReady path

/-- Single writes, announcements and new watches keep a property. -/
structure Kept (P : Store → Prop) : Prop where
  add : ∀ s path value, P s → Path.isWellFormed path = true → s.has path = false →
    s.ParentReady path → P (s.addNode path value)
  rewrite : ∀ s path node value, P s → s.nodes.find? path = some node →
    P (s.rewrite path ⟨value, node.version + 1, node.childCount⟩)
  remove : ∀ s path, P s → s.has path = true → s.NothingBelow path → P (s.removeNode path)
  announce : ∀ s state, P s → P (s.announce state)
  watch : ∀ s root, P s → Path.isWellFormed root = true → P (s.watch root).1

theorem rooted_empty : empty.Rooted where
  wellFormed path h := by cases h
  parents path h := by cases h

theorem Rooted.of_nodes_eq {s s' : Store} (h : s.Rooted) (hn : s'.nodes = s.nodes) : s'.Rooted := by
  have hhas : ∀ path, s'.has path = s.has path := fun path => by rw [has, has, hn]
  refine ⟨fun path hp => h.wellFormed path (hhas path ▸ hp), fun path hp parent hparent => ?_⟩
  rw [hhas]
  exact h.parents path (hhas path ▸ hp) parent hparent

theorem ParentReady.mono {s s' : Store} {path : String} (h : s.ParentReady path)
    (hs : ∀ other, s.has other = true → s'.has other = true) : s'.ParentReady path :=
  fun parent hp => (h parent hp).imp id (hs parent)

theorem ParentReady.of_none {path : String} (h : Path.parent? path = none) (s : Store) :
    s.ParentReady path := by
  intro parent hp
  rw [h] at hp
  cases hp

theorem Rooted.addNode {s : Store} (hs : s.Rooted) {path : String} (value : String)
    (hwf : Path.isWellFormed path = true) (hready : s.ParentReady path) :
    (s.addNode path value).Rooted := by
  have hmono : ∀ other, s.has other = true → (s.addNode path value).has other = true :=
    fun other h => (has_addNode s path value other).2 (.inr h)
  refine ⟨fun other h => ?_, fun other h => ?_⟩
  · rcases (has_addNode s path value other).1 h with rfl | h
    · exact hwf
    · exact hs.wellFormed other h
  · rcases (has_addNode s path value other).1 h with rfl | h
    · exact hready.mono hmono
    · exact (hs.parents other h).mono hmono

theorem Rooted.removeNode {s : Store} (hs : s.Rooted) {path : String}
    (hbelow : s.NothingBelow path) : (s.removeNode path).Rooted := by
  refine ⟨fun other h => hs.wellFormed other ((has_removeNode s path other).1 h).2,
    fun other h parent hp => ?_⟩
  obtain ⟨hne, hother⟩ := (has_removeNode s path other).1 h
  refine (hs.parents other hother parent hp).imp id fun hstored => ?_
  refine (has_removeNode s path parent).2 ⟨?_, hstored⟩
  -- a stored path would lie below the one that is removed
  rintro rfl
  by_cases htop : parent = Path.top
  · subst htop
    exact hne (hbelow other hother (by simp [Path.isUnder]))
  · obtain ⟨-, name, -, rfl⟩ := Path.eq_child_of_parent? hp htop
    exact hne (hbelow _ hother (Path.isUnder_child name htop (Path.isUnder_self _)))

theorem rooted_kept : Kept Rooted where
  add s path value hs hwf _ hready := hs.addNode value hwf hready
  rewrite s path node value hs hnode := by
    have hhas := has_rewrite (Option.isSome_iff_exists.2 ⟨node, hnode⟩)
      ⟨value, node.version + 1, node.childCount⟩
    refine ⟨fun other h => hs.wellFormed other (hhas other ▸ h), fun other h => ?_⟩
    exact (hs.parents other (hhas other ▸ h)).mono fun q hq => (hhas q).symm ▸ hq
  remove s path hs _ hbelow := hs.removeNode hbelow
  announce s state hs := hs.of_nodes_eq rfl
  watch s root hs hroot := by
    refine hs.of_nodes_eq ?_
    rw [Store.watch, if_pos hroot]

/-! ## What calls keep -/

section Calls

variable {P : Store → Prop}

/-- After the missing ancestors are added, the path itself can be added. -/
theorem Kept.addAncestors (h : Kept P) {s : Store} (hP : P s) :
    ∀ (steps : Nat) (path : String), path.length ≤ steps → Path.isWellFormed path = true →
      let s' := ((ancestorsFrom steps path).takeWhile fun a => !s.has a).reverse.foldl
        (fun s parent => s.addNode parent "") s
      P s' ∧ s'.ParentReady path ∧
        ∀ other, path.length ≤ other.length → s'.has other = s.has other := by
  intro steps
  induction steps with
  | zero =>
    intro path hlen _
    have : path = "" := String.length_eq_zero_iff.1 (Nat.le_zero.1 hlen)
    subst this
    exact ⟨hP, .of_none rfl _, fun _ _ => rfl⟩
  | succ steps ih =>
    intro path hlen hwf
    cases hp : Path.parent? path with
    | none =>
      simp only [ancestorsFrom, hp]
      exact ⟨hP, .of_none hp _, fun _ _ => rfl⟩
    | some parent =>
      have hready : ∀ s' : Store, parent = Path.top ∨ s'.has parent = true →
          s'.ParentReady path := by
        intro s' hs' q hq
        rw [hp] at hq
        cases hq
        exact hs'
      by_cases htop : parent = Path.top
      · simp only [ancestorsFrom, hp, htop, if_true]
        exact ⟨hP, hready s (.inl htop), fun _ _ => rfl⟩
      · simp only [ancestorsFrom, hp, htop, if_false]
        cases hstored : s.has parent with
        | true =>
          rw [List.takeWhile_cons_of_neg (by simp [hstored])]
          exact ⟨hP, hready s (.inr hstored), fun _ _ => rfl⟩
        | false =>
          rw [List.takeWhile_cons_of_pos (by simp [hstored]), List.reverse_cons,
            List.foldl_append, List.foldl_cons, List.foldl_nil]
          have hlt := Path.length_parent?_lt hp htop
          obtain ⟨hP', hready', hkeep⟩ := ih parent (by omega) (Path.isWellFormed_parent? hwf hp)
          refine ⟨h.add _ parent "" hP' (Path.isWellFormed_parent? hwf hp)
            (by rw [hkeep parent (Nat.le_refl _), hstored]) hready', hready _ (.inr ?_), ?_⟩
          · exact (has_addNode _ _ _ _).2 (.inl rfl)
          · intro other hother
            have hne : other ≠ parent := by
              rintro rfl
              omega
            rw [has_addNode_of_ne _ _ hne, hkeep other (by omega)]

theorem Kept.create (h : Kept P) {s : Store} (hP : P s) (path value : String) (makeParents : Bool) :
    P (s.create path value makeParents).1 := by
  unfold Store.create
  split
  · exact hP
  · rename_i hfault
    unfold createFault? at hfault
    split at hfault
    · cases hfault
    · rename_i hwf
      split at hfault
      · cases hfault
      · rename_i hnew
        rw [Classical.not_not] at hwf
        obtain ⟨hP', hready, hkeep⟩ := h.addAncestors hP path.length path (Nat.le_refl _) hwf
        refine h.add _ path value hP' hwf ?_ hready
        exact (hkeep path (Nat.le_refl _)).trans (Bool.eq_false_iff.2 hnew)

/-- What is checked before a node is written. -/
theorem checked_eq_ok_iff {s : Store} {path : String} {expected : Option Int} {node : Node} :
    s.checked path expected = .ok node ↔
      Path.isWellFormed path = true ∧ s.nodes.find? path = some node ∧
        ∀ version ∈ expected, node.version = version := by
  unfold checked checkPath
  by_cases hwf : Path.isWellFormed path = true
  · cases hn : s.nodes.find? path with
    | none => simp [hwf, bind, Except.bind, throw, throwThe, MonadExceptOf.throw]
    | some node' =>
      cases expected with
      | none => simp [hwf, bind, Except.bind, pure, Except.pure]
      | some version =>
        by_cases hv : node'.version = version
        · simp only [hwf, if_true, hv, bind, Except.bind, pure, Except.pure]
          constructor
          · intro h
            cases h
            exact ⟨trivial, rfl, fun _ he => hv.trans (Option.mem_some_iff.1 he)⟩
          · rintro ⟨-, h, -⟩
            cases h
            rfl
        · simp only [hwf, if_true, hv, if_false, bind, Except.bind, throw, throwThe,
            MonadExceptOf.throw]
          constructor
          · intro h
            cases h
          · rintro ⟨-, h, hversion⟩
            cases h
            exact absurd (hversion version rfl) hv
  · simp [hwf, bind, Except.bind]

theorem checked_eq_ok {s : Store} {path : String} {expected : Option Int} {node : Node}
    (h : s.checked path expected = .ok node) :
    Path.isWellFormed path = true ∧ s.nodes.find? path = some node :=
  (checked_eq_ok_iff.1 h).imp id And.left

theorem Kept.set (h : Kept P) {s : Store} (hP : P s) (path value : String) (expected : Option Int) :
    P (s.set path value expected).1 := by
  unfold Store.set
  split
  · exact hP
  · rename_i node hnode
    exact h.rewrite s path node value hP (checked_eq_ok hnode).2

/-! ### Deletion -/

theorem removedBefore_iff {a b : String} :
    removedBefore a b = true ↔
      Path.depth b < Path.depth a ∨ Path.depth a = Path.depth b ∧ (compare a b).isGE := by
  have : ∀ o : Ordering, (o != .lt) = o.isGE := by decide
  rw [removedBefore, this, Bool.or_eq_true, Bool.and_eq_true, decide_eq_true_eq,
    decide_eq_true_eq]

theorem removedBefore_total (a b : String) : (removedBefore a b || removedBefore b a) = true := by
  rw [Bool.or_eq_true, removedBefore_iff, removedBefore_iff]
  rcases Nat.lt_trichotomy (Path.depth a) (Path.depth b) with h | h | h
  · exact .inr (.inl h)
  · cases hab : compare a b with
    | lt => exact .inr (.inr ⟨h.symm, by rw [Std.OrientedCmp.gt_of_lt hab]; rfl⟩)
    | eq => exact .inl (.inr ⟨h, rfl⟩)
    | gt => exact .inl (.inr ⟨h, rfl⟩)
  · exact .inl (.inl h)

theorem removedBefore_trans (a b c : String) (hab : removedBefore a b = true)
    (hbc : removedBefore b c = true) : removedBefore a c = true := by
  rw [removedBefore_iff] at *
  rcases hab with hab | ⟨hab, hle⟩
  · rcases hbc with hbc | ⟨hbc, -⟩
    · exact .inl (Nat.lt_trans hbc hab)
    · exact .inl (hbc ▸ hab)
  · rcases hbc with hbc | ⟨hbc, hle'⟩
    · exact .inl (hab ▸ hbc)
    · exact .inr ⟨hab.trans hbc, Std.TransCmp.isGE_trans hle hle'⟩

/-- Removing paths one after another, when each has nothing stored below it that is not removed
before. -/
theorem Kept.removeAll (h : Kept P) {victims : List String} :
    ∀ {s : Store}, P s → victims.Nodup → (∀ v ∈ victims, s.has v = true) →
      victims.Pairwise (fun v w => Path.isUnder w v = true → w = v) →
      (∀ v ∈ victims, ∀ other, s.has other = true → Path.isUnder other v = true →
        other ∈ victims) →
      P (victims.foldl removeNode s) := by
  induction victims with
  | nil => exact fun hP _ _ _ _ => hP
  | cons v rest ih =>
    intro s hP hnodup hstored hpair hclosed
    obtain ⟨hv, hnodup⟩ := List.nodup_cons.1 hnodup
    obtain ⟨hfirst, hpair⟩ := List.pairwise_cons.1 hpair
    have hbelow : s.NothingBelow v := by
      intro other ho hu
      rcases List.mem_cons.1 (hclosed v List.mem_cons_self other ho hu) with h | h
      · exact h
      · exact hfirst other h hu
    refine ih (h.remove s v hP (hstored v List.mem_cons_self) hbelow) hnodup ?_ hpair ?_
    · intro w hw
      have hne : w ≠ v := fun he => hv (he ▸ hw)
      exact (has_removeNode s v w).2 ⟨hne, hstored w (List.mem_cons_of_mem _ hw)⟩
    · intro w hw other ho hu
      obtain ⟨hne, ho⟩ := (has_removeNode s v other).1 ho
      exact (List.mem_cons.1 (hclosed w (List.mem_cons_of_mem _ hw) other ho hu)).resolve_left hne

theorem mem_descendants_iff {s : Store} {path other : String} :
    other ∈ s.descendants path ↔
      s.has other = true ∧ other ≠ path ∧ Path.isUnder other path = true := by
  rw [descendants, List.mem_filter, SortedMap.mem_keys_iff, Bool.and_eq_true, decide_eq_true_eq]
  rfl

/-- Nothing but the top is above the top. -/
theorem ne_of_isUnder_top {root : String} (htop : root ≠ Path.top) (hempty : root ≠ "") :
    ¬ Path.isUnder Path.top root = true := by
  rw [Path.isUnder_iff htop]
  rintro (h | ⟨rest, h⟩)
  · exact htop h.symm
  · cases hr : root.toList with
    | nil => exact hempty (String.toList_eq_nil_iff.1 hr)
    | cons c cs =>
      rw [hr] at h
      have := congrArg List.length h
      simp [Path.top] at this

/-- What is stored below a stored path is not the top, and no stored path is empty. -/
theorem Rooted.ne_top_of_mem_descendants {s : Store} (hs : s.Rooted) {path v : String}
    (hpath : s.has path = true) (hv : v ∈ s.descendants path) : v ≠ Path.top ∧ v ≠ "" := by
  have hempty : ∀ other, s.has other = true → other ≠ "" := by
    rintro other ho rfl
    exact absurd (hs.wellFormed "" ho) (by decide)
  obtain ⟨hstored, hne, hu⟩ := mem_descendants_iff.1 hv
  refine ⟨?_, hempty v hstored⟩
  rintro rfl
  exact ne_of_isUnder_top (Ne.symm hne) (hempty path hpath) hu

/-- What is deleted with a path: the paths below it, the deepest first, and then the path. -/
def removals (s : Store) (path : String) : List String :=
  (s.descendants path).mergeSort removedBefore ++ [path]

theorem mem_removals_iff {s : Store} {path : String} (hpath : s.has path = true) (v : String) :
    v ∈ s.removals path ↔ s.has v = true ∧ (v = path ∨ Path.isUnder v path = true) := by
  rw [removals, List.mem_append, List.mem_mergeSort, List.mem_singleton, mem_descendants_iff]
  by_cases hv : v = path
  · simp [hv, hpath]
  · simp [hv]

theorem nodup_removals (s : Store) (path : String) : (s.removals path).Nodup := by
  refine List.nodup_append.2 ⟨?_, List.pairwise_singleton _ _, ?_⟩
  · exact (List.mergeSort_perm _ _).nodup_iff.2 (s.nodes.nodup_keys.filter _)
  · intro v hv w hw
    rw [List.mem_mergeSort, mem_descendants_iff] at hv
    rw [List.mem_singleton.1 hw]
    exact hv.2.1

/-- A path is deleted after the paths below it. -/
theorem Rooted.pairwise_removals {s : Store} (hs : s.Rooted) {path : String}
    (hpath : s.has path = true) :
    (s.removals path).Pairwise fun v w => Path.isUnder w v = true → w = v := by
  refine List.pairwise_append.2 ⟨?_, List.pairwise_singleton _ _, ?_⟩
  · -- a path below another is deeper, hence comes first
    refine (List.pairwise_mergeSort removedBefore_trans removedBefore_total
      (s.descendants path)).imp_of_mem ?_
    intro v w hv _ hbefore hu
    rw [List.mem_mergeSort] at hv
    by_cases hne : w = v
    · exact hne
    · have := Path.depth_lt (hs.ne_top_of_mem_descendants hpath hv).1 hne hu
      rw [removedBefore_iff] at hbefore
      omega
  · intro v hv w hw hu
    rw [List.mem_mergeSort] at hv
    rw [List.mem_singleton.1 hw] at hu ⊢
    obtain ⟨hnotop, hnoempty⟩ := hs.ne_top_of_mem_descendants hpath hv
    obtain ⟨-, hne, hu'⟩ := mem_descendants_iff.1 hv
    by_cases htop : path = Path.top
    · subst htop
      exact absurd hu (ne_of_isUnder_top hnotop hnoempty)
    · have := Path.depth_lt htop hne hu'
      have := Path.depth_lt hnotop (Ne.symm hne) hu
      omega

theorem Kept.delete (h : Kept P) {s : Store} (hs : s.Rooted) (hP : P s) (path : String)
    (expected : Option Int) (recursive : Bool) : P (s.delete path expected recursive).1 := by
  unfold Store.delete
  split
  · exact hP
  · rename_i node hnode
    dsimp only
    split
    · exact hP
    · obtain ⟨-, hfind⟩ := checked_eq_ok hnode
      have hpath : s.has path = true := Option.isSome_iff_exists.2 ⟨node, hfind⟩
      have hmem := mem_removals_iff hpath
      change P ((s.removals path).foldl removeNode s)
      refine h.removeAll hP (s.nodup_removals path) (fun v hv => ((hmem v).1 hv).1)
        (hs.pairwise_removals hpath) fun v hv other ho hu => ?_
      refine (hmem other).2 ⟨ho, .inr ?_⟩
      rcases List.mem_append.1 hv with hv | hv
      · rw [List.mem_mergeSort] at hv
        exact Path.isUnder_trans (hs.ne_top_of_mem_descendants hpath hv).1 hu
          (mem_descendants_iff.1 hv).2.2
      · exact List.mem_singleton.1 hv ▸ hu

/-- **What single writes keep, every call keeps.** -/
theorem Kept.perform (h : Kept P) {s : Store} (hs : s.Rooted) (hP : P s) (call : Call) :
    P (s.perform call) := by
  cases call with
  | create path value makeParents => exact h.create hP path value makeParents
  | set path value expected => exact h.set hP path value expected
  | delete path expected recursive => exact h.delete hs hP path expected recursive
  | announce state => exact h.announce s state hP
  | watch root =>
    by_cases hroot : Path.isWellFormed root = true
    · exact h.watch s root hP hroot
    · rw [Store.perform, Store.watch, if_neg hroot]
      exact hP

theorem Rooted.perform {s : Store} (hs : s.Rooted) (call : Call) : (s.perform call).Rooted :=
  rooted_kept.perform hs hs call

theorem Kept.run (h : Kept P) (calls : List Call) :
    ∀ {s : Store}, s.Rooted → P s → P (s.run calls) := by
  induction calls with
  | nil => exact fun _ hP => hP
  | cons call rest ih => exact fun hs hP => ih (hs.perform call) (h.perform hs hP call)

/-- After every sequence of calls, what is above a stored path is stored. -/
theorem rooted_run (calls : List Call) : (empty.run calls).Rooted :=
  rooted_kept.run calls rooted_empty rooted_empty

end Calls

end Store

end Treecast
