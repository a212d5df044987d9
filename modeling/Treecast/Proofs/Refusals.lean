import Treecast.Proofs.StoreTree

/-!
# What the store refuses

Every call looks at its arguments and at the nodes before it writes anything.  A creation needs a
free path below a stored one, unless it may create what is missing above; a write needs a stored
node of the expected version; a deletion needs the same, and nothing below the node unless it takes
all of that with it.  These are the only reasons to refuse a call, and a refused call leaves
nodes and watches alone.

## Results

* `Store.accepts_create_iff`, `Store.accepts_set_iff`, `Store.accepts_delete_iff`: which calls
  succeed.
* `Store.find?_perform_delete`: the nodes that are left after a deletion.
* `Transcript.calls_exact`: the same in every state that a store and its readers can reach, with
  what a refused call changes, which is nothing.
-/

set_option autoImplicit false

namespace Treecast

namespace Store

variable {s : Store} {path value : String} {makeParents recursive : Bool} {expected : Option Int}

/-! ## Creations -/

/-- Nothing is missing above a path just if its parent is `/` or stored, or it has none. -/
theorem missingAncestors_eq_nil_iff (hwf : Path.isWellFormed path = true) :
    s.missingAncestors path = [] ↔ s.ParentReady path := by
  have hlength : path.length ≠ 0 := by
    intro hzero
    rw [String.length_eq_zero_iff.1 hzero] at hwf
    exact absurd hwf (by decide)
  obtain ⟨steps, hsteps⟩ := Nat.exists_eq_succ_of_ne_zero hlength
  rw [missingAncestors, ancestors, hsteps, ancestorsFrom]
  cases hparent : Path.parent? path with
  | none => exact ⟨fun _ => .of_none hparent s, fun _ => rfl⟩
  | some parent =>
    have hready : s.ParentReady path ↔ parent = Path.top ∨ s.has parent = true := by
      constructor
      · intro h
        exact h parent hparent
      · intro h other hother
        rw [hparent] at hother
        rwa [← Option.some.inj hother]
    rw [hready]
    by_cases htop : parent = Path.top
    · simp [htop]
    · cases hstored : s.has parent <;> simp [htop, hstored]

theorem createFault?_eq_none_iff :
    s.createFault? path makeParents = none ↔
      Path.isWellFormed path = true ∧ s.has path = false ∧
        (s.ParentReady path ∨ makeParents = true) := by
  unfold createFault?
  by_cases hwf : Path.isWellFormed path = true
  · rw [if_neg (not_not_intro hwf), ← missingAncestors_eq_nil_iff hwf]
    cases hstored : s.has path with
    | true => simp
    | false =>
      cases hmissing : s.missingAncestors path <;> cases makeParents <;> simp [hwf]
  · simp [hwf]

/-- **A creation** succeeds just if the path is well formed and free, and its parent is there or may
be created. -/
theorem accepts_create_iff :
    s.accepts (.create path value makeParents) = true ↔
      Path.isWellFormed path = true ∧ s.has path = false ∧
        (s.ParentReady path ∨ makeParents = true) := by
  rw [← createFault?_eq_none_iff, accepts, create]
  cases s.createFault? path makeParents with
  | none => exact ⟨fun _ => rfl, fun _ => rfl⟩
  | some fault =>
    constructor
    · intro h
      cases h
    · intro h
      cases h

/-! ## Writes -/

/-- A node is stored, and has the expected version if there is one. -/
def Current (s : Store) (path : String) (expected : Option Int) : Prop :=
  ∃ node, s.nodes.find? path = some node ∧ ∀ version ∈ expected, node.version = version

theorem exists_checked_iff :
    (∃ node, s.checked path expected = .ok node) ↔
      Path.isWellFormed path = true ∧ s.Current path expected := by
  constructor
  · rintro ⟨node, hnode⟩
    obtain ⟨hwf, hcurrent⟩ := checked_eq_ok_iff.1 hnode
    exact ⟨hwf, node, hcurrent⟩
  · rintro ⟨hwf, node, hcurrent⟩
    exact ⟨node, checked_eq_ok_iff.2 ⟨hwf, hcurrent⟩⟩

/-- **A write** succeeds just if the path is well formed and its node is current. -/
theorem accepts_set_iff :
    s.accepts (.set path value expected) = true ↔
      Path.isWellFormed path = true ∧ s.Current path expected := by
  rw [← exists_checked_iff, accepts, set]
  cases hnode : s.checked path expected with
  | error fault =>
    constructor
    · intro h
      cases h
    · rintro ⟨_, h⟩
      cases h
  | ok node => exact ⟨fun _ => ⟨node, rfl⟩, fun _ => rfl⟩

/-! ## Deletions -/

theorem descendants_eq_nil_iff : s.descendants path = [] ↔ s.NothingBelow path := by
  rw [List.eq_nil_iff_forall_not_mem]
  constructor
  · intro h other hstored hunder
    apply Classical.byContradiction
    intro hne
    exact h other (mem_descendants_iff.2 ⟨hstored, hne, hunder⟩)
  · intro h other hother
    obtain ⟨hstored, hne, hunder⟩ := mem_descendants_iff.1 hother
    exact hne (h other hstored hunder)

/-- **A deletion** succeeds just if the path is well formed, its node is current, and nothing is
below it that may not be deleted. -/
theorem accepts_delete_iff :
    s.accepts (.delete path expected recursive) = true ↔
      Path.isWellFormed path = true ∧ s.Current path expected ∧
        (s.NothingBelow path ∨ recursive = true) := by
  rw [← and_assoc, ← exists_checked_iff, ← descendants_eq_nil_iff, accepts, delete]
  cases hnode : s.checked path expected with
  | error fault => simp [Except.isOk, Except.toBool]
  | ok node =>
    cases hbelow : s.descendants path <;> cases recursive <;>
      simp [Except.isOk, Except.toBool]

theorem find?_removeNode (s : Store) (path other : String) :
    (s.removeNode path).nodes.find? other =
      if other = path then none
      else if Path.parent? path = some other then
        (s.nodes.find? other).map fun n => { n with childCount := n.childCount - 1 }
      else s.nodes.find? other := by
  have : (s.removeNode path).nodes.find? other =
      (({ s with nodes := s.nodes.erase path } : Store).countAtParent path
        (· - 1)).nodes.find? other := rfl
  rw [this, find?_countAtParent, SortedMap.find?_erase]
  by_cases h : other = path
  · simp [h]
  · simp [h]

/-- A node is left alone by removals that are neither its own nor one segment below it. -/
theorem find?_removeNodes {other : String} (victims : List String) :
    ∀ s : Store, (∀ v ∈ victims, other ≠ v ∧ Path.parent? v ≠ some other) →
      (victims.foldl removeNode s).nodes.find? other = s.nodes.find? other := by
  induction victims with
  | nil => exact fun _ _ => rfl
  | cons v rest ih =>
    intro s h
    obtain ⟨hne, hparent⟩ := h v List.mem_cons_self
    rw [List.foldl_cons, ih _ fun w hw => h w (List.mem_cons_of_mem v hw), find?_removeNode,
      if_neg hne, if_neg hparent]

/-- What is one segment above a node below a path lies at or below the path itself. -/
theorem above_of_mem_descendants {v other : String} (hwf : Path.isWellFormed path = true)
    (hunder : ¬ Path.isUnder other path = true) (hv : v ∈ s.descendants path) :
    other ≠ v ∧ Path.parent? v ≠ some other := by
  have htop : path ≠ Path.top := by
    rintro rfl
    exact hunder (by simp [Path.isUnder])
  have hempty : path ≠ "" := by
    rintro rfl
    exact absurd hwf (by decide)
  obtain ⟨-, hne, hvunder⟩ := mem_descendants_iff.1 hv
  constructor
  · rintro rfl
    exact hunder hvunder
  · intro hparent
    exact hunder (Path.isUnder_parent? hempty htop hvunder hne hparent)

/-- **A successful deletion** leaves exactly the nodes that are not at or below its path: its parent
has one child less, and all others are as they were. -/
theorem find?_perform_delete (hs : s.Rooted)
    (hok : s.accepts (.delete path expected recursive) = true) (other : String) :
    (s.perform (.delete path expected recursive)).nodes.find? other =
      if Path.isUnder other path = true then none
      else if Path.parent? path = some other then
        (s.nodes.find? other).map fun n => { n with childCount := n.childCount - 1 }
      else s.nodes.find? other := by
  obtain ⟨hpath, hperform⟩ := perform_delete hok
  rw [hperform]
  by_cases hunder : Path.isUnder other path = true
  · have hgone : ((s.removals path).foldl removeNode s).has other = false := by
      rw [Bool.eq_false_iff, ne_eq, has_removeNodes, mem_removals_iff hpath]
      rintro ⟨hkept, hstored⟩
      exact hkept ⟨hstored, .inr hunder⟩
    rw [if_pos hunder]
    exact Option.not_isSome_iff_eq_none.1 (Bool.eq_false_iff.1 hgone)
  · have hne : other ≠ path := by
      rintro rfl
      exact hunder (Path.isUnder_self other)
    have hbelow : ∀ v ∈ (s.descendants path).mergeSort removedBefore,
        other ≠ v ∧ Path.parent? v ≠ some other := by
      intro v hv
      rw [List.mem_mergeSort] at hv
      exact above_of_mem_descendants (hs.wellFormed path hpath) hunder hv
    rw [if_neg hunder, removals, List.foldl_append, List.foldl_cons, List.foldl_nil,
      find?_removeNode, if_neg hne, find?_removeNodes _ s hbelow]

end Store

namespace Transcript

/-- **Calls succeed just if they should, and change nothing if they fail.**  In every state that a
store and the readers of its watches can reach: a creation succeeds just if its path is well formed,
not stored, and its parent is absent, `/` or stored, or may be created; a write just if its path is
well formed and its node is stored with the expected version; a deletion just if the same holds and
nothing is below the node or all of that may be deleted, and then exactly the node and what is below
it is gone.  A call that fails leaves the nodes and all watches with their queues as they were. -/
theorem calls_exact (acts : List Act) :
    let s := (empty.run acts).store
    (∀ path value makeParents, s.accepts (.create path value makeParents) = true ↔
      Path.isWellFormed path = true ∧ s.has path = false ∧
        (s.ParentReady path ∨ makeParents = true)) ∧
    (∀ path value expected, s.accepts (.set path value expected) = true ↔
      Path.isWellFormed path = true ∧ s.Current path expected) ∧
    (∀ path expected recursive, s.accepts (.delete path expected recursive) = true ↔
      Path.isWellFormed path = true ∧ s.Current path expected ∧
        (s.NothingBelow path ∨ recursive = true)) ∧
    (∀ path expected recursive, s.accepts (.delete path expected recursive) = true →
      ∀ other, (s.perform (.delete path expected recursive)).nodes.find? other =
        if Path.isUnder other path = true then none
        else if Path.parent? path = some other then
          (s.nodes.find? other).map fun n => { n with childCount := n.childCount - 1 }
        else s.nodes.find? other) ∧
    ∀ call, s.accepts call = false → s.perform call = s := by
  intro s
  have hs : s.Rooted := (sound_empty.run acts).rooted
  refine ⟨fun _ _ _ => Store.accepts_create_iff, fun _ _ _ => Store.accepts_set_iff,
    fun _ _ _ => Store.accepts_delete_iff, fun path expected recursive hok other => ?_,
    fun call hrefused => Store.perform_of_refused hrefused⟩
  exact Store.find?_perform_delete hs hok other

/-- A deletion from the middle of a tree that somebody watches, and one that is refused. -/
theorem calls_exact_shop :
    let acts : List Act := [.call (.create "/service/shop/a" "x" true),
      .call (.watch "/service"), .call (.set "/service/shop" "y" (some 0)), .take 0]
    let s := (empty.run acts).store
    s.accepts (.delete "/service/shop" (some 1) true) = true ∧
    (s.perform (.delete "/service/shop" (some 1) true)).nodes.find? "/service" =
      some ⟨"", 0, 0⟩ ∧
    s.accepts (.delete "/service" none false) = false ∧
    s.perform (.delete "/service" none false) = s := by
  intro acts s
  obtain ⟨-, -, -, hdelete, hrefused⟩ := calls_exact acts
  have hok : s.accepts (.delete "/service/shop" (some 1) true) = true := by decide +kernel
  have hnot : s.accepts (.delete "/service" none false) = false := by decide +kernel
  refine ⟨hok, ?_, hnot, hrefused _ hnot⟩
  rw [hdelete _ _ _ hok]
  decide +kernel

end Transcript

end Treecast
