import Mathlib.Data.List.Induction
import Mathlib.Data.List.TakeWhile
import Treecast.Proofs.Streams

/-!
# The tree that the store keeps

A stored node carries two counts: how many nodes are one segment below it, and how often it was
set.  The first one is kept by single writes, so by all calls: a new node is counted at its parent
and has nothing below it, and a node is removed only when nothing is left below it.  The second
one is compared with the history of the store: it starts at 0 with the call that brings the node
into being and grows with every later set of the node that succeeds, and with nothing else.

## Results

* `Path.isSome_childName?_iff`: what is one segment below a path has it as its parent.
* `Store.counted_kept`, `Store.Rooted.length_childNames`: child counts along single writes.
* `Store.core?_perform_new`, `Store.core?_perform_kept`: what a call does to the version of a node.
* `Store.tree_run`: after every sequence of calls the store is a tree, every count of children is
  exact, and every version is the number of sets since the node was created.
-/

set_option autoImplicit false

namespace Treecast

namespace Path

/-- No path is its own parent. -/
theorem parent?_ne_self (path : String) : parent? path ≠ some path := by
  intro h
  by_cases htop : path = top
  · rw [htop] at h
    cases h
  · exact Nat.lt_irrefl _ (length_parent?_lt h htop)

/-- Every well-formed path other than `/` has a parent. -/
theorem exists_parent? {path : String} (hwf : isWellFormed path = true) (hne : path ≠ top) :
    ∃ parent, parent? path = some parent := by
  obtain ⟨hhead, -, -⟩ := isWellFormed_iff.1 hwf
  have hmem : '/' ∈ path.toList := List.mem_of_mem_head? hhead
  have hempty : path ≠ "" := by
    rintro rfl
    cases hhead
  rw [parent?, if_neg (not_or.2 ⟨hne, hempty⟩)]
  split
  · rename_i hdrop
    have := List.dropWhile_eq_nil_iff.1 hdrop '/' (List.mem_reverse.2 hmem)
    simp at this
  · exact ⟨_, rfl⟩
  · exact ⟨_, rfl⟩

/-- What stands before the slash in the paths one segment below `base`. -/
def stem (base : String) : String := if base = top then "" else base

/-- The path one segment below `base` by a name. -/
theorem childName?_eq_some_iff_stem {base path name : String} :
    childName? base path = some name ↔ IsSegment name ∧ path = child (stem base) name := by
  have hfront : (if base = top then ['/'] else base.toList ++ ['/']) =
      (stem base).toList ++ ['/'] := by
    unfold stem
    split <;> rfl
  rw [childName?, hfront]
  constructor
  · intro h
    split at h
    · rename_i rest hafter
      split at h
      · cases h
      · rename_i hsegment
        simp only [Bool.or_eq_true, not_or, Bool.not_eq_true, List.contains_iff_mem] at hsegment
        cases h
        refine ⟨Replica.isSegment_ofList hsegment.1 (by simpa using hsegment.2),
          String.toList_inj.1 ?_⟩
        rw [Replica.after?_eq_some_iff.1 hafter, toList_child, String.toList_ofList,
          List.append_assoc, List.singleton_append]
    · cases h
  · rintro ⟨hname, rfl⟩
    have hafter : after? ((stem base).toList ++ ['/']) (child (stem base) name).toList =
        some name.toList :=
      Replica.after?_eq_some_iff.2 (by simp)
    rw [hafter]
    simp [Replica.isEmpty_toList hname, hname.2]

theorem childName?_eq_some_iff {base path name : String} (htop : base ≠ top) :
    childName? base path = some name ↔ IsSegment name ∧ path = child base name := by
  rw [childName?_eq_some_iff_stem, stem, if_neg htop]

/-- What is one segment below a path has it as its parent. -/
theorem isSome_childName?_iff {base path : String} (hbase : base ≠ "") (htop : base ≠ top)
    (hwf : isWellFormed path = true) :
    (childName? base path).isSome = true ↔ parent? path = some base := by
  rw [Option.isSome_iff_exists]
  constructor
  · rintro ⟨name, hname⟩
    obtain ⟨hsegment, rfl⟩ := (childName?_eq_some_iff htop).1 hname
    exact parent?_child hbase hsegment.2
  · intro hparent
    obtain ⟨-, name, hslash, rfl⟩ := eq_child_of_parent? hparent htop
    refine ⟨name, (childName?_eq_some_iff htop).2 ⟨⟨?_, hslash⟩, rfl⟩⟩
    -- a well-formed path does not end with a slash
    rintro rfl
    obtain ⟨-, hlast, -⟩ := isWellFormed_iff.1 hwf
    exact hlast (child_ne_top hbase) (by simp)

end Path

namespace Store

variable {s : Store} {path : String}

/-! ## Child counts -/

/-- The child count of the node at `path`. -/
def childCount? (s : Store) (path : String) : Option Nat :=
  (s.nodes.find? path).map Node.childCount

/-- How many nodes have `path` as their parent. -/
def countBelow (s : Store) (path : String) : Nat :=
  s.nodes.keys.countP fun other => Path.parent? other = some path

theorem mem_keys_iff_has {other : String} : other ∈ s.nodes.keys ↔ s.has other = true :=
  SortedMap.mem_keys_iff

theorem childCount?_countAtParent (s : Store) (path : String) (change : Nat → Nat)
    (other : String) :
    (s.countAtParent path change).childCount? other =
      if Path.parent? path = some other then (s.childCount? other).map change
      else s.childCount? other := by
  rw [childCount?, find?_countAtParent, childCount?]
  split
  · rw [Option.map_map, Option.map_map]
    rfl
  · rfl

theorem childCount?_addNode (s : Store) (path value other : String) :
    (s.addNode path value).childCount? other =
      if other = path then some 0
      else if Path.parent? path = some other then (s.childCount? other).map (· + 1)
      else s.childCount? other := by
  have : (s.addNode path value).childCount? other =
      (({ s with nodes := s.nodes.insert path ⟨value, 0, 0⟩ } : Store).countAtParent path
        (· + 1)).childCount? other := rfl
  rw [this, childCount?_countAtParent]
  by_cases h : other = path
  · subst h
    simp [childCount?, Path.parent?_ne_self]
  · simp [childCount?, h]

theorem childCount?_removeNode (s : Store) (path other : String) :
    (s.removeNode path).childCount? other =
      if other = path then none
      else if Path.parent? path = some other then (s.childCount? other).map (· - 1)
      else s.childCount? other := by
  have : (s.removeNode path).childCount? other =
      (({ s with nodes := s.nodes.erase path } : Store).countAtParent path
        (· - 1)).childCount? other := rfl
  rw [this, childCount?_countAtParent]
  by_cases h : other = path
  · subst h
    simp [childCount?, Path.parent?_ne_self]
  · simp [childCount?, h]

theorem childCount?_rewrite {node : Node} (hnode : s.nodes.find? path = some node)
    (value : String) (version : Int) (other : String) :
    (s.rewrite path ⟨value, version, node.childCount⟩).childCount? other =
      s.childCount? other := by
  by_cases h : other = path
  · simp [childCount?, rewrite, publish, h, hnode]
  · simp [childCount?, rewrite, publish, h]

/-- Stores with the same paths have as many nodes below each path. -/
theorem countBelow_congr {s' : Store} (h : ∀ other, s'.has other = s.has other) (path : String) :
    s'.countBelow path = s.countBelow path := by
  refine List.Perm.countP_eq _ ?_
  refine (List.perm_ext_iff_of_nodup s'.nodes.nodup_keys s.nodes.nodup_keys).2 fun other => ?_
  rw [mem_keys_iff_has, mem_keys_iff_has, h]

/-- One more path is stored in the second store. -/
theorem countBelow_of_extends {s' : Store} (hnew : s.has path = false)
    (h : ∀ other, s'.has other = true ↔ other = path ∨ s.has other = true) (above : String) :
    s'.countBelow above =
      s.countBelow above + if Path.parent? path = some above then 1 else 0 := by
  have hperm : s'.nodes.keys.Perm (path :: s.nodes.keys) := by
    have hnot : path ∉ s.nodes.keys := by
      rw [mem_keys_iff_has, hnew]
      exact Bool.false_ne_true
    refine (List.perm_ext_iff_of_nodup s'.nodes.nodup_keys
      (List.nodup_cons.2 ⟨hnot, s.nodes.nodup_keys⟩)).2 fun other => ?_
    rw [mem_keys_iff_has, List.mem_cons, mem_keys_iff_has, h]
  rw [countBelow, hperm.countP_eq, List.countP_cons, countBelow]
  simp only [decide_eq_true_eq]

/-- The child count of every stored node other than `/` is the number of nodes below it. -/
def Counted (s : Store) : Prop :=
  ∀ path n, path ≠ Path.top → s.childCount? path = some n → n = s.countBelow path

theorem Counted.of_nodes_eq {s' : Store} (h : s.Counted) (hn : s'.nodes = s.nodes) :
    s'.Counted := by
  unfold Counted childCount? countBelow
  rw [hn]
  exact h

/-- Nothing is stored below a path that is not stored. -/
theorem Rooted.countBelow_eq_zero (hs : s.Rooted) (hne : path ≠ Path.top)
    (hnew : s.has path = false) : s.countBelow path = 0 := by
  refine List.countP_eq_zero.2 fun other hother => ?_
  rw [decide_eq_true_eq]
  intro hparent
  rcases hs.parents other (mem_keys_iff_has.1 hother) path hparent with htop | hstored
  · exact hne htop
  · rw [hnew] at hstored
    cases hstored

theorem Counted.addNode (h : s.Counted) (hs : s.Rooted) (value : String)
    (hnew : s.has path = false) : (s.addNode path value).Counted := by
  intro other n hne hn
  rw [countBelow_of_extends hnew (has_addNode s path value)]
  rw [childCount?_addNode] at hn
  split at hn
  · rename_i heq
    subst heq
    cases hn
    rw [hs.countBelow_eq_zero hne hnew, if_neg (Path.parent?_ne_self other)]
  · split at hn
    · rename_i hparent
      obtain ⟨m, hm, rfl⟩ := Option.map_eq_some_iff.1 hn
      rw [h other m hne hm, if_pos hparent]
    · rename_i hparent
      rw [h other n hne hn, if_neg hparent, Nat.add_zero]

theorem Counted.removeNode (h : s.Counted) (hstored : s.has path = true) :
    (s.removeNode path).Counted := by
  have hgone : (s.removeNode path).has path = false :=
    Bool.eq_false_iff.2 fun hc => ((has_removeNode s path path).1 hc).1 rfl
  have hsplit : ∀ other,
      s.has other = true ↔ other = path ∨ (s.removeNode path).has other = true := by
    intro other
    rw [has_removeNode]
    by_cases heq : other = path <;> simp [heq, hstored]
  intro other n hne hn
  have hbelow := countBelow_of_extends hgone hsplit other
  rw [childCount?_removeNode] at hn
  split at hn
  · cases hn
  · split at hn
    · rename_i hparent
      obtain ⟨m, hm, rfl⟩ := Option.map_eq_some_iff.1 hn
      rw [if_pos hparent] at hbelow
      rw [h other m hne hm, hbelow, Nat.add_sub_cancel]
    · rename_i hparent
      rw [if_neg hparent, Nat.add_zero] at hbelow
      rw [h other n hne hn, hbelow]

/-- Single writes keep the child counts exact. -/
theorem counted_kept : Kept fun s => s.Rooted ∧ s.Counted where
  add s path value hs hwf hnew hready :=
    ⟨hs.1.addNode value hwf hready, hs.2.addNode hs.1 value hnew⟩
  rewrite s path node value hs hnode := by
    refine ⟨rooted_kept.rewrite s path node value hs.1 hnode, fun other n hne hn => ?_⟩
    rw [childCount?_rewrite hnode] at hn
    rw [countBelow_congr (has_rewrite (Option.isSome_iff_exists.2 ⟨node, hnode⟩) _)]
    exact hs.2 other n hne hn
  remove s path hs hstored hbelow := ⟨hs.1.removeNode hbelow, hs.2.removeNode hstored⟩
  announce s state hs := ⟨rooted_kept.announce s state hs.1, hs.2.of_nodes_eq rfl⟩
  watch s root hs hroot := by
    refine ⟨rooted_kept.watch s root hs.1 hroot, hs.2.of_nodes_eq ?_⟩
    rw [Store.watch, if_pos hroot]

theorem counted_empty : empty.Counted := nofun

/-- As many names are listed below a path as nodes have it as their parent. -/
theorem Rooted.length_childNames (hs : s.Rooted) (hempty : path ≠ "") (htop : path ≠ Path.top) :
    (s.childNames path).length = s.countBelow path := by
  rw [childNames, List.length_filterMap_eq_countP, countBelow]
  refine List.countP_congr fun other hother => ?_
  rw [decide_eq_true_eq]
  exact Path.isSome_childName?_iff hempty htop (hs.wellFormed other (mem_keys_iff_has.1 hother))

/-- The children of `/` and of a stored node are listed. -/
theorem children_eq_ok (hwf : Path.isWellFormed path = true)
    (hstored : path = Path.top ∨ s.has path = true) :
    s.children path = .ok (s.childNames path) := by
  have hthere : ¬ (path ≠ Path.top ∧ ¬ s.has path = true) := fun h => hstored.elim h.1 h.2
  rw [children, checkPath, if_pos hwf, if_neg hthere]
  rfl

/-- The children of a stored node are listed, as many as its child count says. -/
theorem Counted.children_eq (h : s.Counted) (hs : s.Rooted) {node : Node}
    (hnode : s.nodes.find? path = some node) (htop : path ≠ Path.top) :
    s.children path = .ok (s.childNames path) ∧
      node.childCount = (s.childNames path).length := by
  have hstored : s.has path = true := Option.isSome_iff_exists.2 ⟨node, hnode⟩
  have hwf := hs.wellFormed path hstored
  have hempty : path ≠ "" := by
    rintro rfl
    exact absurd hwf (by decide)
  refine ⟨children_eq_ok hwf (.inr hstored), ?_⟩
  rw [hs.length_childNames hempty htop]
  exact h path node.childCount htop (by rw [childCount?, hnode]; rfl)

/-! ## Versions -/

/-- Whether a call sets the node at `path`. -/
def sets (s : Store) (path : String) : Call → Bool
  | .set other value expected => other = path && s.accepts (.set other value expected)
  | _ => false

/-- How many of the calls set the node at `path`, from `s` on. -/
def setsAlong (path : String) : Store → List Call → Nat
  | _, [] => 0
  | s, call :: rest => (if s.sets path call then 1 else 0) + setsAlong path (s.perform call) rest

theorem core?_of_nodes_eq {s' : Store} (hn : s'.nodes = s.nodes) (path : String) :
    s'.core? path = s.core? path := by
  rw [core?, core?, hn]

theorem core?_addNodes (paths : List String) :
    ∀ (s : Store) (other : String),
      (paths.foldl (fun s p => s.addNode p "") s).core? other =
        if other ∈ paths then some ("", 0) else s.core? other := by
  induction paths with
  | nil => exact fun _ _ => rfl
  | cons p rest ih =>
    intro s other
    rw [List.foldl_cons, ih, core?_addNode]
    by_cases hrest : other ∈ rest <;> by_cases hp : other = p <;> simp [hrest, hp]

theorem core?_removeNodes (paths : List String) :
    ∀ (s : Store) (other : String),
      (paths.foldl removeNode s).core? other = if other ∈ paths then none else s.core? other := by
  induction paths with
  | nil => exact fun _ _ => rfl
  | cons p rest ih =>
    intro s other
    rw [List.foldl_cons, ih, core?_removeNode]
    by_cases hrest : other ∈ rest <;> by_cases hp : other = p <;> simp [hrest, hp]

/-- A successful creation stores version 0 where nothing was stored, and leaves the rest alone. -/
theorem core?_perform_create {value : String} {makeParents : Bool} {made : String}
    (hok : s.accepts (.create made value makeParents) = true) (path : String) :
    (∃ v, (s.perform (.create made value makeParents)).core? path = some (v, 0)) ∧
        s.has path = false ∨
      (s.perform (.create made value makeParents)).core? path = s.core? path := by
  obtain ⟨hnew, hperform⟩ := perform_create hok
  rw [hperform, core?_addNode, core?_addNodes]
  by_cases hmade : path = made
  · subst hmade
    exact .inl ⟨⟨value, if_pos rfl⟩, hnew⟩
  · rw [if_neg hmade]
    by_cases habove : path ∈ (s.missingAncestors made).reverse
    · rw [if_pos habove]
      exact .inl ⟨⟨"", rfl⟩, has_eq_false_of_mem_missingAncestors (List.mem_reverse.1 habove)⟩
    · exact .inr (if_neg habove)

/-- A call that brings a node into being gives it version 0. -/
theorem core?_perform_new {call : Call} (hnew : s.has path = false)
    (hstored : (s.perform call).has path = true) :
    ∃ value, (s.perform call).core? path = some (value, 0) := by
  have hnone : s.core? path = none := by
    rw [has_eq_isSome_core?] at hnew
    exact Option.not_isSome_iff_eq_none.1 (Bool.eq_false_iff.1 hnew)
  have hchanged : (s.perform call).core? path ≠ s.core? path := by
    rw [hnone]
    rw [has_eq_isSome_core?] at hstored
    exact Option.isSome_iff_ne_none.1 hstored
  cases hok : s.accepts call with
  | false => exact absurd (by rw [perform_of_refused hok]) hchanged
  | true =>
    cases call with
    | create made value makeParents =>
      rcases core?_perform_create hok path with ⟨h, -⟩ | hsame
      · exact h
      · exact absurd hsame hchanged
    | set set value expected =>
      obtain ⟨node, hnode, hperform⟩ := perform_set hok
      have hhas := has_rewrite (Option.isSome_iff_exists.2 ⟨node, hnode⟩)
        ⟨value, node.version + 1, node.childCount⟩ path
      rw [hperform, hhas, hnew] at hstored
      cases hstored
    | delete root expected recursive =>
      rw [(perform_delete hok).2, has_removeNodes, hnew] at hstored
      cases hstored.2
    | announce state => exact absurd (core?_of_nodes_eq rfl path) hchanged
    | watch root =>
      refine absurd (core?_of_nodes_eq ?_ path) hchanged
      rw [perform, watch]
      split <;> rfl

/-- A call that leaves a node stored adds 1 to its version if it sets the node, and nothing if it
does not. -/
theorem core?_perform_kept {call : Call} {value : String} {version : Int}
    (hcore : s.core? path = some (value, version)) (hstored : (s.perform call).has path = true) :
    ∃ value', (s.perform call).core? path =
      some (value', version + if s.sets path call then 1 else 0) := by
  have hsame : s.sets path call = false → (s.perform call).core? path = s.core? path →
      ∃ value', (s.perform call).core? path =
        some (value', version + if s.sets path call then 1 else 0) := by
    intro hsets h
    rw [h, hcore, hsets]
    exact ⟨value, by simp⟩
  have hhas : s.has path = true := by
    rw [has_eq_isSome_core?, hcore]
    rfl
  cases hok : s.accepts call with
  | false =>
    refine hsame ?_ (by rw [perform_of_refused hok])
    cases call <;> simp_all [sets]
  | true =>
    cases call with
    | create made value' makeParents =>
      rcases core?_perform_create hok path with ⟨-, hnew⟩ | h
      · rw [hhas] at hnew
        cases hnew
      · exact hsame rfl h
    | set set value' expected =>
      obtain ⟨node, hnode, hperform⟩ := perform_set hok
      by_cases heq : set = path
      · subst heq
        rw [core?, hnode, Option.map_some] at hcore
        cases hcore
        refine ⟨value', ?_⟩
        rw [hperform, core?_rewrite, if_pos rfl, sets, hok, Bool.and_true, if_pos (by simp)]
        rfl
      · refine hsame (by simp [sets, heq]) ?_
        rw [hperform, core?_rewrite, if_neg (Ne.symm heq)]
    | delete root expected recursive =>
      have hperform := (perform_delete hok).2
      have hkept : path ∉ s.removals root := by
        rw [hperform, has_removeNodes] at hstored
        exact hstored.1
      refine hsame rfl ?_
      rw [hperform, core?_removeNodes, if_neg hkept]
    | announce state => exact hsame rfl (core?_of_nodes_eq rfl path)
    | watch root =>
      refine hsame rfl (core?_of_nodes_eq ?_ path)
      rw [perform, watch]
      split <;> rfl

/-! ## Histories -/

/-- In a history of calls that starts at `s`, `last` is the last call that brought `path` into
being: the path is stored from then on. -/
structure LastCreation (s : Store) (path : String) (calls before : List Call) (last : Call)
    (after : List Call) : Prop where
  split : calls = before ++ last :: after
  new : (s.run before).has path = false
  stored : ∀ front, front <+: after → (s.run (before ++ last :: front)).has path = true

theorem run_append (s : Store) (calls more : List Call) :
    s.run (calls ++ more) = (s.run calls).run more := List.foldl_append

theorem setsAlong_append (path : String) (calls more : List Call) :
    ∀ s : Store, setsAlong path s (calls ++ more) =
      setsAlong path s calls + setsAlong path (s.run calls) more := by
  induction calls with
  | nil => exact fun s => (Nat.zero_add _).symm
  | cons call rest ih =>
    intro s
    rw [List.cons_append, setsAlong, ih, setsAlong, Nat.add_assoc]
    rfl

/-- A node's version is the number of its sets since its last creation. -/
theorem exists_lastCreation (hnone : s.has path = false) (calls : List Call) {value : String}
    {version : Int} (hcore : (s.run calls).core? path = some (value, version)) :
    ∃ before last after, s.LastCreation path calls before last after ∧
      version = setsAlong path (s.run (before ++ [last])) after := by
  have hhas : ∀ {t : Store} {v : String} {n : Int}, t.core? path = some (v, n) →
      t.has path = true := by
    intro t v n h
    rw [has_eq_isSome_core?, h]
    rfl
  -- from the back of the history: the last call created the node or found it stored
  induction calls using List.reverseRecOn generalizing value version with
  | nil =>
    have hstored : s.has path = true := hhas hcore
    rw [hnone] at hstored
    cases hstored
  | append_singleton calls call ih =>
    have hrun : s.run (calls ++ [call]) = (s.run calls).perform call := run_append s calls [call]
    have hnow := hhas hcore
    cases hbefore : (s.run calls).has path with
    | false =>
      refine ⟨calls, call, [], ⟨rfl, hbefore, fun front hfront => ?_⟩, ?_⟩
      · rw [List.prefix_nil.1 hfront]
        exact hnow
      · obtain ⟨value', h⟩ := core?_perform_new hbefore (hrun ▸ hnow)
        rw [hrun, h] at hcore
        cases hcore
        rfl
    | true =>
      obtain ⟨⟨value₀, version₀⟩, hcore₀⟩ : ∃ core, (s.run calls).core? path = some core := by
        rw [has_eq_isSome_core?] at hbefore
        exact Option.isSome_iff_exists.1 hbefore
      obtain ⟨before, last, after, hlast, rfl⟩ := ih hcore₀
      refine ⟨before, last, after ++ [call], ⟨?_, hlast.new, fun front hfront => ?_⟩, ?_⟩
      · rw [hlast.split, List.append_assoc, List.cons_append]
      · rcases List.prefix_concat_iff.1 hfront with rfl | hfront
        · rw [← List.concat_eq_append, List.concat_eq_append, ← List.cons_append,
            ← List.append_assoc, ← hlast.split]
          exact hnow
        · exact hlast.stored front hfront
      · obtain ⟨value', h⟩ := core?_perform_kept hcore₀ (hrun ▸ hnow)
        have hsplit : s.run calls = (s.run (before ++ [last])).run after := by
          rw [← run_append, List.append_assoc, List.singleton_append, ← hlast.split]
        rw [hrun, h] at hcore
        cases hcore
        rw [setsAlong_append, ← hsplit, setsAlong, setsAlong, Nat.add_zero, Int.natCast_add]
        split <;> rfl

/-- **After every sequence of calls the store is a tree with exact counts.**  Stored paths are
well formed, the parent of a stored path other than `/` is `/` or stored, the child count of a
node other than `/` is the number of its children that are listed, and the version of a node is
the number of times it was set since the last call that created it. -/
theorem tree_run (calls : List Call) :
    (∀ path, (empty.run calls).has path = true → Path.isWellFormed path = true ∧
      (path ≠ Path.top → ∃ parent, Path.parent? path = some parent ∧
        (parent = Path.top ∨ (empty.run calls).has parent = true))) ∧
    ∀ path node, (empty.run calls).nodes.find? path = some node →
      (path ≠ Path.top → ∃ names, (empty.run calls).children path = .ok names ∧
        node.childCount = names.length) ∧
      ∃ before last after, empty.LastCreation path calls before last after ∧
        node.version = setsAlong path (empty.run (before ++ [last])) after := by
  obtain ⟨hrooted, hcounted⟩ :=
    counted_kept.run calls rooted_empty ⟨rooted_empty, counted_empty⟩
  refine ⟨fun path hpath => ?_, fun path node hnode => ⟨fun hne => ?_, ?_⟩⟩
  · have hwf := hrooted.wellFormed path hpath
    refine ⟨hwf, fun hne => ?_⟩
    obtain ⟨parent, hparent⟩ := Path.exists_parent? hwf hne
    exact ⟨parent, hparent, hrooted.parents path hpath parent hparent⟩
  · exact ⟨_, hcounted.children_eq hrooted hnode hne⟩
  · have hcore : (empty.run calls).core? path = some (node.value, node.version) := by
      rw [core?, hnode]
      rfl
    exact exists_lastCreation rfl calls hcore

/-- A node that is set, deleted with what is below it, and created and set anew, next to one whose
name begins like its own. -/
def recreated : List Call :=
  [.create "/a/b/c" "x" true, .set "/a/b" "y" none, .set "/a/b" "y" (some 7),
    .create "/a/bc" "" false, .delete "/a/b" none true, .create "/a/b" "z" false,
    .set "/a/b" "z" (some 0)]

theorem tree_run_recreated :
    (empty.run recreated).nodes.find? "/a" = some ⟨"", 0, 2⟩ ∧
    (empty.run recreated).nodes.find? "/a/b" = some ⟨"z", 1, 0⟩ ∧
    (∃ names, (empty.run recreated).children "/a" = .ok names ∧ 2 = names.length) ∧
    ∃ before last after, empty.LastCreation "/a/b" recreated before last after ∧
      (1 : Int) = setsAlong "/a/b" (empty.run (before ++ [last])) after := by
  have habove : (empty.run recreated).nodes.find? "/a" = some ⟨"", 0, 2⟩ := by decide +kernel
  have hnode : (empty.run recreated).nodes.find? "/a/b" = some ⟨"z", 1, 0⟩ := by decide +kernel
  obtain ⟨-, hnodes⟩ := tree_run recreated
  exact ⟨habove, hnode, (hnodes _ _ habove).1 (by decide), (hnodes _ _ hnode).2⟩

end Store

end Treecast
