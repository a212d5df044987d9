import Treecast.Replica

/-!
# Paths and places

A path is taken apart at its slashes.  `Path.child base name` is the path one segment below
`base`; what lies under a path other than `/` is that path itself or starts with it and a slash.

## Results

* `Path.isUnder_iff`, `Path.isUnder_trans`, `Path.depth_lt`: what lies under a path.
* `Path.parent?_child`, `Path.eq_child_of_parent?`: a parent is one segment shorter.
* `Path.lt_child`: in the order of paths a path comes before the paths below it.
* `Replica.levelAt_eq_some_iff`: the place of a path in a tree determines the path, and every
  place with proper names has its path.
-/

set_option autoImplicit false

namespace Treecast

namespace Path

/-- The path of the node called `name` below `base`. -/
def child (base name : String) : String := base ++ "/" ++ name

/-- A name that is one segment: not empty and without a slash. -/
def IsSegment (name : String) : Prop := name ≠ "" ∧ '/' ∉ name.toList

instance (name : String) : Decidable (IsSegment name) :=
  inferInstanceAs (Decidable (_ ∧ _))

@[simp] theorem toList_child (base name : String) :
    (child base name).toList = base.toList ++ '/' :: name.toList := by
  simp [child]

/-! ## What lies under a path -/

theorem isUnder_iff {path root : String} (hroot : root ≠ top) :
    isUnder path root = true ↔
      path = root ∨ ∃ rest, path.toList = root.toList ++ '/' :: rest := by
  simp only [isUnder, hroot, decide_false, Bool.false_or, Bool.or_eq_true, decide_eq_true_eq,
    List.isPrefixOf_iff_prefix]
  refine or_congr Iff.rfl ⟨?_, ?_⟩
  · rintro ⟨rest, h⟩
    exact ⟨rest, by rw [← h]; simp⟩
  · rintro ⟨rest, h⟩
    exact ⟨rest, by rw [h]; simp⟩

@[simp] theorem isUnder_self (path : String) : isUnder path path = true := by
  simp [isUnder]

theorem isUnder_trans {a b c : String} (hb : b ≠ top) (hab : isUnder a b = true)
    (hbc : isUnder b c = true) : isUnder a c = true := by
  by_cases hc : c = top
  · simp [isUnder, hc]
  · rw [isUnder_iff hb] at hab
    rw [isUnder_iff hc] at hbc ⊢
    rcases hab with rfl | ⟨r, hr⟩
    · exact hbc
    · rcases hbc with rfl | ⟨s, hs⟩
      · exact .inr ⟨r, hr⟩
      · exact .inr ⟨s ++ '/' :: r, by rw [hr, hs]; simp⟩

theorem isUnder_child {base root : String} (name : String) (hbase : base ≠ top)
    (h : isUnder base root = true) : isUnder (child base name) root = true :=
  isUnder_trans hbase ((isUnder_iff hbase).2 (.inr ⟨name.toList, toList_child base name⟩)) h

/-- A path is deeper than the path that it lies under. -/
theorem depth_lt {path root : String} (hroot : root ≠ top) (hne : path ≠ root)
    (h : isUnder path root = true) : depth root < depth path := by
  rcases (isUnder_iff hroot).1 h with h | ⟨rest, h⟩
  · exact absurd h hne
  · simp only [depth, h, List.count_append, List.count_cons_self]
    omega

/-! ## Parents -/

theorem dropWhile_append_slash {a b : List Char} (h : '/' ∉ a) :
    (a ++ '/' :: b).dropWhile (· ≠ '/') = '/' :: b := by
  induction a with
  | nil => simp
  | cons c cs ih =>
    have hc : c ≠ '/' := fun hc => h (hc ▸ List.mem_cons_self)
    rw [List.cons_append, List.dropWhile_cons_of_pos (by simpa using hc)]
    exact ih (List.not_mem_of_not_mem_cons h)

theorem parent?_child {base name : String} (hbase : base ≠ "") (hname : '/' ∉ name.toList) :
    parent? (child base name) = some base := by
  have hb : base.toList ≠ [] := fun h => hbase (String.toList_inj.1 h)
  have hne : ¬ (child base name = top ∨ child base name = "") := by
    rw [← String.toList_inj, ← String.toList_inj, toList_child]
    cases hc : base.toList with
    | nil => exact absurd hc hb
    | cons c cs => simp [top]
  have hdrop : (child base name).toList.reverse.dropWhile (· ≠ '/') =
      '/' :: base.toList.reverse := by
    rw [toList_child, List.reverse_append, List.reverse_cons, List.append_assoc]
    exact dropWhile_append_slash (by simpa using hname)
  rw [parent?, if_neg hne, hdrop]
  cases hr : base.toList.reverse with
  | nil => exact absurd (List.reverse_eq_nil_iff.1 hr) hb
  | cons c cs => simp [← hr]

/-- A parent that is not `/` is the path without its last segment. -/
theorem eq_child_of_parent? {path parent : String} (h : parent? path = some parent)
    (hparent : parent ≠ top) :
    parent ≠ "" ∧ ∃ name, '/' ∉ name.toList ∧ path = child parent name := by
  by_cases hmem : '/' ∈ path.toList.reverse
  · obtain ⟨name, above, hsplit, hname⟩ := List.eq_append_cons_of_mem hmem
    rw [parent?, hsplit, dropWhile_append_slash hname] at h
    split at h
    · cases h
    · split at h
      · cases h
      · cases h
        exact absurd rfl hparent
      · rename_i hne heq
        cases heq
        cases h
        refine ⟨fun hnil => hne ?_, String.ofList name.reverse, by simpa using hname,
          String.toList_inj.1 ?_⟩
        · have := congrArg String.toList hnil
          simpa using this
        · rw [toList_child, String.toList_ofList, String.toList_ofList, ← List.reverse_inj,
            hsplit]
          simp
  · have hall : ∀ c ∈ path.toList.reverse, (c ≠ '/') := fun c hc h => hmem (h ▸ hc)
    rw [parent?, ← List.append_nil path.toList.reverse,
      List.dropWhile_append_of_pos (by simpa using hall)] at h
    split at h <;> cases h

theorem length_parent?_lt {path parent : String} (h : parent? path = some parent)
    (hparent : parent ≠ top) : parent.length < path.length := by
  obtain ⟨-, name, -, rfl⟩ := eq_child_of_parent? h hparent
  simp only [child, String.length_append]
  have : "/".length = 1 := rfl
  omega

/-- The parent of a path that lies under another one is that one or lies under it as well. -/
theorem isUnder_parent? {path root parent : String} (hempty : root ≠ "") (hroot : root ≠ top)
    (h : isUnder path root = true) (hne : path ≠ root) (hparent : parent? path = some parent) :
    isUnder parent root = true := by
  obtain ⟨rest, hrest⟩ := ((isUnder_iff hroot).1 h).resolve_left hne
  -- the path is cut at its last slash, which is not before the one after the root
  have hmem : '/' ∈ ('/' :: rest).reverse := List.mem_reverse.2 List.mem_cons_self
  obtain ⟨name, above, hsplit, hname⟩ := List.eq_append_cons_of_mem hmem
  have hcut : '/' :: rest = above.reverse ++ '/' :: name.reverse := by
    rw [← List.reverse_inj, hsplit]
    simp
  have hpath : path = child (String.ofList (root.toList ++ above.reverse))
      (String.ofList name.reverse) := by
    apply String.toList_inj.1
    rw [hrest, hcut, toList_child, String.toList_ofList, String.toList_ofList, List.append_assoc]
  rw [hpath, parent?_child (by simp [hempty]) (by simpa using hname)] at hparent
  rw [← Option.some.inj hparent, isUnder_iff hroot]
  cases habove : above.reverse with
  | nil =>
    left
    simp
  | cons c more =>
    right
    rw [habove, List.cons_append] at hcut
    rw [← (List.cons.inj hcut).1]
    exact ⟨more, String.toList_ofList⟩

/-! ## Well-formed paths -/

theorem hasEmptySegment_iff {cs : List Char} :
    hasEmptySegment cs = true ↔ ∃ a b, cs = a ++ '/' :: '/' :: b := by
  constructor
  · intro h
    fun_induction hasEmptySegment cs with
    | case1 rest => exact ⟨[], rest, rfl⟩
    | case2 c rest hne ih =>
      obtain ⟨a, b, rfl⟩ := ih h
      exact ⟨c :: a, b, rfl⟩
    | case3 => cases h
  · rintro ⟨a, b, rfl⟩
    induction a with
    | nil => rfl
    | cons c rest ih =>
      rw [List.cons_append]
      unfold hasEmptySegment
      split
      · rfl
      · rename_i heq
        cases heq
        exact ih
      · rename_i heq
        cases heq

theorem isWellFormed_iff {path : String} :
    isWellFormed path = true ↔
      path.toList.head? = some '/' ∧ (path ≠ top → path.toList.getLast? ≠ some '/') ∧
        hasEmptySegment path.toList = false := by
  have hlen : path.toList.head? = some '/' → (path.toList.length ≤ 1 ↔ path = top) := by
    intro h
    rw [← String.toList_inj]
    cases hc : path.toList with
    | nil => rw [hc] at h; cases h
    | cons c cs =>
      rw [hc, List.head?_cons, Option.some.injEq] at h
      subst h
      cases cs <;> simp [top]
  simp only [isWellFormed, Bool.and_eq_true, Bool.or_eq_true, decide_eq_true_eq,
    Bool.not_eq_true', and_assoc]
  refine and_congr_right fun h => and_congr_left fun _ => ?_
  rw [hlen h]
  exact Decidable.or_iff_not_imp_left

theorem hasEmptySegment_append {a b : List Char} (ha : hasEmptySegment a = false)
    (hb : hasEmptySegment b = false) (h : a.getLast? ≠ some '/') :
    hasEmptySegment (a ++ b) = false := by
  induction a with
  | nil => exact hb
  | cons c rest ih =>
    have hrest : hasEmptySegment rest = false := by
      refine Bool.eq_false_iff.2 fun hc => ?_
      obtain ⟨x, y, hxy⟩ := hasEmptySegment_iff.1 hc
      rw [hasEmptySegment_iff.2 ⟨c :: x, y, by rw [hxy, List.cons_append]⟩] at ha
      cases ha
    cases rest with
    | nil =>
      have hc : c ≠ '/' := by simpa using h
      rw [List.cons_append, List.nil_append, hasEmptySegment]
      · exact hb
      · exact fun _ h => absurd h hc
    | cons d rest =>
      have hcd : ¬ (c = '/' ∧ d = '/') := by
        rintro ⟨rfl, rfl⟩
        cases ha
      rw [List.cons_append, hasEmptySegment]
      · exact ih hrest (by rwa [List.getLast?_cons_cons] at h)
      · intro _ hc hd
        cases hd
        exact hcd ⟨hc, rfl⟩

/-- A segment after its slash does not end with a slash. -/
theorem getLast?_slash_ne {name : String} (hname : IsSegment name) :
    ('/' :: name.toList).getLast? ≠ some '/' := by
  intro hlast
  cases hn : name.toList with
  | nil => exact hname.1 (String.toList_inj.1 hn)
  | cons c cs =>
    rw [hn, List.getLast?_cons_cons, ← hn] at hlast
    exact hname.2 (List.mem_of_getLast? hlast)

/-- Nor is there another slash beside it. -/
theorem hasEmptySegment_slash {name : String} (hname : IsSegment name) :
    hasEmptySegment ('/' :: name.toList) = false := by
  refine Bool.eq_false_iff.2 fun hc => ?_
  obtain ⟨a, b, hab⟩ := hasEmptySegment_iff.1 hc
  cases a with
  | nil =>
    rw [List.nil_append, List.cons.injEq] at hab
    exact hname.2 (hab.2 ▸ List.mem_cons_self)
  | cons c cs =>
    rw [List.cons_append, List.cons.injEq] at hab
    exact hname.2 (hab.2 ▸ List.mem_append_right _ List.mem_cons_self)

theorem isWellFormed_child {base name : String} (h : isWellFormed base = true) (hbase : base ≠ top)
    (hname : IsSegment name) : isWellFormed (child base name) = true := by
  obtain ⟨hhead, hlast, hseg⟩ := isWellFormed_iff.1 h
  refine isWellFormed_iff.2 ⟨?_, fun _ => ?_, ?_⟩ <;> rw [toList_child]
  · rw [List.head?_append, hhead]
    rfl
  · rw [List.getLast?_append, List.getLast?_cons, Option.some_or, ← List.getLast?_cons]
    exact getLast?_slash_ne hname
  · exact hasEmptySegment_append hseg (hasEmptySegment_slash hname) (hlast hbase)

theorem isWellFormed_parent? {path parent : String} (h : isWellFormed path = true)
    (hp : parent? path = some parent) : isWellFormed parent = true := by
  by_cases htop : parent = top
  · subst htop
    rfl
  · obtain ⟨hempty, name, -, rfl⟩ := eq_child_of_parent? hp htop
    obtain ⟨hhead, -, hseg⟩ := isWellFormed_iff.1 h
    rw [toList_child] at hhead hseg
    have hno : ∀ a b, parent.toList ++ '/' :: name.toList ≠ a ++ '/' :: '/' :: b := by
      intro a b heq
      rw [hasEmptySegment_iff.2 ⟨a, b, heq⟩] at hseg
      cases hseg
    have hne : parent.toList ≠ [] := fun hnil => hempty (String.toList_inj.1 hnil)
    refine isWellFormed_iff.2 ⟨?_, fun _ hlast => ?_, ?_⟩
    · cases hc : parent.toList with
      | nil => exact absurd hc hne
      | cons c cs => rwa [hc, List.cons_append, List.head?_cons] at hhead
    · obtain ⟨front, hfront⟩ := List.getLast?_eq_some_iff.1 hlast
      exact hno front name.toList (by rw [hfront]; simp)
    · refine Bool.eq_false_iff.2 fun hc => ?_
      obtain ⟨a, b, hab⟩ := hasEmptySegment_iff.1 hc
      exact hno a (b ++ '/' :: name.toList) (by rw [hab]; simp)

/-! ## The order of paths -/

/-- A path comes before the paths below it. -/
theorem lt_child (base name : String) : compare base (child base name) = .lt := by
  have hlt : base < child base name := by
    have happend : base.toList ++ [] < base.toList ++ '/' :: name.toList :=
      List.append_left_lt (List.nil_lt_cons '/' name.toList)
    rwa [String.lt_iff, toList_child, ← List.append_nil base.toList, List.append_assoc]
  exact if_pos hlt

end Path

namespace Level

/-- The path of a place in the tree at `root`. -/
def path (root : String) : Level → String
  | .application => root
  | .cluster c => Path.child root c
  | .key c k => Path.child (Path.child root c) k

/-- The names in a place are segments. -/
def IsProper : Level → Prop
  | .application => True
  | .cluster c => Path.IsSegment c
  | .key c k => Path.IsSegment c ∧ Path.IsSegment k

instance : (level : Level) → Decidable level.IsProper
  | .application => inferInstanceAs (Decidable True)
  | .cluster c => inferInstanceAs (Decidable (Path.IsSegment c))
  | .key c k => inferInstanceAs (Decidable (Path.IsSegment c ∧ Path.IsSegment k))

/-- Whether the second place is the first one or lies below it. -/
def covers : Level → Level → Bool
  | .application, _ => true
  | .cluster c, .cluster c' => c = c'
  | .cluster c, .key c' _ => c = c'
  | .key c k, .key c' k' => c = c' && k = k'
  | _, _ => false

end Level

namespace Replica

theorem segments_of_not_mem {cs : List Char} (h : '/' ∉ cs) : segments cs = [cs] := by
  induction cs with
  | nil => rfl
  | cons c rest ih =>
    have hc : c ≠ '/' := fun hc => h (hc ▸ List.mem_cons_self)
    rw [segments, if_neg hc, ih (List.not_mem_of_not_mem_cons h)]

theorem segments_append_slash {a b : List Char} (h : '/' ∉ a) :
    segments (a ++ '/' :: b) = a :: segments b := by
  induction a with
  | nil => simp [segments]
  | cons c rest ih =>
    have hc : c ≠ '/' := fun hc => h (hc ▸ List.mem_cons_self)
    rw [List.cons_append, segments, if_neg hc, ih (List.not_mem_of_not_mem_cons h)]

theorem segments_cases (cs : List Char) :
    ('/' ∉ cs ∧ segments cs = [cs]) ∨
      ∃ a b, '/' ∉ a ∧ cs = a ++ '/' :: b ∧ segments cs = a :: segments b := by
  by_cases h : '/' ∈ cs
  · obtain ⟨a, b, rfl, ha⟩ := List.eq_append_cons_of_mem h
    exact .inr ⟨a, b, ha, rfl, segments_append_slash ha⟩
  · exact .inl ⟨h, segments_of_not_mem h⟩

theorem after?_eq_some_iff {front cs rest : List Char} :
    Path.after? front cs = some rest ↔ cs = front ++ rest := by
  induction front generalizing cs with
  | nil => simp [Path.after?, eq_comm]
  | cons f front ih =>
    cases cs with
    | nil => simp [Path.after?]
    | cons c cs =>
      by_cases hc : f = c
      · simp [Path.after?, hc, ih]
      · simp [Path.after?, hc, Ne.symm hc]

theorem isSegment_ofList {cs : List Char} (hne : cs.isEmpty = false) (h : '/' ∉ cs) :
    Path.IsSegment (String.ofList cs) := by
  refine ⟨fun hempty => ?_, by rwa [String.toList_ofList]⟩
  have := congrArg String.toList hempty
  rw [String.toList_ofList] at this
  rw [this] at hne
  cases hne

theorem isEmpty_toList {name : String} (h : Path.IsSegment name) : name.toList.isEmpty = false := by
  cases hn : name.toList with
  | nil => exact absurd (String.toList_inj.1 hn) h.1
  | cons c cs => rfl

/-- The place of the path of a proper place is that place. -/
theorem levelAt_path (root : String) {level : Level} (h : level.IsProper) :
    levelAt root (level.path root) = some level := by
  have hafter : ∀ rest, Path.after? root.toList (root.toList ++ rest) = some rest :=
    fun rest => after?_eq_some_iff.2 rfl
  cases level with
  | application =>
    have := hafter []
    rw [List.append_nil] at this
    rw [levelAt, Level.path, this]
  | cluster c =>
    rw [levelAt, Level.path, Path.toList_child, hafter]
    simp only [segments_of_not_mem h.2, isEmpty_toList h, String.ofList_toList]
    rfl
  | key c k =>
    rw [levelAt, Level.path, Path.toList_child, Path.toList_child, List.append_assoc, hafter]
    simp only [List.cons_append, segments_append_slash h.1.2, segments_of_not_mem h.2.2,
      isEmpty_toList h.1, isEmpty_toList h.2, String.ofList_toList]
    rfl

/-- A path has a place exactly if it is the path of a proper place, which is then its place. -/
theorem levelAt_eq_some_iff {root path : String} {level : Level} :
    levelAt root path = some level ↔ level.IsProper ∧ path = level.path root := by
  refine ⟨fun h => ?_, fun h => h.2 ▸ levelAt_path root h.1⟩
  unfold levelAt at h
  split at h
  · cases h
  · rename_i hafter
    cases h
    have := after?_eq_some_iff.1 hafter
    rw [List.append_nil] at this
    exact ⟨trivial, String.toList_inj.1 this⟩
  · rename_i rest hafter
    have hpath := after?_eq_some_iff.1 hafter
    rcases segments_cases rest with ⟨hrest, hseg⟩ | ⟨a, b, ha, rfl, hseg⟩
    · simp only [hseg] at h
      split at h
      · cases h
      · rename_i hne
        cases h
        refine ⟨isSegment_ofList (by simpa using hne) hrest, String.toList_inj.1 ?_⟩
        rw [hpath, Level.path, Path.toList_child, String.toList_ofList]
    · rcases segments_cases b with ⟨hb, hsegb⟩ | ⟨a', b', _, rfl, hsegb⟩
      · simp only [hseg, hsegb] at h
        split at h
        · cases h
        · rename_i hne
          cases h
          simp only [Bool.or_eq_true, not_or, Bool.not_eq_true] at hne
          refine ⟨⟨isSegment_ofList hne.1 ha, isSegment_ofList hne.2 hb⟩, String.toList_inj.1 ?_⟩
          rw [hpath, Level.path, Path.toList_child, Path.toList_child, String.toList_ofList,
            String.toList_ofList, List.append_assoc, List.cons_append]
      · -- a third segment lies too deep
        rcases segments_cases b' with ⟨_, hsegb'⟩ | ⟨_, _, _, _, hsegb'⟩ <;>
          simp [hseg, hsegb, hsegb'] at h
  · cases h

end Replica

/-! ## Roots of trees -/

/-- What a tree's topmost path may be: neither empty nor `/`. -/
def Path.IsRoot (root : String) : Prop := root ≠ "" ∧ root ≠ Path.top

theorem Path.child_ne_top {base name : String} (h : base ≠ "") : child base name ≠ top := by
  rw [Ne, ← String.toList_inj, toList_child]
  cases hc : base.toList with
  | nil => exact absurd (String.toList_inj.1 hc) h
  | cons c cs => simp [top]

namespace Level

variable {root : String}

theorem isUnder_of_covers (hroot : Path.IsRoot root) {level below : Level}
    (h : level.covers below = true) : Path.isUnder (below.path root) (level.path root) = true := by
  have hchild : ∀ c, Path.isUnder (Path.child root c) root = true :=
    fun c => Path.isUnder_child c hroot.2 (Path.isUnder_self root)
  have hkey : ∀ c k, Path.isUnder (Path.child (Path.child root c) k) (Path.child root c) = true :=
    fun c k => Path.isUnder_child k (Path.child_ne_top hroot.1) (Path.isUnder_self _)
  cases level <;> cases below <;> simp only [covers, Bool.and_eq_true, decide_eq_true_eq] at h
  case application.application => exact Path.isUnder_self root
  case application.cluster c => exact hchild c
  case application.key c k =>
    exact Path.isUnder_trans (Path.child_ne_top hroot.1) (hkey c k) (hchild c)
  case cluster.cluster => exact h ▸ Path.isUnder_self _
  case cluster.key c c' k => exact h ▸ hkey c k
  case key.key => exact h.1 ▸ h.2 ▸ Path.isUnder_self _
  all_goals cases h

theorem isUnder_root (hroot : Path.IsRoot root) (level : Level) :
    Path.isUnder (level.path root) root = true := by
  have hcover : Level.application.covers level = true := by cases level <;> rfl
  exact isUnder_of_covers hroot hcover

theorem path_inj {level other : Level} (h : level.IsProper) (h' : other.IsProper)
    (heq : level.path root = other.path root) : level = other := by
  have := Replica.levelAt_path root h
  rw [heq, Replica.levelAt_path root h', Option.some.injEq] at this
  exact this.symm

end Level

/-- A valid name is one segment. -/
theorem isSegment_of_isValidName {name : String} (h : isValidName name = true) :
    Path.IsSegment name := by
  simp only [isValidName, Bool.and_eq_true, Bool.not_eq_true', List.isEmpty_eq_false_iff] at h
  refine ⟨fun hn => h.1.1.1.1 (by rw [hn]; rfl), fun hmem => ?_⟩
  have := List.all_eq_true.1 h.2 _ hmem
  revert this
  decide

theorem Path.bare_of_not_mem {cs : List Char} (h : '/' ∉ cs) : bare cs = cs := by
  have hdrop : ∀ ds : List Char, '/' ∉ ds → ds.dropWhile (· = '/') = ds := by
    intro ds hds
    cases ds with
    | nil => rfl
    | cons d ds =>
      exact List.dropWhile_cons_of_neg
        (by simpa using fun hd : d = '/' => hds (hd ▸ List.mem_cons_self))
  rw [bare, hdrop cs h, hdrop _ (by simpa using h), List.reverse_reverse]

namespace TreeKey

theorem toList_root (key : TreeKey) :
    key.root.toList = '/' :: (key.kind.name.toList ++ '/' :: Path.bare key.application.toList) := by
  have : Path.bare key.kind.name.toList = key.kind.name.toList := by
    cases key.kind <;> decide
  simp [root, Path.join, this]

theorem isRoot_root (key : TreeKey) : Path.IsRoot key.root := by
  constructor <;> intro h <;> have := congrArg String.toList h <;> rw [toList_root] at this
  · cases this
  · simp [Path.top] at this

/-- The tree of a valid application has a well-formed topmost path. -/
theorem isWellFormed_root {key : TreeKey} (h : isValidName key.application = true) :
    Path.isWellFormed key.root = true := by
  have hseg := isSegment_of_isValidName h
  have hroot : key.root = Path.child ("/" ++ key.kind.name) key.application := by
    apply String.toList_inj.1
    rw [toList_root, Path.toList_child, Path.bare_of_not_mem hseg.2, String.toList_append]
    rfl
  rw [hroot]
  refine Path.isWellFormed_child ?_ ?_ hseg
  · cases key.kind <;> decide
  · cases key.kind <;> decide

end TreeKey

end Treecast
