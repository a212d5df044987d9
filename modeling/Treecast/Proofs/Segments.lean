import Treecast.Proofs.StoreTree

/-!
# Paths as lists of segments

A well-formed path is its list of segments, and every list of segments has its path.  So the tests
that are made on the text of two paths, a first part followed by a slash, the last slash, what is
left when a first part is taken off, are tests on two lists: being under a path, being its parent
and being one of its children are the same order seen three times.

The roots of two trees have two segments each and differ in one of them, so nothing is under both.
Watches are told of a node by its path, and so no node's event waits for two holders of different
trees.

## Results

* `Path.ofNames_names`, `Path.isWellFormed_ofNames`, `Path.names_ofNames`: well-formed paths and
  lists of segments.
* `Path.isUnder_iff_prefix`, `Path.parent?_eq_some_iff`, `Path.childName?_eq_some_iff_names`: the
  tests on paths, by segments.
* `TreeKey.eq_of_isUnder_root`: a path is under the root of one tree only.
* `Store.confined_kept`, `World.confined_run`: what waits for a watch is for its root.
* `paths_by_segments`: all of it.
* `Replica.levelAt_eq_some_iff_names`: the place of a path in a tree is what its segments add to
  the root's.
* `Replica.classify_exact`: every text has a place in a tree, or none, as its grammar says.
-/

set_option autoImplicit false

namespace Treecast

/-! ## Pieces between slashes -/

namespace Replica

theorem segments_append (a b : List Char) :
    segments (a ++ '/' :: b) = segments a ++ segments b := by
  induction a with
  | nil => rfl
  | cons c rest ih =>
    rw [List.cons_append, segments, ih, segments]
    split
    · rfl
    · rcases segments_cases rest with ⟨-, hseg⟩ | ⟨x, y, -, -, hseg⟩ <;> rw [hseg] <;> rfl

theorem slash_notMem_of_mem_segments {cs s : List Char} (h : s ∈ segments cs) : '/' ∉ s := by
  induction cs generalizing s with
  | nil =>
    rw [List.mem_singleton.1 h]
    exact List.not_mem_nil
  | cons c rest ih =>
    rw [segments] at h
    split at h
    · rcases List.mem_cons.1 h with rfl | h
      · exact List.not_mem_nil
      · exact ih h
    · rename_i hc
      split at h
      · rw [List.mem_singleton.1 h]
        exact List.not_mem_cons_of_ne_of_not_mem (Ne.symm hc) List.not_mem_nil
      · rename_i first more hseg
        rcases List.mem_cons.1 h with rfl | h
        · exact List.not_mem_cons_of_ne_of_not_mem (Ne.symm hc) (ih (hseg ▸ List.mem_cons_self))
        · exact ih (hseg ▸ List.mem_cons_of_mem first h)

/-- The pieces, each after a slash of its own, are the text after a slash. -/
theorem flatMap_segments (cs : List Char) : (segments cs).flatMap ('/' :: ·) = '/' :: cs := by
  induction cs with
  | nil => rfl
  | cons c rest ih =>
    rw [segments]
    split
    · rename_i hc
      rw [List.flatMap_cons, ih, hc]
      rfl
    · split
      · rename_i hseg
        rw [hseg] at ih
        cases ih
      · rename_i first more hseg
        rw [hseg, List.flatMap_cons, List.cons_append, List.cons.injEq] at ih
        rw [List.flatMap_cons, List.cons_append, List.cons_append, ih.2]

/-- An empty piece lies between two slashes, once the text has a slash at either end. -/
theorem exists_slashes_of_nil_mem {cs : List Char} (h : [] ∈ segments cs) :
    ∃ a b, '/' :: cs ++ ['/'] = a ++ '/' :: '/' :: b := by
  rw [← flatMap_segments]
  obtain ⟨before, after, hsplit⟩ := List.append_of_mem h
  rw [hsplit, List.flatMap_append, List.flatMap_cons]
  cases after with
  | nil => exact ⟨before.flatMap ('/' :: ·), [], by simp⟩
  | cons s after =>
    exact ⟨before.flatMap ('/' :: ·), s ++ after.flatMap ('/' :: ·) ++ ['/'], by simp⟩

end Replica

/-! ## Segments of a path -/

namespace Path

variable {path base name : String} {ns : List String}

/-- The segments of a path: what stands between its slashes, less what is empty. -/
def names (path : String) : List String :=
  ((Replica.segments path.toList).filter fun s => !s.isEmpty).map String.ofList

/-- The path of these segments; `/` if there are none. -/
def ofNames (ns : List String) : String := if ns.isEmpty then top else join ns

theorem names_child (base name : String) : names (child base name) = names base ++ names name := by
  rw [names, toList_child, Replica.segments_append, List.filter_append, List.map_append]
  rfl

theorem names_of_isSegment (h : IsSegment name) : names name = [name] := by
  simp [names, Replica.segments_of_not_mem h.2, Replica.isEmpty_toList h]

theorem isSegment_of_mem_names (h : name ∈ names path) : IsSegment name := by
  obtain ⟨s, hs, rfl⟩ := List.mem_map.1 h
  obtain ⟨hmem, hne⟩ := List.mem_filter.1 hs
  exact Replica.isSegment_ofList (by simpa using hne) (Replica.slash_notMem_of_mem_segments hmem)

theorem isSegment_of_names_eq (h : names path = ns ++ [name]) : IsSegment name := by
  have hmem : name ∈ names path := h ▸ List.mem_append_right ns (List.mem_singleton_self name)
  exact isSegment_of_mem_names hmem

/-! ### Joined segments -/

theorem toList_join (h : ∀ n ∈ ns, IsSegment n) :
    (join ns).toList = ns.flatMap fun n => '/' :: n.toList := by
  rw [join, String.toList_ofList]
  exact List.flatMap_congr fun n hn => by rw [bare_of_not_mem (h n hn).2]

theorem join_concat (h : ∀ n ∈ ns ++ [name], IsSegment n) :
    join (ns ++ [name]) = child (join ns) name := by
  apply String.toList_inj.1
  rw [toList_child, toList_join h, toList_join fun n hn => h n (List.mem_append_left _ hn)]
  simp

theorem names_join (h : ∀ n ∈ ns, IsSegment n) : names (join ns) = ns := by
  induction ns using List.reverseRecOn with
  | nil => rfl
  | append_singleton ns n ih =>
    have hn := h n (List.mem_append_right _ (List.mem_singleton_self n))
    rw [join_concat h, names_child, names_of_isSegment hn,
      ih fun m hm => h m (List.mem_append_left _ hm)]

theorem join_ne_top (hne : ns ≠ []) (h : ∀ n ∈ ns, IsSegment n) : join ns ≠ top := by
  intro htop
  have hnames := names_join h
  rw [htop] at hnames
  exact hne hnames.symm

/-- The path of one segment. -/
theorem isWellFormed_slash (h : IsSegment name) : isWellFormed (child "" name) = true := by
  have hlist : (child "" name).toList = '/' :: name.toList := toList_child "" name
  refine isWellFormed_iff.2 ⟨?_, fun _ => ?_, ?_⟩ <;> rw [hlist]
  · rfl
  · exact getLast?_slash_ne h
  · exact hasEmptySegment_slash h

theorem isWellFormed_join (hne : ns ≠ []) (h : ∀ n ∈ ns, IsSegment n) :
    isWellFormed (join ns) = true := by
  induction ns using List.reverseRecOn with
  | nil => exact absurd rfl hne
  | append_singleton ns n ih =>
    have hn := h n (List.mem_append_right _ (List.mem_singleton_self n))
    have hns : ∀ m ∈ ns, IsSegment m := fun m hm => h m (List.mem_append_left _ hm)
    rw [join_concat h]
    by_cases hnil : ns = []
    · subst hnil
      exact isWellFormed_slash hn
    · exact isWellFormed_child (ih hnil hns) (join_ne_top hnil hns) hn

/-! ### Well-formed paths are lists of segments -/

theorem isWellFormed_ofNames (h : ∀ n ∈ ns, IsSegment n) : isWellFormed (ofNames ns) = true := by
  unfold ofNames
  split
  · rfl
  · rename_i hne
    exact isWellFormed_join (by simpa using hne) h

/-- **The segments of the path of segments.** -/
theorem names_ofNames (h : ∀ n ∈ ns, IsSegment n) : names (ofNames ns) = ns := by
  unfold ofNames
  split
  · rename_i hnil
    rw [List.isEmpty_iff.1 hnil]
    rfl
  · exact names_join h

/-- No piece after the first slash is empty. -/
theorem nil_notMem_segments (h : isWellFormed path = true) (htop : path ≠ top)
    {rest : List Char} (hrest : path.toList = '/' :: rest) : [] ∉ Replica.segments rest := by
  intro hmem
  obtain ⟨-, hlast, hseg⟩ := isWellFormed_iff.1 h
  rw [hrest] at hlast hseg
  obtain ⟨a, b, hab⟩ := Replica.exists_slashes_of_nil_mem hmem
  rcases List.eq_nil_or_concat b with rfl | ⟨b, c, rfl⟩
  · -- the second slash is the one that was added, so the path ends with the first one
    have hend : '/' :: rest = a ++ ['/'] :=
      List.append_cancel_right (hab.trans (List.append_assoc a ['/'] ['/']).symm)
    exact hlast htop (by rw [hend, List.getLast?_concat])
  · have hinner : '/' :: rest = a ++ '/' :: '/' :: b := by
      have hsplit : '/' :: rest ++ ['/'] = (a ++ '/' :: '/' :: b) ++ [c] := by
        rw [hab, List.concat_eq_append, List.append_assoc, List.cons_append, List.cons_append]
      exact (List.append_inj' hsplit rfl).1
    rw [hasEmptySegment_iff.2 ⟨a, b, hinner⟩] at hseg
    cases hseg

/-- The segments are the pieces after the first slash. -/
theorem names_eq_map_segments (h : isWellFormed path = true) (htop : path ≠ top)
    {rest : List Char} (hrest : path.toList = '/' :: rest) :
    names path = (Replica.segments rest).map String.ofList := by
  have hkept : ∀ s ∈ Replica.segments rest, (!s.isEmpty) = true := by
    intro s hs
    cases s with
    | nil => exact absurd hs (nil_notMem_segments h htop hrest)
    | cons c cs => rfl
  rw [names, hrest, Replica.segments, if_pos rfl, List.filter_cons_of_neg (by simp),
    List.filter_eq_self.2 hkept]

/-- **A well-formed path is the path of its segments.** -/
theorem ofNames_names (h : isWellFormed path = true) : ofNames (names path) = path := by
  by_cases htop : path = top
  · rw [htop]
    decide
  · obtain ⟨hhead, -, -⟩ := isWellFormed_iff.1 h
    obtain ⟨rest, hrest⟩ : ∃ rest, path.toList = '/' :: rest := List.head?_eq_some_iff.1 hhead
    have hnames := names_eq_map_segments h htop hrest
    have hne : (names path).isEmpty = false := by
      rcases Replica.segments_cases rest with ⟨-, hseg⟩ | ⟨x, y, -, -, hseg⟩ <;>
        rw [hnames, hseg] <;> rfl
    rw [ofNames, if_neg (by simp [hne])]
    apply String.toList_inj.1
    rw [toList_join fun n hn => isSegment_of_mem_names hn, hnames, List.flatMap_map, hrest,
      ← Replica.flatMap_segments]
    simp

theorem names_inj {p q : String} (hp : isWellFormed p = true) (hq : isWellFormed q = true)
    (h : names p = names q) : p = q := by
  rw [← ofNames_names hp, h, ofNames_names hq]

/-- What the path one segment below is made of. -/
theorem join_names (h : isWellFormed path = true) : join (names path) = stem path := by
  have hpath := ofNames_names h
  rw [ofNames] at hpath
  rw [stem]
  split at hpath
  · rename_i hnil
    rw [List.isEmpty_iff.1 hnil, if_pos hpath.symm]
    rfl
  · rename_i hne
    have htop : path ≠ top :=
      hpath ▸ join_ne_top (by simpa using hne) fun n hn => isSegment_of_mem_names hn
    rw [if_neg htop, hpath]

theorem isSegment_of_mem_concat (base : String) (hname : IsSegment name) :
    ∀ n ∈ names base ++ [name], IsSegment n := by
  intro n hn
  rcases List.mem_append.1 hn with hn | hn
  · exact isSegment_of_mem_names hn
  · rw [List.mem_singleton.1 hn]
    exact hname

/-- **One segment below a path** is the path with one segment more. -/
theorem eq_child_stem_iff (h : isWellFormed base = true) (hname : IsSegment name) :
    path = child (stem base) name ↔
      isWellFormed path = true ∧ names path = names base ++ [name] := by
  have hall := isSegment_of_mem_concat base hname
  have hchild : child (stem base) name = ofNames (names base ++ [name]) := by
    rw [ofNames, if_neg (by simp), join_concat hall, join_names h]
  rw [hchild]
  constructor
  · rintro rfl
    exact ⟨isWellFormed_ofNames hall, names_ofNames hall⟩
  · rintro ⟨hwf, hnames⟩
    rw [← hnames, ofNames_names hwf]

/-! ### The tests on paths -/

/-- What is under a path begins with its segments. -/
theorem names_prefix_of_isUnder {p q : String} (hq : q ≠ top) (h : isUnder p q = true) :
    names q <+: names p := by
  rcases (isUnder_iff hq).1 h with rfl | ⟨rest, hrest⟩
  · exact List.prefix_refl _
  · have hp : p = child q (String.ofList rest) := by
      rw [← String.toList_inj, hrest, toList_child, String.toList_ofList]
    rw [hp, names_child]
    exact List.prefix_append _ _

/-- The text of a path, from its segments. -/
theorem toList_eq_flatMap_names (h : isWellFormed path = true) (htop : path ≠ top) :
    path.toList = (names path).flatMap fun n => '/' :: n.toList := by
  rw [← toList_join fun n hn => isSegment_of_mem_names hn, join_names h, stem, if_neg htop]

/-- **Under a path** is what begins with its segments. -/
theorem isUnder_iff_prefix {p q : String} (hp : isWellFormed p = true)
    (hq : isWellFormed q = true) : isUnder p q = true ↔ names q <+: names p := by
  by_cases htop : q = top
  · subst htop
    exact iff_of_true (by simp [isUnder]) List.nil_prefix
  · refine ⟨names_prefix_of_isUnder htop, fun hprefix => (isUnder_iff htop).2 ?_⟩
    obtain ⟨more, hmore⟩ := hprefix
    cases more with
    | nil =>
      rw [List.append_nil] at hmore
      exact .inl (names_inj hp hq hmore.symm)
    | cons n more =>
      have hptop : p ≠ top := by
        rintro rfl
        exact List.cons_ne_nil _ _ (List.append_eq_nil_iff.1 hmore).2
      refine .inr ⟨n.toList ++ more.flatMap fun n => '/' :: n.toList, ?_⟩
      rw [toList_eq_flatMap_names hp hptop, ← hmore, List.flatMap_append,
        ← toList_eq_flatMap_names hq htop, List.flatMap_cons]
      rfl

/-- The root of another tree whose name begins like that of the first, and what is below `/`. -/
example : isUnder "/service/shop2/a" "/service/shop" = false ∧ isUnder "/service" "/" = true := by
  decide

theorem parent?_slash (hname : IsSegment name) : parent? (child "" name) = some top := by
  have hne : ¬ (child "" name = top ∨ child "" name = "") := by
    rw [← String.toList_inj, ← String.toList_inj, toList_child]
    have hempty := Replica.isEmpty_toList hname
    cases hn : name.toList with
    | nil => simp [hn] at hempty
    | cons c cs => simp [top]
  have hdrop : (child "" name).toList.reverse.dropWhile (· ≠ '/') = ['/'] := by
    rw [toList_child, String.toList_empty, List.nil_append, List.reverse_cons]
    exact dropWhile_append_slash (by simpa using hname.2)
  rw [parent?, if_neg hne, hdrop]

theorem parent?_child_stem (hbase : base ≠ "") (hname : IsSegment name) :
    parent? (child (stem base) name) = some base := by
  rw [stem]
  split
  · rename_i htop
    rw [htop, parent?_slash hname]
  · exact parent?_child hbase hname.2

theorem parent?_of_names_eq {p q : String} (hp : isWellFormed p = true)
    (hq : isWellFormed q = true) (hnames : names p = names q ++ [name]) : parent? p = some q := by
  have hname : IsSegment name := isSegment_of_names_eq hnames
  have hempty : q ≠ "" := by
    rintro rfl
    exact absurd hq (by decide)
  rw [(eq_child_stem_iff hq hname).2 ⟨hp, hnames⟩, parent?_child_stem hempty hname]

/-- **The parent of a path** is the path of its segments but the last. -/
theorem parent?_eq_some_iff {p q : String} (hp : isWellFormed p = true)
    (hq : isWellFormed q = true) :
    parent? p = some q ↔ ∃ name, names p = names q ++ [name] := by
  constructor
  · intro h
    rcases List.eq_nil_or_concat (names p) with hnil | ⟨ns, name, hnames⟩
    · have htop : p = top := by
        rw [← ofNames_names hp, hnil]
        rfl
      rw [htop] at h
      cases h
    · rw [List.concat_eq_append] at hnames
      have hns : ∀ n ∈ ns, IsSegment n := by
        intro n hn
        have hmem : n ∈ names p := hnames ▸ List.mem_append_left [name] hn
        exact isSegment_of_mem_names hmem
      have hparent : parent? p = some (ofNames ns) :=
        parent?_of_names_eq hp (isWellFormed_ofNames hns) (by rw [names_ofNames hns, hnames])
      rw [h, Option.some.injEq] at hparent
      exact ⟨name, by rw [hparent, names_ofNames hns, hnames]⟩
  · rintro ⟨name, hnames⟩
    exact parent?_of_names_eq hp hq hnames

/-- **The name below a path** is the one segment more. -/
theorem childName?_eq_some_iff_names (hbase : isWellFormed base = true) :
    childName? base path = some name ↔
      isWellFormed path = true ∧ names path = names base ++ [name] := by
  rw [childName?_eq_some_iff_stem]
  constructor
  · rintro ⟨hname, hpath⟩
    exact (eq_child_stem_iff hbase hname).1 hpath
  · rintro ⟨hwf, hnames⟩
    have hname : IsSegment name := isSegment_of_names_eq hnames
    exact ⟨hname, (eq_child_stem_iff hbase hname).2 ⟨hwf, hnames⟩⟩

end Path

/-! ## Places in a tree -/

namespace Level

variable {root : String} {level : Level}

/-- The segments by which a place lies below the root. -/
def names : Level → List String
  | .application => []
  | .cluster c => [c]
  | .key c k => [c, k]

theorem isProper_iff : level.IsProper ↔ ∀ n ∈ level.names, Path.IsSegment n := by
  cases level <;> simp [IsProper, names]

theorem names_path (h : level.IsProper) :
    Path.names (level.path root) = Path.names root ++ level.names := by
  cases level with
  | application => exact (List.append_nil _).symm
  | cluster c => rw [path, Path.names_child, Path.names_of_isSegment h, names]
  | key c k =>
    rw [path, Path.names_child, Path.names_child, Path.names_of_isSegment h.1,
      Path.names_of_isSegment h.2, List.append_assoc]
    rfl

theorem isWellFormed_path (hroot : Path.isWellFormed root = true) (htop : root ≠ Path.top)
    (h : level.IsProper) : Path.isWellFormed (level.path root) = true := by
  have hempty : root ≠ "" := by
    rintro rfl
    exact absurd hroot (by decide)
  cases level with
  | application => exact hroot
  | cluster c => exact Path.isWellFormed_child hroot htop h
  | key c k =>
    have hcluster := Path.isWellFormed_child hroot htop h.1
    exact Path.isWellFormed_child hcluster (Path.child_ne_top hempty) h.2

end Level

namespace Replica

/-- **The place of a well-formed path** is what its segments add to those of the root. -/
theorem levelAt_eq_some_iff_names {root path : String} {level : Level}
    (hroot : Path.isWellFormed root = true) (htop : root ≠ Path.top)
    (hpath : Path.isWellFormed path = true) :
    levelAt root path = some level ↔ Path.names path = Path.names root ++ level.names := by
  rw [levelAt_eq_some_iff]
  constructor
  · rintro ⟨hproper, rfl⟩
    exact Level.names_path hproper
  · intro hnames
    have hproper : level.IsProper := by
      refine Level.isProper_iff.2 fun n hn => ?_
      have hmem : n ∈ Path.names path := hnames ▸ List.mem_append_right _ hn
      exact Path.isSegment_of_mem_names hmem
    refine ⟨hproper, Path.names_inj hpath (Level.isWellFormed_path hroot htop hproper) ?_⟩
    rw [hnames, Level.names_path hproper]

/-- **The grammar of places.**  Whatever the root of a tree and whatever the text: it is the place of
the application exactly if it is the root, that of a cluster exactly if it is the root, a slash and
the cluster's name, and that of a key exactly if it is the root and two names, each after a slash;
a name is not empty and has no slash.  No other text has a place, and no two texts have the same
place. -/
theorem classify_exact (r : Replica) (path : String) :
    (r.classify path = some .application ↔ path = r.root) ∧
    (∀ c, r.classify path = some (.cluster c) ↔
      path = r.root ++ "/" ++ c ∧ c ≠ "" ∧ '/' ∉ c.toList) ∧
    (∀ c k, r.classify path = some (.key c k) ↔
      path = r.root ++ "/" ++ c ++ "/" ++ k ∧ (c ≠ "" ∧ '/' ∉ c.toList) ∧
        k ≠ "" ∧ '/' ∉ k.toList) ∧
    (r.classify path = none ↔ path ≠ r.root ∧
      (∀ c, c ≠ "" → '/' ∉ c.toList → path ≠ r.root ++ "/" ++ c) ∧
      ∀ c k, c ≠ "" → '/' ∉ c.toList → k ≠ "" → '/' ∉ k.toList →
        path ≠ r.root ++ "/" ++ c ++ "/" ++ k) ∧
    ∀ other, other ≠ path → (r.classify path).isSome = true →
      r.classify other ≠ r.classify path := by
  have hplace : ∀ {text level}, r.classify text = some level ↔
      level.IsProper ∧ text = level.path r.root := levelAt_eq_some_iff
  have happlication : r.classify path = some .application ↔ path = r.root :=
    hplace.trans (and_iff_right trivial)
  have hcluster : ∀ c, r.classify path = some (.cluster c) ↔
      path = r.root ++ "/" ++ c ∧ c ≠ "" ∧ '/' ∉ c.toList := fun c => hplace.trans and_comm
  have hkey : ∀ c k, r.classify path = some (.key c k) ↔
      path = r.root ++ "/" ++ c ++ "/" ++ k ∧ (c ≠ "" ∧ '/' ∉ c.toList) ∧
        k ≠ "" ∧ '/' ∉ k.toList := fun c k => hplace.trans and_comm
  refine ⟨happlication, hcluster, hkey, ⟨fun hnone => ⟨?_, ?_, ?_⟩, ?_⟩, ?_⟩
  · intro hpath
    rw [happlication.2 hpath] at hnone
    cases hnone
  · intro c hc hslash hpath
    rw [(hcluster c).2 ⟨hpath, hc, hslash⟩] at hnone
    cases hnone
  · intro c k hc hslash hk hslash' hpath
    rw [(hkey c k).2 ⟨hpath, ⟨hc, hslash⟩, hk, hslash'⟩] at hnone
    cases hnone
  · rintro ⟨hroot, hclusters, hkeys⟩
    rw [Option.eq_none_iff_forall_ne_some]
    intro level hlevel
    cases level with
    | application => exact hroot (happlication.1 hlevel)
    | cluster c =>
      obtain ⟨hpath, hc, hslash⟩ := (hcluster c).1 hlevel
      exact hclusters c hc hslash hpath
    | key c k =>
      obtain ⟨hpath, ⟨hc, hslash⟩, hk, hslash'⟩ := (hkey c k).1 hlevel
      exact hkeys c k hc hslash hk hslash' hpath
  · intro other hne hsome hsame
    obtain ⟨level, hlevel⟩ := Option.isSome_iff_exists.1 hsome
    have hother := hplace.1 (hsame.trans hlevel)
    exact hne (hother.2.trans (hplace.1 hlevel).2.symm)

/-- A sibling of a longer name, an empty name, and a path that goes too deep. -/
example : ["/service/shop2/a", "/service/shop/", "/service/shop/a/1/x"].map
    (empty "/service/shop").classify = [none, none, none] := by decide

end Replica

/-! ## Children that are listed -/

namespace Store

variable {s s' : Store} {path name : String}

theorem nodup_childNames (s : Store) (path : String) : (s.childNames path).Nodup := by
  refine List.pairwise_filterMap.2 (s.nodes.nodup_keys.imp fun {a b} hne n hn m hm heq => hne ?_)
  rw [(Path.childName?_eq_some_iff_stem.1 hn).2, (Path.childName?_eq_some_iff_stem.1 hm).2, heq]

/-- **The listed names** are those of the stored paths with one segment more. -/
theorem mem_childNames_iff (hpath : Path.isWellFormed path = true) :
    name ∈ s.childNames path ↔ ∃ below, s.has below = true ∧
      Path.isWellFormed below = true ∧ Path.names below = Path.names path ++ [name] := by
  rw [childNames, List.mem_filterMap]
  simp only [mem_keys_iff_has, Path.childName?_eq_some_iff_names hpath]

end Store

/-! ## Roots of trees -/

theorem TreeKind.name_inj {a b : TreeKind} (h : a.name = b.name) : a = b := by
  revert h
  cases a <;> cases b <;> decide

namespace TreeKey

variable {key other : TreeKey} {path : String}

/-- The root of a tree has two segments. -/
theorem names_root (h : isValidName key.application = true) :
    Path.names key.root = [key.kind.name, key.application] := by
  refine Path.names_join fun n hn => isSegment_of_isValidName ?_
  rcases List.mem_cons.1 hn with rfl | hn
  · cases key.kind <;> decide
  · rw [List.mem_singleton.1 hn]
    exact h

/-- **A path is under the root of one tree only.** -/
theorem eq_of_isUnder_root (hkey : isValidName key.application = true)
    (hother : isValidName other.application = true) (h : Path.isUnder path key.root = true)
    (h' : Path.isUnder path other.root = true) : key = other := by
  have hprefix := Path.names_prefix_of_isUnder (isRoot_root key).2 h
  have hprefix' := Path.names_prefix_of_isUnder (isRoot_root other).2 h'
  rw [names_root hkey] at hprefix
  rw [names_root hother] at hprefix'
  have hnames := (List.prefix_of_prefix_length_le hprefix hprefix' (Nat.le_refl 2)).eq_of_length rfl
  rw [List.cons.injEq, List.cons.injEq] at hnames
  obtain ⟨hkind, happlication, -⟩ := hnames
  cases key
  cases other
  rw [TreeKey.mk.injEq]
  exact ⟨happlication, TreeKind.name_inj hkind⟩

end TreeKey

/-- An event that is for the roots of two trees is about no node. -/
theorem StoreEvent.path?_eq_none {event : StoreEvent} {key other : TreeKey}
    (hkey : isValidName key.application = true) (hother : isValidName other.application = true)
    (hne : key ≠ other) (h : event.isFor key.root = true) (h' : event.isFor other.root = true) :
    event.path? = none := by
  cases hpath : event.path? with
  | none => rfl
  | some path =>
    rw [isFor, hpath, Option.all_some] at h h'
    exact absurd (TreeKey.eq_of_isUnder_root hkey hother h h') hne

/-! ## What waits for a watch -/

namespace Store

variable {s s' : Store} {id : Nat} {path : String}

/-- What waits for a watch is for its root. -/
def Confined (s : Store) : Prop :=
  ∀ w ∈ s.watches, ∀ event ∈ w.queue, event.isFor w.root = true

theorem Confined.of_watches (h : s.Confined)
    (hw : ∀ w' ∈ s'.watches, ∃ w ∈ s.watches, w'.root = w.root ∧
      ∀ event ∈ w'.queue, event ∈ w.queue ∨ event.isFor w.root = true) : s'.Confined := by
  intro w' hw' event he
  obtain ⟨x, hmem, hroot, hqueue⟩ := hw w' hw'
  rw [hroot]
  rcases hqueue event he with he | hfor
  · exact h x hmem event he
  · exact hfor

theorem Confined.publish (h : s.Confined) {event : StoreEvent} (hpath : event.path? = some path) :
    (s.publish path event).Confined := by
  refine h.of_watches fun w' hw' => ?_
  obtain ⟨w, hw, hmap⟩ := List.mem_filterMap.1 hw'
  split at hmap
  · rename_i hunder
    split at hmap <;> cases hmap
    refine ⟨w, hw, rfl, fun e he => (List.mem_append.1 he).imp_right fun he => ?_⟩
    rw [List.mem_singleton.1 he, StoreEvent.isFor, hpath, Option.all_some, hunder]
  · cases hmap
    exact ⟨w', hw, rfl, fun e he => .inl he⟩

theorem Confined.countAtParent (h : s.Confined) (path : String) (change : Nat → Nat) :
    (s.countAtParent path change).Confined := by
  intro w hw
  rw [watches_countAtParent] at hw
  exact h w hw

/-- **Single writes** tell a watch what is for its root. -/
theorem confined_kept : Kept Confined where
  add s path value h _ _ _ := by
    have hs : ({ s with nodes := s.nodes.insert path ⟨value, 0, 0⟩ } : Store).Confined := h
    exact (hs.countAtParent path (· + 1)).publish rfl
  rewrite s path node value h _ := by
    have hs : ({ s with
        nodes := s.nodes.insert path ⟨value, node.version + 1, node.childCount⟩ } :
        Store).Confined := h
    exact hs.publish rfl
  remove s path h _ _ := by
    have hs : ({ s with nodes := s.nodes.erase path } : Store).Confined := h
    exact (hs.countAtParent path (· - 1)).publish rfl
  announce s state h := by
    refine h.of_watches fun w' hw' => ?_
    obtain ⟨w, hw, rfl⟩ := List.mem_map.1 hw'
    refine ⟨w, hw, by split <;> rfl, fun event he => ?_⟩
    split at he
    · refine (List.mem_append.1 he).imp_right fun he => ?_
      rw [List.mem_singleton.1 he]
      rfl
    · exact .inl he
  watch s root h hroot := by
    rw [Store.watch, if_pos hroot]
    intro w hw event he
    rcases List.mem_append.1 hw with hw | hw
    · exact h w hw event he
    · rw [List.mem_singleton.1 hw] at he ⊢
      rcases List.mem_append.1 he with he | he
      · obtain ⟨found, hfound, rfl⟩ := List.mem_map.1 he
        exact (List.mem_filter.1 hfound).2
      · rw [List.mem_singleton.1 he]
        rfl

theorem Confined.takeFirst (h : s.Confined) (id : Nat) : (s.takeFirst id).Confined := by
  refine h.of_watches fun w' hw' => ?_
  obtain ⟨w, hw, rfl⟩ := List.mem_map.1 hw'
  refine ⟨w, hw, by split <;> rfl, fun event he => .inl ?_⟩
  split at he
  · exact List.mem_of_mem_tail he
  · exact he

theorem Confined.abandon (h : s.Confined) (id : Nat) : (s.abandon id).Confined := by
  refine h.of_watches fun w' hw' => ?_
  obtain ⟨w, hw, rfl⟩ := List.mem_map.1 hw'
  refine ⟨w, hw, by split <;> rfl, fun event he => .inl ?_⟩
  split at he <;> exact he

end Store

/-! ## What waits for holders -/

namespace World

variable {policy : Routing.Policy} {w : World}

/-- The event waits for an open holder of the tree. -/
def Awaits (w : World) (key : TreeKey) (event : StoreEvent) : Prop :=
  ∃ id h, w.holders.find? id = some h ∧ h.key = key ∧ h.isClosed = false ∧
    event ∈ w.store.pending id

/-- **Whatever happens**, what waits for a watch is for its root. -/
theorem confined_act (hw : w.Grounded) (hs : w.store.Confined) (act : Act) :
    (w.act policy act).store.Confined := by
  cases act with
  | call call => exact Store.confined_kept.perform hw.rooted hs call
  | hold key capacity =>
    have hwatch := Store.confined_kept.perform hw.rooted hs (.watch key.root)
    rw [Store.perform] at hwatch
    unfold World.act World.hold
    dsimp only
    split
    · rename_i store id heq
      rw [heq] at hwatch
      exact hwatch
    · exact hs
  | write id =>
    unfold World.act World.write
    dsimp only
    split
    · exact hs
    · split
      · exact hs.abandon id
      · split
        · exact hs
        · exact hs.takeFirst id
  | close id =>
    unfold World.act World.close
    dsimp only
    split <;> exact hs
  | start request mode caller bookmarks =>
    unfold World.act World.start
    dsimp only
    split <;> exact hs
  | read tree =>
    unfold World.act World.read
    dsimp only
    split
    · exact hs
    · split
      · split
        · exact hs
        · split <;> exact hs
      · exact hs
  | leave => exact hs

/-- **After every run** what waits for a watch is for its root, and the holders fit the store. -/
theorem confined_run (policy : Routing.Policy) (acts : List Act) :
    (empty.run policy acts).Grounded ∧ (empty.run policy acts).store.Confined := by
  have hkept : Kept policy fun _ _ => True :=
    ⟨fun _ _ _ _ _ _ => trivial, fun _ _ _ _ _ _ _ _ => trivial,
      fun _ _ _ _ _ _ _ _ _ _ _ _ => trivial, fun _ _ _ => trivial⟩
  have hrun : (empty.run policy acts).Has (fun _ _ => True) ∧
      (empty.run policy acts).store.Confined :=
    List.foldlRecOn (motive := fun w : World => w.Has (fun _ _ => True) ∧ w.store.Confined) _ _
      ⟨has_empty _, fun _ hw => absurd hw List.not_mem_nil⟩ fun _ hw act _ =>
        ⟨hkept.act hw.1 act, confined_act hw.1.grounded hw.2 act⟩
  exact ⟨hrun.1.grounded, hrun.2⟩

/-- What waits for an open holder is for the root of its tree. -/
theorem Awaits.isFor {key : TreeKey} {event : StoreEvent} (hawaits : w.Awaits key event)
    (hw : w.Grounded) (hs : w.store.Confined) : event.isFor key.root = true := by
  obtain ⟨id, h, hh, rfl, hopen, he⟩ := hawaits
  have hfits := hw.holders id h hh
  obtain ⟨x, hx, -, hroot, -⟩ := hfits.led hopen
  rw [Store.pending_of_watch? hx] at he
  rw [← hfits.root, ← hroot]
  exact hs x (List.mem_of_find?_eq_some hx) event he

/-- A node is created in one of two trees that are held: its event waits for that tree's holder. -/
example : (empty.run .standard [.hold ⟨"shop", .service⟩ 4, .hold ⟨"shop2", .service⟩ 4,
    .call (.create "/service/shop2/a" "x" true)]).Awaits ⟨"shop2", .service⟩
      (.created "/service/shop2/a" ⟨"x", 0, 0⟩) :=
  ⟨1, (Holder.create ⟨"shop2", .service⟩ 4).start, by decide +kernel, rfl, rfl, by decide +kernel⟩

end World

/-! ## All of it -/

/-- **Paths are lists of segments**, for every test that is made on them.  A well-formed path is
the path of its segments.  It is under another exactly if its segments begin with those of the
other, its parent is the path of its segments but the last, and the names listed below it are those
of the stored paths with one segment more, each once.  Valid names, at least one, are joined to a
well-formed path with these segments.

So nothing is under the roots of two trees.  An event that waits for open holders of two trees, in
whatever runs and at whatever moments, is about no node: it is the end of a replay or a change of
the session, of which every watch is told for itself. -/
theorem paths_by_segments :
    (∀ p, Path.isWellFormed p = true →
      (∀ n ∈ Path.names p, Path.IsSegment n) ∧ Path.ofNames (Path.names p) = p) ∧
    (∀ p q, Path.isWellFormed p = true → Path.isWellFormed q = true →
      (Path.isUnder p q = true ↔ Path.names q <+: Path.names p) ∧
      (Path.parent? p = some q ↔ ∃ name, Path.names p = Path.names q ++ [name])) ∧
    (∀ (s : Store) p, Path.isWellFormed p = true →
      (p = Path.top ∨ s.has p = true → s.children p = .ok (s.childNames p)) ∧
      (s.childNames p).Nodup ∧
      ∀ name, name ∈ s.childNames p ↔ ∃ below, s.has below = true ∧
        Path.isWellFormed below = true ∧ Path.names below = Path.names p ++ [name]) ∧
    (∀ ns, ns ≠ [] → (∀ n ∈ ns, isValidName n = true) →
      Path.isWellFormed (Path.join ns) = true ∧ Path.names (Path.join ns) = ns) ∧
    ∀ key other : TreeKey, isValidName key.application = true →
      isValidName other.application = true → key ≠ other →
      (∀ p, ¬ (Path.isUnder p key.root = true ∧ Path.isUnder p other.root = true)) ∧
      ∀ policy acts acts' event, (World.empty.run policy acts).Awaits key event →
        (World.empty.run policy acts').Awaits other event → event.path? = none := by
  refine ⟨fun p hp => ⟨fun n hn => Path.isSegment_of_mem_names hn, Path.ofNames_names hp⟩,
    fun p q hp hq => ⟨Path.isUnder_iff_prefix hp hq, Path.parent?_eq_some_iff hp hq⟩,
    fun s p hp => ⟨Store.children_eq_ok hp, s.nodup_childNames p,
      fun name => Store.mem_childNames_iff hp⟩,
    fun ns hne hvalid => ?_, fun key other hkey hother hne => ⟨fun p hboth => ?_, ?_⟩⟩
  · have hns : ∀ n ∈ ns, Path.IsSegment n := fun n hn => isSegment_of_isValidName (hvalid n hn)
    exact ⟨Path.isWellFormed_join hne hns, Path.names_join hns⟩
  · exact hne (TreeKey.eq_of_isUnder_root hkey hother hboth.1 hboth.2)
  · intro policy acts acts' event hawaits hawaits'
    obtain ⟨hw, hs⟩ := World.confined_run policy acts
    obtain ⟨hw', hs'⟩ := World.confined_run policy acts'
    exact StoreEvent.path?_eq_none hkey hother hne (hawaits.isFor hw hs) (hawaits'.isFor hw' hs')

end Treecast
