import Mathlib.Data.List.Nodup
import Treecast.Routing.Resolution

/-!
# Links as a graph

The links in a destination's metadata make a graph of cluster names, in which a name without links
is served by itself.  The graph may hold anything: cycles, names that several others link to, names
that no node of the tree has.

A walk over links is known by how many it takes (`Destination.Walk`).  A depth-first walk visits the
links of a cluster from the left, and all that they lead to before the next one
(`Destination.DepthFirst`).

## Results

* `Destination.lt_of_follow`, `Destination.exists_follow`: links are followed to the end just if no
  walk is too long.  A cycle is a walk that is.
* `Destination.depthFirst_follow`: what is found then are the first visits of a depth-first walk.
* `Destination.physical?_walks`: the resolution of a cluster, told by the graph alone.
-/

set_option autoImplicit false

namespace Treecast.Routing.Destination

variable {d : Destination} {cluster name link target : String} {hops more : Nat}

/-! ## The graph -/

/-- A walk from a cluster to a name takes so many links. -/
inductive Walk (d : Destination) : Nat → String → String → Prop where
  | stay (cluster : String) : Walk d 0 cluster cluster
  | hop {cluster link target : String} {hops : Nat} (hlink : link ∈ d.links cluster)
      (hrest : Walk d hops link target) : Walk d (hops + 1) cluster target

/-- What a depth-first walk visits that has the clusters of a stack before it: the names without
links, in order. -/
inductive DepthFirst (d : Destination) : List String → List String → Prop where
  | done : DepthFirst d [] []
  | visit {cluster : String} {rest visited : List String} (hlinks : d.links cluster = [])
      (hrest : DepthFirst d rest visited) : DepthFirst d (cluster :: rest) (cluster :: visited)
  | enter {cluster : String} {rest visited : List String} (hlinks : d.links cluster ≠ [])
      (hinside : DepthFirst d (d.links cluster ++ rest) visited) :
      DepthFirst d (cluster :: rest) visited

/-- Metadata that is missing, blank or malformed holds no links. -/
theorem links_eq_nil_of_undecoded (h : ∀ c, d.replica.cluster? name = some c →
      Text.allBlank c.value = true ∨ ClusterMetadata.decode? c.value = none) :
    d.links name = [] := by
  unfold links
  cases hc : d.replica.cluster? name with
  | none => rfl
  | some c =>
    rcases h c hc with hblank | hnone
    · simp [ClusterMetadata.decode, ClusterMetadata.decode?, decodeText, hblank,
        ClusterMetadata.empty]
    · simp [ClusterMetadata.decode, hnone, ClusterMetadata.empty]

/-! ## Walks -/

theorem Walk.append (h : d.Walk hops cluster link) (hmore : d.Walk more link target) :
    d.Walk (hops + more) cluster target := by
  induction h with
  | stay => simpa using hmore
  | hop hlink _ ih =>
    rw [Nat.add_right_comm]
    exact .hop hlink (ih hmore)

/-- A name without links leads nowhere else. -/
theorem Walk.of_links_eq_nil (h : d.Walk hops cluster target) (hlinks : d.links cluster = []) :
    hops = 0 ∧ target = cluster := by
  cases h with
  | stay => exact ⟨rfl, rfl⟩
  | hop hlink => simp [hlinks] at hlink

/-- **A cycle** can be walked round and round. -/
theorem Walk.round (h : d.Walk (hops + 1) cluster cluster) (bound : Nat) :
    ∃ long, bound ≤ long ∧ d.Walk long cluster cluster := by
  induction bound with
  | zero => exact ⟨0, Nat.le_refl 0, .stay cluster⟩
  | succ bound ih =>
    obtain ⟨long, hle, hlong⟩ := ih
    exact ⟨hops + 1 + long, by omega, h.append hlong⟩

/-! ## Depth-first walks -/

theorem DepthFirst.append {stack rest visited others : List String}
    (h : d.DepthFirst stack visited) (hrest : d.DepthFirst rest others) :
    d.DepthFirst (stack ++ rest) (visited ++ others) := by
  induction h with
  | done => exact hrest
  | visit hlinks _ ih => exact .visit hlinks ih
  | enter hlinks _ ih =>
    rw [List.append_assoc] at ih
    exact .enter hlinks ih

theorem DepthFirst.ne_nil {stack visited : List String} (h : d.DepthFirst stack visited)
    (hstack : stack ≠ []) : visited ≠ [] := by
  induction h with
  | done => exact absurd rfl hstack
  | visit => simp
  | enter hlinks _ ih => exact ih (by simp [hlinks])

/-- **A depth-first walk visits** the names without links that there is a walk to. -/
theorem DepthFirst.mem_iff {stack visited : List String} (h : d.DepthFirst stack visited)
    (name : String) :
    name ∈ visited ↔ d.links name = [] ∧ ∃ cluster ∈ stack, ∃ hops, d.Walk hops cluster name := by
  induction h with
  | done => simp
  | @visit cluster rest visited hlinks _ ih =>
    have hfirst : d.links name = [] ∧ (∃ hops, d.Walk hops cluster name) ↔ name = cluster := by
      constructor
      · rintro ⟨-, hops, hwalk⟩
        exact (hwalk.of_links_eq_nil hlinks).2
      · rintro rfl
        exact ⟨hlinks, 0, .stay _⟩
    rw [List.mem_cons, ih, ← hfirst]
    simp only [List.mem_cons, exists_eq_or_imp, and_or_left]
  | @enter cluster rest visited hlinks _ ih =>
    rw [ih]
    -- a walk to a name without links leaves a cluster that has some
    have hfirst : d.links name = [] → ((∃ hops, d.Walk hops cluster name) ↔
        ∃ link ∈ d.links cluster, ∃ hops, d.Walk hops link name) := by
      intro hname
      constructor
      · rintro ⟨hops, hwalk⟩
        cases hwalk with
        | stay => exact absurd hname hlinks
        | hop hlink hrest => exact ⟨_, hlink, _, hrest⟩
      · rintro ⟨link, hlink, hops, hrest⟩
        exact ⟨_, .hop hlink hrest⟩
    refine and_congr_right fun hname => ?_
    simp only [List.mem_cons, List.mem_append, or_and_right, exists_or, exists_eq_left,
      hfirst hname]

/-! ## Names that are not there yet -/

theorem appendNew_cons (known : List String) (name : String) (names : List String) :
    appendNew known (name :: names) =
      appendNew (if known.contains name then known else known ++ [name]) names :=
  List.foldl_cons ..

theorem mem_appendNew {known names : List String} :
    name ∈ appendNew known names ↔ name ∈ known ∨ name ∈ names := by
  induction names generalizing known with
  | nil => simp [appendNew]
  | cons first rest ih =>
    rw [appendNew_cons, ih]
    by_cases hfirst : first ∈ known
    · simp only [List.contains_eq_mem, hfirst, decide_true, if_true, List.mem_cons]
      constructor
      · rintro (hmem | hmem)
        · exact .inl hmem
        · exact .inr (.inr hmem)
      · rintro (hmem | rfl | hmem)
        · exact .inl hmem
        · exact .inl hfirst
        · exact .inr hmem
    · simp [hfirst, or_assoc]

theorem nodup_appendNew {known names : List String} (hknown : known.Nodup) :
    (appendNew known names).Nodup := by
  induction names generalizing known with
  | nil => exact hknown
  | cons first rest ih =>
    rw [appendNew_cons]
    by_cases hfirst : first ∈ known
    · simpa [hfirst] using ih hknown
    · refine ih ?_
      simp only [List.contains_eq_mem, hfirst, decide_false, Bool.false_eq_true, if_false]
      exact List.Nodup.append hknown (List.nodup_singleton first) (by simpa using hfirst)

theorem appendNew_appendNew (known middle names : List String) :
    appendNew known (appendNew middle names) = appendNew (appendNew known middle) names := by
  induction names generalizing middle with
  | nil => rfl
  | cons first rest ih =>
    rw [appendNew_cons, appendNew_cons, ih]
    by_cases hfirst : first ∈ middle
    · simp [hfirst, mem_appendNew]
    · have hlast : appendNew known (middle ++ [first]) =
          appendNew (appendNew known middle) [first] := List.foldl_append
      rw [if_neg (by simpa using hfirst), hlast]
      rfl

/-- Appended to nothing, names are kept where they stand first. -/
theorem appendNew_eraseDups (known names : List String) :
    appendNew known.eraseDups names = (known ++ names).eraseDups := by
  induction names generalizing known with
  | nil => simp [appendNew]
  | cons first rest ih =>
    have hfirst : (known ++ [first]).eraseDups =
        if known.eraseDups.contains first then known.eraseDups
        else known.eraseDups ++ [first] := by
      rw [List.eraseDups_append]
      by_cases hmem : first ∈ known <;> simp [List.removeAll, List.eraseDups_cons, hmem]
    rw [appendNew_cons, ← hfirst, ih, List.append_assoc, List.singleton_append]

/-! ## Following links -/

/-- **Links that were followed to the end** lead into no walk that takes too many. -/
theorem lt_of_follow {trail found : List String} (h : d.follow hops trail cluster = some found)
    (hwalk : d.Walk more cluster target) : more < hops := by
  induction hops generalizing trail cluster found more with
  | zero => simp [follow] at h
  | succ hops ih =>
    cases hwalk with
    | stay => omega
    | @hop _ link _ steps hlink hrest =>
      rw [follow] at h
      split at h
      · cases h
      split at h
      · rename_i hnone
        simp [hnone] at hlink
      · -- every link was followed, and so was the one that the walk takes
        have hall : ∀ (links known : List String), links.foldlM (fun known link =>
            (d.follow hops (cluster :: trail) link).map (appendNew known)) known = some found →
            ∀ link ∈ links, ∃ names, d.follow hops (cluster :: trail) link = some names := by
          intro links
          induction links with
          | nil => simp
          | cons first rest ihlinks =>
            intro known hfold link hlink
            rw [List.foldlM_cons] at hfold
            obtain ⟨known', hfirst, hrest⟩ := Option.bind_eq_some_iff.1 hfold
            obtain ⟨names, hnames, -⟩ := Option.map_eq_some_iff.1 hfirst
            rcases List.mem_cons.1 hlink with rfl | hlink
            · exact ⟨names, hnames⟩
            · exact ihlinks known' hrest link hlink
        obtain ⟨names, hnames⟩ := hall _ _ h link hlink
        have hlt := ih hnames hrest
        omega

/-- **If no walk takes too many links** they are followed to the end. -/
theorem exists_follow {trail : List String}
    (htrail : ∀ before ∈ trail, ∃ steps, d.Walk (steps + 1) before cluster)
    (hshort : ∀ steps target, d.Walk steps cluster target → steps < hops) :
    ∃ found, d.follow hops trail cluster = some found := by
  induction hops generalizing trail cluster with
  | zero => exact absurd (hshort 0 cluster (.stay cluster)) (Nat.lt_irrefl 0)
  | succ hops ih =>
    -- a cluster on the trail would close a cycle
    have hfresh : cluster ∉ trail := by
      intro hmem
      obtain ⟨steps, hcycle⟩ := htrail cluster hmem
      obtain ⟨long, hle, hlong⟩ := hcycle.round (hops + 1)
      have hlt := hshort long cluster hlong
      omega
    have hlinks : ∀ link ∈ d.links cluster,
        ∃ names, d.follow hops (cluster :: trail) link = some names := by
      intro link hlink
      have hone : d.Walk 1 cluster link := .hop hlink (.stay link)
      refine ih (fun before hbefore => ?_) fun steps target hwalk => ?_
      · rcases List.mem_cons.1 hbefore with rfl | hbefore
        · exact ⟨0, hone⟩
        · obtain ⟨steps, hwalk⟩ := htrail before hbefore
          exact ⟨steps + 1, hwalk.append hone⟩
      · have hlt := hshort (steps + 1) target (.hop hlink hwalk)
        omega
    have hfold : ∀ (links known : List String),
        (∀ link ∈ links, ∃ names, d.follow hops (cluster :: trail) link = some names) →
        ∃ found, links.foldlM (fun known link =>
          (d.follow hops (cluster :: trail) link).map (appendNew known)) known = some found := by
      intro links
      induction links with
      | nil => exact fun known _ => ⟨known, rfl⟩
      | cons first rest ihlinks =>
        intro known hall
        obtain ⟨names, hnames⟩ := hall first List.mem_cons_self
        rw [List.foldlM_cons, hnames]
        exact ihlinks _ fun link hlink => hall link (List.mem_cons_of_mem _ hlink)
    rw [follow, if_neg (by simpa using hfresh)]
    split
    · exact ⟨_, rfl⟩
    · exact hfold _ _ hlinks

/-- **What is found at the end of links** are the first visits of a depth-first walk. -/
theorem depthFirst_follow {trail found : List String}
    (h : d.follow hops trail cluster = some found) :
    ∃ visited, d.DepthFirst [cluster] visited ∧ found = appendNew [] visited := by
  induction hops generalizing trail cluster found with
  | zero => simp [follow] at h
  | succ hops ih =>
    have hfold : ∀ (links known found : List String), links.foldlM (fun known link =>
        (d.follow hops (cluster :: trail) link).map (appendNew known)) known = some found →
        ∃ visited, d.DepthFirst links visited ∧ found = appendNew known visited := by
      intro links
      induction links with
      | nil =>
        intro known found hfound
        cases hfound
        exact ⟨[], .done, rfl⟩
      | cons first rest ihlinks =>
        intro known found hfound
        rw [List.foldlM_cons] at hfound
        obtain ⟨known', hfirst, hrest⟩ := Option.bind_eq_some_iff.1 hfound
        obtain ⟨names, hnames, rfl⟩ := Option.map_eq_some_iff.1 hfirst
        obtain ⟨inside, hinside, rfl⟩ := ih hnames
        obtain ⟨after, hafter, rfl⟩ := ihlinks _ _ hrest
        refine ⟨inside ++ after, hinside.append hafter, ?_⟩
        rw [appendNew_appendNew]
        exact (List.foldl_append ..).symm
    rw [follow] at h
    split at h
    · cases h
    split at h
    · rename_i hnone
      cases h
      exact ⟨[cluster], .visit hnone .done, rfl⟩
    · rename_i hsome
      obtain ⟨visited, hvisited, rfl⟩ := hfold _ _ _ h
      refine ⟨visited, .enter hsome ?_, rfl⟩
      rwa [List.append_nil]

/-! ## Resolution -/

/-- A name without links is served by itself. -/
theorem physical?_of_links_eq_nil (hlinks : d.links name = []) :
    d.physical? name = some [name] := by
  rw [physical?, follow, hlinks]
  rfl

/-- A cluster is served by what a depth-first walk from it visits. -/
theorem mem_physical? {found visited : List String} (hvisited : d.DepthFirst [cluster] visited)
    (hfirst : found = appendNew [] visited) (name : String) :
    name ∈ found ↔ d.links name = [] ∧ ∃ hops, d.Walk hops cluster name := by
  rw [hfirst, mem_appendNew, or_iff_right List.not_mem_nil, hvisited.mem_iff]
  simp only [List.mem_singleton, exists_eq_left]

/-- A cluster that resolves is served by some cluster. -/
theorem ne_nil_of_physical? {found : List String} (h : d.physical? cluster = some found) :
    found ≠ [] := by
  obtain ⟨visited, hvisited, rfl⟩ := depthFirst_follow h
  obtain ⟨name, hname⟩ :=
    List.exists_mem_of_ne_nil visited (hvisited.ne_nil (List.cons_ne_nil cluster []))
  exact List.ne_nil_of_mem (mem_appendNew.2 (.inr hname))

/-- It is served by each of them once. -/
theorem nodup_of_physical? {found : List String} (h : d.physical? cluster = some found) :
    found.Nodup := by
  obtain ⟨visited, -, rfl⟩ := depthFirst_follow h
  exact nodup_appendNew List.nodup_nil

/-- **The resolution of a cluster, told by the graph of links.**  Metadata that is missing, blank or
malformed holds no links.  A cluster resolves just if no walk from it takes more links than may be
followed.  It then resolves to at least one name and to each only once: to the names without links
that there is a walk to, in the order in which a depth-first walk visits them first.  Each of them
resolves to itself alone. -/
theorem physical?_walks (d : Destination) (cluster : String) :
    (∀ name, (∀ c, d.replica.cluster? name = some c →
        Text.allBlank c.value = true ∨ ClusterMetadata.decode? c.value = none) →
      d.links name = []) ∧
    ((d.physical? cluster).isSome = true ↔ ∀ hops target, d.Walk hops cluster target →
      hops ≤ d.policy.route.maxResolveDepth) ∧
    ∀ found, d.physical? cluster = some found →
      found ≠ [] ∧ found.Nodup ∧
      (∀ name, name ∈ found ↔ d.links name = [] ∧ ∃ hops, d.Walk hops cluster name) ∧
      (∃ visited, d.DepthFirst [cluster] visited ∧ found = visited.eraseDups) ∧
      ∀ name ∈ found, d.physical? name = some [name] := by
  refine ⟨fun name => links_eq_nil_of_undecoded, ?_, fun found hfound => ?_⟩
  · rw [Option.isSome_iff_exists]
    constructor
    · rintro ⟨found, hfound⟩ hops target hwalk
      exact Nat.le_of_lt_succ (lt_of_follow hfound hwalk)
    · intro hshort
      exact exists_follow (by simp) fun hops target hwalk =>
        Nat.lt_succ_of_le (hshort hops target hwalk)
  · obtain ⟨visited, hvisited, hfirst⟩ := depthFirst_follow hfound
    have hmem := mem_physical? hvisited hfirst
    refine ⟨ne_nil_of_physical? hfound, nodup_of_physical? hfound, hmem,
      ⟨visited, hvisited, ?_⟩, fun name hname => ?_⟩
    · rw [hfirst]
      exact appendNew_eraseDups [] visited
    · exact physical?_of_links_eq_nil ((hmem name).1 hname).1

end Treecast.Routing.Destination
