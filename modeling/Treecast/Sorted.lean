/-!
# Maps and sets in key order

`SortedMap κ ν` is a finite map kept as a list of entries whose keys strictly increase, so a
map has one representation and its listing order is the order of its keys.  The same list
operations serve JSON objects, whose members are plain entries (`Entries`).

## Results

* `Entries.insert_sorted`, `Entries.erase_sorted`, `Entries.filter_sorted`: the operations
  keep the order.
* `Entries.find?_insert`, `Entries.find?_erase`: the operations through lookup.
* `Entries.look_foldl`: what a chain of writes under different keys leaves under one key.
* `SortedMap.ext_find?`: two maps that answer every lookup alike are equal.
-/

set_option autoImplicit false

namespace Treecast

/-- Entries of a map, in listing order. -/
abbrev Entries (κ ν : Type) := List (κ × ν)

namespace Entries

variable {κ ν : Type} [Ord κ]

/-- The keys strictly increase. -/
def Sorted (entries : Entries κ ν) : Prop :=
  entries.Pairwise fun a b => compare a.1 b.1 = .lt

/-- The value under `key`. -/
def find? (key : κ) : Entries κ ν → Option ν
  | [] => none
  | (k, v) :: rest =>
    match compare key k with
    | .eq => some v
    | _ => find? key rest

/-- Sets `key` to `value`, in its place by key order. -/
def insert (key : κ) (value : ν) : Entries κ ν → Entries κ ν
  | [] => [(key, value)]
  | (k, v) :: rest =>
    match compare key k with
    | .lt => (key, value) :: (k, v) :: rest
    | .eq => (key, value) :: rest
    | .gt => (k, v) :: insert key value rest

/-- Removes the entry under `key`. -/
def erase (key : κ) : Entries κ ν → Entries κ ν
  | [] => []
  | (k, v) :: rest =>
    match compare key k with
    | .eq => rest
    | _ => (k, v) :: erase key rest

/-- Inserts one entry after another, so that the last value of a repeated key stays. -/
def ofList (entries : List (κ × ν)) : Entries κ ν :=
  entries.foldl (fun acc e => acc.insert e.1 e.2) []

theorem mem_insert [Std.LawfulEqOrd κ] {key : κ} {value : ν} {entries : Entries κ ν} {e : κ × ν} :
    e ∈ entries.insert key value → e = (key, value) ∨ e ∈ entries := by
  induction entries with
  | nil => simp [insert]
  | cons head rest ih =>
    obtain ⟨k, v⟩ := head
    unfold insert
    split
    · simp
    · intro h
      rcases List.mem_cons.1 h with h | h
      · exact .inl h
      · exact .inr (List.mem_cons_of_mem _ h)
    · intro h
      rcases List.mem_cons.1 h with h | h
      · exact .inr (h ▸ List.mem_cons_self)
      · exact (ih h).imp id (List.mem_cons_of_mem _)

theorem insert_sorted [Std.TransOrd κ] [Std.LawfulEqOrd κ] (key : κ) (value : ν)
    {entries : Entries κ ν} (h : entries.Sorted) : (entries.insert key value).Sorted := by
  induction entries with
  | nil => simp [insert, Sorted]
  | cons head rest ih =>
    obtain ⟨k, v⟩ := head
    obtain ⟨hk, hrest⟩ := List.pairwise_cons.1 h
    unfold insert
    split
    next hlt =>
      refine List.pairwise_cons.2 ⟨fun e he => ?_, h⟩
      rcases List.mem_cons.1 he with rfl | he
      · exact hlt
      · exact Std.TransCmp.lt_trans hlt (hk e he)
    next heq =>
      obtain rfl := Std.LawfulEqOrd.eq_of_compare heq
      exact List.pairwise_cons.2 ⟨hk, hrest⟩
    next hgt =>
      refine List.pairwise_cons.2 ⟨fun e he => ?_, ih hrest⟩
      rcases mem_insert he with rfl | he
      · exact Std.OrientedCmp.lt_of_gt hgt
      · exact hk e he

/-- An entry that lies after all others is listed last. -/
theorem insert_of_forall_lt [Std.OrientedOrd κ] {key : κ} (value : ν) {entries : Entries κ ν}
    (h : ∀ e ∈ entries, compare e.1 key = .lt) :
    entries.insert key value = entries ++ [(key, value)] := by
  induction entries with
  | nil => rfl
  | cons e rest ih =>
    have hgt : compare key e.1 = .gt := Std.OrientedCmp.gt_of_lt (h e List.mem_cons_self)
    have hrest := ih fun x hx => h x (List.mem_cons_of_mem e hx)
    simp only [insert, hgt, hrest, List.cons_append]

theorem erase_sublist (key : κ) (entries : Entries κ ν) : (entries.erase key).Sublist entries := by
  induction entries with
  | nil => exact List.Sublist.refl _
  | cons head rest ih =>
    obtain ⟨k, v⟩ := head
    unfold erase
    split
    · exact List.sublist_cons_self _ _
    · exact ih.cons_cons _

theorem erase_sorted (key : κ) {entries : Entries κ ν} (h : entries.Sorted) :
    (entries.erase key).Sorted :=
  List.Pairwise.sublist (erase_sublist key entries) h

theorem filter_sorted (keep : κ × ν → Bool) {entries : Entries κ ν} (h : entries.Sorted) :
    Sorted (List.filter keep entries) :=
  List.Pairwise.sublist List.filter_sublist h

theorem map_sorted {μ : Type} (f : κ → ν → μ) {entries : Entries κ ν} (h : entries.Sorted) :
    Sorted (List.map (fun e => (e.1, f e.1 e.2)) entries) :=
  List.pairwise_map.2 h

theorem foldl_insert_sorted [Std.TransOrd κ] [Std.LawfulEqOrd κ] (more : List (κ × ν)) :
    ∀ {acc : Entries κ ν}, acc.Sorted →
      Sorted (more.foldl (fun acc e => insert e.1 e.2 acc) acc) := by
  induction more with
  | nil => exact fun h => h
  | cons e rest ih => exact fun h => ih (insert_sorted e.1 e.2 h)

theorem ofList_sorted [Std.TransOrd κ] [Std.LawfulEqOrd κ] (entries : List (κ × ν)) :
    (ofList entries).Sorted :=
  foldl_insert_sorted entries List.Pairwise.nil

theorem find?_eq_none_of_forall_lt [Std.OrientedOrd κ] {key : κ} {entries : Entries κ ν}
    (h : ∀ e ∈ entries, compare key e.1 = .lt) : entries.find? key = none := by
  induction entries with
  | nil => rfl
  | cons head rest ih =>
    have hhead := h head List.mem_cons_self
    unfold find?
    simp only [hhead]
    exact ih fun e he => h e (List.mem_cons_of_mem _ he)

theorem find?_cons_self [Std.ReflOrd κ] (key : κ) (value : ν) (rest : Entries κ ν) :
    find? key ((key, value) :: rest) = some value := by
  simp [find?, Std.ReflCmp.compare_self]

theorem find?_cons_of_ne [Std.LawfulEqOrd κ] {key other : κ} (h : other ≠ key) (value : ν)
    (rest : Entries κ ν) : find? other ((key, value) :: rest) = find? other rest := by
  rw [find?]
  split
  next heq => exact absurd (Std.LawfulEqOrd.eq_of_compare heq) h
  next => rfl

theorem find?_insert [Std.TransOrd κ] [Std.LawfulEqOrd κ] [DecidableEq κ] (key : κ) (value : ν)
    (other : κ) (entries : Entries κ ν) :
    (entries.insert key value).find? other =
      if other = key then some value else entries.find? other := by
  induction entries with
  | nil =>
    by_cases h : other = key
    · subst h
      simp [insert, find?_cons_self]
    · simp [insert, find?_cons_of_ne h, h]
  | cons head rest ih =>
    obtain ⟨k, v⟩ := head
    unfold insert
    split
    next hlt =>
      by_cases h : other = key
      · subst h
        rw [find?_cons_self, if_pos rfl]
      · rw [find?_cons_of_ne h, if_neg h]
    next heq =>
      obtain rfl := Std.LawfulEqOrd.eq_of_compare heq
      by_cases h : other = key
      · subst h
        rw [find?_cons_self, if_pos rfl]
      · rw [find?_cons_of_ne h, find?_cons_of_ne h, if_neg h]
    next hgt =>
      by_cases hk : other = k
      · subst hk
        have h : other ≠ key := by
          rintro rfl
          rw [Std.ReflOrd.compare_self] at hgt
          cases hgt
        rw [find?_cons_self, find?_cons_self, if_neg h]
      · rw [find?_cons_of_ne hk, find?_cons_of_ne hk, ih]

theorem find?_erase [Std.TransOrd κ] [Std.LawfulEqOrd κ] [DecidableEq κ] (key other : κ)
    {entries : Entries κ ν} (h : entries.Sorted) :
    (entries.erase key).find? other = if other = key then none else entries.find? other := by
  induction entries with
  | nil => simp [erase, find?]
  | cons head rest ih =>
    obtain ⟨k, v⟩ := head
    obtain ⟨hk, hrest⟩ := List.pairwise_cons.1 h
    unfold erase
    split
    next heq =>
      obtain rfl := Std.LawfulEqOrd.eq_of_compare heq
      by_cases ho : other = key
      · subst ho
        rw [if_pos rfl]
        exact find?_eq_none_of_forall_lt hk
      · rw [if_neg ho, find?_cons_of_ne ho]
    next hne =>
      by_cases ho : other = k
      · subst ho
        have : other ≠ key := by
          rintro rfl
          exact hne Std.ReflOrd.compare_self
        rw [find?_cons_self, find?_cons_self, if_neg this]
      · rw [find?_cons_of_ne ho, find?_cons_of_ne ho, ih hrest]

theorem mem_of_find? [Std.LawfulEqOrd κ] {key : κ} {value : ν} {entries : Entries κ ν}
    (h : entries.find? key = some value) : (key, value) ∈ entries := by
  induction entries with
  | nil => cases h
  | cons head rest ih =>
    obtain ⟨k, v⟩ := head
    by_cases hk : key = k
    · subst hk
      rw [find?_cons_self] at h
      cases h
      exact List.mem_cons_self
    · rw [find?_cons_of_ne hk] at h
      exact List.mem_cons_of_mem _ (ih h)

/-- No key comes twice. -/
theorem ne_of_mem_tail [Std.ReflOrd κ] {k : κ} {v : ν} {rest : Entries κ ν}
    (h : Sorted ((k, v) :: rest)) {e : κ × ν} (he : e ∈ rest) : e.1 ≠ k := by
  intro heq
  have hlt : compare k e.1 = .lt := (List.pairwise_cons.1 h).1 e he
  rw [heq, Std.ReflOrd.compare_self] at hlt
  cases hlt

/-- What is listed and has a smaller key than an entry is listed before it. -/
theorem mem_left_of_lt [Std.OrientedOrd κ] {before after : Entries κ ν} {e x : κ × ν}
    (hs : Sorted (before ++ e :: after)) (hx : x ∈ before ++ e :: after)
    (hlt : compare x.1 e.1 = .lt) : x ∈ before := by
  rcases List.mem_append.1 hx with hx | hx
  · exact hx
  · exfalso
    have hgt : compare e.1 x.1 ≠ .lt := by
      rw [Std.OrientedCmp.gt_of_lt hlt]
      decide
    rcases List.mem_cons.1 hx with rfl | hx
    · exact hgt hlt
    · exact hgt ((List.pairwise_cons.1 (List.pairwise_append.1 hs).2.1).1 x hx)

theorem find?_of_mem [Std.LawfulEqOrd κ] {key : κ} {value : ν} {entries : Entries κ ν}
    (hs : entries.Sorted) (h : (key, value) ∈ entries) : entries.find? key = some value := by
  induction entries with
  | nil => cases h
  | cons head rest ih =>
    obtain ⟨k, v⟩ := head
    rcases List.mem_cons.1 h with h | h
    · cases h
      exact find?_cons_self _ _ _
    · rw [find?_cons_of_ne (ne_of_mem_tail hs h)]
      exact ih (List.pairwise_cons.1 hs).2 h

theorem find?_eq_some_iff [Std.LawfulEqOrd κ] {key : κ} {value : ν} {entries : Entries κ ν}
    (hs : entries.Sorted) : entries.find? key = some value ↔ (key, value) ∈ entries :=
  ⟨mem_of_find?, find?_of_mem hs⟩

/-- The first entry of a kind stays the first when its value changes and its kind does not. -/
theorem listFind?_insert [Std.TransOrd κ] [Std.LawfulEqOrd κ] {entries : Entries κ ν}
    (hs : entries.Sorted) {p : κ × ν → Bool} {key : κ} {old value : ν}
    (h : List.find? p entries = some (key, old)) (hp : p (key, value) = true) :
    List.find? p (entries.insert key value) = some (key, value) := by
  induction entries with
  | nil => cases h
  | cons head rest ih =>
    obtain ⟨k, v⟩ := head
    obtain ⟨hlt, hrest⟩ := List.pairwise_cons.1 hs
    rw [List.find?_cons] at h
    split at h
    · cases h
      simp [insert, Std.ReflCmp.compare_self, hp]
    · rename_i hother
      -- the entry comes later, and so it is put in its place there
      have hgt : compare key k = .gt :=
        Std.OrientedCmp.gt_of_lt (hlt _ (List.mem_of_find?_eq_some h))
      simp only [insert, hgt, List.find?_cons, hother]
      exact ih hrest h

theorem find?_eq_none_of_forall_ne [Std.LawfulEqOrd κ] {key : κ} {entries : Entries κ ν}
    (h : ∀ e ∈ entries, e.1 ≠ key) : entries.find? key = none := by
  cases hf : entries.find? key with
  | none => rfl
  | some v => exact absurd rfl (h _ (mem_of_find? hf))

/-- Sorted entries are determined by their lookups. -/
theorem ext_find? [Std.TransOrd κ] [Std.LawfulEqOrd κ] {a b : Entries κ ν} (ha : a.Sorted)
    (hb : b.Sorted) (h : ∀ key : κ, a.find? key = b.find? key) : a = b := by
  induction a generalizing b with
  | nil =>
    cases b with
    | nil => rfl
    | cons e b =>
      have := h e.1
      rw [find?_cons_self] at this
      cases this
  | cons x a ih =>
    obtain ⟨k, v⟩ := x
    have hx : find? k b = some v := by rw [← h k, find?_cons_self]
    cases b with
    | nil => cases hx
    | cons y b =>
      obtain ⟨l, w⟩ := y
      have hk : k = l := by
        -- otherwise each of the two least keys would be above the other one
        refine Classical.byContradiction fun hne => ?_
        rw [find?_cons_of_ne hne] at hx
        have hy : find? l a = some w := by
          rw [← find?_cons_of_ne (Ne.symm hne) v a, h l, find?_cons_self]
        have h1 : compare l k = .lt := (List.pairwise_cons.1 hb).1 _ (mem_of_find? hx)
        have h2 : compare k l = .lt := (List.pairwise_cons.1 ha).1 _ (mem_of_find? hy)
        rw [Std.OrientedCmp.gt_of_lt h2] at h1
        cases h1
      subst hk
      rw [find?_cons_self] at hx
      cases hx
      rw [ih (List.pairwise_cons.1 ha).2 (List.pairwise_cons.1 hb).2]
      intro key
      by_cases hk : key = k
      · subst hk
        rw [find?_eq_none_of_forall_ne fun e he => ne_of_mem_tail ha he,
          find?_eq_none_of_forall_ne fun e he => ne_of_mem_tail hb he]
      · have := h key
        rwa [find?_cons_of_ne hk, find?_cons_of_ne hk] at this

/-- Of two values that are set one after the other, the second one stays. -/
theorem insert_insert [Std.TransOrd κ] [Std.LawfulEqOrd κ] [DecidableEq κ] (key : κ)
    (value later : ν) {entries : Entries κ ν} (hs : entries.Sorted) :
    (entries.insert key value).insert key later = entries.insert key later := by
  refine ext_find? (insert_sorted key later (insert_sorted key value hs))
    (insert_sorted key later hs) fun other => ?_
  simp only [find?_insert]
  split <;> rfl

theorem find?_filter [Std.LawfulEqOrd κ] (keep : κ × ν → Bool) (key : κ) {entries : Entries κ ν}
    (hs : entries.Sorted) :
    find? key (List.filter keep entries) =
      (entries.find? key).filter fun value => keep (key, value) := by
  cases hf : find? key (List.filter keep entries) with
  | some v =>
    obtain ⟨hm, hk⟩ := List.mem_filter.1 (mem_of_find? hf)
    rw [find?_of_mem hs hm, Option.filter, if_pos hk]
  | none =>
    cases hg : entries.find? key with
    | none => rfl
    | some v =>
      by_cases hk : keep (key, v) = true
      · rw [find?_of_mem (filter_sorted keep hs) (List.mem_filter.2 ⟨mem_of_find? hg, hk⟩)] at hf
        cases hf
      · rw [Option.filter, if_neg hk]

theorem find?_map [Std.LawfulEqOrd κ] {μ : Type} (f : κ → ν → μ) (key : κ)
    (entries : Entries κ ν) :
    find? key (List.map (fun e => (e.1, f e.1 e.2)) entries) = (entries.find? key).map (f key) := by
  induction entries with
  | nil => rfl
  | cons head rest ih =>
    obtain ⟨k, v⟩ := head
    rw [List.map_cons]
    by_cases hk : key = k
    · subst hk
      rw [find?_cons_self, find?_cons_self]
      rfl
    · rw [find?_cons_of_ne hk, find?_cons_of_ne hk, ih]

/-- What a chain of writes leaves under a key, if a write turns what was under its own key into
`write value old` and leaves all other keys alone. -/
theorem look_foldl [Std.LawfulEqOrd κ] [DecidableEq κ] {σ μ : Type} (put : σ → κ → ν → σ)
    (look : σ → κ → μ) (write : ν → μ → μ)
    (h : ∀ s k v key, look (put s k v) key = if key = k then write v (look s key) else look s key)
    {entries : Entries κ ν} (hs : entries.Sorted) (s : σ) (key : κ) :
    look (entries.foldl (fun s e => put s e.1 e.2) s) key =
      match entries.find? key with
      | some value => write value (look s key)
      | none => look s key := by
  induction entries generalizing s with
  | nil => rfl
  | cons head rest ih =>
    obtain ⟨k, v⟩ := head
    rw [List.foldl_cons, ih (List.pairwise_cons.1 hs).2]
    by_cases hk : key = k
    · subst hk
      rw [find?_eq_none_of_forall_ne fun e he => ne_of_mem_tail hs he, find?_cons_self]
      simp only [h, if_true]
    · rw [find?_cons_of_ne hk, h, if_neg hk]

theorem find?_foldl_insert [Std.TransOrd κ] [Std.LawfulEqOrd κ] [DecidableEq κ]
    {more : Entries κ ν} (hs : more.Sorted) (known : Entries κ ν) (key : κ) :
    find? key (more.foldl (fun acc e => insert e.1 e.2 acc) known) =
      (more.find? key).or (known.find? key) := by
  rw [look_foldl (fun acc k v => insert k v acc) (fun acc k => find? k acc) (fun v _ => some v)
    (fun s k v key => find?_insert k v key s) hs]
  cases more.find? key <;> rfl

/-- Entries that are sorted already stay as they are. -/
theorem ofList_eq_self [Std.TransOrd κ] [Std.LawfulEqOrd κ] [DecidableEq κ]
    {entries : Entries κ ν} (hs : entries.Sorted) : ofList entries = entries :=
  ext_find? (ofList_sorted entries) hs fun key => by
    rw [ofList, find?_foldl_insert hs]
    cases entries.find? key <;> rfl

/-- The map of a function on a list of keys. -/
theorem find?_ofList_map [Std.TransOrd κ] [Std.LawfulEqOrd κ] [DecidableEq κ] (f : κ → ν)
    (keys : List κ) (key : κ) :
    find? key (ofList (keys.map fun k => (k, f k))) =
      if key ∈ keys then some (f key) else none := by
  have hfold : ∀ acc : Entries κ ν,
      find? key ((keys.map fun k => (k, f k)).foldl (fun acc e => insert e.1 e.2 acc) acc) =
        if key ∈ keys then some (f key) else acc.find? key := by
    induction keys with
    | nil => intro acc; rfl
    | cons k rest ih =>
      intro acc
      rw [List.map_cons, List.foldl_cons, ih, find?_insert]
      by_cases hr : key ∈ rest
      · simp [hr]
      · by_cases hk : key = k
        · subst hk
          simp
        · simp [hr, hk]
  exact hfold []

theorem mem_keys_iff [Std.LawfulEqOrd κ] [DecidableEq κ] {key : κ} {entries : Entries κ ν} :
    key ∈ entries.map Prod.fst ↔ (entries.find? key).isSome := by
  induction entries with
  | nil => simp [find?]
  | cons head rest ih =>
    obtain ⟨k, v⟩ := head
    rw [List.map_cons, List.mem_cons, ih]
    by_cases hk : key = k
    · subst hk
      simp [find?_cons_self]
    · simp [find?_cons_of_ne hk, hk]

end Entries

/-- A finite map whose entries are listed by strictly increasing key. -/
structure SortedMap (κ ν : Type) [Ord κ] where
  entries : Entries κ ν
  sorted : entries.Sorted
  deriving DecidableEq

namespace SortedMap

variable {κ ν μ : Type} [Ord κ]

/-- The map without entries. -/
def empty : SortedMap κ ν := ⟨[], List.Pairwise.nil⟩

instance : EmptyCollection (SortedMap κ ν) := ⟨empty⟩

instance : Inhabited (SortedMap κ ν) := ⟨empty⟩

/-- The value under `key`. -/
def find? (m : SortedMap κ ν) (key : κ) : Option ν := m.entries.find? key

def contains (m : SortedMap κ ν) (key : κ) : Bool := (m.find? key).isSome

/-- The entries by increasing key. -/
def toList (m : SortedMap κ ν) : List (κ × ν) := m.entries

/-- The keys in increasing order. -/
def keys (m : SortedMap κ ν) : List κ := m.entries.map Prod.fst

/-- The values in the order of their keys. -/
def values (m : SortedMap κ ν) : List ν := m.entries.map Prod.snd

def size (m : SortedMap κ ν) : Nat := m.entries.length

def isEmpty (m : SortedMap κ ν) : Bool := m.entries.isEmpty

/-- Removes the entry under `key`. -/
def erase (m : SortedMap κ ν) (key : κ) : SortedMap κ ν :=
  ⟨m.entries.erase key, Entries.erase_sorted key m.sorted⟩

/-- Keeps the entries that satisfy `keep`. -/
def filter (m : SortedMap κ ν) (keep : κ → ν → Bool) : SortedMap κ ν :=
  ⟨List.filter (fun e => keep e.1 e.2) m.entries, Entries.filter_sorted _ m.sorted⟩

/-- Replaces every value, given its key. -/
def map (m : SortedMap κ ν) (f : κ → ν → μ) : SortedMap κ μ :=
  ⟨List.map (fun e => (e.1, f e.1 e.2)) m.entries, Entries.map_sorted f m.sorted⟩

theorem eq_empty_of_isEmpty {m : SortedMap κ ν} (h : m.isEmpty = true) : m = empty := by
  obtain ⟨entries, hs⟩ := m
  cases entries with
  | nil => rfl
  | cons e rest => cases h

variable [Std.TransOrd κ] [Std.LawfulEqOrd κ]

def insert (m : SortedMap κ ν) (key : κ) (value : ν) : SortedMap κ ν :=
  ⟨m.entries.insert key value, Entries.insert_sorted key value m.sorted⟩

/-- Replaces the value under `key`, if there is one. -/
def modify (m : SortedMap κ ν) (key : κ) (f : ν → ν) : SortedMap κ ν :=
  match m.find? key with
  | some value => m.insert key (f value)
  | none => m

/-- The map of a list of entries; the last value of a repeated key stays. -/
def ofList (entries : List (κ × ν)) : SortedMap κ ν :=
  ⟨Entries.ofList entries, Entries.ofList_sorted entries⟩

/-- Both maps together; the second one's value stays where both have one. -/
def union (m other : SortedMap κ ν) : SortedMap κ ν :=
  other.entries.foldl (fun acc e => acc.insert e.1 e.2) m

omit [Std.TransOrd κ] [Std.LawfulEqOrd κ] in
@[simp] theorem find?_empty (key : κ) : (empty : SortedMap κ ν).find? key = none := rfl

variable [DecidableEq κ]

@[simp] theorem find?_insert (m : SortedMap κ ν) (key : κ) (value : ν) (other : κ) :
    (m.insert key value).find? other = if other = key then some value else m.find? other :=
  Entries.find?_insert key value other m.entries

@[simp] theorem find?_erase (m : SortedMap κ ν) (key other : κ) :
    (m.erase key).find? other = if other = key then none else m.find? other :=
  Entries.find?_erase key other m.sorted

@[simp] theorem find?_modify (m : SortedMap κ ν) (key : κ) (f : ν → ν) (other : κ) :
    (m.modify key f).find? other = if other = key then (m.find? key).map f else m.find? other := by
  unfold modify
  split
  next value hv => rw [find?_insert, hv, Option.map_some]
  next hnone =>
    rw [hnone]
    by_cases h : other = key
    · rw [if_pos h, h, hnone, Option.map_none]
    · rw [if_neg h]

omit [Std.TransOrd κ] [DecidableEq κ] in
@[simp] theorem find?_map (m : SortedMap κ ν) (f : κ → ν → μ) (key : κ) :
    (m.map f).find? key = (m.find? key).map (f key) :=
  Entries.find?_map f key m.entries

omit [Std.TransOrd κ] [DecidableEq κ] in
@[simp] theorem find?_filter (m : SortedMap κ ν) (keep : κ → ν → Bool) (key : κ) :
    (m.filter keep).find? key = (m.find? key).filter (keep key) :=
  Entries.find?_filter (fun e => keep e.1 e.2) key m.sorted

theorem find?_union (m other : SortedMap κ ν) (key : κ) :
    (m.union other).find? key = (other.find? key).or (m.find? key) := by
  refine (Entries.look_foldl insert find? (fun v _ => some v) find?_insert other.sorted m
    key).trans ?_
  rw [show other.find? key = other.entries.find? key from rfl]
  cases other.entries.find? key <;> rfl

theorem find?_ofList_map (f : κ → ν) (keys : List κ) (key : κ) :
    (ofList (keys.map fun k => (k, f k))).find? key =
      if key ∈ keys then some (f key) else none :=
  Entries.find?_ofList_map f keys key

omit [DecidableEq κ] in
/-- A map is determined by its lookups. -/
theorem ext_find? {m other : SortedMap κ ν} (h : ∀ key, m.find? key = other.find? key) :
    m = other := by
  cases m with
  | mk a ha =>
    cases other with
    | mk b hb =>
      have : a = b := Entries.ext_find? ha hb h
      subst this
      rfl

theorem map_insert (m : SortedMap κ ν) (f : κ → ν → μ) (key : κ) (value : ν) :
    (m.insert key value).map f = (m.map f).insert key (f key value) := by
  refine ext_find? fun other => ?_
  simp only [find?_map, find?_insert]
  split
  · rename_i heq
    rw [heq, Option.map_some]
  · rfl

theorem map_erase (m : SortedMap κ ν) (f : κ → ν → μ) (key : κ) :
    (m.erase key).map f = (m.map f).erase key := by
  refine ext_find? fun other => ?_
  simp only [find?_map, find?_erase]
  split <;> rfl

omit [Std.TransOrd κ] in
theorem mem_keys_iff {m : SortedMap κ ν} {key : κ} : key ∈ m.keys ↔ (m.find? key).isSome :=
  Entries.mem_keys_iff

omit [Std.TransOrd κ] [Std.LawfulEqOrd κ] [DecidableEq κ] in
theorem nodup_keys [Std.ReflOrd κ] (m : SortedMap κ ν) : m.keys.Nodup := by
  refine List.pairwise_map.2 (m.sorted.imp fun {a b} h heq => ?_)
  rw [show compare a.1 b.1 = .eq from heq ▸ Std.ReflOrd.compare_self] at h
  cases h

omit [Std.TransOrd κ] [DecidableEq κ] in
theorem mem_toList_iff {m : SortedMap κ ν} {key : κ} {value : ν} :
    (key, value) ∈ m.toList ↔ m.find? key = some value :=
  (Entries.find?_eq_some_iff m.sorted).symm

omit [Std.TransOrd κ] [Std.LawfulEqOrd κ] [DecidableEq κ] in
theorem nodup_toList [Std.ReflOrd κ] (m : SortedMap κ ν) : m.toList.Nodup :=
  (List.pairwise_map.1 m.nodup_keys).imp fun hne heq => hne (congrArg Prod.fst heq)

omit [Std.TransOrd κ] [DecidableEq κ] in
/-- Where no two keys have the same value, every value is listed once. -/
theorem nodup_values {m : SortedMap κ ν} (h : ∀ key other value,
    m.find? key = some value → m.find? other = some value → key = other) : m.values.Nodup := by
  refine List.pairwise_map.2 (m.sorted.imp_of_mem fun {a b} ha hb hlt heq => ?_)
  have hother : m.find? b.1 = some a.2 := heq ▸ mem_toList_iff.1 hb
  rw [h a.1 b.1 a.2 (mem_toList_iff.1 ha) hother, Std.ReflOrd.compare_self] at hlt
  cases hlt

/-- An entry and all others. -/
theorem toList_perm_of_find? {m : SortedMap κ ν} {key : κ} {value : ν}
    (h : m.find? key = some value) : m.toList.Perm ((key, value) :: (m.erase key).toList) := by
  have hnot : (key, value) ∉ (m.erase key).toList := by
    rw [mem_toList_iff, find?_erase, if_pos rfl]
    exact nofun
  refine (List.perm_ext_iff_of_nodup m.nodup_toList
    (List.nodup_cons.2 ⟨hnot, nodup_toList _⟩)).2 fun e => ?_
  obtain ⟨k, v⟩ := e
  rw [List.mem_cons, mem_toList_iff, mem_toList_iff, find?_erase]
  by_cases hk : k = key
  · subst hk
    rw [h, if_pos rfl]
    simp [eq_comm]
  · rw [if_neg hk]
    simp [hk]

/-- A new entry takes the place of the former one, if there was one. -/
theorem toList_insert_perm (m : SortedMap κ ν) (key : κ) (value : ν) :
    (m.insert key value).toList.Perm ((key, value) :: (m.erase key).toList) := by
  have herase : (m.insert key value).erase key = m.erase key := by
    refine ext_find? fun other => ?_
    simp only [find?_erase, find?_insert]
    split <;> rfl
  rw [← herase]
  exact toList_perm_of_find? (by rw [find?_insert, if_pos rfl])

/-- Counting the values of a map, one of them apart. -/
theorem countP_values_of_find? {m : SortedMap κ ν} {key : κ} {value : ν}
    (h : m.find? key = some value) (p : ν → Bool) :
    m.values.countP p = (m.erase key).values.countP p + if p value then 1 else 0 := by
  have hperm := (toList_perm_of_find? h).map Prod.snd
  exact (hperm.countP_eq p).trans List.countP_cons

theorem countP_values_insert (m : SortedMap κ ν) (key : κ) (value : ν) (p : ν → Bool) :
    (m.insert key value).values.countP p =
      (m.erase key).values.countP p + if p value then 1 else 0 := by
  have hperm := (m.toList_insert_perm key value).map Prod.snd
  exact (hperm.countP_eq p).trans List.countP_cons

/-- Setting a key to the value that it has changes nothing. -/
theorem insert_of_find? {m : SortedMap κ ν} {key : κ} {value : ν} (h : m.find? key = some value) :
    m.insert key value = m := by
  refine ext_find? fun other => ?_
  rw [find?_insert]
  split
  · rename_i heq
    rw [heq, h]
  · rfl

theorem erase_of_find?_eq_none {m : SortedMap κ ν} {key : κ} (h : m.find? key = none) :
    m.erase key = m := by
  refine ext_find? fun other => ?_
  rw [find?_erase]
  split
  · rename_i heq
    rw [heq, h]
  · rfl

end SortedMap

/-- A finite set listed in increasing order. -/
abbrev SortedSet (κ : Type) [Ord κ] := SortedMap κ Unit

namespace SortedSet

variable {κ : Type} [Ord κ]

def has (s : SortedSet κ) (x : κ) : Bool := s.contains x

/-- The members in increasing order. -/
def elements (s : SortedSet κ) : List κ := s.keys

variable [Std.TransOrd κ] [Std.LawfulEqOrd κ]

def add (s : SortedSet κ) (x : κ) : SortedSet κ := s.insert x ()

/-- The set of a list's members. -/
def ofElements (xs : List κ) : SortedSet κ := xs.foldl add SortedMap.empty

variable [DecidableEq κ]

theorem has_add (s : SortedSet κ) (x y : κ) : (s.add x).has y = (decide (y = x) || s.has y) := by
  rw [has, SortedMap.contains, add, SortedMap.find?_insert, has, SortedMap.contains]
  by_cases h : y = x <;> simp [h]

theorem mem_elements_add {s : SortedSet κ} {x y : κ} :
    y ∈ (s.add x).elements ↔ y = x ∨ y ∈ s.elements := by
  rw [elements, SortedMap.mem_keys_iff, add, SortedMap.find?_insert, elements,
    SortedMap.mem_keys_iff]
  by_cases h : y = x <;> simp [h]

theorem mem_elements_foldl_add {xs : List κ} {y : κ} :
    ∀ {s : SortedSet κ}, y ∈ (xs.foldl add s).elements ↔ y ∈ xs ∨ y ∈ s.elements := by
  induction xs with
  | nil => exact ⟨.inr, fun h => h.resolve_left List.not_mem_nil⟩
  | cons x rest ih =>
    intro s
    rw [List.foldl_cons, ih, mem_elements_add, List.mem_cons, or_left_comm, or_assoc]

theorem mem_elements_ofElements {xs : List κ} {y : κ} : y ∈ (ofElements xs).elements ↔ y ∈ xs :=
  mem_elements_foldl_add.trans ⟨fun h => h.resolve_right List.not_mem_nil, .inl⟩

end SortedSet

end Treecast
