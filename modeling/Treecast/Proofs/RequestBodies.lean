import Treecast.Proofs.BodyText
import Treecast.Proofs.Framing
import Treecast.Proofs.Merging

/-!
# Reading the bodies of requests

A body is an object of objects of lists of strings.  Its bytes say a document: the kinds with their
applications and those with their clusters, as they are written.  Of a repeated key the last value
counts.  What is wrong with a document is said with its place, and places are compared by the bytes
of the kind, then of the application, and then by the index in the list of clusters.

## Results

* `Request.isBody_iff`: the bytes of a document are those that are decoded as it.
* `Request.Checks.list`, `Request.Checks.map`: a chain of checks fails at the first fault.
* `Request.ofBytes_exact`: which bytes are read as a request, which request that is, and which fault
  is reported of all others.
-/

set_option autoImplicit false

namespace Treecast

/-! ## Names -/

theorem FeedKind.ofName?_eq_some_iff {name : String} {kind : FeedKind} :
    ofName? name = some kind ↔ name = kind.name := by
  constructor
  · intro h
    have hfound := List.find?_some (p := fun k : FeedKind => decide (k.name = name)) h
    exact (of_decide_eq_true hfound).symm
  · rintro rfl
    cases kind <;> decide

section Names

open Json (bytesOfText)

/-- The characters that names are made of. -/
def IsPlain (c : Char) : Prop :=
  ('a' ≤ c ∧ c ≤ 'z') ∨ ('A' ≤ c ∧ c ≤ 'Z') ∨ ('0' ≤ c ∧ c ≤ '9') ∨ c ∈ ['-', '_', '.', '@']

theorem isPlain_iff {c : Char} : IsPlain c ↔ isNameChar c = true := by
  have hword : c.isAlphanum = (decide ('A' ≤ c ∧ c ≤ 'Z') || ('a' ≤ c && c ≤ 'z') ||
      ('0' ≤ c && c ≤ '9')) := rfl
  simp [IsPlain, isNameChar, hword, or_assoc, or_left_comm]

theorem IsPlain.lt {c : Char} (h : IsPlain c) : c.toNat < 0x80 := by
  rcases h with ⟨-, h⟩ | ⟨-, h⟩ | ⟨-, h⟩ | h
  · exact Nat.lt_of_le_of_lt h (by decide)
  · exact Nat.lt_of_le_of_lt h (by decide)
  · exact Nat.lt_of_le_of_lt h (by decide)
  · have hchars : ∀ c ∈ ['-', '_', '.', '@'], c.toNat < 0x80 := by simp
    exact hchars c h

/-- What may name an application or a cluster. -/
structure IsName (name : String) : Prop where
  named : 1 ≤ (bytesOfText name).length
  short : (bytesOfText name).length ≤ 128
  plain : ∀ c ∈ name.toList, IsPlain c
  notDots : name ≠ "." ∧ name ≠ ".."

theorem length_bytesOfText {name : String} (h : ∀ c ∈ name.toList, IsPlain c) :
    (bytesOfText name).length = name.toList.length := by
  rw [← String.ofList_toList (s := name), Json.bytesOfText_ofList, String.toList_ofList]
  have hone : ∀ c ∈ name.toList, (String.utf8EncodeChar c).length = 1 := by
    intro c hc
    have hle : c.val.toNat ≤ 0x7f := Nat.le_of_lt_succ (h c hc).lt
    rw [String.utf8EncodeChar, if_pos hle]
    rfl
  rw [List.length_flatMap, List.map_congr_left hone]
  simp

theorem isName_iff {name : String} : IsName name ↔ isValidName name = true := by
  have hplain : (∀ c ∈ name.toList, IsPlain c) ↔ name.toList.all isNameChar = true := by
    simp [List.all_eq_true, isPlain_iff]
  have hdot : ∀ s : String, name ≠ s ↔ name.toList ≠ s.toList := fun s => by
    rw [ne_eq, ne_eq, String.toList_inj]
  simp only [isValidName, Bool.and_eq_true, ← hplain, bne_iff_ne, decide_eq_true_eq,
    Bool.not_eq_true', List.isEmpty_eq_false_iff]
  constructor
  · rintro ⟨hnamed, hshort, hplain, hdots⟩
    rw [length_bytesOfText hplain] at hnamed hshort
    exact ⟨⟨⟨⟨List.length_pos_iff.1 hnamed, hshort⟩, (hdot _).1 hdots.1⟩, (hdot _).1 hdots.2⟩,
      hplain⟩
  · rintro ⟨⟨⟨⟨hnamed, hshort⟩, hone⟩, htwo⟩, hplain⟩
    rw [← length_bytesOfText hplain] at hshort
    refine ⟨?_, hshort, hplain, (hdot _).2 hone, (hdot _).2 htwo⟩
    rw [length_bytesOfText hplain]
    exact List.length_pos_iff.2 hnamed

end Names

/-! ## What is listed -/

namespace Selection

/-- Exactly these clusters are wanted, and nothing else is said of them. -/
structure Lists (s : Selection) (clusters : List String) : Prop where
  wanted : ∀ c, s.clusters.has c = true ↔ c ∈ clusters
  unpinned : s.pinned = SortedMap.empty
  plain : s.intentRouting = false

theorem foldl_limit (clusters : List String) (s : Selection) :
    clusters.foldl limit s = { s with clusters := clusters.foldl SortedSet.add s.clusters } := by
  induction clusters generalizing s with
  | nil => rfl
  | cons c rest ih => exact ih (s.limit c)

theorem lists_iff {s : Selection} {clusters : List String} :
    s.Lists clusters ↔ s = clusters.foldl limit all := by
  have hmem : ∀ c, (SortedSet.ofElements clusters).has c = true ↔ c ∈ clusters := fun c =>
    SortedMap.mem_keys_iff.symm.trans SortedSet.mem_elements_ofElements
  have hunit : ∀ o : Option Unit, o.isSome = true ↔ o = some () := by
    rintro (_ | ⟨⟩) <;> simp
  rw [foldl_limit]
  constructor
  · rintro ⟨hwanted, hpinned, hplain⟩
    have hset : s.clusters = SortedSet.ofElements clusters := by
      refine SortedMap.ext_find? fun c => Option.ext fun () => ?_
      rw [← hunit, ← hunit]
      exact (hwanted c).trans (hmem c).symm
    obtain ⟨c, p, i⟩ := s
    cases hset
    cases hpinned
    cases hplain
    rfl
  · rintro rfl
    exact ⟨hmem, rfl, rfl⟩

end Selection

namespace Request

open Json (Gap ObjectText ArrayText Quoted bytesOfText octets Value)

section Documents

variable {α : Type}

/-- The value that counts of a key: the last one. -/
def last? (members : List (String × α)) (key : String) : Option α := members.reverse.lookup key

theorem find?_ofList (members : List (String × α)) (key : String) :
    (SortedMap.ofList members).find? key = last? members key := by
  induction members using List.reverseRecOn with
  | nil => rfl
  | append_singleton rest m ih =>
    have hinsert : SortedMap.ofList (rest ++ [m]) = (SortedMap.ofList rest).insert m.1 m.2 := by
      refine SortedMap.ext_find? fun key => ?_
      simp only [SortedMap.ofList, Entries.ofList, List.foldl_concat]
      rfl
    rw [hinsert, SortedMap.find?_insert, ih, last?, last?, List.reverse_concat, List.lookup_cons]
    split
    · rename_i heq
      rw [beq_iff_eq.2 heq]
    · rename_i hne
      rw [beq_eq_false_iff_ne.2 hne]

/-- A body as it is written: the kinds with their applications and those with their clusters. -/
abbrev Document := List (String × List (String × List String))

/-- The bytes say this document, with blanks wherever they may be. -/
def IsBody (bytes : List UInt8) (d : Document) : Prop :=
  ∃ gap t gap', Gap gap ∧ ObjectText (ObjectText (ArrayText Quoted)) t d ∧ Gap gap' ∧
    bytes = bytesOfText (String.ofList (gap ++ (t ++ gap')))

/-- The document in a value. -/
def documentOf? : Value → Option Document :=
  Value.membersOf? (Value.membersOf? (Value.listOf? Value.text?))

def documentOfBytes? (bytes : List UInt8) : Option Document :=
  (Json.textOfBytes? bytes).bind fun text => (Json.readSource text).bind documentOf?

/-- **The bytes of a document** are those that are decoded as it. -/
theorem isBody_iff {bytes : List UInt8} {d : Document} :
    IsBody bytes d ↔ documentOfBytes? bytes = some d := by
  -- the deepest lists stand two levels below the top
  have hreads : Json.Reads (ObjectText (ObjectText (ArrayText Quoted))) documentOf? Json.maxDepth :=
    (Json.reads_string 124).array.object.object
  rw [documentOfBytes?, Option.bind_eq_some_iff]
  constructor
  · rintro ⟨gap, t, gap', hgap, ht, hgap', rfl⟩
    exact ⟨_, Json.textOfBytes?_bytesOfText _,
      hreads.readSource_iff.2 ⟨gap, t, gap', hgap, ht, hgap', String.toList_ofList⟩⟩
  · rintro ⟨text, htext, hread⟩
    obtain ⟨gap, t, gap', hgap, ht, hgap', heq⟩ := hreads.readSource_iff.1 hread
    refine ⟨gap, t, gap', hgap, ht, hgap', ?_⟩
    rw [← heq, String.ofList_toList]
    exact Json.textOfBytes?_eq_some_iff.1 htext

/-- What is left of a document: the last values of its keys. -/
def Document.body (d : Document) : Body :=
  SortedMap.ofList (d.map fun m => (m.1, SortedMap.ofList m.2))

theorem membersOf?_map {β : Type} (decode : Value → Option α) (f : α → β) (v : Value) :
    v.membersOf? (fun v => (decode v).map f) =
      (v.membersOf? decode).map (List.map fun m => (m.1, f m.2)) := by
  cases v with
  | object members =>
    rw [Value.membersOf?, Value.membersOf?]
    induction members with
    | nil => rfl
    | cons m rest ih =>
      rw [List.mapM_cons, List.mapM_cons, ih]
      cases decode m.2 with
      | none => rfl
      | some x => cases rest.mapM fun m => (decode m.2).map fun x => (m.1, x) <;> rfl
  | _ => rfl

theorem bodyOfBytes?_eq (bytes : List UInt8) :
    (Json.textOfBytes? bytes).bind bodyOfText? = (documentOfBytes? bytes).map Document.body := by
  have hvalue : ∀ v : Value, v.mapOf? (Value.mapOf? (Value.listOf? Value.text?)) =
      (documentOf? v).map Document.body := by
    intro v
    rw [Value.mapOf?_eq, show Value.mapOf? (Value.listOf? Value.text?) = _ from
      funext fun v => Value.mapOf?_eq _ v, membersOf?_map, Option.map_map]
    rfl
  rw [documentOfBytes?, Option.map_bind]
  refine congrArg _ (funext fun text => ?_)
  simp only [bodyOfText?, hvalue, Option.bind_eq_bind, Function.comp, Option.map_bind]

namespace Document

/-- The clusters that a document lists of an application. -/
def listed? (d : Document) (kind application : String) : Option (List String) :=
  (last? d kind).bind (last? · application)

theorem find?_body (d : Document) (kind : String) :
    d.body.find? kind = (last? d kind).map SortedMap.ofList := by
  rw [body, find?_ofList, last?, last?, ← List.map_reverse]
  induction d.reverse with
  | nil => rfl
  | cons m rest ih =>
    rw [List.map_cons, List.lookup_cons, List.lookup_cons, ih]
    split <;> rfl

end Document

end Documents

/-! ## Faults and their places -/

/-- Faults with their places.  A place is the way to it from the outside, and places are compared
step by step. -/
abbrev Report := List (List Nat) → RequestFault → Prop

/-- Nothing is wrong. -/
def Report.None (faults : Report) : Prop := ∀ place fault, ¬ faults place fault

/-- A fault before whose place there is none. -/
def Report.First (faults : Report) (fault : RequestFault) : Prop :=
  ∃ place, faults place fault ∧ ∀ place' fault', faults place' fault' → ¬ place' < place

section Checks

variable {α β : Type}

/-- The faults of the items of a list. -/
def inList (faults : α → Report) (xs : List α) : Report := fun place fault =>
  ∃ i x rest, place = [i] :: rest ∧ xs[i]? = some x ∧ faults x rest fault

/-- The faults of the entries of a map. -/
def inMap (faults : String × α → Report) (m : SortedMap String α) : Report := fun place fault =>
  ∃ key x rest, place = octets key :: rest ∧ m.find? key = some x ∧ faults (key, x) rest fault

/-- A step that goes on if nothing is wrong, and otherwise fails with the first fault. -/
structure Checks (step : β → α → Except RequestFault β) (next : β → α → β)
    (faults : α → Report) : Prop where
  ok : ∀ {b a b'}, step b a = .ok b' → (faults a).None ∧ b' = next b a
  error : ∀ {b a fault}, step b a = .error fault → (faults a).First fault

variable {step : β → α → Except RequestFault β} {next : β → α → β} {b b' : β}
  {fault : RequestFault}

theorem Checks.foldlM_ok {faults : α → Report} (h : Checks step next faults) {xs : List α}
    (hok : xs.foldlM step b = .ok b') : (∀ x ∈ xs, (faults x).None) ∧ b' = xs.foldl next b := by
  induction xs generalizing b with
  | nil =>
    cases hok
    exact ⟨fun x hx => absurd hx List.not_mem_nil, rfl⟩
  | cons x rest ih =>
    rw [List.foldlM_cons] at hok
    obtain ⟨b₁, hstep, hrest⟩ := exists_ok_of_bind hok
    obtain ⟨hx, rfl⟩ := h.ok hstep
    obtain ⟨hnone, heq⟩ := ih hrest
    exact ⟨List.forall_mem_cons.2 ⟨hx, hnone⟩, heq⟩

/-- **A chain fails** at the first item with a fault. -/
theorem Checks.foldlM_error {faults : α → Report} (h : Checks step next faults) {xs : List α}
    (herror : xs.foldlM step b = .error fault) : ∃ before x after, xs = before ++ x :: after ∧
      (∀ y ∈ before, (faults y).None) ∧ (faults x).First fault := by
  induction xs generalizing b with
  | nil => cases herror
  | cons x rest ih =>
    rw [List.foldlM_cons] at herror
    cases hstep : step b x with
    | error e =>
      rw [hstep] at herror
      cases herror
      exact ⟨[], x, rest, rfl, fun y hy => absurd hy List.not_mem_nil, h.error hstep⟩
    | ok b₁ =>
      rw [hstep] at herror
      obtain ⟨before, y, after, rfl, hbefore, hy⟩ := ih herror
      exact ⟨x :: before, y, after, rfl, List.forall_mem_cons.2 ⟨(h.ok hstep).1, hbefore⟩, hy⟩

/-- **The items of a list** are checked one after another. -/
theorem Checks.list {faults : α → Report} (h : Checks step next faults) :
    Checks (fun b (xs : List α) => xs.foldlM step b) (fun b xs => xs.foldl next b)
      (inList faults) where
  ok := by
    intro b xs b' hok
    obtain ⟨hnone, heq⟩ := h.foldlM_ok hok
    refine ⟨?_, heq⟩
    rintro _ fault ⟨i, x, rest, rfl, hx, hfault⟩
    exact hnone x (List.mem_of_getElem? hx) rest fault hfault
  error := by
    intro b xs fault herror
    obtain ⟨before, x, after, rfl, hbefore, place, hx, hleast⟩ := h.foldlM_error herror
    have hfound : (before ++ x :: after)[before.length]? = some x := by
      rw [List.getElem?_append_right (Nat.le_refl _), Nat.sub_self]
      rfl
    refine ⟨[before.length] :: place, ⟨_, x, place, rfl, hfound, hx⟩, ?_⟩
    rintro _ fault' ⟨i, y, rest, rfl, hy, hfault⟩ hlt
    rcases List.cons_lt_cons_iff.1 hlt with hlt | ⟨heq, hrest⟩
    · have hi : i < before.length := by
        simpa [List.cons_lt_cons_iff] using hlt
      rw [List.getElem?_append_left hi] at hy
      exact hbefore y (List.mem_of_getElem? hy) rest fault' hfault
    · cases heq
      rw [hfound] at hy
      cases hy
      exact hleast rest fault' hfault hrest

/-- **The entries of a map** are checked by the bytes of their keys. -/
theorem Checks.map {step : β → String × α → Except RequestFault β} {next : β → String × α → β}
    {faults : String × α → Report} (h : Checks step next faults) :
    Checks (fun b (m : SortedMap String α) => m.toList.foldlM step b)
      (fun b m => m.toList.foldl next b) (inMap faults) where
  ok := by
    intro b m b' hok
    obtain ⟨hnone, heq⟩ := h.foldlM_ok hok
    refine ⟨?_, heq⟩
    rintro _ fault ⟨key, x, rest, rfl, hx, hfault⟩
    exact hnone (key, x) (SortedMap.mem_toList_iff.2 hx) rest fault hfault
  error := by
    intro b m fault herror
    obtain ⟨before, ⟨key, x⟩, after, heq, hbefore, place, hx, hleast⟩ := h.foldlM_error herror
    have hmem : (key, x) ∈ m.toList := heq ▸ List.mem_append_right _ List.mem_cons_self
    refine ⟨octets key :: place, ⟨key, x, place, rfl, SortedMap.mem_toList_iff.1 hmem, hx⟩, ?_⟩
    rintro _ fault' ⟨key', y, rest, rfl, hy, hfault⟩ hlt
    have hsorted : Entries.Sorted (before ++ (key, x) :: after) := heq ▸ m.sorted
    have hy : (key', y) ∈ before ++ (key, x) :: after := heq ▸ SortedMap.mem_toList_iff.2 hy
    rcases List.mem_append.1 hy with hy | hy
    · exact hbefore _ hy rest fault' hfault
    rcases List.mem_cons.1 hy with hy | hy
    · cases hy
      rcases List.cons_lt_cons_iff.1 hlt with hlt | ⟨-, hrest⟩
      · exact List.lt_irrefl _ hlt
      · exact hleast rest fault' hfault hrest
    · -- a later key has greater bytes
      have hgt : octets key < octets key' := Json.octets_lt_of_compare
        ((List.pairwise_cons.1 (List.pairwise_append.1 hsorted).2.1).1 _ hy)
      rcases List.cons_lt_cons_iff.1 hlt with hlt | ⟨heq, -⟩
      · exact List.lt_asymm hgt hlt
      · exact List.lt_irrefl _ (heq ▸ hgt)

/-- A fault of a thing as a whole, besides those within it. -/
def guarded (bad : Prop) (fault : RequestFault) (inner : Report) : Report := fun place fault' =>
  (place = [] ∧ bad ∧ fault' = fault) ∨ inner place fault'

theorem guarded_of_not {bad : Prop} (h : ¬ bad) (fault : RequestFault) (inner : Report) :
    guarded bad fault inner = inner := by
  funext place fault'
  exact propext ⟨fun h' => h'.resolve_left fun hbad => h hbad.2.1, .inr⟩

/-- A fault of a thing as a whole comes before those within it. -/
theorem first_guarded {bad : Prop} (h : bad) (fault : RequestFault) (inner : Report) :
    (guarded bad fault inner).First fault :=
  ⟨[], .inl ⟨rfl, h, rfl⟩, fun _ _ _ => List.not_lt_nil _⟩

end Checks

/-! ## What is wrong with a document -/

/-- The names of the kinds of feeds. -/
def feedNames : List String := ["service", "switch", "config", "service_info"]

theorem mem_feedNames_iff {name : String} :
    name ∈ feedNames ↔ ∃ kind, FeedKind.ofName? name = some kind := by
  simp only [FeedKind.ofName?_eq_some_iff]
  constructor
  · intro h
    have hall : ∀ name ∈ feedNames, name ∈ FeedKind.all.map FeedKind.name := by decide
    obtain ⟨kind, -, heq⟩ := List.mem_map.1 (hall name h)
    exact ⟨kind, heq.symm⟩
  · rintro ⟨kind, rfl⟩
    cases kind <;> decide

/-- A cluster needs a name. -/
def clusterFaults (cluster : String) : Report :=
  guarded (¬ IsName cluster) (.invalidName .cluster cluster) fun _ _ => False

/-- An application needs a name, and so do its clusters. -/
def feedFaults (feed : String × List String) : Report :=
  guarded (¬ IsName feed.1) (.invalidName .application feed.1) (inList clusterFaults feed.2)

/-- A kind is known, and there is nothing wrong with its applications. -/
def kindFaults (kind : String × SortedMap String (List String)) : Report :=
  guarded (kind.1 ∉ feedNames) (.unknownFeed kind.1) (inMap feedFaults kind.2)

namespace Document

/-- What is wrong with a document.  The place of a kind is its name's bytes; those of an application
come after them, and then the index in the list of its clusters. -/
inductive Faults (d : Document) : List (List Nat) → RequestFault → Prop where
  | kind {kind : String} {applications : List (String × List String)}
      (h : last? d kind = some applications) (hunknown : kind ∉ feedNames) :
      Faults d [octets kind] (.unknownFeed kind)
  | application {kind application : String} {clusters : List String}
      (h : d.listed? kind application = some clusters) (hname : ¬ IsName application) :
      Faults d [octets kind, octets application] (.invalidName .application application)
  | cluster {kind application cluster : String} {clusters : List String} {i : Nat}
      (h : d.listed? kind application = some clusters) (hi : clusters[i]? = some cluster)
      (hname : ¬ IsName cluster) :
      Faults d [octets kind, octets application, [i]] (.invalidName .cluster cluster)

/-- At one place no more than one thing is wrong. -/
theorem Faults.eq {d : Document} {place place' : List (List Nat)} {fault fault' : RequestFault}
    (h : d.Faults place fault) (h' : d.Faults place' fault') (hplace : place = place') :
    fault = fault' := by
  cases h with
  | kind =>
    cases h' with
    | kind => rw [Json.octets_inj (List.cons.inj hplace).1]
    | application | cluster => simp at hplace
  | application =>
    cases h' with
    | application =>
      obtain ⟨-, hplace⟩ := List.cons.inj hplace
      rw [Json.octets_inj (List.cons.inj hplace).1]
    | kind | cluster => simp at hplace
  | cluster h hi =>
    cases h' with
    | cluster h' hi' =>
      obtain ⟨hkind, hplace⟩ := List.cons.inj hplace
      obtain ⟨happlication, hplace⟩ := List.cons.inj hplace
      cases Json.octets_inj hkind
      cases Json.octets_inj happlication
      cases hplace
      rw [h] at h'
      cases h'
      rw [hi] at hi'
      cases hi'
      rfl
    | kind | application => simp at hplace

/-- A document has one first fault. -/
theorem first_unique {d : Document} {fault fault' : RequestFault}
    (h : Report.First d.Faults fault) (h' : Report.First d.Faults fault') : fault = fault' := by
  obtain ⟨place, hfault, hleast⟩ := h
  obtain ⟨place', hfault', hleast'⟩ := h'
  exact hfault.eq hfault' (List.le_antisymm (hleast place' fault' hfault')
    (hleast' place fault hfault))

/-- What a document lists is what is left of it. -/
theorem listed?_eq (d : Document) (kind application : String) :
    d.listed? kind application = (d.body.find? kind).bind (·.find? application) := by
  rw [listed?, find?_body, Option.bind_map]
  simp only [Function.comp, find?_ofList]

/-- What is wrong with what is left of a document is wrong with the document. -/
theorem faults_eq (d : Document) : inMap kindFaults d.body = d.Faults := by
  have hlisted : ∀ {kind application clusters}, d.listed? kind application = some clusters ↔
      ∃ applications, d.body.find? kind = some applications ∧
        applications.find? application = some clusters := by
    intro kind application clusters
    rw [listed?_eq, Option.bind_eq_some_iff]
  funext place fault
  refine propext ⟨?_, ?_⟩
  · rintro ⟨kind, applications, _, rfl, hkind, ⟨rfl, hunknown, rfl⟩ |
      ⟨application, clusters, _, rfl, happlication, ⟨rfl, hname, rfl⟩ |
        ⟨i, cluster, _, rfl, hi, ⟨rfl, hname, rfl⟩ | hnone⟩⟩⟩
    · rw [find?_body] at hkind
      obtain ⟨_, hlast, -⟩ := Option.map_eq_some_iff.1 hkind
      exact .kind hlast hunknown
    · exact .application (hlisted.2 ⟨applications, hkind, happlication⟩) hname
    · exact .cluster (hlisted.2 ⟨applications, hkind, happlication⟩) hi hname
    · exact False.elim hnone
  · intro h
    cases h with
    | kind h hunknown =>
      exact ⟨_, _, [], rfl, by rw [find?_body, h]; rfl, .inl ⟨rfl, hunknown, rfl⟩⟩
    | application h hname =>
      obtain ⟨applications, hkind, happlication⟩ := hlisted.1 h
      exact ⟨_, applications, _, rfl, hkind, .inr ⟨_, _, [], rfl, happlication,
        .inl ⟨rfl, hname, rfl⟩⟩⟩
    | cluster h hi hname =>
      obtain ⟨applications, hkind, happlication⟩ := hlisted.1 h
      exact ⟨_, applications, _, rfl, hkind, .inr ⟨_, _, _, rfl, happlication,
        .inr ⟨_, _, [], rfl, hi, .inl ⟨rfl, hname, rfl⟩⟩⟩⟩

end Document

/-! ## Reading a body -/

theorem foldl_alter (r : Request) (key : FeedKey) (f : Selection → Selection)
    (clusters : List String) :
    clusters.foldl (fun r c => r.alter key (·.limit c)) (r.alter key f) =
      r.alter key fun s => clusters.foldl Selection.limit (f s) := by
  induction clusters generalizing f with
  | nil => rfl
  | cons c rest ih =>
    rw [List.foldl_cons, alter_alter]
    exact ih _

theorem checks_limit (key : FeedKey) (hkey : isValidName key.application = true) :
    Checks (fun (r : Request) c => r.limit key c) (fun r c => r.alter key (·.limit c))
      clusterFaults where
  ok := by
    intro r c r' hok
    obtain ⟨hname, -, rfl⟩ := limit_eq_ok_iff.1 hok
    refine ⟨?_, rfl⟩
    rw [clusterFaults, guarded_of_not (not_not.2 (isName_iff.2 hname))]
    exact fun _ _ h => h
  error := by
    intro r c fault herror
    obtain ⟨hname, rfl⟩ := blame_of_limit hkey herror
    refine first_guarded (fun h => ?_) _ _
    rw [isName_iff.1 h] at hname
    cases hname

/-- A feed that is read. -/
def readFeed (kind : FeedKind) (r : Request) (feed : String × List String) : Request :=
  r.alter ⟨kind, feed.1⟩ fun s => feed.2.foldl Selection.limit s

theorem checks_addFeed (kind : FeedKind) :
    Checks (fun (r : Request) (feed : String × List String) => r.addFeed ⟨kind, feed.1⟩ feed.2)
      (readFeed kind) feedFaults where
  ok := by
    intro r feed r' hok
    obtain ⟨r₁, hwatch, hok⟩ := exists_ok_of_bind hok
    obtain ⟨_, hname, hwatch⟩ := exists_ok_of_bind hwatch
    cases hwatch
    have hvalid := valid_of_checkName hname
    obtain ⟨hnone, rfl⟩ := (checks_limit ⟨kind, feed.1⟩ hvalid).list.ok hok
    rw [feedFaults, guarded_of_not (not_not.2 (isName_iff.2 hvalid))]
    exact ⟨hnone, foldl_alter r _ id feed.2⟩
  error := by
    intro r feed fault herror
    by_cases hvalid : isValidName feed.1 = true
    · rw [addFeed, watch, checkName_of_valid hvalid] at herror
      rw [feedFaults, guarded_of_not (not_not.2 (isName_iff.2 hvalid))]
      exact (checks_limit ⟨kind, feed.1⟩ hvalid).list.error herror
    · rw [addFeed, watch, checkName, if_neg hvalid] at herror
      cases herror
      exact first_guarded (fun h => hvalid (isName_iff.1 h)) _ _

/-- The applications of a kind that are read. -/
def readKind (r : Request) (kind : String × SortedMap String (List String)) : Request :=
  match FeedKind.ofName? kind.1 with
  | none => r
  | some k => kind.2.toList.foldl (readFeed k) r

theorem checks_addKind :
    Checks
      (fun (r : Request) (kind : String × SortedMap String (List String)) =>
        r.addKind kind.1 kind.2)
      readKind kindFaults where
  ok := by
    intro r kind r' hok
    rw [addKind] at hok
    rw [readKind]
    cases hk : FeedKind.ofName? kind.1 with
    | none =>
      rw [hk] at hok
      cases hok
    | some k =>
      rw [hk] at hok
      obtain ⟨hnone, rfl⟩ := (checks_addFeed k).map.ok hok
      rw [kindFaults, guarded_of_not (not_not.2 (mem_feedNames_iff.2 ⟨k, hk⟩))]
      exact ⟨hnone, rfl⟩
  error := by
    intro r kind fault herror
    rw [addKind] at herror
    cases hk : FeedKind.ofName? kind.1 with
    | none =>
      rw [hk] at herror
      cases herror
      refine first_guarded (fun h => ?_) _ _
      obtain ⟨k, hk'⟩ := mem_feedNames_iff.1 h
      rw [hk] at hk'
      cases hk'
    | some k =>
      rw [hk] at herror
      rw [kindFaults, guarded_of_not (not_not.2 (mem_feedNames_iff.2 ⟨k, hk⟩))]
      exact (checks_addFeed k).map.error herror

def readBody (body : Body) : Request := body.toList.foldl readKind empty

/-- What is wanted of an application after the lists of its kind. -/
def wantedAfter (applications : SortedMap String (List String)) (application : String)
    (s : Option Selection) : Option Selection :=
  match applications.find? application with
  | some clusters => some (clusters.foldl Selection.limit (s.getD Selection.all))
  | none => s

theorem find?_foldl_readFeed (kind : FeedKind) (applications : SortedMap String (List String))
    (r : Request) (key : FeedKey) :
    (applications.toList.foldl (readFeed kind) r).find? key =
      if key.kind = kind then wantedAfter applications key.application (r.find? key)
      else r.find? key := by
  obtain ⟨k, application⟩ := key
  have hlook := Entries.look_foldl (fun r a clusters => readFeed kind r (a, clusters))
    (fun r a => r.find? ⟨k, a⟩)
    (fun clusters s =>
      if k = kind then some (clusters.foldl Selection.limit (s.getD Selection.all)) else s)
    (fun r a clusters other => ?_) applications.sorted r application
  · rw [SortedMap.toList, hlook, wantedAfter, SortedMap.find?]
    cases applications.entries.find? application with
    | none => exact (ite_self _).symm
    | some clusters => rfl
  · simp only [readFeed, find?_alter, selectionOf, FeedKey.mk.injEq]
    by_cases hk : k = kind <;> by_cases ha : other = a <;> simp [hk, ha]

/-- **The request of a body** asks for what the body lists. -/
theorem find?_readBody {body : Body} (key : FeedKey) :
    (readBody body).find? key = ((body.find? key.kind.name).bind (·.find? key.application)).map
      fun clusters => clusters.foldl Selection.limit Selection.all := by
  obtain ⟨kind, application⟩ := key
  -- what is wanted of the application as one of the kind of that name, if there is one
  let look (r : Request) (name : String) : Option (Option Selection) :=
    (FeedKind.ofName? name).map fun k => r.find? ⟨k, application⟩
  have hkind : FeedKind.ofName? kind.name = some kind := FeedKind.ofName?_eq_some_iff.2 rfl
  have hlook := Entries.look_foldl (fun r name applications => readKind r (name, applications)) look
    (fun applications s => s.map (wantedAfter applications application))
    (fun r name applications other => ?_) body.sorted empty kind.name
  · simp only [look, hkind, Option.map_some] at hlook
    refine Option.some.inj (hlook.trans ?_)
    rw [SortedMap.find?]
    cases body.entries.find? kind.name with
    | none => rfl
    | some applications =>
      dsimp only
      rw [wantedAfter, Option.bind_some]
      cases applications.find? application <;> rfl
  · simp only [look, readKind]
    cases hother : FeedKind.ofName? other with
    | none => simp
    | some k =>
      obtain rfl := FeedKind.ofName?_eq_some_iff.1 hother
      rw [Option.map_some, Option.map_some]
      cases hname : FeedKind.ofName? name with
      | none =>
        rw [if_neg]
        rintro rfl
        rw [hname] at hother
        cases hother
      | some k' =>
        obtain rfl := FeedKind.ofName?_eq_some_iff.1 hname
        have hiff : k.name = k'.name ↔ k = k' := by cases k <;> cases k' <;> decide
        simp only [find?_foldl_readFeed, hiff]
        split <;> rfl

theorem isEmpty_iff {r : Request} : r.isEmpty = true ↔ ∀ key, r.find? key = none := by
  constructor
  · intro h key
    rw [find?, SortedMap.eq_empty_of_isEmpty h]
    rfl
  · intro h
    have hempty : r = empty := ext_find? h
    rw [hempty]
    rfl

/-- Everything that makes a document a request. -/
structure Document.Admissible (d : Document) : Prop where
  /-- Every kind is known, whether it has applications or not. -/
  known : ∀ kind applications, last? d kind = some applications → kind ∈ feedNames
  named : ∀ kind application clusters, d.listed? kind application = some clusters →
    IsName application ∧ ∀ cluster ∈ clusters, IsName cluster
  listed : ∃ kind application clusters, d.listed? kind application = some clusters

/-- A document is a request if nothing is wrong with it and it lists something. -/
theorem Document.admissible_iff {d : Document} : d.Admissible ↔
    Report.None d.Faults ∧ ∃ kind application clusters,
      d.listed? kind application = some clusters := by
  constructor
  · rintro ⟨hknown, hnamed, hlisted⟩
    refine ⟨fun place fault h => ?_, hlisted⟩
    cases h with
    | kind h hunknown => exact hunknown (hknown _ _ h)
    | application h hname => exact hname (hnamed _ _ _ h).1
    | cluster h hi hname => exact hname ((hnamed _ _ _ h).2 _ (List.mem_of_getElem? hi))
  · rintro ⟨hnone, hlisted⟩
    refine ⟨fun kind applications h => ?_, fun kind application clusters h => ⟨?_, ?_⟩, hlisted⟩
    · by_contra hunknown
      exact hnone _ _ (.kind h hunknown)
    · by_contra hname
      exact hnone _ _ (.application h hname)
    · intro cluster hcluster
      by_contra hname
      obtain ⟨i, hi⟩ := List.getElem?_of_mem hcluster
      exact hnone _ _ (.cluster h hi hname)

theorem ofBytes_eq (bytes : List UInt8) : ofBytes bytes =
    match documentOfBytes? bytes with
    | none => .error .malformedBody
    | some d => ofBody d.body := by
  rw [ofBytes, bodyOfBytes?_eq]
  cases documentOfBytes? bytes <;> rfl

/-- Nothing is wanted of any feed if and only if nothing is listed under a known kind. -/
theorem isEmpty_readBody_iff {d : Document} (hnone : Report.None d.Faults) :
    (readBody d.body).isEmpty = true ↔
      ∀ kind application, d.listed? kind application = none := by
  simp only [isEmpty_iff, find?_readBody, Option.map_eq_none_iff, ← Document.listed?_eq]
  constructor
  · intro h kind application
    by_contra hlisted
    obtain ⟨clusters, hlisted⟩ := Option.ne_none_iff_exists'.1 hlisted
    obtain ⟨applications, hlast, -⟩ := Option.bind_eq_some_iff.1 hlisted
    by_cases hknown : kind ∈ feedNames
    · obtain ⟨k, hk⟩ := mem_feedNames_iff.1 hknown
      rw [FeedKind.ofName?_eq_some_iff.1 hk, h ⟨k, application⟩] at hlisted
      cases hlisted
    · exact hnone _ _ (.kind hlast hknown)
  · intro h key
    exact h key.kind.name key.application

/-- **A body** is checked, and then it has to list something. -/
theorem ofBody_eq (d : Document) :
    (Report.None d.Faults ∧ ofBody d.body =
      if (readBody d.body).isEmpty then .error .nothingToWatch else .ok (readBody d.body)) ∨
    ∃ fault, Report.First d.Faults fault ∧ ofBody d.body = .error fault := by
  have hbody : ofBody d.body =
      (d.body.toList.foldlM (fun r k => r.addKind k.1 k.2) empty >>= fun r =>
        if r.isEmpty then .error .nothingToWatch else .ok r) := by
    rw [ofBody]
    refine congrArg _ (funext fun r => ?_)
    cases r.isEmpty <;> rfl
  rw [← Document.faults_eq, hbody]
  cases hread : d.body.toList.foldlM (fun (r : Request) k => r.addKind k.1 k.2) empty with
  | ok r =>
    obtain ⟨hnone, rfl⟩ := checks_addKind.map.ok hread
    exact .inl ⟨hnone, rfl⟩
  | error fault => exact .inr ⟨fault, checks_addKind.map.error hread, rfl⟩

/-- A fault is first only if something is wrong. -/
theorem Report.First.not_none {faults : Report} {fault : RequestFault} (h : faults.First fault) :
    ¬ faults.None :=
  fun hnone => h.elim fun place hplace => hnone place fault hplace.1

theorem ofBody_eq_ok_iff {d : Document} {r : Request} :
    ofBody d.body = .ok r ↔ d.Admissible ∧ r = readBody d.body := by
  rw [Document.admissible_iff]
  rcases ofBody_eq d with ⟨hnone, heq⟩ | ⟨fault, hfirst, heq⟩
  · rw [heq]
    by_cases hempty : (readBody d.body).isEmpty = true
    · have hlisted := (isEmpty_readBody_iff hnone).1 hempty
      simp [hempty, hlisted]
    · have hlisted := (isEmpty_readBody_iff hnone).not.1 hempty
      simp only [not_forall, Option.ne_none_iff_exists', ← ne_eq] at hlisted
      rw [if_neg hempty, Except.ok.injEq, eq_comm]
      exact (and_iff_right ⟨hnone, hlisted⟩).symm
  · simp [heq, hfirst.not_none]

theorem ofBody_eq_error_iff {d : Document} {fault : RequestFault} :
    ofBody d.body = .error fault ↔ Report.First d.Faults fault ∨ Report.None d.Faults ∧
      (∀ kind application, d.listed? kind application = none) ∧ fault = .nothingToWatch := by
  rcases ofBody_eq d with ⟨hnone, heq⟩ | ⟨fault', hfirst, heq⟩
  · have hfirst : ¬ Report.First d.Faults fault := fun h => h.not_none hnone
    rw [heq, ← isEmpty_readBody_iff hnone]
    by_cases hempty : (readBody d.body).isEmpty = true
    · simp [hempty, hfirst, hnone, eq_comm]
    · simp [hempty, hfirst]
  · rw [heq]
    constructor
    · intro h
      cases h
      exact .inl hfirst
    · rintro (h | ⟨hnone, -⟩)
      · rw [Document.first_unique hfirst h]
      · exact absurd hnone hfirst.not_none

/-- **Bodies are read exactly.**  Bytes are read as a request if and only if they say a document of
which every kind is known, every application and every cluster has a valid name and at least one
application is listed.  The request then asks for the listed applications, and of each for exactly
its clusters.  Otherwise the fault is that the bytes say no document, or it is the first one of the
document, by the bytes of the kind, then of the application, and then in the order of the clusters;
if nothing at all is wrong, it is that nothing is listed. -/
theorem ofBytes_exact (bytes : List UInt8) :
    ((∃ r, ofBytes bytes = .ok r) ↔ ∃ d, IsBody bytes d ∧ d.Admissible) ∧
    (∀ r d, ofBytes bytes = .ok r → IsBody bytes d → ∀ key s, r.find? key = some s ↔
      ∃ clusters, d.listed? key.kind.name key.application = some clusters ∧ s.Lists clusters) ∧
    (∀ fault, ofBytes bytes = .error fault ↔
      (fault = .malformedBody ∧ ∀ d, ¬ IsBody bytes d) ∨
      ∃ d, IsBody bytes d ∧ (Report.First d.Faults fault ∨ Report.None d.Faults ∧
        (∀ kind application, d.listed? kind application = none) ∧ fault = .nothingToWatch)) := by
  simp only [isBody_iff]
  rw [ofBytes_eq]
  cases documentOfBytes? bytes with
  | none =>
    refine ⟨by simp, by simp, fun fault => ?_⟩
    simp [eq_comm]
  | some d =>
    have huniq : ∀ {P : Document → Prop}, (∃ d', some d = some d' ∧ P d') ↔ P d := by simp
    refine ⟨?_, fun r d' hok hd => ?_, fun fault => ?_⟩
    · rw [huniq]
      simp [ofBody_eq_ok_iff]
    · cases hd
      obtain ⟨-, rfl⟩ := ofBody_eq_ok_iff.1 hok
      intro key s
      rw [find?_readBody, Option.map_eq_some_iff, Document.listed?_eq]
      simp only [Selection.lists_iff, eq_comm]
    · rw [huniq]
      simp [ofBody_eq_error_iff]

/-- A kind comes twice, and so does a cluster. -/
def doubledBody : List UInt8 :=
  bytesOfText ("\x7b \"service\":\x7b\"old\":[]\x7d," ++
    "\"config\":\x7b\"shop\":[\"b\",\"a\",\"b\"]\x7d,\"service\" : \x7b\"\\u006eew\":[]\x7d\x7d\n")

/-- The document of that body. -/
def doubledDocument : Document :=
  [("service", [("old", [])]), ("config", [("shop", ["b", "a", "b"])]), ("service", [("new", [])])]

/-- An unknown kind, an application and two clusters without valid names. -/
def faultyBody : List UInt8 :=
  bytesOfText ("\x7b\"zone\":\x7b\x7d,\"service\":\x7b\"a b\":[]\x7d," ++
    "\"config\":\x7b\"b\":[\"/\"],\"a\":[\"x\",\"..\"]\x7d\x7d")

/-- Of the doubled kind the second one counts, and of the faults the first one by the bytes. -/
theorem ofBytes_exact_doubled :
    (∃ r, ofBytes doubledBody = .ok r ∧
      (∀ s, r.find? ⟨.config, "shop"⟩ = some s ↔ s.Lists ["b", "a", "b"]) ∧
      (∀ s, r.find? ⟨.service, "new"⟩ = some s ↔ s.Lists []) ∧
      ∀ s, r.find? ⟨.service, "old"⟩ ≠ some s) ∧
    ∃ d, IsBody faultyBody d ∧ Report.First d.Faults (.invalidName .cluster "..") := by
  constructor
  · have hd : IsBody doubledBody doubledDocument := isBody_iff.2 (by decide +kernel)
    have hok : (ofBytes doubledBody).isOk = true := by decide +kernel
    cases hr : ofBytes doubledBody with
    | error fault =>
      rw [hr] at hok
      cases hok
    | ok r =>
      have hfind := (ofBytes_exact doubledBody).2.1 r _ hr hd
      have hshop : doubledDocument.listed? "config" "shop" = some ["b", "a", "b"] := by decide
      have hnew : doubledDocument.listed? "service" "new" = some [] := by decide
      have hold : doubledDocument.listed? "service" "old" = none := by decide
      refine ⟨r, rfl, fun s => ?_, fun s => ?_, fun s hs => ?_⟩
      · rw [hfind, FeedKind.name, hshop]
        simp
      · rw [hfind, FeedKind.name, hnew]
        simp
      · rw [hfind, FeedKind.name, hold] at hs
        simp at hs
  · have herror : ofBytes faultyBody = .error (.invalidName .cluster "..") := by decide +kernel
    rcases ((ofBytes_exact faultyBody).2.2 _).1 herror with ⟨h, -⟩ | ⟨d, hd, h | ⟨-, -, h⟩⟩
    · cases h
    · exact ⟨d, hd, h⟩
    · cases h

end Request

end Treecast
