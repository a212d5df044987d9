import Treecast.Proofs.JsonText
import Treecast.Proofs.View
import Treecast.Dependency

/-!
# Metadata that is written back

A declaration decodes a cluster's metadata, adds a consumer and writes the metadata back.  What
was decoded is in order and keeps the fields that it does not interpret apart from those that it
does, so that the text it is written as decodes to the same metadata again, doubles apart.

## Results

* `decodeText_render`, `otherFields_append`: what holds of any record with fields that are kept.
* `ClusterMetadata.decode?_encode`: tidy metadata is decoded from the text it is written as.
* `ClusterMetadata.tidy_of_decode?`: decoded metadata without doubles is tidy.
* `ClusterMetadata.hasConsumer_addConsumer`: the consumers after one was added.
-/

set_option autoImplicit false

namespace Treecast

open Json (Value)

namespace Entries

theorem mem_of_mem_ofList {ν : Type} {entries : List (String × ν)} {e : String × ν}
    (he : e ∈ ofList entries) : e ∈ entries := by
  have hfold : ∀ (more : List (String × ν)) (known : Entries String ν),
      e ∈ more.foldl (fun acc x => acc.insert x.1 x.2) known → e ∈ known ∨ e ∈ more := by
    intro more
    induction more with
    | nil => exact fun known h => .inl h
    | cons x rest ih =>
      intro known h
      rcases ih _ h with h | h
      · rcases mem_insert h with rfl | h
        · exact .inr List.mem_cons_self
        · exact .inl h
      · exact .inr (List.mem_cons_of_mem _ h)
  exact (hfold entries [] he).resolve_left List.not_mem_nil

end Entries

namespace Json

/-! ## Values in order -/

namespace Value

mutual

/-- **A value brought in order** is in order. -/
theorem inOrder_inOrder (v : Value) : v.inOrder.inOrder = v.inOrder := by
  match v with
  | .null | .bool _ | .number _ | .string _ => rfl
  | .array items =>
    have hitems := itemsInOrder_itemsInOrder items
    rw [inOrder, inOrder, hitems]
  | .object members =>
    have hmembers := inOrder_of_mem_membersInOrder members
    have hsame : membersInOrder (Entries.ofList (membersInOrder members)) =
        Entries.ofList (membersInOrder members) := by
      rw [membersInOrder_eq_map]
      refine (List.map_congr_left fun e he => ?_).trans (List.map_id _)
      rw [hmembers e (Entries.mem_of_mem_ofList he)]
      rfl
    rw [inOrder, inOrder, hsame, Entries.ofList_eq_self (Entries.ofList_sorted _)]

theorem itemsInOrder_itemsInOrder (items : List Value) :
    itemsInOrder (itemsInOrder items) = itemsInOrder items := by
  match items with
  | [] => rfl
  | v :: rest =>
    rw [itemsInOrder, itemsInOrder, inOrder_inOrder v, itemsInOrder_itemsInOrder rest]

theorem inOrder_of_mem_membersInOrder (members : List (String × Value)) :
    ∀ e ∈ membersInOrder members, e.2.inOrder = e.2 := by
  match members with
  | [] => exact fun e he => absurd he List.not_mem_nil
  | (k, v) :: rest =>
    intro e he
    rcases List.mem_cons.1 he with rfl | he
    · exact inOrder_inOrder v
    · exact inOrder_of_mem_membersInOrder rest e he

end

mutual

/-- Bringing a value in order does not nest it deeper. -/
theorem meets_inOrder {p : Number → Prop} {depth : Nat} {v : Value} (hv : v.Meets p depth) :
    v.inOrder.Meets p depth := by
  match v with
  | .null | .bool _ | .number _ | .string _ => exact hv
  | .array items =>
    rw [Meets] at hv
    exact ⟨hv.1, itemsMeet_itemsInOrder hv.2⟩
  | .object members =>
    rw [Meets] at hv
    exact ⟨hv.1, membersMeet_iff.2 fun e he =>
      membersMeet_iff.1 (membersMeet_membersInOrder hv.2) e (Entries.mem_of_mem_ofList he)⟩

theorem itemsMeet_itemsInOrder {p : Number → Prop} {depth : Nat} {items : List Value}
    (hi : ItemsMeet p depth items) : ItemsMeet p depth (itemsInOrder items) := by
  match items with
  | [] => trivial
  | v :: rest =>
    rw [ItemsMeet] at hi
    exact ⟨meets_inOrder hi.1, itemsMeet_itemsInOrder hi.2⟩

theorem membersMeet_membersInOrder {p : Number → Prop} {depth : Nat}
    {members : List (String × Value)} (hm : MembersMeet p depth members) :
    MembersMeet p depth (membersInOrder members) := by
  match members with
  | [] => trivial
  | (k, v) :: rest =>
    rw [MembersMeet] at hm
    exact ⟨meets_inOrder hm.1, membersMeet_membersInOrder hm.2⟩

end

end Value

mutual

/-- What was read and has no doubles can be written and read again. -/
theorem meets_kept {depth : Nat} {v : Value} (hv : v.Meets Number.Fits depth)
    (hwhole : v.isWhole = true) : v.Meets Number.Kept depth := by
  match v with
  | .null | .bool _ | .string _ => trivial
  | .number n => exact ⟨hv, hwhole⟩
  | .array items =>
    rw [Value.Meets] at hv
    exact ⟨hv.1, itemsMeet_kept hv.2 hwhole⟩
  | .object members =>
    rw [Value.Meets] at hv
    exact ⟨hv.1, membersMeet_kept hv.2 hwhole⟩

theorem itemsMeet_kept {depth : Nat} {items : List Value}
    (hi : ItemsMeet Number.Fits depth items) (hwhole : itemsWhole items = true) :
    ItemsMeet Number.Kept depth items := by
  match items with
  | [] => trivial
  | v :: rest =>
    rw [ItemsMeet] at hi
    rw [itemsWhole, Bool.and_eq_true] at hwhole
    exact ⟨meets_kept hi.1 hwhole.1, itemsMeet_kept hi.2 hwhole.2⟩

theorem membersMeet_kept {depth : Nat} {members : List (String × Value)}
    (hm : MembersMeet Number.Fits depth members) (hwhole : membersWhole members = true) :
    MembersMeet Number.Kept depth members := by
  match members with
  | [] => trivial
  | (k, v) :: rest =>
    rw [MembersMeet] at hm
    rw [membersWhole, Bool.and_eq_true] at hwhole
    exact ⟨meets_kept hm.1 hwhole.1, membersMeet_kept hm.2 hwhole.2⟩

end

/-! ## Typed data -/

namespace Value

theorem mapM_map_eq_some {α β : Type} {read : β → Option α} {write : α → β} {xs : List α}
    (h : ∀ x ∈ xs, read (write x) = some x) : (xs.map write).mapM read = some xs := by
  induction xs with
  | nil => rfl
  | cons x xs ih =>
    rw [List.map_cons, List.mapM_cons, h x List.mem_cons_self,
      ih fun y hy => h y (List.mem_cons_of_mem x hy)]
    rfl

theorem text?_string (s : String) : text? (.string s) = some s := rfl

theorem meets_string {p : Number → Prop} {depth : Nat} (s : String) :
    (Value.string s).Meets p depth := trivial

/-- A list of strings is read back. -/
theorem listOf?_strings (xs : List String) : (strings xs).listOf? text? = some xs :=
  mapM_map_eq_some fun x _ => text?_string x

/-- A map is read back if its values are. -/
theorem mapOf?_ofMap {α : Type} {read : Value → Option α} {write : α → Value}
    (h : ∀ x, read (write x) = some x) (m : SortedMap String α) :
    (ofMap write m).mapOf? read = some m := by
  have hmembers : ((m.map fun _ x => write x).entries.mapM fun e =>
      (read e.2).map fun x => (e.1, x)) = some m.entries :=
    mapM_map_eq_some fun e _ => by rw [h]; rfl
  rw [ofMap, mapOf?, hmembers, Option.map_some]
  exact congrArg some (SortedMap.ext_find? fun key =>
    congrArg (Entries.find? key) (Entries.ofList_eq_self m.sorted))

theorem meets_strings {p : Number → Prop} (depth : Nat) (xs : List String) :
    (strings xs).Meets p (depth + 1) := by
  refine ⟨Nat.succ_pos _, itemsMeet_iff.2 fun v hv => ?_⟩
  obtain ⟨x, -, rfl⟩ := List.mem_map.1 hv
  trivial

theorem meets_ofMap {α : Type} {p : Number → Prop} {depth : Nat} {write : α → Value}
    (h : ∀ x, (write x).Meets p depth) (m : SortedMap String α) :
    (ofMap write m).Meets p (depth + 1) := by
  refine ⟨Nat.succ_pos _, membersMeet_iff.2 fun e he => ?_⟩
  obtain ⟨x, -, rfl⟩ := List.mem_map.1 he
  exact h x.2

end Value

end Json

/-! ## Fields -/

namespace Routing

theorem fieldValues_append (name : String) (a b : List (String × Value)) :
    fieldValues name (a ++ b) = fieldValues name a ++ fieldValues name b :=
  List.filterMap_append

/-- The values of a field that is written unless it is empty. -/
theorem fieldValues_unless (name key : String) (blank : Bool) (v : Value) :
    fieldValues name (if blank then [] else [(key, v)]) =
      if blank then [] else if key = name then [v] else [] := by
  cases blank with
  | true => rfl
  | false =>
    rw [fieldValues]
    by_cases hkey : key = name <;> simp [hkey]

theorem fieldValues_of_forall_ne {name : String} {members : List (String × Value)}
    (h : ∀ e ∈ members, e.1 ≠ name) : fieldValues name members = [] :=
  List.filterMap_eq_nil_iff.2 fun e he => if_neg (h e he)

/-- A field that is written unless it is empty is read back. -/
theorem fieldOr?_unless {α : Type} {name : String} {read : Value → Option α} {missing x : α}
    {members : List (String × Value)} {blank : Bool} {v : Value}
    (hvalues : fieldValues name members = if blank then [] else [v])
    (hblank : blank = true → x = missing) (hread : read v = some x) :
    fieldOr? name read missing members = some x := by
  rw [fieldOr?, hvalues]
  cases blank with
  | true => exact congrArg some (hblank rfl).symm
  | false => exact hread

/-- What was read as a free form is in order. -/
theorem inOrder_of_freeForm? {v : Value} {members : Entries String Value}
    (h : freeForm? v = some members) : v.inOrder = .object members := by
  rw [freeForm?] at h
  cases hv : v.inOrder with
  | object _ =>
    rw [hv] at h
    exact congrArg Value.object (Option.some.inj h)
  | _ =>
    rw [hv] at h
    cases h

theorem freeForm?_of_inOrder {members : Entries String Value}
    (h : (Value.object members).inOrder = .object members) :
    freeForm? (.object members) = some members := by
  rw [freeForm?, h]
  rfl

/-- The other fields are the members of an object in order. -/
theorem object_otherFields (names : List String) (members : List (String × Value)) :
    Value.object (otherFields names members) =
      (Value.object (members.filter fun m => !names.contains m.1)).inOrder := by
  rw [Value.inOrder, otherFields]

theorem mem_otherFields {names : List String} {members : List (String × Value)}
    {e : String × Value} (he : e ∈ otherFields names members) :
    e.1 ∉ names ∧ ∃ v, (e.1, v) ∈ members ∧ e.2 = v.inOrder := by
  have hmem := Entries.mem_of_mem_ofList he
  rw [Value.membersInOrder_eq_map] at hmem
  obtain ⟨m, hm, rfl⟩ := List.mem_map.1 hmem
  obtain ⟨hm, hname⟩ := List.mem_filter.1 hm
  exact ⟨by simpa using hname, m.2, hm, rfl⟩

/-- Other fields of a value that was read can be written and read again, if they have no doubles. -/
theorem membersMeet_otherFields {names : List String} {members : List (String × Value)}
    {depth : Nat} (hmeets : Json.MembersMeet Json.Number.Fits depth members)
    (hwhole : Json.membersWhole (otherFields names members) = true) :
    Json.MembersMeet Json.Number.Kept depth (otherFields names members) := by
  refine Json.membersMeet_kept (Json.membersMeet_iff.2 fun e he => ?_) hwhole
  obtain ⟨-, v, hv, heq⟩ := mem_otherFields he
  rw [heq]
  exact Value.meets_inOrder (Json.membersMeet_iff.1 hmeets _ hv)

/-- Fields that are written after named ones are read back as the other fields. -/
theorem otherFields_append {names : List String} {named : List (String × Value)}
    {extra : Entries String Value} (hnamed : ∀ e ∈ named, e.1 ∈ names)
    (horder : (Value.object extra).inOrder = .object extra) (hothers : ∀ e ∈ extra, e.1 ∉ names) :
    otherFields names (named ++ extra) = extra := by
  have hdropped : named.filter (fun e => !names.contains e.1) = [] :=
    List.filter_eq_nil_iff.2 fun e he => by simpa using hnamed e he
  have hkept : extra.filter (fun e => !names.contains e.1) = extra :=
    List.filter_eq_self.2 fun e he => by simpa using hothers e he
  have hobject := object_otherFields names (named ++ extra)
  rw [List.filter_append, hdropped, hkept, List.nil_append, horder] at hobject
  exact Value.object.inj hobject

/-- A field that is written unless it is empty. -/
theorem mem_unless {key : String} {blank : Bool} {v : Value} {e : String × Value}
    (he : e ∈ if blank then [] else [(key, v)]) : e = (key, v) := by
  cases blank with
  | true => exact absurd he List.not_mem_nil
  | false => exact List.mem_singleton.1 he

theorem read_of_fieldOr? {α : Type} {name : String} {read : Value → Option α} {missing x : α}
    {members : List (String × Value)} (h : fieldOr? name read missing members = some x) :
    x = missing ∨ ∃ v, (name, v) ∈ members ∧ read v = some x := by
  rw [fieldOr?] at h
  split at h
  · exact .inl (Option.some.inj h).symm
  · rename_i v hvalues
    obtain ⟨m, hm, hv⟩ := List.mem_filterMap.1
      (show v ∈ fieldValues name members from hvalues ▸ List.mem_singleton_self v)
    split at hv
    · rename_i hname
      exact .inr ⟨v, by rw [← hname, ← Option.some.inj hv]; exact hm, h⟩
    · cases hv
  · cases h

/-! ## Texts -/

/-- **An object that can be read back** is decoded from the text that it is written as. -/
theorem decodeText_render {α : Type} {read : List (String × Value) → Option α} {none_ : α}
    {members : List (String × Value)}
    (h : (Value.object members).Meets Json.Number.Kept Json.maxDepth) :
    decodeText read none_ (Value.object members).render = read members := by
  have hfilled : Text.allBlank (Value.object members).render = false := by
    rw [Text.allBlank, Value.render, String.toList_ofList, Json.valueChars, List.cons_append,
      List.all_cons]
    rfl
  rw [decodeText, hfilled, Json.readSource_render h]
  rfl

/-- What a text is decoded to: nothing, or what the members of an object are read as. -/
theorem read_of_decodeText {α : Type} {read : List (String × Value) → Option α} {none_ m : α}
    {text : String} (h : decodeText read none_ text = some m) : m = none_ ∨ ∃ members,
      Json.MembersMeet Json.Number.Fits (Json.maxDepth - 1) members ∧ read members = some m := by
  rw [decodeText] at h
  split at h
  · exact .inl (Option.some.inj h).symm
  split at h
  · rename_i members hread
    exact .inr ⟨members, (Json.meets_of_readSource hread).2, h⟩
  · cases h

/-! ## Tidy metadata -/

namespace ClusterMetadata

/-- Metadata that is written and read back: what it keeps as it is is in order, is not nested
too deep and has no doubles, and no other field has the name of one that is interpreted. -/
structure Tidy (m : ClusterMetadata) : Prop where
  info : (Value.object m.info).inOrder = .object m.info
  infoMeets : (Value.object m.info).Meets Json.Number.Kept (Json.maxDepth - 1)
  extra : (Value.object m.extra).inOrder = .object m.extra
  extraMeets : Json.MembersMeet Json.Number.Kept (Json.maxDepth - 1) m.extra
  others : ∀ e ∈ m.extra, e.1 ∉ fieldNames

/-- The values that a field is written with. -/
theorem fieldValues_toMembers {m : ClusterMetadata} (hm : m.Tidy) :
    fieldValues "link" m.toMembers = (if m.link.isEmpty then [] else [Value.strings m.link]) ∧
    fieldValues "route" m.toMembers =
      (if m.route.isEmpty then [] else [Value.ofMap Value.string m.route]) ∧
    fieldValues "info" m.toMembers = (if m.info.isEmpty then [] else [.object m.info]) ∧
    fieldValues "dependency" m.toMembers =
      (if m.dependency.isEmpty then [] else [Value.ofMap Value.strings m.dependency]) := by
  have hextra : ∀ name ∈ fieldNames, fieldValues name m.extra = [] := fun name hname =>
    fieldValues_of_forall_ne fun e he heq => hm.others e he (heq ▸ hname)
  have hlink := hextra "link" (by decide)
  have hroute := hextra "route" (by decide)
  have hinfo := hextra "info" (by decide)
  have hdependency := hextra "dependency" (by decide)
  simp [-List.isEmpty_iff, toMembers, fieldValues_append, fieldValues_unless, hlink, hroute, hinfo,
    hdependency]

/-- The fields that are interpreted come first. -/
theorem mem_toMembers {m : ClusterMetadata} {e : String × Value} (he : e ∈ m.toMembers) :
    e = ("link", Value.strings m.link) ∨ e = ("route", Value.ofMap Value.string m.route) ∨
      e = ("info", .object m.info) ∨ e = ("dependency", Value.ofMap Value.strings m.dependency) ∨
      e ∈ m.extra := by
  simp only [toMembers, List.mem_append] at he
  rcases he with (((he | he) | he) | he) | he
  · exact .inl (mem_unless he)
  · exact .inr (.inl (mem_unless he))
  · exact .inr (.inr (.inl (mem_unless he)))
  · exact .inr (.inr (.inr (.inl (mem_unless he))))
  · exact .inr (.inr (.inr (.inr he)))

theorem otherFields_toMembers {m : ClusterMetadata} (hm : m.Tidy) :
    otherFields fieldNames m.toMembers = m.extra := by
  refine otherFields_append (fun e he => ?_) hm.extra hm.others
  have hnamed := mem_toMembers (m := { m with extra := [] }) (List.mem_append_left [] he)
  rcases hnamed with rfl | rfl | rfl | rfl | hnone
  · simp [fieldNames]
  · simp [fieldNames]
  · simp [fieldNames]
  · simp [fieldNames]
  · exact absurd hnone List.not_mem_nil

/-- **Members that tidy metadata is written with** are read as that metadata. -/
theorem ofMembers?_toMembers {m : ClusterMetadata} (hm : m.Tidy) :
    ofMembers? m.toMembers = some m := by
  obtain ⟨hlink, hroute, hinfo, hdependency⟩ := fieldValues_toMembers hm
  have link := fieldOr?_unless hlink (List.isEmpty_iff.1 ·) (Value.listOf?_strings m.link)
  have route := fieldOr?_unless hroute SortedMap.eq_empty_of_isEmpty
    (Value.mapOf?_ofMap Value.text?_string m.route)
  have info := fieldOr?_unless hinfo (List.isEmpty_iff.1 ·) (freeForm?_of_inOrder hm.info)
  have dependency := fieldOr?_unless hdependency SortedMap.eq_empty_of_isEmpty
    (Value.mapOf?_ofMap Value.listOf?_strings m.dependency)
  rw [ofMembers?, link, route, info, dependency, otherFields_toMembers hm]
  rfl

theorem meets_toValue {m : ClusterMetadata} (hm : m.Tidy) :
    m.toValue.Meets Json.Number.Kept Json.maxDepth := by
  refine ⟨by decide, Json.membersMeet_iff.2 fun e he => ?_⟩
  rcases mem_toMembers he with rfl | rfl | rfl | rfl | he
  · exact Value.meets_strings _ m.link
  · exact Value.meets_ofMap Value.meets_string m.route
  · exact hm.infoMeets
  · exact Value.meets_ofMap (Value.meets_strings _) m.dependency
  · exact Json.membersMeet_iff.1 hm.extraMeets e he

/-- **Tidy metadata** is decoded from the text that it is written as. -/
theorem decode?_encode {m : ClusterMetadata} (hm : m.Tidy) : decode? m.encode = some m :=
  (decodeText_render (meets_toValue hm)).trans (ofMembers?_toMembers hm)

theorem ofMembers?_eq_some {members : List (String × Value)} {m : ClusterMetadata}
    (h : ofMembers? members = some m) :
    fieldOr? "info" freeForm? [] members = some m.info ∧
      m.extra = otherFields fieldNames members := by
  rw [ofMembers?] at h
  obtain ⟨link, -, h⟩ := Option.bind_eq_some_iff.1 h
  obtain ⟨route, -, h⟩ := Option.bind_eq_some_iff.1 h
  obtain ⟨info, hinfo, h⟩ := Option.bind_eq_some_iff.1 h
  obtain ⟨dependency, -, h⟩ := Option.bind_eq_some_iff.1 h
  rw [← Option.some.inj h]
  exact ⟨hinfo, rfl⟩

theorem tidy_empty : empty.Tidy where
  info := rfl
  infoMeets := ⟨by decide, trivial⟩
  extra := rfl
  extraMeets := trivial
  others := fun _ he => absurd he List.not_mem_nil

/-- The descriptive fields of decoded metadata are in order. -/
theorem inOrder_info_of_decode? {text : String} {m : ClusterMetadata}
    (h : decode? text = some m) : (Value.object m.info).inOrder = .object m.info := by
  rcases read_of_decodeText h with rfl | ⟨members, -, hread⟩
  · exact tidy_empty.info
  · rcases read_of_fieldOr? (ofMembers?_eq_some hread).1 with hnone | ⟨v, -, hfield⟩
    · rw [hnone]
      exact tidy_empty.info
    · rw [← inOrder_of_freeForm? hfield]
      exact Value.inOrder_inOrder v

/-- **Decoded metadata without doubles** is tidy. -/
theorem tidy_of_decode? {text : String} {m : ClusterMetadata} (h : decode? text = some m)
    (hinfo : Json.membersWhole m.info = true) (hextra : Json.membersWhole m.extra = true) :
    m.Tidy := by
  have horder := inOrder_info_of_decode? h
  rcases read_of_decodeText h with rfl | ⟨members, hmeets, hread⟩
  · exact tidy_empty
  · obtain ⟨hfield, hothers⟩ := ofMembers?_eq_some hread
    constructor
    case info => exact horder
    case infoMeets =>
      rcases read_of_fieldOr? hfield with hnone | ⟨v, hv, hvalue⟩
      · rw [hnone]
        exact tidy_empty.infoMeets
      · rw [← inOrder_of_freeForm? hvalue] at horder ⊢
        refine Json.meets_kept (Value.meets_inOrder (Json.membersMeet_iff.1 hmeets _ hv)) ?_
        rw [inOrder_of_freeForm? hvalue]
        exact hinfo
    case extra =>
      rw [hothers, object_otherFields]
      exact Value.inOrder_inOrder _
    case extraMeets =>
      rw [hothers] at hextra ⊢
      exact membersMeet_otherFields hmeets hextra
    case others => exact fun e he => (mem_otherFields (hothers ▸ he)).1

/-! ## Adding a consumer -/

/-- Nothing is different but the consumers. -/
theorem Tidy.addConsumer {m : ClusterMetadata} (hm : m.Tidy) (c : Consumer) :
    (m.addConsumer c).Tidy :=
  ⟨hm.info, hm.infoMeets, hm.extra, hm.extraMeets, hm.others⟩

/-- **The consumers after one was added.** -/
theorem hasConsumer_addConsumer (m : ClusterMetadata) (c c' : Consumer) :
    (m.addConsumer c).hasConsumer c' = true ↔ m.hasConsumer c' = true ∨ c' = c := by
  rw [addConsumer, hasConsumer, hasConsumer]
  simp only [SortedMap.find?_insert]
  by_cases happ : c'.application = c.application
  · rw [if_pos happ, happ, Option.getD_some, List.contains_iff_mem, inOrder, List.mem_mergeSort,
      List.mem_append, List.mem_singleton, List.contains_iff_mem]
    refine or_congr Iff.rfl ⟨fun hcluster => ?_, fun h => h ▸ rfl⟩
    cases c
    cases c'
    simp_all
  · rw [if_neg happ]
    exact (or_iff_left fun h => happ (congrArg Consumer.application h)).symm

end ClusterMetadata

end Routing

end Treecast
