import Treecast.Proofs.Declarations

/-!
# Metadata that survives rewriting

Whatever text metadata was decoded from, if it has no doubles it is written as a text that decodes
to the same metadata, in every field: strings with any characters, values of any shape in the fields
that are kept as they are.  A rewrite that replaces one interpreted field leaves all others as they
were, and the declaration of a consumer is such a rewrite.  The metadata of applications survives in
the same way.

## Results

* `ApplicationMetadata.decode?_encode`, `ApplicationMetadata.tidy_of_decode?`: metadata of
  applications.
* `Declarer.step_step`: what a declaration that nobody disturbs leaves in the store.
* `rewriting_lossless`: metadata of both sorts survives rewriting.
-/

set_option autoImplicit false

namespace Treecast

open Json (Value)

namespace Routing

/-! ## Metadata of applications -/

namespace ApplicationMetadata

/-- Metadata that is written and read back: the other fields are in order, are not nested too deep
and have no doubles, and none has the name of the one that is interpreted. -/
structure Tidy (m : ApplicationMetadata) : Prop where
  extra : (Value.object m.extra).inOrder = .object m.extra
  extraMeets : Json.MembersMeet Json.Number.Kept (Json.maxDepth - 1) m.extra
  others : ∀ e ∈ m.extra, e.1 ∉ fieldNames

/-- The default routes as they are written. -/
theorem meets_routes {p : Json.Number → Prop} (depth : Nat)
    (routes : SortedMap String (SortedMap String String)) :
    (Value.ofMap (Value.ofMap Value.string) routes).Meets p (depth + 2) :=
  Value.meets_ofMap (Value.meets_ofMap Value.meets_string) routes

/-- **Members that tidy metadata is written with** are read as that metadata. -/
theorem ofMembers?_toMembers {m : ApplicationMetadata} (hm : m.Tidy) :
    ofMembers? m.toMembers = some m := by
  have hextra : fieldValues "default_route" m.extra = [] :=
    fieldValues_of_forall_ne fun e he heq => hm.others e he (by simp [heq, fieldNames])
  have hvalues : fieldValues "default_route" m.toMembers =
      if m.defaultRoute.isEmpty then []
      else [Value.ofMap (Value.ofMap Value.string) m.defaultRoute] := by
    rw [toMembers, fieldValues_append, fieldValues_unless, hextra, List.append_nil, if_pos rfl]
  have hroutes := fieldOr?_unless hvalues SortedMap.eq_empty_of_isEmpty
    (Value.mapOf?_ofMap (Value.mapOf?_ofMap Value.text?_string) m.defaultRoute)
  have hothers : otherFields fieldNames m.toMembers = m.extra := by
    refine otherFields_append (fun e he => ?_) hm.extra hm.others
    rw [mem_unless he]
    simp [fieldNames]
  rw [ofMembers?, hroutes, hothers]
  rfl

theorem meets_toValue {m : ApplicationMetadata} (hm : m.Tidy) :
    m.toValue.Meets Json.Number.Kept Json.maxDepth := by
  refine ⟨by decide, Json.membersMeet_iff.2 fun e he => ?_⟩
  rcases List.mem_append.1 he with he | he
  · rw [mem_unless he]
    exact meets_routes _ m.defaultRoute
  · exact Json.membersMeet_iff.1 hm.extraMeets e he

/-- **Tidy metadata** is decoded from the text that it is written as. -/
theorem decode?_encode {m : ApplicationMetadata} (hm : m.Tidy) : decode? m.encode = some m :=
  (decodeText_render (meets_toValue hm)).trans (ofMembers?_toMembers hm)

/-- **Decoded metadata without doubles** is tidy. -/
theorem tidy_of_decode? {text : String} {m : ApplicationMetadata} (h : decode? text = some m)
    (hextra : Json.membersWhole m.extra = true) : m.Tidy := by
  rcases read_of_decodeText h with rfl | ⟨members, hmeets, hread⟩
  · exact ⟨rfl, trivial, fun _ he => absurd he List.not_mem_nil⟩
  · have hothers : m.extra = otherFields fieldNames members := by
      rw [ofMembers?] at hread
      obtain ⟨routes, -, hread⟩ := Option.bind_eq_some_iff.1 hread
      cases hread
      rfl
    constructor
    case extra =>
      rw [hothers, object_otherFields]
      exact Value.inOrder_inOrder _
    case extraMeets =>
      rw [hothers] at hextra ⊢
      exact membersMeet_otherFields hmeets hextra
    case others => exact fun e he => (mem_otherFields (hothers ▸ he)).1

/-- Other default routes do not matter to the fields that are kept. -/
theorem Tidy.reroute {m : ApplicationMetadata} (hm : m.Tidy)
    (routes : SortedMap String (SortedMap String String)) :
    Tidy { m with defaultRoute := routes } :=
  ⟨hm.extra, hm.extraMeets, hm.others⟩

end ApplicationMetadata

end Routing

open Routing

/-! ## A declaration that nobody disturbs -/

namespace Declarer

variable {s : Store} {d : Declarer} {node : Node} {m : ClusterMetadata}

/-- A declaration that reads and writes without anybody in between leaves the consumer in the
metadata, and all other fields as they were. -/
theorem step_step (hphase : d.phase = .reading) (hpath : Path.isWellFormed d.path = true)
    (hnode : s.nodes.find? d.path = some node) (hm : ClusterMetadata.decode? node.value = some m)
    (htidy : m.Tidy) :
    let read := step s d
    let written := step read.1 read.2
    ∃ after node', written.1.nodes.find? d.path = some node' ∧
      ClusterMetadata.decode? node'.value = some { m with dependency := after } ∧
      ∀ consumer, ClusterMetadata.hasConsumer { m with dependency := after } consumer = true ↔
        m.hasConsumer consumer = true ∨ consumer = d.consumer := by
  intro read written
  have hread : read = (s, d.onRead (.ok (some node))) := step_of_reading hphase hpath hnode
  by_cases hhas : m.hasConsumer d.consumer = true
  · have hended : read = (s, { d with phase := .ended (.ok .present) }) := by
      rw [hread]
      simp only [onRead, declareStep, hm]
      rw [if_pos hhas]
    have hwritten : written = read := by
      show step read.1 read.2 = read
      rw [hended]
      rfl
    refine ⟨m.dependency, node, ?_, hm, fun consumer => ?_⟩
    · rw [hwritten, hread]
      exact hnode
    · exact ⟨.inl, fun h => h.elim id fun heq => heq ▸ hhas⟩
  · let after : Node := ⟨(m.addConsumer d.consumer).encode, node.version + 1, node.childCount⟩
    let writing : Declarer := { d with phase := .writing after.value node.version }
    have hwriting : read = (s, writing) := by
      rw [hread]
      simp only [onRead, declareStep, hm]
      rw [if_neg hhas]
    have hwritten : written.1 = s.rewrite d.path after := by
      show (step read.1 read.2).1 = _
      rw [hwriting]
      exact congrArg Prod.fst (step_of_current (d := writing) rfl hpath hnode)
    refine ⟨(m.addConsumer d.consumer).dependency, after, ?_, ?_,
      ClusterMetadata.hasConsumer_addConsumer m d.consumer⟩
    · rw [hwritten]
      exact Store.find?_rewrite ..
    · exact ClusterMetadata.decode?_encode (htidy.addConsumer d.consumer)

end Declarer

/-! ## Main result -/

/-- **Metadata survives rewriting.**  Let a cluster's value decode to metadata without doubles.
Written as a text it decodes to itself, and so it does with any other consumers; a declaration that
reads this value and writes it back changes nothing but the consumers, of whom there may be one
more.  Metadata of an application without doubles decodes to itself as well, with any default
routes. -/
theorem rewriting_lossless (text : String) :
    (∀ m, ClusterMetadata.decode? text = some m → Json.membersWhole m.info = true →
      Json.membersWhole m.extra = true →
      ClusterMetadata.decode? m.encode = some m ∧
      (∀ after, ClusterMetadata.decode? { m with dependency := after }.encode =
        some { m with dependency := after }) ∧
      ∀ (s : Store) (d : Declarer) (node : Node), d.phase = .reading →
        Path.isWellFormed d.path = true → s.nodes.find? d.path = some node → node.value = text →
        let read := Declarer.step s d
        let written := Declarer.step read.1 read.2
        ∃ after node', written.1.nodes.find? d.path = some node' ∧
          ClusterMetadata.decode? node'.value = some { m with dependency := after } ∧
          ∀ consumer, ClusterMetadata.hasConsumer { m with dependency := after } consumer = true ↔
            m.hasConsumer consumer = true ∨ consumer = d.consumer) ∧
    ∀ m, ApplicationMetadata.decode? text = some m → Json.membersWhole m.extra = true →
      ApplicationMetadata.decode? m.encode = some m ∧
      ∀ routes, ApplicationMetadata.decode? { m with defaultRoute := routes }.encode =
        some { m with defaultRoute := routes } := by
  constructor
  · intro m hm hinfo hextra
    have htidy := ClusterMetadata.tidy_of_decode? hm hinfo hextra
    refine ⟨ClusterMetadata.decode?_encode htidy, fun after => ?_, ?_⟩
    · exact ClusterMetadata.decode?_encode
        ⟨htidy.info, htidy.infoMeets, htidy.extra, htidy.extraMeets, htidy.others⟩
    · intro s d node hphase hpath hnode hvalue
      exact Declarer.step_step hphase hpath hnode (hvalue ▸ hm) htidy
  · intro m hm hextra
    have htidy := ApplicationMetadata.tidy_of_decode? hm hextra
    exact ⟨ApplicationMetadata.decode?_encode htidy, fun routes =>
      ApplicationMetadata.decode?_encode (htidy.reroute routes)⟩

/-- A cluster's value with escaped characters, the smallest and the largest integer, and a field of
its own that is given twice. -/
def clusterText : String :=
  " \x7b\"info\":\x7b\"\\u0007\":[\x7b\"\\ud83d\\ude00\":-9223372036854775808\x7d]\x7d," ++
    "\"a\\n\":0,\"a\\n\":18446744073709551615\x7d"

def clusterMetadata : ClusterMetadata :=
  ⟨[], SortedMap.empty,
    [("\x07", .array [.object [("😀", .number (.whole (-9223372036854775808)))]])],
    SortedMap.empty, [("a\n", .nat 18446744073709551615)]⟩

/-- An application's value with default routes and a field of its own. -/
def applicationText : String :=
  "\x7b\"link\":[null], \"default_route\":\x7b\"all\":\x7b\"\\/\\\\\":\"b\"\x7d\x7d\x7d"

def applicationMetadata : ApplicationMetadata :=
  ⟨SortedMap.ofList [("all", SortedMap.ofList [("/\\", "b")])], [("link", .array [.null])]⟩

/-- Both sorts of metadata, and a declaration that reads and writes the cluster's value. -/
theorem rewriting_lossless_escapes :
    let s := Store.empty.run [.create "/service/shop/main" clusterText true]
    let d := Declarer.create "shop" "main" ⟨"app", "a"⟩ 3
    let read := Declarer.step s d
    let written := Declarer.step read.1 read.2
    ClusterMetadata.decode? clusterText = some clusterMetadata ∧
    ClusterMetadata.decode? clusterMetadata.encode = some clusterMetadata ∧
    (∃ after node, written.1.nodes.find? d.path = some node ∧
      ClusterMetadata.decode? node.value = some { clusterMetadata with dependency := after } ∧
      ClusterMetadata.hasConsumer { clusterMetadata with dependency := after } ⟨"app", "a"⟩ =
        true) ∧
    ApplicationMetadata.decode? applicationText = some applicationMetadata ∧
    ApplicationMetadata.decode? applicationMetadata.encode = some applicationMetadata := by
  intro s d read written
  have hcluster : ClusterMetadata.decode? clusterText = some clusterMetadata := by decide +kernel
  have happlication : ApplicationMetadata.decode? applicationText = some applicationMetadata := by
    decide +kernel
  have hnode : s.nodes.find? d.path = some ⟨clusterText, 0, 0⟩ := by decide +kernel
  obtain ⟨hagain, -, hdeclared⟩ :=
    (rewriting_lossless clusterText).1 _ hcluster (by decide) (by decide)
  obtain ⟨hsame, -⟩ := (rewriting_lossless applicationText).2 _ happlication (by decide)
  obtain ⟨after, node, hstored, hdecoded, hconsumers⟩ :=
    hdeclared s d ⟨clusterText, 0, 0⟩ rfl (by decide +kernel) hnode rfl
  exact ⟨hcluster, hagain, ⟨after, node, hstored, hdecoded, (hconsumers ⟨"app", "a"⟩).2 (.inr rfl)⟩,
    happlication, hsame⟩

end Treecast
