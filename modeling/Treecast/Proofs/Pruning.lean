import Treecast.Proofs.Bystanders

/-!
# Empty sections

Pruning goes over a body twice: first the empty sections are taken out of every kind, then the kinds
that are empty.  A kind that the first pass leaves without sections goes in the second one, and what
is no object stays where it is.  Nothing else is lost, so a message has entries afterwards if it had
some before, and whether it is sent does not depend on its having been pruned.

## Results

* `Message.empty_notMem_prune`: what is left has no empty section and no empty kind.
* `Message.get?_prune_of_members?_eq_none`, `Message.isSome_get?_prune_iff`: which kinds are left.
* `Message.hasEntries_prune`: pruning takes no entry.
* `Message.prune_exact`: all of it.
* `Routing.Hijack.isSome_project_iff`: a rewritten message is sent if it has an entry.
-/

set_option autoImplicit false

namespace Treecast

open Json (Value)

namespace Message

variable {m : Message} {v w : Value} {kind : String}

/-! ## What is left -/

theorem isEmptyObject_iff : v.isEmptyObject = true ↔ v = Value.emptyObject := by
  cases v <;> simp [Value.isEmptyObject, Value.emptyObject]

/-- Nothing is left of a kind whose sections are all empty. -/
theorem pruneKind_eq_emptyObject_iff :
    pruneKind v = Value.emptyObject ↔
      ∃ sections, v = .object sections ∧ ∀ s ∈ sections, s.2 = Value.emptyObject := by
  cases v with
  | object sections =>
    simp [pruneKind, Value.emptyObject, List.filter_eq_nil_iff, isEmptyObject_iff]
  | _ => simp [pruneKind, Value.emptyObject]

/-- What is no object comes from itself. -/
theorem pruneKind_eq_iff (h : w.members? = none) : pruneKind v = w ↔ v = w := by
  cases v with
  | object sections =>
    refine iff_of_false ?_ ?_ <;> rintro rfl <;> cases h
  | _ => exact Iff.rfl

/-- **What is left** of the kinds and of their sections is not empty. -/
theorem empty_notMem_prune {kinds : Entries String Value} (h : m.prune.body = .object kinds) :
    ∀ e ∈ kinds, e.2 ≠ Value.emptyObject ∧
      ∀ sections, e.2 = .object sections → ∀ s ∈ sections, s.2 ≠ Value.emptyObject := by
  intro e he
  obtain ⟨messageKind, body⟩ := m
  cases body with
  | object old =>
    cases h
    obtain ⟨hmem, hkept⟩ := List.mem_filter.1 he
    obtain ⟨⟨name, v⟩, -, rfl⟩ := List.mem_map.1 hmem
    refine ⟨fun hempty => ?_, fun sections hsections s hs hempty => ?_⟩
    · rw [isEmptyObject_iff.2 hempty] at hkept
      cases hkept
    · -- the first pass has taken it out
      cases v with
      | object before =>
        cases hsections
        have hfirst := (List.mem_filter.1 hs).2
        rw [isEmptyObject_iff.2 hempty] at hfirst
        cases hfirst
      | _ => cases hsections
  | _ => cases h

/-! ## Which kinds are left -/

/-- A kind is left as the first pass leaves it, unless nothing is left of it then. -/
theorem get?_prune_eq_some_iff (hm : m.body.SortedTo 1) :
    m.prune.body.get? kind = some w ↔
      ∃ v, m.body.get? kind = some v ∧ pruneKind v = w ∧ w ≠ Value.emptyObject := by
  rw [get?_prune hm, Option.filter_eq_some_iff, Option.map_eq_some_iff, Bool.not_eq_true',
    Bool.eq_false_iff, ne_eq, isEmptyObject_iff]
  constructor
  · rintro ⟨⟨v, hv, hprune⟩, hne⟩
    exact ⟨v, hv, hprune, hne⟩
  · rintro ⟨v, hv, hprune, hne⟩
    exact ⟨⟨v, hv, hprune⟩, hne⟩

/-- **What is no object** stays where it is. -/
theorem get?_prune_of_members?_eq_none (hm : m.body.SortedTo 1) (hw : w.members? = none) :
    m.prune.body.get? kind = some w ↔ m.body.get? kind = some w := by
  rw [get?_prune_eq_some_iff hm]
  constructor
  · rintro ⟨v, hv, hprune, -⟩
    rw [hv, (pruneKind_eq_iff hw).1 hprune]
  · intro hv
    refine ⟨w, hv, (pruneKind_eq_iff hw).2 rfl, ?_⟩
    rintro rfl
    cases hw

/-- **A kind goes** exactly if it is an object and none of its sections is anything but empty. -/
theorem isSome_get?_prune_iff (hm : m.body.SortedTo 1) :
    (m.prune.body.get? kind).isSome = true ↔ ∃ v, m.body.get? kind = some v ∧
      ∀ sections, v = .object sections → ∃ s ∈ sections, s.2 ≠ Value.emptyObject := by
  have hleft : ∀ v, pruneKind v ≠ Value.emptyObject ↔
      ∀ sections, v = .object sections → ∃ s ∈ sections, s.2 ≠ Value.emptyObject := by
    intro v
    rw [Ne, pruneKind_eq_emptyObject_iff]
    simp only [not_exists, not_and, not_forall, exists_prop]
  rw [Option.isSome_iff_exists]
  simp only [get?_prune_eq_some_iff hm, ← hleft]
  constructor
  · rintro ⟨w, v, hv, rfl, hne⟩
    exact ⟨v, hv, hne⟩
  · rintro ⟨v, hv, hne⟩
    exact ⟨_, v, hv, rfl, hne⟩

/-! ## Entries -/

theorem kindHasEntries_pruneKind (v : Value) : kindHasEntries (pruneKind v) = kindHasEntries v := by
  cases v with
  | object sections =>
    have hsection : ∀ s : Value,
        (!s.isEmptyObject && sectionHasEntries s) = sectionHasEntries s := by
      intro s
      cases s <;> simp [Value.isEmptyObject, sectionHasEntries]
    simp only [pruneKind, kindHasEntries, List.any_filter, hsection]
  | _ => rfl

/-- **Pruning takes no entry.** -/
theorem hasEntries_prune (m : Message) : m.prune.hasEntries = m.hasEntries := by
  obtain ⟨messageKind, body⟩ := m
  cases body with
  | object kinds =>
    have hkind : ∀ v : Value, (!v.isEmptyObject && kindHasEntries v) = kindHasEntries v := by
      intro v
      cases v with
      | object sections => cases sections <;> rfl
      | _ => rfl
    simp only [prune, hasEntries, List.any_filter, List.any_map, Function.comp_def, hkind,
      kindHasEntries_pruneKind]
  | _ => rfl

/-! ## All of it -/

/-- **Pruning removes exactly what is empty.**  No kind and no section is an empty object
afterwards.  A section is as it was unless it was an empty object, and is gone then; so are its
clusters.  What is no object stays, as a body, as a kind and as a section, and a kind goes only if
it is an object without any section that is not empty.  The message has entries if it had some
before, and pruning it again changes nothing. -/
theorem prune_exact (hm : m.body.inOrder = m.body) :
    (∀ kinds, m.prune.body = .object kinds → ∀ e ∈ kinds, e.2 ≠ Value.emptyObject ∧
      ∀ sections, e.2 = .object sections → ∀ s ∈ sections, s.2 ≠ Value.emptyObject) ∧
    (∀ key : FeedKey, m.clusters? key = some [] → m.prune.clusters? key = none) ∧
    (∀ (key : FeedKey) clusters, clusters ≠ [] →
      (m.prune.clusters? key = some clusters ↔ m.clusters? key = some clusters)) ∧
    (m.body.members? = none → m.prune = m) ∧
    (∀ kind v, v.members? = none →
      (m.prune.body.get? kind = some v ↔ m.body.get? kind = some v)) ∧
    (∀ kind application v, v ≠ Value.emptyObject →
      (m.prune.sectionAt? kind application = some v ↔ m.sectionAt? kind application = some v)) ∧
    (∀ kind, (m.prune.body.get? kind).isSome = true ↔ ∃ v, m.body.get? kind = some v ∧
      ∀ sections, v = .object sections → ∃ s ∈ sections, s.2 ≠ Value.emptyObject) ∧
    m.prune.hasEntries = m.hasEntries ∧ m.prune.prune = m.prune := by
  have hsorted : m.body.SortedTo 2 := Value.sortedTo_of_inOrder 2 hm
  refine ⟨fun kinds => empty_notMem_prune, fun key hkey => ?_, fun key clusters hne => ?_, ?_,
    fun kind v => get?_prune_of_members?_eq_none hsorted.of_succ, fun kind application v hne => ?_,
    fun kind => isSome_get?_prune_iff hsorted.of_succ, hasEntries_prune m, prune_prune m⟩
  · rw [clusters?_prune hsorted, hkey]
    rfl
  · rw [clusters?_prune hsorted, Option.filter_eq_some_iff, and_iff_left]
    simpa using hne
  · intro hbody
    obtain ⟨messageKind, body⟩ := m
    cases body with
    | object kinds => cases hbody
    | _ => rfl
  · rw [sectionAt?_prune hsorted, Option.filter_eq_some_iff, and_iff_left]
    rw [Bool.not_eq_true', Bool.eq_false_iff, ne_eq, isEmptyObject_iff]
    exact hne

/-- A message with a kind that only the first pass empties, one that was empty, one that is no
object, and a section with a cluster between an empty one and one that is no object. -/
def litteredMessage : Message :=
  ⟨.update, .object [("config", .object [("shop", Value.emptyObject)]),
    ("note", .string "x"),
    ("service", .object [("bank", Value.emptyObject), ("shop", .object [("a", Value.emptyObject)]),
      ("web", .array [])]),
    ("switch", Value.emptyObject)]⟩

theorem prune_exact_littered :
    litteredMessage.body.inOrder = litteredMessage.body ∧
    litteredMessage.prune = ⟨.update, .object [("note", .string "x"),
      ("service", .object [("shop", .object [("a", Value.emptyObject)]), ("web", .array [])])]⟩ ∧
    litteredMessage.prune.clusters? ⟨.config, "shop"⟩ = none ∧
    litteredMessage.prune.clusters? ⟨.service, "bank"⟩ = none ∧
    litteredMessage.prune.clusters? ⟨.service, "shop"⟩ = some [("a", Value.emptyObject)] ∧
    litteredMessage.prune.hasEntries = litteredMessage.hasEntries ∧
    litteredMessage.prune.prune = litteredMessage.prune := by
  have horder : litteredMessage.body.inOrder = litteredMessage.body := by decide +kernel
  obtain ⟨-, hgone, hkept, -, -, -, -, hentries, hagain⟩ := prune_exact horder
  exact ⟨horder, by decide +kernel, hgone _ (by decide +kernel), hgone _ (by decide +kernel),
    (hkept _ _ (List.cons_ne_nil _ _)).2 (by decide +kernel), hentries, hagain⟩

end Message

namespace Routing.Hijack

/-- **What is left to deliver**: of a message that is neither an `all` nor a `ping`, whatever has an
entry once its sections are rewritten. -/
theorem isSome_project_iff (h : Hijack) {m : Message} (hactive : h.isActive = true)
    (hall : m.kind ≠ .all) (hping : m.kind ≠ .ping) :
    (h.project m).isSome = true ↔ (h.projectSections m).hasEntries = true := by
  have hkind : (h.projectSections m).kind ≠ .all := by
    rw [kind_projectSections]
    exact hall
  have hrewrites : ¬ (m.kind = .ping ∨ (!h.isActive) = true) := by simp [hping, hactive]
  rw [project, if_neg hrewrites]
  dsimp only
  rw [if_neg hkind, Message.hasEntries_prune]
  split <;> simp_all

end Routing.Hijack

end Treecast
