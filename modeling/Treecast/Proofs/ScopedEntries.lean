import Treecast.Routing.Policy

/-!
# Whom a scoped entry answers

Tables of routes and of hijack modes have entries for one name within another, under the key
`<outer>@<inner>`, and entries for a name alone.  A name may contain `@` itself, and so a key may be
split in several ways, and may be a name: an entry answers for all of these.  It answers for nobody
else, and if no application has an `@` in its name, only for the pair that it was written for.

## Results

* `scopedKey_eq_iff`: the pairs that have one key.
* `ClusterMetadata.routeTo?_withRoute`, `Policy.hijackMode_withModes`: the lookups that a table with
  one entry answers.
* `scoped_entries_exact`: whom a scoped entry answers.
* `scoped_entries_stray`: it may answer for others than were meant.
-/

set_option autoImplicit false

namespace Treecast.Routing

/-! ## Keys of pairs -/

variable {outer inner outer' inner' : String}

theorem toList_scopedKey (outer inner : String) :
    (scopedKey outer inner).toList = outer.toList ++ '@' :: inner.toList := by
  rw [scopedKey, String.toList_append, String.toList_append, List.append_assoc]
  rfl

/-- The key of a pair is also that of another one, whose outer name takes a part of the inner name,
up to a later `@`. -/
def Shifts (outer inner outer' inner' : String) : Prop :=
  ∃ middle, outer' = scopedKey outer middle ∧ inner = scopedKey middle inner'

theorem Shifts.scopedKey_eq (h : Shifts outer inner outer' inner') :
    scopedKey outer inner = scopedKey outer' inner' := by
  obtain ⟨middle, rfl, rfl⟩ := h
  simp only [scopedKey, String.append_assoc]

/-- The inner name of a key that is split at a later place. -/
theorem shifts_of_toList {between : List Char}
    (houter : outer'.toList = outer.toList ++ between)
    (hinner : '@' :: inner.toList = between ++ '@' :: inner'.toList) (hne : between ≠ []) :
    Shifts outer inner outer' inner' := by
  obtain ⟨c, middle, rfl⟩ := List.exists_cons_of_ne_nil hne
  obtain ⟨rfl, hmiddle⟩ : '@' = c ∧ inner.toList = middle ++ '@' :: inner'.toList :=
    List.cons.inj hinner
  refine ⟨String.ofList middle, ?_, ?_⟩
  · apply String.toList_inj.1
    rw [toList_scopedKey, String.toList_ofList, houter]
  · apply String.toList_inj.1
    rw [toList_scopedKey, String.toList_ofList, hmiddle]

/-- **Pairs with one key** are the same, or one takes from the other. -/
theorem scopedKey_eq_iff : scopedKey outer inner = scopedKey outer' inner' ↔
    (outer = outer' ∧ inner = inner') ∨ Shifts outer inner outer' inner' ∨
      Shifts outer' inner' outer inner := by
  constructor
  · intro h
    have hchars := congrArg String.toList h
    rw [toList_scopedKey, toList_scopedKey] at hchars
    rcases List.append_eq_append_iff.1 hchars with
      ⟨between, houter, hinner⟩ | ⟨between, houter, hinner⟩
    · by_cases hnil : between = []
      · subst hnil
        rw [List.append_nil] at houter
        exact .inl ⟨(String.toList_inj.1 houter).symm, String.toList_inj.1 (List.cons.inj hinner).2⟩
      · exact .inr (.inl (shifts_of_toList houter hinner hnil))
    · by_cases hnil : between = []
      · subst hnil
        rw [List.append_nil] at houter
        exact .inl ⟨String.toList_inj.1 houter, (String.toList_inj.1 (List.cons.inj hinner).2).symm⟩
      · exact .inr (.inr (shifts_of_toList houter hinner hnil))
  · rintro (⟨rfl, rfl⟩ | h | h)
    · rfl
    · exact h.scopedKey_eq
    · exact h.scopedKey_eq.symm

theorem mem_scopedKey (outer inner : String) : '@' ∈ (scopedKey outer inner).toList := by
  rw [toList_scopedKey]
  exact List.mem_append_right _ List.mem_cons_self

/-- An outer name that took something has an `@`. -/
theorem Shifts.mem (h : Shifts outer inner outer' inner') : '@' ∈ outer'.toList := by
  obtain ⟨middle, rfl, -⟩ := h
  exact mem_scopedKey outer middle

/-! ## Tables with one entry -/

/-- The table with one entry. -/
def only {α : Type} (key : String) (value : α) : SortedMap String α :=
  SortedMap.empty.insert key value

theorem find?_only {α : Type} (key : String) (value : α) (other : String) :
    (only key value).find? other = if other = key then some value else none :=
  SortedMap.find?_insert _ _ _ _

/-- The same metadata with only one route. -/
def ClusterMetadata.withRoute (m : ClusterMetadata) (key cluster : String) : ClusterMetadata :=
  { m with route := only key cluster }

/-- The same policy with these hijack modes of callers. -/
def Policy.withModes (p : Policy) (modes : SortedMap String HijackMode) : Policy :=
  { p with hijack := { p.hijack with modes } }

/-- **A single route** answers a lookup under its key, and one for the direct intent of what its key
names. -/
theorem ClusterMetadata.routeTo?_withRoute (m : ClusterMetadata) (key cluster : String)
    (destination intent : String) :
    (m.withRoute key cluster).routeTo? destination intent =
      if scopedKey destination intent = key ∨ intent = directIntent ∧ destination = key then
        some cluster
      else none := by
  rw [routeTo?, withRoute]
  simp only [find?_only]
  by_cases hscoped : scopedKey destination intent = key <;>
    by_cases hintent : intent = directIntent <;>
      by_cases hbare : destination = key <;> simp [hscoped, hintent, hbare]

/-- **A single mode** decides for the caller whose cluster or application has its key; the mode of
any other caller is what it is without. -/
theorem Policy.hijackMode_withModes (p : Policy) (key : String) (mode : HijackMode)
    (application cluster : String) :
    (p.withModes (only key mode)).hijackMode application (some cluster) =
      if scopedKey application cluster = key ∨ application = key then mode
      else (p.withModes SortedMap.empty).hijackMode application (some cluster) := by
  simp only [hijackMode, withModes, Option.bind_some, find?_only, SortedMap.find?_empty]
  by_cases hscoped : scopedKey application cluster = key
  · simp [hscoped]
  · rw [if_neg hscoped]
    by_cases hbare : application = key
    · simp [hbare]
    · rw [if_neg hbare, if_neg (not_or.2 ⟨hscoped, hbare⟩)]
      rfl

/-! ## Main result -/

/-- **A scoped entry answers** for the pairs that have its key: the one that it was written for, and
those that are the same text split at another `@`.  Where a name alone is looked up, it answers for
the name that is its key: as a destination for the direct intent, or as an application that calls
from any cluster.  If neither outer name has an `@`, it answers for no pair but its own. -/
theorem scoped_entries_exact (outer inner outer' inner' : String) :
    (∀ (m : ClusterMetadata) (cluster : String),
      (m.withRoute (scopedKey outer inner) cluster).routeTo? outer' inner' =
        if scopedKey outer' inner' = scopedKey outer inner ∨
            inner' = directIntent ∧ outer' = scopedKey outer inner then some cluster
        else none) ∧
    (∀ (p : Policy) (mode : HijackMode),
      (p.withModes (only (scopedKey outer inner) mode)).hijackMode outer' (some inner') =
        if scopedKey outer' inner' = scopedKey outer inner ∨ outer' = scopedKey outer inner then
          mode
        else (p.withModes SortedMap.empty).hijackMode outer' (some inner')) ∧
    (scopedKey outer' inner' = scopedKey outer inner ↔
      (outer' = outer ∧ inner' = inner) ∨ Shifts outer' inner' outer inner ∨
        Shifts outer inner outer' inner') ∧
    ('@' ∉ outer.toList → '@' ∉ outer'.toList → (outer', inner') ≠ (outer, inner) →
      (∀ (m : ClusterMetadata) (cluster : String),
        (m.withRoute (scopedKey outer inner) cluster).routeTo? outer' inner' = none) ∧
      ∀ (p : Policy) (mode : HijackMode),
        (p.withModes (only (scopedKey outer inner) mode)).hijackMode outer' (some inner') =
          (p.withModes SortedMap.empty).hijackMode outer' (some inner')) := by
  refine ⟨fun m cluster => m.routeTo?_withRoute _ cluster outer' inner',
    fun p mode => p.hijackMode_withModes _ mode outer' inner', scopedKey_eq_iff,
    fun houter houter' hne => ?_⟩
  have hscoped : scopedKey outer' inner' ≠ scopedKey outer inner := by
    intro heq
    rcases scopedKey_eq_iff.1 heq with ⟨rfl, rfl⟩ | h | h
    · exact hne rfl
    · exact houter h.mem
    · exact houter' h.mem
  have hbare : outer' ≠ scopedKey outer inner := by
    rintro rfl
    exact houter' (mem_scopedKey outer inner)
  constructor
  · intro m cluster
    rw [ClusterMetadata.routeTo?_withRoute, if_neg]
    exact not_or.2 ⟨hscoped, fun h => hbare h.2⟩
  · intro p mode
    rw [Policy.hijackMode_withModes, if_neg (not_or.2 ⟨hscoped, hbare⟩)]

/-- An entry for the intent `b@direct` of `shop`, and a lookup for another destination. -/
theorem scoped_entries_exact_shop :
    (ClusterMetadata.empty.withRoute "shop@b@direct" "main").routeTo? "web" "b@direct" = none ∧
      (Policy.standard.withModes (only "shop@b@direct" .enabled)).hijackMode "web"
        (some "b@direct") = .disabled := by
  obtain ⟨hroute, hmode⟩ := (scoped_entries_exact "shop" "b@direct" "web" "b@direct").2.2.2
    (by decide) (by decide) (by decide)
  refine ⟨hroute ClusterMetadata.empty "main", ?_⟩
  exact (hmode Policy.standard .enabled).trans (by decide)

/-- **Entries that answer for others.**  All names are valid.  The route written for the intent
`b@c` of `a` answers for the intent `c` of `a@b`, and the one written for the intent `b` of `a`
answers for the direct intent of `a@b`; so do the modes of these pairs. -/
theorem scoped_entries_stray :
    (∀ name ∈ ["a", "b", "c", "a@b", "b@c", directIntent], isValidName name = true) ∧
    (ClusterMetadata.empty.withRoute (scopedKey "a" "b@c") "x").routeTo? "a@b" "c" = some "x" ∧
    (ClusterMetadata.empty.withRoute (scopedKey "a" "b") "x").routeTo? "a@b" directIntent =
      some "x" ∧
    (Policy.standard.withModes (only (scopedKey "a" "b@c") .enabled)).hijackMode "a@b" (some "c") =
      .enabled ∧
    (Policy.standard.withModes (only (scopedKey "a" "b") .enabled)).hijackMode "a@b" (some "c") =
      .enabled ∧
    (Policy.standard.withModes SortedMap.empty).hijackMode "a@b" (some "c") = .disabled := by
  decide

end Treecast.Routing
