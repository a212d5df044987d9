import Treecast.Interest

/-!
# The interest index

The two maps of the index are inverse to each other, and a new instant lies after all that were
given out.  What is older than an instant is read off the map by time alone.

## Results

* `Interest.coherent_empty`, `Interest.Coherent.touch`, `Interest.Coherent.remove`,
  `Interest.Coherent.removeIfUnchanged`: every operation keeps the two maps inverse.
* `Interest.Coherent.mem_olderThan_iff`: the entries at or before an instant.
-/

set_option autoImplicit false

namespace Treecast

/-- In a list whose numbers increase, what is at most a bound comes first. -/
theorem takeWhile_le_eq_filter {α : Type} (bound : Nat) {entries : Entries Nat α}
    (hs : entries.Sorted) :
    entries.takeWhile (fun e => e.1 ≤ bound) = List.filter (fun e => e.1 ≤ bound) entries := by
  induction entries with
  | nil => rfl
  | cons e rest ih =>
    obtain ⟨hfirst, hrest⟩ := List.pairwise_cons.1 hs
    by_cases he : e.1 ≤ bound
    · rw [List.takeWhile_cons_of_pos (by simpa using he),
        List.filter_cons_of_pos (by simpa using he), ih hrest]
    · rw [List.takeWhile_cons_of_neg (by simpa using he),
        List.filter_cons_of_neg (by simpa using he)]
      refine (List.filter_eq_nil_iff.2 fun x hx => ?_).symm
      have hlt : e.1 < x.1 := Nat.compare_eq_lt.1 (hfirst x hx)
      simp only [decide_eq_true_eq]
      omega

namespace Interest

/-- The two maps are inverse to each other, and no entry lies after the last instant given out. -/
structure Coherent (i : Interest) : Prop where
  inverse : ∀ key moment, i.byKey.find? key = some moment ↔ i.byTime.find? moment = some key
  bounded : ∀ key moment, i.byKey.find? key = some moment →
    ∃ last, i.last = some last ∧ moment ≤ last

variable {i : Interest} {key other : TreeKey} {moment now : Nat}

theorem coherent_empty : empty.Coherent where
  inverse key moment := by
    constructor <;> intro h <;> cases h
  bounded key moment h := by cases h

/-! ## Lookups -/

@[simp] theorem find?_touch (i : Interest) (key : TreeKey) (now : Nat) (other : TreeKey) :
    (i.touch key now).byKey.find? other =
      if other = key then some (i.instant now) else i.byKey.find? other :=
  SortedMap.find?_insert i.byKey key (i.instant now) other

@[simp] theorem find?_remove (i : Interest) (key other : TreeKey) :
    (i.remove key).byKey.find? other = if other = key then none else i.byKey.find? other := by
  unfold remove
  split
  · exact SortedMap.find?_erase i.byKey key other
  · rename_i hnone
    by_cases he : other = key
    · rw [if_pos he, he, hnone]
    · rw [if_neg he]

/-- Forgetting succeeds if the entry is the expected one. -/
theorem removeIfUnchanged_snd (i : Interest) (key : TreeKey) (moment : Nat) :
    (i.removeIfUnchanged key moment).2 = i.isLast key moment := by
  unfold removeIfUnchanged
  split
  · rename_i h
    rw [h]
  · rename_i h
    exact (Bool.eq_false_iff.2 h).symm

theorem find?_removeIfUnchanged (i : Interest) (key : TreeKey) (moment : Nat) (other : TreeKey) :
    (i.removeIfUnchanged key moment).1.byKey.find? other =
      if other = key ∧ i.isLast key moment = true then none else i.byKey.find? other := by
  unfold removeIfUnchanged
  split
  · rename_i h
    simp only [SortedMap.find?_erase, h, and_true]
  · rename_i h
    simp only [h, Bool.false_eq_true, and_false, if_false]

theorem isLast_iff : i.isLast key moment = true ↔ i.byKey.find? key = some moment := by
  rw [isLast, beq_iff_eq]

/-! ## The last instant -/

/-- An instant lies after the last one that was given out. -/
theorem lt_instant_of_last {last : Nat} (hlast : i.last = some last) (now : Nat) :
    last < i.instant now := by
  unfold instant
  rw [hlast]
  dsimp only
  split <;> omega

theorem last_remove (i : Interest) (key : TreeKey) : (i.remove key).last = i.last := by
  unfold remove
  split <;> rfl

theorem last_removeIfUnchanged (i : Interest) (key : TreeKey) (moment : Nat) :
    (i.removeIfUnchanged key moment).1.last = i.last := by
  unfold removeIfUnchanged
  split <;> rfl

/-! ## The two maps stay inverse -/

/-- A new instant lies after every entry. -/
theorem Coherent.lt_instant (hi : i.Coherent) (hkey : i.byKey.find? key = some moment) (now : Nat) :
    moment < i.instant now := by
  obtain ⟨last, hlast, hle⟩ := hi.bounded key moment hkey
  exact Nat.lt_of_le_of_lt hle (lt_instant_of_last hlast now)

/-- No two trees share an instant. -/
theorem Coherent.eq_of_moment (hi : i.Coherent) (hkey : i.byKey.find? key = some moment)
    (hother : i.byKey.find? other = some moment) : key = other :=
  Option.some.inj (((hi.inverse key moment).1 hkey).symm.trans ((hi.inverse other moment).1 hother))

/-- One entry less in both maps. -/
theorem Coherent.erase (hi : i.Coherent) (hkey : i.byKey.find? key = some moment) :
    Coherent { i with byTime := i.byTime.erase moment, byKey := i.byKey.erase key } := by
  refine ⟨fun other m => ?_, fun other m h => ?_⟩
  · simp only [SortedMap.find?_erase]
    by_cases ho : other = key
    · subst ho
      rw [if_pos rfl]
      constructor
      · intro h
        cases h
      · intro h
        split at h
        · cases h
        · rename_i hne
          have hm := (hi.inverse other m).2 h
          rw [hkey] at hm
          exact absurd (Option.some.inj hm).symm hne
    · rw [if_neg ho, hi.inverse other m]
      by_cases hm : m = moment
      · subst hm
        rw [if_pos rfl]
        constructor
        · intro h
          exact absurd (hi.eq_of_moment ((hi.inverse other m).2 h) hkey) ho
        · intro h
          cases h
      · rw [if_neg hm]
  · simp only [SortedMap.find?_erase] at h
    split at h
    · cases h
    · exact hi.bounded other m h

theorem Coherent.remove (hi : i.Coherent) (key : TreeKey) : (i.remove key).Coherent := by
  unfold Interest.remove
  split
  · rename_i moment hkey
    exact hi.erase hkey
  · exact hi

theorem Coherent.removeIfUnchanged (hi : i.Coherent) (key : TreeKey) (moment : Nat) :
    (i.removeIfUnchanged key moment).1.Coherent := by
  unfold Interest.removeIfUnchanged
  split
  · rename_i h
    exact hi.erase (isLast_iff.1 h)
  · exact hi

/-- An entry for a tree that has none, at a new instant. -/
theorem Coherent.insert (hi : i.Coherent) (hkey : i.byKey.find? key = none) (now : Nat) :
    Coherent ⟨i.byTime.insert (i.instant now) key, i.byKey.insert key (i.instant now),
      some (i.instant now)⟩ := by
  refine ⟨fun other m => ?_, fun other m h => ?_⟩
  · simp only [SortedMap.find?_insert]
    by_cases ho : other = key
    · subst ho
      rw [if_pos rfl]
      by_cases hm : m = i.instant now
      · simp [hm]
      · rw [if_neg hm]
        refine ⟨fun h => absurd (Option.some.inj h).symm hm, fun h => ?_⟩
        rw [(hi.inverse other m).2 h] at hkey
        cases hkey
    · rw [if_neg ho]
      by_cases hm : m = i.instant now
      · rw [if_pos hm]
        refine ⟨fun h => ?_, fun h => absurd (Option.some.inj h).symm ho⟩
        have hlt := hi.lt_instant h now
        omega
      · rw [if_neg hm]
        exact hi.inverse other m
  · simp only [SortedMap.find?_insert] at h
    refine ⟨i.instant now, rfl, ?_⟩
    split at h
    · exact Nat.le_of_eq (Option.some.inj h).symm
    · exact Nat.le_of_lt (hi.lt_instant h now)

theorem Coherent.touch (hi : i.Coherent) (key : TreeKey) (now : Nat) :
    (i.touch key now).Coherent := by
  cases hkey : i.byKey.find? key with
  | none =>
    have heq : i.touch key now = ⟨i.byTime.insert (i.instant now) key,
        i.byKey.insert key (i.instant now), some (i.instant now)⟩ := by
      rw [Interest.touch, hkey]
    rw [heq]
    exact hi.insert hkey now
  | some previous =>
    -- the tree's former entry may as well be forgotten first
    have heq : i.touch key now = ⟨(i.byTime.erase previous).insert (i.instant now) key,
        (i.byKey.erase key).insert key (i.instant now), some (i.instant now)⟩ := by
      have hbyKey : i.byKey.insert key (i.instant now) =
          (i.byKey.erase key).insert key (i.instant now) := by
        refine SortedMap.ext_find? fun other => ?_
        simp only [SortedMap.find?_insert, SortedMap.find?_erase]
        split <;> rfl
      rw [Interest.touch, hkey, hbyKey]
    rw [heq]
    exact (hi.erase hkey).insert (by simp) now

/-! ## Old entries -/

theorem olderThan_eq_filter (i : Interest) (cutoff : Nat) :
    i.olderThan cutoff = List.filter (fun e => e.1 ≤ cutoff) i.byTime.toList :=
  takeWhile_le_eq_filter cutoff i.byTime.sorted

/-- **The entries at or before an instant.** -/
theorem Coherent.mem_olderThan_iff (hi : i.Coherent) {cutoff : Nat} :
    (moment, key) ∈ i.olderThan cutoff ↔ i.byKey.find? key = some moment ∧ moment ≤ cutoff := by
  rw [olderThan_eq_filter, List.mem_filter, SortedMap.mem_toList_iff, ← hi.inverse,
    decide_eq_true_eq]

/-- Every tree has one instant. -/
theorem Coherent.nodup_trees (hi : i.Coherent) : i.byTime.values.Nodup := by
  refine SortedMap.nodup_values fun moment other key h hother => ?_
  have hfind := (hi.inverse key moment).2 h
  rw [(hi.inverse key other).2 hother] at hfind
  exact (Option.some.inj hfind).symm

/-- Every tree is listed once. -/
theorem Coherent.nodup_olderThan (hi : i.Coherent) (cutoff : Nat) :
    ((i.olderThan cutoff).map Prod.snd).Nodup := by
  have hsublist : (i.olderThan cutoff).Sublist i.byTime.toList := List.takeWhile_sublist _
  exact hi.nodup_trees.sublist (hsublist.map Prod.snd)

end Interest

end Treecast
