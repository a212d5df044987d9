import Mathlib.Data.List.Induction
import Treecast.Proofs.ChangeLog
import Treecast.Proofs.InterestIndex

/-!
# The timeline of interest

Whatever is called on an empty index, and whatever the clock reads meanwhile, the instants that
the touches return only grow (`Interest.timeline`).  What the index lists is what is left of that
timeline: a touch stays in it until its tree is touched again or forgotten (`Interest.Holds`).

The calls are read from their back: one more call either enters what is asked for, or ends it, or
changes nothing (`Interest.holds_concat`), and so does the index (`Interest.find?_call`).

## Results

* `Interest.timeline_increasing`: an instant lies after all that were returned before it.
* `Interest.find?_run`: what the index knows of a tree, from the calls alone.
* `Interest.Coherent.run_sublist`: what the index lists, it lists in the order of the touches.
* `Interest.timeline_exact`: all of the index from its calls.
-/

set_option autoImplicit false

namespace Treecast

namespace Interest

/-! ## Calls -/

/-- A call on the index. -/
inductive Call where
  | touch (key : TreeKey) (now : Nat)
  | remove (key : TreeKey)
  | removeIfUnchanged (key : TreeKey) (moment : Nat)

/-- The index after a call. -/
def call (i : Interest) : Call → Interest
  | .touch key now => i.touch key now
  | .remove key => i.remove key
  | .removeIfUnchanged key moment => (i.removeIfUnchanged key moment).1

/-- The index after the calls. -/
def run (i : Interest) (calls : List Call) : Interest := calls.foldl call i

/-- The instant that a touch returns, with the tree that is touched. -/
def entered (i : Interest) : Call → List (Nat × TreeKey)
  | .touch key now => [(i.instant now, key)]
  | .remove _ | .removeIfUnchanged _ _ => []

/-- What the touches among the calls return, in their order. -/
def timeline (i : Interest) : List Call → List (Nat × TreeKey)
  | [] => []
  | c :: calls => i.entered c ++ (i.call c).timeline calls

/-- A call after which a touch of the tree that returned the instant counts no more: the tree is
touched again, or forgotten, or forgotten if that touch was the last. -/
def Call.Ends (key : TreeKey) (moment : Nat) : Call → Prop
  | .touch other _ => other = key
  | .remove other => other = key
  | .removeIfUnchanged other noted => other = key ∧ noted = moment

/-- The latest touch of the tree returned the instant, and the tree was not forgotten since. -/
def Holds (calls : List Call) (key : TreeKey) (moment : Nat) : Prop :=
  ∃ before c after, calls = before ++ c :: after ∧
    (∃ now, c = .touch key now ∧ (empty.run before).instant now = moment) ∧
      ∀ later ∈ after, ¬ later.Ends key moment

variable {i : Interest} {c : Call} {calls : List Call} {key : TreeKey} {moment last : Nat}

theorem run_concat (i : Interest) (calls : List Call) (c : Call) :
    i.run (calls ++ [c]) = (i.run calls).call c :=
  List.foldl_append

theorem not_holds_nil : ¬ Holds [] key moment := by
  rintro ⟨before, now, after, heq, -⟩
  have hlength := congrArg List.length heq
  simp at hlength

/-- One more call is the touch, or does not end it. -/
theorem holds_concat (calls : List Call) (c : Call) :
    Holds (calls ++ [c]) key moment ↔
      (∃ now, c = .touch key now ∧ (empty.run calls).instant now = moment) ∨
        (¬ c.Ends key moment ∧ Holds calls key moment) :=
  exists_split_concat_iff (fun before (c : Call) => ∃ now, c = .touch key now ∧
    (empty.run before).instant now = moment) (Call.Ends key moment)

/-! ## Instants only grow -/

/-- The instants that later touches return lie after the last one. -/
theorem lt_of_mem_timeline (hlast : i.last = some last) {entry : Nat × TreeKey}
    (h : entry ∈ i.timeline calls) : last < entry.1 := by
  induction calls generalizing i last with
  | nil => cases h
  | cons c calls ih =>
    rcases List.mem_append.1 h with h | h
    · cases c with
      | touch key now =>
        rw [List.mem_singleton.1 h]
        exact lt_instant_of_last hlast now
      | remove key => cases h
      | removeIfUnchanged key moment => cases h
    · cases c with
      | touch key now => exact Nat.lt_trans (lt_instant_of_last hlast now) (ih rfl h)
      | remove key => exact ih ((i.last_remove key).trans hlast) h
      | removeIfUnchanged key moment =>
        exact ih ((i.last_removeIfUnchanged key moment).trans hlast) h

/-- **A touch returns an instant after all that were returned before it.** -/
theorem timeline_increasing (i : Interest) (calls : List Call) :
    (i.timeline calls).Pairwise fun a b => a.1 < b.1 := by
  induction calls generalizing i with
  | nil => exact List.Pairwise.nil
  | cons c calls ih =>
    refine List.pairwise_append.2 ⟨?_, ih (i.call c), fun a ha b hb => ?_⟩
    · cases c with
      | touch key now => exact List.pairwise_singleton _ _
      | remove key => exact List.Pairwise.nil
      | removeIfUnchanged key moment => exact List.Pairwise.nil
    · cases c with
      | touch key now =>
        rw [List.mem_singleton.1 ha]
        exact lt_of_mem_timeline rfl hb
      | remove key => cases ha
      | removeIfUnchanged key moment => cases ha

/-- A clock that stands still, and then goes backwards. -/
example (a b : TreeKey) :
    empty.timeline [.touch a 5, .touch b 5, .touch a 3] = [(5, a), (6, b), (7, a)] := rfl

/-! ## One call -/

theorem Coherent.call (hi : i.Coherent) (c : Call) : (i.call c).Coherent := by
  cases c with
  | touch key now => exact hi.touch key now
  | remove key => exact hi.remove key
  | removeIfUnchanged key moment => exact hi.removeIfUnchanged key moment

/-- What the index knows of a tree is what the call enters, or what it does not end. -/
theorem find?_call (i : Interest) (c : Call) (key : TreeKey) (moment : Nat) :
    (i.call c).byKey.find? key = some moment ↔
      (∃ now, c = .touch key now ∧ i.instant now = moment) ∨
        (¬ c.Ends key moment ∧ i.byKey.find? key = some moment) := by
  cases c with
  | touch other now =>
    simp only [Interest.call, find?_touch, Call.touch.injEq, Call.Ends]
    by_cases he : key = other
    · simp [he]
    · simp [he, Ne.symm he]
  | remove other =>
    simp only [Interest.call, find?_remove, Call.Ends]
    by_cases he : key = other
    · simp [he]
    · simp [he, Ne.symm he]
  | removeIfUnchanged other noted =>
    simp only [Interest.call, find?_removeIfUnchanged, isLast_iff, Call.Ends]
    by_cases he : key = other
    · subst he
      by_cases hnoted : i.byKey.find? key = some noted
      · simp [hnoted]
      · simp only [hnoted, and_false, if_false]
        refine ⟨fun h => .inr ⟨fun hends => hnoted (hends.2 ▸ h), h⟩, ?_⟩
        rintro (⟨now, hcall, -⟩ | ⟨-, h⟩)
        · cases hcall
        · exact h
    · simp [he, Ne.symm he]

/-- A call lists nothing new but what it enters, and that last. -/
theorem Coherent.call_sublist (hi : i.Coherent) (c : Call) :
    (i.call c).byTime.toList.Sublist (i.byTime.toList ++ i.entered c) := by
  cases c with
  | touch key now =>
    have hinsert : ∀ {kept : SortedMap Nat TreeKey}, kept.toList.Sublist i.byTime.toList →
        (kept.insert (i.instant now) key).toList.Sublist
          (i.byTime.toList ++ [(i.instant now, key)]) := by
      intro kept hkept
      have hlast : (kept.insert (i.instant now) key).toList =
          kept.toList ++ [(i.instant now, key)] := by
        refine Entries.insert_of_forall_lt key fun e he => Nat.compare_eq_lt.2 ?_
        have hfind := SortedMap.mem_toList_iff.1 (hkept.subset he)
        exact hi.lt_instant ((hi.inverse e.2 e.1).2 hfind) now
      rw [hlast]
      exact hkept.append_right _
    unfold Interest.call Interest.touch
    dsimp only
    split
    · exact hinsert (Entries.erase_sublist _ _)
    · exact hinsert (List.Sublist.refl _)
  | remove key =>
    rw [entered, List.append_nil, Interest.call, Interest.remove]
    split
    · exact Entries.erase_sublist _ _
    · exact List.Sublist.refl _
  | removeIfUnchanged key moment =>
    rw [entered, List.append_nil, Interest.call, Interest.removeIfUnchanged]
    split
    · exact Entries.erase_sublist _ _
    · exact List.Sublist.refl _

/-! ## All calls -/

theorem Coherent.run (hi : i.Coherent) (calls : List Call) : (i.run calls).Coherent := by
  induction calls generalizing i with
  | nil => exact hi
  | cons c calls ih => exact ih (hi.call c)

/-- The index knows of a tree what its latest touch returned, unless it was forgotten since. -/
theorem find?_run (calls : List Call) (key : TreeKey) (moment : Nat) :
    (empty.run calls).byKey.find? key = some moment ↔ Holds calls key moment := by
  induction calls using List.reverseRecOn with
  | nil => exact ⟨nofun, fun h => absurd h not_holds_nil⟩
  | append_singleton calls c ih => rw [run_concat, find?_call, holds_concat, ih]

/-- What the index lists is part of what it listed before and of the timeline, in that order. -/
theorem Coherent.run_sublist (hi : i.Coherent) (calls : List Call) :
    (i.run calls).byTime.toList.Sublist (i.byTime.toList ++ i.timeline calls) := by
  induction calls generalizing i with
  | nil =>
    rw [timeline, List.append_nil]
    exact List.Sublist.refl _
  | cons c calls ih =>
    rw [timeline, ← List.append_assoc]
    exact (ih (hi.call c)).trans ((hi.call_sublist c).append_right _)

/-- **All of the index from its calls.**  The two maps are inverse to each other, without an
instant or a tree that occurs twice, and nothing in them is later than the last instant given
out.  Whatever the clock reads, the touches return ever later instants.  The index lists, in the
order of the touches, those that were the latest of their tree and were not forgotten since; what
is older than an instant is what of these returned no later one. -/
theorem timeline_exact (calls : List Call) :
    (∀ key moment, (empty.run calls).byKey.find? key = some moment ↔
      (empty.run calls).byTime.find? moment = some key) ∧
    (empty.run calls).byTime.keys.Nodup ∧ (empty.run calls).byTime.values.Nodup ∧
    (empty.run calls).byKey.keys.Nodup ∧ (empty.run calls).byKey.values.Nodup ∧
    (∀ moment ∈ (empty.run calls).byTime.keys,
      ∃ last, (empty.run calls).last = some last ∧ moment ≤ last) ∧
    (empty.timeline calls).Pairwise (fun a b => a.1 < b.1) ∧
    (empty.run calls).byTime.toList.Sublist (empty.timeline calls) ∧
    (∀ key moment, (moment, key) ∈ (empty.run calls).byTime.toList ↔ Holds calls key moment) ∧
    (∀ cutoff, ((empty.run calls).olderThan cutoff).Sublist (empty.timeline calls) ∧
      ∀ key moment, (moment, key) ∈ (empty.run calls).olderThan cutoff ↔
        Holds calls key moment ∧ moment ≤ cutoff) ∧
    (∀ key moment, ((empty.run calls).removeIfUnchanged key moment).2 = true ↔
      Holds calls key moment) := by
  have hi : (empty.run calls).Coherent := coherent_empty.run calls
  have hsublist : (empty.run calls).byTime.toList.Sublist (empty.timeline calls) :=
    coherent_empty.run_sublist calls
  refine ⟨hi.inverse, SortedMap.nodup_keys _, hi.nodup_trees, SortedMap.nodup_keys _, ?_, ?_,
    timeline_increasing empty calls, hsublist, ?_, fun cutoff => ⟨?_, ?_⟩, ?_⟩
  · exact SortedMap.nodup_values fun key other moment h hother => hi.eq_of_moment h hother
  · intro moment hmoment
    obtain ⟨key, hkey⟩ := Option.isSome_iff_exists.1 (SortedMap.mem_keys_iff.1 hmoment)
    exact hi.bounded key moment ((hi.inverse key moment).2 hkey)
  · intro key moment
    rw [SortedMap.mem_toList_iff, ← hi.inverse, find?_run]
  · rw [olderThan_eq_filter]
    exact List.filter_sublist.trans hsublist
  · intro key moment
    rw [hi.mem_olderThan_iff, find?_run]
  · intro key moment
    rw [removeIfUnchanged_snd, isLast_iff, find?_run]

end Interest

end Treecast
