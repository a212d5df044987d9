import Treecast.Proofs.HubActs
import Treecast.Settings.Check

/-!
# Sweeps, candidate by candidate

A sweep works through a list of old entries of the interest index.  As the trees of the list are
all different, what becomes of one candidate does not depend on the others: it is evicted exactly
if it was idle with that entry when the sweep began.

## Results

* `Hub.slot?_evictAll`, `Hub.evictAll_snd`: who is evicted.
* `Hub.find?_purge`: which entries are dropped.
* `Hub.evictStale_idle`: after the evictions every idle holder has an entry after the cutoff, or
  none.
-/

set_option autoImplicit false

namespace Treecast

/-- Settings that pass the check keep entries for longer than idle holders. -/
theorem SweepSettings.retention_lt_horizon {settings : SweepSettings}
    (hvalid : settings.check = .ok ()) :
    settings.retentionSeconds < settings.staleHorizonSeconds := by
  refine Nat.lt_of_not_le fun hle => ?_
  unfold check refuseIf at hvalid
  rw [decide_eq_true hle] at hvalid
  split at hvalid <;> cases hvalid

namespace Hub

variable {h : Hub} {key other : TreeKey} {s : Slot} {moment now cutoff : Nat}

/-- When interest in a tree was last noted, unless the entry was dropped since. -/
def interestIn? (h : Hub) (key : TreeKey) : Option Nat := h.interest.byKey.find? key

/-- Whether a sweep that found an entry evicts the holder of its tree. -/
def isEvictable (h : Hub) (e : Nat × TreeKey) : Bool :=
  (h.slot? e.2).any (·.refs = 0) && h.interest.isLast e.2 e.1

theorem isEvictable_iff {e : Nat × TreeKey} :
    h.isEvictable e = true ↔
      (∃ s, h.slot? e.2 = some s ∧ s.refs = 0) ∧ h.interestIn? e.2 = some e.1 := by
  rw [isEvictable, Bool.and_eq_true, Interest.isLast_iff, interestIn?, Option.any_eq_true]
  simp only [decide_eq_true_eq]

/-! ## One candidate -/

theorem evictIdle_of_evictable (he : h.isEvictable (moment, key) = true) :
    ∃ s, h.slot? key = some s ∧
      h.evictIdle key moment =
        ((Hub.unregister { h with interest := (h.interest.removeIfUnchanged key moment).1 } key
          s).count .evictions, true) := by
  obtain ⟨⟨s, hs, hzero⟩, hlast⟩ := isEvictable_iff.1 he
  refine ⟨s, hs, ?_⟩
  have hremove : h.interest.removeIfUnchanged key moment =
      ((h.interest.removeIfUnchanged key moment).1, true) :=
    Prod.ext rfl ((h.interest.removeIfUnchanged_snd key moment).trans (Interest.isLast_iff.2 hlast))
  unfold evictIdle
  rw [hs]
  dsimp only
  rw [if_pos hzero, hremove]

theorem evictIdle_of_not (he : h.isEvictable (moment, key) = false) :
    h.evictIdle key moment = (h, false) := by
  unfold evictIdle
  split
  · rename_i s hs
    split
    · rename_i hzero
      split
      · rename_i interest hremove
        have hlast := (h.interest.removeIfUnchanged_snd key moment).symm.trans
          (congrArg Prod.snd hremove)
        have : h.isEvictable (moment, key) = true :=
          isEvictable_iff.2 ⟨⟨s, hs, hzero⟩, Interest.isLast_iff.1 hlast⟩
        rw [this] at he
        cases he
      · rfl
    · rfl
  · rfl

theorem evictIdle_snd (h : Hub) (key : TreeKey) (moment : Nat) :
    (h.evictIdle key moment).2 = h.isEvictable (moment, key) := by
  cases he : h.isEvictable (moment, key) with
  | true =>
    obtain ⟨s, -, heq⟩ := evictIdle_of_evictable he
    rw [heq]
  | false => rw [evictIdle_of_not he]

theorem slot?_evictIdle (h : Hub) (key : TreeKey) (moment : Nat) (other : TreeKey) :
    (h.evictIdle key moment).1.slot? other =
      if other = key ∧ h.isEvictable (moment, key) = true then none else h.slot? other := by
  cases he : h.isEvictable (moment, key) with
  | true =>
    obtain ⟨s, -, heq⟩ := evictIdle_of_evictable he
    rw [heq]
    simp only [and_true]
    exact slot?_unregister _ key s other
  | false =>
    rw [evictIdle_of_not he]
    simp

theorem interestIn?_evictIdle (h : Hub) (key : TreeKey) (moment : Nat) (other : TreeKey) :
    (h.evictIdle key moment).1.interestIn? other =
      if other = key ∧ h.isEvictable (moment, key) = true then none else h.interestIn? other := by
  cases he : h.isEvictable (moment, key) with
  | true =>
    obtain ⟨s, -, heq⟩ := evictIdle_of_evictable he
    have hlast := Interest.isLast_iff.2 (isEvictable_iff.1 he).2
    rw [heq]
    refine (h.interest.find?_removeIfUnchanged key moment other).trans ?_
    rw [hlast]
    rfl
  | false =>
    rw [evictIdle_of_not he]
    simp

/-- Looking at one candidate does not matter to another tree. -/
theorem isEvictable_evictIdle (h : Hub) (moment : Nat) {e : Nat × TreeKey} (hne : e.2 ≠ key) :
    (h.evictIdle key moment).1.isEvictable e = h.isEvictable e := by
  have hslot := h.slot?_evictIdle key moment e.2
  have hinterest := h.interestIn?_evictIdle key moment e.2
  rw [if_neg fun hc => hne hc.1] at hslot hinterest
  rw [Bool.eq_iff_iff, isEvictable_iff, isEvictable_iff, hslot, hinterest]

/-! ## All candidates -/

/-- The entries of a list whose trees a sweep evicts. -/
def evictables (h : Hub) (candidates : List (Nat × TreeKey)) : List (Nat × TreeKey) :=
  candidates.filter h.isEvictable

theorem evictables_cons (h : Hub) (e : Nat × TreeKey) (rest : List (Nat × TreeKey)) :
    h.evictables (e :: rest) = (if h.isEvictable e then [e] else []) ++ h.evictables rest := by
  unfold evictables
  rw [List.filter_cons]
  split <;> rfl

theorem evictables_evictIdle {rest : List (Nat × TreeKey)} (hne : ∀ e ∈ rest, e.2 ≠ key)
    (h : Hub) (moment : Nat) : (h.evictIdle key moment).1.evictables rest = h.evictables rest :=
  List.filter_congr fun e he => h.isEvictable_evictIdle moment (hne e he)

/-- **Who is evicted**: the candidates that are idle, in their order. -/
theorem evictAll_snd {candidates : List (Nat × TreeKey)} :
    ∀ (h : Hub), (candidates.map Prod.snd).Nodup →
      (h.evictAll candidates).2 = (h.evictables candidates).map Prod.snd := by
  induction candidates with
  | nil => exact fun _ _ => rfl
  | cons e rest ih =>
    intro h hnodup
    obtain ⟨moment, key⟩ := e
    obtain ⟨hnot, hrest⟩ := List.nodup_cons.1 hnodup
    have hne : ∀ e ∈ rest, e.2 ≠ key := fun e he heq => hnot (List.mem_map.2 ⟨e, he, heq⟩)
    have heq : (h.evictAll ((moment, key) :: rest)).2 =
        if (h.evictIdle key moment).2 then
          key :: ((h.evictIdle key moment).1.evictAll rest).2
        else ((h.evictIdle key moment).1.evictAll rest).2 := rfl
    rw [heq, evictIdle_snd, ih _ hrest, evictables_evictIdle hne, evictables_cons]
    split <;> rfl

/-- What the evictions leave of anything that is known of each tree. -/
theorem look_evictAll {α : Type} (look : Hub → TreeKey → Option α)
    (hlook : ∀ (h : Hub) key moment other, look (h.evictIdle key moment).1 other =
      if other = key ∧ h.isEvictable (moment, key) = true then none else look h other)
    {candidates : List (Nat × TreeKey)} :
    ∀ (h : Hub), (candidates.map Prod.snd).Nodup → ∀ other,
      look (h.evictAll candidates).1 other =
        if other ∈ (h.evictables candidates).map Prod.snd then none else look h other := by
  induction candidates with
  | nil => exact fun _ _ _ => rfl
  | cons e rest ih =>
    intro h hnodup other
    obtain ⟨moment, key⟩ := e
    obtain ⟨hnot, hrest⟩ := List.nodup_cons.1 hnodup
    have hne : ∀ e ∈ rest, e.2 ≠ key := fun e he heq => hnot (List.mem_map.2 ⟨e, he, heq⟩)
    have heq : (h.evictAll ((moment, key) :: rest)).1 =
        ((h.evictIdle key moment).1.evictAll rest).1 := rfl
    rw [heq, ih _ hrest, evictables_evictIdle hne, hlook, evictables_cons]
    by_cases hmem : other ∈ (h.evictables rest).map Prod.snd
    · simp [hmem]
    · by_cases he : h.isEvictable (moment, key) = true
      · simp [hmem, he]
      · simp [hmem, he]

theorem slot?_evictAll {candidates : List (Nat × TreeKey)}
    (hnodup : (candidates.map Prod.snd).Nodup)
    (h : Hub) (other : TreeKey) :
    (h.evictAll candidates).1.slot? other =
      if other ∈ (h.evictables candidates).map Prod.snd then none else h.slot? other :=
  look_evictAll slot? slot?_evictIdle h hnodup other

theorem interestIn?_evictAll {candidates : List (Nat × TreeKey)}
    (hnodup : (candidates.map Prod.snd).Nodup) (h : Hub) (other : TreeKey) :
    (h.evictAll candidates).1.interestIn? other =
      if other ∈ (h.evictables candidates).map Prod.snd then none else h.interestIn? other :=
  look_evictAll interestIn? interestIn?_evictIdle h hnodup other

theorem mem_evictables_olderThan (hi : h.interest.Coherent) :
    key ∈ (h.evictables (h.interest.olderThan cutoff)).map Prod.snd ↔
      (∃ s, h.slot? key = some s ∧ s.refs = 0) ∧
        ∃ moment, h.interestIn? key = some moment ∧ moment ≤ cutoff := by
  rw [List.mem_map]
  constructor
  · rintro ⟨⟨moment, key⟩, he, rfl⟩
    obtain ⟨hold, hidle⟩ := List.mem_filter.1 he
    obtain ⟨hslot, hkey⟩ := isEvictable_iff.1 hidle
    exact ⟨hslot, moment, hkey, (hi.mem_olderThan_iff.1 hold).2⟩
  · rintro ⟨hslot, moment, hkey, hle⟩
    exact ⟨(moment, key), List.mem_filter.2 ⟨hi.mem_olderThan_iff.2 ⟨hkey, hle⟩,
      isEvictable_iff.2 ⟨hslot, hkey⟩⟩, rfl⟩

/-! ## Stale entries -/

theorem slot?_purge {entries : List (Nat × TreeKey)} :
    ∀ (h : Hub) (other : TreeKey), (h.purge entries).1.slot? other = h.slot? other := by
  induction entries with
  | nil => exact fun _ _ => rfl
  | cons e rest ih =>
    intro h other
    obtain ⟨moment, key⟩ := e
    exact ih { h with interest := (h.interest.removeIfUnchanged key moment).1 } other

/-- **Which entries are dropped**: those on the list that are still there. -/
theorem find?_purge {entries : List (Nat × TreeKey)} :
    ∀ (h : Hub) (other : TreeKey) (m : Nat), (h.purge entries).1.interestIn? other = some m ↔
      h.interestIn? other = some m ∧ (m, other) ∉ entries := by
  induction entries with
  | nil =>
    intro h other m
    exact ⟨fun hm => ⟨hm, List.not_mem_nil⟩, And.left⟩
  | cons e rest ih =>
    intro h other m
    obtain ⟨moment, key⟩ := e
    have heq : (h.purge ((moment, key) :: rest)).1 =
        (purge { h with interest := (h.interest.removeIfUnchanged key moment).1 } rest).1 := rfl
    have hremoved : interestIn? { h with interest := (h.interest.removeIfUnchanged key moment).1 }
        other = if other = key ∧ h.interest.isLast key moment = true then none
          else h.interestIn? other := h.interest.find?_removeIfUnchanged key moment other
    rw [heq, ih, hremoved, List.mem_cons, not_or, ← and_assoc]
    refine and_congr_left fun _ => ?_
    -- the first entry of the list matters if it is that of the tree
    by_cases hc : other = key ∧ h.interest.isLast key moment = true
    · obtain ⟨rfl, hlast⟩ := hc
      have hkey : h.interestIn? other = some moment := Interest.isLast_iff.1 hlast
      rw [if_pos ⟨rfl, hlast⟩, hkey]
      constructor
      · intro hm
        cases hm
      · rintro ⟨hm, hne⟩
        cases hm
        exact absurd rfl hne
    · rw [if_neg hc]
      refine ⟨fun hm => ⟨hm, fun heq => hc ?_⟩, And.left⟩
      cases heq
      exact ⟨rfl, Interest.isLast_iff.2 hm⟩

/-! ## Whole sweeps -/

theorem secondsBefore_eq_some_iff {seconds moment : Nat} :
    secondsBefore now seconds = some moment ↔ ticksPerSecond * seconds + moment = now := by
  rw [secondsBefore]
  generalize ticksPerSecond * seconds = ticks
  constructor
  · intro h
    split at h
    · cases h
      omega
    · cases h
  · rintro rfl
    rw [if_pos (Nat.le_add_right ticks moment), Nat.add_sub_cancel_left]

/-- An instant that lies within the longer of two times back lies within the shorter, too. -/
theorem secondsBefore_mono {seconds more horizon : Nat} (hle : seconds ≤ more)
    (hh : secondsBefore now more = some horizon) :
    ∃ cutoff, secondsBefore now seconds = some cutoff ∧ horizon ≤ cutoff := by
  obtain ⟨extra, rfl⟩ := Nat.exists_eq_add_of_le hle
  refine ⟨ticksPerSecond * extra + horizon, ?_, Nat.le_add_left _ _⟩
  rw [secondsBefore_eq_some_iff] at hh ⊢
  rw [← Nat.add_assoc, ← Nat.mul_add, hh]

theorem evictStale_of_some {settings : SweepSettings}
    (hcutoff : secondsBefore now settings.retentionSeconds = some cutoff) :
    h.evictStale settings now = h.evictAll (h.interest.olderThan cutoff) := by
  rw [evictStale, hcutoff]

theorem evictStale_of_none {settings : SweepSettings}
    (hcutoff : secondsBefore now settings.retentionSeconds = none) :
    h.evictStale settings now = (h, []) := by
  rw [evictStale, hcutoff]

theorem purgeStale_of_some {settings : SweepSettings}
    (hcutoff : secondsBefore now settings.staleHorizonSeconds = some cutoff) :
    h.purgeStale settings now = h.purge (h.interest.olderThan cutoff) := by
  rw [purgeStale, hcutoff]

theorem purgeStale_of_none {settings : SweepSettings}
    (hcutoff : secondsBefore now settings.staleHorizonSeconds = none) :
    h.purgeStale settings now = (h, 0) := by
  rw [purgeStale, hcutoff]

theorem slot?_purgeStale (h : Hub) (settings : SweepSettings) (now : Nat) (other : TreeKey) :
    (h.purgeStale settings now).1.slot? other = h.slot? other := by
  cases hhorizon : secondsBefore now settings.staleHorizonSeconds with
  | some horizon => rw [purgeStale_of_some hhorizon, slot?_purge]
  | none => rw [purgeStale_of_none hhorizon]

/-! ## Sweeps as changes -/

theorem sweep_of_ok {settings : SweepSettings} {condition : EvictionCondition} {allowed : Bool}
    (hc : condition h.stats = .ok allowed) :
    (h.sweep settings condition now).1 =
      ((if allowed then h.evictStale settings now else (h, [])).1.purgeStale settings now).1 := by
  unfold sweep
  rw [hc]

theorem sweep_of_error {settings : SweepSettings} {condition : EvictionCondition}
    {fault : SweepFault}
    (hc : condition h.stats = .error fault) : (h.sweep settings condition now).1 = h := by
  unfold sweep
  rw [hc]

theorem evictIdle_moves (h : Hub) (key : TreeKey) (moment : Nat) :
    Moves h (h.evictIdle key moment).1 := by
  cases he : h.isEvictable (moment, key) with
  | false => rw [evictIdle_of_not he]
  | true =>
    obtain ⟨⟨t, ht, hzero⟩, -⟩ := isEvictable_iff.1 he
    obtain ⟨s, hs, heq⟩ := evictIdle_of_evictable he
    cases ht.symm.trans hs
    rw [heq]
    refine (Relation.ReflTransGen.single (Move.evict _ hs hzero
      (fun hi => hi.removeIfUnchanged key moment) fun other hne => ?_)).tail (Move.meters _ _)
    rw [Interest.find?_removeIfUnchanged, if_neg fun hc => hne hc.1]

/-- The evictions of a sweep are single evictions, one after another. -/
theorem evictStale_chain {R : Hub → Hub → Prop} (hidle : ∀ (h : Hub) (key : TreeKey) (moment : Nat),
      Relation.ReflTransGen R h (h.evictIdle key moment).1)
    (h : Hub) (settings : SweepSettings) (now : Nat) :
    Relation.ReflTransGen R h (h.evictStale settings now).1 := by
  have hall : ∀ (candidates : List (Nat × TreeKey)) (h : Hub),
      Relation.ReflTransGen R h (h.evictAll candidates).1 := by
    intro candidates
    induction candidates with
    | nil => exact fun _ => .refl
    | cons e rest ih => exact fun h => (hidle h e.2 e.1).trans (ih _)
  cases hcutoff : secondsBefore now settings.retentionSeconds with
  | some cutoff =>
    rw [evictStale_of_some hcutoff]
    exact hall _ h
  | none => rw [evictStale_of_none hcutoff]

theorem evictStale_moves (h : Hub) (settings : SweepSettings) (now : Nat) :
    Moves h (h.evictStale settings now).1 :=
  evictStale_chain evictIdle_moves h settings now

theorem purge_eq {entries : List (Nat × TreeKey)} :
    ∀ h : Hub, ∃ interest, (h.purge entries).1 = { h with interest } := by
  induction entries with
  | nil => exact fun h => ⟨h.interest, rfl⟩
  | cons e rest ih =>
    intro h
    obtain ⟨interest, heq⟩ := ih { h with interest := (h.interest.removeIfUnchanged e.2 e.1).1 }
    exact ⟨interest, heq⟩

theorem purgeStale_eq (h : Hub) (settings : SweepSettings) (now : Nat) :
    ∃ interest, (h.purgeStale settings now).1 = { h with interest } := by
  cases hhorizon : secondsBefore now settings.staleHorizonSeconds with
  | some horizon =>
    rw [purgeStale_of_some hhorizon]
    exact purge_eq h
  | none =>
    rw [purgeStale_of_none hhorizon]
    exact ⟨h.interest, rfl⟩

/-- **A sweep** evicts, and then changes the interest index only. -/
theorem sweep_moves (h : Hub) (settings : SweepSettings) (condition : EvictionCondition)
    (now : Nat) :
    ∃ h' interest, Moves h h' ∧ (h.sweep settings condition now).1 = { h' with interest } := by
  cases hc : condition h.stats with
  | error fault => exact ⟨h, h.interest, .refl, sweep_of_error hc⟩
  | ok allowed =>
    rw [sweep_of_ok hc]
    cases allowed with
    | true =>
      obtain ⟨interest, heq⟩ := purgeStale_eq (h.evictStale settings now).1 settings now
      exact ⟨_, interest, h.evictStale_moves settings now, heq⟩
    | false =>
      obtain ⟨interest, heq⟩ := h.purgeStale_eq settings now
      exact ⟨h, interest, .refl, heq⟩

/-- After the evictions of a sweep no idle holder has an entry as old as the cutoff. -/
theorem evictStale_idle {settings : SweepSettings} (hi : h.interest.Coherent)
    (hcutoff : secondsBefore now settings.retentionSeconds = some cutoff)
    (hs : (h.evictStale settings now).1.slot? key = some s) (hzero : s.refs = 0)
    (hkey : (h.evictStale settings now).1.interestIn? key = some moment) : cutoff < moment := by
  rw [evictStale_of_some hcutoff, slot?_evictAll (hi.nodup_olderThan cutoff)] at hs
  rw [evictStale_of_some hcutoff, interestIn?_evictAll (hi.nodup_olderThan cutoff)] at hkey
  split at hs
  · cases hs
  · rename_i hnot
    rw [if_neg hnot] at hkey
    refine Nat.lt_of_not_le fun hle => hnot ?_
    exact (mem_evictables_olderThan hi).2 ⟨⟨s, hs, hzero⟩, moment, hkey, hle⟩

end Hub

end Treecast
