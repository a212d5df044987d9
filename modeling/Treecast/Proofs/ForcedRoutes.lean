import Treecast.Settings.Check
import Treecast.Proofs.Admission

/-!
# What a table of forced routes pins

A table names clusters as a whole or by the start of their names.  For a name it prescribes the
target of the entry for the whole name, or else that of the longest start; entries for starts are
kept with the longest first, so that the first one that matches is the one that counts.  Applying
the table pins every name that a request asks for in the feeds of service trees, that is not pinned
yet, whose destination heeds the table for the caller and for which the table prescribes a target.
All else in the request stays, and nothing is left to pin when the table is applied again.

## Results

* `ForceTable.lookup_eq_some_iff`, `ForceTable.lookup_eq_none_iff`: what the table prescribes for a
  name.
* `ForceTable.find?_withPins`: what becomes of a request when pins are set one after another.
* `ForceTable.nodup_places`: no name of a feed is pinned twice.
* `ForceTable.apply_exact`: what applying a table does to a request.
-/

set_option autoImplicit false

namespace Treecast

open Routing

/-! ## What a table prescribes -/

namespace Routing

namespace HijackSettings

/-- There is an entry for the whole name. -/
def NamesWhole (s : HijackSettings) (name target : String) : Prop :=
  ForceTable.start? name = none ∧ s.forceClusters.find? name = some target

/-- There is an entry for names that begin with `start`, and the name does. -/
def NamesStart (s : HijackSettings) (name start target : String) : Prop :=
  s.forceClusters.find? (start ++ "*") = some target ∧ start.toList <+: name.toList

/-- What is prescribed for a name: the target of its own entry, or else of the longest start. -/
inductive Prescribes (s : HijackSettings) (name target : String) : Prop where
  | whole (h : s.NamesWhole name target)
  | longest {start : String} (hwhole : ∀ other, ¬ s.NamesWhole name other)
      (h : s.NamesStart name start target)
      (hlongest : ∀ other served, s.NamesStart name other served → other.length ≤ start.length)

/-- What is to be pinned in a request: a name of a service feed that is asked for and not pinned
yet, unless its destination leaves the caller alone, to the target that is prescribed for it. -/
structure Pins (s : HijackSettings) (request : Request) (caller : Option String) (feed : FeedKey)
    (name target : String) : Prop where
  service : feed.kind = .service ∨ feed.kind = .serviceInfo
  heeded : ∀ who callers, caller = some who →
    s.forceExclusions.find? feed.application = some callers → who ∉ callers
  asked : ∃ asked, request.find? feed = some asked ∧ asked.clusters.has name = true ∧
    asked.pinned.find? name = none
  prescribed : s.Prescribes name target

end HijackSettings

namespace ForceTable

variable {s : HijackSettings} {name start target : String}

theorem start?_eq_some_iff {pattern : String} :
    start? pattern = some start ↔ pattern = start ++ "*" := by
  have hreverse : pattern = start ++ "*" ↔
      pattern.toList.reverse = '*' :: start.toList.reverse := by
    rw [← String.toList_inj, ← List.reverse_inj]
    simp
  rw [hreverse, start?]
  split
  · rename_i rest heq
    rw [heq, Option.some.injEq, List.cons.injEq]
    constructor
    · rintro rfl
      simp
    · rintro ⟨-, rfl⟩
      simp
  · rename_i hnot
    constructor
    · intro h
      cases h
    · intro h
      exact absurd h (hnot _)

/-! ### The order of starts -/

theorem triedBefore_iff {a b : String × String} :
    triedBefore a b = true ↔ b.1.utf8ByteSize < a.1.utf8ByteSize ∨
      a.1.utf8ByteSize = b.1.utf8ByteSize ∧ (compare a.1 b.1).isLE = true := by
  have : ∀ o : Ordering, (o != .gt) = o.isLE := by decide
  simp [triedBefore, this]

theorem triedBefore_total (a b : String × String) :
    (triedBefore a b || triedBefore b a) = true := by
  rw [Bool.or_eq_true, triedBefore_iff, triedBefore_iff]
  rcases Nat.lt_trichotomy a.1.utf8ByteSize b.1.utf8ByteSize with h | h | h
  · exact .inr (.inl h)
  · cases hab : compare a.1 b.1 with
    | lt => exact .inl (.inr ⟨h, rfl⟩)
    | eq => exact .inl (.inr ⟨h, rfl⟩)
    | gt => exact .inr (.inr ⟨h.symm, by rw [Std.OrientedCmp.lt_of_gt hab]; rfl⟩)
  · exact .inl (.inl h)

theorem triedBefore_trans (a b c : String × String) (hab : triedBefore a b = true)
    (hbc : triedBefore b c = true) : triedBefore a c = true := by
  rw [triedBefore_iff] at *
  rcases hab with hab | ⟨hab, hle⟩
  · left
    rcases hbc with hbc | ⟨hbc, -⟩ <;> omega
  · rcases hbc with hbc | ⟨hbc, hle'⟩
    · left
      omega
    · exact .inr ⟨hab.trans hbc, Std.TransCmp.isLE_trans hle hle'⟩

/-- Of two starts of one name, the one with more bytes is the longer one. -/
theorem length_le_of_prefix {other : String} (h : start.toList <+: name.toList)
    (hother : other.toList <+: name.toList) (hbytes : other.utf8ByteSize ≤ start.utf8ByteSize) :
    other.length ≤ start.length := by
  apply Nat.le_of_not_lt
  intro hlt
  obtain ⟨rest, hrest⟩ := List.prefix_of_prefix_length_le h hother (Nat.le_of_lt hlt)
  have heq : other = start ++ String.ofList rest := by
    apply String.toList_inj.1
    simp [hrest]
  rw [heq, String.utf8ByteSize_append] at hbytes
  have hempty : String.ofList rest = "" := String.utf8ByteSize_eq_zero_iff.1 (by omega)
  rw [heq, hempty, String.append_empty] at hlt
  exact Nat.lt_irrefl _ hlt

/-! ### Looking up a name -/

theorem find?_exact : (ofSettings s).exact.find? name = some target ↔ s.NamesWhole name target := by
  rw [ofSettings, SortedMap.find?_filter, Option.filter_eq_some_iff, Option.isNone_iff_eq_none]
  exact and_comm

theorem mem_starts :
    (start, target) ∈ (ofSettings s).starts ↔
      s.forceClusters.find? (start ++ "*") = some target := by
  rw [ofSettings, List.mem_mergeSort, List.mem_filterMap]
  constructor
  · rintro ⟨⟨pattern, served⟩, hmem, hstart⟩
    obtain ⟨found, hfound, heq⟩ := Option.map_eq_some_iff.1 hstart
    cases heq
    rw [← start?_eq_some_iff.1 hfound]
    exact SortedMap.mem_toList_iff.1 hmem
  · intro h
    refine ⟨_, SortedMap.mem_toList_iff.2 h, ?_⟩
    rw [start?_eq_some_iff.2 rfl, Option.map_some]

/-- The first start that a name begins with is the longest one. -/
theorem longest_of_find? (h : (ofSettings s).starts.find?
      (fun e => e.1.toList.isPrefixOf name.toList) = some (start, target)) :
    s.NamesStart name start target ∧
      ∀ other served, s.NamesStart name other served → other.length ≤ start.length := by
  have hbegins : start.toList <+: name.toList := by
    have hmatch := List.find?_some h
    exact List.isPrefixOf_iff_prefix.1 hmatch
  refine ⟨⟨mem_starts.1 (List.mem_of_find?_eq_some h), hbegins⟩, fun other served hother => ?_⟩
  obtain ⟨-, front, back, hsplit, hfront⟩ := List.find?_eq_some_iff_append.1 h
  have hmem : (other, served) ∈ front ++ (start, target) :: back :=
    hsplit ▸ mem_starts.2 hother.1
  have hsorted : (front ++ (start, target) :: back).Pairwise (triedBefore · ·) :=
    hsplit ▸ List.pairwise_mergeSort triedBefore_trans triedBefore_total _
  rcases List.mem_append.1 hmem with hmem | hmem
  · -- what is tried before the first that matches does not match
    have hnot := hfront _ hmem
    rw [Bool.not_eq_true', ← Bool.not_eq_true, List.isPrefixOf_iff_prefix] at hnot
    exact absurd hother.2 hnot
  · rcases List.mem_cons.1 hmem with heq | hmem
    · cases heq
      exact Nat.le_refl _
    · have hbefore := (List.pairwise_cons.1 (List.pairwise_append.1 hsorted).2.1).1 _ hmem
      refine length_le_of_prefix hbegins hother.2 ?_
      rcases triedBefore_iff.1 hbefore with hlt | ⟨heq, -⟩
      · exact Nat.le_of_lt hlt
      · exact Nat.le_of_eq heq.symm

/-- **A table has nothing for a name** that is neither named as a whole nor begins with a start. -/
theorem lookup_eq_none_iff : (ofSettings s).lookup name = none ↔
    (∀ target, ¬ s.NamesWhole name target) ∧ ∀ start target, ¬ s.NamesStart name start target := by
  unfold lookup
  cases hexact : (ofSettings s).exact.find? name with
  | some target =>
    refine ⟨nofun, fun h => ?_⟩
    exact absurd (find?_exact.1 hexact) (h.1 target)
  | none =>
    have hwhole : ∀ target, ¬ s.NamesWhole name target := by
      intro target h
      rw [find?_exact.2 h] at hexact
      cases hexact
    simp only [Option.map_eq_none_iff, List.find?_eq_none, List.isPrefixOf_iff_prefix]
    constructor
    · intro h
      refine ⟨hwhole, fun start target hstart => ?_⟩
      exact h (start, target) (mem_starts.2 hstart.1) hstart.2
    · rintro ⟨-, h⟩ ⟨start, target⟩ hmem hbegins
      exact h start target ⟨mem_starts.1 hmem, hbegins⟩

/-- **A table forces a name** onto the target that it prescribes. -/
theorem lookup_eq_some_iff :
    (ofSettings s).lookup name = some target ↔ s.Prescribes name target := by
  constructor
  · intro h
    unfold lookup at h
    cases hexact : (ofSettings s).exact.find? name with
    | some served =>
      rw [hexact] at h
      cases h
      exact .whole (find?_exact.1 hexact)
    | none =>
      rw [hexact] at h
      obtain ⟨⟨start, served⟩, hfound, rfl⟩ := Option.map_eq_some_iff.1 h
      obtain ⟨hstart, hlongest⟩ := longest_of_find? hfound
      refine .longest (fun other hother => ?_) hstart hlongest
      rw [find?_exact.2 hother] at hexact
      cases hexact
  · rintro (h | ⟨hwhole, h, hlongest⟩)
    · rw [lookup, find?_exact.2 h]
    · rename_i start
      have hexact : (ofSettings s).exact.find? name = none :=
        Option.eq_none_iff_forall_ne_some.2 fun other hother => hwhole other (find?_exact.1 hother)
      cases hlookup : (ofSettings s).lookup name with
      | none => exact absurd h ((lookup_eq_none_iff.1 hlookup).2 start target)
      | some served =>
        unfold lookup at hlookup
        rw [hexact] at hlookup
        obtain ⟨⟨first, other⟩, hfound, rfl⟩ := Option.map_eq_some_iff.1 hlookup
        obtain ⟨hfirst, hmax⟩ := longest_of_find? hfound
        -- two starts of a name that are equally long are the same
        have hlength : first.length = start.length :=
          Nat.le_antisymm (hlongest first other hfirst) (hmax start target h)
        have hsame : first = start :=
          String.toList_inj.1 ((List.prefix_of_prefix_length_le hfirst.2 h.2
            (Nat.le_of_eq hlength)).eq_of_length hlength)
        rw [← h.1, ← hsame, hfirst.1]

/-- What a table of settings forces is what the settings say. -/
theorem forces_iff {request : Request} {caller : Option String} {feed : FeedKey} :
    (ofSettings s).Forces request caller feed name target ↔
      s.Pins request caller feed name target := by
  have hkind : feed.kind.tree.carriesRouting = true ↔
      feed.kind = .service ∨ feed.kind = .serviceInfo := by
    cases feed.kind <;> decide
  have hheeded : (ofSettings s).excludes feed.application caller = false ↔
      ∀ who callers, caller = some who →
        s.forceExclusions.find? feed.application = some callers → who ∉ callers := by
    unfold excludes
    cases caller with
    | none => simp
    | some who =>
      rw [show (ofSettings s).exclusions = s.forceExclusions from rfl]
      cases s.forceExclusions.find? feed.application <;> simp
  have hfree : ∀ asked : Selection,
      asked.isPinned name = false ↔ asked.pinned.find? name = none := by
    intro asked
    rw [Selection.isPinned, SortedMap.contains, Option.isSome_eq_false_iff,
      Option.isNone_iff_eq_none]
  constructor
  · intro h
    obtain ⟨asked, hasked, hhas, hunpinned⟩ := h.asked
    exact ⟨hkind.1 h.routed, hheeded.1 h.heeded, ⟨asked, hasked, hhas, (hfree asked).1 hunpinned⟩,
      lookup_eq_some_iff.1 h.looked⟩
  · intro h
    obtain ⟨asked, hasked, hhas, hunpinned⟩ := h.asked
    exact ⟨hkind.2 h.service, hheeded.2 h.heeded, ⟨asked, hasked, hhas, (hfree asked).2 hunpinned⟩,
      lookup_eq_some_iff.2 h.prescribed⟩

/-! ## Setting pins -/

/-- The name of a feed that is pinned. -/
def Pin.place (p : Pin) : FeedKey × String := (p.feed, p.cluster)

/-- The name that is pinned is asked for. -/
def Pin.AskedIn (p : Pin) (request : Request) : Prop :=
  ∃ asked, request.find? p.feed = some asked ∧ asked.clusters.has p.cluster = true

/-- A request after pins were set in it, one after another. -/
def withPins (request : Request) (pins : List Pin) : Request :=
  pins.foldl (fun r p => r.alter p.feed (·.pin p.cluster p.target)) request

/-- What is pinned in a feed after pins were set, one after another. -/
def pinnedIn (feed : FeedKey) (pins : List Pin) (pinned : SortedMap String String) :
    SortedMap String String :=
  pins.foldl (fun m p => if p.feed = feed then m.insert p.cluster p.target else m) pinned

/-- Setting pins without a refusal sets all of them. -/
theorem eq_withPins_of_setPins {pins : List Pin} :
    ∀ {request request' : Request} {done n : Nat},
      setPins request pins done = (request', n, none) →
        request' = withPins request pins ∧ n = done + pins.length := by
  induction pins with
  | nil =>
    intro request request' done n h
    cases h
    exact ⟨rfl, rfl⟩
  | cons p rest ih =>
    intro request request' done n h
    unfold setPins at h
    cases hpin : request.pin p.feed p.cluster p.target with
    | error fault =>
      rw [hpin] at h
      cases h
    | ok pinned =>
      rw [hpin] at h
      obtain ⟨hrest, hcount⟩ := ih h
      obtain ⟨-, -, -, rfl⟩ := Request.pin_eq_ok_iff.1 hpin
      refine ⟨hrest, ?_⟩
      rw [hcount, List.length_cons]
      omega

/-- A pin for a name that is asked for changes nothing but what is pinned in its feed. -/
theorem find?_alter_pin {request : Request} {p : Pin} (h : p.AskedIn request) (feed : FeedKey) :
    (request.alter p.feed (·.pin p.cluster p.target)).find? feed =
      (request.find? feed).map fun asked =>
        { asked with pinned := pinnedIn feed [p] asked.pinned } := by
  obtain ⟨asked, hasked, hhas⟩ := h
  have hmember : asked.clusters.find? p.cluster = some () := by
    obtain ⟨⟨⟩, hfound⟩ := Option.isSome_iff_exists.1 hhas
    exact hfound
  rw [Request.find?_alter, Request.selectionOf, hasked]
  by_cases hfeed : feed = p.feed
  · subst hfeed
    rw [if_pos rfl, hasked]
    show some (asked.pin p.cluster p.target) = _
    rw [Selection.pin, SortedSet.add, SortedMap.insert_of_find? hmember]
    simp [pinnedIn]
  · rw [if_neg hfeed]
    cases request.find? feed with
    | none => rfl
    | some other => simp [pinnedIn, Ne.symm hfeed]

/-- **Pins that are set** for names that are asked for change nothing but what is pinned. -/
theorem find?_withPins {pins : List Pin} (feed : FeedKey) :
    ∀ {request : Request}, (∀ p ∈ pins, p.AskedIn request) →
      (withPins request pins).find? feed = (request.find? feed).map fun asked =>
        { asked with pinned := pinnedIn feed pins asked.pinned } := by
  induction pins with
  | nil =>
    intro request _
    show request.find? feed = _
    cases request.find? feed <;> rfl
  | cons p rest ih =>
    intro request h
    have hhere := h p List.mem_cons_self
    have hrest : ∀ q ∈ rest, q.AskedIn (request.alter p.feed (·.pin p.cluster p.target)) := by
      intro q hq
      obtain ⟨asked, hasked, hhas⟩ := h q (List.mem_cons_of_mem p hq)
      rw [Pin.AskedIn, find?_alter_pin hhere, hasked]
      exact ⟨_, rfl, hhas⟩
    show (withPins (request.alter p.feed (·.pin p.cluster p.target)) rest).find? feed = _
    rw [ih hrest, find?_alter_pin hhere, Option.map_map]
    rfl

/-- What a feed has pinned to a name in the end, when every pin is for what `look` says. -/
theorem find?_pinnedIn {pins : List Pin} {look : String → Option String} (feed : FeedKey)
    (name : String) (h : ∀ p ∈ pins, look p.cluster = some p.target) :
    ∀ pinned : SortedMap String String, (pinnedIn feed pins pinned).find? name =
      if (feed, name) ∈ pins.map Pin.place then look name else pinned.find? name := by
  induction pins with
  | nil => exact fun _ => rfl
  | cons p rest ih =>
    intro pinned
    have hone : (if p.feed = feed then pinned.insert p.cluster p.target else pinned).find? name =
        if (feed, name) = p.place then look name else pinned.find? name := by
      by_cases hfeed : p.feed = feed
      · have hlook := h p List.mem_cons_self
        rw [if_pos hfeed, SortedMap.find?_insert]
        by_cases hname : name = p.cluster <;> simp [Pin.place, hfeed, hname, hlook]
      · simp [Pin.place, hfeed, Ne.symm hfeed]
    show (pinnedIn feed rest _).find? name = _
    rw [ih (fun q hq => h q (List.mem_cons_of_mem p hq)), hone, List.map_cons]
    by_cases hrest : (feed, name) ∈ rest.map Pin.place
    · rw [if_pos hrest, if_pos (List.mem_cons_of_mem _ hrest)]
    · by_cases hhere : (feed, name) = p.place <;> simp [hrest, hhere]

/-- **No name of a feed is pinned twice.** -/
theorem nodup_places (t : ForceTable) (request : Request) (caller : Option String) :
    ((t.pins request caller).map Pin.place).Nodup := by
  refine List.pairwise_map.2 (List.pairwise_flatMap.2 ⟨fun e _ => ?_, ?_⟩)
  · -- within a feed the names differ
    have hcluster : ∀ {cluster : String} {p : Pin}, (if e.2.isPinned cluster then none
        else (t.lookup cluster).map fun target => (⟨e.1, cluster, target⟩ : Pin)) = some p →
        p.cluster = cluster := by
      intro cluster p hp
      split at hp
      · cases hp
      · obtain ⟨_, -, rfl⟩ := Option.map_eq_some_iff.1 hp
        rfl
    unfold pinsFor
    split
    · exact List.Pairwise.nil
    · refine List.pairwise_filterMap.2 (e.2.clusters.nodup_keys.imp ?_)
      intro a b hne p hp q hq heq
      apply hne
      rw [← hcluster hp, ← hcluster hq]
      exact congrArg Prod.snd heq
  · refine (List.pairwise_map.1 request.selections.nodup_keys).imp ?_
    intro a b hne p hp q hq heq
    apply hne
    rw [← (mem_pinsFor_iff.1 hp).2.1, ← (mem_pinsFor_iff.1 hq).2.1]
    exact congrArg Prod.fst heq

/-! ## Applying a table -/

variable {request request' : Request} {caller : Option String} {n : Nat} {feed : FeedKey}

theorem mem_places_iff {t : ForceTable} :
    (feed, name) ∈ (t.pins request caller).map Pin.place ↔
      ∃ target, t.Forces request caller feed name target := by
  rw [List.mem_map]
  constructor
  · rintro ⟨p, hp, heq⟩
    cases heq
    exact ⟨p.target, mem_pins_iff.1 hp⟩
  · rintro ⟨target, h⟩
    exact ⟨⟨feed, name, target⟩, mem_pins_iff.2 h, rfl⟩

/-- What is pinned in a feed after a table was applied. -/
theorem find?_pinnedIn_pins {t : ForceTable} {asked : Selection}
    (hasked : request.find? feed = some asked) :
    (pinnedIn feed (t.pins request caller) asked.pinned).find? name = some target ↔
      asked.pinned.find? name = some target ∨ t.Forces request caller feed name target := by
  have hlook : ∀ p ∈ t.pins request caller, t.lookup p.cluster = some p.target := fun p hp =>
    (mem_pins_iff.1 hp).looked
  rw [find?_pinnedIn feed name hlook]
  by_cases hforced : (feed, name) ∈ (t.pins request caller).map Pin.place
  · obtain ⟨served, hforces⟩ := mem_places_iff.1 hforced
    -- a name that is pinned already is not forced
    have hfree : asked.pinned.find? name = none := by
      obtain ⟨found, hfound, -, hfree⟩ := hforces.asked
      rw [hasked] at hfound
      cases hfound
      rwa [Selection.isPinned, SortedMap.contains, Option.isSome_eq_false_iff,
        Option.isNone_iff_eq_none] at hfree
    rw [if_pos hforced, hfree]
    constructor
    · intro hlooked
      exact .inr ⟨hforces.routed, hforces.heeded, hforces.asked, hlooked⟩
    · rintro (hnone | h)
      · cases hnone
      · exact h.looked
  · rw [if_neg hforced, or_iff_left]
    intro h
    exact hforced (mem_places_iff.2 ⟨target, h⟩)

/-- **Applying a table** to a request changes nothing but what is pinned. -/
theorem find?_apply {t : ForceTable} (happly : t.apply request caller = (request', n, none))
    (feed : FeedKey) : request'.find? feed = (request.find? feed).map fun asked =>
      { asked with pinned := pinnedIn feed (t.pins request caller) asked.pinned } := by
  rw [(eq_withPins_of_setPins happly).1]
  refine find?_withPins feed fun p hp => ?_
  obtain ⟨asked, hasked, hhas, -⟩ := (mem_pins_iff.1 hp).asked
  exact ⟨asked, hasked, hhas⟩

/-- **A table that was applied** forces nothing any more. -/
theorem pins_apply_eq_nil {t : ForceTable} (happly : t.apply request caller = (request', n, none)) :
    t.pins request' caller = [] := by
  refine List.eq_nil_iff_forall_not_mem.2 fun p hp => ?_
  obtain ⟨hrouted, hheeded, ⟨after, hafter, hhas, hfree⟩, hlooked⟩ := mem_pins_iff.1 hp
  rw [find?_apply happly] at hafter
  obtain ⟨asked, hasked, rfl⟩ := Option.map_eq_some_iff.1 hafter
  have hpinned : ∀ {target}, asked.pinned.find? p.cluster = some target ∨
      t.Forces request caller p.feed p.cluster target → False := by
    intro target h
    rw [Selection.isPinned, SortedMap.contains, (find?_pinnedIn_pins hasked).2 h] at hfree
    cases hfree
  cases hbefore : asked.isPinned p.cluster with
  | false => exact hpinned (.inr ⟨hrouted, hheeded, ⟨asked, hasked, hhas, hbefore⟩, hlooked⟩)
  | true =>
    obtain ⟨target, htarget⟩ := Option.isSome_iff_exists.1 hbefore
    exact hpinned (.inl htarget)

/-- **What a table does.**  The table of settings forces a name onto the target that they prescribe
for it, and no other.  A request that it is applied to keeps its feeds with their names and all that
is pinned; pinned besides is what the settings say, all of it and nothing else, and counted once a
name.  Applied again, the table changes nothing and counts nothing. -/
theorem apply_exact (happly : (ofSettings s).apply request caller = (request', n, none)) :
    (∀ name target, (ofSettings s).lookup name = some target ↔ s.Prescribes name target) ∧
    (∀ name, (ofSettings s).lookup name = none ↔
      (∀ target, ¬ s.NamesWhole name target) ∧ ∀ start target, ¬ s.NamesStart name start target) ∧
    (∀ feed, request.find? feed = none → request'.find? feed = none) ∧
    (∀ feed asked, request.find? feed = some asked → ∃ pinned,
      request'.find? feed = some { asked with pinned := pinned } ∧
      ∀ name target, pinned.find? name = some target ↔
        asked.pinned.find? name = some target ∨ s.Pins request caller feed name target) ∧
    (∃ places : List (FeedKey × String), places.Nodup ∧ n = places.length ∧
      ∀ feed name, (feed, name) ∈ places ↔ ∃ target, s.Pins request caller feed name target) ∧
    (ofSettings s).apply request' caller = (request', 0, none) := by
  refine ⟨fun _ _ => lookup_eq_some_iff, fun _ => lookup_eq_none_iff, fun feed hnone => ?_,
    fun feed asked hasked => ?_, ?_, ?_⟩
  · rw [find?_apply happly, hnone, Option.map_none]
  · refine ⟨_, by rw [find?_apply happly, hasked, Option.map_some], fun name target => ?_⟩
    rw [find?_pinnedIn_pins hasked, forces_iff]
  · refine ⟨_, nodup_places (ofSettings s) request caller, ?_, fun feed name => ?_⟩
    · rw [(eq_withPins_of_setPins happly).2, List.length_map, Nat.zero_add]
    · rw [mem_places_iff]
      exact exists_congr fun _ => forces_iff
  · rw [apply, pins_apply_eq_nil happly]
    rfl

/-- Settings whose starts overlap with each other and with a whole name. -/
def overlaps : HijackSettings :=
  { HijackSettings.standard with
    forceEnabled := true
    forceClusters := SortedMap.ofList [("st*", "short"), ("stable", "whole"), ("sta*", "long")]
    forceExclusions := SortedMap.ofList [("mail", ["web"])] }

theorem ofSettings_overlaps : ofSettings overlaps =
    ⟨SortedMap.ofList [("stable", "whole")], [("sta", "long"), ("st", "short")],
      SortedMap.ofList [("mail", ["web"])]⟩ := by
  have hlonger : triedBefore ("st", "short") ("sta", "long") = false := by decide
  have hstarts : [("st", "short"), ("sta", "long")].mergeSort triedBefore =
      [("sta", "long"), ("st", "short")] := by
    simp [List.mergeSort, hlonger]
  rw [← hstarts]
  rfl

/-- A selection of names, some of which are pinned. -/
def selection (names : List String) (pinned : List (String × String)) : Selection :=
  ⟨SortedSet.ofElements names, SortedMap.ofList pinned, false⟩

/-- A request for several feeds, with pins for the keys and the fields of `shop`. -/
def overlapping (keys fields : List (String × String)) : Request :=
  ⟨SortedMap.ofList
    [(⟨.service, "shop"⟩, selection ["stable", "stage", "stone", "web"] keys),
      (⟨.serviceInfo, "shop"⟩, selection ["stage", "start"] fields),
      (⟨.service, "mail"⟩, selection ["stage"] []), (⟨.switch, "shop"⟩, selection ["stage"] [])]⟩

/-- These settings pass their check.  The longest start counts, and pins that are there stay. -/
theorem apply_exact_overlaps :
    let request := overlapping [("stone", "kept")] [("start", "kept")]
    let forced := overlapping [("stable", "whole"), ("stage", "long"), ("stone", "kept")]
      [("stage", "long"), ("start", "kept")]
    overlaps.check = .ok () ∧
      (ofSettings overlaps).apply request (some "web") = (forced, 3, none) ∧
      overlaps.Prescribes "stage" "long" ∧
      ¬ overlaps.Pins request (some "web") ⟨.service, "mail"⟩ "stage" "long" ∧
      (ofSettings overlaps).apply forced (some "web") = (forced, 0, none) := by
  intro request forced
  have happly : (ofSettings overlaps).apply request (some "web") = (forced, 3, none) := by
    rw [ofSettings_overlaps]
    decide +kernel
  have hlong : (ofSettings overlaps).lookup "stage" = some "long" := by
    rw [ofSettings_overlaps]
    decide +kernel
  have hasked : request.find? ⟨.service, "mail"⟩ = some (selection ["stage"] []) := by
    decide +kernel
  have hleft : forced.find? ⟨.service, "mail"⟩ = some (selection ["stage"] []) := by
    decide +kernel
  obtain ⟨hlookup, -, -, hfeeds, -, hagain⟩ := apply_exact happly
  refine ⟨by decide +kernel, happly, (hlookup "stage" "long").1 hlong, fun hpins => ?_, hagain⟩
  obtain ⟨pinned, hpinned, hiff⟩ := hfeeds _ _ hasked
  have hserved := (hiff "stage" "long").2 (.inr hpins)
  rw [hleft] at hpinned
  cases hpinned
  cases hserved

end ForceTable

end Routing

end Treecast
