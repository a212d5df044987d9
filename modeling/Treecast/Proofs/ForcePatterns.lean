import Treecast.Proofs.ForcedRoutes
import Treecast.Settings.Check

/-!
# Which patterns of forced routes are accepted

A pattern is meant to be a name, or the start of names with one star behind it (`IsPattern`).  The
check takes all stars off its end and looks at what is left, so that it accepts any number of stars
there; the table takes off one.  Patterns with at most one star at the end are therefore checked
exactly, and each of them counts: a name is forced as a whole, and every name that begins with a
start is forced by it or by an entry that fits better.  A pattern with two stars at its end is
accepted too, but has a start with a star in it, and so no cluster name ever begins with it.

## Results

* `checkForced_eq_ok_iff`: which entries are accepted.
* `Routing.HijackSettings.check_eq_ok_iff`, `Routing.HijackSettings.check_eq_error_iff`: which
  settings are accepted, and with which fault others are refused.
* `Routing.HijackSettings.lookup_without`: a pattern with two stars at its end forces no name.
* `Routing.HijackSettings.patterns_exact`: what is accepted, and what the accepted patterns do.
* `Routing.HijackSettings.check_overstarred`: a pattern that is accepted though it is not meant.
-/

set_option autoImplicit false

namespace Treecast

open Routing

/-! ## Chains of checks -/

section Chains

variable {condition : Bool} {fault other : SettingsFault} {α : Type}
  {first second : Except SettingsFault Unit} {check : α → Except SettingsFault Unit}

theorem refuseIf_eq_ok_iff : refuseIf condition fault = .ok () ↔ condition = false := by
  cases condition <;> simp [refuseIf]

theorem refuseIf_eq_error_iff :
    refuseIf condition fault = .error other ↔ condition = true ∧ other = fault := by
  cases condition <;> simp [refuseIf, eq_comm]

theorem bind_eq_ok_iff : (first >>= fun _ => second) = .ok () ↔
    first = .ok () ∧ second = .ok () := by
  cases first <;> simp [bind, Except.bind]

theorem bind_eq_error_iff : (first >>= fun _ => second) = .error fault ↔
    first = .error fault ∨ first = .ok () ∧ second = .error fault := by
  cases first <;> simp [bind, Except.bind]

/-- A list is accepted if every item is. -/
theorem forM_eq_ok_iff {items : List α} :
    items.forM check = .ok () ↔ ∀ x ∈ items, check x = .ok () := by
  induction items with
  | nil => simp [List.forM, pure, Except.pure]
  | cons x rest ih =>
    show (check x >>= fun _ => rest.forM check) = .ok () ↔ _
    rw [bind_eq_ok_iff, ih, List.forall_mem_cons]

/-- A list is refused for the first item that is. -/
theorem forM_eq_error_iff {items : List α} : items.forM check = .error fault ↔
    ∃ front x back, items = front ++ x :: back ∧ (∀ y ∈ front, check y = .ok ()) ∧
      check x = .error fault := by
  induction items with
  | nil => simp [List.forM, pure, Except.pure]
  | cons x rest ih =>
    show (check x >>= fun _ => rest.forM check) = .error fault ↔ _
    rw [bind_eq_error_iff, ih]
    constructor
    · rintro (hx | ⟨hx, front, y, back, rfl, hfront, hy⟩)
      · exact ⟨[], x, rest, rfl, nofun, hx⟩
      · exact ⟨x :: front, y, back, rfl, List.forall_mem_cons.2 ⟨hx, hfront⟩, hy⟩
    · rintro ⟨front, y, back, hsplit, hfront, hy⟩
      cases front with
      | nil =>
        cases hsplit
        exact .inl hy
      | cons z front =>
        cases hsplit
        obtain ⟨hx, hfront⟩ := List.forall_mem_cons.1 hfront
        exact .inr ⟨hx, front, y, back, rfl, hfront, hy⟩

end Chains

/-! ## Patterns -/

/-- The text is not empty and has no star. -/
def IsStarless (text : String) : Prop := text ≠ "" ∧ '*' ∉ text.toList

instance (text : String) : Decidable (IsStarless text) :=
  inferInstanceAs (Decidable (_ ∧ _))

/-- A pattern as it is meant: a name, or the start of names with a star behind it. -/
inductive IsPattern (pattern : String) : Prop where
  | whole (h : IsStarless pattern)
  | start {start : String} (h : IsStarless start) (heq : pattern = start ++ "*")

/-- A text without stars, with any number of stars behind it. -/
def IsStarred (pattern : String) : Prop :=
  ∃ stem n, IsStarless stem ∧ pattern.toList = stem.toList ++ List.replicate n '*'

/-- The pattern ends with two stars. -/
def Overstarred (pattern : String) : Prop := ∃ front, pattern = front ++ "**"

variable {pattern start target : String}

theorem toList_star (start : String) : (start ++ "*").toList = start.toList ++ ['*'] := by
  simp

theorem not_isStarless_star (start : String) : ¬ IsStarless (start ++ "*") := by
  rintro ⟨-, hstar⟩
  rw [toList_star] at hstar
  simp at hstar

/-- A start whose pattern ends with two stars has the first of them. -/
theorem overstarred_star_iff : Overstarred (start ++ "*") ↔ ∃ front, start = front ++ "*" := by
  apply exists_congr
  intro front
  rw [← String.toList_inj, ← String.toList_inj, toList_star, toList_star, String.toList_append]
  show start.toList ++ ['*'] = front.toList ++ ['*', '*'] ↔ _
  rw [List.append_cons front.toList, List.append_left_inj]

/-- What is meant has at most one star, at its end. -/
theorem isPattern_iff : IsPattern pattern ↔ IsStarred pattern ∧ ¬ Overstarred pattern := by
  constructor
  · rintro (h | ⟨h, rfl⟩)
    · refine ⟨⟨pattern, 0, h, by simp⟩, ?_⟩
      rintro ⟨front, rfl⟩
      exact h.2 (by simp)
    · refine ⟨⟨_, 1, h, by simp⟩, fun hover => ?_⟩
      obtain ⟨front, rfl⟩ := overstarred_star_iff.1 hover
      exact not_isStarless_star front h
  · rintro ⟨⟨stem, n, hstem, hpattern⟩, hover⟩
    match n, hpattern with
    | 0, hpattern =>
      obtain rfl : pattern = stem := String.toList_inj.1 (by simpa using hpattern)
      exact .whole hstem
    | 1, hpattern =>
      exact .start hstem (String.toList_inj.1 (by rw [hpattern, toList_star]; rfl))
    | n + 2, hpattern =>
      refine absurd ⟨stem ++ String.ofList (List.replicate n '*'), String.toList_inj.1 ?_⟩ hover
      rw [hpattern, List.replicate_add]
      simp [List.replicate]

/-! ## Entries -/

/-- The check takes all stars off the end. -/
theorem exists_patternStem (pattern : String) :
    ∃ n, pattern.toList = patternStem pattern ++ List.replicate n '*' := by
  have hstars : ∀ c ∈ pattern.toList.reverse.takeWhile (· = '*'), c = '*' := by
    intro c hc
    exact of_decide_eq_true (List.all_eq_true.1 List.all_takeWhile c hc)
  refine ⟨(pattern.toList.reverse.takeWhile (· = '*')).length, ?_⟩
  have hsplit := congrArg List.reverse
    (List.takeWhile_append_dropWhile (p := (· = '*')) (l := pattern.toList.reverse))
  rw [List.reverse_append, List.reverse_reverse, List.eq_replicate_of_mem hstars,
    List.reverse_replicate] at hsplit
  exact hsplit.symm

theorem patternStem_of_starless {stem : String} (h : IsStarless stem) {n : Nat}
    (hpattern : pattern.toList = stem.toList ++ List.replicate n '*') :
    patternStem pattern = stem.toList := by
  have hstars : ∀ c ∈ List.replicate n '*', decide (c = '*') = true := by
    intro c hc
    exact decide_eq_true (List.eq_of_mem_replicate hc)
  have hstem : stem.toList.reverse.dropWhile (· = '*') = stem.toList.reverse := by
    cases hreverse : stem.toList.reverse with
    | nil => rfl
    | cons c rest =>
      apply List.dropWhile_cons_of_neg
      rw [decide_eq_true_eq]
      rintro rfl
      exact h.2 (List.mem_reverse.1 (hreverse ▸ List.mem_cons_self))
  rw [patternStem, hpattern, List.reverse_append, List.reverse_replicate,
    List.dropWhile_append_of_pos hstars, hstem, List.reverse_reverse]

/-- The check of a pattern: something is left without its stars, and it has no star. -/
theorem isStarred_iff : IsStarred pattern ↔
    ((patternStem pattern).isEmpty || (patternStem pattern).contains '*') = false := by
  rw [Bool.or_eq_false_iff, List.isEmpty_eq_false_iff]
  constructor
  · rintro ⟨stem, n, hstem, hpattern⟩
    rw [patternStem_of_starless hstem hpattern]
    refine ⟨fun hnil => hstem.1 (String.toList_inj.1 hnil), ?_⟩
    simpa using hstem.2
  · rintro ⟨hne, hstars⟩
    obtain ⟨n, hpattern⟩ := exists_patternStem pattern
    refine ⟨String.ofList (patternStem pattern), n, ⟨fun hempty => hne ?_, ?_⟩, ?_⟩
    · rw [← String.toList_ofList (l := patternStem pattern), hempty]
      rfl
    · rw [String.toList_ofList]
      simpa using hstars
    · rw [String.toList_ofList]
      exact hpattern

theorem isStarless_iff :
    IsStarless target ↔ (target == "" || target.toList.contains '*') = false := by
  simp [IsStarless]

/-- **An entry is accepted** if its pattern has stars at its end only, and its target has none. -/
theorem checkForced_eq_ok_iff :
    checkForced pattern target = .ok () ↔ IsStarred pattern ∧ IsStarless target := by
  rw [isStarred_iff, isStarless_iff, ← refuseIf_eq_ok_iff, ← refuseIf_eq_ok_iff]
  exact bind_eq_ok_iff

/-- An entry is refused for its pattern, or else for its target. -/
theorem checkForced_eq_error_iff {fault : SettingsFault} :
    checkForced pattern target = .error fault ↔
      (¬ IsStarred pattern ∧ fault = .badPattern pattern) ∨
        (IsStarred pattern ∧ ¬ IsStarless target ∧ fault = .badTarget pattern) := by
  rw [isStarred_iff, isStarless_iff, Bool.not_eq_false, Bool.not_eq_false]
  refine bind_eq_error_iff.trans ?_
  rw [refuseIf_eq_error_iff, refuseIf_eq_ok_iff, refuseIf_eq_error_iff]

/-! ## Settings -/

namespace Routing.HijackSettings

variable {s : HijackSettings} {name : String} {fault : SettingsFault}

/-- Why settings are refused: the intent is empty, or else the pattern or the target of the first
entry that is not accepted. -/
inductive Refused (s : HijackSettings) : SettingsFault → Prop where
  | intent (h : s.intent = "") : Refused s .emptyHijackIntent
  | pattern {pattern target : String} (hintent : s.intent ≠ "")
      (hentry : s.forceClusters.find? pattern = some target)
      (hbefore : ∀ other served, s.forceClusters.find? other = some served →
        compare other pattern = .lt → IsStarred other ∧ IsStarless served)
      (hbad : ¬ IsStarred pattern) : Refused s (.badPattern pattern)
  | target {pattern target : String} (hintent : s.intent ≠ "")
      (hentry : s.forceClusters.find? pattern = some target)
      (hbefore : ∀ other served, s.forceClusters.find? other = some served →
        compare other pattern = .lt → IsStarred other ∧ IsStarless served)
      (hgood : IsStarred pattern) (hbad : ¬ IsStarless target) : Refused s (.badTarget pattern)

/-- **Which settings are accepted.** -/
theorem check_eq_ok_iff : s.check = .ok () ↔ s.intent ≠ "" ∧
    ∀ pattern target, s.forceClusters.find? pattern = some target →
      IsStarred pattern ∧ IsStarless target := by
  refine bind_eq_ok_iff.trans ?_
  rw [refuseIf_eq_ok_iff, forM_eq_ok_iff, beq_eq_false_iff_ne]
  refine and_congr_right fun _ => ⟨fun h pattern target hentry => ?_, fun h e he => ?_⟩
  · exact checkForced_eq_ok_iff.1 (h (pattern, target) (SortedMap.mem_toList_iff.2 hentry))
  · exact checkForced_eq_ok_iff.2 (h e.1 e.2 (SortedMap.mem_toList_iff.1 he))

/-- The first entry that is refused is the one with the smallest pattern. -/
theorem forM_checkForced_eq_error_iff :
    (s.forceClusters.toList.forM fun e => checkForced e.1 e.2) = .error fault ↔
      ∃ pattern target, s.forceClusters.find? pattern = some target ∧
        (∀ other served, s.forceClusters.find? other = some served →
          compare other pattern = .lt → IsStarred other ∧ IsStarless served) ∧
        checkForced pattern target = .error fault := by
  rw [forM_eq_error_iff]
  constructor
  · rintro ⟨front, ⟨pattern, target⟩, back, hsplit, hfront, hfault⟩
    refine ⟨pattern, target, ?_, fun other served hother hlt => ?_, hfault⟩
    · rw [← SortedMap.mem_toList_iff, hsplit]
      exact List.mem_append_right _ List.mem_cons_self
    · have hmem := SortedMap.mem_toList_iff.2 hother
      have hsorted : Entries.Sorted s.forceClusters.toList := s.forceClusters.sorted
      rw [hsplit] at hmem hsorted
      have hleft := Entries.mem_left_of_lt hsorted hmem hlt
      exact checkForced_eq_ok_iff.1 (hfront (other, served) hleft)
  · rintro ⟨pattern, target, hentry, hbefore, hfault⟩
    obtain ⟨front, back, hsplit⟩ := List.append_of_mem (SortedMap.mem_toList_iff.2 hentry)
    refine ⟨front, (pattern, target), back, hsplit, fun e he => ?_, hfault⟩
    have hsorted : Entries.Sorted s.forceClusters.toList := s.forceClusters.sorted
    have hmem : e ∈ s.forceClusters.toList := by
      rw [hsplit]
      exact List.mem_append_left _ he
    rw [hsplit] at hsorted
    have hlt := (List.pairwise_append.1 hsorted).2.2 e he _ List.mem_cons_self
    exact checkForced_eq_ok_iff.2 (hbefore e.1 e.2 (SortedMap.mem_toList_iff.1 hmem) hlt)

/-- **Which fault is reported.** -/
theorem check_eq_error_iff : s.check = .error fault ↔ s.Refused fault := by
  refine bind_eq_error_iff.trans ?_
  rw [refuseIf_eq_error_iff, refuseIf_eq_ok_iff, forM_checkForced_eq_error_iff, beq_iff_eq,
    beq_eq_false_iff_ne]
  constructor
  · rintro (⟨hempty, rfl⟩ | ⟨hintent, pattern, target, hentry, hbefore, hfault⟩)
    · exact .intent hempty
    · rcases checkForced_eq_error_iff.1 hfault with ⟨hbad, rfl⟩ | ⟨hgood, hbad, rfl⟩
      · exact .pattern hintent hentry hbefore hbad
      · exact .target hintent hentry hbefore hgood hbad
  · rintro (h | ⟨hintent, hentry, hbefore, hbad⟩ | ⟨hintent, hentry, hbefore, hgood, hbad⟩)
    · exact .inl ⟨h, rfl⟩
    · exact .inr ⟨hintent, _, _, hentry, hbefore, checkForced_eq_error_iff.2 (.inl ⟨hbad, rfl⟩)⟩
    · exact .inr ⟨hintent, _, _, hentry, hbefore,
        checkForced_eq_error_iff.2 (.inr ⟨hgood, hbad, rfl⟩)⟩

/-! ## What accepted patterns do -/

/-- The same settings without the entry for a pattern. -/
def without (s : HijackSettings) (pattern : String) : HijackSettings :=
  { s with forceClusters := s.forceClusters.erase pattern }

/-- The name of an entry is forced onto its target. -/
theorem lookup_whole (hentry : s.forceClusters.find? name = some target)
    (hname : IsStarless name) : (ForceTable.ofSettings s).lookup name = some target := by
  refine ForceTable.lookup_eq_some_iff.2 (.whole ⟨?_, hentry⟩)
  cases hstart : ForceTable.start? name with
  | none => rfl
  | some start =>
    rw [ForceTable.start?_eq_some_iff.1 hstart] at hname
    exact absurd hname (not_isStarless_star start)

/-- Every name that begins with the start of an entry is forced. -/
theorem lookup_ne_none_of_start (hentry : s.forceClusters.find? (start ++ "*") = some target)
    (hname : start.toList <+: name.toList) : (ForceTable.ofSettings s).lookup name ≠ none := by
  intro hnone
  exact (ForceTable.lookup_eq_none_iff.1 hnone).2 start target ⟨hentry, hname⟩

/-- The start of an entry is forced onto its target, unless it has an entry of its own. -/
theorem lookup_start (hentry : s.forceClusters.find? (start ++ "*") = some target)
    (hwhole : s.forceClusters.find? start = none) :
    (ForceTable.ofSettings s).lookup start = some target := by
  refine ForceTable.lookup_eq_some_iff.2 (.longest ?_ ⟨hentry, List.prefix_rfl⟩ ?_)
  · rintro other ⟨-, hother⟩
    rw [hwhole] at hother
    cases hother
  · rintro other served ⟨-, hother⟩
    have hlength := hother.length_le
    rwa [String.length_toList, String.length_toList] at hlength

/-- **A pattern with two stars at its end** forces no name: without its entry every name without
stars is forced as before. -/
theorem lookup_without (hover : Overstarred pattern) (hname : '*' ∉ name.toList) :
    (ForceTable.ofSettings (s.without pattern)).lookup name =
      (ForceTable.ofSettings s).lookup name := by
  have hwhole : ∀ target, (s.without pattern).NamesWhole name target ↔
      s.NamesWhole name target := by
    intro target
    have hne : name ≠ pattern := by
      rintro rfl
      obtain ⟨front, rfl⟩ := hover
      simp at hname
    rw [NamesWhole, NamesWhole, without, SortedMap.find?_erase, if_neg hne]
  have hstart : ∀ start target, (s.without pattern).NamesStart name start target ↔
      s.NamesStart name start target := by
    intro start target
    refine and_congr_left fun hbegins => ?_
    have hne : start ++ "*" ≠ pattern := by
      rintro rfl
      obtain ⟨front, rfl⟩ := overstarred_star_iff.1 hover
      apply hname
      apply hbegins.subset
      rw [toList_star]
      simp
    rw [without, SortedMap.find?_erase, if_neg hne]
  have hprescribes : ∀ target, (s.without pattern).Prescribes name target ↔
      s.Prescribes name target := by
    intro target
    constructor
    · rintro (h | ⟨hnone, h, hlongest⟩)
      · exact .whole ((hwhole target).1 h)
      · exact .longest (fun other => mt (hwhole other).2 (hnone other)) ((hstart _ _).1 h)
          fun other served hother => hlongest other served ((hstart _ _).2 hother)
    · rintro (h | ⟨hnone, h, hlongest⟩)
      · exact .whole ((hwhole target).2 h)
      · exact .longest (fun other => mt (hwhole other).1 (hnone other)) ((hstart _ _).2 h)
          fun other served hother => hlongest other served ((hstart _ _).1 hother)
  refine Option.ext fun target => ?_
  rw [ForceTable.lookup_eq_some_iff, ForceTable.lookup_eq_some_iff]
  exact hprescribes target

/-- **Which patterns are accepted, and what they do.**  Settings are accepted just if the intent is
not empty, every pattern is a text without stars with any number of stars at its end, and no target
is empty or has a star; any others are refused for the first of these that fails.  If no pattern
ends with two stars, those that are accepted are the patterns that are meant.  In accepted settings
a pattern that is a name forces that name; one that is a start with a star behind it is kept with a
start without stars, forces its own start unless that is a name in the table, and leaves no name
that begins with it alone; and one that ends with two stars has no effect on any name. -/
theorem patterns_exact (s : HijackSettings) :
    (s.check = .ok () ↔ s.intent ≠ "" ∧
      ∀ pattern target, s.forceClusters.find? pattern = some target →
        IsStarred pattern ∧ IsStarless target) ∧
    (∀ fault, s.check = .error fault ↔ s.Refused fault) ∧
    ((∀ pattern target, s.forceClusters.find? pattern = some target → ¬ Overstarred pattern) →
      (s.check = .ok () ↔ s.intent ≠ "" ∧
        ∀ pattern target, s.forceClusters.find? pattern = some target →
          IsPattern pattern ∧ IsStarless target)) ∧
    (s.check = .ok () → ∀ pattern target, s.forceClusters.find? pattern = some target →
      let table := ForceTable.ofSettings s
      (IsStarless pattern ∧ table.lookup pattern = some target) ∨
      (∃ start, IsStarless start ∧ pattern = start ++ "*" ∧ (start, target) ∈ table.starts ∧
        (s.forceClusters.find? start = none → table.lookup start = some target) ∧
        ∀ name, start.toList <+: name.toList → table.lookup name ≠ none) ∨
      (Overstarred pattern ∧ ∀ name, '*' ∉ name.toList →
        (ForceTable.ofSettings (s.without pattern)).lookup name = table.lookup name)) := by
  refine ⟨check_eq_ok_iff, fun _ => check_eq_error_iff, fun hmeant => ?_, ?_⟩
  · rw [check_eq_ok_iff]
    refine and_congr_right fun _ => ?_
    refine forall_congr' fun pattern => forall_congr' fun target => ?_
    refine forall_congr' fun hentry => and_congr_left fun _ => ?_
    rw [isPattern_iff, and_iff_left (hmeant pattern target hentry)]
  · intro hcheck pattern target hentry
    have hstarred := ((check_eq_ok_iff.1 hcheck).2 pattern target hentry).1
    by_cases hover : Overstarred pattern
    · exact .inr (.inr ⟨hover, fun name hname => lookup_without hover hname⟩)
    · rcases isPattern_iff.2 ⟨hstarred, hover⟩ with hwhole | ⟨hstart, rfl⟩
      · exact .inl ⟨hwhole, lookup_whole hentry hwhole⟩
      · exact .inr (.inl ⟨_, hstart, rfl, ForceTable.mem_starts.2 hentry, lookup_start hentry,
          fun name hname => lookup_ne_none_of_start hentry hname⟩)

/-- Settings with one forced route. -/
def forcing (pattern target : String) : HijackSettings :=
  { HijackSettings.standard with forceClusters := SortedMap.ofList [(pattern, target)] }

/-- **A pattern that is accepted though it is not meant.**  With two stars at the end the settings
are accepted, the start that is kept has a star, and the names that were meant are not forced. -/
theorem check_overstarred :
    (forcing "a**" "z").check = .ok () ∧ ¬ IsPattern "a**" ∧
      (ForceTable.ofSettings (forcing "a**" "z")).lookup "a" = none ∧
      (ForceTable.ofSettings (forcing "a**" "z")).lookup "ab" = none := by
  have hover : Overstarred "a**" := ⟨"a", rfl⟩
  have hlookup : ∀ name : String, '*' ∉ name.toList →
      (ForceTable.ofSettings (forcing "a**" "z")).lookup name = none := by
    intro name hname
    rw [← lookup_without hover hname, ForceTable.lookup_eq_none_iff]
    have hnone : ((forcing "a**" "z").without "a**").forceClusters = SortedMap.empty := rfl
    constructor
    · rintro target ⟨-, h⟩
      rw [hnone] at h
      cases h
    · rintro start target ⟨h, -⟩
      rw [hnone] at h
      cases h
  exact ⟨rfl, fun h => (isPattern_iff.1 h).2 hover, hlookup "a" (by decide),
    hlookup "ab" (by decide)⟩

/-- An accepted start, and a pattern that is refused. -/
theorem patterns_exact_forcing :
    (forcing "alta-*" "z").check = .ok () ∧
      (ForceTable.ofSettings (forcing "alta-*" "z")).lookup "alta-" = some "z" ∧
      (forcing "st*able" "z").Refused (.badPattern "st*able") := by
  have hcheck : (forcing "alta-*" "z").check = .ok () := rfl
  obtain ⟨-, -, -, heffect⟩ := patterns_exact (forcing "alta-*" "z")
  obtain ⟨-, hrefused, -⟩ := patterns_exact (forcing "st*able" "z")
  refine ⟨hcheck, ?_, (hrefused _).1 rfl⟩
  have hentry : (forcing "alta-*" "z").forceClusters.find? "alta-*" = some "z" := by decide
  rcases heffect hcheck "alta-*" "z" hentry with ⟨hwhole, -⟩ | ⟨start, -, hstart, -, hown, -⟩ |
    ⟨hover, -⟩
  · exact absurd hwhole (by decide)
  · obtain rfl : "alta-" = start := by
      have hkept := ForceTable.start?_eq_some_iff.2 hstart
      exact Option.some.inj hkept
    exact hown (by decide)
  · have hmeant : IsPattern "alta-*" := .start (show IsStarless "alta-" by decide) rfl
    exact absurd hover (isPattern_iff.1 hmeant).2

end Routing.HijackSettings

end Treecast
