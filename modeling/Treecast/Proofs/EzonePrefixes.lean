import Treecast.Routing.Resolution
import Treecast.Settings.Check

/-!
# Ezones of nested names

A cluster name may carry several ezones, one before the other, each with a dash behind it.  Two
functions take them off: one keeps the chain of ezones, the other the outermost one and the bare
name that is left.  They agree, and as no accepted ezone has a dash, a name is taken apart in one
way only (`Ezone.Decomposes`).  An ezone put before a name is one more in its chain and changes
nothing else, and a name that carries an ezone is resolved without another one.

Both functions count their steps down from the length of the name.  Every ezone that is taken off
leaves a shorter name, so the count never runs out (`Ezone.chain_of_some`, `Ezone.split_of_some`).

## Results

* `Ezone.stripKnown?_eq_some_iff`: when a known ezone stands before a name.
* `Ezone.decomposes_iff`: how a name is taken apart, and that there is no other way.
* `Ezone.decomposition_exact`: the two functions, names with one ezone more, and resolution in the
  caller's ezone.
-/

set_option autoImplicit false

namespace Treecast

open Routing

namespace Ezone

variable {ezones prefixes : List String} {name front tail ezone bare : String}

/-! ## One ezone -/

theorem toList_prefixed (ezone name : String) :
    (prefixed ezone name).toList = ezone.toList ++ '-' :: name.toList := by
  simp [prefixed]

/-- A name is cut at its first dash. -/
theorem cut?_eq_some_iff :
    cut? name = some (front, tail) ↔ '-' ∉ front.toList ∧ name = prefixed front tail := by
  constructor
  · intro h
    dsimp only [cut?] at h
    split at h
    · rename_i c rest hdrop
      cases h
      obtain rfl : c = '-' := by
        have hnot := List.head?_dropWhile_not (· ≠ '-') name.toList
        rw [hdrop] at hnot
        simpa using hnot
      refine ⟨?_, String.toList_inj.1 ?_⟩
      · intro hmem
        rw [String.toList_ofList] at hmem
        simpa using List.all_eq_true.1 List.all_takeWhile _ hmem
      · rw [toList_prefixed, String.toList_ofList, String.toList_ofList, ← hdrop]
        exact List.takeWhile_append_dropWhile.symm
    · cases h
  · rintro ⟨hdash, rfl⟩
    have hfront : ∀ c ∈ front.toList, decide (c ≠ '-') = true := by
      intro c hc
      apply decide_eq_true
      rintro rfl
      exact hdash hc
    have hdrop : (prefixed front tail).toList.dropWhile (· ≠ '-') = '-' :: tail.toList := by
      rw [toList_prefixed, List.dropWhile_append_of_pos hfront]
      exact List.dropWhile_cons_of_neg (by simp)
    have htake : (prefixed front tail).toList.takeWhile (· ≠ '-') = front.toList := by
      rw [toList_prefixed, List.takeWhile_append_of_pos hfront,
        List.takeWhile_cons_of_neg (by simp), List.append_nil]
    unfold cut?
    simp only [hdrop, htake, String.ofList_toList]

/-- A known ezone stands before a name if the name is not empty and the ezone has no dash. -/
theorem stripKnown?_eq_some_iff : stripKnown? ezones name = some (ezone, tail) ↔
    ezone ∈ ezones ∧ '-' ∉ ezone.toList ∧ tail ≠ "" ∧ name = prefixed ezone tail := by
  unfold stripKnown?
  constructor
  · intro h
    split at h
    · rename_i front rest hcut
      split at h
      · rename_i hknown
        cases h
        obtain ⟨hdash, hname⟩ := cut?_eq_some_iff.1 hcut
        exact ⟨hknown.2, hdash, hknown.1, hname⟩
      · cases h
    · cases h
  · rintro ⟨hmem, hdash, htail, hname⟩
    rw [cut?_eq_some_iff.2 ⟨hdash, hname⟩]
    exact if_pos ⟨htail, hmem⟩

/-- What is left after an ezone is shorter. -/
theorem length_lt_of_stripKnown? (h : stripKnown? ezones name = some (ezone, tail)) :
    tail.length < name.length := by
  obtain ⟨-, -, -, rfl⟩ := stripKnown?_eq_some_iff.1 h
  rw [← String.length_toList, ← String.length_toList, toList_prefixed, List.length_append,
    List.length_cons]
  omega

/-- What holds of names without a known ezone, and of a name if it holds of what its first ezone
stands before, holds of every name. -/
theorem strip_induction (ezones : List String) {P : String → Prop}
    (hplain : ∀ name, stripKnown? ezones name = none → P name)
    (hstrip : ∀ name ezone tail, stripKnown? ezones name = some (ezone, tail) → P tail → P name)
    (name : String) : P name := by
  cases h : stripKnown? ezones name with
  | none => exact hplain name h
  | some found =>
    exact hstrip name found.1 found.2 h (strip_induction ezones hplain hstrip found.2)
termination_by name.length
decreasing_by exact length_lt_of_stripKnown? h

/-! ## One ezone after another -/

/-- Steps beyond the length of a name are not taken. -/
theorem chainFrom_of_le (name : String) : ∀ steps, name.length ≤ steps →
    chainFrom ezones steps name = chain ezones name := by
  induction name using strip_induction ezones with
  | hplain name hnone =>
    have hnil : ∀ steps, chainFrom ezones steps name = [] := by
      intro steps
      cases steps with
      | zero => rfl
      | succ steps => simp only [chainFrom, hnone]
    intro steps _
    rw [chain, hnil, hnil]
  | hstrip name ezone tail hsome ih =>
    have hlt := length_lt_of_stripKnown? hsome
    have hcons : ∀ steps, name.length ≤ steps →
        chainFrom ezones steps name = ezone :: chain ezones tail := by
      intro steps hle
      obtain ⟨more, rfl⟩ : ∃ more, steps = more + 1 := ⟨steps - 1, by omega⟩
      simp only [chainFrom, hsome, ih more (by omega)]
    intro steps hle
    rw [chain, hcons steps hle, hcons _ (Nat.le_refl _)]

theorem chain_of_none (h : stripKnown? ezones name = none) : chain ezones name = [] := by
  rw [← chainFrom_of_le name (name.length + 1) (Nat.le_succ _)]
  simp only [chainFrom, h]

theorem chain_of_some (h : stripKnown? ezones name = some (ezone, tail)) :
    chain ezones name = ezone :: chain ezones tail := by
  have hlt := length_lt_of_stripKnown? h
  rw [← chainFrom_of_le name (name.length + 1) (Nat.le_succ _)]
  simp only [chainFrom, h]
  rw [chainFrom_of_le tail name.length (Nat.le_of_lt hlt)]

/-- Steps beyond the length of a name are not taken, and an ezone that was found before stays the
outermost one. -/
theorem splitFrom_of_le (name : String) : ∀ steps outer, name.length ≤ steps →
    splitFrom ezones steps outer name =
      (outer.or (split ezones name).1, (split ezones name).2) := by
  induction name using strip_induction ezones with
  | hplain name hnone =>
    have hstop : ∀ steps outer, splitFrom ezones steps outer name = (outer, name) := by
      intro steps outer
      cases steps with
      | zero => rfl
      | succ steps => simp only [splitFrom, hnone]
    intro steps outer _
    rw [split, hstop, hstop, Option.or_none]
  | hstrip name ezone tail hsome ih =>
    have hlt := length_lt_of_stripKnown? hsome
    have hstep : ∀ steps outer, name.length ≤ steps →
        splitFrom ezones steps outer name = (outer.or (some ezone), (split ezones tail).2) := by
      intro steps outer hle
      obtain ⟨more, rfl⟩ : ∃ more, steps = more + 1 := ⟨steps - 1, by omega⟩
      simp only [splitFrom, hsome, ih more _ (by omega), Option.or_assoc, Option.some_or]
    intro steps outer hle
    rw [split, hstep steps outer hle, hstep _ none (Nat.le_refl _), Option.none_or]

theorem split_of_none (h : stripKnown? ezones name = none) :
    split ezones name = (none, name) := by
  have hstop := @splitFrom_of_le ezones name (name.length + 1) none (Nat.le_succ _)
  simp only [splitFrom, h, Option.none_or] at hstop
  exact hstop.symm

theorem split_of_some (h : stripKnown? ezones name = some (ezone, tail)) :
    split ezones name = (some ezone, (split ezones tail).2) := by
  have hlt := length_lt_of_stripKnown? h
  have hstep := @splitFrom_of_le ezones name (name.length + 1) none (Nat.le_succ _)
  simp only [splitFrom, h, Option.none_or] at hstep
  rw [splitFrom_of_le tail name.length _ (Nat.le_of_lt hlt), Option.some_or] at hstep
  exact hstep.symm

/-- The outermost ezone is the first of the chain. -/
theorem split_fst (ezones : List String) (name : String) :
    (split ezones name).1 = (chain ezones name).head? := by
  cases h : stripKnown? ezones name with
  | none => rw [split_of_none h, chain_of_none h, List.head?_nil]
  | some found => rw [split_of_some h, chain_of_some h, List.head?_cons]

/-! ## Taking a name apart -/

/-- A name is made of known ezones, one before the other, and of a bare name that no further known
ezone stands before. -/
structure Decomposes (ezones : List String) (name : String) (prefixes : List String)
    (bare : String) : Prop where
  joined : "-".intercalate (prefixes ++ [bare]) = name
  known : ∀ ezone ∈ prefixes, ezone ∈ ezones
  nonempty : name ≠ "" → bare ≠ ""
  stripped : ∀ ezone ∈ ezones, ∀ rest, rest ≠ "" → bare ≠ prefixed ezone rest

theorem prefixed_ne_empty (ezone name : String) : prefixed ezone name ≠ "" := by
  intro h
  have hchars := congrArg String.toList h
  rw [toList_prefixed] at hchars
  simp at hchars

/-- One ezone more is joined before the others. -/
theorem intercalate_cons (ezone : String) (prefixes : List String) (bare : String) :
    "-".intercalate (ezone :: prefixes ++ [bare]) =
      prefixed ezone ("-".intercalate (prefixes ++ [bare])) :=
  String.intercalate_cons_of_ne_nil (List.append_ne_nil_of_right_ne_nil _ (List.cons_ne_nil _ _))

section Dashless

variable (hdashless : ∀ ezone ∈ ezones, '-' ∉ ezone.toList)
include hdashless

/-- A known ezone before a name is taken off. -/
theorem stripKnown?_prefixed (hmem : ezone ∈ ezones) (htail : tail ≠ "") :
    stripKnown? ezones (prefixed ezone tail) = some (ezone, tail) :=
  stripKnown?_eq_some_iff.2 ⟨hmem, hdashless ezone hmem, htail, rfl⟩

/-- The two functions take a name apart. -/
theorem decomposes_chain (name : String) :
    Decomposes ezones name (chain ezones name) (split ezones name).2 := by
  induction name using strip_induction ezones with
  | hplain name hnone =>
    rw [chain_of_none hnone, split_of_none hnone]
    refine ⟨String.intercalate_singleton, nofun, id, ?_⟩
    rintro ezone hmem rest hrest rfl
    rw [stripKnown?_prefixed hdashless hmem hrest] at hnone
    cases hnone
  | hstrip name ezone tail hsome ih =>
    rw [chain_of_some hsome, split_of_some hsome]
    obtain ⟨hmem, -, htail, rfl⟩ := stripKnown?_eq_some_iff.1 hsome
    refine ⟨?_, ?_, fun _ => ih.nonempty htail, ih.stripped⟩
    · rw [intercalate_cons, ih.joined]
    · intro other hother
      rcases List.mem_cons.1 hother with rfl | hother
      · exact hmem
      · exact ih.known other hother

/-- **A name is taken apart in one way only**, which both functions find. -/
theorem decomposes_iff : Decomposes ezones name prefixes bare ↔
    prefixes = chain ezones name ∧ bare = (split ezones name).2 := by
  constructor
  · intro h
    induction prefixes generalizing name with
    | nil =>
      obtain rfl : bare = name := String.intercalate_singleton.symm.trans h.joined
      have hnone : stripKnown? ezones bare = none := by
        cases hfound : stripKnown? ezones bare with
        | none => rfl
        | some found =>
          obtain ⟨hmem, -, htail, hname⟩ := stripKnown?_eq_some_iff.1 hfound
          exact absurd hname (h.stripped found.1 hmem found.2 htail)
      rw [chain_of_none hnone, split_of_none hnone]
      exact ⟨rfl, rfl⟩
    | cons ezone prefixes ih =>
      have hname : name = prefixed ezone ("-".intercalate (prefixes ++ [bare])) := by
        rw [← h.joined, intercalate_cons]
      have hbare : bare ≠ "" := h.nonempty (hname ▸ prefixed_ne_empty _ _)
      -- what the first ezone stands before is taken apart by the others
      have hrest : Decomposes ezones ("-".intercalate (prefixes ++ [bare])) prefixes bare :=
        ⟨rfl, fun e he => h.known e (List.mem_cons_of_mem _ he), fun _ => hbare, h.stripped⟩
      have htail : "-".intercalate (prefixes ++ [bare]) ≠ "" := by
        cases prefixes with
        | nil => rwa [List.nil_append, String.intercalate_singleton]
        | cons e es =>
          rw [intercalate_cons]
          exact prefixed_ne_empty _ _
      have hstrip := stripKnown?_prefixed hdashless (h.known ezone List.mem_cons_self) htail
      obtain ⟨hchain, hsplit⟩ := ih hrest
      rw [hname, chain_of_some hstrip, split_of_some hstrip, ← hchain, ← hsplit]
      exact ⟨rfl, rfl⟩
  · rintro ⟨rfl, rfl⟩
    exact decomposes_chain hdashless name

end Dashless

end Ezone

/-! ## Accepted settings -/

namespace Routing

/-- No ezone of accepted settings has a dash. -/
theorem RouteSettings.dashless_of_check {s : RouteSettings} (h : s.check = .ok ()) :
    ∀ ezone ∈ s.ezones, '-' ∉ ezone.toList := by
  intro ezone hmem hdash
  have hbad : (s.ezones.any fun e => e == "" || e.toList.contains '-' || e == overallEzone) =
      true := by
    refine List.any_eq_true.2 ⟨ezone, hmem, ?_⟩
    simp [hdash]
  unfold check at h
  rw [hbad] at h
  cases hintents : s.intents.any (· == "") <;> rw [hintents] at h <;> cases h

namespace Destination

variable {d : Destination} {cluster candidate : String} {caller : Option CallerRoute}

/-- Only a name without an ezone is tried in the caller's ezone. -/
theorem chain_of_inCallerEzone? (h : d.inCallerEzone? cluster caller = some candidate) :
    Ezone.chain d.policy.route.ezones cluster = [] := by
  obtain ⟨ezone, -, hcandidate⟩ := Option.bind_eq_some_iff.1 h
  dsimp only at hcandidate
  split at hcandidate
  · rename_i hfree
    rw [Bool.and_eq_true, Option.isNone_iff_eq_none, Policy.splitEzone, Ezone.split_fst,
      List.head?_eq_none_iff] at hfree
    exact hfree.1
  · cases hcandidate

/-- A name with an ezone is resolved as if no other ezone were to be tried. -/
theorem resolve?_of_chain_ne_nil (h : Ezone.chain d.policy.route.ezones cluster ≠ [])
    (options : ResolveOptions) : d.resolve? cluster { options with ezonePrefix := true } =
      d.resolve? cluster { options with ezonePrefix := false } := by
  have hnone : d.inCallerEzone? cluster options.caller = none := by
    refine Option.eq_none_iff_forall_ne_some.2 fun candidate hcandidate => ?_
    exact h (chain_of_inCallerEzone? hcandidate)
  simp [resolve?, hnone]

end Destination

end Routing

namespace Ezone

/-- **How a name is taken apart.**  Under accepted settings every name is made of known ezones and a
bare name in one way only; the chain has the ezones of this way, and the other function has its
outermost ezone and its bare name.  A known ezone put before a name that is not empty is the first
of the new chain, the rest of which is the chain of the name, and the bare name is the same.  Only a
name without an ezone is ever tried in the caller's ezone, and one that has an ezone is resolved as
if that were not asked for. -/
theorem decomposition_exact (s : RouteSettings) (hs : s.check = .ok ()) (name : String) :
    (∀ prefixes bare, Decomposes s.ezones name prefixes bare ↔
      prefixes = chain s.ezones name ∧ bare = (split s.ezones name).2) ∧
    (split s.ezones name).1 = (chain s.ezones name).head? ∧
    ((split s.ezones name).1 = none ↔ chain s.ezones name = []) ∧
    (∀ ezone ∈ s.ezones, name ≠ "" →
      chain s.ezones (prefixed ezone name) = ezone :: chain s.ezones name ∧
      split s.ezones (prefixed ezone name) = (some ezone, (split s.ezones name).2)) ∧
    ∀ d : Destination, d.policy.route = s →
      (∀ caller candidate, d.inCallerEzone? name caller = some candidate →
        chain s.ezones name = []) ∧
      ∀ ezone ∈ s.ezones, name ≠ "" → ∀ options : ResolveOptions,
        d.resolve? (prefixed ezone name) { options with ezonePrefix := true } =
          d.resolve? (prefixed ezone name) { options with ezonePrefix := false } := by
  have hdashless := RouteSettings.dashless_of_check hs
  have hmore : ∀ ezone ∈ s.ezones, name ≠ "" →
      stripKnown? s.ezones (prefixed ezone name) = some (ezone, name) :=
    fun ezone hmem hname => stripKnown?_prefixed hdashless hmem hname
  refine ⟨fun prefixes bare => decomposes_iff hdashless, split_fst _ _, ?_, ?_, ?_⟩
  · rw [split_fst, List.head?_eq_none_iff]
  · intro ezone hmem hname
    exact ⟨chain_of_some (hmore ezone hmem hname), split_of_some (hmore ezone hmem hname)⟩
  · rintro d rfl
    refine ⟨fun caller candidate h => Destination.chain_of_inCallerEzone? h, ?_⟩
    intro ezone hmem hname options
    apply Destination.resolve?_of_chain_ne_nil
    rw [chain_of_some (hmore ezone hmem hname)]
    exact List.cons_ne_nil _ _

/-- Settings with the ezones of two zones and of a stage. -/
def staged : RouteSettings := { RouteSettings.standard with ezones := ["alta", "altb", "beta"] }

/-- A repeated ezone is taken off twice, one that nothing follows stays, and so does one behind
another word. -/
theorem decomposition_exact_staged :
    staged.check = .ok () ∧
    Decomposes staged.ezones "beta-alta-alta-beta" ["beta", "alta", "alta"] "beta" ∧
    split staged.ezones "altb-web-beta-x-" = (some "altb", "web-beta-x-") ∧
    Decomposes staged.ezones "alta-" [] "alta-" ∧
    chain staged.ezones (prefixed "alta" "alta-") = ["alta"] ∧
    ∀ d : Destination, d.policy.route = staged → ∀ options : ResolveOptions,
      d.resolve? "beta-alta-" { options with ezonePrefix := true } =
        d.resolve? "beta-alta-" { options with ezonePrefix := false } := by
  have hcheck : staged.check = .ok () := rfl
  obtain ⟨hnested, -⟩ := decomposition_exact staged hcheck "beta-alta-alta-beta"
  obtain ⟨hplain, -, -, hmore, hresolve⟩ := decomposition_exact staged hcheck "alta-"
  refine ⟨hcheck, (hnested _ _).2 (by decide), by decide, (hplain _ _).2 (by decide), ?_, ?_⟩
  · exact (hmore "alta" (by decide) (by decide)).1
  · intro d hd
    exact (hresolve d hd).2 "beta" (by decide) (by decide)

end Ezone

end Treecast
