import Mathlib.Data.List.Basic
import Treecast.Proofs.Idle
import Treecast.Proofs.OpenHolders

/-!
# What a sweep does and reports

A sweep evicts exactly the idle holders, the oldest interest first, and then drops exactly the
stale entries that are left.  Entries of trees that are not registered, or that are referenced, or
in which interest was noted again, do not matter to the eviction of the others.

The evictions of a sweep work through one list and the purge through another.  For each list it is
first said what it leaves of the hub, tree by tree and holder by holder, then how long it is; the
two are put together in `Swept`, which says all that a sweep changes and that the rest is left
alone.

## Results

* `Hub.holder?_evictAll`: which holders the evictions close.
* `Hub.purge_snd`: how many entries a purge drops.
* `Hub.Beside`: what no sweep touches.
* `Hub.sweep_exact`: everything that a sweep does, in every state that a hub can come to.
-/

set_option autoImplicit false

namespace Treecast.Hub

variable {h h' : Hub} {key : TreeKey} {s : Slot} {settings : SweepSettings} {now moment : Nat}

/-! ## The age of entries -/

/-- Whether an instant lies at least so many seconds before `now`; none does if the clock had not
begun by then. -/
def isBefore (now seconds moment : Nat) : Bool := (secondsBefore now seconds).any (moment ≤ ·)

theorem isBefore_of_some {seconds bound : Nat} (hbound : secondsBefore now seconds = some bound) :
    isBefore now seconds moment = decide (moment ≤ bound) := by
  rw [isBefore, hbound, Option.any_some]

theorem isBefore_of_none {seconds : Nat} (hbound : secondsBefore now seconds = none) :
    isBefore now seconds moment = false := by
  rw [isBefore, hbound, Option.any_none]

/-! ## Holders -/

/-- The holders of the trees that a sweep evicts. -/
def evictedHolders (h : Hub) (candidates : List (Nat × TreeKey)) : List Nat :=
  (h.evictables candidates).filterMap fun e => h.holderOf? e.2

theorem holder?_evictIdle (h : Hub) (key : TreeKey) (moment id : Nat) :
    (h.evictIdle key moment).1.holder? id =
      if h.isEvictable (moment, key) = true ∧ h.holderOf? key = some id then
        (h.holder? id).map Holder.close
      else h.holder? id := by
  cases he : h.isEvictable (moment, key) with
  | true =>
    obtain ⟨s, hs, heq⟩ := evictIdle_of_evictable he
    have hholderOf : h.holderOf? key = some s.holder := by rw [holderOf?, hs, Option.map_some]
    have hholder : (h.evictIdle key moment).1.holder? id =
        if id = s.holder then (h.holder? s.holder).map Holder.close else h.holder? id := by
      rw [heq]
      exact holder?_unregister _ key s id
    rw [hholder, hholderOf]
    by_cases hid : id = s.holder
    · simp [hid]
    · simp [hid, Ne.symm hid]
  | false =>
    rw [evictIdle_of_not he]
    simp

theorem holderOf?_evictIdle (h : Hub) (moment : Nat) {other : TreeKey} (hne : other ≠ key) :
    (h.evictIdle key moment).1.holderOf? other = h.holderOf? other := by
  rw [holderOf?, slot?_evictIdle, if_neg fun hc => hne hc.1, holderOf?]

/-- **Which holders the evictions close**: those of the evicted trees. -/
theorem holder?_evictAll {candidates : List (Nat × TreeKey)} :
    ∀ (h : Hub), (candidates.map Prod.snd).Nodup → ∀ id,
      (h.evictAll candidates).1.holder? id =
        if id ∈ h.evictedHolders candidates then (h.holder? id).map Holder.close
        else h.holder? id := by
  induction candidates with
  | nil => exact fun _ _ _ => rfl
  | cons e rest ih =>
    intro h hnodup id
    obtain ⟨moment, key⟩ := e
    obtain ⟨hnot, hrest⟩ := List.nodup_cons.1 hnodup
    have hne : ∀ e ∈ rest, e.2 ≠ key := fun e he heq => hnot (List.mem_map.2 ⟨e, he, heq⟩)
    have heq : (h.evictAll ((moment, key) :: rest)).1 =
        ((h.evictIdle key moment).1.evictAll rest).1 := rfl
    -- the trees after this one keep their holders when it is evicted
    have hlater : (h.evictIdle key moment).1.evictedHolders rest = h.evictedHolders rest := by
      rw [evictedHolders, evictables_evictIdle hne]
      exact List.filterMap_congr fun e he =>
        holderOf?_evictIdle h moment (hne e (List.mem_filter.1 he).1)
    have hall : id ∈ h.evictedHolders ((moment, key) :: rest) ↔
        (h.isEvictable (moment, key) = true ∧ h.holderOf? key = some id) ∨
          id ∈ h.evictedHolders rest := by
      rw [evictedHolders, evictables_cons, List.filterMap_append, List.mem_append]
      refine or_congr ?_ Iff.rfl
      by_cases he : h.isEvictable (moment, key) = true
      · simp [he]
      · simp [he]
    have hclose : ∀ x : Holder, x.close.close = x.close := fun x =>
      Holder.close_of_isClosed x.isClosed_close
    rw [heq, ih _ hrest, hlater, holder?_evictIdle]
    by_cases hfirst : h.isEvictable (moment, key) = true ∧ h.holderOf? key = some id
    · rw [if_pos hfirst, if_pos (hall.2 (.inl hfirst)), Option.map_map]
      split
      · exact congrArg (Option.map · _) (funext hclose)
      · rfl
    · rw [if_neg hfirst]
      simp only [hall, hfirst, false_or]

/-! ## The order of evictions -/

/-- The evicted trees stand in the order of the last interest in them. -/
theorem pairwise_evictables {cutoff : Nat} (h : Hub) :
    ((h.evictables (h.interest.olderThan cutoff)).map Prod.snd).Pairwise fun a b =>
      ∃ first second, h.interestIn? a = some first ∧ h.interestIn? b = some second ∧
        first < second := by
  have hsorted : (h.interest.olderThan cutoff).Pairwise fun a b => compare a.1 b.1 = .lt := by
    rw [Interest.olderThan_eq_filter]
    exact h.interest.byTime.sorted.filter _
  refine List.pairwise_map.2 ((hsorted.filter _).imp_of_mem fun {a b} ha hb hlt => ?_)
  have hfirst := (isEvictable_iff.1 (List.mem_filter.1 ha).2).2
  have hsecond := (isEvictable_iff.1 (List.mem_filter.1 hb).2).2
  exact ⟨a.1, b.1, hfirst, hsecond, Nat.compare_eq_lt.1 hlt⟩

/-! ## Counting stale entries -/

/-- A purge of entries that are all still there counts each of them. -/
theorem purge_snd {entries : List (Nat × TreeKey)} :
    ∀ h : Hub, (entries.map Prod.snd).Nodup → (∀ e ∈ entries, h.interestIn? e.2 = some e.1) →
      (h.purge entries).2 = entries.length := by
  induction entries with
  | nil => exact fun _ _ _ => rfl
  | cons e rest ih =>
    intro h hnodup hthere
    obtain ⟨moment, key⟩ := e
    obtain ⟨hnot, hrest⟩ := List.nodup_cons.1 hnodup
    obtain ⟨hfirst, hlater⟩ := List.forall_mem_cons.1 hthere
    have hlast : h.interest.isLast key moment = true := Interest.isLast_iff.2 hfirst
    have hstill : ∀ e ∈ rest,
        interestIn? { h with interest := (h.interest.removeIfUnchanged key moment).1 } e.2 =
          some e.1 := by
      intro e he
      have hne : e.2 ≠ key := fun heq => hnot (List.mem_map.2 ⟨e, he, heq⟩)
      refine (h.interest.find?_removeIfUnchanged key moment e.2).trans ?_
      rw [if_neg fun hc => hne hc.1]
      exact hlater e he
    have hcount : (h.purge ((moment, key) :: rest)).2 =
        if (h.interest.removeIfUnchanged key moment).2 then
          (purge { h with interest := (h.interest.removeIfUnchanged key moment).1 } rest).2 + 1
        else (purge { h with interest := (h.interest.removeIfUnchanged key moment).1 } rest).2 :=
      rfl
    rw [hcount, Interest.removeIfUnchanged_snd, hlast, if_pos rfl, ih _ hrest hstill,
      List.length_cons]

/-- How many entries a sweep drops: those that lie beyond the horizon. -/
theorem purgeStale_snd (hi : h.interest.Coherent) (settings : SweepSettings) (now : Nat) :
    (h.purgeStale settings now).2 = (h.interest.byKey.toList.filter fun e =>
      isBefore now settings.staleHorizonSeconds e.2).length := by
  cases hhorizon : secondsBefore now settings.staleHorizonSeconds with
  | none =>
    rw [purgeStale_of_none hhorizon]
    simp only [isBefore_of_none hhorizon, List.filter_false, List.length_nil]
  | some horizon =>
    have hthere : ∀ e ∈ h.interest.olderThan horizon, h.interestIn? e.2 = some e.1 :=
      fun e he => (hi.mem_olderThan_iff.1 he).1
    rw [purgeStale_of_some hhorizon, purge_snd h (hi.nodup_olderThan horizon) hthere]
    simp only [isBefore_of_some hhorizon]
    -- the map by time and the map by tree list the same entries
    have hnodup : ((h.interest.olderThan horizon).map Prod.swap).Nodup :=
      (List.pairwise_map.1 (hi.nodup_olderThan horizon)).map _ fun a b hne heq =>
        hne (congrArg Prod.fst heq)
    have hperm : ((h.interest.olderThan horizon).map Prod.swap).Perm
        (h.interest.byKey.toList.filter fun e => decide (e.2 ≤ horizon)) := by
      refine (List.perm_ext_iff_of_nodup hnodup
        (h.interest.byKey.nodup_toList.filter _)).2 fun e => ?_
      obtain ⟨key, moment⟩ := e
      rw [List.mem_filter, SortedMap.mem_toList_iff, decide_eq_true_eq, ← hi.mem_olderThan_iff,
        List.mem_map]
      constructor
      · rintro ⟨⟨m, k⟩, hmem, heq⟩
        cases heq
        exact hmem
      · intro hmem
        exact ⟨(moment, key), hmem, rfl⟩
    rw [← List.length_map (f := Prod.swap), hperm.length_eq]

/-- What a purge leaves of the index. -/
theorem interestIn?_purgeStale (hi : h.interest.Coherent) (settings : SweepSettings) (now : Nat)
    (key : TreeKey) : (h.purgeStale settings now).1.interestIn? key =
      (h.interestIn? key).filter (!isBefore now settings.staleHorizonSeconds ·) := by
  cases hhorizon : secondsBefore now settings.staleHorizonSeconds with
  | none =>
    rw [purgeStale_of_none hhorizon]
    simp only [isBefore_of_none hhorizon]
    cases h.interestIn? key <;> rfl
  | some horizon =>
    rw [purgeStale_of_some hhorizon]
    simp only [isBefore_of_some hhorizon]
    refine Option.ext fun m => ?_
    rw [find?_purge, hi.mem_olderThan_iff, Option.filter_eq_some_iff]
    refine and_congr_right fun hkey => ?_
    have hbyKey : h.interest.byKey.find? key = some m := hkey
    simp [hbyKey]

/-! ## What sweeps leave alone -/

/-- Everything is the same but the registry, the holders, the entries of the index and the
meters. -/
structure Beside (h h' : Hub) : Prop where
  settings : h'.settings = h.settings
  leases : h'.leases = h.leases
  calls : h'.calls = h.calls
  gate : h'.gate = h.gate
  numbers : h'.nextHolder = h.nextHolder ∧ h'.nextLease = h.nextLease ∧ h'.nextCall = h.nextCall
  clock : h'.interest.last = h.interest.last

theorem Beside.refl (h : Hub) : Beside h h := ⟨rfl, rfl, rfl, rfl, ⟨rfl, rfl, rfl⟩, rfl⟩

theorem Beside.trans {h'' : Hub} (hfirst : Beside h h') (hmore : Beside h' h'') :
    Beside h h'' where
  settings := hmore.settings.trans hfirst.settings
  leases := hmore.leases.trans hfirst.leases
  calls := hmore.calls.trans hfirst.calls
  gate := hmore.gate.trans hfirst.gate
  numbers := ⟨hmore.numbers.1.trans hfirst.numbers.1, hmore.numbers.2.1.trans hfirst.numbers.2.1,
    hmore.numbers.2.2.trans hfirst.numbers.2.2⟩
  clock := hmore.clock.trans hfirst.clock

theorem beside_evictIdle (h : Hub) (key : TreeKey) (moment : Nat) :
    Beside h (h.evictIdle key moment).1 := by
  cases he : h.isEvictable (moment, key) with
  | true =>
    obtain ⟨s, -, heq⟩ := evictIdle_of_evictable he
    rw [heq]
    exact ⟨rfl, rfl, rfl, rfl, ⟨rfl, rfl, rfl⟩, h.interest.last_removeIfUnchanged key moment⟩
  | false =>
    rw [evictIdle_of_not he]
    exact .refl h

theorem beside_evictStale (h : Hub) (settings : SweepSettings) (now : Nat) :
    Beside h (h.evictStale settings now).1 := by
  have hchain := evictStale_chain (fun h key moment =>
    Relation.ReflTransGen.single (beside_evictIdle h key moment)) h settings now
  generalize (h.evictStale settings now).1 = h' at hchain ⊢
  induction hchain with
  | refl => exact .refl h
  | tail _ hlast ih => exact ih.trans hlast

theorem beside_purge {entries : List (Nat × TreeKey)} :
    ∀ h : Hub, Beside h (h.purge entries).1 := by
  induction entries with
  | nil => exact .refl
  | cons e rest ih =>
    intro h
    have hfirst : Beside h { h with interest := (h.interest.removeIfUnchanged e.2 e.1).1 } :=
      ⟨rfl, rfl, rfl, rfl, ⟨rfl, rfl, rfl⟩, h.interest.last_removeIfUnchanged e.2 e.1⟩
    exact hfirst.trans (ih _)

theorem beside_purgeStale (h : Hub) (settings : SweepSettings) (now : Nat) :
    Beside h (h.purgeStale settings now).1 := by
  cases hhorizon : secondsBefore now settings.staleHorizonSeconds with
  | some horizon =>
    rw [purgeStale_of_some hhorizon]
    exact beside_purge h
  | none =>
    rw [purgeStale_of_none hhorizon]
    exact .refl h

/-! ## Evictions as a whole -/

/-- What the evictions of a sweep do, if they are allowed: `evicted` are the trees, in their
order. -/
structure Evicted (settings : SweepSettings) (allowed : Bool) (now : Nat) (h h' : Hub)
    (evicted : List TreeKey) : Prop where
  exactly : ∀ key, key ∈ evicted ↔ allowed = true ∧ (∃ s, h.slot? key = some s ∧ s.refs = 0) ∧
    ∃ moment, h.interestIn? key = some moment ∧
      isBefore now settings.retentionSeconds moment = true
  ordered : evicted.Pairwise fun a b => ∃ first second,
    h.interestIn? a = some first ∧ h.interestIn? b = some second ∧ first < second
  registry : ∀ key, h'.slot? key = if key ∈ evicted then none else h.slot? key
  holders : ∀ id, h'.holder? id =
    if id ∈ evicted.filterMap h.holderOf? then (h.holder? id).map Holder.close else h.holder? id
  index : ∀ key, h'.interestIn? key = if key ∈ evicted then none else h.interestIn? key
  coherent : h'.interest.Coherent
  beside : Beside h h'

/-- Nobody is evicted. -/
theorem evicted_nobody (hi : h.interest.Coherent) {allowed : Bool}
    (hnobody : allowed = true → secondsBefore now settings.retentionSeconds = none) :
    Evicted settings allowed now h h [] where
  exactly key := by
    refine ⟨nofun, fun ⟨hallowed, _, moment, _, hold⟩ => ?_⟩
    rw [isBefore_of_none (hnobody hallowed)] at hold
    cases hold
  ordered := List.Pairwise.nil
  registry _ := rfl
  holders _ := rfl
  index _ := rfl
  coherent := hi
  beside := .refl h

theorem evictStale_evicted (hi : h.interest.Coherent) (settings : SweepSettings) (now : Nat) :
    Evicted settings true now h (h.evictStale settings now).1 (h.evictStale settings now).2 := by
  cases hcutoff : secondsBefore now settings.retentionSeconds with
  | none =>
    rw [evictStale_of_none hcutoff]
    exact evicted_nobody hi fun _ => hcutoff
  | some cutoff =>
    have hnodup := hi.nodup_olderThan cutoff
    have hcoherent := (h.evictStale_moves settings now).careful.coherent hi
    have hbeside := h.beside_evictStale settings now
    rw [evictStale_of_some hcutoff] at hcoherent hbeside ⊢
    rw [evictAll_snd h hnodup]
    refine ⟨fun key => ?_, h.pairwise_evictables, slot?_evictAll hnodup h, fun id => ?_,
      interestIn?_evictAll hnodup h, hcoherent, hbeside⟩
    · simp only [isBefore_of_some hcutoff, decide_eq_true_eq, true_and]
      exact mem_evictables_olderThan hi
    · rw [holder?_evictAll h hnodup, evictedHolders, List.filterMap_map]
      rfl

/-- The evictions of a sweep whose condition said `allowed`. -/
theorem evicted_of_allowed (hi : h.interest.Coherent) (settings : SweepSettings) (allowed : Bool)
    (now : Nat) :
    Evicted settings allowed now h (if allowed then h.evictStale settings now else (h, [])).1
      (if allowed then h.evictStale settings now else (h, [])).2 := by
  cases allowed with
  | true => exact evictStale_evicted hi settings now
  | false => exact evicted_nobody hi nofun

/-- What the evictions leave of the index is a part of it. -/
theorem Evicted.byKey_toList {allowed : Bool} {evicted : List TreeKey}
    (he : Evicted settings allowed now h h' evicted) :
    h'.interest.byKey.toList = h.interest.byKey.toList.filter fun e => decide (e.1 ∉ evicted) := by
  have hleft : h'.interest.byKey =
      h.interest.byKey.filter fun key _ => decide (key ∉ evicted) := by
    refine SortedMap.ext_find? fun key => ?_
    rw [SortedMap.find?_filter]
    refine (he.index key).trans ?_
    rw [interestIn?]
    by_cases hkey : key ∈ evicted
    · simp [hkey]
    · cases h.interest.byKey.find? key <;> simp [hkey, Option.filter]
  rw [hleft]
  rfl

/-- Two trees have different holders. -/
theorem Exclusive.not_mem_holders (hx : h.Exclusive) (hs : h.slot? key = some s)
    {evicted : List TreeKey} (hkept : key ∉ evicted) :
    s.holder ∉ evicted.filterMap h.holderOf? := by
  intro hmem
  obtain ⟨other, hother, hholder⟩ := List.mem_filterMap.1 hmem
  have hown : h.holderOf? key = some s.holder := by rw [holderOf?, hs, Option.map_some]
  obtain ⟨x, hx₁, rfl⟩ := hx.registered other s.holder hholder
  obtain ⟨y, hx₂, hkey⟩ := hx.registered key s.holder hown
  cases hx₁.symm.trans hx₂
  exact hkept (hkey ▸ hother)

/-! ## Whole sweeps -/

/-- Everything that a sweep does, if its condition said `allowed`. -/
structure Swept (settings : SweepSettings) (allowed : Bool) (now : Nat) (h h' : Hub)
    (report : SweepReport) : Prop where
  /-- The evicted trees are those that are registered without references, and whose last interest
  lies at least the retention time back. -/
  evicted : ∀ key, key ∈ report.evicted ↔
    allowed = true ∧ (∃ s, h.slot? key = some s ∧ s.refs = 0) ∧
      ∃ moment, h.interestIn? key = some moment ∧
        isBefore now settings.retentionSeconds moment = true
  /-- They are reported by the instants of the last interest, the oldest first. -/
  ordered : report.evicted.Pairwise fun a b => ∃ first second,
    h.interestIn? a = some first ∧ h.interestIn? b = some second ∧ first < second
  /-- They are no longer registered, and all others are, as they were. -/
  registry : ∀ key, h'.slot? key = if key ∈ report.evicted then none else h.slot? key
  /-- Their holders are closed. -/
  closed : ∀ key ∈ report.evicted, ∃ id x, h.holderOf? key = some id ∧ h.holder? id = some x ∧
    h'.holder? id = some x.close ∧ x.close.isClosed = true
  /-- Nothing happens to any other holder. -/
  others : ∀ id, (∀ key ∈ report.evicted, h.holderOf? key ≠ some id) →
    h'.holder? id = h.holder? id
  /-- Nothing happens to the other registered holders. -/
  registered : ∀ key, key ∉ report.evicted → h'.registered? key = h.registered? key
  /-- The index loses the evicted trees, and of the other ones those beyond the horizon. -/
  index : ∀ key, h'.interestIn? key =
    if key ∈ report.evicted then none
    else (h.interestIn? key).filter (!isBefore now settings.staleHorizonSeconds ·)
  /-- The latter are counted. -/
  purged : report.purged = (h.interest.byKey.toList.filter fun e =>
    e.1 ∉ report.evicted && isBefore now settings.staleHorizonSeconds e.2).length
  coherent : h'.interest.Coherent
  beside : Beside h h'

theorem sweep_swept (hi : h.interest.Coherent) (hx : h.Exclusive) {condition : EvictionCondition}
    {allowed : Bool} (hc : condition h.stats = .ok allowed) :
    ∃ report, (h.sweep settings condition now).2 = .ok report ∧
      Swept settings allowed now h (h.sweep settings condition now).1 report := by
  have he := evicted_of_allowed hi settings allowed now
  have hsweep : h.sweep settings condition now =
      (((if allowed then h.evictStale settings now else (h, [])).1.purgeStale settings now).1,
        .ok ⟨(if allowed then h.evictStale settings now else (h, [])).2,
          ((if allowed then h.evictStale settings now else (h, [])).1.purgeStale settings
            now).2⟩) := by
    unfold sweep
    rw [hc]
  rw [hsweep]
  generalize (if allowed then h.evictStale settings now else (h, [])).1 = h₁ at he ⊢
  generalize (if allowed then h.evictStale settings now else (h, [])).2 = evicted at he ⊢
  obtain ⟨interest, hpurge⟩ := h₁.purgeStale_eq settings now
  have hslot : ∀ key, (h₁.purgeStale settings now).1.slot? key = h₁.slot? key :=
    h₁.slot?_purgeStale settings now
  have hholder : ∀ id, (h₁.purgeStale settings now).1.holder? id = h₁.holder? id := by
    intro id
    rw [hpurge]
    rfl
  have hbeside := he.beside.trans (h₁.beside_purgeStale settings now)
  refine ⟨_, rfl, he.exactly, he.ordered, fun key => (hslot key).trans (he.registry key), ?_, ?_,
    ?_, ?_, ?_, coherent_purgeStale he.coherent, hbeside⟩
  · intro key hkey
    obtain ⟨-, ⟨s, hs, -⟩, -⟩ := (he.exactly key).1 hkey
    have hown : h.holderOf? key = some s.holder := by rw [holderOf?, hs, Option.map_some]
    obtain ⟨x, hthere, -⟩ := hx.registered key s.holder hown
    refine ⟨s.holder, x, hown, hthere, ?_, x.isClosed_close⟩
    rw [hholder, he.holders, if_pos (List.mem_filterMap.2 ⟨key, hkey, hown⟩), hthere,
      Option.map_some]
  · intro id hid
    rw [hholder, he.holders, if_neg]
    intro hmem
    obtain ⟨key, hkey, hown⟩ := List.mem_filterMap.1 hmem
    exact hid key hkey hown
  · intro key hkey
    rw [registered?, registered?, hslot, he.registry, if_neg hkey]
    cases hs : h.slot? key with
    | none => rfl
    | some s =>
      rw [Option.bind_some, Option.bind_some, hholder, he.holders,
        if_neg (hx.not_mem_holders hs hkey)]
  · intro key
    rw [interestIn?_purgeStale he.coherent, he.index]
    split <;> rfl
  · rw [purgeStale_snd he.coherent, he.byKey_toList, List.filter_filter]
    simp only [Bool.and_comm]

/-- **A sweep evicts exactly the idle holders.**  In every state that a hub can come to, for every
condition, all settings and every instant: if the condition fails, nothing changes and its fault
is returned.  Otherwise the trees that are evicted, the oldest interest first, are those without
references whose last interest lies at least the retention time back, if the condition holds, and
none if not; their holders are closed and leave the registry and the index; nothing happens to the
other ones; and of the entries that remain those beyond the horizon are dropped and counted. -/
theorem sweep_exact (settings : SweepSettings) (hub : HubSettings) (acts : List Act)
    (sweeps : SweepSettings) (condition : EvictionCondition) (now : Nat) :
    let h := (create hub).run settings acts
    match condition h.stats with
    | .error fault => h.sweep sweeps condition now = (h, .error fault)
    | .ok allowed =>
      ∃ report, (h.sweep sweeps condition now).2 = .ok report ∧
        Swept sweeps allowed now h (h.sweep sweeps condition now).1 report := by
  intro h
  have hi : h.interest.Coherent := coherent_run settings hub acts
  have hx : h.Exclusive := exclusive_run settings hub acts
  cases hc : condition h.stats with
  | error fault =>
    dsimp only
    unfold sweep
    rw [hc]
  | ok allowed => exact sweep_swept hi hx hc

end Treecast.Hub
