import Treecast.Proofs.Sweeps

/-!
# Idle holders and the interest index

The sweeper finds idle holders through the interest index alone: a holder without leases whose
entry is gone is out of its reach.  No operation loses an entry that way but one: a sweep whose
condition does not allow evicting still drops the entries that lie beyond the horizon.  A sweep
that may evict never does so, as it has evicted what it would have lost.

## Results

* `Hub.Careful`: what no change but such a sweep violates (`Move.careful`).
* `Hub.escaped_act`: what one act can lose.
* `Hub.sweep_evicts`: an idle holder with an old entry is evicted.
* `Hub.idle_withinReach_or_lapsed`: over whole runs, sweeps can find every idle holder, unless its
  entry was dropped by one that must not evict, and no interest was noted since.
-/

set_option autoImplicit false

namespace Treecast.Hub

variable {h h' h'' : Hub} {key : TreeKey} {s : Slot} {settings : SweepSettings} {now : Nat}

/-- A registered holder is idle and the index does not know. -/
structure Escaped (h : Hub) (key : TreeKey) (s : Slot) : Prop where
  slot : h.slot? key = some s
  idle : s.refs = 0
  unknown : h.interestIn? key = none

/-- Going from one hub to another keeps the index coherent and lets no holder escape. -/
structure Careful (h h' : Hub) : Prop where
  coherent : h.interest.Coherent → h'.interest.Coherent
  escaped : ∀ key s, h'.Escaped key s → h.Escaped key s

theorem Careful.refl (h : Hub) : Careful h h := ⟨id, fun _ _ => id⟩

theorem Careful.trans (hab : Careful h h') (hbc : Careful h' h'') : Careful h h'' :=
  ⟨fun hi => hbc.coherent (hab.coherent hi),
    fun key s he => hab.escaped key s (hbc.escaped key s he)⟩

/-- Where neither the registry nor the index changes, no holder escapes. -/
theorem careful_of_eq (hr : h'.registry = h.registry) (hi : h'.interest = h.interest) :
    Careful h h' := by
  refine ⟨fun hc => hi ▸ hc, fun key s he => ⟨?_, he.idle, ?_⟩⟩
  · have hslot := he.slot
    rwa [slot?, hr] at hslot
  · have hunknown := he.unknown
    rwa [interestIn?, hi] at hunknown

/-! ## Leases -/

theorem careful_track (h : Hub) (now : Nat) (key : TreeKey) : Careful h (h.track now key) := by
  refine ⟨fun hi => hi.touch key now, fun other s he => ⟨he.slot, he.idle, ?_⟩⟩
  have hunknown : (h.interest.touch key now).byKey.find? other = none := he.unknown
  rw [Interest.find?_touch] at hunknown
  split at hunknown
  · cases hunknown
  · exact hunknown

/-- The last reference to go leaves an entry behind. -/
theorem careful_dropReference (now : Nat) (hs : h.slot? key = some s) :
    Careful h (h.dropReference now key s) := by
  refine ⟨fun hi => ?_, fun other t he => ?_⟩
  · rw [dropReference_eq]
    split
    · exact hi
    · dsimp only
      split
      · exact hi.touch key now
      · exact hi
  · have hslot := he.slot
    have hunknown := he.unknown
    rw [slot?_dropReference h now hs] at hslot
    rw [dropReference_eq] at hunknown
    by_cases hzero : s.refs = 0
    · rw [if_pos hzero] at hunknown
      split at hslot
      · rename_i heq
        cases hslot
        refine ⟨heq ▸ hs.trans ?_, he.idle, hunknown⟩
        rw [hzero, Nat.zero_sub, ← hzero]
      · exact ⟨hslot, he.idle, hunknown⟩
    · rw [if_neg hzero] at hunknown
      dsimp only [interestIn?] at hunknown
      split at hslot
      · -- the slot itself: it had one reference, so that interest was noted
        rename_i heq
        cases hslot
        have hone : s.refs = 1 := by
          have hidle : s.refs - 1 = 0 := he.idle
          omega
        rw [if_pos hone, Interest.find?_touch, if_pos heq] at hunknown
        cases hunknown
      · rename_i hne
        refine ⟨hslot, he.idle, ?_⟩
        split at hunknown
        · rw [Interest.find?_touch, if_neg hne] at hunknown
          exact hunknown
        · exact hunknown

theorem careful_release (h : Hub) (now : Nat) (key : TreeKey) : Careful h (h.release now key) := by
  unfold release
  split
  · rename_i s hs
    exact careful_dropReference now hs
  · exact .refl h

theorem careful_releaseLease (h : Hub) (now id : Nat) : Careful h (h.releaseLease now id) := by
  unfold releaseLease
  split
  · exact .refl h
  split
  · exact .refl h
  rename_i lease _ _
  have hmark : Careful h
      { h with leases := h.leases.insert id { lease with released := true } } :=
    careful_of_eq rfl rfl
  dsimp only
  split
  · rename_i s hs
    split
    · exact hmark.trans (careful_dropReference now hs)
    · exact hmark
  · exact hmark

theorem careful_dropLease (h : Hub) (now id : Nat) : Careful h (h.dropLease now id) :=
  (h.careful_releaseLease now id).trans (careful_of_eq rfl rfl)

/-- A holder that is called for has a lease, and interest was noted. -/
theorem careful_call (h : Hub) (now time : Nat) (key : TreeKey) :
    Careful h (h.call now time key).1 := by
  have hcareful : ∀ (h' : Hub) (s : Slot), s.refs ≠ 0 →
      h'.registry = h.registry.insert key s → h'.interest = h.interest.touch key now →
      Careful h h' := by
    intro h' s hrefs hregistry hinterest
    refine ⟨fun hi => hinterest ▸ hi.touch key now, fun other t he => ?_⟩
    have hslot := he.slot
    rw [slot?, hregistry, SortedMap.find?_insert] at hslot
    have hunknown := he.unknown
    rw [interestIn?, hinterest, Interest.find?_touch] at hunknown
    split at hslot
    · cases hslot
      exact absurd he.idle hrefs
    · rename_i hne
      rw [if_neg hne] at hunknown
      exact ⟨hslot, he.idle, hunknown⟩
  cases ho : h.openSlot? key with
  | some s =>
    obtain ⟨meters, heq⟩ := call_of_open now time ho
    rw [heq]
    exact hcareful _ _ (Nat.succ_ne_zero s.refs) rfl rfl
  | none =>
    obtain ⟨meters, gate, phase, heq, -⟩ := call_of_none now time ho
    rw [heq]
    exact hcareful _ _ Nat.one_ne_zero rfl rfl

/-! ## Evictions -/

/-- With the holder its entry may go, too. -/
theorem careful_evict {interest : Interest} (hcoherent : h.interest.Coherent → interest.Coherent)
    (hothers : ∀ other, other ≠ key → interest.byKey.find? other = h.interest.byKey.find? other) :
    Careful h (Hub.unregister { h with interest } key s) := by
  refine ⟨hcoherent, fun other t he => ?_⟩
  have hslot := he.slot
  rw [slot?_unregister] at hslot
  split at hslot
  · cases hslot
  · rename_i hne
    exact ⟨hslot, he.idle, (hothers other hne).symm.trans he.unknown⟩

/-- Forgetting a tree is careful where no holder is registered for it. -/
theorem careful_forget (hnone : h.slot? key = none) : Careful h (h.forget key) := by
  refine ⟨fun hi => hi.remove key, fun other t he => ⟨he.slot, he.idle, ?_⟩⟩
  have hunknown : (h.interest.remove key).byKey.find? other = none := he.unknown
  rw [Interest.find?_remove] at hunknown
  split at hunknown
  · rename_i heq
    have hslot : h.slot? other = some t := he.slot
    rw [heq, hnone] at hslot
    cases hslot
  · exact hunknown

theorem careful_closeAll (h : Hub) : Careful h h.closeAll := by
  have hfold : ∀ (slots : List (TreeKey × Slot)) (h : Hub), (∀ key, h.slot? key = none) →
      Careful h (slots.foldl (fun h e => (h.forget e.1).closeHolder e.2.holder) h) := by
    intro slots
    induction slots with
    | nil => exact fun h _ => .refl h
    | cons e rest ih =>
      intro h hnone
      have hclose : Careful (h.forget e.1) ((h.forget e.1).closeHolder e.2.holder) :=
        careful_of_eq rfl rfl
      exact ((careful_forget (hnone e.1)).trans hclose).trans (ih _ hnone)
  have hempty : Careful h (Hub.gauge { h with registry := SortedMap.empty }) :=
    ⟨id, fun key s he => by cases he.slot⟩
  exact hempty.trans (hfold _ _ fun key => rfl)

/-! ## Whatever happens -/

theorem careful_endCall (h : Hub) (id : Nat) (c : Call) : Careful h (h.endCall id c) := by
  obtain ⟨gate, next, heq⟩ := h.endCall_eq id c
  rw [heq]
  exact careful_of_eq rfl rfl

theorem careful_abandon (h : Hub) (now id : Nat) : Careful h (h.abandon now id) := by
  unfold abandon
  split
  · rename_i c _
    exact (h.careful_endCall id c).trans (careful_dropLease _ now c.lease)
  · exact .refl h

theorem Move.careful (hm : Move h h') : Careful h h' := by
  cases hm with
  | meters meters => exact careful_of_eq rfl rfl
  | track now key => exact h.careful_track now key
  | call now time key => exact h.careful_call now time key
  | start deadline hc hl => exact careful_of_eq rfl rfl
  | succeed hc hp => exact h.careful_endCall _ _
  | drop now hc hfree => exact h.careful_abandon now _
  | releaseLease now hfree => exact h.careful_releaseLease now _
  | dropLease now hfree => exact h.careful_dropLease now _
  | evict interest hs hzero hcoherent hothers => exact careful_evict hcoherent hothers
  | change holder hf => exact careful_of_eq rfl rfl
  | closeAll => exact h.careful_closeAll

theorem Moves.careful (hm : Moves h h') : Careful h h' := by
  induction hm with
  | refl => exact .refl h
  | tail _ hlast ih => exact ih.trans hlast.careful

/-! ## Sweeps -/

theorem coherent_purge {entries : List (Nat × TreeKey)} :
    ∀ h : Hub, h.interest.Coherent → (h.purge entries).1.interest.Coherent := by
  induction entries with
  | nil => exact fun _ => id
  | cons e rest ih => exact fun h hi => ih _ (hi.removeIfUnchanged e.2 e.1)

theorem coherent_purgeStale (hi : h.interest.Coherent) :
    (h.purgeStale settings now).1.interest.Coherent := by
  cases hhorizon : secondsBefore now settings.staleHorizonSeconds with
  | some horizon =>
    rw [purgeStale_of_some hhorizon]
    exact coherent_purge h hi
  | none => rwa [purgeStale_of_none hhorizon]

/-- A sweep drops the entry of a tree at the instant `now`: its last interest lies beyond the
horizon. -/
def IsStale (settings : SweepSettings) (h : Hub) (key : TreeKey) (now : Nat) : Prop :=
  ∃ moment horizon, h.interestIn? key = some moment ∧
    secondsBefore now settings.staleHorizonSeconds = some horizon ∧ moment ≤ horizon

/-- **Dropping entries** makes a holder escape if its entry is stale. -/
theorem escaped_purgeStale (hi : h.interest.Coherent)
    (he : (h.purgeStale settings now).1.Escaped key s) :
    h.slot? key = some s ∧ (h.Escaped key s ∨ IsStale settings h key now) := by
  cases hhorizon : secondsBefore now settings.staleHorizonSeconds with
  | none =>
    rw [purgeStale_of_none hhorizon] at he
    exact ⟨he.slot, .inl he⟩
  | some horizon =>
    rw [purgeStale_of_some hhorizon] at he
    have hslot := he.slot
    rw [slot?_purge] at hslot
    refine ⟨hslot, ?_⟩
    cases hkey : h.interestIn? key with
    | none => exact .inl ⟨hslot, he.idle, hkey⟩
    | some moment =>
      refine .inr ⟨moment, horizon, hkey, hhorizon, ?_⟩
      -- an entry that is kept would still be there
      refine Nat.le_of_not_lt fun hlt => ?_
      have hkept := (find?_purge h key moment).2
        ⟨hkey, fun hmem => Nat.not_le_of_lt hlt (hi.mem_olderThan_iff.1 hmem).2⟩
      rw [he.unknown] at hkept
      cases hkept

/-- **A sweep that may evict** loses nobody: what lies beyond the horizon was evicted. -/
theorem escaped_evictStale_purgeStale (hvalid : settings.check = .ok ()) (hi : h.interest.Coherent)
    (he : ((h.evictStale settings now).1.purgeStale settings now).1.Escaped key s) :
    h.Escaped key s := by
  have hcareful := (h.evictStale_moves settings now).careful
  obtain ⟨hslot, hescaped | ⟨moment, horizon, hkey, hhorizon, hle⟩⟩ :=
    escaped_purgeStale (hcareful.coherent hi) he
  · exact hcareful.escaped key s hescaped
  · obtain ⟨cutoff, hcutoff, hle'⟩ := secondsBefore_mono
      (Nat.le_of_lt (SweepSettings.retention_lt_horizon hvalid)) hhorizon
    have hlt := evictStale_idle hi hcutoff hslot he.idle hkey
    omega

/-- **An idle holder with an old entry** is evicted by the next sweep that may evict. -/
theorem sweep_evicts {condition : EvictionCondition} {moment : Nat} (hi : h.interest.Coherent)
    (hs : h.slot? key = some s) (hzero : s.refs = 0) (hkey : h.interestIn? key = some moment)
    (hc : condition h.stats = .ok true)
    (hold : ticksPerSecond * settings.retentionSeconds + moment ≤ now) :
    (∃ report, (h.sweep settings condition now).2 = .ok report ∧ key ∈ report.evicted) ∧
      (h.sweep settings condition now).1.slot? key = none := by
  obtain ⟨rest, hnow⟩ := Nat.exists_eq_add_of_le hold
  have hcutoff : secondsBefore now settings.retentionSeconds = some (moment + rest) := by
    rw [secondsBefore_eq_some_iff, hnow, Nat.add_assoc]
  have hstale := evictStale_of_some (h := h) hcutoff
  have hnodup := hi.nodup_olderThan (moment + rest)
  have hmem : key ∈ (h.evictables (h.interest.olderThan (moment + rest))).map Prod.snd :=
    (mem_evictables_olderThan hi).2 ⟨⟨s, hs, hzero⟩, moment, hkey, Nat.le_add_right _ _⟩
  constructor
  · refine ⟨⟨(h.evictStale settings now).2,
        ((h.evictStale settings now).1.purgeStale settings now).2⟩,
      ?_, ?_⟩
    · unfold sweep
      rw [hc]
      rfl
    · rw [hstale, evictAll_snd h hnodup]
      exact hmem
  · rw [sweep_of_ok hc, if_pos rfl, slot?_purgeStale, hstale, slot?_evictAll hnodup, if_pos hmem]

/-! ## Runs -/

/-- Whatever happens but a sweep lets no holder escape. -/
theorem careful_act {a : Act} (ha : ∀ condition now, a ≠ .sweep condition now) :
    Careful h (h.act settings a) := by
  have hturn := act_turn settings h a
  generalize h.act settings a = h' at hturn ⊢
  cases hturn with
  | moves hm => exact hm.careful
  | abandon now id => exact h.careful_abandon now id
  | timeout meters hc hl hwait hle =>
    have hmeters : Careful h { h with meters } := careful_of_eq rfl rfl
    exact (hmeters.trans (careful_abandon _ _ _)).trans (evictFailed_moves _ _ _).careful
  | release now key => exact h.careful_release now key
  | sweep condition now => exact absurd rfl (ha condition now)

theorem coherent_sweep (hi : h.interest.Coherent) (condition : EvictionCondition) :
    (h.sweep settings condition now).1.interest.Coherent := by
  cases hc : condition h.stats with
  | error fault => rwa [sweep_of_error hc]
  | ok allowed =>
    rw [sweep_of_ok hc]
    refine coherent_purgeStale ?_
    cases allowed with
    | true => exact (h.evictStale_moves settings now).careful.coherent hi
    | false => exact hi

theorem coherent_act (hi : h.interest.Coherent) (a : Act) :
    (h.act settings a).interest.Coherent := by
  by_cases ha : ∃ condition now, a = .sweep condition now
  · obtain ⟨condition, now, rfl⟩ := ha
    exact coherent_sweep hi condition
  · exact (careful_act fun condition now heq => ha ⟨condition, now, heq⟩).coherent hi

/-- A sweep that must not evict comes by, and drops the entry of a tree. -/
def Lapses (settings : SweepSettings) (h : Hub) (key : TreeKey) : Act → Prop
  | .sweep condition now => condition h.stats = .ok false ∧ IsStale settings h key now
  | _ => False

/-- **What one act can lose.** -/
theorem escaped_act (hvalid : settings.check = .ok ()) (hi : h.interest.Coherent) {a : Act}
    (he : (h.act settings a).Escaped key s) :
    h.slot? key = some s ∧ (h.Escaped key s ∨ Lapses settings h key a) := by
  by_cases ha : ∃ condition now, a = .sweep condition now
  · obtain ⟨condition, now, rfl⟩ := ha
    change (h.sweep settings condition now).1.Escaped key s at he
    cases hc : condition h.stats with
    | error fault =>
      rw [sweep_of_error hc] at he
      exact ⟨he.slot, .inl he⟩
    | ok allowed =>
      rw [sweep_of_ok hc] at he
      cases allowed with
      | true =>
        have hescaped := escaped_evictStale_purgeStale hvalid hi he
        exact ⟨hescaped.slot, .inl hescaped⟩
      | false =>
        obtain ⟨hslot, hescaped | hstale⟩ := escaped_purgeStale hi he
        · exact ⟨hslot, .inl hescaped⟩
        · exact ⟨hslot, .inr ⟨hc, hstale⟩⟩
  · have hescaped :=
      (careful_act fun condition now heq => ha ⟨condition, now, heq⟩).escaped key s he
    exact ⟨hescaped.slot, .inl hescaped⟩

/-- In the course of a run, a sweep that must not evict dropped the entry of an idle holder, and
since then no interest in its tree was noted. -/
def LapsedIn (settings : SweepSettings) (h : Hub) (acts : List Act) (key : TreeKey) (s : Slot) :
    Prop :=
  Since settings h acts (fun h a => h.slot? key = some s ∧ Lapses settings h key a)
    (·.Escaped key s)

theorem coherent_run (settings : SweepSettings) (hub : HubSettings) (acts : List Act) :
    ((create hub).run settings acts).interest.Coherent :=
  run_induction (P := fun _ h => h.interest.Coherent) Interest.coherent_empty
    (fun _ a hi => coherent_act hi a) acts

/-- Whoever has escaped did so in a sweep that must not evict. -/
theorem lapsedIn_of_escaped (hvalid : settings.check = .ok ()) (hub : HubSettings)
    (acts : List Act) (he : ((create hub).run settings acts).Escaped key s) :
    LapsedIn settings (create hub) acts key s := by
  refine since_of_run (P := fun h => h.Escaped key s) (fun hstart => ?_) (fun acts a hafter => ?_)
    acts he
  · cases hstart.slot
  · obtain ⟨hslot, hescaped | hlapse⟩ :=
      escaped_act hvalid (coherent_run settings hub acts) hafter
    · exact .inl hescaped
    · exact .inr ⟨hslot, hlapse⟩

/-- The index knows an idle holder, so that sweeps can evict it: the first one that may, once the
holder has been idle for long enough. -/
def WithinReach (settings : SweepSettings) (h : Hub) (key : TreeKey) : Prop :=
  ∃ moment, h.interestIn? key = some moment ∧
    ∀ (condition : EvictionCondition) (now : Nat), condition h.stats = .ok true →
      ticksPerSecond * settings.retentionSeconds + moment ≤ now →
      (∃ report, (h.sweep settings condition now).2 = .ok report ∧ key ∈ report.evicted) ∧
        (h.sweep settings condition now).1.slot? key = none

/-- **Idle holders stay within the sweeper's reach**, whatever happens in whatever order, but for
one thing: a sweep whose condition does not allow evicting drops an entry that lies beyond the
horizon, and until interest in the tree is noted again, its holder is out of reach. -/
theorem idle_withinReach_or_lapsed {settings : SweepSettings} (hvalid : settings.check = .ok ())
    (hub : HubSettings) (acts : List Act) {key : TreeKey} {s : Slot}
    (hs : ((create hub).run settings acts).slot? key = some s) (hzero : s.refs = 0) :
    WithinReach settings ((create hub).run settings acts) key ∨
      LapsedIn settings (create hub) acts key s := by
  have hi := coherent_run settings hub acts
  cases hkey : ((create hub).run settings acts).interestIn? key with
  | none => exact .inr (lapsedIn_of_escaped hvalid hub acts ⟨hs, hzero, hkey⟩)
  | some moment =>
    exact .inl ⟨moment, hkey, fun condition now hc hold => sweep_evicts hi hs hzero hkey hc hold⟩

/-- Idle holders may be evicted at once, and entries last for a second. -/
def hastySweeps : SweepSettings := ⟨true, 1, 0, 1, 0⟩

/-- A client calls for a lease, the holder loads, and the lease is given up. -/
def visited : List Act :=
  [.request 0 0 ⟨"shop", .service⟩, .launch 0 0 0 (.ok ()), .feed 0 [.initialized], .tryEnd 0 0 0,
    .dropLease 0 0]

/-- A sweep that must not evict comes by after a second. -/
def refusedSweep : Act := .sweep (fun _ => .ok false) 1000000001

theorem idle_withinReach_or_lapsed_visited :
    hastySweeps.check = .ok () ∧
      ((create ⟨1, 5, 1⟩).run hastySweeps visited).slot? ⟨"shop", .service⟩ = some ⟨0, 0⟩ ∧
      (WithinReach hastySweeps ((create ⟨1, 5, 1⟩).run hastySweeps visited) ⟨"shop", .service⟩ ∨
        LapsedIn hastySweeps (create ⟨1, 5, 1⟩) visited ⟨"shop", .service⟩ ⟨0, 0⟩) :=
  have hslot : ((create ⟨1, 5, 1⟩).run hastySweeps visited).slot? ⟨"shop", .service⟩ =
      some ⟨0, 0⟩ := by decide +kernel
  ⟨rfl, hslot, idle_withinReach_or_lapsed rfl ⟨1, 5, 1⟩ visited hslot rfl⟩

/-- The sweep that must not evict does leave an idle holder without an entry. -/
theorem not_forall_idle_known :
    ¬ ∀ (settings : SweepSettings) (hub : HubSettings) (acts : List Act) (key : TreeKey) (s : Slot),
      settings.check = .ok () → ((create hub).run settings acts).slot? key = some s → s.refs = 0 →
      ∃ moment, ((create hub).run settings acts).interestIn? key = some moment := by
  intro hall
  have hslot : ((create ⟨1, 5, 1⟩).run hastySweeps (visited ++ [refusedSweep])).slot?
      ⟨"shop", .service⟩ = some ⟨0, 0⟩ := by decide +kernel
  have hunknown : ((create ⟨1, 5, 1⟩).run hastySweeps (visited ++ [refusedSweep])).interestIn?
      ⟨"shop", .service⟩ = none := by decide +kernel
  obtain ⟨moment, hkey⟩ := hall hastySweeps ⟨1, 5, 1⟩ (visited ++ [refusedSweep])
    ⟨"shop", .service⟩ ⟨0, 0⟩ rfl hslot rfl
  rw [hunknown] at hkey
  cases hkey

end Treecast.Hub
