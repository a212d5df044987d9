import Treecast.Proofs.Sweeps

/-!
# References

A registered holder counts its references.  The count is right if it is the number of leases on
that very holder that are not released yet: neither a lease on an older holder of the tree counts,
nor one that was released before.  Every change of a hub keeps it right.

## Results

* `Hub.Orderly`: numbers are new when they are given out, and every call that waits has a lease of
  its own, which is not released.
* `Hub.Counted`: the counts are right.
* `Hub.Move.orderly`, `Hub.Move.counted`: every change keeps both.
-/

set_option autoImplicit false

namespace Treecast

/-- Whether a lease is on a holder and not released. -/
def Lease.isOn (holder : Nat) (l : Lease) : Bool := !l.released && l.holder == holder

theorem Lease.isOn_of_released {holder : Nat} {l : Lease} (hr : l.released = true) :
    l.isOn holder = false := by
  rw [isOn, hr]
  rfl

theorem Lease.isOn_iff {holder : Nat} {l : Lease} (hr : l.released = false) :
    l.isOn holder = true ↔ l.holder = holder := by
  rw [isOn, hr]
  simp

/-- How many of some leases are on a holder and not released. -/
def leasesOn (leases : SortedMap Nat Lease) (holder : Nat) : Nat :=
  leases.values.countP (Lease.isOn holder)

theorem leasesOn_of_find? {leases : SortedMap Nat Lease} {id : Nat} {l : Lease}
    (hl : leases.find? id = some l) (holder : Nat) :
    leasesOn leases holder =
      leasesOn (leases.erase id) holder + if l.isOn holder then 1 else 0 :=
  SortedMap.countP_values_of_find? hl (Lease.isOn holder)

theorem leasesOn_insert (leases : SortedMap Nat Lease) (id : Nat) (l : Lease) (holder : Nat) :
    leasesOn (leases.insert id l) holder =
      leasesOn (leases.erase id) holder + if l.isOn holder then 1 else 0 :=
  SortedMap.countP_values_insert leases id l (Lease.isOn holder)

namespace Hub

variable {h h' h'' : Hub} {key : TreeKey} {s : Slot} {id now : Nat} {l : Lease}

/-- How many leases on a holder are not released. -/
def heldOn (h : Hub) (holder : Nat) : Nat := leasesOn h.leases holder

theorem heldOn_pos (hl : h.leases.find? id = some l) (hr : l.released = false) :
    0 < h.heldOn l.holder := by
  rw [heldOn, leasesOn_of_find? hl, if_pos ((Lease.isOn_iff hr).2 rfl)]
  exact Nat.succ_pos _

theorem heldOn_eq_zero {holder : Nat}
    (hne : ∀ id l, h.leases.find? id = some l → l.holder ≠ holder) : h.heldOn holder = 0 := by
  refine List.countP_eq_zero.2 fun l hmem hon => ?_
  obtain ⟨⟨id, l⟩, he, rfl⟩ := List.mem_map.1 hmem
  rw [Lease.isOn, Bool.and_eq_true, beq_iff_eq] at hon
  exact hne id l (SortedMap.mem_toList_iff.1 he) hon.2

theorem isAwaited_eq_false_iff {lease : Nat} :
    h.isAwaited lease = false ↔ ∀ id c, h.calls.find? id = some c → c.lease ≠ lease := by
  rw [isAwaited, List.any_eq_false]
  constructor
  · intro hnone id c hc heq
    refine hnone c (List.mem_map.2 ⟨(id, c), SortedMap.mem_toList_iff.2 hc, rfl⟩) ?_
    simpa using heq
  · intro hne c hmem
    obtain ⟨⟨id, c⟩, he, rfl⟩ := List.mem_map.1 hmem
    simpa using hne id c (SortedMap.mem_toList_iff.1 he)

/-! ## Releasing a lease -/

theorem releaseLease_of_none (hl : h.leases.find? id = none) : h.releaseLease now id = h := by
  rw [releaseLease, hl]

theorem releaseLease_of_released (hl : h.leases.find? id = some l) (hr : l.released = true) :
    h.releaseLease now id = h := by
  rw [releaseLease, hl]
  exact if_pos hr

/-- A lease that is released is marked, and then the reference goes. -/
theorem releaseLease_of_find? (now : Nat) (hl : h.leases.find? id = some l)
    (hr : l.released = false) :
    h.releaseLease now id =
      (let h' : Hub := { h with leases := h.leases.insert id { l with released := true } }
      match h.slot? l.key with
      | some s => if s.holder = l.holder then h'.dropReference now l.key s else h'
      | none => h') := by
  rw [releaseLease, hl]
  dsimp only
  rw [hr]
  rfl

/-- **A lease that is released**: it is marked, and the holder that it was on, if it is still
registered, has a reference less. -/
theorem releaseLease_of_held (now : Nat) (hl : h.leases.find? id = some l)
    (hr : l.released = false) :
    (h.releaseLease now id).leases = h.leases.insert id { l with released := true } ∧
      ∀ other, (h.releaseLease now id).slot? other =
        (h.slot? other).map fun s =>
          if other = l.key ∧ s.holder = l.holder then { s with refs := s.refs - 1 } else s := by
  rw [releaseLease_of_find? now hl hr]
  cases hs : h.slot? l.key with
  | none =>
    refine ⟨rfl, fun other => ?_⟩
    cases ho : h.slot? other with
    | none => exact ho
    | some s =>
      have hne : other ≠ l.key := fun he => by
        rw [he, hs] at ho
        cases ho
      rw [Option.map_some, if_neg fun hc => hne hc.1]
      exact ho
  | some s =>
    dsimp only
    by_cases hholder : s.holder = l.holder
    · rw [if_pos hholder]
      constructor
      · rw [dropReference_eq]
        split <;> rfl
      · intro other
        rw [slot?_dropReference { h with leases := h.leases.insert id { l with released := true } }
          now hs]
        by_cases he : other = l.key
        · rw [if_pos he, he, hs, Option.map_some, if_pos ⟨rfl, hholder⟩]
        · rw [if_neg he]
          simp only [he, false_and, if_false]
          exact Option.map_id'.symm
    · rw [if_neg hholder]
      refine ⟨rfl, fun other => ?_⟩
      cases ho : h.slot? other with
      | none => exact ho
      | some t =>
        rw [Option.map_some, if_neg]
        · exact ho
        · rintro ⟨rfl, ht⟩
          cases hs.symm.trans ho
          exact hholder ht

theorem releaseLease_rest (h : Hub) (now id : Nat) :
    (h.releaseLease now id).calls = h.calls ∧ (h.releaseLease now id).holders = h.holders ∧
      (h.releaseLease now id).nextCall = h.nextCall ∧
      (h.releaseLease now id).nextLease = h.nextLease ∧
      (h.releaseLease now id).nextHolder = h.nextHolder := by
  unfold releaseLease
  split
  · exact ⟨rfl, rfl, rfl, rfl, rfl⟩
  split
  · exact ⟨rfl, rfl, rfl, rfl, rfl⟩
  dsimp only
  split
  · split
    · rw [dropReference_eq]
      split <;> exact ⟨rfl, rfl, rfl, rfl, rfl⟩
    · exact ⟨rfl, rfl, rfl, rfl, rfl⟩
  · exact ⟨rfl, rfl, rfl, rfl, rfl⟩

theorem holders_dropLease (h : Hub) (now id : Nat) : (h.dropLease now id).holders = h.holders :=
  (h.releaseLease_rest now id).2.1

theorem holders_abandon (h : Hub) (now id : Nat) : (h.abandon now id).holders = h.holders := by
  cases hc : h.calls.find? id with
  | none => rw [abandon_of_none now hc]
  | some c =>
    obtain ⟨gate, next, heq⟩ := h.endCall_eq id c
    rw [abandon_of_some now hc, holders_dropLease, heq]

/-- A lease that was released is released, if it exists. -/
theorem released_releaseLease (h : Hub) (now : Nat) {l : Lease}
    (hl : (h.releaseLease now id).leases.find? id = some l) : l.released = true := by
  cases hm : h.leases.find? id with
  | none =>
    rw [releaseLease_of_none hm, hm] at hl
    cases hl
  | some m =>
    cases hr : m.released with
    | true =>
      rw [releaseLease_of_released hm hr, hm] at hl
      cases hl
      exact hr
    | false =>
      rw [(releaseLease_of_held now hm hr).1, SortedMap.find?_insert, if_pos rfl] at hl
      cases hl
      rfl

/-! ## Numbers and waiting calls -/

/-- Numbers are new when they are given out, and every call that waits has a lease of its own,
which is not released. -/
structure Orderly (h : Hub) : Prop where
  call_lt : ∀ id c, h.calls.find? id = some c → id < h.nextCall
  lease_lt : ∀ id l, h.leases.find? id = some l → id < h.nextLease
  leased_lt : ∀ id l, h.leases.find? id = some l → l.holder < h.nextHolder
  slot_lt : ∀ key s, h.slot? key = some s → s.holder < h.nextHolder
  awaits : ∀ id c, h.calls.find? id = some c →
    ∃ l, h.leases.find? c.lease = some l ∧ l.released = false
  distinct : ∀ id other c d, h.calls.find? id = some c → h.calls.find? other = some d →
    c.lease = d.lease → id = other
  /-- A holder is registered for one tree only. -/
  unique : ∀ key other s t, h.slot? key = some s → h.slot? other = some t → s.holder = t.holder →
    key = other
  /-- The leases on a registered holder are on its tree. -/
  keyed : ∀ key s id l, h.slot? key = some s → h.leases.find? id = some l →
    l.holder = s.holder → l.key = key

theorem orderly_create (settings : HubSettings) : (create settings).Orderly where
  call_lt id c hc := by cases hc
  lease_lt id l hl := by cases hl
  leased_lt id l hl := by cases hl
  slot_lt key s hs := by cases hs
  awaits id c hc := by cases hc
  distinct id other c d hc := by cases hc
  unique key other s t hs := by cases hs
  keyed key s id l hs := by cases hs

/-- Nothing is new in the second hub, and the calls that still wait there have kept their
leases. -/
structure Shrinks (h h' : Hub) : Prop where
  next : h'.nextCall = h.nextCall ∧ h'.nextLease = h.nextLease ∧ h'.nextHolder = h.nextHolder
  calls : ∀ id c, h'.calls.find? id = some c →
    ∃ d, h.calls.find? id = some d ∧ d.lease = c.lease
  leases : ∀ id l, h'.leases.find? id = some l →
    ∃ m, h.leases.find? id = some m ∧ m.holder = l.holder ∧ m.key = l.key
  awaited : ∀ id c, h'.calls.find? id = some c →
    h'.leases.find? c.lease = h.leases.find? c.lease
  slots : ∀ key s, h'.slot? key = some s → ∃ t, h.slot? key = some t ∧ t.holder = s.holder

theorem Shrinks.refl (h : Hub) : Shrinks h h where
  next := ⟨rfl, rfl, rfl⟩
  calls _ c hc := ⟨c, hc, rfl⟩
  leases _ l hl := ⟨l, hl, rfl, rfl⟩
  awaited _ _ _ := rfl
  slots _ s hs := ⟨s, hs, rfl⟩

theorem Shrinks.trans (hab : Shrinks h h') (hbc : Shrinks h' h'') : Shrinks h h'' where
  next := ⟨hbc.next.1.trans hab.next.1, hbc.next.2.1.trans hab.next.2.1,
    hbc.next.2.2.trans hab.next.2.2⟩
  calls id c hc := by
    obtain ⟨d, hd, hdc⟩ := hbc.calls id c hc
    obtain ⟨e, he, hed⟩ := hab.calls id d hd
    exact ⟨e, he, hed.trans hdc⟩
  leases id l hl := by
    obtain ⟨m, hm, hml, hmk⟩ := hbc.leases id l hl
    obtain ⟨n, hn, hnm, hnk⟩ := hab.leases id m hm
    exact ⟨n, hn, hnm.trans hml, hnk.trans hmk⟩
  awaited id c hc := by
    obtain ⟨d, hd, hdc⟩ := hbc.calls id c hc
    rw [hbc.awaited id c hc, ← hdc, hab.awaited id d hd]
  slots key s hs := by
    obtain ⟨t, ht, hts⟩ := hbc.slots key s hs
    obtain ⟨u, hu, hut⟩ := hab.slots key t ht
    exact ⟨u, hu, hut.trans hts⟩

theorem Orderly.shrink (ho : h.Orderly) (hs : Shrinks h h') : h'.Orderly where
  call_lt id c hc := by
    obtain ⟨d, hd, -⟩ := hs.calls id c hc
    rw [hs.next.1]
    exact ho.call_lt id d hd
  lease_lt id l hl := by
    obtain ⟨m, hm, -⟩ := hs.leases id l hl
    rw [hs.next.2.1]
    exact ho.lease_lt id m hm
  leased_lt id l hl := by
    obtain ⟨m, hm, hml, -⟩ := hs.leases id l hl
    rw [hs.next.2.2, ← hml]
    exact ho.leased_lt id m hm
  slot_lt key s hslot := by
    obtain ⟨t, ht, hts⟩ := hs.slots key s hslot
    rw [hs.next.2.2, ← hts]
    exact ho.slot_lt key t ht
  awaits id c hc := by
    obtain ⟨d, hd, hdc⟩ := hs.calls id c hc
    rw [hs.awaited id c hc, ← hdc]
    exact ho.awaits id d hd
  distinct id other c d hc hd heq := by
    obtain ⟨c', hc', hcc⟩ := hs.calls id c hc
    obtain ⟨d', hd', hdd⟩ := hs.calls other d hd
    exact ho.distinct id other c' d' hc' hd' (hcc.trans (heq.trans hdd.symm))
  unique key other s t hslot htlot heq := by
    obtain ⟨s', hs', hss⟩ := hs.slots key s hslot
    obtain ⟨t', ht', htt⟩ := hs.slots other t htlot
    exact ho.unique key other s' t' hs' ht' (hss.trans (heq.trans htt.symm))
  keyed key s id l hslot hl heq := by
    obtain ⟨s', hs', hss⟩ := hs.slots key s hslot
    obtain ⟨m, hm, hml, hmk⟩ := hs.leases id l hl
    rw [← hmk]
    exact ho.keyed key s' id m hs' hm (hml.trans (heq.trans hss.symm))

/-! ### What shrinks -/

/-- The calls, the leases and the registered holders stay as they are. -/
theorem shrinks_of_eq (hnext : h'.nextCall = h.nextCall ∧ h'.nextLease = h.nextLease ∧
      h'.nextHolder = h.nextHolder)
    (hcalls : h'.calls = h.calls) (hleases : h'.leases = h.leases)
    (hregistry : h'.registry = h.registry) : Shrinks h h' where
  next := hnext
  calls _ c hc := ⟨c, hcalls ▸ hc, rfl⟩
  leases _ l hl := ⟨l, hleases ▸ hl, rfl, rfl⟩
  awaited _ _ _ := by rw [hleases]
  slots _ s hs := ⟨s, by rwa [slot?, hregistry] at hs, rfl⟩

theorem Orderly.meters (ho : h.Orderly) (meters : Meters) : Orderly { h with meters } :=
  ho.shrink (shrinks_of_eq ⟨rfl, rfl, rfl⟩ rfl rfl rfl)

theorem shrinks_endCall (h : Hub) (id : Nat) (c : Call) : Shrinks h (h.endCall id c) := by
  obtain ⟨gate, next, heq⟩ := h.endCall_eq id c
  rw [heq]
  refine ⟨⟨rfl, rfl, rfl⟩, fun other d hd => ?_, fun id l hl => ⟨l, hl, rfl, rfl⟩, fun _ _ _ => rfl,
    fun key s hs => ⟨s, hs, rfl⟩⟩
  have hd' : (grant (h.calls.erase id) next).find? other = some d := hd
  rw [find?_grant, SortedMap.find?_erase] at hd'
  obtain ⟨e, he, rfl⟩ := Option.map_eq_some_iff.1 hd'
  split at he
  · cases he
  · refine ⟨e, he, ?_⟩
    split <;> rfl

theorem shrinks_setPhase (h : Hub) (id : Nat) (phase : CallPhase) :
    Shrinks h (h.setPhase id phase) := by
  refine ⟨⟨rfl, rfl, rfl⟩, fun other d hd => ?_, fun id l hl => ⟨l, hl, rfl, rfl⟩, fun _ _ _ => rfl,
    fun key s hs => ⟨s, hs, rfl⟩⟩
  have hd' : (h.calls.modify id fun c => { c with phase }).find? other = some d := hd
  rw [SortedMap.find?_modify] at hd'
  split at hd'
  · rename_i heq
    obtain ⟨e, he, rfl⟩ := Option.map_eq_some_iff.1 hd'
    exact ⟨e, heq ▸ he, rfl⟩
  · exact ⟨d, hd', rfl⟩

theorem shrinks_releaseLease (now : Nat) (hfree : h.isAwaited id = false) :
    Shrinks h (h.releaseLease now id) := by
  obtain ⟨hcalls, -, hnext⟩ := h.releaseLease_rest now id
  cases hl : h.leases.find? id with
  | none =>
    rw [releaseLease_of_none hl]
    exact .refl h
  | some l =>
    cases hr : l.released with
    | true =>
      rw [releaseLease_of_released hl hr]
      exact .refl h
    | false =>
      obtain ⟨hleases, hslots⟩ := releaseLease_of_held now hl hr
      refine ⟨hnext, fun other c hc => ⟨c, hcalls ▸ hc, rfl⟩, fun other m hm => ?_,
        fun other c hc => ?_, fun key s hs => ?_⟩
      · rw [hleases, SortedMap.find?_insert] at hm
        split at hm
        · rename_i heq
          cases hm
          exact ⟨l, heq ▸ hl, rfl, rfl⟩
        · exact ⟨m, hm, rfl, rfl⟩
      · rw [hcalls] at hc
        rw [hleases, SortedMap.find?_insert, if_neg (isAwaited_eq_false_iff.1 hfree other c hc)]
      · rw [hslots] at hs
        obtain ⟨t, ht, rfl⟩ := Option.map_eq_some_iff.1 hs
        refine ⟨t, ht, ?_⟩
        split <;> rfl

theorem isAwaited_releaseLease (h : Hub) (now id lease : Nat) :
    (h.releaseLease now id).isAwaited lease = h.isAwaited lease := by
  rw [isAwaited, (h.releaseLease_rest now id).1]
  rfl

theorem shrinks_dropLease (now : Nat) (hfree : h.isAwaited id = false) :
    Shrinks h (h.dropLease now id) := by
  refine (shrinks_releaseLease now hfree).trans ⟨⟨rfl, rfl, rfl⟩, fun other c hc => ⟨c, hc, rfl⟩,
    fun other m hm => ?_, fun other c hc => ?_, fun key s hs => ⟨s, hs, rfl⟩⟩
  · have hm' : ((h.releaseLease now id).leases.erase id).find? other = some m := hm
    rw [SortedMap.find?_erase] at hm'
    split at hm'
    · cases hm'
    · exact ⟨m, hm', rfl, rfl⟩
  · have hfree' : (h.releaseLease now id).isAwaited id = false :=
      (h.isAwaited_releaseLease now id id).trans hfree
    exact (SortedMap.find?_erase _ _ _).trans
      (if_neg (isAwaited_eq_false_iff.1 hfree' other c hc))

/-- The lease of a call is its own. -/
theorem Orderly.isAwaited_endCall (ho : h.Orderly) {c : Call} (hc : h.calls.find? id = some c) :
    (h.endCall id c).isAwaited c.lease = false := by
  refine isAwaited_eq_false_iff.2 fun other d hd heq => ?_
  obtain ⟨gate, next, hend⟩ := h.endCall_eq id c
  have hd' : (grant (h.calls.erase id) next).find? other = some d := by
    rw [hend] at hd
    exact hd
  obtain ⟨e, he, hed⟩ := (h.shrinks_endCall id c).calls other d hd
  have hother := ho.distinct other id e c he hc (hed.trans heq)
  rw [find?_grant, SortedMap.find?_erase, if_pos hother] at hd'
  cases hd'

theorem Orderly.shrinks_abandon (ho : h.Orderly) (now id : Nat) : Shrinks h (h.abandon now id) := by
  cases hc : h.calls.find? id with
  | none =>
    rw [abandon_of_none now hc]
    exact .refl h
  | some c =>
    rw [abandon_of_some now hc]
    exact (h.shrinks_endCall id c).trans (shrinks_dropLease now (ho.isAwaited_endCall hc))

theorem Orderly.abandon (ho : h.Orderly) (now id : Nat) : (h.abandon now id).Orderly :=
  ho.shrink (ho.shrinks_abandon now id)

theorem closeAll_eq (h : Hub) :
    ∃ interest holders meters, h.closeAll =
      { h with registry := SortedMap.empty, interest, holders, meters } := by
  have hfold : ∀ (slots : List (TreeKey × Slot)) (h : Hub), ∃ interest holders,
      slots.foldl (fun h e => (h.forget e.1).closeHolder e.2.holder) h =
        { h with interest, holders } := by
    intro slots
    induction slots with
    | nil => exact fun h => ⟨h.interest, h.holders, rfl⟩
    | cons e rest ih =>
      intro h
      obtain ⟨interest, holders, heq⟩ := ih ((h.forget e.1).closeHolder e.2.holder)
      exact ⟨interest, holders, heq⟩
  obtain ⟨interest, holders, heq⟩ :=
    hfold h.registry.toList (Hub.gauge { h with registry := SortedMap.empty })
  exact ⟨interest, holders, _, heq⟩

/-! ### Calls -/

/-- A call comes with a lease on the holder of a tree, both with new numbers; `refs` leases were on
that holder before.  Nothing but that tree has to do with the holder. -/
structure Joins (h h' : Hub) (key : TreeKey) (holder refs : Nat) : Prop where
  next : h'.nextCall = h.nextCall + 1 ∧ h'.nextLease = h.nextLease + 1 ∧
    h.nextHolder ≤ h'.nextHolder
  holder_lt : holder < h'.nextHolder
  registry : h'.registry = h.registry.insert key ⟨holder, refs + 1⟩
  calls : ∃ phase began, h'.calls = h.calls.insert h.nextCall ⟨h.nextLease, phase, began⟩
  leases : h'.leases = h.leases.insert h.nextLease ⟨key, holder, false⟩
  others : ∀ other t, h.slot? other = some t → t.holder = holder → other = key
  keyed : ∀ id l, h.leases.find? id = some l → l.holder = holder → l.key = key

section

variable {holder refs : Nat} (hj : Joins h h' key holder refs)
include hj

/-- A call is the new one, or it was there before. -/
theorem Joins.call {c : Call} (hc : h'.calls.find? id = some c) :
    id = h.nextCall ∧ c.lease = h.nextLease ∨ h.calls.find? id = some c := by
  obtain ⟨phase, began, hcalls⟩ := hj.calls
  rw [hcalls, SortedMap.find?_insert] at hc
  split at hc
  · cases hc
    exact .inl ⟨‹_›, rfl⟩
  · exact .inr hc

/-- A lease is the new one, or it was there before. -/
theorem Joins.lease (hl : h'.leases.find? id = some l) :
    id = h.nextLease ∧ l = ⟨key, holder, false⟩ ∨ h.leases.find? id = some l := by
  rw [hj.leases, SortedMap.find?_insert] at hl
  split at hl
  · cases hl
    exact .inl ⟨‹_›, rfl⟩
  · exact .inr hl

/-- A registered holder is that of the tree, or one of another tree. -/
theorem Joins.slot {other : TreeKey} (hs : h'.slot? other = some s) :
    other = key ∧ s = ⟨holder, refs + 1⟩ ∨ other ≠ key ∧ h.slot? other = some s := by
  rw [slot?, hj.registry, SortedMap.find?_insert] at hs
  split at hs
  · cases hs
    exact .inl ⟨‹_›, rfl⟩
  · exact .inr ⟨‹_›, hs⟩

theorem Joins.find?_nextLease :
    h'.leases.find? h.nextLease = some ⟨key, holder, false⟩ := by
  rw [hj.leases, SortedMap.find?_insert, if_pos rfl]

/-- A lease that was there before is still there: its number is older. -/
theorem Joins.lease_kept (ho : h.Orderly) (hl : h.leases.find? id = some l) :
    h'.leases.find? id = some l := by
  rw [hj.leases, SortedMap.find?_insert, if_neg (Nat.ne_of_lt (ho.lease_lt id l hl)), hl]

/-- A call that was there before is still there. -/
theorem Joins.call_kept (ho : h.Orderly) {c : Call} (hc : h.calls.find? id = some c) :
    h'.calls.find? id = some c := by
  obtain ⟨phase, began, hcalls⟩ := hj.calls
  rw [hcalls, SortedMap.find?_insert, if_neg (Nat.ne_of_lt (ho.call_lt id c hc)), hc]

/-- The new call waits for its own lease. -/
theorem Joins.distinct (ho : h.Orderly) {other : Nat} {c d : Call}
    (hc : h'.calls.find? id = some c) (hd : h'.calls.find? other = some d)
    (heq : c.lease = d.lease) : id = other := by
  -- the lease of an older call is older, too
  have hold : ∀ id c, h.calls.find? id = some c → c.lease < h.nextLease := by
    intro id c hc
    obtain ⟨l, hl, -⟩ := ho.awaits id c hc
    exact ho.lease_lt _ l hl
  rcases hj.call hc with ⟨hid, hlease⟩ | hc <;> rcases hj.call hd with ⟨hid', hlease'⟩ | hd
  · exact hid.trans hid'.symm
  · have := hold other d hd
    omega
  · have := hold id c hc
    omega
  · exact ho.distinct id other c d hc hd heq

/-- The holder is registered for that tree only. -/
theorem Joins.unique (ho : h.Orderly) {a b : TreeKey} {t : Slot} (hs : h'.slot? a = some s)
    (ht : h'.slot? b = some t) (heq : s.holder = t.holder) : a = b := by
  rcases hj.slot hs with ⟨ha, rfl⟩ | ⟨-, hs⟩ <;> rcases hj.slot ht with ⟨hb, rfl⟩ | ⟨-, ht⟩
  · exact ha.trans hb.symm
  · exact ha.trans (hj.others b t ht heq.symm).symm
  · exact (hj.others a s hs heq).trans hb.symm
  · exact ho.unique a b s t hs ht heq

/-- The leases on the holder are on that tree. -/
theorem Joins.keyed_slot (ho : h.Orderly) {other : TreeKey} (hs : h'.slot? other = some s)
    (hl : h'.leases.find? id = some l) (heq : l.holder = s.holder) : l.key = other := by
  rcases hj.slot hs with ⟨hkey, rfl⟩ | ⟨-, hs⟩ <;> rcases hj.lease hl with ⟨-, rfl⟩ | hl
  · exact hkey.symm
  · exact (hj.keyed id l hl heq).trans hkey.symm
  · exact (hj.others other s hs heq.symm).symm
  · exact ho.keyed other s id l hs hl heq

theorem Orderly.join (ho : h.Orderly) : h'.Orderly where
  call_lt id c hc := by
    rw [hj.next.1]
    rcases hj.call hc with ⟨rfl, -⟩ | hc
    · exact Nat.lt_succ_self _
    · exact Nat.lt_succ_of_lt (ho.call_lt id c hc)
  lease_lt id l hl := by
    rw [hj.next.2.1]
    rcases hj.lease hl with ⟨rfl, -⟩ | hl
    · exact Nat.lt_succ_self _
    · exact Nat.lt_succ_of_lt (ho.lease_lt id l hl)
  leased_lt id l hl := by
    rcases hj.lease hl with ⟨-, rfl⟩ | hl
    · exact hj.holder_lt
    · exact Nat.lt_of_lt_of_le (ho.leased_lt id l hl) hj.next.2.2
  slot_lt other s hs := by
    rcases hj.slot hs with ⟨-, rfl⟩ | ⟨-, hs⟩
    · exact hj.holder_lt
    · exact Nat.lt_of_lt_of_le (ho.slot_lt other s hs) hj.next.2.2
  awaits id c hc := by
    rcases hj.call hc with ⟨-, hlease⟩ | hc
    · rw [hlease]
      exact ⟨_, hj.find?_nextLease, rfl⟩
    · obtain ⟨l, hl, hr⟩ := ho.awaits id c hc
      exact ⟨l, hj.lease_kept ho hl, hr⟩
  distinct _ _ _ _ hc hd heq := hj.distinct ho hc hd heq
  unique _ _ _ _ hs ht heq := hj.unique ho hs ht heq
  keyed _ _ _ _ hs hl heq := hj.keyed_slot ho hs hl heq

end

/-- **What a call for a lease brings**: a lease on the registered holder of the tree, or on a new
one, which nobody has a lease on yet. -/
theorem Orderly.call_joins (ho : h.Orderly) (now time : Nat) (key : TreeKey) :
    ∃ holder refs, Joins h (h.call now time key).1 key holder refs ∧
      (h.slot? key = some ⟨holder, refs⟩ ∨ refs = 0 ∧ h.heldOn holder = 0) := by
  cases hopen : h.openSlot? key with
  | some s =>
    obtain ⟨meters, heq⟩ := call_of_open now time hopen
    have hs := (openSlot?_eq_some_iff.1 hopen).1
    rw [heq]
    refine ⟨s.holder, s.refs, ?_, .inl hs⟩
    exact ⟨⟨rfl, rfl, Nat.le_refl _⟩, ho.slot_lt key s hs, rfl, ⟨_, _, rfl⟩, rfl,
      fun other t ht heq => ho.unique other key t s ht hs heq,
      fun id l hl heq => ho.keyed key s id l hs hl heq⟩
  | none =>
    obtain ⟨meters, gate, phase, heq, -⟩ := call_of_none now time hopen
    rw [heq]
    -- nothing is known of the new holder yet
    have hslot : ∀ other t, h.slot? other = some t → t.holder ≠ h.nextHolder :=
      fun other t ht => Nat.ne_of_lt (ho.slot_lt other t ht)
    have hlease : ∀ id l, h.leases.find? id = some l → l.holder ≠ h.nextHolder :=
      fun id l hl => Nat.ne_of_lt (ho.leased_lt id l hl)
    refine ⟨h.nextHolder, 0, ?_, .inr ⟨rfl, heldOn_eq_zero hlease⟩⟩
    exact ⟨⟨rfl, rfl, Nat.le_succ _⟩, Nat.lt_succ_self _, rfl, ⟨phase, now, rfl⟩, rfl,
      fun other t ht heq => absurd heq (hslot other t ht),
      fun id l hl heq => absurd heq (hlease id l hl)⟩

theorem Orderly.call (ho : h.Orderly) (now time : Nat) (key : TreeKey) :
    (h.call now time key).1.Orderly := by
  obtain ⟨holder, refs, hj, -⟩ := ho.call_joins now time key
  exact ho.join hj

theorem shrinks_unregister (h : Hub) (key : TreeKey) (s : Slot) :
    Shrinks h (h.unregister key s) := by
  refine ⟨⟨rfl, rfl, rfl⟩, fun _ c hc => ⟨c, hc, rfl⟩, fun _ l hl => ⟨l, hl, rfl, rfl⟩,
    fun _ _ _ => rfl, fun other t ht => ⟨t, ?_, rfl⟩⟩
  rw [slot?_unregister] at ht
  split at ht
  · cases ht
  · exact ht

theorem shrinks_closeAll (h : Hub) : Shrinks h h.closeAll := by
  obtain ⟨interest, holders, meters, heq⟩ := h.closeAll_eq
  rw [heq]
  exact ⟨⟨rfl, rfl, rfl⟩, fun _ c hc => ⟨c, hc, rfl⟩, fun _ l hl => ⟨l, hl, rfl, rfl⟩,
    fun _ _ _ => rfl, fun other t ht => by cases ht⟩

/-- **Every change** keeps the hub orderly. -/
theorem Move.orderly (hm : Move h h') (ho : h.Orderly) : h'.Orderly := by
  cases hm with
  | meters meters => exact ho.meters meters
  | track now key => exact ho.shrink (shrinks_of_eq ⟨rfl, rfl, rfl⟩ rfl rfl rfl)
  | call now time key => exact ho.call now time key
  | start deadline hc hl =>
    rename_i id c l
    have hstart : Shrinks h (h.updateHolder l.holder Holder.start) :=
      shrinks_of_eq ⟨rfl, rfl, rfl⟩ rfl rfl rfl
    exact ho.shrink (hstart.trans (shrinks_setPhase _ id _))
  | succeed hc hp => exact ho.shrink (h.shrinks_endCall _ _)
  | drop now hc hfree => exact ho.abandon now _
  | releaseLease now hfree => exact ho.shrink (shrinks_releaseLease now hfree)
  | dropLease now hfree => exact ho.shrink (shrinks_dropLease now hfree)
  | evict interest hs hzero hcoherent hothers =>
    rename_i key s
    have hindex : Shrinks h { h with interest } := shrinks_of_eq ⟨rfl, rfl, rfl⟩ rfl rfl rfl
    exact ho.shrink (hindex.trans (shrinks_unregister _ key s))
  | change holder hf => exact ho.shrink (shrinks_of_eq ⟨rfl, rfl, rfl⟩ rfl rfl rfl)
  | closeAll => exact ho.shrink h.shrinks_closeAll

theorem Moves.orderly (hm : Moves h h') (ho : h.Orderly) : h'.Orderly := by
  induction hm with
  | refl => exact ho
  | tail _ hlast ih => exact hlast.orderly ih

/-- A reference that is dropped without a lease leaves the numbers and the leases alone. -/
theorem shrinks_release (h : Hub) (now : Nat) (key : TreeKey) : Shrinks h (h.release now key) := by
  unfold release
  split
  · rename_i s hs
    have hrest := dropReference_eq h now key s
    refine ⟨?_, fun _ c hc => ⟨c, ?_, rfl⟩, fun _ l hl => ⟨l, ?_, rfl, rfl⟩, fun _ _ _ => ?_,
      fun other t ht => ?_⟩
    · rw [hrest]
      split <;> exact ⟨rfl, rfl, rfl⟩
    · rw [hrest] at hc
      split at hc <;> exact hc
    · rw [hrest] at hl
      split at hl <;> exact hl
    · rw [hrest]
      split <;> rfl
    · rw [slot?_dropReference h now hs] at ht
      split at ht
      · rename_i heq
        cases ht
        exact ⟨s, heq ▸ hs, rfl⟩
      · exact ⟨t, ht, rfl⟩
  · exact .refl h

theorem orderly_act (settings : SweepSettings) (ho : h.Orderly) (a : Act) :
    (h.act settings a).Orderly := by
  have hturn := act_turn settings h a
  generalize h.act settings a = h' at hturn ⊢
  cases hturn with
  | moves hm => exact Moves.orderly hm ho
  | abandon now id => exact ho.abandon now id
  | timeout meters hc hl hwait hle =>
    exact Moves.orderly (evictFailed_moves _ _ _) ((ho.meters meters).abandon _ _)
  | release now key => exact ho.shrink (h.shrinks_release now key)
  | sweep condition now =>
    obtain ⟨h', interest, hm, heq⟩ := h.sweep_moves settings condition now
    rw [heq]
    exact (Moves.orderly hm ho).shrink (shrinks_of_eq ⟨rfl, rfl, rfl⟩ rfl rfl rfl)

theorem orderly_run (settings : SweepSettings) (hub : HubSettings) (acts : List Act) :
    ((create hub).run settings acts).Orderly :=
  run_induction (P := fun _ h => h.Orderly) (orderly_create hub)
    (fun _ a ho => orderly_act settings ho a) acts

/-! ## Counts -/

/-- Every registered holder counts as many references as there are leases on it that are not
released. -/
def Counted (h : Hub) : Prop := ∀ key s, h.slot? key = some s → s.refs = h.heldOn s.holder

theorem counted_create (settings : HubSettings) : (create settings).Counted := by
  intro key s hs
  cases hs

/-- Some holders fewer are registered, and the leases are the same. -/
theorem Counted.of_slots (hc : h.Counted) (hleases : h'.leases = h.leases)
    (hslots : ∀ key s, h'.slot? key = some s → h.slot? key = some s) : h'.Counted := by
  intro key s hs
  rw [heldOn, hleases]
  exact hc key s (hslots key s hs)

theorem Counted.of_eq (hc : h.Counted) (hleases : h'.leases = h.leases)
    (hregistry : h'.registry = h.registry) : h'.Counted :=
  hc.of_slots hleases fun key s hs => by rwa [slot?, hregistry] at hs

theorem Counted.meters (hc : h.Counted) (meters : Meters) : Counted { h with meters } :=
  hc.of_eq rfl rfl

theorem Counted.unregister (hc : h.Counted) (key : TreeKey) (s : Slot) :
    (h.unregister key s).Counted := by
  refine hc.of_slots rfl fun other t ht => ?_
  rw [slot?_unregister] at ht
  split at ht
  · cases ht
  · exact ht

/-- A lease on the holder of a tree, with a new number. -/
theorem Counted.join (hc : h.Counted) (ho : h.Orderly) {holder refs : Nat}
    (hj : Joins h h' key holder refs) (hrefs : refs = h.heldOn holder) : h'.Counted := by
  have hheld : ∀ other, h'.heldOn other = h.heldOn other + if holder = other then 1 else 0 := by
    intro other
    have hnone : h.leases.find? h.nextLease = none := by
      cases hl : h.leases.find? h.nextLease with
      | none => rfl
      | some l => exact absurd (ho.lease_lt _ l hl) (Nat.lt_irrefl _)
    rw [heldOn, hj.leases, leasesOn_insert, SortedMap.erase_of_find?_eq_none hnone]
    congr 1
    exact if_congr (Lease.isOn_iff rfl) rfl rfl
  intro other s hs
  rw [hheld]
  rcases hj.slot hs with ⟨-, rfl⟩ | ⟨hne, hs⟩
  · rw [if_pos rfl, hrefs]
  · rw [if_neg fun heq => hne (hj.others other s hs heq.symm), Nat.add_zero]
    exact hc other s hs

theorem Counted.call (hc : h.Counted) (ho : h.Orderly) (now time : Nat) (key : TreeKey) :
    (h.call now time key).1.Counted := by
  obtain ⟨holder, refs, hj, hs | ⟨hnew, hzero⟩⟩ := ho.call_joins now time key
  · exact hc.join ho hj (hc key _ hs)
  · exact hc.join ho hj (hnew.trans hzero.symm)

/-- A lease counts no more once it is released, and counts only on the holder that it is on. -/
theorem Counted.releaseLease (hc : h.Counted) (ho : h.Orderly) (now id : Nat) :
    (h.releaseLease now id).Counted := by
  cases hl : h.leases.find? id with
  | none => rwa [releaseLease_of_none hl]
  | some l =>
    cases hr : l.released with
    | true => rwa [releaseLease_of_released hl hr]
    | false =>
      obtain ⟨hleases, hslots⟩ := releaseLease_of_held now hl hr
      have hheld : ∀ holder, (h.releaseLease now id).heldOn holder =
          h.heldOn holder - if l.holder = holder then 1 else 0 := by
        intro holder
        rw [heldOn, heldOn, hleases, leasesOn_insert, leasesOn_of_find? hl,
          if_congr (Lease.isOn_iff hr) rfl rfl, Lease.isOn_of_released rfl]
        simp
      intro key s hs
      rw [hslots] at hs
      obtain ⟨t, ht, rfl⟩ := Option.map_eq_some_iff.1 hs
      rw [hheld]
      by_cases heq : l.holder = t.holder
      · rw [if_pos ⟨(ho.keyed key t id l ht hl heq).symm, heq.symm⟩, if_pos heq, hc key t ht]
      · rw [if_neg fun hon => heq hon.2.symm, if_neg heq]
        exact hc key t ht

/-- A released lease may go. -/
theorem Counted.dropLease (hc : h.Counted) (ho : h.Orderly) (now id : Nat) :
    (h.dropLease now id).Counted := by
  have hheld : ∀ holder, (h.dropLease now id).heldOn holder =
      (h.releaseLease now id).heldOn holder := by
    intro holder
    change leasesOn ((h.releaseLease now id).leases.erase id) holder = _
    cases hl : (h.releaseLease now id).leases.find? id with
    | none => rw [SortedMap.erase_of_find?_eq_none hl, heldOn]
    | some l =>
      rw [heldOn, leasesOn_of_find? hl, Lease.isOn_of_released (h.released_releaseLease now hl)]
      simp
  intro key s hs
  rw [hheld]
  exact hc.releaseLease ho now id key s hs

theorem Counted.endCall (hc : h.Counted) (id : Nat) (c : Call) : (h.endCall id c).Counted := by
  obtain ⟨gate, next, heq⟩ := h.endCall_eq id c
  rw [heq]
  exact hc.of_eq rfl rfl

theorem Counted.abandon (hc : h.Counted) (ho : h.Orderly) (now id : Nat) :
    (h.abandon now id).Counted := by
  cases hcall : h.calls.find? id with
  | none => rwa [abandon_of_none now hcall]
  | some c =>
    rw [abandon_of_some now hcall]
    exact (hc.endCall id c).dropLease (ho.shrink (h.shrinks_endCall id c)) now c.lease

/-- **Every change** keeps the counts right. -/
theorem Move.counted (hm : Move h h') (ho : h.Orderly) (hc : h.Counted) : h'.Counted := by
  cases hm with
  | meters meters => exact hc.meters meters
  | track now key => exact hc.of_eq rfl rfl
  | call now time key => exact hc.call ho now time key
  | start deadline hcall hl => exact hc.of_eq rfl rfl
  | succeed hcall hp => exact hc.endCall _ _
  | drop now hcall hfree => exact hc.abandon ho now _
  | releaseLease now hfree => exact hc.releaseLease ho now _
  | dropLease now hfree => exact hc.dropLease ho now _
  | evict interest hs hzero hcoherent hothers =>
    have hindex : Counted { h with interest } := hc.of_eq rfl rfl
    exact hindex.unregister _ _
  | change holder hf => exact hc.of_eq rfl rfl
  | closeAll =>
    obtain ⟨interest, holders, meters, heq⟩ := h.closeAll_eq
    rw [heq]
    exact hc.of_slots rfl fun key s hs => by cases hs

theorem Moves.counted (hm : Moves h h') (ho : h.Orderly) (hc : h.Counted) :
    h'.Orderly ∧ h'.Counted := by
  induction hm with
  | refl => exact ⟨ho, hc⟩
  | tail _ hlast ih => exact ⟨hlast.orderly ih.1, hlast.counted ih.1 ih.2⟩

end Hub

end Treecast
