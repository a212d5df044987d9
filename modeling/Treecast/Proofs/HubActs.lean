import Mathlib.Data.List.Induction
import Mathlib.Logic.Relation
import Treecast.Hub.Call
import Treecast.Hub.Sweep
import Treecast.Proofs.InterestIndex

/-!
# What happens to a hub

Clients call for leases and release them, calls wait, start their holders, end and are dropped,
holders read their watches and close, and the sweeper comes by: all in any order, and at any
reading of the clocks.  A call that fails gives up its lease and looks whether to evict its holder
in one step (`Act.tryEnd`), or is overtaken by others in between (`Act.abandon`, and later
`Act.evictFailed`).  A lease that a call still waits for is out of its client's reach.

The parts of a hub that an operation leaves alone are said here once for each operation.

## Results

* `Hub.run_induction`, `Hub.since_of_run`: induction over runs, and how to find the act that was the
  cause of something.
* `Hub.call_of_open`, `Hub.call_of_none`, `Hub.endCall_eq`: what a call for a lease and the end of a
  call change.
* `Hub.Move`, `Hub.act_turn`: the changes that acts are made of.
-/

set_option autoImplicit false

namespace Treecast

/-- Whether a call in that phase will start its holder. -/
def CallPhase.willStart : CallPhase → Bool
  | .waiting _ | .admitted => true
  | .loading _ | .following _ => false

namespace Hub

/-! ## Acts -/

/-- What can happen next.  The clock of the interest index reads `now`, and that of the waits
`time`. -/
inductive Act where
  /-- A client calls for a lease. -/
  | request (now time : Nat) (key : TreeKey)
  /-- An admitted call starts its holder; `watched` says how opening a store watch goes. -/
  | launch (now time call : Nat) (watched : Except StoreError Unit)
  /-- A call ends, if it ends now. -/
  | tryEnd (now time call : Nat)
  /-- A call is dropped while it waits. -/
  | abandon (now call : Nat)
  /-- After a call has failed, its holder is evicted if nothing speaks against it. -/
  | evictFailed (key : TreeKey) (holder : Nat)
  | releaseLease (now lease : Nat)
  | dropLease (now lease : Nat)
  /-- A reference is dropped without a lease. -/
  | release (now : Nat) (key : TreeKey)
  | track (now : Nat) (key : TreeKey)
  /-- The sweeper comes by; what its condition says may differ from time to time. -/
  | sweep (condition : EvictionCondition) (now : Nat)
  | evict (key : TreeKey)
  /-- The writer of a holder applies events. -/
  | feed (holder : Nat) (events : List StoreEvent)
  | close (holder : Nat)
  | closeAll

/-- Whether a call still waits for a lease. -/
def isAwaited (h : Hub) (lease : Nat) : Bool := h.calls.values.any (·.lease = lease)

def act (settings : SweepSettings) (h : Hub) : Act → Hub
  | .request now time key => (h.request now time key).1
  | .launch now time call watched =>
    if h.isAdmitted call then
      (h.launch now time call (if (h.watchFor? call).isSome then watched else .ok ())).1
    else h
  | .tryEnd now time call => (h.tryEnd now time call).1
  | .abandon now call => h.abandon now call
  | .evictFailed key holder => h.evictFailed key holder
  | .releaseLease now lease => if h.isAwaited lease then h else h.releaseLease now lease
  | .dropLease now lease => if h.isAwaited lease then h else h.dropLease now lease
  | .release now key => h.release now key
  | .track now key => h.track now key
  | .sweep condition now => (h.sweep settings condition now).1
  | .evict key => (h.tryEvict key).1
  | .feed holder events => h.updateHolder holder (·.handleAll events)
  | .close holder => h.closeHolder holder
  | .closeAll => h.closeAll

/-- Things happen in order. -/
def run (settings : SweepSettings) (h : Hub) (acts : List Act) : Hub :=
  acts.foldl (act settings) h

theorem run_append (settings : SweepSettings) (h : Hub) (acts more : List Act) :
    h.run settings (acts ++ more) = (h.run settings acts).run settings more :=
  List.foldl_append

/-- What is true at the start, and after an act whenever it was true before, is true after every
run. -/
theorem run_induction {settings : SweepSettings} {h : Hub} {P : List Act → Hub → Prop}
    (start : P [] h)
    (step : ∀ acts a, P acts (h.run settings acts) →
      P (acts ++ [a]) ((h.run settings acts).act settings a))
    (acts : List Act) : P acts (h.run settings acts) := by
  induction acts using List.reverseRecOn with
  | nil => exact start
  | append_singleton acts a ih =>
    rw [run_append]
    exact step acts a ih

/-- In the course of a run an act was the cause that something is true, which it has been
since. -/
def Since (settings : SweepSettings) (h : Hub) (acts : List Act) (cause : Hub → Act → Prop)
    (P : Hub → Prop) : Prop :=
  ∃ before a after, acts = before ++ a :: after ∧ cause (h.run settings before) a ∧
    ∀ mid rest, after = mid ++ rest → P (h.run settings (before ++ a :: mid))

/-- What is not true at the start, and true after an act only if it was true before or the act is a
cause, is true after a run only if there was a cause. -/
theorem since_of_run {settings : SweepSettings} {h : Hub} {cause : Hub → Act → Prop}
    {P : Hub → Prop} (start : ¬ P h)
    (step : ∀ acts a, P ((h.run settings acts).act settings a) →
      P (h.run settings acts) ∨ cause (h.run settings acts) a)
    (acts : List Act) : P (h.run settings acts) → Since settings h acts cause P := by
  refine run_induction (P := fun acts h' => P h' → Since settings h acts cause P)
    (fun hp => absurd hp start) (fun acts a ih hp => ?_) acts
  have hlast : P (h.run settings (acts ++ [a])) := by
    rwa [run_append]
  rcases step acts a hp with hbefore | hcause
  · obtain ⟨before, b, after, rfl, hcause, hsince⟩ := ih hbefore
    refine ⟨before, b, after ++ [a], by simp, hcause, fun mid rest hsplit => ?_⟩
    cases rest using List.reverseRecOn with
    | nil =>
      rw [List.append_nil] at hsplit
      rw [← hsplit]
      simpa using hlast
    | append_singleton rest last =>
      rw [← List.append_assoc] at hsplit
      exact hsince mid rest (List.append_inj_left' hsplit rfl)
  · refine ⟨acts, a, [], rfl, hcause, fun mid rest hsplit => ?_⟩
    obtain ⟨rfl, -⟩ := List.append_eq_nil_iff.1 hsplit.symm
    exact hlast

variable {h : Hub} {key other : TreeKey} {s : Slot} {id : Nat}

/-! ## Calls -/

/-- The calls after one of them, if any, was given a permit. -/
def grant (calls : SortedMap Nat Call) : Option Nat → SortedMap Nat Call
  | some next => calls.modify next fun c => { c with phase := .admitted }
  | none => calls

theorem find?_grant (calls : SortedMap Nat Call) (next : Option Nat) (id : Nat) :
    (grant calls next).find? id =
      (calls.find? id).map fun c =>
        if next = some id then { c with phase := .admitted } else c := by
  cases next with
  | none =>
    simp only [grant, reduceCtorEq, if_false]
    exact Option.map_id'.symm
  | some next =>
    rw [grant, SortedMap.find?_modify]
    by_cases he : id = next
    · simp [he]
    · have hne : some next ≠ some id := fun heq => he (Option.some.inj heq).symm
      simp only [if_neg he, if_neg hne]
      exact Option.map_id'.symm

theorem returnPermit_eq (h : Hub) :
    ∃ gate next, h.returnPermit = { h with gate, calls := grant h.calls next } := by
  unfold returnPermit
  split
  · rename_i gate next _
    exact ⟨gate, some next, rfl⟩
  · rename_i gate _
    exact ⟨gate, none, rfl⟩

theorem leaveGate_eq (h : Hub) (id : Nat) (phase : CallPhase) :
    ∃ gate next, h.leaveGate id phase = { h with gate, calls := grant h.calls next } := by
  cases phase with
  | waiting _ => exact ⟨h.gate.giveUp id, none, rfl⟩
  | admitted => exact h.returnPermit_eq
  | loading _ => exact h.returnPermit_eq
  | following _ => exact ⟨h.gate, none, rfl⟩

/-- **A call that ends** changes the gate and the calls: it is gone, and another one may have its
permit. -/
theorem endCall_eq (h : Hub) (id : Nat) (c : Call) :
    ∃ gate next, h.endCall id c = { h with gate, calls := grant (h.calls.erase id) next } :=
  leaveGate_eq { h with calls := h.calls.erase id } id c.phase

/-! ## References -/

/-- A reference less; the last one leaves a note of interest. -/
theorem dropReference_eq (h : Hub) (now : Nat) (key : TreeKey) (s : Slot) :
    h.dropReference now key s =
      if s.refs = 0 then h
      else
        { h with
          registry := h.registry.insert key { s with refs := s.refs - 1 }
          interest := if s.refs = 1 then h.interest.touch key now else h.interest } := by
  unfold dropReference
  split
  · rfl
  · dsimp only
    split <;> rfl

theorem slot?_dropReference (h : Hub) (now : Nat) (hs : h.slot? key = some s) (other : TreeKey) :
    (h.dropReference now key s).slot? other =
      if other = key then some { s with refs := s.refs - 1 } else h.slot? other := by
  rw [dropReference_eq]
  split
  · rename_i hzero
    split
    · rename_i he
      rw [he, hs, hzero, Nat.zero_sub, ← hzero]
    · rfl
  · exact SortedMap.find?_insert _ _ _ _

theorem slot?_unregister (h : Hub) (key : TreeKey) (s : Slot) (other : TreeKey) :
    (h.unregister key s).slot? other = if other = key then none else h.slot? other :=
  SortedMap.find?_erase _ _ _

theorem openSlot?_eq_some_iff :
    h.openSlot? key = some s ↔
      h.slot? key = some s ∧ ∃ x, h.holder? s.holder = some x ∧ x.isClosed = false := by
  unfold openSlot?
  constructor
  · intro ho
    split at ho
    · rename_i slot hslot
      split at ho
      · rename_i x hx
        split at ho
        · cases ho
        · rename_i hclosed
          cases ho
          exact ⟨hslot, x, hx, Bool.eq_false_iff.2 hclosed⟩
      · cases ho
    · cases ho
  · rintro ⟨hslot, x, hx, hopen⟩
    simp [hslot, hx, hopen]

/-! ## Calls for a lease -/

theorem leasedCall?_eq_some_iff {c : Call} {l : Lease} :
    h.leasedCall? id = some (c, l) ↔ h.calls.find? id = some c ∧ h.callLease? c = some l := by
  simp only [leasedCall?, bind, pure, Option.bind_eq_some_iff, Option.some.injEq, Prod.mk.injEq]
  constructor
  · rintro ⟨c', hc, l', hl, rfl, rfl⟩
    exact ⟨hc, hl⟩
  · rintro ⟨hc, hl⟩
    exact ⟨c, hc, l, hl, rfl, rfl⟩

/-- **A call for a lease on the open holder of a tree** takes it at once and waits for the
holder. -/
theorem call_of_open (now time : Nat) (ho : h.openSlot? key = some s) :
    ∃ meters, (h.call now time key).1 =
      { h with
        registry := h.registry.insert key { s with refs := s.refs + 1 }
        leases := h.leases.insert h.nextLease ⟨key, s.holder, false⟩
        nextLease := h.nextLease + 1
        calls := h.calls.insert h.nextCall ⟨h.nextLease, .following (h.deadlineAt time), now⟩
        nextCall := h.nextCall + 1
        interest := h.interest.touch key now
        meters } := by
  have ho' : (h.track now key).openSlot? key = some s := ho
  refine ⟨((h.track now key).takeLease key).1.meters, ?_⟩
  unfold call takeLease
  rw [ho']
  rfl

/-- **A call for a lease on a tree that has no open holder** registers a new one, takes the lease
at once and goes to the gate. -/
theorem call_of_none (now time : Nat) (ho : h.openSlot? key = none) :
    ∃ meters gate phase, (h.call now time key).1 =
      { h with
        registry := h.registry.insert key ⟨h.nextHolder, 1⟩
        holders := h.holders.insert h.nextHolder (.create key h.settings.changeLogCapacity)
        nextHolder := h.nextHolder + 1
        leases := h.leases.insert h.nextLease ⟨key, h.nextHolder, false⟩
        nextLease := h.nextLease + 1
        calls := h.calls.insert h.nextCall ⟨h.nextLease, phase, now⟩
        nextCall := h.nextCall + 1
        interest := h.interest.touch key now
        gate, meters } ∧ phase.willStart = true := by
  have ho' : (h.track now key).openSlot? key = none := ho
  refine ⟨((h.track now key).takeLease key).1.meters, (h.gate.enter h.nextCall).1,
    if (h.gate.enter h.nextCall).2 then .admitted else .waiting (h.deadlineAt time), ?_, ?_⟩
  · unfold call takeLease
    rw [ho']
    rfl
  · split <;> rfl

/-! ## Evictions -/

theorem evictFailed_eq (h : Hub) (key : TreeKey) (holder : Nat) :
    h.evictFailed key holder = h ∨
      ∃ s, h.slot? key = some s ∧ s.holder = holder ∧ s.refs = 0 ∧
        h.evictFailed key holder = (h.unregister key s).forget key := by
  unfold evictFailed
  split
  · rename_i s hs
    by_cases hidle : s.holder = holder ∧ s.refs = 0
    · cases h.holder? holder with
      | none => exact .inr ⟨s, hs, hidle.1, hidle.2, if_pos ⟨hidle.1, hidle.2, rfl⟩⟩
      | some x =>
        dsimp only
        split
        · exact .inr ⟨s, hs, hidle.1, hidle.2, rfl⟩
        · exact .inl rfl
    · exact .inl (if_neg fun hevict => hidle ⟨hevict.1, hevict.2.1⟩)
  · exact .inl rfl

/-- A holder that is idle and has not loaded is evicted. -/
theorem evictFailed_of_idle {x : Holder} (hs : h.slot? key = some s) (hzero : s.refs = 0)
    (hx : h.holder? s.holder = some x) (hready : x.isReady = false) :
    h.evictFailed key s.holder = (h.unregister key s).forget key := by
  unfold evictFailed
  rw [hs, hx]
  dsimp only
  rw [hready]
  exact if_pos ⟨rfl, hzero, rfl⟩

theorem tryEvict_eq (h : Hub) (key : TreeKey) :
    (h.tryEvict key).1 = h ∨
      ∃ s, h.slot? key = some s ∧ s.refs = 0 ∧ (h.tryEvict key).1 = h.unregister key s := by
  unfold tryEvict
  split
  · rename_i s hs
    split
    · rename_i hzero
      exact .inr ⟨s, hs, hzero, rfl⟩
    · exact .inl rfl
  · exact .inl rfl

/-! ## The end of a call -/

/-- A call that is dropped leaves the gate, and its lease is dropped. -/
theorem abandon_of_some (now : Nat) {c : Call} (hc : h.calls.find? id = some c) :
    h.abandon now id = (h.endCall id c).dropLease now c.lease := by
  rw [abandon, hc]

theorem abandon_of_none (now : Nat) (hc : h.calls.find? id = none) : h.abandon now id = h := by
  rw [abandon, hc]

/-- **A call that fails** is dropped, and then its holder may have to go. -/
theorem fail_eq (now : Nat) (failure : Failure) {c : Call} {l : Lease}
    (hc : h.calls.find? id = some c) (hl : h.leases.find? c.lease = some l) :
    ∃ meters, h.fail now id failure =
      (Hub.abandon { h with meters } now id).evictFailed l.key l.holder := by
  have hcount : ∃ meters,
      (if c.phase.isCreator then h.count (.initFailures (lossOf failure)) else h) =
        { h with meters } := by
    split
    · exact ⟨_, rfl⟩
    · exact ⟨h.meters, rfl⟩
  obtain ⟨meters, hmeters⟩ := hcount
  have hl' : Hub.callLease? { h with meters } c = some l := hl
  have hdrop : Hub.abandon { h with meters } now id =
      (Hub.endCall { h with meters } id c).dropLease now c.lease := abandon_of_some now hc
  refine ⟨meters, ?_⟩
  rw [fail, hc]
  dsimp only
  rw [hmeters, hl', hdrop]

/-- A call succeeds only once its holder was started. -/
theorem willStart_of_verdict_ok {time : Nat} {c : Call} (hv : h.verdict time c = some (.ok ())) :
    c.phase.willStart = false := by
  unfold verdict at hv
  split at hv
  · cases hv
  split at hv
  · split at hv <;> cases hv
  · cases hv
  · rename_i hp
    rw [hp]
    rfl
  · rename_i hp
    rw [hp]
    rfl

/-- A call that has not started its holder can only fail by waiting too long at the gate. -/
theorem waiting_of_verdict {time : Nat} {c : Call} {r : Except Failure Unit}
    (hv : h.verdict time c = some r) (hp : c.phase.willStart = true) :
    ∃ deadline, c.phase = .waiting deadline ∧ deadline ≤ time := by
  unfold verdict at hv
  split at hv
  · cases hv
  split at hv
  · rename_i deadline heq
    split at hv
    · rename_i hle
      exact ⟨deadline, heq, hle⟩
    · cases hv
  · cases hv
  · rename_i heq
    rw [heq] at hp
    cases hp
  · rename_i heq
    rw [heq] at hp
    cases hp

theorem lease_of_verdict {time : Nat} {c : Call} {r : Except Failure Unit}
    (hv : h.verdict time c = some r) : ∃ l, h.leases.find? c.lease = some l := by
  unfold verdict at hv
  split at hv
  · cases hv
  · rename_i l hl
    exact ⟨l, hl⟩

/-! ## What acts are made of -/

/-- The changes that acts are made of.  A call may be dropped here only if no new holder waits for
it to be started. -/
inductive Move : Hub → Hub → Prop where
  | meters (h : Hub) (meters : Meters) : Move h { h with meters }
  | track (h : Hub) (now : Nat) (key : TreeKey) : Move h (h.track now key)
  | call (h : Hub) (now time : Nat) (key : TreeKey) : Move h (h.call now time key).1
  /-- A call starts its holder. -/
  | start {h : Hub} {id : Nat} {c : Call} {l : Lease} (deadline : Nat)
      (hc : h.calls.find? id = some c) (hl : h.leases.find? c.lease = some l) :
      Move h ((h.updateHolder l.holder Holder.start).setPhase id (.loading deadline))
  | succeed {h : Hub} {id : Nat} {c : Call} (hc : h.calls.find? id = some c)
      (hp : c.phase.willStart = false) : Move h (h.endCall id c)
  | drop {h : Hub} {id : Nat} {c : Call} (now : Nat) (hc : h.calls.find? id = some c)
      (hfree : c.phase.willStart = true → ∀ l x, h.leases.find? c.lease = some l →
        h.holder? l.holder = some x → x.phase ≠ .new) : Move h (h.abandon now id)
  | releaseLease {h : Hub} {lease : Nat} (now : Nat) (hfree : h.isAwaited lease = false) :
      Move h (h.releaseLease now lease)
  | dropLease {h : Hub} {lease : Nat} (now : Nat) (hfree : h.isAwaited lease = false) :
      Move h (h.dropLease now lease)
  /-- A holder without leases is evicted; the entry of its tree may go with it. -/
  | evict {h : Hub} {key : TreeKey} {s : Slot} (interest : Interest) (hs : h.slot? key = some s)
      (hzero : s.refs = 0) (hcoherent : h.interest.Coherent → interest.Coherent)
      (hothers : ∀ other, other ≠ key → interest.byKey.find? other = h.interest.byKey.find? other) :
      Move h (Hub.unregister { h with interest } key s)
  /-- Something happens to a holder, which does not make it new. -/
  | change (h : Hub) (holder : Nat) {f : Holder → Holder}
      (hf : ∀ x, (f x).phase = .new → x.phase = .new) : Move h (h.updateHolder holder f)
  | closeAll (h : Hub) : Move h h.closeAll

/-- Changes in order. -/
abbrev Moves : Hub → Hub → Prop := Relation.ReflTransGen Move

theorem new_of_start {x : Holder} (hx : x.start.phase = .new) : x.phase = .new := by
  unfold Holder.start at hx
  split at hx
  · cases hx
  · exact hx

theorem close_phase (x : Holder) : x.close.phase = .closed := by
  unfold Holder.close
  split
  · assumption
  · rfl

theorem new_of_close {x : Holder} (hx : x.close.phase = .new) : x.phase = .new := by
  rw [close_phase] at hx
  cases hx

/-- A writer does not come to a new holder. -/
theorem new_of_handleAll {x : Holder} {events : List StoreEvent}
    (hx : (x.handleAll events).phase = .new) : x.phase = .new := by
  have hhandle : ∀ (y : Holder) (e : StoreEvent), (y.handle e).phase = .new → y.phase = .new := by
    intro y e hy
    unfold Holder.handle at hy
    split at hy
    · split at hy
      · cases hy
      · exact hy
    · rename_i state
      cases state <;> simp only [Holder.phaseOn] at hy <;> split at hy <;> simp_all
    · split at hy <;> exact hy
  have hfold : ∀ (events : List StoreEvent) (y : Holder),
      (events.foldl Holder.handle y).phase = .new → y.phase = .new := by
    intro events
    induction events with
    | nil => exact fun y => id
    | cons e rest ih => exact fun y hy => hhandle y e (ih _ hy)
  unfold Holder.handleAll at hx
  split at hx
  · exact hx
  · exact hfold events x hx

theorem evictFailed_moves (h : Hub) (key : TreeKey) (holder : Nat) :
    Moves h (h.evictFailed key holder) := by
  obtain heq | ⟨s, hs, -, hzero, heq⟩ := h.evictFailed_eq key holder
  · rw [heq]
  · rw [heq]
    refine .single (Move.evict (h.interest.remove key) hs hzero
      (fun hi => hi.remove key) fun other hne => ?_)
    rw [Interest.find?_remove, if_neg hne]

theorem tryEvict_moves (h : Hub) (key : TreeKey) : Moves h (h.tryEvict key).1 := by
  obtain heq | ⟨s, hs, hzero, heq⟩ := h.tryEvict_eq key
  · rw [heq]
  · rw [heq]
    exact .single (Move.evict h.interest hs hzero id fun _ _ => rfl)

/-- A call fails without leaving a new holder behind. -/
theorem fail_moves (now : Nat) (failure : Failure) {c : Call} {l : Lease}
    (hc : h.calls.find? id = some c) (hl : h.leases.find? c.lease = some l)
    (hfree : c.phase.willStart = true → ∀ x, h.holder? l.holder = some x → x.phase ≠ .new) :
    Moves h (h.fail now id failure) := by
  obtain ⟨meters, heq⟩ := fail_eq now failure hc hl
  rw [heq]
  refine (Relation.ReflTransGen.single (Move.meters h meters)).trans
    ((Relation.ReflTransGen.single (Move.drop (h := { h with meters }) now hc ?_)).trans
      (evictFailed_moves _ l.key l.holder))
  intro hp l' x hl' hx
  cases hl.symm.trans hl'
  exact hfree hp x hx

theorem launch_moves (h : Hub) (now time id : Nat) (watched : Except StoreError Unit) :
    Moves h (h.launch now time id watched).1 := by
  unfold launch
  split
  · rfl
  rename_i c l hcl
  obtain ⟨hc, hl⟩ := leasedCall?_eq_some_iff.1 hcl
  cases watched with
  | ok _ => exact .single (Move.start (time + h.timeLeft now c.began) hc hl)
  | error e =>
    have hstart : Move h (h.updateHolder l.holder Holder.start) :=
        .change h l.holder fun _ => new_of_start
    have hclose : Move (h.updateHolder l.holder Holder.start)
        ((h.updateHolder l.holder Holder.start).closeHolder l.holder) :=
      .change _ l.holder fun _ => new_of_close
    refine ((Relation.ReflTransGen.single hstart).tail hclose).trans
      (fail_moves now (.store e) hc hl fun _ x hx => ?_)
    -- the holder was closed before the call fails
    have hx' : ((h.updateHolder l.holder Holder.start).holders.modify l.holder Holder.close).find?
        l.holder = some x := hx
    rw [SortedMap.find?_modify, if_pos rfl] at hx'
    obtain ⟨y, -, rfl⟩ := Option.map_eq_some_iff.1 hx'
    rw [close_phase]
    exact HolderPhase.noConfusion

/-- **How a call ends**: without leaving a new holder behind, or it has waited too long at the gate,
is dropped, and its holder is evicted if nothing speaks against it. -/
theorem tryEnd_moves (h : Hub) (now time id : Nat) :
    Moves h (h.tryEnd now time id).1 ∨
      ∃ c l deadline meters, h.calls.find? id = some c ∧ h.leases.find? c.lease = some l ∧
        c.phase = .waiting deadline ∧ deadline ≤ time ∧
        (h.tryEnd now time id).1 =
          (Hub.abandon { h with meters } now id).evictFailed l.key l.holder := by
  unfold tryEnd
  split
  · exact .inl .refl
  rename_i c hc
  split
  · exact .inl .refl
  · rename_i hv
    refine .inl ?_
    unfold succeed
    rw [hc]
    dsimp only
    have hp := willStart_of_verdict_ok hv
    split
    · exact (Relation.ReflTransGen.single (Move.meters h _)).tail
        (Move.succeed (h := h.count .initSamples) hc hp)
    · exact .single (Move.succeed hc hp)
  · rename_i failure hv
    obtain ⟨l, hl⟩ := lease_of_verdict hv
    cases hp : c.phase.willStart with
    | false =>
      exact .inl (fail_moves now failure hc hl fun hp' =>
        absurd (hp.symm.trans hp') Bool.noConfusion)
    | true =>
      obtain ⟨deadline, hwait, hle⟩ := waiting_of_verdict hv hp
      obtain ⟨meters, heq⟩ := fail_eq now failure hc hl
      exact .inr ⟨c, l, deadline, meters, hc, hl, hwait, hle, heq⟩

theorem request_moves (h : Hub) (now time : Nat) (key : TreeKey) :
    Moves h (h.request now time key).1 := by
  unfold request
  split
  · exact .single (Move.call h now time key)
  · exact .refl

/-- What an act amounts to. -/
inductive Turn (settings : SweepSettings) (h : Hub) : Act → Hub → Prop where
  | moves {a : Act} {h' : Hub} (hm : Moves h h') : Turn settings h a h'
  | abandon (now id : Nat) : Turn settings h (.abandon now id) (h.abandon now id)
  /-- A call has waited too long at the gate. -/
  | timeout {now time id : Nat} {c : Call} {l : Lease} {deadline : Nat} (meters : Meters)
      (hc : h.calls.find? id = some c) (hl : h.leases.find? c.lease = some l)
      (hwait : c.phase = .waiting deadline) (hle : deadline ≤ time) :
      Turn settings h (.tryEnd now time id)
        ((Hub.abandon { h with meters } now id).evictFailed l.key l.holder)
  | release (now : Nat) (key : TreeKey) : Turn settings h (.release now key) (h.release now key)
  | sweep (condition : EvictionCondition) (now : Nat) :
      Turn settings h (.sweep condition now) (h.sweep settings condition now).1

theorem act_turn (settings : SweepSettings) (h : Hub) (a : Act) :
    Turn settings h a (h.act settings a) := by
  cases a with
  | request now time key => exact .moves (h.request_moves now time key)
  | launch now time call watched =>
    dsimp only [act]
    split
    · exact .moves (h.launch_moves now time call _)
    · exact .moves .refl
  | tryEnd now time call =>
    obtain hm | ⟨c, l, deadline, meters, hc, hl, hwait, hle, heq⟩ := h.tryEnd_moves now time call
    · exact .moves hm
    · rw [act, heq]
      exact .timeout meters hc hl hwait hle
  | abandon now call => exact .abandon now call
  | evictFailed key holder => exact .moves (h.evictFailed_moves key holder)
  | releaseLease now lease =>
    dsimp only [act]
    split
    · exact .moves .refl
    · rename_i hfree
      exact .moves (.single (.releaseLease now (Bool.eq_false_iff.2 hfree)))
  | dropLease now lease =>
    dsimp only [act]
    split
    · exact .moves .refl
    · rename_i hfree
      exact .moves (.single (.dropLease now (Bool.eq_false_iff.2 hfree)))
  | release now key => exact .release now key
  | track now key => exact .moves (.single (.track h now key))
  | sweep condition now => exact .sweep condition now
  | evict key => exact .moves (h.tryEvict_moves key)
  | feed holder events => exact .moves (.single (.change h holder fun _ => new_of_handleAll))
  | close holder => exact .moves (.single (.change h holder fun _ => new_of_close))
  | closeAll => exact .moves (.single (.closeAll h))

end Hub

end Treecast
