import Treecast.Proofs.ChangeLog
import Treecast.Proofs.Evictions

/-!
# Open holders

Of all the holders that a hub ever created for a tree, at most one is open.  A new one is only
created when the registered one is closed, and whatever takes a holder from the registry closes it.
Outside the registry nothing is opened again, so callers that still keep an old holder keep a
closed one.

## Results

* `Hub.Shift`, `Hub.act_shifts`: what acts do to the registry and to the holders.
* `Hub.Shift.exclusive`, `Hub.Shift.outlives`: what one such change keeps.
* `Hub.openHolder_registered`: over whole runs, the open holder of a tree is the registered one, and
  every holder that was taken from the registry is closed.
-/

set_option autoImplicit false

namespace Treecast

namespace Holder

/-- What happens to a holder leaves it with its tree, and closed if it was. -/
def Wears (f : Holder → Holder) : Prop :=
  ∀ x, (f x).key = x.key ∧ (x.isClosed = true → (f x).isClosed = true)

theorem isClosed_close (x : Holder) : x.close.isClosed = true := by
  rw [isClosed, Hub.close_phase]
  rfl

theorem key_close (x : Holder) : x.close.key = x.key := by
  unfold close
  split <;> rfl

theorem close_of_isClosed {x : Holder} (hx : x.isClosed = true) : x.close = x :=
  if_pos (of_decide_eq_true hx)

theorem id_wears : Wears id := fun _ => ⟨rfl, id⟩

theorem close_wears : Wears close := fun x => ⟨x.key_close, fun _ => x.isClosed_close⟩

theorem start_wears : Wears start := by
  intro x
  unfold start
  split
  · rename_i hnew
    refine ⟨rfl, fun hclosed => ?_⟩
    have hphase : x.phase = .closed := of_decide_eq_true hclosed
    rw [hnew] at hphase
    cases hphase
  · exact ⟨rfl, id⟩

theorem key_foldl_handle (events : List StoreEvent) (x : Holder) :
    (events.foldl handle x).key = x.key := by
  induction events generalizing x with
  | nil => rfl
  | cons event rest ih => exact (ih (x.handle event)).trans (x.handle_keeps event).1

/-- A closed holder handles nothing. -/
theorem handleAll_wears (events : List StoreEvent) : Wears fun x => x.handleAll events := by
  intro x
  dsimp only
  unfold handleAll
  split
  · exact ⟨rfl, id⟩
  · rename_i hopen
    exact ⟨key_foldl_handle events x,
      fun hclosed => absurd (.inl (of_decide_eq_true hclosed)) hopen⟩

end Holder

namespace Hub

variable {h h' : Hub} {key : TreeKey} {s : Slot} {id : Nat}

/-- The number of the holder that is registered for a tree. -/
def holderOf? (h : Hub) (key : TreeKey) : Option Nat := (h.slot? key).map Slot.holder

/-! ## What acts do to the registry and the holders -/

/-- The changes of the registry and of the holders that acts are made of. -/
inductive Shift : Hub → Hub → Prop where
  /-- A new holder is registered for a tree that has no open one. -/
  | enter {h h' : Hub} {key : TreeKey} (capacity : Nat) (hnone : h.openSlot? key = none)
      (hslots : ∀ other, h'.holderOf? other =
        if other = key then some h.nextHolder else h.holderOf? other)
      (hholders : h'.holders = h.holders.insert h.nextHolder (.create key capacity))
      (hnext : h'.nextHolder = h.nextHolder + 1) : Shift h h'
  /-- Things happen to holders, which do not open them again; those that are taken from the
  registry are closed. -/
  | wear {h h' : Hub} (hslots : ∀ key, h'.holderOf? key = h.holderOf? key ∨
        h'.holderOf? key = none ∧
          ∀ id x, h.holderOf? key = some id → h'.holder? id = some x → x.isClosed = true)
      (hholders : ∀ id, ∃ f, Holder.Wears f ∧ h'.holder? id = (h.holder? id).map f)
      (hnext : h'.nextHolder = h.nextHolder) : Shift h h'

/-- Such changes in order. -/
abbrev Shifts : Hub → Hub → Prop := Relation.ReflTransGen Shift

/-- The same holders are registered, and nothing happens to any of them. -/
theorem Shift.aside (hslots : ∀ key, h'.holderOf? key = h.holderOf? key)
    (hholders : h'.holders = h.holders) (hnext : h'.nextHolder = h.nextHolder) : Shift h h' := by
  refine .wear (fun key => .inl (hslots key)) (fun id => ⟨_, Holder.id_wears, ?_⟩) hnext
  rw [holder?, holder?, hholders, Option.map_id_apply]

/-- The registry and the holders are the same. -/
theorem shifts_of_eq (hregistry : h'.registry = h.registry) (hholders : h'.holders = h.holders)
    (hnext : h'.nextHolder = h.nextHolder) : Shifts h h' :=
  .single (.aside (fun key => by rw [holderOf?, holderOf?, slot?, slot?, hregistry]) hholders hnext)

theorem holderOf?_unregister (h : Hub) (key : TreeKey) (s : Slot) (other : TreeKey) :
    (h.unregister key s).holderOf? other = if other = key then none else h.holderOf? other := by
  rw [holderOf?, slot?_unregister]
  split <;> rfl

/-- A change of a holder, at most. -/
theorem holder?_updateHolder (h : Hub) (id : Nat) (f : Holder → Holder) (other : Nat) :
    (h.updateHolder id f).holder? other =
      if other = id then (h.holder? id).map f else h.holder? other :=
  SortedMap.find?_modify _ _ _ _

/-- Something happens to one holder, which does not open it again. -/
theorem Shift.updateHolder (h : Hub) (id : Nat) {f : Holder → Holder} (hf : Holder.Wears f) :
    Shift h (h.updateHolder id f) := by
  refine .wear (fun _ => .inl rfl) (fun other => ?_) rfl
  rw [h.holder?_updateHolder]
  split
  · rename_i heq
    exact ⟨f, hf, by rw [heq]⟩
  · exact ⟨_, Holder.id_wears, Option.map_id_apply.symm⟩

/-- Some holders are taken from the registry, and closed. -/
theorem Shift.retire (hslots : ∀ key, h'.holderOf? key = h.holderOf? key ∨
      h'.holderOf? key = none ∧
        ∀ id x, h.holderOf? key = some id → h'.holder? id = some x → x.isClosed = true)
    (hholders : ∀ id, h'.holder? id = h.holder? id ∨
      h'.holder? id = (h.holder? id).map Holder.close)
    (hnext : h'.nextHolder = h.nextHolder) : Shift h h' := by
  refine .wear hslots (fun id => ?_) hnext
  rcases hholders id with heq | heq
  · exact ⟨_, Holder.id_wears, heq.trans Option.map_id_apply.symm⟩
  · exact ⟨_, Holder.close_wears, heq⟩

theorem holder?_closeHolder (h : Hub) (id other : Nat) :
    (h.closeHolder id).holder? other =
      if other = id then (h.holder? id).map Holder.close else h.holder? other :=
  h.holder?_updateHolder id Holder.close other

theorem holder?_unregister (h : Hub) (key : TreeKey) (s : Slot) (id : Nat) :
    (h.unregister key s).holder? id =
      if id = s.holder then (h.holder? s.holder).map Holder.close else h.holder? id :=
  SortedMap.find?_modify _ _ _ _

theorem unregister_shifts (hs : h.slot? key = some s) : Shifts h (h.unregister key s) := by
  have hholder := h.holder?_unregister key s
  refine .single (.retire (fun other => ?_) (fun id => ?_) rfl)
  · rw [holderOf?_unregister]
    split
    · rename_i heq
      refine .inr ⟨rfl, fun id x hid hx => ?_⟩
      rw [heq, holderOf?, hs, Option.map_some, Option.some.injEq] at hid
      rw [hholder, if_pos hid.symm] at hx
      obtain ⟨y, -, rfl⟩ := Option.map_eq_some_iff.1 hx
      exact y.isClosed_close
    · exact .inl rfl
  · rw [hholder]
    split
    · rename_i heq
      exact .inr (by rw [heq])
    · exact .inl rfl

theorem Culls.shifts (hculls : Culls h h') : Shifts h h' := by
  induction hculls with
  | refl => exact .refl
  | tail _ hlast ih =>
    refine ih.trans ?_
    cases hlast with
    | aside interest meters => exact shifts_of_eq rfl rfl rfl
    | evict hs hzero => exact unregister_shifts hs

/-- Closing one holder after another closes them all. -/
theorem holder?_closeEach (slots : List (TreeKey × Slot)) :
    ∀ (h : Hub) (id : Nat),
      (slots.foldl (fun h e => (h.forget e.1).closeHolder e.2.holder) h).holder? id =
        if id ∈ slots.map (fun e => e.2.holder) then (h.holder? id).map Holder.close
        else h.holder? id := by
  induction slots with
  | nil => exact fun _ _ => rfl
  | cons e rest ih =>
    intro h id
    have hfirst : ((h.forget e.1).closeHolder e.2.holder).holder? id =
        if id = e.2.holder then (h.holder? e.2.holder).map Holder.close else h.holder? id :=
      (h.forget e.1).holder?_closeHolder e.2.holder id
    have hclose : ∀ x : Holder, x.close.close = x.close := fun x =>
      Holder.close_of_isClosed x.isClosed_close
    rw [List.foldl_cons, ih, hfirst, List.map_cons]
    by_cases hid : id = e.2.holder
    · subst hid
      rw [if_pos rfl, if_pos List.mem_cons_self, Option.map_map]
      split
      · exact congrArg (Option.map · _) (funext hclose)
      · rfl
    · rw [if_neg hid]
      simp only [List.mem_cons, hid, false_or]

theorem closeAll_shifts (h : Hub) : Shifts h h.closeAll := by
  obtain ⟨interest, holders, meters, heq⟩ := h.closeAll_eq
  have hslots : ∀ key, h.closeAll.holderOf? key = none := fun key => by
    rw [heq]
    rfl
  have hholder : ∀ id, h.closeAll.holder? id =
      if id ∈ h.registry.toList.map (fun e => e.2.holder) then (h.holder? id).map Holder.close
      else h.holder? id := fun id =>
    holder?_closeEach h.registry.toList (Hub.gauge { h with registry := SortedMap.empty }) id
  refine .single (.retire (fun key => .inr ⟨hslots key, fun id x hid hx => ?_⟩) (fun id => ?_) ?_)
  · obtain ⟨s, hs, rfl⟩ := Option.map_eq_some_iff.1 hid
    rw [hholder, if_pos (List.mem_map.2 ⟨(key, s), SortedMap.mem_toList_iff.2 hs, rfl⟩)] at hx
    obtain ⟨y, -, rfl⟩ := Option.map_eq_some_iff.1 hx
    exact y.isClosed_close
  · rw [hholder]
    split
    · exact .inr rfl
    · exact .inl rfl
  · rw [heq]

theorem call_shifts (h : Hub) (now time : Nat) (key : TreeKey) :
    Shifts h (h.call now time key).1 := by
  cases hopen : h.openSlot? key with
  | some s =>
    obtain ⟨meters, heq⟩ := call_of_open now time hopen
    have hs := (openSlot?_eq_some_iff.1 hopen).1
    rw [heq]
    refine .single (.aside (fun other => ?_) rfl rfl)
    rw [holderOf?, slot?, SortedMap.find?_insert]
    split
    · rename_i hother
      rw [hother, holderOf?, hs]
      rfl
    · rfl
  | none =>
    obtain ⟨meters, gate, phase, heq, -⟩ := call_of_none now time hopen
    rw [heq]
    refine .single (.enter h.settings.changeLogCapacity hopen (fun other => ?_) rfl rfl)
    rw [holderOf?, slot?, SortedMap.find?_insert]
    split <;> rfl

theorem endCall_shifts (h : Hub) (id : Nat) (c : Call) : Shifts h (h.endCall id c) := by
  obtain ⟨gate, next, heq⟩ := h.endCall_eq id c
  rw [heq]
  exact shifts_of_eq rfl rfl rfl

theorem dropReference_shifts (now : Nat) (hs : h.slot? key = some s) :
    Shifts h (h.dropReference now key s) := by
  have hslots : ∀ other, (h.dropReference now key s).holderOf? other = h.holderOf? other := by
    intro other
    rw [holderOf?, slot?_dropReference h now hs]
    split
    · rename_i hother
      rw [hother, holderOf?, hs]
      rfl
    · rfl
  refine .single (.aside hslots ?_ ?_)
  · rw [dropReference_eq]
    split <;> rfl
  · rw [dropReference_eq]
    split <;> rfl

theorem releaseLease_shifts (h : Hub) (now id : Nat) : Shifts h (h.releaseLease now id) := by
  unfold releaseLease
  split
  · exact .refl
  rename_i l _
  split
  · exact .refl
  have hmark : Shifts h { h with leases := h.leases.insert id { l with released := true } } :=
    shifts_of_eq rfl rfl rfl
  dsimp only
  split
  · rename_i s hs
    split
    · exact hmark.trans (dropReference_shifts now hs)
    · exact hmark
  · exact hmark

theorem dropLease_shifts (h : Hub) (now id : Nat) : Shifts h (h.dropLease now id) :=
  (h.releaseLease_shifts now id).trans (shifts_of_eq rfl rfl rfl)

theorem release_shifts (h : Hub) (now : Nat) (key : TreeKey) : Shifts h (h.release now key) := by
  unfold release
  split
  · rename_i s hs
    exact dropReference_shifts now hs
  · exact .refl

theorem abandon_shifts (h : Hub) (now id : Nat) : Shifts h (h.abandon now id) := by
  unfold abandon
  split
  · rename_i c _
    exact (h.endCall_shifts id c).trans (dropLease_shifts _ now c.lease)
  · exact .refl

theorem fail_shifts (h : Hub) (now id : Nat) (failure : Failure) :
    Shifts h (h.fail now id failure) := by
  unfold fail
  split
  · exact .refl
  rename_i c _
  have hcount : Shifts h
      (if c.phase.isCreator then h.count (.initFailures (lossOf failure)) else h) := by
    split
    · exact shifts_of_eq rfl rfl rfl
    · exact .refl
  have hdrop := hcount.trans ((endCall_shifts _ id c).trans (dropLease_shifts _ now c.lease))
  dsimp only
  split
  · rename_i l _
    exact hdrop.trans (evictFailed_culls _ l.key l.holder).shifts
  · exact hdrop

theorem succeed_shifts (h : Hub) (id : Nat) : Shifts h (h.succeed id) := by
  unfold succeed
  split
  · exact .refl
  rename_i c _
  split
  · have hcount : Shifts h (h.count .initSamples) := shifts_of_eq rfl rfl rfl
    exact hcount.trans (endCall_shifts _ id c)
  · exact h.endCall_shifts id c

theorem tryEnd_shifts (h : Hub) (now time id : Nat) : Shifts h (h.tryEnd now time id).1 := by
  unfold tryEnd
  split
  · exact .refl
  split
  · exact .refl
  · exact h.succeed_shifts id
  · exact h.fail_shifts now id _

theorem launch_shifts (h : Hub) (now time id : Nat) (watched : Except StoreError Unit) :
    Shifts h (h.launch now time id watched).1 := by
  unfold launch
  split
  · exact .refl
  rename_i c l _
  have hstart : Shifts h (h.updateHolder l.holder Holder.start) :=
    .single (.updateHolder h l.holder Holder.start_wears)
  cases watched with
  | ok _ => exact hstart.trans (shifts_of_eq rfl rfl rfl)
  | error e =>
    exact (hstart.tail (.updateHolder _ l.holder Holder.close_wears)).trans
      (fail_shifts _ now id (.store e))

/-- **What every act does** to the registry and to the holders. -/
theorem act_shifts (settings : SweepSettings) (h : Hub) (a : Act) :
    Shifts h (h.act settings a) := by
  cases a with
  | request now time key =>
    simp only [act, request]
    split
    · exact h.call_shifts now time key
    · exact .refl
  | launch now time call watched =>
    dsimp only [act]
    split
    · exact h.launch_shifts now time call _
    · exact .refl
  | tryEnd now time call => exact h.tryEnd_shifts now time call
  | abandon now call => exact h.abandon_shifts now call
  | evictFailed key holder => exact (h.evictFailed_culls key holder).shifts
  | releaseLease now lease =>
    dsimp only [act]
    split
    · exact .refl
    · exact h.releaseLease_shifts now lease
  | dropLease now lease =>
    dsimp only [act]
    split
    · exact .refl
    · exact h.dropLease_shifts now lease
  | release now key => exact h.release_shifts now key
  | track now key => exact shifts_of_eq rfl rfl rfl
  | sweep condition now => exact (h.sweep_culls settings condition now).shifts
  | evict key => exact (h.tryEvict_culls key).shifts
  | feed holder events => exact .single (.updateHolder h holder (Holder.handleAll_wears events))
  | close holder => exact .single (.updateHolder h holder Holder.close_wears)
  | closeAll => exact h.closeAll_shifts

/-! ## What such changes keep -/

/-- Every holder that was ever created is there, and the open ones are registered, each for its
tree. -/
structure Exclusive (h : Hub) : Prop where
  created : ∀ id, (h.holder? id).isSome ↔ id < h.nextHolder
  /-- What is registered for a tree is a holder of that tree. -/
  registered : ∀ key id, h.holderOf? key = some id → ∃ x, h.holder? id = some x ∧ x.key = key
  opened : ∀ id x, h.holder? id = some x → x.isClosed = false → h.holderOf? x.key = some id

/-- Every holder of the first hub is there in the second, with its tree, and closed if it was. -/
def Outlives (h h' : Hub) : Prop :=
  ∀ id x, h.holder? id = some x →
    ∃ y, h'.holder? id = some y ∧ y.key = x.key ∧ (x.isClosed = true → y.isClosed = true)

theorem exclusive_create (settings : HubSettings) : (create settings).Exclusive where
  created id := by simp [create, holder?]
  registered key id hid := by cases hid
  opened id x hx := by cases hx

theorem Outlives.refl (h : Hub) : Outlives h h := fun _ x hx => ⟨x, hx, rfl, id⟩

theorem Outlives.trans {h'' : Hub} (hab : Outlives h h') (hbc : Outlives h' h'') :
    Outlives h h'' := by
  intro id x hx
  obtain ⟨y, hy, hkey, hclosed⟩ := hab id x hx
  obtain ⟨z, hz, hkey', hclosed'⟩ := hbc id y hy
  exact ⟨z, hz, hkey'.trans hkey, hclosed' ∘ hclosed⟩

/-- A holder that is there is none that is still to come. -/
theorem Exclusive.ne_next (he : h.Exclusive) {x : Holder} (hx : h.holder? id = some x) :
    id ≠ h.nextHolder :=
  Nat.ne_of_lt ((he.created id).1 (Option.isSome_iff_exists.2 ⟨x, hx⟩))

/-- What registers a new holder finds no open one registered. -/
theorem isClosed_of_openSlot?_eq_none (hnone : h.openSlot? key = none)
    (hid : h.holderOf? key = some id) {x : Holder} (hx : h.holder? id = some x) :
    x.isClosed = true := by
  obtain ⟨s, hs, rfl⟩ := Option.map_eq_some_iff.1 hid
  cases hclosed : x.isClosed with
  | true => rfl
  | false =>
    have hopen := openSlot?_eq_some_iff.2 ⟨hs, x, hx, hclosed⟩
    rw [hnone] at hopen
    cases hopen

/-- A new holder, where no open one is registered, leaves the hub exclusive. -/
theorem Exclusive.enter (he : h.Exclusive) {capacity : Nat} (hnone : h.openSlot? key = none)
    (hslots : ∀ other, h'.holderOf? other =
      if other = key then some h.nextHolder else h.holderOf? other)
    (hholders : h'.holders = h.holders.insert h.nextHolder (.create key capacity))
    (hnext : h'.nextHolder = h.nextHolder + 1) : h'.Exclusive := by
  have hholder : ∀ id, h'.holder? id =
      if id = h.nextHolder then some (.create key capacity) else h.holder? id := fun id => by
    rw [holder?, hholders, SortedMap.find?_insert]
    rfl
  refine ⟨fun id => ?_, fun other id hid => ?_, fun id x hx hopen => ?_⟩
  · rw [hholder, hnext, Nat.lt_succ_iff_lt_or_eq, ← he.created id]
    split
    · rename_i hnew
      simp [hnew]
    · rename_i hne
      simp [hne]
  · rw [hslots] at hid
    split at hid
    · rename_i hother
      cases hid
      exact ⟨_, (hholder _).trans (if_pos rfl), hother.symm⟩
    · obtain ⟨x, hx, hkey⟩ := he.registered other id hid
      exact ⟨x, by rw [hholder, if_neg (he.ne_next hx), hx], hkey⟩
  · rw [hholder] at hx
    rw [hslots]
    split at hx
    · rename_i hnew
      cases hx
      rw [hnew]
      exact if_pos rfl
    · have hregistered := he.opened id x hx hopen
      -- the holder that the new one replaces is closed
      have hne : x.key ≠ key := by
        rintro rfl
        rw [isClosed_of_openSlot?_eq_none hnone hregistered hx] at hopen
        cases hopen
      rw [if_neg hne, hregistered]

/-- Whatever happens to holders, the hub stays exclusive if it closes those that are taken from the
registry. -/
theorem Exclusive.wear (he : h.Exclusive)
    (hslots : ∀ key, h'.holderOf? key = h.holderOf? key ∨
      h'.holderOf? key = none ∧
        ∀ id x, h.holderOf? key = some id → h'.holder? id = some x → x.isClosed = true)
    (hholders : ∀ id, ∃ f, Holder.Wears f ∧ h'.holder? id = (h.holder? id).map f)
    (hnext : h'.nextHolder = h.nextHolder) : h'.Exclusive := by
  refine ⟨fun id => ?_, fun key id hid => ?_, fun id y hy hopen => ?_⟩
  · obtain ⟨f, -, heq⟩ := hholders id
    rw [hnext, ← he.created id, heq, Option.isSome_map]
  · obtain ⟨f, hf, heq⟩ := hholders id
    rcases hslots key with hsame | ⟨hgone, -⟩
    · obtain ⟨x, hx, hkey⟩ := he.registered key id (hsame ▸ hid)
      exact ⟨f x, by rw [heq, hx, Option.map_some], (hf x).1.trans hkey⟩
    · rw [hgone] at hid
      cases hid
  · obtain ⟨f, hf, heq⟩ := hholders id
    obtain ⟨x, hx, rfl⟩ := Option.map_eq_some_iff.1 (heq.symm.trans hy)
    have hbefore : x.isClosed = false := by
      cases hclosed : x.isClosed with
      | false => rfl
      | true =>
        rw [(hf x).2 hclosed] at hopen
        cases hopen
    have hregistered := he.opened id x hx hbefore
    rw [(hf x).1]
    rcases hslots x.key with hsame | ⟨-, hclosed⟩
    · rw [hsame, hregistered]
    · rw [hclosed id _ hregistered hy] at hopen
      cases hopen

/-- **Every change** keeps the hub exclusive. -/
theorem Shift.exclusive (hshift : Shift h h') (he : h.Exclusive) : h'.Exclusive := by
  cases hshift with
  | enter capacity hnone hslots hholders hnext => exact he.enter hnone hslots hholders hnext
  | wear hslots hholders hnext => exact he.wear hslots hholders hnext

/-- **No change** loses a holder, gives it to another tree or opens it again. -/
theorem Shift.outlives (hshift : Shift h h') (he : h.Exclusive) : Outlives h h' := by
  intro id x hx
  cases hshift with
  | enter capacity hnone hslots hholders hnext =>
    refine ⟨x, ?_, rfl, fun hclosed => hclosed⟩
    rw [holder?, hholders, SortedMap.find?_insert, if_neg (he.ne_next hx)]
    exact hx
  | wear hslots hholders hnext =>
    obtain ⟨f, hf, heq⟩ := hholders id
    exact ⟨f x, by rw [heq, hx, Option.map_some], hf x⟩

theorem Shifts.keep (hshifts : Shifts h h') (he : h.Exclusive) : h'.Exclusive ∧ Outlives h h' := by
  induction hshifts with
  | refl => exact ⟨he, .refl h⟩
  | tail _ hlast ih => exact ⟨hlast.exclusive ih.1, ih.2.trans (hlast.outlives ih.1)⟩

/-! ## Runs -/

theorem exclusive_run (settings : SweepSettings) (hub : HubSettings) (acts : List Act) :
    ((create hub).run settings acts).Exclusive :=
  run_induction (P := fun _ h => h.Exclusive) (exclusive_create hub)
    (fun _ a he => ((act_shifts settings _ a).keep he).1) acts

theorem Exclusive.outlives_run (he : h.Exclusive) (settings : SweepSettings) (acts : List Act) :
    Outlives h (h.run settings acts) := by
  refine (run_induction (P := fun _ h' => h'.Exclusive ∧ Outlives h h') ⟨he, .refl h⟩
    (fun acts a ih => ?_) acts).2
  obtain ⟨he', hout⟩ := (act_shifts settings _ a).keep ih.1
  exact ⟨he', ih.2.trans hout⟩

/-- A holder is no longer registered for its tree.  It is closed. -/
theorem Exclusive.isClosed (he : h.Exclusive) {x : Holder} (hx : h.holder? id = some x)
    (hgone : h.holderOf? x.key ≠ some id) : x.isClosed = true := by
  cases hclosed : x.isClosed with
  | true => rfl
  | false => exact absurd (he.opened id x hx hclosed) hgone

/-- **At most one open holder for a tree.**  Whatever happens to a hub, in any order, and however
its sweeps are set up: every holder that was ever created is either closed, or the one registered
for its tree, so that two open holders are for different trees.  A holder that was once registered
for a tree is still there; it is that tree's, and closed unless it is registered still. -/
theorem openHolder_registered (settings : SweepSettings) (hub : HubSettings) (acts : List Act) :
    (∀ id x, ((create hub).run settings acts).holder? id = some x → x.isClosed = false →
      ((create hub).run settings acts).holderOf? x.key = some id ∧
      ∀ other y, ((create hub).run settings acts).holder? other = some y → y.isClosed = false →
        y.key = x.key → other = id) ∧
    ∀ before after, acts = before ++ after →
      ∀ key id, ((create hub).run settings before).holderOf? key = some id →
        ∃ x, ((create hub).run settings acts).holder? id = some x ∧ x.key = key ∧
          (((create hub).run settings acts).holderOf? key = some id ∨ x.isClosed = true) := by
  have he := exclusive_run settings hub acts
  refine ⟨fun id x hx hopen => ⟨he.opened id x hx hopen, fun other y hy hopen' hkey => ?_⟩, ?_⟩
  · have hother := he.opened other y hy hopen'
    rw [hkey, he.opened id x hx hopen] at hother
    exact (Option.some.inj hother).symm
  · rintro before after rfl key id hid
    have hbefore := exclusive_run settings hub before
    obtain ⟨x, hx, rfl⟩ := hbefore.registered key id hid
    obtain ⟨y, hy, hkey, -⟩ := hbefore.outlives_run settings after id x hx
    rw [← run_append] at hy
    refine ⟨y, hy, hkey, ?_⟩
    rw [← hkey]
    exact (Classical.em _).imp_right (he.isClosed hy)

/-- A holder closes on its own, and the next call for its tree replaces it. -/
theorem openHolder_registered_replaced :
    let h := (create .standard).run .standard
      [.request 0 0 ⟨"shop", .service⟩, .close 0, .request 1 1 ⟨"shop", .service⟩]
    h.holderOf? ⟨"shop", .service⟩ = some 1 ∧ (h.holder? 0).map Holder.isClosed = some true := by
  obtain ⟨hopen, hgone⟩ := openHolder_registered .standard .standard
    [.request 0 0 ⟨"shop", .service⟩, .close 0, .request 1 1 ⟨"shop", .service⟩]
  have hnew : ((create .standard).run .standard
      [.request 0 0 ⟨"shop", .service⟩, .close 0, .request 1 1 ⟨"shop", .service⟩]).holder? 1 =
        some (.create ⟨"shop", .service⟩ HubSettings.standard.changeLogCapacity) := by
    decide +kernel
  have hregistered := (hopen 1 _ hnew rfl).1
  obtain ⟨x, hx, -, hclosed⟩ := hgone [.request 0 0 ⟨"shop", .service⟩] _ rfl ⟨"shop", .service⟩ 0
    (by decide +kernel)
  refine ⟨hregistered, ?_⟩
  rw [hx, Option.map_some, hclosed.resolve_left fun hzero => ?_]
  cases hregistered.symm.trans hzero

end Hub

end Treecast
