import Treecast.Service.Settle
import Treecast.Proofs.ChangeLog
import Treecast.Proofs.HubActs

/-!
# The life of a holder

A holder is started and closed from outside, and its writer brings it the events of its store
watch, in any order and however often.  All that one of these can do to it is in `Holder.Lives`;
from there it follows what the phase, the replica and the change log have to do with one another
after any number of them.

## Results

* `Holder.act_lives`: what one act can do to a holder.
* `Holder.Lives.told`, `Holder.told_run`: the log tells the phase and the revision, along one act
  and along a run.
* `Service.holder?_startHolder`, `Service.holder?_runWriter`: what the service does to a holder are
  such acts.
* `Holder.life_run`: the life cycle and the change log after every sequence of acts.
-/

set_option autoImplicit false

namespace Treecast

namespace Holder

/-- What can happen to a holder and its writer. -/
inductive Act where
  /-- It is started; `watched` says whether its store watch could be opened. -/
  | start (watched : Bool)
  | close
  /-- Its writer receives an event of the store watch. -/
  | event (event : StoreEvent)
  /-- Its writer finds the store watch at its end, and closes the holder. -/
  | watchEnded
  deriving DecidableEq, Repr

/-- The holder after an act. -/
def act (h : Holder) : Act → Holder
  | .start watched =>
    if h.phase = .new then (if watched then h.start else h.start.close) else h
  | .close | .watchEnded => h.close
  | .event event => h.handleAll [event]

/-- The holder after acts in order. -/
def run (h : Holder) (acts : List Act) : Holder := acts.foldl act h

variable {h h' : Holder}

/-! ## What one act can do -/

/-- All that one act can do to a holder. -/
inductive Lives (h : Holder) : Holder → Prop
  | idle : Lives h h
  | started (hnew : h.phase = .new) : Lives h { h with phase := .starting }
  | loaded (hstarting : h.phase = .starting) : Lives h { h with phase := .initialized }
  | connection (state : Connection) (hopen : h.phase ≠ .closed) :
      Lives h { h with phase := phaseOn h.phase state, log := h.log ++ [.connection state] }
  | changed {replica : Replica} {change : Change} (hopen : h.phase ≠ .closed)
      (hrevision : replica.revision = h.replica.revision + 1)
      (hnumber : change.revision = replica.revision) :
      Lives h { h with replica, log := h.log ++ [.changed change] }
  | closed (hopen : h.phase ≠ .closed) :
      Lives h { h with phase := .closed, log := h.log ++ [.closed] }

theorem close_lives (h : Holder) : Lives h h.close := by
  unfold close
  split
  · exact .idle
  · exact .closed ‹_›

/-- An event that yields a change raises the revision by one, to that of the change. -/
theorem revision_of_apply {r : Replica} {event : StoreEvent} {change : Change}
    (hchange : (r.apply event).2 = some change) :
    (r.apply event).1.revision = r.revision + 1 ∧
      change.revision = (r.apply event).1.revision := by
  revert hchange
  refine Replica.apply_cases (P := fun x => x.2 = some change →
    x.1.revision = r.revision + 1 ∧ change.revision = x.1.revision) ?_ ?_ nofun event
  · intro path node hchange
    have hmoved := Replica.put_moved r hchange
    exact ⟨hmoved.revision, hmoved.numbered⟩
  · intro path hchange
    unfold Replica.drop at hchange ⊢
    split at hchange
    · cases hchange
    · split at hchange
      · cases hchange
      · cases hchange
        exact ⟨rfl, rfl⟩

theorem handle_lives (hopen : h.phase ≠ .closed) (event : StoreEvent) :
    Lives h (h.handle event) := by
  refine handle_cases (P := fun _ h' => Lives h h') h ?_ ?_ ?_ ?_ event
  · intro hstarting
    exact .loaded hstarting
  · intro event _
    exact .idle
  · intro state
    exact .connection state hopen
  · intro event change hchange
    obtain ⟨hrevision, hnumber⟩ := revision_of_apply hchange
    exact .changed hopen hrevision hnumber

/-- **One act does one of a few things to a holder.** -/
theorem act_lives (h : Holder) (act : Act) : Lives h (h.act act) := by
  cases act with
  | start watched =>
    rw [Holder.act]
    split
    · rename_i hnew
      have hstart : h.start = { h with phase := .starting } := if_pos hnew
      have hopen : h.phase ≠ .closed := by
        rw [hnew]
        exact HolderPhase.noConfusion
      cases watched with
      | true => exact hstart ▸ .started hnew
      | false =>
        rw [hstart]
        exact .closed hopen
    · exact .idle
  | close => exact h.close_lives
  | event event =>
    rw [Holder.act, handleAll]
    split
    · exact .idle
    · rename_i hrunning
      exact handle_lives (not_or.1 hrunning).1 event
  | watchEnded => exact h.close_lives

/-! ## What acts keep -/

/-- What the log of a holder tells: that the holder is closed, last and only once, and the changes
of its replica one after another. -/
structure Told (h : Holder) : Prop where
  count : h.log.count .closed = if h.phase = .closed then 1 else 0
  last : h.phase = .closed → h.log.getLast? = some .closed
  revisions : (changesOf h.log).map Change.revision = List.range' 1 h.replica.revision

theorem told_create (key : TreeKey) (capacity : Nat) : (create key capacity).Told where
  count := rfl
  last h := nomatch h
  revisions := rfl

/-- The phase changes, but not to or from closed, and the log grows by nothing that tells of it. -/
theorem Told.of_open (ht : h.Told) (hopen : h.phase ≠ .closed) (hopen' : h'.phase ≠ .closed)
    {more : List LogEntry} (hlog : h'.log = h.log ++ more) (hmore : .closed ∉ more)
    (hrevisions : (changesOf h'.log).map Change.revision =
      List.range' 1 h'.replica.revision) : h'.Told where
  count := by
    rw [hlog, List.count_append, List.count_eq_zero.2 hmore, ht.count, if_neg hopen,
      if_neg hopen']
  last hclosed := absurd hclosed hopen'
  revisions := hrevisions

theorem phaseOn_ne_closed {phase : HolderPhase} (hopen : phase ≠ .closed) (state : Connection) :
    phaseOn phase state ≠ .closed := by
  cases state <;> cases phase <;> first | exact HolderPhase.noConfusion | exact absurd rfl hopen

/-- One act keeps what the log tells. -/
theorem Lives.told (hl : Lives h h') (ht : h.Told) : h'.Told := by
  cases hl with
  | idle => exact ht
  | started hnew =>
    exact ht.of_open (hnew ▸ HolderPhase.noConfusion) HolderPhase.noConfusion
      (List.append_nil _).symm List.not_mem_nil ht.revisions
  | loaded hstarting =>
    exact ht.of_open (hstarting ▸ HolderPhase.noConfusion) HolderPhase.noConfusion
      (List.append_nil _).symm List.not_mem_nil ht.revisions
  | connection state hopen =>
    refine ht.of_open hopen (phaseOn_ne_closed hopen state) rfl (by simp) ?_
    rw [changesOf_append]
    exact (List.append_nil _).symm ▸ ht.revisions
  | changed hopen hrevision hnumber =>
    refine ht.of_open hopen hopen rfl (by simp) ?_
    rw [changesOf_append, List.map_append, ht.revisions]
    dsimp only
    rw [hrevision, List.range'_concat, Nat.mul_comm]
    simp [changesOf, LogEntry.change?, hnumber, hrevision, Nat.add_comm]
  | closed hopen =>
    refine ⟨?_, fun _ => List.getLast?_concat, ?_⟩
    · dsimp only
      rw [List.count_append, ht.count, if_neg hopen, if_pos rfl]
      rfl
    · rw [changesOf_append]
      exact (List.append_nil _).symm ▸ ht.revisions

/-- A closed holder does not change any more. -/
theorem Lives.eq_of_closed (hl : Lives h h') (hclosed : h.phase = .closed) : h' = h := by
  cases hl with
  | idle => rfl
  | started hnew => exact nomatch hnew.symm.trans hclosed
  | loaded hstarting => exact nomatch hstarting.symm.trans hclosed
  | connection state hopen => exact absurd hclosed hopen
  | changed hopen => exact absurd hclosed hopen
  | closed hopen => exact absurd hclosed hopen

/-- A holder that is ready stays ready or is closed. -/
theorem Lives.ready (hl : Lives h h') (hready : h.isReady = true) :
    h'.isReady = true ∨ h'.phase = .closed := by
  have hphase : h.phase = .initialized ∨ h.phase = .suspended := by
    revert hready
    unfold isReady
    cases h.phase <;> decide
  cases hl with
  | idle => exact .inl hready
  | started hnew => rcases hphase with hp | hp <;> exact nomatch hnew.symm.trans hp
  | loaded hstarting => exact .inl rfl
  | connection state hopen =>
    refine .inl ?_
    unfold isReady
    rcases hphase with hp | hp <;> cases state <;> rw [hp] <;> rfl
  | changed hopen => exact .inl hready
  | closed hopen => exact .inr rfl

/-- After every sequence of acts the log tells the phase and the revision. -/
theorem told_run (ht : h.Told) (acts : List Act) : (h.run acts).Told := by
  induction acts generalizing h with
  | nil => exact ht
  | cons a rest ih => exact ih ((h.act_lives a).told ht)

theorem run_of_closed (hclosed : h.phase = .closed) (acts : List Act) : h.run acts = h := by
  induction acts with
  | nil => rfl
  | cons a rest ih =>
    have hact := (h.act_lives a).eq_of_closed hclosed
    rw [run, List.foldl_cons, hact]
    exact ih

theorem ready_run (hready : h.isReady = true) (acts : List Act) :
    (h.run acts).isReady = true ∨ (h.run acts).phase = .closed := by
  induction acts generalizing h with
  | nil => exact .inl hready
  | cons a rest ih =>
    rcases (h.act_lives a).ready hready with hready | hclosed
    · exact ih hready
    · refine .inr ?_
      rw [run, List.foldl_cons]
      exact (congrArg phase (run_of_closed hclosed rest)).trans hclosed

/-- Session changes and the end of the first snapshot leave the replica as it is. -/
theorem replica_act_event (h : Holder) {event : StoreEvent}
    (hevent : event = .initialized ∨ ∃ state, event = .connection state) :
    (h.act (.event event)).replica = h.replica := by
  have hhandle : (h.handle event).replica = h.replica := by
    rcases hevent with rfl | ⟨state, rfl⟩
    · rw [handle]
      split <;> rfl
    · rfl
  rw [act, handleAll]
  split
  · rfl
  · exact hhandle

/-- Events that are handled together are handled one after another. -/
theorem handleAll_eq_run (h : Holder) (events : List StoreEvent) :
    h.handleAll events = h.run (events.map .event) := by
  have hact : ∀ (x : Holder) (e : StoreEvent), x.phase ≠ .closed → x.phase ≠ .new →
      x.act (.event e) = x.handle e :=
    fun x e hopen hstarted => if_neg (not_or.2 ⟨hopen, hstarted⟩)
  have hrun : ∀ (events : List StoreEvent) (x : Holder), x.phase ≠ .closed → x.phase ≠ .new →
      events.foldl handle x = x.run (events.map .event) := by
    intro events
    induction events with
    | nil => exact fun x _ _ => rfl
    | cons e rest ih =>
      intro x hopen hstarted
      obtain ⟨-, -, hstarted', hopen'⟩ := x.handle_keeps e
      rw [List.foldl_cons, ih _ (hopen' hopen) (hstarted' hstarted), List.map_cons, run, run,
        List.foldl_cons, hact x e hopen hstarted]
  rw [handleAll]
  split
  · rename_i hidle
    have hact : ∀ e, h.act (.event e) = h := fun e => if_pos hidle
    induction events with
    | nil => rfl
    | cons e rest ih =>
      rw [List.map_cons, run, List.foldl_cons, hact]
      exact ih
  · rename_i hrunning
    exact hrun events h (not_or.1 hrunning).1 (not_or.1 hrunning).2

end Holder

/-! ## What the service does to a holder -/

namespace Service

theorem holder?_updateHolder (sv : Service) (ref : HolderRef) (f : Holder → Holder)
    (other : HolderRef) :
    (sv.updateHolder ref f).holder? other =
      (sv.holder? other).map fun h => if other = ref then f h else h := by
  have hmodify : ∀ (m : SortedMap Nat Holder) (id other : Nat),
      (m.modify id f).find? other =
        (m.find? other).map fun h => if other = id then f h else h := by
    intro m id other
    rw [SortedMap.find?_modify]
    by_cases heq : other = id
    · simp [heq]
    · simp [heq]
  cases ref with
  | ofHub id =>
    cases other with
    | ofHub other =>
      simp only [HolderRef.ofHub.injEq]
      exact hmodify sv.hub.holders id other
    | alone other => simp [holder?, updateHolder]
  | alone id =>
    cases other with
    | ofHub other => simp [holder?, updateHolder]
    | alone other =>
      simp only [HolderRef.alone.injEq]
      exact hmodify sv.alone id other

theorem holder?_openFeed (sv : Service) (ref : HolderRef) (key : TreeKey) (other : HolderRef) :
    (sv.openFeed ref key).1.holder? other = sv.holder? other := by
  cases hwatch : sv.backend.watch key.root with
  | mk backend result =>
    simp only [openFeed, onBackend, hwatch]
    cases result <;> cases other <;> rfl

theorem holder?_dropWriter (sv : Service) (ref : HolderRef) (feed : Feed) (other : HolderRef) :
    (sv.dropWriter ref feed).holder? other = sv.holder? other := by
  cases other <;> rfl

theorem holder?_stir (sv : Service) (other : HolderRef) :
    sv.stir.holder? other = sv.holder? other := by
  cases other <;> rfl

/-- A new holder is started and watches its tree, or it is closed if it cannot. -/
theorem startHolder_of_new {sv : Service} {ref : HolderRef} {holder : Holder}
    (hholder : sv.holder? ref = some holder) (hnew : holder.phase = .new) :
    sv.startHolder ref =
      match (sv.updateHolder ref Holder.start).openFeed ref holder.key with
      | (sv, .ok ()) => (sv, none)
      | (sv, .error e) => (sv.updateHolder ref Holder.close, some (.store e)) := by
  rw [startHolder, hholder]
  exact if_neg (not_not.2 hnew)

/-- **Starting a holder is one act on it**, and none on other holders. -/
theorem holder?_startHolder (sv : Service) (ref other : HolderRef) :
    (sv.startHolder ref).1.holder? other = (sv.holder? other).map fun h =>
      if other = ref then h.act (.start (sv.startHolder ref).2.isNone) else h := by
  cases hholder : sv.holder? ref with
  | none =>
    have hstart : sv.startHolder ref = (sv, none) := by rw [startHolder, hholder]
    rw [hstart]
    by_cases heq : other = ref
    · rw [heq, hholder]
      rfl
    · simp [heq]
  | some holder =>
    by_cases hnew : holder.phase = .new
    · have hopened := (sv.updateHolder ref Holder.start).holder?_openFeed ref holder.key other
      rw [startHolder_of_new hholder hnew]
      split
      · rename_i sv' hfeed
        rw [hfeed] at hopened
        rw [hopened, holder?_updateHolder]
        by_cases heq : other = ref
        · simp [heq, hholder, Holder.act, hnew]
        · simp [heq]
      · rename_i sv' e hfeed
        rw [hfeed] at hopened
        rw [holder?_updateHolder, hopened, holder?_updateHolder]
        by_cases heq : other = ref
        · simp [heq, hholder, Holder.act, hnew]
        · simp [heq]
    · have hstart : sv.startHolder ref = (sv, none) := by
        rw [startHolder, hholder]
        exact if_pos hnew
      rw [hstart]
      by_cases heq : other = ref
      · simp [heq, hholder, Holder.act, hnew]
      · simp [heq]

/-- **What a writer does to its holder are acts**: the events that wait for it, one after another,
and the end of its watch. -/
theorem holder?_runWriter (sv : Service) (ref : HolderRef) (feed : Feed) :
    ∃ acts : List Holder.Act, (∀ a ∈ acts, a = .watchEnded ∨ ∃ event, a = .event event) ∧
      ∀ other, (sv.runWriter ref feed).holder? other = (sv.holder? other).map fun h =>
        if other = ref then h.run acts else h := by
  have hidle : ∀ sv' : Service, (∀ other, sv'.holder? other = sv.holder? other) →
      ∀ other, sv'.holder? other = (sv.holder? other).map fun h =>
        if other = ref then h.run [] else h := by
    intro sv' h other
    rw [h]
    simp [Holder.run]
  unfold runWriter
  split
  · exact ⟨[], nofun, hidle _ fun other => sv.holder?_dropWriter ref feed other⟩
  · rename_i holder hholder
    split
    · refine ⟨[], nofun, hidle _ fun other => ?_⟩
      rw [holder?_stir, holder?_dropWriter]
    · cases htake : sv.backend.take feed with
      | mk backend taken =>
        obtain ⟨events, ended⟩ := taken
        have hback : ∀ other, ({ sv with backend } : Service).holder? other = sv.holder? other := by
          intro other
          cases other <;> rfl
        simp only [onBackend, htake]
        split
        · rename_i heq
          cases heq
          exact ⟨[], nofun, hidle _ hback⟩
        · rename_i heq
          cases heq
          refine ⟨events.map .event ++ if ended then [.watchEnded] else [], ?_, fun other => ?_⟩
          · intro a ha
            rcases List.mem_append.1 ha with ha | ha
            · obtain ⟨event, -, rfl⟩ := List.mem_map.1 ha
              exact .inr ⟨event, rfl⟩
            · cases ended
              · cases ha
              · exact .inl (List.mem_singleton.1 ha)
          · cases ended with
            | true =>
              simp only [if_true, holder?_dropWriter, holder?_updateHolder, holder?_stir, hback,
                Option.map_map]
              congr 1
              funext h
              by_cases heq : other = ref <;>
                simp [heq, Holder.handleAll_eq_run, Holder.run, Holder.act]
            | false =>
              simp only [Bool.false_eq_true, if_false, holder?_stir, holder?_updateHolder, hback,
                List.append_nil, Holder.handleAll_eq_run]

end Service

namespace Holder

/-- **The life of a holder and its change log.**  After any acts: a closed holder stays closed, a
ready one stays ready until it is closed, session changes and the end of the first snapshot leave
the replica as it is, the log says just once and at its end that the holder is closed if it is,
and its changes are numbered from 1 up to the revision of the replica. -/
theorem life_run (key : TreeKey) (capacity : Nat) (acts : List Act) :
    let h := (create key capacity).run acts
    (h.phase = .closed → ∀ more, (h.run more).phase = .closed) ∧
    (h.isReady = true → ∀ more, (h.run more).isReady = true ∨ (h.run more).phase = .closed) ∧
    (∀ event, (event = .initialized ∨ ∃ state, event = .connection state) →
      (h.act (.event event)).replica = h.replica) ∧
    (h.log.count .closed = (if h.phase = .closed then 1 else 0) ∧
      (h.phase = .closed → h.log.getLast? = some .closed)) ∧
    (changesOf h.log).map Change.revision = List.range' 1 h.replica.revision := by
  intro h
  have htold : h.Told := told_run (told_create key capacity) acts
  refine ⟨fun hclosed more => ?_, fun hready more => ready_run hready more,
    fun event hevent => h.replica_act_event hevent, ⟨htold.count, htold.last⟩, htold.revisions⟩
  rw [run_of_closed hclosed]
  exact hclosed

/-- A session change before the snapshot is there, an event outside the tree, a cluster that goes
away with its key, and events and a second start after the end of the store watch. -/
def interrupted : List Act :=
  [.start true, .event (.connection .lost), .event (.created "/service/shop/a/1" ⟨"x", 0, 0⟩),
    .event .initialized, .event (.connection .suspended), .event (.deleted "/service/other"),
    .event (.deleted "/service/shop/a"), .watchEnded, .event (.connection .reconnected),
    .start true, .close]

theorem life_run_interrupted :
    let h := (create ⟨"shop", .service⟩ 8).run interrupted
    h.log = [.connection .lost, .changed ⟨1, .created, .key "a" "1", some "x"⟩,
      .connection .suspended, .changed ⟨2, .deleted, .cluster "a", none⟩, .closed] ∧
    h.phase = .closed ∧ (∀ more, (h.run more).phase = .closed) ∧
    (changesOf h.log).map Change.revision = List.range' 1 h.replica.revision := by
  intro h
  have hlog : h.log = [.connection .lost, .changed ⟨1, .created, .key "a" "1", some "x"⟩,
      .connection .suspended, .changed ⟨2, .deleted, .cluster "a", none⟩, .closed] := by
    decide +kernel
  have hclosed : h.phase = .closed := by decide +kernel
  obtain ⟨hstays, -, -, -, hrevisions⟩ := life_run ⟨"shop", .service⟩ 8 interrupted
  exact ⟨hlog, hclosed, hstays hclosed, hrevisions⟩

end Holder

end Treecast
