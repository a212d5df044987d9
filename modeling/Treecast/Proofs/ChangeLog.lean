import Treecast.Holder
import Treecast.Proofs.Reading

/-!
# Change logs

The changes in a holder's log tell how its replica came about: their revisions increase up to the
replica's, and the last change of a place gives the value that is there now (`Holder.Logged`).
Handling a tidy event adds at most one change.

## Results

* `Holder.handle_grown`, `Holder.Grown.logged`: what one event adds to a log, and that the log
  stays true.
* `Holder.readAt_entry`, `Holder.readAt_lagged`, `Holder.readAt_none`: what a reader finds at its
  cursor.
-/

set_option autoImplicit false

namespace Treecast

/-- The change that an entry tells of. -/
def LogEntry.change? : LogEntry → Option Change
  | .changed change => some change
  | _ => none

/-- The changes in a stretch of a log. -/
def changesOf (log : List LogEntry) : List Change := log.filterMap LogEntry.change?

theorem changesOf_append (log more : List LogEntry) :
    changesOf (log ++ more) = changesOf log ++ changesOf more :=
  List.filterMap_append

/-- A split of a list with one more element is at that element, or is one of the list before. -/
theorem append_singleton_eq_append_cons {α : Type} {xs before after : List α} {a b : α}
    (h : xs ++ [a] = before ++ b :: after) :
    (after = [] ∧ b = a) ∨ ∃ front, after = front ++ [a] ∧ xs = before ++ b :: front := by
  rcases List.eq_nil_or_concat after with rfl | ⟨front, e, rfl⟩
  · obtain ⟨-, he⟩ := List.append_inj' h rfl
    exact .inl ⟨rfl, (List.singleton_inj.1 he).symm⟩
  · rw [List.concat_eq_append] at h ⊢
    have h : xs ++ [a] = (before ++ b :: front) ++ [e] := by
      rw [h]
      simp
    obtain ⟨hbefore, he⟩ := List.append_inj' h rfl
    exact .inr ⟨front, by rw [List.singleton_inj.1 he], hbefore⟩

/-- What starts at some element and is not ended by a later one: one more element starts it, or
does not end it. -/
theorem exists_split_concat_iff {α : Type} (starts : List α → α → Prop) (ends : α → Prop)
    {xs : List α} {a : α} :
    (∃ before b after, xs ++ [a] = before ++ b :: after ∧ starts before b ∧
      ∀ later ∈ after, ¬ ends later) ↔
    starts xs a ∨ (¬ ends a ∧ ∃ before b after, xs = before ++ b :: after ∧ starts before b ∧
      ∀ later ∈ after, ¬ ends later) := by
  constructor
  · rintro ⟨before, b, after, heq, hstarts, hafter⟩
    rcases append_singleton_eq_append_cons heq with ⟨rfl, rfl⟩ | ⟨front, rfl, hbefore⟩
    · obtain rfl := List.append_cancel_right heq
      exact .inl hstarts
    · exact .inr ⟨hafter a (List.mem_append_right _ List.mem_cons_self), before, b, front,
        hbefore, hstarts, fun later hlater => hafter later (List.mem_append_left _ hlater)⟩
  · rintro (hstarts | ⟨hends, before, b, after, rfl, hstarts, hafter⟩)
    · exact ⟨xs, a, [], rfl, hstarts, nofun⟩
    · refine ⟨before, b, after ++ [a], by simp, hstarts, fun later hlater => ?_⟩
      rcases List.mem_append.1 hlater with hlater | hlater
      · exact hafter later hlater
      · exact List.mem_singleton.1 hlater ▸ hends

namespace Holder

/-- The changes that a reader has not read yet. -/
def unread (h : Holder) (cursor : Nat) : List Change := changesOf (h.log.drop cursor)

/-- What can happen to a holder at once: entries without a change are logged, or the replica is
changed at one place and the change is logged. -/
inductive Grown (h h' : Holder) : Prop
  | quiet {more : List LogEntry} (log : h'.log = h.log ++ more) (changes : changesOf more = [])
      (replica : h'.replica = h.replica)
  | moved {change : Change} (log : h'.log = h.log ++ [.changed change])
      (moved : Replica.Moved h.replica change h'.replica) (seen : h'.replica.AllSeen)

/-- The log tells how the replica came about. -/
structure Logged (h : Holder) : Prop where
  seen : h.replica.AllSeen
  increasing : (changesOf h.log).Pairwise fun a b => a.revision < b.revision
  bounded : ∀ c ∈ changesOf h.log, c.revision ≤ h.replica.revision
  /-- The last change of a place gives the value that is there. -/
  last : ∀ before change after, changesOf h.log = before ++ change :: after →
    (∀ c ∈ after, c.level ≠ change.level) → h.replica.value? change.level = change.value

variable {h h' : Holder}

theorem logged_create (key : TreeKey) (capacity : Nat) : (create key capacity).Logged where
  seen c hc := by cases hc
  increasing := List.Pairwise.nil
  bounded c hc := by cases hc
  last before change after heq := by
    have := congrArg List.length heq
    simp [create, changesOf] at this

/-- Entries without a change say nothing of the replica. -/
theorem Logged.of_quiet (hl : h.Logged) (hchanges : changesOf h'.log = changesOf h.log)
    (hreplica : h'.replica = h.replica) : h'.Logged where
  seen := hreplica ▸ hl.seen
  increasing := hchanges ▸ hl.increasing
  bounded := by
    rw [hchanges, hreplica]
    exact hl.bounded
  last := by
    rw [hchanges, hreplica]
    exact hl.last

/-- A change that is logged tells how the replica moved on. -/
theorem Logged.of_moved (hl : h.Logged) {change : Change}
    (hchanges : changesOf h'.log = changesOf h.log ++ [change])
    (hmoved : Replica.Moved h.replica change h'.replica) (hseen : h'.replica.AllSeen) :
    h'.Logged where
  seen := hseen
  increasing := by
    rw [hchanges]
    refine List.pairwise_append.2 ⟨hl.increasing, List.pairwise_singleton _ _, ?_⟩
    intro a ha b hb
    have hle := hl.bounded a ha
    have hnumber := hmoved.numbered
    have hrev := hmoved.revision
    rw [List.mem_singleton.1 hb]
    omega
  bounded c hc := by
    rw [hchanges] at hc
    have hnumber := hmoved.numbered
    have hrev := hmoved.revision
    rcases List.mem_append.1 hc with hc | hc
    · have hle := hl.bounded c hc
      omega
    · rw [List.mem_singleton.1 hc]
      omega
  last before ch after heq hafter := by
    rw [hchanges] at heq
    rcases append_singleton_eq_append_cons heq with ⟨-, rfl⟩ | ⟨front, rfl, hbefore⟩
    · exact hmoved.here
    · have hne : ch.level ≠ change.level :=
        Ne.symm (hafter change (List.mem_append.2 (.inr List.mem_cons_self)))
      rw [hmoved.value?_elsewhere hne]
      exact hl.last before ch front hbefore fun c hc => hafter c (List.mem_append.2 (.inl hc))

/-- Whatever happens to a holder, its log stays true. -/
theorem Grown.logged (hg : Grown h h') (hl : h.Logged) : h'.Logged := by
  cases hg with
  | quiet hlog hmore hreplica =>
    refine hl.of_quiet ?_ hreplica
    rw [hlog, changesOf_append, hmore, List.append_nil]
  | moved hlog hmoved hseen =>
    refine hl.of_moved ?_ hmoved hseen
    rw [hlog, changesOf_append]
    rfl

theorem Grown.length_le (hg : Grown h h') : h.log.length ≤ h'.log.length := by
  cases hg with
  | quiet hlog =>
    rw [hlog, List.length_append]
    omega
  | moved hlog =>
    rw [hlog, List.length_append]
    omega

/-- What an event can come to: the first snapshot is there, nothing happens, the store session
changes, or a change is logged with the replica that it leads to. -/
theorem handle_cases {P : StoreEvent → Holder → Prop} (h : Holder)
    (hloaded : h.phase = .starting → P .initialized { h with phase := .initialized })
    (hidle : ∀ event, (h.replica.apply event).2 = none → P event h)
    (hconnection : ∀ state, P (.connection state)
      { h with phase := phaseOn h.phase state, log := h.log ++ [.connection state] })
    (hchanged : ∀ event change, (h.replica.apply event).2 = some change → P event
      { h with replica := (h.replica.apply event).1, log := h.log ++ [.changed change] })
    (event : StoreEvent) : P event (h.handle event) := by
  cases event with
  | initialized =>
    rw [handle]
    split
    · exact hloaded ‹_›
    · exact hidle _ rfl
  | connection state => exact hconnection state
  | _ =>
    unfold handle
    dsimp only
    split
    · rename_i change happly
      have hstep := hchanged _ change (congrArg Prod.snd happly)
      rwa [happly] at hstep
    · rename_i happly
      have hnone := congrArg Prod.snd happly
      have hself := Replica.apply_eq_self hnone
      rw [happly] at hself
      dsimp only at hself
      rw [hself]
      exact hidle _ hnone

/-- **One event adds at most one change to the log.** -/
theorem handle_grown (hl : h.Logged) {event : StoreEvent} (ht : h.replica.Tidy event) :
    Grown h (h.handle event) := by
  revert ht
  refine handle_cases (P := fun event h' => h.replica.Tidy event → Grown h h') h ?_ ?_ ?_ ?_ event
  · intro _ _
    exact .quiet (List.append_nil _).symm rfl rfl
  · intro event _ _
    exact .quiet (List.append_nil _).symm rfl rfl
  · intro state _
    exact .quiet rfl rfl rfl
  · intro event change hchange ht
    exact .moved rfl (Replica.apply_moved ht hchange) (hl.seen.apply ht)

/-- An event never makes a holder new or closed. -/
theorem handle_keeps (h : Holder) (event : StoreEvent) :
    (h.handle event).key = h.key ∧ (h.handle event).capacity = h.capacity ∧
      (h.phase ≠ .new → (h.handle event).phase ≠ .new) ∧
      (h.phase ≠ .closed → (h.handle event).phase ≠ .closed) := by
  cases event with
  | initialized =>
    rw [handle]
    split
    · exact ⟨rfl, rfl, fun _ => HolderPhase.noConfusion, fun _ => HolderPhase.noConfusion⟩
    · exact ⟨rfl, rfl, id, id⟩
  | connection state =>
    refine ⟨rfl, rfl, ?_, ?_⟩
    · rw [handle]
      dsimp only
      cases h.phase <;> cases state <;> decide
    · rw [handle]
      dsimp only
      cases h.phase <;> cases state <;> decide
  | _ =>
    unfold handle
    dsimp only
    split <;> exact ⟨rfl, rfl, id, id⟩

theorem close_grown (h : Holder) : Grown h h.close := by
  unfold close
  split
  · exact .quiet (List.append_nil _).symm rfl rfl
  · exact .quiet rfl rfl rfl

/-! ## Reading -/

/-- An entry that is read is the next one. -/
theorem readAt_entry {cursor next : Nat} {e : LogEntry}
    (hr : h.readAt cursor = some (.entry e, next)) :
    next = cursor + 1 ∧ h.log.drop cursor = e :: h.log.drop (cursor + 1) := by
  unfold readAt at hr
  dsimp only at hr
  split at hr
  · cases hr
  · obtain ⟨x, hx, he⟩ := Option.map_eq_some_iff.1 hr
    cases he
    obtain ⟨hlt, hx⟩ := List.getElem?_eq_some_iff.1 hx
    exact ⟨rfl, by rw [List.drop_eq_getElem_cons hlt, hx]⟩

/-- After a gap the reader goes on at the first entry that is kept. -/
theorem readAt_lagged {cursor next lost : Nat}
    (hr : h.readAt cursor = some (.lagged lost, next)) :
    cursor < next ∧ next = h.log.length - h.capacity := by
  unfold readAt at hr
  dsimp only at hr
  split at hr
  · cases hr
    exact ⟨‹_›, rfl⟩
  · obtain ⟨x, -, he⟩ := Option.map_eq_some_iff.1 hr
    cases he

/-- Reading does not lead past the end of the log. -/
theorem readAt_within {cursor next : Nat} {unread : Unread}
    (hr : h.readAt cursor = some (unread, next)) : next ≤ h.log.length := by
  cases unread with
  | entry e =>
    obtain ⟨rfl, hdrop⟩ := readAt_entry hr
    have := congrArg List.length hdrop
    simp only [List.length_drop, List.length_cons] at this
    omega
  | lagged lost =>
    have := (readAt_lagged hr).2
    omega

/-- The entry that says that the holder is closed is the last one, and no gap covers it. -/
theorem readAt_before_closed {cursor next : Nat} {unread : Unread} (hcapacity : 0 < h.capacity)
    (hlast : h.log.getLast? = some .closed) (hcursor : cursor < h.log.length)
    (hr : h.readAt cursor = some (unread, next)) (hopen : unread ≠ .entry .closed) :
    next < h.log.length := by
  cases unread with
  | entry e =>
    obtain ⟨rfl, hdrop⟩ := readAt_entry hr
    refine Classical.byContradiction fun hend => hopen ?_
    have hnone : h.log.drop (cursor + 1) = [] := List.drop_eq_nil_of_le (by omega)
    have hlog : h.log = h.log.take cursor ++ [e] := by
      rw [← hnone, ← hdrop, List.take_append_drop]
    rw [hlog, List.getLast?_concat] at hlast
    cases hlast
    rfl
  | lagged lost =>
    have := (readAt_lagged hr).2
    omega

/-- There is nothing to read only at the end of the log. -/
theorem readAt_none {cursor : Nat} (hr : h.readAt cursor = none) : h.log.drop cursor = [] := by
  unfold readAt at hr
  dsimp only at hr
  split at hr
  · cases hr
  · rw [Option.map_eq_none_iff, List.getElem?_eq_none_iff] at hr
    exact List.drop_eq_nil_of_le hr

theorem unread_of_drop {cursor : Nat} {e : LogEntry}
    (hd : h.log.drop cursor = e :: h.log.drop (cursor + 1)) :
    h.unread cursor = e.change?.toList ++ h.unread (cursor + 1) := by
  rw [unread, hd, changesOf, List.filterMap_cons]
  cases e <;> rfl

theorem unread_sublist (h : Holder) (cursor : Nat) :
    (h.unread cursor).Sublist (changesOf h.log) :=
  (List.drop_sublist cursor h.log).filterMap LogEntry.change?

end Holder

end Treecast
