import Treecast.Proofs.Accounts

/-!
# Where messages go

A session puts a message into its channel, or hands it to a reader that takes messages at once.
Which messages those are is nowhere in the state; they are computed beside it, from what the session
has left to send and from the room that it finds.  That they are the right ones shows at the reader:
a slow one finds them in the channel, and any other one has received them.

## Results

* `Service.stepSession_stepped`: what a step of a session can do.
* `Service.emitted_greeting`: the first message of a session finds room.
* `Service.shows_stepSession`: what a step of a session sends is in the channel, or was received.
* `Service.greets_startSession`: the same for what a session sends when it starts.
-/

set_option autoImplicit false

namespace Treecast

open Routing

/-- What a reader that takes messages at once makes of one. -/
def Reader.hear : Reader → Message → Option Message
  | .poll _ hijack _, m => hijack.project m
  | _, m => some m

namespace Service

/-- Of some messages, those that a session puts into its channel, or hands to a prompt reader. -/
def emitted (sv : Service) (id : Nat) : List Message → List Message
  | [] => []
  | m :: rest =>
    match sv.emit id m with
    | (sv, true) => m :: emitted sv id rest
    | (_, false) => []

/-- The messages that a step of a session puts into its channel. -/
def sentIn (sv : Service) (id : Nat) : List Message :=
  match sv.sessions.find? id with
  | some s => if s.ended || s.deserted then [] else sv.emitted id s.backlog
  | none => []

variable {sv : Service} {id n : Nat} {s : LiveSession} {name : String} {reader : Reader}

theorem find?_updateSession (hs : sv.sessions.find? id = some s)
    (f : LiveSession → LiveSession) : (sv.updateSession id f).sessions.find? id = some (f s) := by
  rw [updateSession, SortedMap.find?_modify, if_pos rfl, hs, Option.map_some]

/-! ## The steps of a session -/

/-- What a step of a session can do, and which messages it puts into the channel: it rests, it
ends the session, it reads, or it emits what is left to emit. -/
inductive Stepped (sv : Service) (id : Nat) : Service → List Message → Prop where
  | rests : Stepped sv id sv []
  | ends (s : LiveSession) (hs : sv.sessions.find? id = some s) (hrunning : s.ended = false) :
    Stepped sv id (sv.endSession id) []
  | reads (s : LiveSession) (hs : sv.sessions.find? id = some s) (hrunning : s.ended = false)
    (hempty : s.backlog = []) (tree : TreeKey) (unread : Holder.Unread) (cursor : Nat)
    (hunread : sv.unreadOf? s = some (tree, unread, cursor)) :
    Stepped sv id (sv.handleUnread id s tree unread cursor) []
  | emits (s : LiveSession) (hs : sv.sessions.find? id = some s) (hrunning : s.ended = false) :
    Stepped sv id
      ((sv.emitAll id s.backlog).1.updateSession id fun t =>
        { t with backlog := (sv.emitAll id s.backlog).2 })
      (sv.emitted id s.backlog)

theorem stepSession_stepped (sv : Service) (id : Nat) :
    sv.Stepped id (sv.stepSession id).1 (sv.sentIn id) := by
  unfold Service.stepSession sentIn
  cases hs : sv.sessions.find? id with
  | none => exact .rests
  | some s =>
    dsimp only
    cases hended : s.ended with
    | true => exact .rests
    | false =>
      cases hdeserted : s.deserted with
      | true => exact .ends s hs hended
      | false =>
        simp only [Bool.false_eq_true, if_false, Bool.or_self]
        split
        · exact .emits s hs hended
        · rename_i hempty
          have hempty := Decidable.not_not.1 hempty
          rw [hempty]
          split
          · exact .ends s hs hended
          · split
            · rename_i hunread
              exact .reads s hs hended hempty _ _ _ hunread
            · exact .rests

/-! ## The first message -/

/-- There is room for the first message of a session. -/
theorem emit_of_empty (hs : sv.sessions.find? id = some s) (hempty : s.channel = [])
    (hreader : (sv.readerOf? id).isSome = true) (m : Message) : (sv.emit id m).2 = true := by
  have hroom : s.channel.length < sv.channelCapacity := by
    rw [hempty]
    exact Nat.lt_of_lt_of_le Nat.one_pos (Nat.le_max_right _ _)
  obtain ⟨⟨name, reader⟩, hreader⟩ := Option.isSome_iff_exists.1 hreader
  cases reader <;> simp [Service.emit, hreader, hs, hroom]

/-- A session that is there has a reader, and nothing in its channel. -/
theorem openSession_spec (sv : Service) (l : Launching) (session : Session)
    (leases : SortedMap TreeKey Nat) :
    let opened := sv.openSession l session leases
    (∃ s, opened.sessions.find? sv.nextSession = some s ∧ s.channel = []) ∧
      (opened.readerOf? sv.nextSession).isSome = true ∧ opened.received = sv.received := by
  unfold Service.openSession
  dsimp only
  have hreceived : (sv.dropReader l.outlet.reader).1.received = sv.received := by
    unfold Service.dropReader
    split
    · rfl
    rename_i reader _
    cases reader with
    | events feed => rfl
    | log holder cursor => rfl
    | slow | prompt | poll =>
      dsimp only
      split
      · split <;> rfl
      · rfl
  generalize sv.dropReader l.outlet.reader = r at hreceived ⊢
  refine ⟨⟨_, (SortedMap.find?_insert ..).trans (if_pos rfl), rfl⟩, ?_, hreceived⟩
  refine List.find?_isSome.2 ⟨(l.outlet.reader, r.1.readerAt l.outlet sv.nextSession), ?_, ?_⟩
  · exact SortedMap.mem_toList_iff.2 ((SortedMap.find?_insert ..).trans (if_pos rfl))
  · cases l.outlet <;> exact beq_self_eq_true _

/-- What a session sends when it starts finds room. -/
theorem emitted_greeting (sv : Service) (l : Launching) (session : Session)
    (leases : SortedMap TreeKey Nat) :
    (sv.openSession l session leases).emitted sv.nextSession (sv.greeting l leases) =
      sv.greeting l leases := by
  obtain ⟨⟨s, hs, hempty⟩, hreader, -⟩ := sv.openSession_spec l session leases
  unfold greeting
  dsimp only
  split
  · have hroom := emit_of_empty hs hempty hreader
      ((Session.start l.request l.options.mode l.options.caller sv.policy
        (sv.replicasOf leases)).2.message .all)
    rw [emitted]
    generalize Service.emit _ _ _ = r at hroom ⊢
    obtain ⟨put, room⟩ := r
    cases hroom
    rfl
  · rfl

/-! ## What readers see -/

/-- Leases are dropped without regard to readers and what they received. -/
theorem exists_dropLeases (leases : List Nat) : ∀ sv : Service, ∃ hub clock,
    leases.foldl (fun sv l => sv.onHub' fun h now => h.dropLease now l) sv =
      { sv with hub := hub, clock := clock } := by
  induction leases with
  | nil => exact fun sv => ⟨sv.hub, sv.clock, rfl⟩
  | cons l rest ih =>
    intro sv
    obtain ⟨hub, clock, heq⟩ := ih (sv.onHub' fun h now => h.dropLease now l)
    exact ⟨hub, clock, heq⟩

theorem received_endSession (sv : Service) (id : Nat) :
    (sv.endSession id).received = sv.received := by
  unfold Service.endSession
  split
  · rfl
  rename_i s _
  dsimp only
  obtain ⟨hub, clock, heq⟩ := exists_dropLeases s.leases.values
    { sv with hub := { sv.hub with meters := sv.hub.meters.discount .watchers } }
  rw [heq]
  split <;> rfl

/-- A slow reader finds the channel as it was when the session ended. -/
theorem channel_endSession (hreader : sv.readerOf? id = some (name, .slow n)) :
    ((sv.endSession id).sessions.find? id).map LiveSession.channel =
      (sv.sessions.find? id).map LiveSession.channel := by
  unfold Service.endSession
  split
  · rfl
  rename_i s hs
  dsimp only
  obtain ⟨hub, clock, heq⟩ := exists_dropLeases s.leases.values
    { sv with hub := { sv.hub with meters := sv.hub.meters.discount .watchers } }
  rw [heq]
  have hstill : (Service.stir { sv with hub := hub, clock := clock }).readerOf? id =
    some (name, .slow n) := hreader
  rw [hstill]
  simp [Service.updateSession, Service.stir, hs]

theorem received_handleUnread (sv : Service) (id : Nat) (s : LiveSession) (tree : TreeKey)
    (unread : Holder.Unread) (cursor : Nat) :
    (sv.handleUnread id s tree unread cursor).received = sv.received := by
  obtain ⟨meters, -, heq⟩ := sv.handleUnread_eq id s tree unread cursor
  rw [heq]
  dsimp only
  split
  · exact received_endSession _ _
  · rfl

theorem channel_updateSession (sv : Service) (id : Nat) {f : LiveSession → LiveSession}
    (hf : ∀ s, (f s).channel = s.channel) :
    ((sv.updateSession id f).sessions.find? id).map LiveSession.channel =
      (sv.sessions.find? id).map LiveSession.channel := by
  rw [Service.updateSession, SortedMap.find?_modify, if_pos rfl, Option.map_map]
  exact congrArg (Option.map · _) (funext hf)

theorem channel_handleUnread (hreader : sv.readerOf? id = some (name, .slow n)) (s : LiveSession)
    (tree : TreeKey) (unread : Holder.Unread) (cursor : Nat) :
    ((sv.handleUnread id s tree unread cursor).sessions.find? id).map LiveSession.channel =
      (sv.sessions.find? id).map LiveSession.channel := by
  obtain ⟨meters, -, heq⟩ := sv.handleUnread_eq id s tree unread cursor
  rw [heq]
  dsimp only
  split
  · refine (channel_endSession (?_ : _ = some (name, Reader.slow n))).trans
      (channel_updateSession _ _ ?_)
    · exact hreader
    · exact fun _ => rfl
  · exact channel_updateSession _ _ fun _ => rfl

/-- What is emitted for a slow reader is put into the channel. -/
theorem channel_emitAll (messages : List Message) : ∀ {sv : Service} {s : LiveSession},
    sv.readerOf? id = some (name, .slow n) → sv.sessions.find? id = some s →
      ((sv.emitAll id messages).1.sessions.find? id).map LiveSession.channel =
        some (s.channel ++ sv.emitted id messages) := by
  induction messages with
  | nil =>
    intro sv s _ hs
    simp [Service.emitAll, emitted, hs]
  | cons m rest ih =>
    intro sv s hreader hs
    rw [Service.emitAll, emitted]
    by_cases hroom : s.channel.length < sv.channelCapacity
    · let put := ((sv.count (.messages m.kind)).stir).updateSession id
        fun s => { s with channel := s.channel ++ [m] }
      have hemit : sv.emit id m = (put, true) := by
        simp only [Service.emit, hreader, hs, hroom, if_true, put]
      have hput : put.sessions.find? id = some { s with channel := s.channel ++ [m] } := by
        refine find?_updateSession ?_ _
        exact hs
      have hstill : put.readerOf? id = some (name, .slow n) := hreader
      have hrest := ih hstill hput
      rw [hemit]
      rwa [List.append_assoc] at hrest
    · have hemit : sv.emit id m = (sv, false) := by
        simp only [Service.emit, hreader, hs, hroom, if_false]
      rw [hemit]
      simp [hs]

/-- A reader that takes messages at once stays one. -/
theorem readerOf?_deliver (hreader : sv.readerOf? id = some (name, reader))
    (hslow : ∀ n, reader ≠ .slow n) (m : Message) :
    ∃ reader', (sv.deliver name reader m).readerOf? id = some (name, reader') ∧
      (∀ n, reader' ≠ .slow n) ∧ reader'.hear = reader.hear := by
  cases reader with
  | poll session hijack keepalive =>
    simp only [Service.deliver]
    split
    · have hp := List.find?_some hreader
      exact ⟨.poll session hijack (keepalive.sent sv.time),
        Entries.listFind?_insert sv.readers.sorted hreader hp, by simp, rfl⟩
    · exact ⟨_, hreader, hslow, rfl⟩
  | _ => exact ⟨_, hreader, hslow, rfl⟩

theorem received_deliver (sv : Service) (name : String) (reader : Reader) (m : Message) :
    (sv.deliver name reader m).received =
      sv.received ++ ((reader.hear m).map fun m => (name, .message m)).toList := by
  cases reader with
  | poll session hijack keepalive =>
    simp only [Service.deliver, Reader.hear]
    cases hijack.project m with
    | some m => rfl
    | none => exact (List.append_nil _).symm
  | _ => rfl

/-- What is emitted for any other reader is received. -/
theorem received_emitAll (messages : List Message) : ∀ {sv : Service} {reader : Reader},
    sv.readerOf? id = some (name, reader) → (∀ n, reader ≠ .slow n) →
      (sv.emitAll id messages).1.received = sv.received ++
        (sv.emitted id messages).filterMap fun m =>
          (reader.hear m).map fun m => (name, .message m) := by
  induction messages with
  | nil => exact fun _ _ => (List.append_nil _).symm
  | cons m rest ih =>
    intro sv reader hreader hslow
    let counted := (sv.count (.messages m.kind)).stir
    have hemit : sv.emit id m = (counted.deliver name reader m, true) := by
      simp only [Service.emit, hreader, counted]
    have hstill : counted.readerOf? id = some (name, reader) := hreader
    obtain ⟨reader', hreader', hslow', hhear⟩ := readerOf?_deliver hstill hslow m
    have hrest := ih hreader' hslow'
    rw [Service.emitAll, emitted, hemit]
    dsimp only
    rw [hrest, received_deliver, hhear, List.filterMap_cons, List.append_assoc]
    cases reader.hear m <;> rfl

/-- What the log says of a step of a session shows at its reader: a slow one finds it in the
channel, any other one has received it. -/
structure Shows (sv : Service) (id : Nat) : Prop where
  slow : ∀ name n, sv.readerOf? id = some (name, .slow n) → ∀ s, sv.sessions.find? id = some s →
    ((sv.stepSession id).1.sessions.find? id).map LiveSession.channel =
      some (s.channel ++ sv.sentIn id)
  others : ∀ name reader, sv.readerOf? id = some (name, reader) → (∀ n, reader ≠ .slow n) →
    (sv.stepSession id).1.received = sv.received ++
      (sv.sentIn id).filterMap fun m => (reader.hear m).map fun m => (name, .message m)

theorem shows_stepSession (sv : Service) (id : Nat) : sv.Shows id := by
  have hstep := stepSession_stepped sv id
  constructor
  · intro name n hreader s hs
    generalize (sv.stepSession id).1 = sv', sv.sentIn id = sent at hstep ⊢
    cases hstep with
    | rests => rw [hs, Option.map_some, List.append_nil]
    | ends => rw [channel_endSession hreader, hs, Option.map_some, List.append_nil]
    | reads t => rw [channel_handleUnread hreader, hs, Option.map_some, List.append_nil]
    | emits t ht =>
      cases hs.symm.trans ht
      refine (channel_updateSession _ _ ?_).trans (channel_emitAll s.backlog hreader hs)
      exact fun _ => rfl
  · intro name reader hreader hslow
    generalize (sv.stepSession id).1 = sv', sv.sentIn id = sent at hstep ⊢
    cases hstep with
    | rests => exact (List.append_nil _).symm
    | ends => exact (received_endSession sv id).trans (List.append_nil _).symm
    | reads t => exact (received_handleUnread sv id t _ _ _).trans (List.append_nil _).symm
    | emits t ht => exact received_emitAll t.backlog hreader hslow

/-- Declarations move meters of the hub, and are made without regard to anything else there or to
readers. -/
theorem exists_runDeclarer (steps : Nat) : ∀ (sv : Service) (d : Declarer), ∃ meters backend,
    (sv.runDeclarer steps d).1 =
      { sv with hub := { sv.hub with meters := meters }, backend := backend } := by
  induction steps with
  | zero => exact fun sv _ => ⟨sv.hub.meters, sv.backend, rfl⟩
  | succ steps ih =>
    intro sv d
    rw [runDeclarer]
    split
    · exact ⟨_, sv.backend, rfl⟩
    · obtain ⟨meters, backend, heq⟩ := ih (sv.onBackend fun b => b.get d.path).1
        (d.onRead (sv.onBackend fun b => b.get d.path).2)
      exact ⟨meters, backend, heq⟩
    · rename_i value version _
      obtain ⟨meters, backend, heq⟩ := ih
        (sv.onBackend fun b => b.set d.path value (some version)).1
        (d.onWrite (sv.onBackend fun b => b.set d.path value (some version)).2)
      exact ⟨meters, backend, heq⟩

theorem exists_foldl_declare (consumer : Consumer) (suppliers : List (String × String)) :
    ∀ sv : Service, ∃ meters backend,
      suppliers.foldl (fun sv e => (sv.declare e.1 e.2 consumer).1) sv =
        { sv with hub := { sv.hub with meters := meters }, backend := backend } := by
  induction suppliers with
  | nil => exact fun sv => ⟨sv.hub.meters, sv.backend, rfl⟩
  | cons e rest ih =>
    intro sv
    obtain ⟨meters, backend, hfirst⟩ := exists_runDeclarer (2 * sv.backend.conflicts + 4) sv
      (Declarer.create e.1 e.2 consumer sv.settings.dependency.maxRetries)
    obtain ⟨meters', backend', hrest⟩ :=
      ih { sv with hub := { sv.hub with meters := meters }, backend := backend }
    refine ⟨meters', backend', ?_⟩
    rw [List.foldl_cons, declare, hfirst]
    exact hrest

theorem exists_declareAll (sv : Service) (session : Session) : ∃ meters backend,
    sv.declareAll session =
      { sv with hub := { sv.hub with meters := meters }, backend := backend } := by
  unfold declareAll
  split
  · split
    · exact exists_foldl_declare _ _ sv
    · exact ⟨sv.hub.meters, sv.backend, rfl⟩
  · exact ⟨sv.hub.meters, sv.backend, rfl⟩

/-- A slow reader is the same before and after messages are emitted. -/
theorem readerOf?_emitAll_slow (messages : List Message) : ∀ {sv : Service},
    sv.readerOf? id = some (name, .slow n) →
      (sv.emitAll id messages).1.readerOf? id = some (name, .slow n) := by
  induction messages with
  | nil => exact fun hreader => hreader
  | cons m rest ih =>
    intro sv hreader
    have hemit : (sv.emit id m).1.readerOf? id = some (name, .slow n) := by
      unfold Service.emit
      rw [hreader]
      dsimp only
      split
      · split <;> exact hreader
      · exact hreader
    rw [Service.emitAll]
    generalize sv.emit id m = r at hemit ⊢
    obtain ⟨put, _ | _⟩ := r
    · exact hemit
    · exact ih hemit

/-- Any other reader still hears the same after messages were emitted. -/
theorem readerOf?_emitAll (messages : List Message) : ∀ {sv : Service} {reader : Reader},
    sv.readerOf? id = some (name, reader) → (∀ n, reader ≠ .slow n) →
      ∃ reader', (sv.emitAll id messages).1.readerOf? id = some (name, reader') ∧
        (∀ n, reader' ≠ .slow n) ∧ reader'.hear = reader.hear := by
  induction messages with
  | nil => exact fun hreader hslow => ⟨_, hreader, hslow, rfl⟩
  | cons m rest ih =>
    intro sv reader hreader hslow
    let counted := (sv.count (.messages m.kind)).stir
    have hemit : sv.emit id m = (counted.deliver name reader m, true) := by
      simp only [Service.emit, hreader, counted]
    have hstill : counted.readerOf? id = some (name, reader) := hreader
    obtain ⟨first, hfirst, hslow', hhear⟩ := readerOf?_deliver hstill hslow m
    obtain ⟨last, hlast, hslow'', hhear'⟩ := ih hfirst hslow'
    rw [Service.emitAll, hemit]
    exact ⟨last, hlast, hslow'', hhear'.trans hhear⟩

/-- What a session sends when it starts shows at its reader, too: a slow one finds it in the
channel, any other one has received it. -/
def Greets (sv : Service) (l : Launching) (leases : SortedMap TreeKey Nat) : Prop :=
  let started := sv.startSession l leases
  (∃ name n, started.readerOf? sv.nextSession = some (name, .slow n) ∧
    (started.sessions.find? sv.nextSession).map LiveSession.channel =
      some (sv.greeting l leases)) ∨
  ∃ name reader, started.readerOf? sv.nextSession = some (name, reader) ∧
    (∀ n, reader ≠ .slow n) ∧
    started.received = sv.received ++
      (sv.greeting l leases).filterMap fun m => (reader.hear m).map fun m => (name, .message m)

theorem greets_startSession (sv : Service) (l : Launching) (leases : SortedMap TreeKey Nat) :
    sv.Greets l leases := by
  unfold Greets Service.startSession
  dsimp only
  generalize (Session.start l.request l.options.mode l.options.caller sv.policy
    (sv.replicasOf leases)).1 = session
  obtain ⟨⟨s, hs, hempty⟩, hreader, hreceived⟩ := sv.openSession_spec l session leases
  have hemitted := sv.emitted_greeting l session leases
  generalize sv.openSession l session leases = opened at hs hreader hreceived hemitted ⊢
  obtain ⟨meters, backend, hdeclared⟩ := exists_declareAll
    (opened.emitAll sv.nextSession (sv.greeting l leases)).1 session
  rw [hdeclared]
  obtain ⟨⟨name, reader⟩, hreader⟩ := Option.isSome_iff_exists.1 hreader
  by_cases hslow : ∃ n, reader = .slow n
  · obtain ⟨n, rfl⟩ := hslow
    have hchannel := channel_emitAll (sv.greeting l leases) hreader hs
    rw [hempty, hemitted] at hchannel
    exact .inl ⟨name, n, readerOf?_emitAll_slow _ hreader, hchannel⟩
  · have hslow : ∀ n, reader ≠ .slow n := fun n heq => hslow ⟨n, heq⟩
    obtain ⟨reader', hreader', hslow', hhear⟩ := readerOf?_emitAll (sv.greeting l leases) hreader
      hslow
    have hheard := received_emitAll (sv.greeting l leases) hreader hslow
    rw [hemitted, hreceived, ← hhear] at hheard
    exact .inr ⟨name, reader', hreader', hslow', hheard⟩

end Service

end Treecast
