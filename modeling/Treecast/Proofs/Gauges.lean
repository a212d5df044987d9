import Treecast.Proofs.Emissions
import Treecast.Proofs.SessionLeases

/-!
# What the gauges tell

Three things are told by the meters of a service at any time: how many holders are registered, how
many sessions run, and how many messages of each kind were put into the channels of sessions.  The
first is read from the registry whenever it changes.  The others are kept by hand, one more where a
session starts or a message finds room and one less where a session ends, and so they are right only
if nothing else touches them and no session ends twice or goes away before it has ended.

The messages that were put into channels are nowhere in the state, so a logbook is kept of them.

## Results

* `Service.Truthful`: the meters tell the truth.
* `Service.Truthful.openSession`, `Service.Truthful.endSession`, `Service.Truthful.emitAll`: the
  places where the meters of sessions move.
* `Service.Truthful.act`, `Service.Truthful.occur`: whatever happens, the meters tell the truth.
* `Service.truthful_run`: they do in every run.
-/

set_option autoImplicit false

namespace Treecast

open Routing

namespace Service

/-! ## What is to be told -/

/-- How many sessions run: they were started and have not ended. -/
def running (sv : Service) : Nat := sv.sessions.values.countP fun s => !s.ended

/-- The meters tell the truth, when so many messages were sent. -/
structure Truthful (sv : Service) (sent : List Message) : Prop where
  holders : sv.hub.Gauged
  watchers : sv.hub.meters.get .watchers = sv.running
  messages : ∀ kind, sv.hub.meters.get (.messages kind) = sent.countP fun m => m.kind == kind

variable {sv sv' : Service} {S S' : Claims} {sent : List Message} {id : Nat} {s : LiveSession}

theorem truthful_create (settings : ServiceSettings) (policy : Policy) (store : Store) :
    (create settings policy store).Truthful [] where
  holders := Hub.gauged_create settings.hub
  watchers := rfl
  messages _ := rfl

/-- As long as the hub is quiet and no more and no fewer sessions run, the truth stays the same. -/
theorem Truthful.quiet (hT : sv.Truthful sent) (hquiet : sv.hub.Quiet sv'.hub)
    (hrunning : sv'.running = sv.running) : sv'.Truthful sent where
  holders := hquiet.gauged hT.holders
  watchers := by
    rw [hquiet.sessions .watchers rfl, hrunning]
    exact hT.watchers
  messages kind := (hquiet.sessions (.messages kind) rfl).trans (hT.messages kind)

/-- Where nothing is sent, the log stays the same. -/
theorem Truthful.silent (hT : sv.Truthful sent) : sv.Truthful (sent ++ []) :=
  (List.append_nil sent).symm ▸ hT

theorem running_of_sessions_eq (hsessions : sv'.sessions = sv.sessions) :
    sv'.running = sv.running := by
  rw [running, hsessions, running]

/-- What has nothing to do with the hub and the sessions. -/
theorem Truthful.of_eq (hT : sv.Truthful sent) (hhub : sv'.hub = sv.hub)
    (hsessions : sv'.sessions = sv.sessions) : sv'.Truthful sent :=
  hT.quiet (hhub ▸ .refl sv.hub) (running_of_sessions_eq hsessions)

theorem Truthful.onHub (hT : sv.Truthful sent) {h : Hub} (hquiet : sv.hub.Quiet h) :
    Truthful { sv with hub := h } sent :=
  hT.quiet hquiet rfl

/-- A trade changes nothing of it. -/
theorem Truthful.trade (hT : sv.Truthful sent) (ht : Trade sv S sv' S') : sv'.Truthful sent :=
  hT.quiet ht.quiet (running_of_sessions_eq ht.sessions)

/-! ## Counting the sessions that run -/

theorem running_of_find? (hs : sv.sessions.find? id = some s) :
    sv.running = running { sv with sessions := sv.sessions.erase id } +
      if s.ended then 0 else 1 := by
  rw [running, SortedMap.countP_values_of_find? hs, running]
  cases s.ended <;> rfl

theorem running_insert (sv : Service) (id : Nat) (s : LiveSession) :
    running { sv with sessions := sv.sessions.insert id s } =
      running { sv with sessions := sv.sessions.erase id } + if s.ended then 0 else 1 := by
  rw [running, SortedMap.countP_values_insert, running]
  cases s.ended <;> rfl

theorem running_updateSession (hs : sv.sessions.find? id = some s)
    (f : LiveSession → LiveSession) :
    (sv.updateSession id f).running = running { sv with sessions := sv.sessions.erase id } +
      if (f s).ended then 0 else 1 := by
  rw [updateSession, SortedMap.modify_of_find? hs, SortedMap.insert_erase]
  exact running_insert sv id (f s)

/-- A change that no session ends by. -/
theorem Truthful.updateSession (hT : sv.Truthful sent) {f : LiveSession → LiveSession}
    (hf : ∀ s, sv.sessions.find? id = some s → (f s).ended = s.ended) :
    (sv.updateSession id f).Truthful sent := by
  refine hT.quiet (.refl sv.hub) ?_
  cases hs : sv.sessions.find? id with
  | none => rw [Service.updateSession, SortedMap.modify_of_find?_eq_none hs]
  | some s => rw [running_updateSession hs, hf s hs, ← running_of_find? hs]

/-- An ended session may go. -/
theorem Truthful.bury (hT : sv.Truthful sent) (hs : sv.sessions.find? id = some s)
    (hended : s.ended = true) :
    Truthful { sv with sessions := sv.sessions.erase id } sent := by
  refine hT.quiet (.refl sv.hub) ?_
  rw [running_of_find? hs, if_pos hended, Nat.add_zero]

/-! ## Starts and ends -/

/-- A session more runs, and is counted. -/
theorem Truthful.started (hT : sv.Truthful sent) (hquiet : sv.hub.Quiet sv'.hub)
    (hmore : sv'.running = sv.running + 1) : (sv'.count .watchers).Truthful sent where
  holders := by
    simp only [Hub.Gauged, Service.count, Hub.count, Meters.get_count, reduceCtorEq, if_false]
    exact hquiet.gauged hT.holders
  watchers := by
    have hbefore := (hquiet.sessions .watchers rfl).trans hT.watchers
    have hsame : (sv'.count .watchers).running = sv'.running := rfl
    simp only [Service.count, Hub.count, Meters.get_count, if_true] at hsame ⊢
    omega
  messages kind := by
    simp only [Service.count, Hub.count, Meters.get_count, reduceCtorEq, if_false]
    exact (hquiet.sessions (.messages kind) rfl).trans (hT.messages kind)

/-- A session fewer runs, and its end was counted. -/
theorem Truthful.stopped (hT : sv.Truthful sent)
    (hquiet : Hub.Quiet { sv.hub with meters := sv.hub.meters.discount .watchers } sv'.hub)
    (hfewer : sv'.running + 1 = sv.running) : sv'.Truthful sent where
  holders := by
    refine hquiet.gauged ?_
    simp only [Hub.Gauged, Meters.get_discount, reduceCtorEq, if_false]
    exact hT.holders
  watchers := by
    have hbefore := hT.watchers
    have hafter := hquiet.sessions .watchers rfl
    simp only [Meters.get_discount, if_true] at hafter
    omega
  messages kind := by
    have hafter := hquiet.sessions (.messages kind) rfl
    simp only [Meters.get_discount, reduceCtorEq, if_false] at hafter
    exact hafter.trans (hT.messages kind)

/-- **A session that ends** is counted once, whether it stays for its reader or goes. -/
theorem Truthful.endSession (hT : sv.Truthful sent) (hs : sv.sessions.find? id = some s)
    (hrunning : s.ended = false) : (sv.endSession id).Truthful sent := by
  have hcount := running_of_find? hs
  rw [hrunning, if_neg Bool.false_ne_true] at hcount
  have hdrop := (dropLeases_trade s.leases.toList
    { sv with hub := { sv.hub with meters := sv.hub.meters.discount .watchers } }).stir
  have hvalues : s.leases.values = s.leases.toList.map Prod.snd := rfl
  unfold Service.endSession
  rw [hs]
  dsimp only
  rw [hvalues]
  generalize (List.foldl _ _ _ : Service).stir = dropped at hdrop ⊢
  have hstill : dropped.sessions.find? id = some s := hdrop.sessions ▸ hs
  have hgone : running { dropped with sessions := dropped.sessions.erase id } + 1 =
      sv.running := by
    rw [hcount]
    simp only [running, hdrop.sessions]
  split
  · refine hT.stopped hdrop.quiet ?_
    rw [running_updateSession hstill]
    exact hgone
  · exact hT.stopped hdrop.quiet hgone
  · exact hT.stopped hdrop.quiet hgone

/-- The session of a reader that goes away ends later, or has ended before. -/
theorem Truthful.dropReader (hT : sv.Truthful sent) (name : String) :
    (sv.dropReader name).1.Truthful sent := by
  have hcases := sv.dropReader_cases name
  generalize (sv.dropReader name).1 = left at hcases ⊢
  cases hcases with
  | gone ht => exact hT.trade (ht 0)
  | buried ht hs hended => exact (hT.trade (ht 0)).bury hs hended
  | told ht id => exact (hT.trade (ht 0)).updateSession fun _ _ => rfl

/-- A session that is there is counted once. -/
theorem Truthful.openSession (hT : sv.Truthful sent) (hA : sv.Accounted S) (l : Launching)
    (session : Session) (leases : SortedMap TreeKey Nat) :
    (sv.openSession l session leases).Truthful sent := by
  have hdropped := hT.dropReader l.outlet.reader
  obtain ⟨haccounted, hnext⟩ := hA.dropReader l.outlet.reader
  unfold Service.openSession
  dsimp only
  generalize sv.dropReader l.outlet.reader = r at hdropped haccounted hnext ⊢
  -- the number of the session is new, so that it takes nobody's place
  have hnew : r.1.sessions.find? sv.nextSession = none := hnext ▸ haccounted.find?_next
  have hput : ∀ (put : Service) (live : LiveSession), put.hub = r.1.hub →
      put.sessions = r.1.sessions.insert sv.nextSession live → live.ended = false →
        ((put.count .watchers).stir).Truthful sent := by
    intro put live hhub hsessions hlive
    have hmore : put.running = r.1.running + 1 := by
      have hinserted := running_insert r.1 sv.nextSession live
      rw [SortedMap.erase_of_find?_eq_none hnew, if_neg (by simp [hlive])] at hinserted
      rw [running, hsessions]
      exact hinserted
    exact (hdropped.started (hhub ▸ .refl _) hmore).of_eq rfl rfl
  exact hput _ _ rfl rfl rfl

/-! ## Messages -/

/-- A message that finds room is counted by its kind. -/
theorem Truthful.counted (hT : sv.Truthful sent) (m : Message) :
    (sv.count (.messages m.kind)).Truthful (sent ++ [m]) where
  holders := by
    simp only [Hub.Gauged, Service.count, Hub.count, Meters.get_count, reduceCtorEq, if_false]
    exact hT.holders
  watchers := by
    simp only [Service.count, Hub.count, Meters.get_count, reduceCtorEq, if_false]
    exact hT.watchers
  messages kind := by
    have hbefore := hT.messages kind
    simp only [Service.count, Hub.count, Meters.get_count, Meter.messages.injEq,
      List.countP_append, List.countP_singleton, beq_iff_eq]
    by_cases hkind : kind = m.kind
    · rw [if_pos hkind, if_pos hkind.symm, hbefore]
    · rw [if_neg hkind, if_neg (Ne.symm hkind), hbefore, Nat.add_zero]

theorem Truthful.emit (hT : sv.Truthful sent) (id : Nat) (m : Message) :
    (sv.emit id m).1.Truthful (sent ++ if (sv.emit id m).2 then [m] else []) := by
  have hcounted : ((sv.count (.messages m.kind)).stir).Truthful (sent ++ [m]) :=
    (hT.counted m).of_eq rfl rfl
  have hkept : sv.Truthful (sent ++ []) := hT.silent
  unfold Service.emit
  dsimp only
  split
  · split
    · split
      · exact hcounted.updateSession fun _ _ => rfl
      · exact hkept
    · exact hkept
  · exact hcounted.trade (deliver_trade _ _ _ _ 0)
  · exact hkept

/-- **Messages that are emitted** are counted as far as they find room. -/
theorem Truthful.emitAll (id : Nat) (messages : List Message) :
    ∀ {sv : Service} {sent : List Message}, sv.Truthful sent →
      (sv.emitAll id messages).1.Truthful (sent ++ sv.emitted id messages) := by
  induction messages with
  | nil => exact fun hT => hT.silent
  | cons m rest ih =>
    intro sv sent hT
    have hemit := hT.emit id m
    rw [Service.emitAll, emitted]
    generalize sv.emit id m = r at hemit ⊢
    obtain ⟨put, _ | _⟩ := r
    · exact hemit
    · have hrest := ih hemit
      rwa [if_pos rfl, List.append_assoc] at hrest

/-- **A session that starts** is counted, and so is what it sends. -/
theorem Truthful.startSession (hT : sv.Truthful sent) (hA : sv.Accounted S) (l : Launching)
    (leases : SortedMap TreeKey Nat) :
    (sv.startSession l leases).Truthful (sent ++ sv.greeting l leases) := by
  have hopened := hT.openSession hA l (Session.start l.request l.options.mode l.options.caller
    sv.policy (sv.replicasOf leases)).1 leases
  have hgreeted := Truthful.emitAll sv.nextSession (sv.greeting l leases) hopened
  rw [emitted_greeting] at hgreeted
  exact hgreeted.trade (declareAll_trade _ _ 0)

/-! ## The work of a session -/

theorem Truthful.handleUnread (hT : sv.Truthful sent) (hs : sv.sessions.find? id = some s)
    (hrunning : s.ended = false) (tree : TreeKey) (unread : Holder.Unread) (cursor : Nat) :
    (sv.handleUnread id s tree unread cursor).Truthful sent := by
  obtain ⟨meters, hquiet, heq⟩ := sv.handleUnread_eq id s tree unread cursor
  rw [heq]
  dsimp only
  generalize s.session.react (sv.replicasOf s.leases) sv.policy tree unread = r
  have hread : (Service.updateSession { sv with hub := { sv.hub with meters := meters } } id
      fun s => { s with session := r.session, cursors := s.cursors.insert tree cursor,
                        backlog := r.messages }).Truthful sent :=
    (hT.onHub hquiet).updateSession fun _ _ => rfl
  split
  · refine hread.endSession (find?_updateSession ?_ _) hrunning
    exact hs
  · exact hread.of_eq rfl rfl

/-- **A step of a session**: what it puts into its channel is counted, and its end. -/
theorem Truthful.stepSession (hT : sv.Truthful sent) (id : Nat) :
    (sv.stepSession id).1.Truthful (sent ++ sv.sentIn id) := by
  have hstep := stepSession_stepped sv id
  generalize (sv.stepSession id).1 = sv', sv.sentIn id = put at hstep ⊢
  cases hstep with
  | rests => exact hT.silent
  | ends s hs hrunning => exact (hT.endSession hs hrunning).silent
  | reads s hs hrunning _ tree unread cursor =>
    exact (hT.handleUnread hs hrunning tree unread cursor).silent
  | emits s hs hrunning =>
    exact (Truthful.emitAll id s.backlog hT).updateSession fun _ _ => rfl

/-! ## Runs -/

/-- What can happen, with what is counted besides. -/
inductive Event where
  | act (a : Act)
  /-- A client opens a long poll, whose routes may be forced. -/
  | openPoll (name : String) (body : List UInt8) (query : PollQuery) (headers : PollHeaders)
  /-- The periodic sweep comes by if it is due, and may fail. -/
  | tick

/-- An event happens. -/
def occur (sv : Service) : Event → Service
  | .act a => sv.act a
  | .openPoll name body query headers => (sv.openPoll name body query headers).1
  | .tick => sv.sweepIfDue

/-- The messages that a session puts into its channel as it starts, if all its leases are held. -/
def sentAtLaunch (sv : Service) (l : Launching) : List Message :=
  match sv.pollParts l.parts with
  | (_, .error _) => []
  | (sv, .ok parts) =>
    match heldLeases? parts with
    | some leases => sv.greeting l leases
    | none => []

/-- The messages that a long poll puts into its channel as it starts. -/
def sentAtPoll (sv : Service) (h : Hijack) (poll : Poll) (reader : String) : List Message :=
  match h.extendRequest poll.request with
  | (_, some _) => []
  | (request, none) => sv.sentAtLaunch (launching poll.options request (.poll reader h) none)

/-- The messages that are put into channels when a task is looked at. -/
def sentAtLook (sv : Service) : Task → List Message
  | .launch l => sv.sentAtLaunch l
  | .poll p poll reader =>
    match sv.goOn p with
    | (_, .inl _) => []
    | (sv, .inr h) => sv.sentAtPoll h poll reader
  | _ => []

/-- The messages that are put into channels at an event. -/
def sentBy (sv : Service) : Event → List Message
  | .act (.stepSession id) => sv.sentIn id
  | .act (.look i) =>
    match sv.jobs[i]? with
    | some job => sentAtLook { sv with jobs := sv.jobs.eraseIdx i } job.task
    | none => []
  | _ => []

/-- A service with all messages that were put into channels so far. -/
structure Logbook where
  service : Service
  sent : List Message

def Logbook.note (b : Logbook) (e : Event) : Logbook :=
  ⟨b.service.occur e, b.sent ++ b.service.sentBy e⟩

def Logbook.keep (b : Logbook) (events : List Event) : Logbook := events.foldl note b

theorem Truthful.addJob (hT : sv.Truthful sent) (name : String) (task : Task) :
    (sv.addJob name task).1.Truthful sent := hT.of_eq rfl rfl

theorem Truthful.sweep (hT : sv.Truthful sent) : sv.sweep.1.Truthful sent :=
  hT.quiet (Hub.quiet_sweep sv.hub _ sv.settings.cleaner sv.settings.condition) rfl

theorem Truthful.nameLease (hT : sv.Truthful sent) (name : String) (lease : Nat) :
    (sv.nameLease name lease).Truthful sent := by
  have hnamed : Truthful { sv with leaseNames := sv.leaseNames.insert name lease } sent :=
    hT.of_eq rfl rfl
  unfold Service.nameLease
  dsimp only
  split
  · exact hnamed.trade (dropLease_trade _ _ none)
  · exact hnamed

theorem Truthful.pollLaunch {l : Launching} (hT : sv.Truthful sent)
    (hA : sv.Accounted (claimsOfParts l.parts + S)) :
    (sv.pollLaunch l).1.Truthful (sent ++ sv.sentAtLaunch l) := by
  have htrade := pollParts_trade sv l.parts
  have hpolled := hT.trade htrade
  have haccounted := hA.trade (htrade.beside S)
  unfold Service.pollLaunch sentAtLaunch
  generalize sv.pollParts l.parts = r at hpolled haccounted ⊢
  obtain ⟨polled, _ | parts⟩ := r
  · exact (hpolled.trade (freeWatcher_trade polled l.watcher 0)).silent
  · dsimp only
    cases heldLeases? parts with
    | some leases =>
      exact (hpolled.startSession haccounted l leases).trade (freeWatcher_trade _ l.watcher 0)
    | none => exact hpolled.silent

theorem Truthful.pollPrepared (hT : sv.Truthful sent) (hA : sv.Accounted S) (h : Hijack)
    (poll : Poll) (reader : String) :
    (sv.pollPrepared h poll reader).1.Truthful (sent ++ sv.sentAtPoll h poll reader) := by
  unfold Service.pollPrepared sentAtPoll
  generalize h.extendRequest poll.request = extended
  obtain ⟨request, _ | fault⟩ := extended
  · refine hT.pollLaunch (S := S) ?_
    rw [launching, claimsOfParts_open, Multiset.zero_add]
    exact hA
  · exact hT.silent

theorem Truthful.pollLease (hT : sv.Truthful sent) (name : String) (call : Nat) :
    (sv.pollLease name call).1.Truthful sent := by
  have hpolled := hT.trade (pollCall_trade sv call none)
  unfold Service.pollLease
  generalize sv.pollCall call = r at hpolled ⊢
  obtain ⟨polled, _ | _ | lease⟩ := r
  · exact hpolled
  · exact hpolled
  · dsimp only
    split
    · exact hpolled
    · exact hpolled.nameLease name lease

/-- **A look at a task** counts a session if one is started, and what that sends. -/
theorem Truthful.pollTask {task : Task} (hT : sv.Truthful sent)
    (hA : sv.Accounted (task.claims + S)) (ht : task.Sound) :
    (sv.pollTask task).1.Truthful (sent ++ sv.sentAtLook task) := by
  cases task with
  | lease name call => exact (hT.pollLease name call).silent
  | holderStart ref =>
    have hstarted := hT.trade (startHolder_trade sv ref 0)
    rw [Service.pollTask]
    generalize sv.startHolder ref = r at hstarted ⊢
    obtain ⟨started, _ | _⟩ := r <;> exact hstarted.silent
  | holderWait ref deadline limit => exact hT.silent
  | launch l => exact hT.pollLaunch hA
  | prepare p request =>
    have hwent := hT.trade (goOn_trade sv ht).1
    rw [Service.pollTask]
    generalize sv.goOn p = r at hwent ⊢
    obtain ⟨went, p | h⟩ := r <;> exact hwent.silent
  | poll p poll reader =>
    have htrade := (goOn_trade sv ht).1
    have hwent := hT.trade htrade
    have haccounted := hA.trade (htrade.beside S)
    rw [Service.pollTask, sentAtLook]
    generalize sv.goOn p = r at hwent haccounted ⊢
    obtain ⟨went, p | h⟩ := r
    · exact hwent.silent
    · rw [claimsOfPreparing, Multiset.zero_add] at haccounted
      exact hwent.pollPrepared haccounted h poll reader

theorem Truthful.pollJob {job : Job} (hT : sv.Truthful sent)
    (hA : sv.Accounted (job.task.claims + S)) (hjob : job.task.Sound) :
    (sv.pollJob job).Truthful (sent ++ sv.sentAtLook job.task) := by
  have hpolled := hT.pollTask hA hjob
  unfold Service.pollJob
  generalize sv.pollTask job.task = r at hpolled ⊢
  obtain ⟨polled, task | result⟩ := r <;> exact hpolled.of_eq rfl rfl

theorem Truthful.lease (hT : sv.Truthful sent) (name : String) (key : TreeKey) :
    (sv.lease name key).1.Truthful sent := by
  have hcalled := hT.trade (callFor_trade sv key)
  unfold Service.lease
  generalize sv.callFor key = r at hcalled ⊢
  obtain ⟨called, _ | call⟩ := r
  · exact hcalled
  · exact hcalled.addJob name _

theorem Truthful.releaseLease (hT : sv.Truthful sent) (name : String) :
    (sv.releaseLease name).1.Truthful sent := by
  unfold Service.releaseLease
  split
  · rename_i lease _
    exact hT.trade (releaseLease_trade sv lease none).stir
  · exact hT

theorem Truthful.dropNamedLease (hT : sv.Truthful sent) (name : String) :
    (sv.dropNamedLease name).1.Truthful sent := by
  unfold Service.dropNamedLease
  split
  · rename_i lease _
    have hgone : Truthful { sv with leaseNames := sv.leaseNames.erase name } sent :=
      hT.of_eq rfl rfl
    exact hgone.trade (dropLease_trade _ lease none)
  · exact hT

theorem Truthful.takeJob (hT : sv.Truthful sent) (i : Nat) :
    Truthful { sv with jobs := sv.jobs.eraseIdx i } sent := hT.of_eq rfl rfl

/-- **Whatever happens**, the meters tell the truth. -/
theorem Truthful.act (hT : sv.Truthful sent) (hA : sv.Accounted 0) (a : Act) :
    (sv.act a).Truthful (sent ++ sv.sentBy (.act a)) := by
  cases a with
  | lease name key => exact (hT.lease name key).silent
  | releaseLease name => exact (hT.releaseLease name).silent
  | dropNamedLease name => exact (hT.dropNamedLease name).silent
  | start name start => exact (hT.addJob name start.task).silent
  | look i =>
    rw [Service.act, sentBy]
    cases hjob : sv.jobs[i]? with
    | some job =>
      exact (hT.takeJob i).pollJob (hA.takeJob hjob) (hA.jobs job (List.mem_of_getElem? hjob))
    | none => exact hT.silent
  | lookAtPart i part =>
    refine silent ?_
    rw [Service.act]
    split
    · rename_i id name l _
      exact ((hT.takeJob i).trade (pollPartAt_trade _ l part)).of_eq rfl rfl
    · exact hT
  | drop i =>
    refine silent ?_
    rw [Service.act]
    split
    · rename_i job _
      exact (hT.takeJob i).trade (dropTask_trade _ job.task)
    · exact hT
  | stepSession id => exact hT.stepSession id
  | touch id f =>
    refine silent (hT.updateSession ?_)
    exact fun _ _ => rfl
  | bury id =>
    refine silent ?_
    rw [Service.act]
    split
    · rename_i s hs
      split
      · rename_i hended
        exact hT.bury hs hended
      · exact hT
    · exact hT
  | dropReader name => exact (hT.dropReader name).silent
  | sweep => exact hT.sweep.silent
  | evict key => exact (hT.onHub (Hub.quiet_tryEvict sv.hub key)).silent
  | evictFailed key holder => exact (hT.onHub (Hub.quiet_evictFailed sv.hub key holder)).silent
  | change ref f => exact (hT.trade (updateHolder_trade sv ref f 0)).silent
  | closeAll => exact (hT.onHub (Hub.quiet_closeAll sv.hub)).silent
  | elsewhere f => exact silent (hT.of_eq rfl rfl)

theorem Truthful.openPoll (hT : sv.Truthful sent) (name : String) (body : List UInt8)
    (query : PollQuery) (headers : PollHeaders) :
    (sv.openPoll name body query headers).1.Truthful sent := by
  unfold Service.openPoll
  generalize Poll.ofParts sv.policy body query headers = r
  obtain ⟨forced, read⟩ := r
  have hcounted := hT.trade (foldl_trade
    (fun sv _ => count_trade sv .forceRouted rfl nofun 0) (List.range forced) sv)
  cases read with
  | error fault => exact hcounted
  | ok poll => exact hcounted.addJob name _

theorem Accounted.openPoll (hA : sv.Accounted 0) (name : String) (body : List UInt8)
    (query : PollQuery) (headers : PollHeaders) :
    (sv.openPoll name body query headers).1.Accounted 0 := by
  unfold Service.openPoll
  generalize Poll.ofParts sv.policy body query headers = r
  obtain ⟨forced, read⟩ := r
  have hcounted := hA.trade (foldl_trade
    (fun sv _ => count_trade sv .forceRouted rfl nofun 0) (List.range forced) sv)
  cases read with
  | error fault => exact hcounted
  | ok poll => exact hcounted.act (.start name (.poll poll name))

theorem Truthful.sweepIfDue (hT : sv.Truthful sent) : sv.sweepIfDue.Truthful sent := by
  unfold Service.sweepIfDue
  split
  · rename_i every next _
    split
    · have hset : Truthful { sv with sweeper := .running every (next + every) } sent :=
        hT.of_eq rfl rfl
      have hswept := hset.sweep
      generalize Service.sweep _ = r at hswept ⊢
      obtain ⟨swept, _ | _⟩ := r
      · exact hswept.trade (count_trade swept .sweepFailures rfl nofun 0)
      · exact hswept
    · exact hT
  · exact hT

theorem Accounted.sweepIfDue (hA : sv.Accounted 0) : sv.sweepIfDue.Accounted 0 := by
  unfold Service.sweepIfDue
  split
  · rename_i every next _
    split
    · have hset : Accounted { sv with sweeper := .running every (next + every) } 0 :=
        hA.trade (.of_eq rfl ⟨rfl, rfl, rfl, rfl⟩)
      have hswept := hset.act .sweep
      rw [Service.act] at hswept
      generalize Service.sweep _ = r at hswept ⊢
      obtain ⟨swept, _ | _⟩ := r
      · exact hswept.count .sweepFailures
      · exact hswept
    · exact hA
  · exact hA

/-- **An event** keeps the accounts and the truth. -/
theorem Truthful.occur (hT : sv.Truthful sent) (hA : sv.Accounted 0) (e : Event) :
    (sv.occur e).Truthful (sent ++ sv.sentBy e) ∧ (sv.occur e).Accounted 0 := by
  cases e with
  | act a => exact ⟨hT.act hA a, hA.act a⟩
  | openPoll name body query headers =>
    exact ⟨(hT.openPoll name body query headers).silent,
      hA.openPoll name body query headers⟩
  | tick => exact ⟨hT.sweepIfDue.silent, hA.sweepIfDue⟩

/-- **The meters tell the truth.**  In every run of a hub the meter of the holders reads how many
are registered.  In every run of a service it does too; the meter of the sessions reads how many
were started and have not ended, and the meter of each kind of message how many of that kind were
put into channels.  That is what a slow reader finds in its channel, and what any other one has
received, at a step of a session and, whatever the service is like then, at its start. -/
theorem truthful_run (sweeps : SweepSettings) (hub : HubSettings) (acts : List Hub.Act)
    (settings : ServiceSettings) (policy : Policy) (store : Store) (events : List Event) :
    let b := Logbook.keep ⟨create settings policy store, []⟩ events
    ((Hub.create hub).run sweeps acts).Gauged ∧
      b.service.Truthful b.sent ∧ (∀ id, b.service.Shows id) ∧
        ∀ (sv : Service) (l : Launching) (leases : SortedMap TreeKey Nat), sv.Greets l leases := by
  have hrun : ∀ (events : List Event) (b : Logbook), b.service.Truthful b.sent →
      b.service.Accounted 0 → (b.keep events).service.Truthful (b.keep events).sent := by
    intro events
    induction events with
    | nil => exact fun b hT _ => hT
    | cons e rest ih =>
      intro b hT hA
      obtain ⟨hT', hA'⟩ := hT.occur hA e
      exact ih (b.note e) hT' hA'
  exact ⟨Hub.gauged_run sweeps hub acts,
    hrun events _ (truthful_create settings policy store) (accounted_create settings policy store),
    shows_stepSession _, greets_startSession⟩

/-- A client starts a session on one tree and reads the first message. -/
def greeted : List Event :=
  [.act (.start "client" (.session ⟨true, none, none, .orig⟩
      ⟨SortedMap.ofList [(⟨.service, "shop"⟩, ⟨SortedMap.empty, SortedMap.empty, false⟩)]⟩
      (.slow "client") none)),
    .act (.look 0), .act (.change (.ofHub 0) fun holder => holder.handleAll [.initialized]),
    .act (.look 0)]

/-- While the session runs, it is counted with its holder and its message; when it has ended, the
message stays counted, and the holder until it is evicted. -/
example :
    let b := Logbook.keep ⟨create smallSettings .standard Store.empty, []⟩ greeted
    let left := b.keep [.act (.dropReader "client"), .act (.stepSession 0)]
    b.service.hub.meters.nonzero =
        [("holders", 1), ("init_samples", 1), ("messages.all", 1), ("watchers", 1)] ∧
      b.sent.map Message.kind = [.all] ∧
      left.service.hub.meters.nonzero =
        [("holders", 1), ("init_samples", 1), ("messages.all", 1)] := by
  decide +kernel

end Service

end Treecast
