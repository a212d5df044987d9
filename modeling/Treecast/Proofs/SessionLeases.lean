import Treecast.Service.Actions
import Treecast.Proofs.Accounts

/-!
# Leases over whole runs

Clients call for leases, start sessions and long polls and have hijacks prepared; calls end, fail or
are dropped at any moment; leases are released and dropped, sessions end, sweeps come by, holders
close.  All of that may happen in any order, with anything else that happens in the process in
between.  The counts of the hub are right all the while, so that no eviction closes a holder that
somebody has a lease on.

## Results

* `Service.Accounted.act`, `Service.accounted_run`: the accounts are right in every run.
* `Service.Exact`: what that says of leases, sessions and evictions.
* `Service.exact_run`: it holds in every run of a hub and of a service.
-/

set_option autoImplicit false

namespace Treecast.Service

open Routing

/-! ## What can happen -/

/-- What can be begun as a job. -/
inductive Start where
  | session (options : WatchOptions) (request : Request) (outlet : Outlet)
      (watcher : Option String)
  | preparation (hijack : Hijack) (request : Request)
  | poll (poll : Poll) (reader : String)
  | holder (ref : HolderRef)
  | wait (ref : HolderRef) (deadline limit : Nat)

/-- The task at its start. -/
def Start.task : Start → Task
  | .session options request outlet watcher => .launch (launching options request outlet watcher)
  | .preparation hijack request => .prepare (preparationOf hijack request) request
  | .poll p reader => .poll (preparationOf p.hijack p.request) p reader
  | .holder ref => .holderStart ref
  | .wait ref deadline limit => .holderWait ref deadline limit

/-- Looks at one of the leases that the start of a session waits for. -/
def pollPartAt (sv : Service) (l : Launching) (i : Nat) : Service × Launching :=
  match l.parts.drop i with
  | [] => (sv, l)
  | p :: rest =>
    let (sv, p) := sv.pollPart p
    (sv, { l with parts := l.parts.take i ++ p :: rest })

/-- Drops a call that was not waited for to the end. -/
def dropCall (sv : Service) (call : Nat) : Service := sv.onHub' fun h now => h.abandon now call

/-- Drops what is owned while a destination is prepared. -/
def dropStage (sv : Service) : PrepareStage → Service
  | .begin_ => sv
  | .callerTree call => sv.dropCall call
  | .destinationTree callerLease call => (sv.dropCall call).dropLease callerLease

/-- Drops a task that still waits. -/
def dropTask (sv : Service) : Task → Service
  | .lease _ call => sv.dropCall call
  | .holderStart _ | .holderWait _ _ _ => sv
  | .launch l => l.parts.foldl dropPart sv
  | .prepare p _ | .poll p _ _ => sv.dropStage p.stage

/-- What can happen in a service, one thing at a time. -/
inductive Act where
  /-- A client calls for a lease, which will have a name. -/
  | lease (name : String) (key : TreeKey)
  | releaseLease (name : String)
  | dropNamedLease (name : String)
  /-- Something is begun that may have to wait. -/
  | start (name : String) (start : Start)
  /-- A job is looked at. -/
  | look (job : Nat)
  /-- Of a job that waits for several leases, one is looked at. -/
  | lookAtPart (job part : Nat)
  /-- A job is dropped while it waits. -/
  | drop (job : Nat)
  | stepSession (session : Nat)
  /-- Something about a session changes, but neither what it reads nor its leases: a message is
  taken from its channel, or it is told to end. -/
  | touch (session : Nat) (f : LiveSession → LiveSession)
  /-- A session has ended and its last message was taken. -/
  | bury (session : Nat)
  | dropReader (name : String)
  | sweep
  | evict (key : TreeKey)
  /-- After a call has failed, its holder is evicted if nothing speaks against it. -/
  | evictFailed (key : TreeKey) (holder : Nat)
  /-- A writer applies events, or a holder closes. -/
  | change (holder : HolderRef) (f : Holder → Holder)
  | closeAll
  /-- Anything else: the store, the clocks, the settings, the readers may change. -/
  | elsewhere (f : Service → Service)

/-- Something happens. -/
def act (sv : Service) : Act → Service
  | .lease name key => (sv.lease name key).1
  | .releaseLease name => (sv.releaseLease name).1
  | .dropNamedLease name => (sv.dropNamedLease name).1
  | .start name start => (sv.addJob name start.task).1
  | .look i =>
    match sv.jobs[i]? with
    | some job => { sv with jobs := sv.jobs.eraseIdx i }.pollJob job
    | none => sv
  | .lookAtPart i part =>
    match sv.jobs[i]? with
    | some ⟨id, name, .launch l⟩ =>
      let (sv, l) := { sv with jobs := sv.jobs.eraseIdx i }.pollPartAt l part
      { sv with jobs := sv.jobs ++ [⟨id, name, .launch l⟩] }
    | _ => sv
  | .drop i =>
    match sv.jobs[i]? with
    | some job => { sv with jobs := sv.jobs.eraseIdx i }.dropTask job.task
    | none => sv
  | .stepSession id => (sv.stepSession id).1
  | .touch id f =>
    sv.updateSession id fun s =>
      { f s with session := s.session, leases := s.leases, ended := s.ended }
  | .bury id =>
    match sv.sessions.find? id with
    | some s => if s.ended then { sv with sessions := sv.sessions.erase id } else sv
    | none => sv
  | .dropReader name => (sv.dropReader name).1
  | .sweep => sv.sweep.1
  | .evict key => { sv with hub := (sv.hub.tryEvict key).1 }
  | .evictFailed key holder => { sv with hub := sv.hub.evictFailed key holder }
  | .change ref f => sv.updateHolder ref f
  | .closeAll => { sv with hub := sv.hub.closeAll }
  | .elsewhere f =>
    { f sv with
      hub := sv.hub
      jobs := sv.jobs
      sessions := sv.sessions
      leaseNames := sv.leaseNames
      nextSession := sv.nextSession }

/-- Things happen one after another. -/
def run (sv : Service) (acts : List Act) : Service := acts.foldl act sv

/-! ## The accounts over a run -/

variable {sv sv' : Service} {S : Claims}

theorem dropStage_trade (sv : Service) (stage : PrepareStage) :
    Trade sv stage.claims (sv.dropStage stage) 0 := by
  cases stage with
  | begin_ => exact .refl sv 0
  | callerTree call => exact abandon_trade sv call none
  | destinationTree callerLease call =>
    exact ((abandon_trade sv call none).spend {.lease callerLease none}).trans
      (dropLease_trade _ callerLease none)

/-- **A task that is dropped** gives up all that it owns. -/
theorem dropTask_trade (sv : Service) (task : Task) :
    Trade sv task.claims (sv.dropTask task) 0 := by
  cases task with
  | lease name call => exact abandon_trade sv call none
  | holderStart ref => exact .refl sv 0
  | holderWait ref deadline limit => exact .refl sv 0
  | launch l => exact dropParts_trade l.parts sv
  | prepare p request => exact dropStage_trade sv p.stage
  | poll p poll reader => exact dropStage_trade sv p.stage

theorem pollPartAt_trade (sv : Service) (l : Launching) (i : Nat) :
    Trade sv (claimsOfParts l.parts) (sv.pollPartAt l i).1
      (claimsOfParts (sv.pollPartAt l i).2.parts) := by
  have hsplit := List.take_append_drop i l.parts
  unfold pollPartAt
  split
  · exact .refl sv _
  · rename_i p rest hdrop
    have hpoll := ((pollPart_trade sv p).beside (claimsOfParts rest)).beside_left
      (claimsOfParts (l.parts.take i))
    rw [hdrop] at hsplit
    rw [← claimsOfParts_cons, ← claimsOfParts_cons, ← claimsOfParts_append, hsplit,
      ← claimsOfParts_append] at hpoll
    exact hpoll

theorem pollPartAt_sound (sv : Service) {l : Launching} (hl : l.Sound) (i : Nat) :
    (sv.pollPartAt l i).2.Sound := by
  have hsplit := List.take_append_drop i l.parts
  unfold pollPartAt
  split
  · exact hl
  · rename_i p rest hdrop
    rw [hdrop] at hsplit
    rw [Launching.Sound, ← hsplit] at hl
    exact forall₂_isFor_replace hl fun tree => pollPart_isFor sv

theorem claims_start (start : Start) : start.task.claims = 0 := by
  cases start with
  | session options request outlet watcher => exact claimsOfParts_open _
  | preparation hijack request =>
    rw [Start.task, preparationOf]
    cases hijack.caller <;> rfl
  | poll poll reader =>
    rw [Start.task, preparationOf]
    cases poll.hijack.caller <;> rfl
  | holder ref => rfl
  | wait ref deadline limit => rfl

theorem sound_start (start : Start) : start.task.Sound := by
  have hnone := claims_start start
  cases start with
  | session options request outlet watcher => exact sound_launching options request outlet watcher
  | preparation hijack request => exact fun _ => hnone
  | poll poll reader => exact fun _ => hnone
  | holder ref => trivial
  | wait ref deadline limit => trivial

theorem Accounted.addJob {task : Task} (hA : sv.Accounted (task.claims + S)) (ht : task.Sound)
    (name : String) : (sv.addJob name task).1.Accounted S := by
  have hput : sv.Accounted ((⟨sv.nextJob, name, task⟩ : Job).task.claims + S) := hA
  exact (hput.putJob ht).trade (.of_eq rfl ⟨rfl, rfl, rfl, rfl⟩)

/-- A client that calls for a lease has a job that waits for it, unless its call was refused. -/
theorem Accounted.lease (hA : sv.Accounted S) (name : String) (key : TreeKey) :
    (sv.lease name key).1.Accounted S := by
  have hcalled := hA.trade ((callFor_trade sv key).gain S)
  unfold Service.lease
  generalize sv.callFor key = r at hcalled ⊢
  obtain ⟨called, _ | call⟩ := r
  · exact Multiset.zero_add S ▸ hcalled
  · have hforgot := hcalled.trade ((forget_trade called call (some key)).beside S)
    have hwaits : called.Accounted ((Task.lease name call).claims + S) := hforgot
    exact hwaits.addJob trivial name

theorem releaseLease_trade (sv : Service) (lease : Nat) (k : Option TreeKey) :
    Trade sv {.lease lease k} (sv.onHub' fun h now => h.releaseLease now lease)
      {.lease lease none} :=
  onHub'_trade (fun h now => Hub.quiet_releaseLease h now lease)
    fun _ now _ hO => Hub.Owned.releaseLease hO now

theorem Accounted.releaseLease (hA : sv.Accounted S) (name : String) :
    (sv.releaseLease name).1.Accounted S := by
  unfold Service.releaseLease
  split
  · rename_i lease hname
    exact hA.tradeNamed hname (releaseLease_trade sv lease none).stir
  · exact hA

theorem Accounted.dropNamedLease (hA : sv.Accounted S) (name : String) :
    (sv.dropNamedLease name).1.Accounted S := by
  unfold Service.dropNamedLease
  split
  · rename_i lease hname
    exact (hA.takeName hname).trade ((dropLease_trade _ lease none).spend S)
  · exact hA

/-- **Whatever happens** keeps the accounts right. -/
theorem Accounted.act (hA : sv.Accounted S) (a : Act) : (sv.act a).Accounted S := by
  cases a with
  | lease name key => exact hA.lease name key
  | releaseLease name => exact hA.releaseLease name
  | dropNamedLease name => exact hA.dropNamedLease name
  | start name start =>
    refine Accounted.addJob ?_ (sound_start start) name
    rw [claims_start, Multiset.zero_add]
    exact hA
  | look i =>
    rw [Service.act]
    split
    · rename_i job hjob
      exact (hA.takeJob hjob).pollJob (hA.jobs job (List.mem_of_getElem? hjob))
    · exact hA
  | lookAtPart i part =>
    rw [Service.act]
    split
    · rename_i id name l hjob
      have hsound : l.Sound := hA.jobs _ (List.mem_of_getElem? hjob)
      have htaken := hA.takeJob hjob
      have hpolled := htaken.trade ((pollPartAt_trade _ l part).beside S)
      have hput : Accounted _
          ((⟨id, name, .launch (pollPartAt _ l part).2⟩ : Job).task.claims + S) := hpolled
      exact hput.putJob (pollPartAt_sound _ hsound part)
    · exact hA
  | drop i =>
    rw [Service.act]
    split
    · rename_i job hjob
      exact (hA.takeJob hjob).trade ((dropTask_trade _ job.task).spend S)
    · exact hA
  | stepSession id => exact hA.stepSession id
  | touch id f => exact hA.updateSession fun s _ hs => ⟨hs.of_eq rfl rfl rfl, rfl⟩
  | bury id =>
    rw [Service.act]
    split
    · rename_i s hs
      split
      · rename_i hended
        exact hA.bury hs hended
      · exact hA
    · exact hA
  | dropReader name => exact (hA.dropReader name).1
  | sweep =>
    have hswept := hA.onHub fun S hO => hO.culls
      (sv.hub.sweep_culls sv.settings.cleaner sv.settings.condition (sv.clock + ticksPerReading))
    exact hswept.trade (.of_eq rfl ⟨rfl, rfl, rfl, rfl⟩)
  | evict key => exact hA.onHub fun S hO => hO.culls (sv.hub.tryEvict_culls key)
  | evictFailed key holder =>
    exact hA.onHub fun S hO => hO.culls (sv.hub.evictFailed_culls key holder)
  | change ref f => exact hA.trade (updateHolder_trade sv ref f S)
  | closeAll => exact hA.onHub fun S hO => hO.closeAll
  | elsewhere f => exact hA.trade (.of_eq rfl ⟨rfl, rfl, rfl, rfl⟩)

/-- **The accounts are right** in every run. -/
theorem accounted_run (settings : ServiceSettings) (policy : Policy) (store : Store)
    (acts : List Act) : ((create settings policy store).run acts).Accounted 0 := by
  have hrun : ∀ (acts : List Act) (sv : Service), sv.Accounted 0 → (sv.run acts).Accounted 0 := by
    intro acts
    induction acts with
    | nil => exact fun sv hA => hA
    | cons a rest ih => exact fun sv hA => ih _ (hA.act a)
  exact hrun acts _ (accounted_create settings policy store)

/-! ## What the accounts say -/

/-- **References are exact**: what the accounts of a service say of counts, leases and sessions. -/
structure Exact (sv : Service) : Prop where
  /-- Every registered holder counts the leases on it that are not released. -/
  counted : sv.hub.Counted
  /-- A session that runs has one lease for each tree that it reads, which is not released. -/
  running : ∀ id s, sv.sessions.find? id = some s → s.ended = false →
    s.leases.keys = s.session.trees ∧ ∀ tree lease, s.leases.find? tree = some lease →
      ∃ l, sv.hub.leases.find? lease = some l ∧ l.key = tree ∧ l.released = false
  /-- A session that has ended has none. -/
  finished : ∀ id s, sv.sessions.find? id = some s → s.ended = true → s.leases = SortedMap.empty
  /-- Every lease that exists has one owner: a call, or a job, a session or a name. -/
  owners : (sv.hub.leases.keys : Multiset Nat) =
    (sv.hub.awaited.values : Multiset Nat) + sv.claims.leases
  /-- No sweep and no other eviction touches a holder that somebody has a lease on. -/
  spares : ∀ (settings : SweepSettings) (a : Hub.Act), a.mayEvict = true →
    sv.hub.Spares (sv.hub.act settings a)

/-- What a session owns is owned. -/
theorem mem_claims_of_session {id : Nat} {s : LiveSession} (hs : sv.sessions.find? id = some s)
    {c : Claim} (hc : c ∈ s.claims) : c ∈ sv.claims := by
  rw [Service.claims, SortedMap.claims_of_find? hs]
  simp only [Multiset.mem_add]
  exact .inl (.inr (.inl hc))

theorem Accounted.exact (hA : sv.Accounted 0) : sv.Exact := by
  have hO : sv.hub.Owned sv.claims := Multiset.zero_add sv.claims ▸ hA.owned
  refine ⟨hO.counted, fun id s hs hrunning => ⟨(hA.sessions id s hs).running hrunning, ?_⟩,
    fun id s hs => (hA.sessions id s hs).finished, hO.leaseIds,
    fun settings a ha => Hub.spares_act settings hO.orderly hO.counted ha⟩
  intro tree lease hlease
  refine hO.held lease tree (mem_claims_of_session hs (Multiset.mem_coe.2 (List.mem_map.2 ?_)))
  exact ⟨(tree, lease), SortedMap.mem_toList_iff.2 hlease, rfl⟩

/-- **Reference counts are exact and protect holders.**  In every run of a hub in which no reference
is dropped without a lease, every registered holder counts the leases on it that are not released,
and no eviction touches a holder with such a lease.  In every run of a service the same holds;
running sessions have one lease for each tree that they read, sessions that failed to start or have
ended have none, and every lease has just one owner. -/
theorem exact_run (sweeps : SweepSettings) (hub : HubSettings) {acts : List Hub.Act}
    (hacts : ∀ a ∈ acts, a.isRelease = false) (settings : ServiceSettings) (policy : Policy)
    (store : Store) (work : List Act) :
    let h := (Hub.create hub).run sweeps acts
    h.Counted ∧ (∀ a : Hub.Act, a.mayEvict = true → h.Spares (h.act sweeps a)) ∧
      ((create settings policy store).run work).Exact :=
  have hcounted := Hub.counted_run sweeps hub hacts
  ⟨hcounted, fun _ ha => Hub.spares_act sweeps (Hub.orderly_run sweeps hub acts) hcounted ha,
    (accounted_run settings policy store work).exact⟩

/-- A holder closes while it loads, and the next client gets another one. -/
def replaced : List Hub.Act :=
  [.request 0 0 ⟨"shop", .service⟩, .launch 0 0 0 (.ok ()), .close 0,
    .request 0 0 ⟨"shop", .service⟩, .launch 0 0 1 (.ok ())]

/-- A client starts a session on one tree, whose holder loads. -/
def served : List Act :=
  [.start "client" (.session ⟨false, none, none, .orig⟩
      ⟨SortedMap.ofList [(⟨.service, "shop"⟩, ⟨SortedMap.empty, SortedMap.empty, false⟩)]⟩
      (.slow "client") none),
    .look 0, .change (.ofHub 0) fun holder => holder.handleAll [.initialized], .look 0]

def smallSettings : ServiceSettings :=
  ⟨⟨2, 5, 1⟩, ⟨true, 1, 0, 1, 0⟩, .above 0, ⟨60, 0, 8⟩, ⟨false, 0⟩, 1000⟩

theorem exact_run_replaced_served :
    let h := (Hub.create smallSettings.hub).run smallSettings.cleaner replaced
    let sv := (create smallSettings .standard Store.empty).run served
    (∀ a ∈ replaced, a.isRelease = false) ∧
      (h.slot? ⟨"shop", .service⟩ = some ⟨1, 1⟩ ∧ h.heldOn 0 = 1) ∧
      (sv.sessions.find? 0).map (fun s => (s.ended, s.leases.toList)) =
        some (false, [(⟨"shop", .service⟩, 0)]) ∧
      h.Counted ∧ (∀ a : Hub.Act, a.mayEvict = true → h.Spares (h.act smallSettings.cleaner a)) ∧
      sv.Exact :=
  have hacts : ∀ a ∈ replaced, a.isRelease = false := by decide
  ⟨hacts, by decide +kernel, by decide +kernel,
    exact_run smallSettings.cleaner smallSettings.hub hacts smallSettings .standard Store.empty
      served⟩

end Treecast.Service
