import Treecast.Proofs.SessionSync
import Treecast.Proofs.Trades

/-!
# The accounts of a service

Every lease has one owner: a call that waits for it, a job, a session or a name.  A session that
runs owns one lease for each tree that it reads, and one that has ended owns none.  While a job or
a session is looked at, what it owns is in nobody's account but at hand.

## Results

* `Service.Accounted`: the accounts are right.
* `Service.Accounted.startSession`, `Service.Accounted.endSession`, `Service.Accounted.stepSession`:
  the life of a session keeps them right.
* `Service.looked_pollTask`: a look at a task does, whatever becomes of it.
-/

set_option autoImplicit false

namespace Treecast

open Routing

namespace SortedMap

variable {κ ν : Type} [Ord κ]

theorem pairwise_keys (m : SortedMap κ ν) : m.keys.Pairwise fun a b => compare a b = .lt :=
  List.pairwise_map.2 m.sorted

variable [Std.TransOrd κ] [Std.LawfulEqOrd κ] [DecidableEq κ]
  {m : SortedMap κ ν} {key : κ} {value : ν}

theorem modify_of_find? (h : m.find? key = some value) (f : ν → ν) :
    m.modify key f = (m.erase key).insert key (f value) := by
  refine ext_find? fun other => ?_
  rw [find?_modify, find?_insert, find?_erase]
  split
  · rw [h, Option.map_some]
  · rfl

theorem modify_of_find?_eq_none (h : m.find? key = none) (f : ν → ν) : m.modify key f = m := by
  refine ext_find? fun other => ?_
  rw [find?_modify]
  split
  · rename_i heq
    rw [heq, h, Option.map_none]
  · rfl

theorem insert_erase (m : SortedMap κ ν) (key : κ) (value : ν) :
    (m.erase key).insert key value = m.insert key value := by
  refine ext_find? fun other => ?_
  rw [find?_insert, find?_insert, find?_erase]
  split <;> rfl

/-- What everybody in a map owns. -/
def claims (m : SortedMap κ ν) (f : ν → Claims) : Claims := (m.values.map f).sum

theorem claims_of_find? (h : m.find? key = some value) (f : ν → Claims) :
    m.claims f = f value + (m.erase key).claims f := by
  have hperm := ((toList_perm_of_find? h).map Prod.snd).map f
  exact hperm.sum_eq.trans List.sum_cons

theorem claims_insert (m : SortedMap κ ν) (key : κ) (value : ν) (f : ν → Claims) :
    (m.insert key value).claims f = f value + (m.erase key).claims f := by
  have hperm := ((m.toList_insert_perm key value).map Prod.snd).map f
  exact hperm.sum_eq.trans List.sum_cons

end SortedMap

/-! ## Sessions and tasks -/

/-- The trees that a session reads, in order. -/
def Session.trees (s : Session) : List TreeKey :=
  let trees := SortedSet.ofElements (s.subscriptions.map Subscription.tree)
  match s.callerTree with
  | some tree => (trees.add tree).elements
  | none => trees.elements

theorem Serves.trees_eq {request : Request} {mode : RouteMode} {caller : Option Caller}
    {s : Session} (hs : Serves request mode caller s) :
    s.trees = Session.treesOf request mode caller := by
  have htrees : s.subscriptions.map Subscription.tree =
      (Session.subscriptionsOf request).map Subscription.tree := by
    rw [← hs.served, List.map_map]
    rfl
  rw [Session.trees, htrees, hs.callerTree_eq]
  rfl

theorem pairwise_treesOf (request : Request) (mode : RouteMode) (caller : Option Caller) :
    (Session.treesOf request mode caller).Pairwise fun a b => compare a b = .lt := by
  unfold Session.treesOf
  dsimp only
  split <;> exact SortedMap.pairwise_keys _

/-- A session that runs has a lease for each tree that it reads, and one that has ended has none. -/
structure LiveSession.Sound (s : LiveSession) : Prop where
  serves : ∃ request mode caller, Serves request mode caller s.session
  running : s.ended = false → s.leases.keys = s.session.trees
  finished : s.ended = true → s.leases = SortedMap.empty

theorem LiveSession.Sound.of_eq {s t : LiveSession} (hs : s.Sound)
    (hsession : t.session = s.session) (hleases : t.leases = s.leases)
    (hended : t.ended = s.ended) : t.Sound where
  serves := hsession ▸ hs.serves
  running := by
    rw [hsession, hleases, hended]
    exact hs.running
  finished := by
    rw [hleases, hended]
    exact hs.finished

/-- What a session owns. -/
def LiveSession.claims (s : LiveSession) : Claims := claimsOfLeases s.leases

/-- What a task owns. -/
def Task.claims : Task → Claims
  | .lease _ call => {.call call none}
  | .holderStart _ | .holderWait _ _ _ => 0
  | .launch l => claimsOfParts l.parts
  | .prepare p _ | .poll p _ _ => p.stage.claims

/-- The start of a session waits for the leases that the session will need. -/
def Launching.Sound (l : Launching) : Prop :=
  List.Forall₂ Part.IsFor (Session.treesOf l.request l.options.mode l.options.caller) l.parts

/-- A task waits for what it is for. -/
def Task.Sound : Task → Prop
  | .launch l => l.Sound
  | .prepare p _ | .poll p _ _ => p.Sound
  | .lease _ _ | .holderStart _ | .holderWait _ _ _ => True

namespace Service

/-- What the jobs, the sessions and the names own. -/
def claims (sv : Service) : Claims :=
  (sv.jobs.map fun j => j.task.claims).sum + sv.sessions.claims LiveSession.claims +
    sv.leaseNames.claims fun lease => {.lease lease none}

/-- **The accounts are right**: everything is owned by the jobs, the sessions and the names, or it
is at hand. -/
structure Accounted (sv : Service) (atHand : Claims) : Prop where
  owned : sv.hub.Owned (atHand + sv.claims)
  jobs : ∀ j ∈ sv.jobs, j.task.Sound
  sessions : ∀ id s, sv.sessions.find? id = some s → s.Sound
  numbered : ∀ id s, sv.sessions.find? id = some s → id < sv.nextSession

variable {sv sv' : Service} {S S' : Claims} {id : Nat}

theorem accounted_create (settings : ServiceSettings) (policy : Policy) (store : Store) :
    (create settings policy store).Accounted 0 where
  owned := Hub.owned_create settings.hub
  jobs _ hmem := nomatch hmem
  sessions _ _ hs := nomatch hs
  numbered _ _ hs := nomatch hs

/-- The next number for a session is not in use. -/
theorem Accounted.find?_next (hA : sv.Accounted S) : sv.sessions.find? sv.nextSession = none := by
  cases hfind : sv.sessions.find? sv.nextSession with
  | none => rfl
  | some s => exact absurd (hA.numbered _ s hfind) (Nat.lt_irrefl _)

theorem SameOwners.claims_eq (hsame : SameOwners sv sv') : sv'.claims = sv.claims := by
  rw [Service.claims, hsame.jobs, hsame.sessions, hsame.leaseNames, Service.claims]

/-- A trade with what is at hand. -/
theorem Accounted.trade (hA : sv.Accounted S) (ht : Trade sv S sv' S') : sv'.Accounted S' where
  owned := ht.claims_eq ▸ ht.owned sv.claims hA.owned
  jobs := ht.jobs ▸ hA.jobs
  sessions := ht.sessions ▸ hA.sessions
  numbered := by
    rw [ht.sessions, ht.nextSession]
    exact hA.numbered

/-- What happens to the hub without regard to who owns what. -/
theorem Accounted.onHub (hA : sv.Accounted S) {h : Hub}
    (hh : ∀ S, sv.hub.Owned S → h.Owned S) : Accounted { sv with hub := h } S :=
  ⟨hh _ hA.owned, hA.jobs, hA.sessions, hA.numbered⟩

/-- Whatever is counted, nobody owns more or less. -/
theorem Accounted.count (hA : sv.Accounted S) (meter : Meter) : (sv.count meter).Accounted S :=
  hA.onHub fun _ hO => hO.meters _

/-! ## Taking sessions out and putting them in -/

theorem Accounted.takeSession (hA : sv.Accounted S) {s : LiveSession}
    (hs : sv.sessions.find? id = some s) :
    Accounted { sv with sessions := sv.sessions.erase id } (s.claims + S) where
  owned := by
    have hclaims : S + sv.claims =
        s.claims + S + Service.claims { sv with sessions := sv.sessions.erase id } := by
      rw [Service.claims, Service.claims, SortedMap.claims_of_find? hs]
      dsimp only
      ac_rfl
    exact hclaims ▸ hA.owned
  jobs := hA.jobs
  sessions other s hs := by
    rw [SortedMap.find?_erase] at hs
    split at hs
    · cases hs
    · exact hA.sessions other s hs
  numbered other s hs := by
    rw [SortedMap.find?_erase] at hs
    split at hs
    · cases hs
    · exact hA.numbered other s hs

theorem Accounted.putSession {s : LiveSession} (hA : sv.Accounted (s.claims + S)) (hs : s.Sound)
    (hlt : id < sv.nextSession) (hnew : sv.sessions.find? id = none) :
    Accounted { sv with sessions := sv.sessions.insert id s } S where
  owned := by
    have hclaims : s.claims + S + sv.claims =
        S + Service.claims { sv with sessions := sv.sessions.insert id s } := by
      rw [Service.claims, Service.claims, SortedMap.claims_insert,
        SortedMap.erase_of_find?_eq_none hnew]
      dsimp only
      ac_rfl
    exact hclaims ▸ hA.owned
  jobs := hA.jobs
  sessions other t ht := by
    rw [SortedMap.find?_insert] at ht
    split at ht
    · cases ht
      exact hs
    · exact hA.sessions other t ht
  numbered other t ht := by
    rw [SortedMap.find?_insert] at ht
    split at ht
    · rename_i heq
      exact heq ▸ hlt
    · exact hA.numbered other t ht

/-- A session whose leases were dropped goes. -/
theorem Accounted.retire (hA : sv.Accounted S) {s : LiveSession}
    (hs : sv.sessions.find? id = some s) (hdrop : Trade sv s.claims sv' 0) :
    Accounted { sv' with sessions := sv'.sessions.erase id } S := by
  have hgone : Trade { sv with sessions := sv.sessions.erase id } (s.claims + S)
      { sv' with sessions := sv'.sessions.erase id } S :=
    ⟨⟨hdrop.jobs, congrArg (SortedMap.erase · id) hdrop.sessions, hdrop.leaseNames,
      hdrop.nextSession⟩, (hdrop.spend S).owned, hdrop.quiet⟩
  exact (hA.takeSession hs).trade hgone

/-- An ended session owns nothing, and may go. -/
theorem Accounted.bury (hA : sv.Accounted S) {s : LiveSession}
    (hs : sv.sessions.find? id = some s) (hended : s.ended = true) :
    Accounted { sv with sessions := sv.sessions.erase id } S := by
  have hnone : s.claims = 0 := by
    rw [LiveSession.claims, (hA.sessions id s hs).finished hended]
    rfl
  exact hA.retire hs (hnone ▸ Trade.refl sv 0)

/-- A session changes, but not what it owns. -/
theorem Accounted.updateSession (hA : sv.Accounted S) {f : LiveSession → LiveSession}
    (hf : ∀ s, sv.sessions.find? id = some s → s.Sound → (f s).Sound ∧ (f s).leases = s.leases) :
    (sv.updateSession id f).Accounted S := by
  unfold Service.updateSession
  cases hs : sv.sessions.find? id with
  | none => rwa [SortedMap.modify_of_find?_eq_none hs]
  | some s =>
    obtain ⟨hsound, hleases⟩ := hf s hs (hA.sessions id s hs)
    have hclaims : (f s).claims = s.claims := by
      rw [LiveSession.claims, hleases, LiveSession.claims]
    have htaken := hA.takeSession hs
    rw [← hclaims] at htaken
    rw [SortedMap.modify_of_find? hs]
    exact htaken.putSession hsound (hA.numbered id s hs)
      ((SortedMap.find?_erase _ _ _).trans (if_pos rfl))

theorem Accounted.number (hA : sv.Accounted S) {next : Nat} (hle : sv.nextSession ≤ next) :
    Accounted { sv with nextSession := next } S :=
  ⟨hA.owned, hA.jobs, hA.sessions, fun other s hs => (hA.numbered other s hs).trans_le hle⟩

/-! ## Readers -/

/-- What there is when a reader has gone away: its session is told to end, is gone if it had ended,
or there was none. -/
inductive WithoutReader (sv : Service) : Service → Prop where
  | gone {left : Service} (ht : ∀ S, Trade sv S left S) : WithoutReader sv left
  | buried {left : Service} (ht : ∀ S, Trade sv S left S) {id : Nat} {s : LiveSession}
    (hs : left.sessions.find? id = some s) (hended : s.ended = true) :
    WithoutReader sv { left with sessions := left.sessions.erase id }
  | told {left : Service} (ht : ∀ S, Trade sv S left S) (id : Nat) :
    WithoutReader sv (left.updateSession id fun s =>
      { s with deserted := true, cancelled := true })

theorem dropReader_cases (sv : Service) (name : String) :
    sv.WithoutReader (sv.dropReader name).1 := by
  unfold Service.dropReader
  split
  · exact .gone fun S => .refl sv S
  rename_i reader _
  have hleft : ∀ S, Trade sv S (Service.stir { sv with readers := sv.readers.erase name }) S :=
    fun S => .of_eq rfl ⟨rfl, rfl, rfl, rfl⟩
  cases reader with
  | events feed => exact .gone fun S => (hleft S).trans (.of_eq rfl ⟨rfl, rfl, rfl, rfl⟩)
  | log holder cursor => exact .gone hleft
  | slow | prompt | poll =>
    dsimp only
    split
    · rename_i live hlive
      split
      · rename_i hended
        exact .buried hleft hlive hended
      · exact .told hleft _
    · exact .gone hleft

theorem Accounted.dropReader (hA : sv.Accounted S) (name : String) :
    (sv.dropReader name).1.Accounted S ∧ (sv.dropReader name).1.nextSession = sv.nextSession := by
  have hcases := sv.dropReader_cases name
  generalize (sv.dropReader name).1 = left at hcases ⊢
  cases hcases with
  | gone ht => exact ⟨hA.trade (ht S), (ht S).nextSession⟩
  | buried ht hs hended => exact ⟨(hA.trade (ht S)).bury hs hended, (ht S).nextSession⟩
  | told ht id =>
    exact ⟨(hA.trade (ht S)).updateSession fun s _ hs => ⟨hs.of_eq rfl rfl rfl, rfl⟩,
      (ht S).nextSession⟩

/-! ## The end of a session -/

/-- The leases of a session are dropped one after another. -/
theorem dropLeases_trade (held : List (TreeKey × Nat)) : ∀ sv : Service,
    Trade sv (Multiset.ofList (held.map fun e => .lease e.2 (some e.1)))
      ((held.map Prod.snd).foldl (fun sv l => sv.onHub' fun h now => h.dropLease now l) sv) 0 := by
  induction held with
  | nil => exact fun sv => .refl sv 0
  | cons e rest ih =>
    intro sv
    have hfirst := (hub_dropLease_trade sv e.2 (some e.1)).spend
      (Multiset.ofList (rest.map fun e => .lease e.2 (some e.1)))
    exact hfirst.trans (ih _)

/-- A session whose leases were dropped stays without leases, until its reader has seen the end. -/
theorem Accounted.markEnded (hA : sv.Accounted S) {s : LiveSession}
    (hs : sv.sessions.find? id = some s) (hdrop : Trade sv s.claims sv' 0) :
    (sv'.updateSession id fun s =>
      { s with leases := SortedMap.empty, ended := true }).Accounted S := by
  have hgone := hA.retire hs hdrop
  have hstill := hdrop.sessions ▸ hs
  have hbare : ({ s with leases := SortedMap.empty, ended := true } : LiveSession).claims + S = S :=
    Multiset.zero_add S
  rw [← hbare] at hgone
  rw [Service.updateSession, SortedMap.modify_of_find? hstill]
  exact hgone.putSession ⟨(hA.sessions id s hs).serves, nofun, fun _ => rfl⟩
    (hdrop.nextSession ▸ hA.numbered id s hs) ((SortedMap.find?_erase _ _ _).trans (if_pos rfl))

/-- **A session that ends** drops its leases. -/
theorem Accounted.endSession (hA : sv.Accounted S) (id : Nat) : (sv.endSession id).Accounted S := by
  unfold Service.endSession
  split
  · exact hA
  rename_i s hs
  have hdiscounted :
      Accounted { sv with hub := { sv.hub with meters := sv.hub.meters.discount .watchers } } S :=
    hA.onHub fun _ hO => hO.meters _
  have hdrop := (dropLeases_trade s.leases.toList
    { sv with hub := { sv.hub with meters := sv.hub.meters.discount .watchers } }).stir
  dsimp only
  split
  · exact hdiscounted.markEnded hs hdrop
  · exact (hdiscounted.retire hs hdrop).trade (.of_eq rfl ⟨rfl, rfl, rfl, rfl⟩)
  · exact hdiscounted.retire hs hdrop

/-! ## The work of a session -/

theorem deliver_trade (sv : Service) (name : String) (reader : Reader) (m : Message) (S : Claims) :
    Trade sv S (sv.deliver name reader m) S := by
  unfold deliver
  split
  · split <;> exact .of_eq rfl ⟨rfl, rfl, rfl, rfl⟩
  · exact .of_eq rfl ⟨rfl, rfl, rfl, rfl⟩

theorem Accounted.emit (hA : sv.Accounted S) (id : Nat) (m : Message) :
    (sv.emit id m).1.Accounted S := by
  have hcounted := (hA.count (.messages m.kind)).trade (stir_trade _ S)
  unfold Service.emit
  dsimp only
  split
  · split
    · split
      · exact hcounted.updateSession fun s _ hs => ⟨hs.of_eq rfl rfl rfl, rfl⟩
      · exact hA
    · exact hA
  · exact hcounted.trade (deliver_trade _ _ _ _ _)
  · exact hA

theorem Accounted.emitAll (id : Nat) (messages : List Message) :
    ∀ {sv : Service}, sv.Accounted S → (sv.emitAll id messages).1.Accounted S := by
  induction messages with
  | nil => exact fun hA => hA
  | cons m rest ih =>
    intro sv hA
    have hemit := hA.emit id m
    rw [Service.emitAll]
    generalize sv.emit id m = r at hemit ⊢
    obtain ⟨emitted, _ | _⟩ := r
    · exact hemit
    · exact ih hemit

/-- A session that handles what it has read counts that it sends all again, if it does; it changes,
and then it ends or goes on. -/
theorem handleUnread_eq (sv : Service) (id : Nat) (s : LiveSession) (tree : TreeKey)
    (unread : Holder.Unread) (cursor : Nat) :
    ∃ meters, sv.hub.Quiet { sv.hub with meters := meters } ∧
      let r := s.session.react (sv.replicasOf s.leases) sv.policy tree unread
      let read := updateSession { sv with hub := { sv.hub with meters := meters } } id fun s =>
        { s with session := r.session, cursors := s.cursors.insert tree cursor,
                 backlog := r.messages }
      sv.handleUnread id s tree unread cursor =
        if r.ends then read.endSession id else read.stir := by
  unfold Service.handleUnread
  dsimp only
  cases (s.session.react (sv.replicasOf s.leases) sv.policy tree unread).resynced with
  | some cause =>
    exact ⟨sv.hub.meters.count (.resyncs cause), .count sv.hub (.resyncs cause) rfl nofun, rfl⟩
  | none => exact ⟨sv.hub.meters, .refl sv.hub, rfl⟩

theorem Accounted.handleUnread (hA : sv.Accounted S) {s : LiveSession}
    (hs : sv.sessions.find? id = some s) (tree : TreeKey) (unread : Holder.Unread) (cursor : Nat) :
    (sv.handleUnread id s tree unread cursor).Accounted S := by
  obtain ⟨meters, -, heq⟩ := sv.handleUnread_eq id s tree unread cursor
  rw [heq]
  dsimp only
  have hcounted : Accounted { sv with hub := { sv.hub with meters := meters } } S :=
    hA.onHub fun _ hO => hO.meters meters
  generalize hr : s.session.react (sv.replicasOf s.leases) sv.policy tree unread = r
  have hread : (Service.updateSession { sv with hub := { sv.hub with meters := meters } } id
      fun s => { s with session := r.session, cursors := s.cursors.insert tree cursor,
                        backlog := r.messages }).Accounted S := by
    refine hcounted.updateSession fun t ht hsound => ⟨?_, rfl⟩
    cases hs.symm.trans ht
    obtain ⟨request, mode, caller, hserves⟩ := hsound.serves
    have hstill := hr ▸ hserves.react (sv.replicasOf s.leases) sv.policy tree unread
    refine ⟨⟨request, mode, caller, hstill⟩, fun hrunning => ?_, hsound.finished⟩
    exact (hsound.running hrunning).trans (hserves.trees_eq.trans hstill.trees_eq.symm)
  split
  · exact hread.endSession id
  · exact hread.trade (stir_trade _ S)

/-- **Every step of a session** keeps the accounts right. -/
theorem Accounted.stepSession (hA : sv.Accounted S) (id : Nat) :
    (sv.stepSession id).1.Accounted S := by
  unfold Service.stepSession
  split
  · exact hA
  rename_i s hs
  split
  · exact hA
  split
  · exact hA.endSession id
  split
  · exact (Accounted.emitAll id s.backlog hA).updateSession
      fun s _ hs => ⟨hs.of_eq rfl rfl rfl, rfl⟩
  split
  · exact hA.endSession id
  split
  · exact hA.handleUnread hs _ _ _
  · exact hA

/-! ## The start of a session -/

theorem runDeclarer_trade (steps : Nat) (S : Claims) : ∀ (sv : Service) (d : Declarer),
    Trade sv S (sv.runDeclarer steps d).1 S := by
  induction steps with
  | zero => exact fun sv _ => .refl sv S
  | succ steps ih =>
    intro sv d
    rw [runDeclarer]
    split
    · rename_i result _
      exact count_trade sv (.declarations (Declarer.outcomeOf result)) rfl nofun S
    · have hread := onBackend_trade sv (fun b => b.get d.path) S
      generalize sv.onBackend _ = r at hread ⊢
      exact hread.trans (ih r.1 _)
    · rename_i value version _
      have hwrite := onBackend_trade sv (fun b => b.set d.path value (some version)) S
      generalize sv.onBackend _ = r at hwrite ⊢
      exact hwrite.trans (ih r.1 _)

theorem declareAll_trade (sv : Service) (s : Session) (S : Claims) :
    Trade sv S (sv.declareAll s) S := by
  unfold declareAll
  split
  · split
    · exact foldl_trade (fun sv _ => runDeclarer_trade _ S sv _) _ sv
    · exact .refl sv S
  · exact .refl sv S

/-- A session that is there takes over its leases. -/
theorem Accounted.openSession {l : Launching} {session : Session} {leases : SortedMap TreeKey Nat}
    (hA : sv.Accounted (claimsOfLeases leases + S)) {request : Request} {mode : RouteMode}
    {caller : Option Caller} (hserves : Serves request mode caller session)
    (hkeys : leases.keys = session.trees) :
    (sv.openSession l session leases).Accounted S := by
  obtain ⟨hdropped, hnext⟩ := hA.dropReader l.outlet.reader
  unfold Service.openSession
  dsimp only
  generalize sv.dropReader l.outlet.reader = r at hdropped hnext ⊢
  have hnew : r.1.sessions.find? sv.nextSession = none := hnext ▸ hdropped.find?_next
  have hnumber := hdropped.number (hnext.le.trans (Nat.le_succ sv.nextSession))
  have hput : ∀ live : LiveSession, live.leases = leases → live.Sound →
      Accounted { r.1 with sessions := r.1.sessions.insert sv.nextSession live
                           nextSession := sv.nextSession + 1 } S := by
    intro live hleases hsound
    rw [← hleases] at hnumber
    exact Accounted.putSession hnumber hsound (Nat.lt_succ_self _) hnew
  have hdone : ∀ opened : Service, opened.Accounted S →
      ((opened.count .watchers).stir).Accounted S :=
    fun opened hopened => (hopened.count .watchers).trade (stir_trade _ S)
  refine hdone _ ?_
  exact (hput _ rfl ⟨⟨_, _, _, hserves⟩, fun _ => hkeys,
    fun hended => Bool.noConfusion hended⟩).trade (.of_eq rfl ⟨rfl, rfl, rfl, rfl⟩)

/-- **A session that starts** takes over the leases for its trees. -/
theorem Accounted.startSession {l : Launching} {leases : SortedMap TreeKey Nat}
    (hA : sv.Accounted (claimsOfLeases leases + S))
    (hkeys : leases.keys = Session.treesOf l.request l.options.mode l.options.caller) :
    (sv.startSession l leases).Accounted S := by
  have hserves := serves_start l.request l.options.mode l.options.caller sv.policy
    (sv.replicasOf leases)
  have hopened := hA.openSession (l := l) hserves (hkeys.trans hserves.trees_eq.symm)
  exact (hopened.emitAll sv.nextSession (sv.greeting l leases)).trade (declareAll_trade _ _ S)

/-! ## Names -/

theorem claims_of_name {name : String} {lease : Nat}
    (hname : sv.leaseNames.find? name = some lease) :
    sv.claims = {.lease lease none} +
      Service.claims { sv with leaseNames := sv.leaseNames.erase name } := by
  rw [Service.claims, Service.claims, SortedMap.claims_of_find? hname]
  dsimp only
  ac_rfl

theorem Accounted.takeName (hA : sv.Accounted S) {name : String} {lease : Nat}
    (hname : sv.leaseNames.find? name = some lease) :
    Accounted { sv with leaseNames := sv.leaseNames.erase name }
      (.lease lease none ::ₘ S) where
  owned := by
    have hclaims : S + sv.claims = {.lease lease none} + S +
        Service.claims { sv with leaseNames := sv.leaseNames.erase name } := by
      rw [claims_of_name hname]
      ac_rfl
    exact hclaims ▸ hA.owned
  jobs := hA.jobs
  sessions := hA.sessions
  numbered := hA.numbered

theorem Accounted.putName {lease : Nat} (hA : sv.Accounted (.lease lease none ::ₘ S))
    {name : String} (hnew : sv.leaseNames.find? name = none) :
    Accounted { sv with leaseNames := sv.leaseNames.insert name lease } S where
  owned := by
    have hclaims : (.lease lease none ::ₘ S) + sv.claims =
        S + Service.claims { sv with leaseNames := sv.leaseNames.insert name lease } := by
      rw [Service.claims, Service.claims, SortedMap.claims_insert,
        SortedMap.erase_of_find?_eq_none hnew, ← Multiset.singleton_add]
      dsimp only
      ac_rfl
    exact hclaims ▸ hA.owned
  jobs := hA.jobs
  sessions := hA.sessions
  numbered := hA.numbered

/-- A trade in which a name keeps its lease. -/
theorem Accounted.tradeNamed (hA : sv.Accounted S) {name : String} {lease : Nat}
    (hname : sv.leaseNames.find? name = some lease)
    (ht : Trade sv {.lease lease none} sv' {.lease lease none}) : sv'.Accounted S where
  owned := by
    have hclaims : S + sv.claims = {.lease lease none} +
        (S + Service.claims { sv with leaseNames := sv.leaseNames.erase name }) := by
      rw [claims_of_name hname]
      ac_rfl
    have howned := hA.owned
    rw [hclaims] at howned
    rw [ht.claims_eq, hclaims]
    exact ht.owned _ howned
  jobs := ht.jobs ▸ hA.jobs
  sessions := ht.sessions ▸ hA.sessions
  numbered := by
    rw [ht.sessions, ht.nextSession]
    exact hA.numbered

/-- **A lease that is named** takes the place of the one that had the name, which is dropped. -/
theorem Accounted.nameLease {lease : Nat} (hA : sv.Accounted (.lease lease none ::ₘ S))
    (name : String) : (sv.nameLease name lease).Accounted S := by
  unfold Service.nameLease
  cases hold : sv.leaseNames.find? name with
  | none => exact hA.putName hold
  | some old =>
    have htaken := hA.takeName hold
    rw [Multiset.cons_swap] at htaken
    have hput := htaken.putName ((SortedMap.find?_erase _ _ _).trans (if_pos rfl))
    rw [SortedMap.insert_erase] at hput
    exact hput.trade ((dropLease_trade _ old none).spend S)

/-! ## Looking at tasks -/

/-- What is left to a task that was looked at. -/
def Polled.claims : Polled → Claims
  | .waiting task => task.claims
  | .ended _ => 0

/-- A task that waits on waits for what it is for. -/
def Polled.Sound : Polled → Prop
  | .waiting task => task.Sound
  | .ended _ => True

/-- After a look at a task, what is left to it is at hand. -/
structure Looked (r : Service × Polled) (S : Claims) : Prop where
  accounted : r.1.Accounted (r.2.claims + S)
  sound : r.2.Sound

/-- A task that came to its end owns nothing. -/
theorem Looked.ended (hA : sv.Accounted S) (result : JobResult) :
    Looked (sv, .ended result) S :=
  ⟨(Multiset.zero_add S).symm ▸ hA, trivial⟩

theorem freeWatcher_trade (sv : Service) (watcher : Option String) (S : Claims) :
    Trade sv S (sv.freeWatcher watcher) S := by
  unfold freeWatcher
  split <;> exact .of_eq rfl ⟨rfl, rfl, rfl, rfl⟩

/-- **The start of a session** waits for its leases, hands them to the session, or gives them up. -/
theorem looked_pollLaunch {l : Launching} (hA : sv.Accounted (claimsOfParts l.parts + S))
    (hl : l.Sound) : Looked (sv.pollLaunch l) S := by
  have hpolled := hA.trade ((pollParts_trade sv l.parts).beside S)
  have hfor : ∀ {parts}, (sv.pollParts l.parts).2 = .ok parts → _ := pollParts_isFor sv hl
  unfold pollLaunch
  generalize sv.pollParts l.parts = r at hpolled hfor ⊢
  obtain ⟨polled, _ | parts⟩ := r
  · refine .ended (Accounted.trade ?_ (freeWatcher_trade polled l.watcher S)) _
    exact Multiset.zero_add S ▸ hpolled
  · have hparts := hfor rfl
    dsimp only
    split
    · rename_i leases hheld
      have hsorted := pairwise_treesOf l.request l.options.mode l.options.caller
      obtain ⟨hkeys, hclaims⟩ := claims_of_heldLeases? hsorted hparts hheld
      have hready : polled.Accounted (claimsOfLeases leases + S) := hclaims ▸ hpolled
      exact .ended ((hready.startSession hkeys).trade (freeWatcher_trade _ l.watcher S)) _
    · exact ⟨hpolled, hparts⟩

/-- The start of a session owns nothing yet. -/
theorem claimsOfParts_open (trees : List TreeKey) : claimsOfParts (trees.map .open_) = 0 := by
  induction trees with
  | nil => rfl
  | cons tree rest ih =>
    rw [List.map_cons, claimsOfParts_cons, ih]
    rfl

theorem sound_launching (options : WatchOptions) (request : Request) (outlet : Outlet)
    (watcher : Option String) : (launching options request outlet watcher).Sound := by
  have hopen : ∀ trees : List TreeKey, List.Forall₂ Part.IsFor trees (trees.map .open_) := by
    intro trees
    induction trees with
    | nil => exact .nil
    | cons tree rest ih => exact .cons .open_ ih
  exact hopen _

theorem looked_pollPrepared (hA : sv.Accounted S) (h : Hijack) (poll : Poll) (reader : String) :
    Looked (sv.pollPrepared h poll reader) S := by
  unfold pollPrepared
  split
  · exact .ended hA _
  · rename_i request _
    refine looked_pollLaunch ?_ (sound_launching _ _ _ _)
    rw [launching, claimsOfParts_open, Multiset.zero_add]
    exact hA

/-- **The call for a named lease** keeps waiting, or its lease gets the name. -/
theorem looked_pollLease {name : String} {call : Nat}
    (hA : sv.Accounted (.call call none ::ₘ S)) : Looked (sv.pollLease name call) S := by
  have hpolled := hA.trade ((pollCall_trade sv call none).beside S)
  unfold pollLease
  generalize sv.pollCall call = r at hpolled ⊢
  obtain ⟨polled, _ | _ | lease⟩ := r
  · exact ⟨hpolled, trivial⟩
  · exact .ended (Multiset.zero_add S ▸ hpolled) _
  · -- the lease of a call that ended is there
    have howned : polled.hub.Owned ((.lease lease none ::ₘ S) + polled.claims) := hpolled.owned
    rw [Multiset.cons_add] at howned
    obtain ⟨l, hl⟩ := howned.exists_lease
    dsimp only
    rw [hl]
    exact .ended (Accounted.nameLease hpolled name) _

theorem updateHolder_trade (sv : Service) (ref : HolderRef) (f : Holder → Holder) (S : Claims) :
    Trade sv S (sv.updateHolder ref f) S := by
  cases ref with
  | ofHub id =>
    exact ⟨⟨rfl, rfl, rfl, rfl⟩, fun _ hO => hO.updateHolder id f,
      Hub.quiet_updateHolder sv.hub id f⟩
  | alone id => exact .of_eq rfl ⟨rfl, rfl, rfl, rfl⟩

theorem startHolder_trade (sv : Service) (ref : HolderRef) (S : Claims) :
    Trade sv S (sv.startHolder ref).1 S := by
  unfold startHolder
  split
  · exact .refl sv S
  rename_i holder _
  split
  · exact .refl sv S
  have hopened := (updateHolder_trade sv ref Holder.start S).trans
    (openFeed_trade _ ref holder.key S)
  generalize (sv.updateHolder ref Holder.start).openFeed ref holder.key = r at hopened ⊢
  obtain ⟨opened, _ | _⟩ := r
  · exact hopened.trans (updateHolder_trade opened ref Holder.close S)
  · exact hopened

/-- **A look at a task** leaves at hand what the task still owns. -/
theorem looked_pollTask {task : Task} (hA : sv.Accounted (task.claims + S)) (ht : task.Sound) :
    Looked (sv.pollTask task) S := by
  cases task with
  | lease name call => exact looked_pollLease hA
  | holderStart ref =>
    have hstarted := hA.trade (startHolder_trade sv ref _)
    rw [pollTask]
    generalize sv.startHolder ref = r at hstarted ⊢
    obtain ⟨started, _ | _⟩ := r <;> exact .ended (Multiset.zero_add S ▸ hstarted) _
  | holderWait ref deadline limit =>
    rw [pollTask, pollWait]
    split
    · exact .ended (Multiset.zero_add S ▸ hA) _
    · split
      · exact ⟨hA, trivial⟩
      · exact .ended (Multiset.zero_add S ▸ hA) _
      · exact .ended (Multiset.zero_add S ▸ hA) _
  | launch l => exact looked_pollLaunch hA ht
  | prepare p request =>
    obtain ⟨htrade, hsound⟩ := goOn_trade sv ht
    have hwent := hA.trade (htrade.beside S)
    rw [pollTask]
    generalize sv.goOn p = r at hwent hsound ⊢
    obtain ⟨went, p | h⟩ := r
    · exact ⟨hwent, hsound p rfl⟩
    · exact .ended (Multiset.zero_add S ▸ hwent) _
  | poll p poll reader =>
    obtain ⟨htrade, hsound⟩ := goOn_trade sv ht
    have hwent := hA.trade (htrade.beside S)
    rw [pollTask]
    generalize sv.goOn p = r at hwent hsound ⊢
    obtain ⟨went, p | h⟩ := r
    · exact ⟨hwent, hsound p rfl⟩
    · exact looked_pollPrepared (Multiset.zero_add S ▸ hwent) h poll reader

/-! ## Jobs -/

theorem Accounted.takeJob (hA : sv.Accounted S) {i : Nat} {job : Job}
    (hjob : sv.jobs[i]? = some job) :
    Accounted { sv with jobs := sv.jobs.eraseIdx i } (job.task.claims + S) where
  owned := by
    obtain ⟨hlt, rfl⟩ := List.getElem?_eq_some_iff.1 hjob
    have hperm := ((List.getElem_cons_eraseIdx_perm hlt).map fun j => j.task.claims).sum_eq
    rw [List.map_cons, List.sum_cons] at hperm
    have hclaims : S + sv.claims = sv.jobs[i].task.claims + S +
        Service.claims { sv with jobs := sv.jobs.eraseIdx i } := by
      rw [Service.claims, Service.claims, ← hperm]
      dsimp only
      ac_rfl
    exact hclaims ▸ hA.owned
  jobs j hmem := hA.jobs j ((List.eraseIdx_sublist _ _).subset hmem)
  sessions := hA.sessions
  numbered := hA.numbered

theorem Accounted.putJob {job : Job} (hA : sv.Accounted (job.task.claims + S))
    (hjob : job.task.Sound) : Accounted { sv with jobs := sv.jobs ++ [job] } S where
  owned := by
    have hclaims : job.task.claims + S + sv.claims =
        S + Service.claims { sv with jobs := sv.jobs ++ [job] } := by
      rw [Service.claims, Service.claims]
      dsimp only
      rw [List.map_append, List.sum_append, List.map_singleton, List.sum_singleton]
      ac_rfl
    exact hclaims ▸ hA.owned
  jobs j hmem := by
    rcases List.mem_append.1 hmem with hmem | hmem
    · exact hA.jobs j hmem
    · exact List.mem_singleton.1 hmem ▸ hjob
  sessions := hA.sessions
  numbered := hA.numbered

/-- **A look at a job** that is out of the list puts it back if it waits on. -/
theorem Accounted.pollJob {job : Job} (hA : sv.Accounted (job.task.claims + S))
    (hjob : job.task.Sound) : (sv.pollJob job).Accounted S := by
  have hlooked := looked_pollTask hA hjob
  unfold Service.pollJob
  generalize sv.pollTask job.task = r at hlooked ⊢
  obtain ⟨polled, task | result⟩ := r
  · have hput : polled.Accounted (({ job with task } : Job).task.claims + S) := hlooked.accounted
    exact hput.putJob hlooked.sound
  · have hdone := hlooked.accounted
    rw [Polled.claims, Multiset.zero_add] at hdone
    exact hdone.trade (.of_eq rfl ⟨rfl, rfl, rfl, rfl⟩)

end Service

end Treecast
