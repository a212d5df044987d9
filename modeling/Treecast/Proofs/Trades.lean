import Mathlib.Algebra.BigOperators.Group.Multiset.Basic
import Treecast.Service.Jobs
import Treecast.Proofs.HubMeters
import Treecast.Proofs.Ownership

/-!
# What jobs own

A job that waits for leases owns calls and leases.  Looking at it trades some of them for others:
a call for its lease, a part that fails with all its siblings for nothing.  Nobody else is concerned
by such a trade, so trades can be put one after another and beside one another.  Nor is any session:
the hub stays quiet about them.

## Results

* `Service.Trade`: whoever owned something before owns something else afterwards.
* `Service.pollParts_trade`, `Service.dropParts_trade`: several leases that are called for together;
  a failure gives all of them up.
* `Service.goOn_trade`: the preparation of a hijack; in the end nothing is owned.
* `Service.pollParts_keeps`: what a look at each of several leases keeps, a look at all of them
  keeps.
* `Service.pollParts_isFor`, `Service.claims_of_heldLeases?`: when all parts are held there is one
  lease for each tree that was called for.
-/

set_option autoImplicit false

namespace Treecast

open Routing

/-! ## What is owned -/

/-- What one of several leases comes to. -/
def Part.claims : Part → Claims
  | .called key call => {.call call (some key)}
  | .held key lease => {.lease lease (some key)}
  | .open_ _ | .failed _ => 0

/-- What a list of leases comes to. -/
def claimsOfParts (parts : List Part) : Claims := (parts.map Part.claims).sum

@[simp] theorem claimsOfParts_nil : claimsOfParts [] = 0 := rfl

@[simp] theorem claimsOfParts_cons (p : Part) (rest : List Part) :
    claimsOfParts (p :: rest) = p.claims + claimsOfParts rest := List.sum_cons

@[simp] theorem claimsOfParts_append (parts more : List Part) :
    claimsOfParts (parts ++ more) = claimsOfParts parts + claimsOfParts more := by
  rw [claimsOfParts, List.map_append, List.sum_append, claimsOfParts, claimsOfParts]

theorem claimsOfParts_perm {parts more : List Part} (hperm : parts.Perm more) :
    claimsOfParts parts = claimsOfParts more :=
  (hperm.map Part.claims).sum_eq

/-- What a look at several leases leaves. -/
def claimsOfLooks : Except Failure (List Part) → Claims
  | .ok parts => claimsOfParts parts
  | .error _ => 0

/-- What the leases of a session come to. -/
def claimsOfLeases (leases : SortedMap TreeKey Nat) : Claims :=
  Multiset.ofList (leases.toList.map fun e => .lease e.2 (some e.1))

/-- What is owned while a destination is prepared. -/
def PrepareStage.claims : PrepareStage → Claims
  | .begin_ => 0
  | .callerTree call => {.call call none}
  | .destinationTree callerLease call => {.call call none, .lease callerLease none}

/-- A preparation without destinations owns nothing. -/
def Preparation.Sound (p : Preparation) : Prop := p.left = [] → p.stage.claims = 0

/-- What is owned by a preparation that goes on, or that came to its end. -/
def claimsOfPreparing : Preparation ⊕ Hijack → Claims
  | .inl p => p.stage.claims
  | .inr _ => 0

/-- One of several leases is for a tree. -/
inductive Part.IsFor (key : TreeKey) : Part → Prop where
  | open_ : IsFor key (.open_ key)
  | called (call : Nat) : IsFor key (.called key call)
  | held (lease : Nat) : IsFor key (.held key lease)
  | failed (failure : Failure) : IsFor key (.failed failure)

/-- One of several leases may become another one for the same tree. -/
theorem forall₂_isFor_replace {trees : List TreeKey} {done rest : List Part} {p q : Part}
    (hparts : List.Forall₂ Part.IsFor trees (done ++ p :: rest))
    (hpq : ∀ tree, p.IsFor tree → q.IsFor tree) :
    List.Forall₂ Part.IsFor trees (done ++ q :: rest) := by
  induction done generalizing trees with
  | nil =>
    cases hparts with
    | cons hp hrest => exact .cons (hpq _ hp) hrest
  | cons d done ih =>
    cases hparts with
    | cons hd hrest => exact .cons hd (ih hrest)

namespace Service

/-- What a look at a destination leaves. -/
def Prepared.claims : Prepared → Claims
  | .waiting stage => stage.claims
  | .skipped | .looked _ => 0

/-- Jobs, sessions and names are the same. -/
structure SameOwners (sv sv' : Service) : Prop where
  jobs : sv'.jobs = sv.jobs
  sessions : sv'.sessions = sv.sessions
  leaseNames : sv'.leaseNames = sv.leaseNames
  nextSession : sv'.nextSession = sv.nextSession

/-- **A trade**: whoever owned `S` before owns `S'` afterwards, and neither another owner nor what
is counted of sessions is concerned. -/
structure Trade (sv : Service) (S : Claims) (sv' : Service) (S' : Claims) : Prop extends
    SameOwners sv sv' where
  owned : ∀ others, sv.hub.Owned (S + others) → sv'.hub.Owned (S' + others)
  quiet : sv.hub.Quiet sv'.hub

variable {sv sv' sv'' : Service} {S S' S'' : Claims} {k : Option TreeKey}

theorem SameOwners.refl (sv : Service) : SameOwners sv sv := ⟨rfl, rfl, rfl, rfl⟩

theorem SameOwners.trans (hab : SameOwners sv sv') (hbc : SameOwners sv' sv'') :
    SameOwners sv sv'' :=
  ⟨hbc.jobs.trans hab.jobs, hbc.sessions.trans hab.sessions,
    hbc.leaseNames.trans hab.leaseNames, hbc.nextSession.trans hab.nextSession⟩

theorem Trade.trans (hab : Trade sv S sv' S') (hbc : Trade sv' S' sv'' S'') :
    Trade sv S sv'' S'' :=
  ⟨hab.toSameOwners.trans hbc.toSameOwners, fun others hO => hbc.owned others (hab.owned others hO),
    hab.quiet.trans hbc.quiet⟩

/-- Something else may be owned beside. -/
theorem Trade.beside (ht : Trade sv S sv' S') (more : Claims) :
    Trade sv (S + more) sv' (S' + more) := by
  refine ⟨ht.toSameOwners, fun others hO => ?_, ht.quiet⟩
  rw [Multiset.add_assoc] at hO ⊢
  exact ht.owned (more + others) hO

theorem Trade.beside_left (ht : Trade sv S sv' S') (more : Claims) :
    Trade sv (more + S) sv' (more + S') := by
  rw [Multiset.add_comm more S, Multiset.add_comm more S']
  exact ht.beside more

/-- What is given up for nothing leaves what is owned beside. -/
theorem Trade.spend (ht : Trade sv S sv' 0) (more : Claims) : Trade sv (S + more) sv' more := by
  have hbeside := ht.beside more
  rwa [Multiset.zero_add] at hbeside

/-- What is got for nothing comes to what is owned beside. -/
theorem Trade.gain (ht : Trade sv 0 sv' S') (more : Claims) : Trade sv more sv' (S' + more) := by
  have hbeside := ht.beside more
  rwa [Multiset.zero_add] at hbeside

/-- The hub and the owners stay what they are. -/
theorem Trade.of_eq (hhub : sv'.hub = sv.hub) (hsame : SameOwners sv sv') : Trade sv S sv' S :=
  ⟨hsame, fun _ hO => hhub ▸ hO, hhub ▸ .refl sv.hub⟩

theorem Trade.refl (sv : Service) (S : Claims) : Trade sv S sv S := .of_eq rfl (.refl sv)

theorem stir_trade (sv : Service) (S : Claims) : Trade sv S sv.stir S :=
  .of_eq rfl ⟨rfl, rfl, rfl, rfl⟩

theorem Trade.stir (ht : Trade sv S sv' S') : Trade sv S sv'.stir S' :=
  ht.trans (stir_trade sv' S')

/-- Something is counted that is not about sessions. -/
theorem count_trade (sv : Service) (meter : Meter) (hother : meter.ofSessions = false)
    (hholders : meter ≠ .holders) (S : Claims) : Trade sv S (sv.count meter) S :=
  ⟨⟨rfl, rfl, rfl, rfl⟩, fun _ hO => hO.meters _, .count sv.hub meter hother hholders⟩

/-- Many trades of the same for the same. -/
theorem foldl_trade {α : Type} {f : Service → α → Service} {S : Claims}
    (hf : ∀ (sv : Service) (a : α), Trade sv S (f sv a) S) (as : List α) :
    ∀ sv : Service, Trade sv S (as.foldl f sv) S := by
  induction as with
  | nil => exact fun sv => .refl sv S
  | cons a rest ih => exact fun sv => (hf sv a).trans (ih _)

/-- A quiet operation of the hub trades what it trades. -/
theorem onHub_trade {α : Type} {f : Hub → Nat → Hub × α} (after : α → Claims)
    (hquiet : ∀ (h : Hub) (now : Nat), h.Quiet (f h now).1)
    (hf : ∀ (h : Hub) (now : Nat) (others : Claims), h.Owned (S + others) →
      (f h now).1.Owned (after (f h now).2 + others)) :
    Trade sv S (sv.onHub f).1 (after (sv.onHub f).2) :=
  ⟨⟨rfl, rfl, rfl, rfl⟩, fun others hO => hf sv.hub _ others hO, hquiet sv.hub _⟩

theorem onHub'_trade {f : Hub → Nat → Hub}
    (hquiet : ∀ (h : Hub) (now : Nat), h.Quiet (f h now))
    (hf : ∀ (h : Hub) (now : Nat) (others : Claims), h.Owned (S + others) →
      (f h now).Owned (S' + others)) :
    Trade sv S (sv.onHub' f) S' :=
  ⟨⟨rfl, rfl, rfl, rfl⟩, fun others hO => hf sv.hub _ others hO, hquiet sv.hub _⟩

theorem onBackend_trade {α : Type} (sv : Service) (f : Backend → Backend × α) (S : Claims) :
    Trade sv S (sv.onBackend f).1 S :=
  .of_eq rfl ⟨rfl, rfl, rfl, rfl⟩

/-! ## One call -/

theorem openFeed_trade (sv : Service) (ref : HolderRef) (key : TreeKey) (S : Claims) :
    Trade sv S (sv.openFeed ref key).1 S := by
  have hwatch := onBackend_trade sv (fun b => b.watch key.root) S
  unfold openFeed
  generalize sv.onBackend _ = r at hwatch ⊢
  obtain ⟨watched, _ | feed⟩ := r
  · exact hwatch
  · exact hwatch.trans (.of_eq rfl ⟨rfl, rfl, rfl, rfl⟩)

theorem launch_trade (sv : Service) (time call : Nat) (watched : Except StoreError Unit)
    (k : Option TreeKey) :
    Trade sv {.call call k} (sv.onHub fun h now => h.launch now time call watched).1
      (Hub.claimsOfLook call k
        ((sv.onHub fun h now => h.launch now time call watched).2.map .error)) := by
  refine onHub_trade (fun failure : Option Failure =>
    Hub.claimsOfLook call k (failure.map .error))
    (fun h now => Hub.quiet_launch h now time call watched) fun h now others hO => ?_
  exact Hub.Owned.launch hO now time watched

/-- An admitted call opens the store watch, if it has to, and starts its holder. -/
theorem launchCall_trade (sv : Service) (call : Nat) (k : Option TreeKey) :
    Trade sv {.call call k} (sv.launchCall call).1
      (Hub.claimsOfLook call k ((sv.launchCall call).2.map .error)) := by
  unfold launchCall
  cases sv.hub.watchFor? call with
  | some lease =>
    have hopened := openFeed_trade sv (.ofHub lease.holder) lease.key {.call call k}
    exact hopened.stir.trans (launch_trade _ _ call _ k)
  | none => exact (stir_trade sv _).trans (launch_trade _ _ call _ k)

/-- **A look at a call** trades it for itself, for its lease or for nothing. -/
theorem pollCall_trade (sv : Service) (call : Nat) (k : Option TreeKey) :
    Trade sv {.call call k} (sv.pollCall call).1
      (Hub.claimsOfLook call k (sv.pollCall call).2) := by
  unfold pollCall
  generalize hr : (if sv.hub.isAdmitted call then sv.launchCall call else (sv, none)) = r
  have hlaunched : Trade sv {.call call k} r.1 (Hub.claimsOfLook call k (r.2.map .error)) := by
    rw [← hr]
    split
    · exact launchCall_trade sv call k
    · exact .refl sv _
  obtain ⟨launched, failure⟩ := r
  cases failure with
  | some f => exact hlaunched.stir
  | none =>
    have hended : Trade launched {.call call k} _ (Hub.claimsOfLook call k _) :=
      onHub_trade (Hub.claimsOfLook call k)
        (fun h now => Hub.quiet_tryEnd h now launched.time call)
        fun h now others hO => Hub.Owned.tryEnd hO now launched.time
    have hboth := hlaunched.trans hended
    dsimp only at hboth ⊢
    generalize launched.onHub _ = r at hboth ⊢
    obtain ⟨ended, _ | r⟩ := r
    · exact hboth
    · exact hboth.stir

theorem forget_trade (sv : Service) (call : Nat) (k : Option TreeKey) :
    Trade sv {.call call k} sv {.call call none} :=
  ⟨.refl sv, fun _ hO => Hub.Owned.forget_call hO, .refl sv.hub⟩

theorem callFor_trade (sv : Service) (key : TreeKey) :
    Trade sv 0 (sv.callFor key).1 (Hub.claimsOfRequest (some key) (sv.callFor key).2) :=
  onHub_trade (Hub.claimsOfRequest (some key))
    (fun h now => Hub.quiet_request h now sv.time key) fun h now others hO => by
    rw [Multiset.zero_add] at hO
    exact hO.request now sv.time key

theorem hub_dropLease_trade (sv : Service) (lease : Nat) (k : Option TreeKey) :
    Trade sv {.lease lease k} (sv.onHub' fun h now => h.dropLease now lease) 0 :=
  onHub'_trade (fun h now => Hub.quiet_dropLease h now lease) fun h now others hO => by
    rw [Multiset.zero_add]
    exact Hub.Owned.dropLease hO now

theorem dropLease_trade (sv : Service) (lease : Nat) (k : Option TreeKey) :
    Trade sv {.lease lease k} (sv.dropLease lease) 0 :=
  (hub_dropLease_trade sv lease k).stir

theorem abandon_trade (sv : Service) (call : Nat) (k : Option TreeKey) :
    Trade sv {.call call k} (sv.onHub' fun h now => h.abandon now call) 0 :=
  onHub'_trade (fun h now => Hub.quiet_abandon h now call) fun h now others hO => by
    rw [Multiset.zero_add]
    exact Hub.Owned.abandon hO now

/-! ## Several leases -/

theorem pollCalled_trade (sv : Service) (key : TreeKey) (call : Nat) :
    Trade sv {.call call (some key)} (sv.pollCalled key call).1
      (sv.pollCalled key call).2.claims := by
  have hpoll := pollCall_trade sv call (some key)
  unfold pollCalled
  generalize sv.pollCall call = r at hpoll ⊢
  obtain ⟨polled, _ | _ | lease⟩ := r <;> exact hpoll

/-- **A look at one of several leases** trades what it comes to. -/
theorem pollPart_trade (sv : Service) (p : Part) :
    Trade sv p.claims (sv.pollPart p).1 (sv.pollPart p).2.claims := by
  cases p with
  | open_ key =>
    have hcall := callFor_trade sv key
    rw [pollPart]
    generalize sv.callFor key = r at hcall ⊢
    obtain ⟨called, _ | call⟩ := r
    · exact hcall
    · exact hcall.trans (pollCalled_trade called key call)
  | called key call => exact pollCalled_trade sv key call
  | held key lease => exact .refl sv _
  | failed f => exact .refl sv _

theorem dropPart_trade (sv : Service) (p : Part) : Trade sv p.claims (sv.dropPart p) 0 := by
  cases p with
  | open_ key => exact .refl sv 0
  | called key call => exact (abandon_trade sv call (some key)).stir
  | held key lease => exact dropLease_trade sv lease (some key)
  | failed f => exact .refl sv 0

/-- **Leases that are given up** are gone. -/
theorem dropParts_trade (parts : List Part) :
    ∀ sv : Service, Trade sv (claimsOfParts parts) (parts.foldl dropPart sv) 0 := by
  induction parts with
  | nil => exact fun sv => .refl sv 0
  | cons p rest ih =>
    intro sv
    rw [claimsOfParts_cons]
    exact ((dropPart_trade sv p).spend (claimsOfParts rest)).trans (ih _)

/-- The order in which many leases are given up does not matter. -/
theorem dropMany_trade (sv : Service) (parts : List Part) :
    Trade sv (claimsOfParts parts) (sv.dropMany parts) 0 := by
  have hall : claimsOfParts parts = claimsOfParts
      (((parts.dropWhile Part.isHeld).filter fun p => !p.isHeld).reverse ++
        (parts.dropWhile Part.isHeld).filter Part.isHeld ++ parts.takeWhile Part.isHeld) := by
    refine claimsOfParts_perm (List.Perm.symm ?_)
    have hrest := ((List.reverse_perm _).append_right _).trans
      (List.perm_append_comm.trans
        (List.filter_append_perm Part.isHeld (parts.dropWhile Part.isHeld)))
    refine (hrest.append_right _).trans (List.perm_append_comm.trans (.of_eq ?_))
    exact List.takeWhile_append_dropWhile
  rw [hall]
  exact dropParts_trade _ sv

theorem pollFew_trade (rest : List Part) : ∀ (sv : Service) (done : List Part),
    Trade sv (claimsOfParts done + claimsOfParts rest) (sv.pollFew done rest).1
      (claimsOfLooks (sv.pollFew done rest).2) := by
  induction rest with
  | nil =>
    intro sv done
    rw [claimsOfParts_nil, Multiset.add_zero]
    exact .refl sv _
  | cons p rest ih =>
    intro sv done
    have hpoll := ((pollPart_trade sv p).beside (claimsOfParts rest)).beside_left
      (claimsOfParts done)
    rw [pollFew, claimsOfParts_cons]
    generalize sv.pollPart p = r at hpoll ⊢
    obtain ⟨polled, q⟩ := r
    -- a part that has not failed is done
    have hnext : Trade sv (claimsOfParts done + (p.claims + claimsOfParts rest))
        (polled.pollFew (done ++ [q]) rest).1
        (claimsOfLooks (polled.pollFew (done ++ [q]) rest).2) := by
      refine hpoll.trans ?_
      have hrest := ih polled (done ++ [q])
      rwa [claimsOfParts_append, claimsOfParts_cons, claimsOfParts_nil, Multiset.add_zero,
        Multiset.add_assoc] at hrest
    cases q with
    | failed f =>
      have hdrop := dropParts_trade (done ++ rest) polled
      rw [claimsOfParts_append, ← Multiset.zero_add (claimsOfParts rest)] at hdrop
      exact hpoll.trans hdrop
    | open_ key => exact hnext
    | called key call => exact hnext
    | held key lease => exact hnext

theorem pollMany_trade (rest : List Part) : ∀ (sv : Service) (done : List Part),
    Trade sv (claimsOfParts done + claimsOfParts rest) (sv.pollMany done rest).1
      (claimsOfLooks (sv.pollMany done rest).2) := by
  induction rest with
  | nil =>
    intro sv done
    rw [claimsOfParts_nil, Multiset.add_zero]
    exact .refl sv _
  | cons p rest ih =>
    intro sv done
    have hpoll := ((pollPart_trade sv p).beside (claimsOfParts rest)).beside_left
      (claimsOfParts done)
    rw [pollMany, claimsOfParts_cons]
    generalize sv.pollPart p = r at hpoll ⊢
    obtain ⟨polled, q⟩ := r
    refine hpoll.trans ?_
    dsimp only
    split
    · have hdrop := dropMany_trade polled (done ++ q :: rest)
      rwa [claimsOfParts_append, claimsOfParts_cons] at hdrop
    · have hrest := ih polled (done ++ [q])
      rwa [claimsOfParts_append, claimsOfParts_cons, claimsOfParts_nil, Multiset.add_zero,
        Multiset.add_assoc] at hrest

/-- **A look at several leases** trades what they come to; a failure gives all of them up. -/
theorem pollParts_trade (sv : Service) (parts : List Part) :
    Trade sv (claimsOfParts parts) (sv.pollParts parts).1
      (claimsOfLooks (sv.pollParts parts).2) := by
  have hfew := pollFew_trade parts sv []
  have hmany := pollMany_trade parts sv []
  rw [claimsOfParts_nil, Multiset.zero_add] at hfew hmany
  unfold pollParts
  split
  · exact hfew
  · exact hmany

/-! ## The preparation of a hijack -/

theorem countDiagnostics_trade (sv : Service) (hijack : Hijack) (application : String)
    (S : Claims) : Trade sv S (sv.countDiagnostics hijack application) S := by
  unfold countDiagnostics
  split
  · rename_i t _
    exact foldl_trade (fun sv d => count_trade sv (.hijack d t.mode) rfl nofun S) _ sv
  · exact .refl sv S

theorem lookAt_trade (sv : Service) (h : Hijack) (caller : Caller) (application : String)
    (t : Takeover) (callerLease lease : Nat) :
    Trade sv {.lease lease none, .lease callerLease none}
      (sv.lookAt h caller application t callerLease lease).1
      (sv.lookAt h caller application t callerLease lease).2.claims := by
  have hdrop : ∀ counted : Service, Trade counted {.lease lease none, .lease callerLease none}
      ((counted.dropLease lease).dropLease callerLease) 0 := by
    intro counted
    exact ((dropLease_trade counted lease none).spend {.lease callerLease none}).trans
      (dropLease_trade _ callerLease none)
  exact (countDiagnostics_trade sv _ application _).trans (hdrop _)

theorem prepareDestination_trade (sv : Service) (h : Hijack) (caller : Caller)
    (application : String) (t : Takeover) (callerLease call : Nat) :
    Trade sv (PrepareStage.destinationTree callerLease call).claims
      (sv.prepareDestination h caller application t callerLease call).1
      (sv.prepareDestination h caller application t callerLease call).2.claims := by
  have hpoll := (pollCall_trade sv call none).beside {.lease callerLease none}
  unfold prepareDestination
  generalize sv.pollCall call = r at hpoll ⊢
  obtain ⟨polled, _ | _ | lease⟩ := r
  · exact hpoll
  · exact hpoll.trans (dropLease_trade polled callerLease none)
  · exact hpoll.trans (lookAt_trade polled h caller application t callerLease lease)

theorem prepareCaller_trade (sv : Service) (h : Hijack) (caller : Caller) (application : String)
    (t : Takeover) (call : Nat) :
    Trade sv (PrepareStage.callerTree call).claims (sv.prepareCaller h caller application t call).1
      (sv.prepareCaller h caller application t call).2.claims := by
  have hpoll := pollCall_trade sv call none
  unfold prepareCaller
  generalize sv.pollCall call = r at hpoll ⊢
  obtain ⟨polled, _ | _ | callerLease⟩ := r
  · exact hpoll
  · exact hpoll
  · have hcall := (callFor_trade polled ⟨application, .service⟩).gain {.lease callerLease none}
    refine hpoll.trans ?_
    dsimp only
    generalize polled.callFor ⟨application, .service⟩ = r at hcall ⊢
    obtain ⟨called, _ | call⟩ := r
    · exact hcall.trans (dropLease_trade called callerLease none)
    · have hforget := (forget_trade called call (some ⟨application, .service⟩)).beside
        {.lease callerLease none}
      exact (hcall.trans hforget).trans
        (prepareDestination_trade called h caller application t callerLease call)

theorem prepareOne_trade (sv : Service) (h : Hijack) (caller : Caller) (application : String)
    (t : Takeover) (stage : PrepareStage) :
    Trade sv stage.claims (sv.prepareOne h caller application t stage).1
      (sv.prepareOne h caller application t stage).2.claims := by
  cases stage with
  | begin_ =>
    have hcall := callFor_trade sv ⟨caller.application, .service⟩
    rw [prepareOne]
    generalize sv.callFor ⟨caller.application, .service⟩ = r at hcall ⊢
    obtain ⟨called, _ | call⟩ := r
    · exact hcall
    · have hforget := forget_trade called call (some ⟨caller.application, .service⟩)
      exact (hcall.trans hforget).trans (prepareCaller_trade called h caller application t call)
  | callerTree call => exact prepareCaller_trade sv h caller application t call
  | destinationTree callerLease call =>
    exact prepareDestination_trade sv h caller application t callerLease call

theorem prepareAll_trade (caller : Caller) (left : List (String × Takeover)) :
    ∀ (sv : Service) (h : Hijack) (stage : PrepareStage), (left = [] → stage.claims = 0) →
      Trade sv stage.claims (sv.prepareAll caller h stage left).1
        (claimsOfPreparing (sv.prepareAll caller h stage left).2) ∧
      ∀ p, (sv.prepareAll caller h stage left).2 = .inl p → p.Sound := by
  induction left with
  | nil =>
    intro sv h stage hstage
    rw [hstage rfl]
    exact ⟨.refl sv 0, fun p hp => nomatch hp⟩
  | cons e rest ih =>
    intro sv h stage _
    obtain ⟨application, t⟩ := e
    have hone := prepareOne_trade sv h caller application t stage
    rw [prepareAll]
    generalize sv.prepareOne h caller application t stage = r at hone ⊢
    obtain ⟨one, stage | _ | prepared⟩ := r
    · exact ⟨hone, fun p hp hleft => by cases hp; cases hleft⟩
    · obtain ⟨hrest, hsound⟩ := ih one h .begin_ fun _ => rfl
      exact ⟨hone.trans hrest, hsound⟩
    · obtain ⟨hrest, hsound⟩ := ih one prepared .begin_ fun _ => rfl
      exact ⟨hone.trans hrest, hsound⟩

/-- **A preparation** owns nothing in the end. -/
theorem goOn_trade (sv : Service) {p : Preparation} (hp : p.Sound) :
    Trade sv p.stage.claims (sv.goOn p).1 (claimsOfPreparing (sv.goOn p).2) ∧
      ∀ q, (sv.goOn p).2 = .inl q → q.Sound :=
  prepareAll_trade p.caller p.left sv p.hijack p.stage hp

/-! ## What a look at several leases keeps -/

/-- What holds of several leases after a look at them.  If one of them failed, it held while the
failure was still among them. -/
def LeftWith (P : List Part → Prop) : Except Failure (List Part) → Prop
  | .ok parts => P parts
  | .error f => ∃ parts, P parts ∧ .failed f ∈ parts

theorem mem_of_dueFailure? {parts : List Part} {f : Failure} (hf : dueFailure? parts = some f) :
    .failed f ∈ parts := by
  unfold dueFailure? at hf
  split at hf
  · rename_i g rest hdrop
    cases hf
    have hmem : Part.failed f ∈ parts.dropWhile Part.isHeld := hdrop ▸ List.mem_cons_self
    exact (List.dropWhile_suffix _).subset hmem
  · cases hf

section Keeps

variable {P : List Part → Prop}
  (hkeep : ∀ (sv : Service) (done : List Part) (p : Part) (rest : List Part),
    P (done ++ p :: rest) → P (done ++ (sv.pollPart p).2 :: rest))

include hkeep

theorem pollFew_keeps (rest : List Part) : ∀ (sv : Service) (done : List Part),
    P (done ++ rest) → LeftWith P (sv.pollFew done rest).2 := by
  induction rest with
  | nil =>
    intro sv done hparts
    rwa [List.append_nil] at hparts
  | cons p rest ih =>
    intro sv done hparts
    have hnext := hkeep sv done p rest hparts
    rw [pollFew]
    generalize sv.pollPart p = r at hnext ⊢
    obtain ⟨polled, q⟩ := r
    cases q with
    | failed f => exact ⟨_, hnext, List.mem_append_right _ List.mem_cons_self⟩
    | open_ key => exact ih polled _ (List.append_cons .. ▸ hnext)
    | called key call => exact ih polled _ (List.append_cons .. ▸ hnext)
    | held key lease => exact ih polled _ (List.append_cons .. ▸ hnext)

theorem pollMany_keeps (rest : List Part) : ∀ (sv : Service) (done : List Part),
    P (done ++ rest) → LeftWith P (sv.pollMany done rest).2 := by
  induction rest with
  | nil =>
    intro sv done hparts
    rwa [List.append_nil] at hparts
  | cons p rest ih =>
    intro sv done hparts
    have hnext := hkeep sv done p rest hparts
    rw [pollMany]
    generalize sv.pollPart p = r at hnext ⊢
    obtain ⟨polled, q⟩ := r
    dsimp only at hnext ⊢
    split
    · rename_i hdue
      exact ⟨_, hnext, mem_of_dueFailure? hdue⟩
    · exact ih polled _ (List.append_cons .. ▸ hnext)

/-- **A look at several leases** keeps what a look at each of them keeps. -/
theorem pollParts_keeps (sv : Service) {parts : List Part} (hparts : P parts) :
    LeftWith P (sv.pollParts parts).2 := by
  unfold pollParts
  split
  · exact pollFew_keeps hkeep parts sv [] hparts
  · exact pollMany_keeps hkeep parts sv [] hparts

end Keeps

/-! ## The trees of several leases -/

theorem pollCalled_isFor (sv : Service) (key : TreeKey) (call : Nat) :
    (sv.pollCalled key call).2.IsFor key := by
  unfold pollCalled
  generalize sv.pollCall call = r
  obtain ⟨polled, _ | _ | lease⟩ := r
  · exact .called call
  · exact .failed _
  · exact .held lease

/-- A look at one of several leases does not change its tree. -/
theorem pollPart_isFor (sv : Service) {tree : TreeKey} {p : Part} (hp : p.IsFor tree) :
    (sv.pollPart p).2.IsFor tree := by
  cases hp with
  | open_ =>
    rw [pollPart]
    generalize sv.callFor tree = r
    obtain ⟨called, _ | call⟩ := r
    · exact .failed _
    · exact pollCalled_isFor called tree call
  | called call => exact pollCalled_isFor sv tree call
  | held lease => exact .held lease
  | failed f => exact .failed f

/-- A look at several leases does not change their trees. -/
theorem pollParts_isFor {trees : List TreeKey} {parts after : List Part} (sv : Service)
    (hparts : List.Forall₂ Part.IsFor trees parts) (hok : (sv.pollParts parts).2 = .ok after) :
    List.Forall₂ Part.IsFor trees after := by
  have hkept := pollParts_keeps (P := List.Forall₂ Part.IsFor trees)
    (fun sv _ _ _ hparts => forall₂_isFor_replace hparts fun _ => pollPart_isFor sv) sv hparts
  rwa [hok] at hkept

/-! ## The leases of a session -/

/-- The leases are held, one after another. -/
theorem heldLeases?_eq_some {parts : List Part} {leases : SortedMap TreeKey Nat}
    (hheld : heldLeases? parts = some leases) :
    ∃ held : List (TreeKey × Nat), parts = held.map (fun e => .held e.1 e.2) ∧
      leases = SortedMap.ofList held := by
  unfold heldLeases? at hheld
  obtain ⟨held, hmap, rfl⟩ := Option.map_eq_some_iff.1 hheld
  refine ⟨held, ?_, rfl⟩
  clear hheld
  induction parts generalizing held with
  | nil =>
    cases hmap
    rfl
  | cons p rest ih =>
    rw [List.mapM_cons] at hmap
    cases p with
    | held key lease =>
      change Option.bind _ (fun more => some ((key, lease) :: more)) = some held at hmap
      obtain ⟨more, hmore, heq⟩ := Option.bind_eq_some_iff.1 hmap
      cases heq
      rw [ih more hmore, List.map_cons]
    | open_ key => cases hmap
    | called key call => cases hmap
    | failed f => cases hmap

theorem claimsOfParts_held (held : List (TreeKey × Nat)) :
    claimsOfParts (held.map fun e => .held e.1 e.2) =
      Multiset.ofList (held.map fun e => .lease e.2 (some e.1)) := by
  induction held with
  | nil => rfl
  | cons e rest ih =>
    rw [List.map_cons, List.map_cons, claimsOfParts_cons, ih]
    rfl

theorem keys_of_forall₂_isFor {trees : List TreeKey} {held : List (TreeKey × Nat)}
    (hparts : List.Forall₂ Part.IsFor trees (held.map fun e => .held e.1 e.2)) :
    held.map Prod.fst = trees := by
  induction held generalizing trees with
  | nil =>
    cases hparts
    rfl
  | cons e rest ih =>
    cases hparts with
    | cons hfirst hrest =>
      cases hfirst
      rw [List.map_cons, ih hrest]

/-- **When all leases are held** there is one for each tree. -/
theorem claims_of_heldLeases? {trees : List TreeKey} {parts : List Part}
    {leases : SortedMap TreeKey Nat} (hsorted : trees.Pairwise fun a b => compare a b = .lt)
    (hparts : List.Forall₂ Part.IsFor trees parts) (hheld : heldLeases? parts = some leases) :
    leases.keys = trees ∧ claimsOfLeases leases = claimsOfParts parts := by
  obtain ⟨held, rfl, rfl⟩ := heldLeases?_eq_some hheld
  have hkeys := keys_of_forall₂_isFor hparts
  have hentries : Entries.Sorted held := by
    rw [← hkeys] at hsorted
    exact List.pairwise_map.1 hsorted
  have hself : (SortedMap.ofList held).entries = held := Entries.ofList_eq_self hentries
  constructor
  · rw [SortedMap.keys, hself, hkeys]
  · rw [claimsOfLeases, SortedMap.toList, hself, claimsOfParts_held]

end Service

end Treecast
