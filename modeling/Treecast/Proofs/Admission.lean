import Treecast.Service.Actions
import Treecast.Settings.Check
import Treecast.Proofs.Hijacking
import Treecast.Proofs.SessionLeases

/-!
# Whom a refused long poll blames

A long poll that is refused as the client's fault either could not be read, and then nothing was
done for it, or it was given a name that is none by the settings: the target of a forced route, or
the intent of hijacking.  The check of the settings lets such names pass.

A request that was read has valid names only, and forced routes and hijacking add their own.  The
start of its session waits for trees with valid names, and whatever fails from then on is a failure
of the store, of a holder or of a deadline.

## Results

* `Request.wellNamed_ofBytes`, `Poll.wellNamed_force`, `Hijack.wellNamed_extendRequest`: the names
  of a request, from its body to the start of a session.
* `Service.blameless_pollParts`: what several leases fail with is not the client's fault.
* `Task.ComesTo`: what may become of a task, whatever happens meanwhile.
* `Service.openPoll_blames`: whom a refusal blames.
-/

set_option autoImplicit false

namespace Treecast

open Routing

/-! ## Chains that may fail -/

section Chains

variable {ε α β : Type}

/-- A chain that succeeds succeeded at its first step. -/
theorem exists_ok_of_bind {x : Except ε α} {f : α → Except ε β} {b : β} (h : x >>= f = .ok b) :
    ∃ a, x = .ok a ∧ f a = .ok b := by
  cases x with
  | error e => cases h
  | ok a => exact ⟨a, rfl, h⟩

/-- What every step keeps holds at the end of a chain that succeeds. -/
theorem foldlM_keeps {P : β → Prop} {f : β → α → Except ε β}
    (hstep : ∀ b a b', P b → f b a = .ok b' → P b') (xs : List α) :
    ∀ {b b' : β}, P b → xs.foldlM f b = .ok b' → P b' := by
  induction xs with
  | nil =>
    intro b b' hb h
    cases h
    exact hb
  | cons a rest ih =>
    intro b b' hb h
    rw [List.foldlM_cons] at h
    obtain ⟨next, hnext, hrest⟩ := exists_ok_of_bind h
    exact ih (hstep b a next hb hnext) hrest

end Chains

/-! ## The names of a request -/

namespace Selection

/-- The names that are asked for are valid. -/
def WellNamed (s : Selection) : Prop :=
  ∀ cluster, s.clusters.has cluster = true → isValidName cluster = true

theorem wellNamed_all : all.WellNamed := fun _ hhas => nomatch hhas

theorem WellNamed.add {s : Selection} (hs : s.WellNamed) {cluster : String}
    (hcluster : isValidName cluster = true) (name : String)
    (hname : (s.clusters.add cluster).has name = true) : isValidName name = true := by
  rw [SortedSet.has, SortedMap.contains, SortedSet.add, SortedMap.find?_insert] at hname
  split at hname
  · rename_i heq
    exact heq ▸ hcluster
  · exact hs name hname

end Selection

namespace Request

/-- The applications and clusters that are asked for have valid names. -/
def WellNamed (r : Request) : Prop :=
  ∀ key s, r.find? key = some s → isValidName key.application = true ∧ s.WellNamed

variable {r r' : Request} {key : FeedKey} {cluster target : String}

theorem wellNamed_empty : empty.WellNamed := fun _ _ hs => nomatch hs

theorem WellNamed.selectionOf (hr : r.WellNamed) (key : FeedKey) :
    (r.selectionOf key).WellNamed := by
  rw [Request.selectionOf]
  cases hs : r.find? key with
  | none => exact Selection.wellNamed_all
  | some s => exact (hr key s hs).2

theorem find?_alter (r : Request) (key : FeedKey) (f : Selection → Selection) (other : FeedKey) :
    (r.alter key f).find? other =
      if other = key then some (f (r.selectionOf key)) else r.find? other :=
  SortedMap.find?_insert _ _ _ _

theorem find?_routeIntents (r : Request) (key other : FeedKey) :
    (r.routeIntents key).find? other =
      if other = key then (r.find? key).map fun s => { s with intentRouting := true }
      else r.find? other :=
  SortedMap.find?_modify _ _ _ _

theorem WellNamed.alter (hr : r.WellNamed) (hkey : isValidName key.application = true)
    {f : Selection → Selection} (hf : (f (r.selectionOf key)).WellNamed) :
    (r.alter key f).WellNamed := by
  intro other s hs
  rw [find?_alter] at hs
  split at hs
  · rename_i heq
    cases hs
    exact ⟨heq ▸ hkey, hf⟩
  · exact hr other s hs

theorem WellNamed.routeIntents (hr : r.WellNamed) (key : FeedKey) :
    (r.routeIntents key).WellNamed := by
  intro other s hs
  rw [find?_routeIntents] at hs
  split at hs
  · rename_i heq
    obtain ⟨before, hbefore, rfl⟩ := Option.map_eq_some_iff.1 hs
    exact heq ▸ hr key before hbefore
  · exact hr other s hs

theorem checkName_of_valid {name : String} (hname : isValidName name = true) (role : NameRole) :
    checkName role name = .ok () := if_pos hname

theorem valid_of_checkName {role : NameRole} {name : String}
    (hok : checkName role name = .ok ()) : isValidName name = true := by
  unfold checkName at hok
  split at hok
  · assumption
  · cases hok

theorem WellNamed.watch (hr : r.WellNamed) (hok : r.watch key = .ok r') : r'.WellNamed := by
  obtain ⟨_, hkey, hok⟩ := exists_ok_of_bind hok
  cases hok
  exact hr.alter (valid_of_checkName hkey) (hr.selectionOf key)

/-- A cluster is asked for if the names are valid, and then that is all that changes. -/
theorem limit_eq_ok_iff : r.limit key cluster = .ok r' ↔
    isValidName cluster = true ∧ isValidName key.application = true ∧
      r' = r.alter key (·.limit cluster) := by
  constructor
  · intro hok
    obtain ⟨_, hcluster, hok⟩ := exists_ok_of_bind hok
    obtain ⟨_, hkey, hok⟩ := exists_ok_of_bind hok
    cases hok
    exact ⟨valid_of_checkName hcluster, valid_of_checkName hkey, rfl⟩
  · rintro ⟨hcluster, hkey, rfl⟩
    simp only [limit, checkName_of_valid hcluster, checkName_of_valid hkey]
    rfl

theorem WellNamed.limit (hr : r.WellNamed) (hok : r.limit key cluster = .ok r') :
    r'.WellNamed := by
  obtain ⟨hcluster, hkey, rfl⟩ := limit_eq_ok_iff.1 hok
  exact hr.alter hkey ((hr.selectionOf key).add hcluster)

theorem pin_eq_ok_iff : r.pin key cluster target = .ok r' ↔
    isValidName cluster = true ∧ isValidName target = true ∧
      isValidName key.application = true ∧ r' = r.alter key (·.pin cluster target) := by
  constructor
  · intro hok
    obtain ⟨_, hcluster, hok⟩ := exists_ok_of_bind hok
    obtain ⟨_, htarget, hok⟩ := exists_ok_of_bind hok
    obtain ⟨_, hkey, hok⟩ := exists_ok_of_bind hok
    cases hok
    exact ⟨valid_of_checkName hcluster, valid_of_checkName htarget, valid_of_checkName hkey, rfl⟩
  · rintro ⟨hcluster, htarget, hkey, rfl⟩
    simp only [pin, checkName_of_valid hcluster, checkName_of_valid htarget,
      checkName_of_valid hkey]
    rfl

theorem WellNamed.pin (hr : r.WellNamed) (hok : r.pin key cluster target = .ok r') :
    r'.WellNamed := by
  obtain ⟨hcluster, -, hkey, rfl⟩ := pin_eq_ok_iff.1 hok
  exact hr.alter hkey ((hr.selectionOf key).add hcluster)

/-- Of an application with a valid name, a cluster is refused for its own name only. -/
theorem blame_of_limit (hkey : isValidName key.application = true) {fault : RequestFault}
    (herror : r.limit key cluster = .error fault) :
    isValidName cluster = false ∧ fault = .invalidName .cluster cluster := by
  cases hcluster : isValidName cluster with
  | true =>
    rw [limit_eq_ok_iff.2 ⟨hcluster, hkey, rfl⟩] at herror
    cases herror
  | false =>
    simp only [limit, checkName, hcluster] at herror
    cases herror
    exact ⟨rfl, rfl⟩

/-- A pin for names that are valid is refused for its target only. -/
theorem blame_of_pin (hkey : isValidName key.application = true)
    (hcluster : isValidName cluster = true) {fault : RequestFault}
    (herror : r.pin key cluster target = .error fault) :
    isValidName target = false ∧ fault = .invalidName .cluster target := by
  cases htarget : isValidName target with
  | true =>
    rw [pin_eq_ok_iff.2 ⟨hcluster, htarget, hkey, rfl⟩] at herror
    cases herror
  | false =>
    simp only [pin, checkName_of_valid hcluster] at herror
    simp only [checkName, htarget] at herror
    cases herror
    exact ⟨rfl, rfl⟩

theorem WellNamed.addFeed (hr : r.WellNamed) {clusters : List String}
    (hok : r.addFeed key clusters = .ok r') : r'.WellNamed := by
  obtain ⟨watched, hwatch, hok⟩ := exists_ok_of_bind hok
  exact foldlM_keeps (fun _ _ _ hr => hr.limit) clusters (hr.watch hwatch) hok

theorem WellNamed.addKind (hr : r.WellNamed) {kindName : String}
    {applications : SortedMap String (List String)}
    (hok : r.addKind kindName applications = .ok r') : r'.WellNamed := by
  unfold Request.addKind at hok
  split at hok
  · cases hok
  · exact foldlM_keeps (fun _ _ _ hr => hr.addFeed) applications.toList hr hok

/-- **A request that was read** has valid names only. -/
theorem wellNamed_ofBytes {bytes : List UInt8} (hok : ofBytes bytes = .ok r) : r.WellNamed := by
  unfold ofBytes at hok
  split at hok
  · cases hok
  rename_i body _
  obtain ⟨read, hread, hok⟩ := exists_ok_of_bind hok
  have hnames : read.WellNamed :=
    foldlM_keeps (fun _ _ _ hr => hr.addKind) body.toList wellNamed_empty hread
  split at hok
  · cases hok
  · cases hok
    exact hnames

end Request

/-! ## Forced routes -/

namespace Routing

/-- A policy forces clusters onto a target. -/
def Policy.Forces (p : Policy) (target : String) : Prop :=
  p.hijack.forceEnabled = true ∧ target ∈ p.hijack.forceClusters.values

namespace ForceTable

/-- A table forces onto the targets of its settings only. -/
theorem mem_values_of_lookup {s : HijackSettings} {cluster target : String}
    (hlookup : (ofSettings s).lookup cluster = some target) :
    target ∈ s.forceClusters.values := by
  unfold lookup at hlookup
  split at hlookup
  · rename_i exact_ hexact
    cases hlookup
    have hfound : (s.forceClusters.filter fun pattern _ => (start? pattern).isNone).find? cluster =
        some target := hexact
    rw [SortedMap.find?_filter] at hfound
    exact List.mem_map.2
      ⟨_, SortedMap.mem_toList_iff.2 (Option.filter_eq_some_iff.1 hfound).1, rfl⟩
  · obtain ⟨entry, hentry, rfl⟩ := Option.map_eq_some_iff.1 hlookup
    have hmem := List.mem_mergeSort.1 (List.mem_of_find?_eq_some hentry)
    obtain ⟨pattern, hpattern, hstart⟩ := List.mem_filterMap.1 hmem
    obtain ⟨_, -, rfl⟩ := Option.map_eq_some_iff.1 hstart
    exact List.mem_map.2 ⟨pattern, hpattern, rfl⟩

/-- A table forces a name that a caller asks for, unless it is pinned already or the caller is left
alone. -/
structure Forces (t : ForceTable) (request : Request) (caller : Option String) (feed : FeedKey)
    (name target : String) : Prop where
  routed : feed.kind.tree.carriesRouting = true
  heeded : t.excludes feed.application caller = false
  asked : ∃ s, request.find? feed = some s ∧ s.clusters.has name = true ∧ s.isPinned name = false
  looked : t.lookup name = some target

theorem mem_pinsFor_iff {t : ForceTable} {caller : Option String} {key : FeedKey} {s : Selection}
    {p : Pin} : p ∈ t.pinsFor caller key s ↔
      (key.kind.tree.carriesRouting = true ∧ t.excludes key.application caller = false) ∧
        p.feed = key ∧ (s.clusters.has p.cluster = true ∧ s.isPinned p.cluster = false) ∧
        t.lookup p.cluster = some p.target := by
  constructor
  · intro hp
    unfold pinsFor at hp
    split at hp
    · cases hp
    · rename_i hwanted
      simp only [Bool.or_eq_true, Bool.not_eq_true', not_or, Bool.not_eq_false,
        Bool.not_eq_true] at hwanted
      obtain ⟨cluster, hcluster, hpin⟩ := List.mem_filterMap.1 hp
      split at hpin
      · cases hpin
      · rename_i hfree
        obtain ⟨target, htarget, rfl⟩ := Option.map_eq_some_iff.1 hpin
        exact ⟨hwanted, rfl, ⟨SortedMap.mem_keys_iff.1 hcluster, Bool.eq_false_iff.2 hfree⟩,
          htarget⟩
  · rintro ⟨⟨hrouted, hheeded⟩, rfl, ⟨hhas, hfree⟩, htarget⟩
    rw [pinsFor, hrouted, hheeded, if_neg (by decide)]
    refine List.mem_filterMap.2 ⟨p.cluster, SortedMap.mem_keys_iff.2 hhas, ?_⟩
    rw [hfree, if_neg Bool.false_ne_true, htarget]
    rfl

/-- **The pins for a request** are those that the table forces. -/
theorem mem_pins_iff {t : ForceTable} {request : Request} {caller : Option String} {p : Pin} :
    p ∈ t.pins request caller ↔ t.Forces request caller p.feed p.cluster p.target := by
  constructor
  · intro hp
    obtain ⟨⟨key, s⟩, hmem, hp⟩ := List.mem_flatMap.1 hp
    obtain ⟨⟨hrouted, hheeded⟩, rfl, hasked, htarget⟩ := mem_pinsFor_iff.1 hp
    exact ⟨hrouted, hheeded, ⟨s, SortedMap.mem_toList_iff.1 hmem, hasked⟩, htarget⟩
  · rintro ⟨hrouted, hheeded, ⟨s, hs, hasked⟩, htarget⟩
    exact List.mem_flatMap.2 ⟨(p.feed, s), SortedMap.mem_toList_iff.2 hs,
      mem_pinsFor_iff.2 ⟨⟨hrouted, hheeded⟩, rfl, hasked, htarget⟩⟩

/-- Pins for valid names keep the names of a request valid, up to a target that is none. -/
theorem wellNamed_setPins {pins : List Pin} (hpins : ∀ p ∈ pins,
      isValidName p.feed.application = true ∧ isValidName p.cluster = true) :
    ∀ {request : Request} (done : Nat), request.WellNamed →
      (setPins request pins done).1.WellNamed ∧
      ∀ fault, (setPins request pins done).2.2 = some fault →
        ∃ p ∈ pins, isValidName p.target = false ∧ fault = .invalidName .cluster p.target := by
  induction pins with
  | nil => exact fun _ hr => ⟨hr, fun _ hfault => nomatch hfault⟩
  | cons p rest ih =>
    intro request done hr
    obtain ⟨hkey, hcluster⟩ := hpins p List.mem_cons_self
    unfold setPins
    cases hpin : request.pin p.feed p.cluster p.target with
    | error fault =>
      obtain ⟨htarget, heq⟩ := Request.blame_of_pin hkey hcluster hpin
      refine ⟨hr, fun other hother => ⟨p, List.mem_cons_self, htarget, ?_⟩⟩
      cases hother
      exact heq
    | ok pinned =>
      obtain ⟨hnames, hblame⟩ :=
        ih (fun q hq => hpins q (List.mem_cons_of_mem p hq)) (done + 1) (hr.pin hpin)
      refine ⟨hnames, fun fault hfault => ?_⟩
      obtain ⟨q, hq, hbad⟩ := hblame fault hfault
      exact ⟨q, List.mem_cons_of_mem p hq, hbad⟩

end ForceTable

end Routing

namespace Poll

/-- **Forced routes** keep the names of a request valid, up to a target that is none. -/
theorem wellNamed_force (policy : Policy) {request : Request} (hr : request.WellNamed)
    (caller : Option Caller) :
    (force policy request caller).1.WellNamed ∧
      ∀ fault, (force policy request caller).2.2 = some fault →
        ∃ target, policy.Forces target ∧ isValidName target = false ∧
          fault = .invalidName .cluster target := by
  unfold force Policy.forceTable?
  split
  · rename_i table htable
    split at htable
    · rename_i henabled
      cases htable
      have hpins : ∀ p ∈ (ForceTable.ofSettings policy.hijack).pins request
          (caller.map Caller.application),
          isValidName p.feed.application = true ∧ isValidName p.cluster = true := by
        intro p hp
        obtain ⟨s, hs, hcluster, -⟩ := (ForceTable.mem_pins_iff.1 hp).asked
        exact ⟨(hr _ s hs).1, (hr _ s hs).2 _ hcluster⟩
      obtain ⟨hnames, hblame⟩ := ForceTable.wellNamed_setPins hpins 0 hr
      refine ⟨hnames, fun fault hfault => ?_⟩
      obtain ⟨p, hp, htarget, heq⟩ := hblame fault hfault
      have hlookup := (ForceTable.mem_pins_iff.1 hp).looked
      exact ⟨p.target, ⟨henabled, ForceTable.mem_values_of_lookup hlookup⟩, htarget, heq⟩
    · cases htable
  · exact ⟨hr, fun _ hfault => nomatch hfault⟩

theorem valid_of_caller {headers : PollHeaders} {caller : Option Caller}
    (hok : headers.caller = .ok caller) :
    ∀ c, caller = some c → isValidName c.application = true := by
  unfold PollHeaders.caller at hok
  split at hok
  · split at hok
    · cases hok
      exact nofun
    · obtain ⟨_, happlication, hok⟩ := exists_ok_of_bind hok
      obtain ⟨_, _, hok⟩ := exists_ok_of_bind hok
      cases hok
      rintro _ ⟨⟩
      exact Request.valid_of_checkName happlication
  · cases hok
    exact nofun

/-- What a client that was read asks for, and who it is, has valid names. -/
theorem wellNamed_read {body : List UInt8} {headers : PollHeaders} {request : Request}
    {mode : RouteMode} {caller : Option Caller}
    (hok : read body headers = .ok (request, mode, caller)) :
    request.WellNamed ∧ ∀ c, caller = some c → isValidName c.application = true := by
  obtain ⟨_, hrequest, hok⟩ := exists_ok_of_bind hok
  obtain ⟨_, _, hok⟩ := exists_ok_of_bind hok
  obtain ⟨_, hcaller, hok⟩ := exists_ok_of_bind hok
  cases hok
  exact ⟨Request.wellNamed_ofBytes hrequest, valid_of_caller hcaller⟩

end Poll

/-! ## Hijacking -/

namespace Routing.Hijack

variable {h : Hijack} {policy : Policy} {request : Request}

/-- A hijacking under a policy of destinations with valid names. -/
structure Addressed (policy : Policy) (h : Hijack) : Prop where
  policy_eq : h.policy = policy
  destinations : ∀ e ∈ h.takeovers.toList, isValidName e.1 = true

theorem addressed_create (policy : Policy) (caller : Option Caller) (mode : RouteMode) :
    Addressed policy (create policy caller mode) :=
  ⟨rfl, fun _ he => nomatch he⟩

theorem Addressed.prepareOn (hh : Addressed policy h) {application : String}
    (happlication : isValidName application = true) (callerTree destination : Replica)
    (caller : Caller) (t : Takeover) :
    Addressed policy (h.prepareOn application callerTree destination caller t) := by
  refine ⟨hh.policy_eq, fun e he => ?_⟩
  rcases Entries.mem_insert he with rfl | he
  · exact happlication
  · exact hh.destinations e he

theorem valid_of_candidate (hr : request.WellNamed) :
    ∀ e ∈ h.candidates request, isValidName e.1 = true := by
  intro e he
  obtain ⟨⟨key, s⟩, hmem, hcandidate⟩ := List.mem_filterMap.1 he
  obtain ⟨t, -, rfl⟩ := Option.map_eq_some_iff.1 hcandidate
  exact (hr key s (SortedMap.mem_toList_iff.1 hmem)).1

/-- **Hijacking** keeps the names of a request valid, unless its intent is none. -/
theorem wellNamed_extendRequest (hh : Addressed policy h) (hr : request.WellNamed) :
    (h.extendRequest request).1.WellNamed ∧
      ∀ fault, (h.extendRequest request).2 = some fault →
        isValidName policy.hijack.intent = false ∧
          fault = .invalidName .cluster policy.hijack.intent := by
  have hintent : h.intent = policy.hijack.intent := by rw [intent, hh.policy_eq]
  rw [extendRequest, hintent]
  -- the fold carries the request so far and the first fault
  refine List.foldlRecOn (motive := fun acc : Request × Option RequestFault =>
    acc.1.WellNamed ∧ ∀ fault, acc.2 = some fault → isValidName policy.hijack.intent = false ∧
      fault = .invalidName .cluster policy.hijack.intent) _ _ ⟨hr, nofun⟩ ?_
  rintro ⟨extended, fault⟩ ⟨hnames, hblame⟩ e he
  dsimp only
  split
  · exact ⟨hnames, hblame⟩
  · split
    · rename_i hlimit
      exact ⟨(hnames.limit hlimit).routeIntents _, nofun⟩
    · rename_i hlimit
      refine ⟨hnames, ?_⟩
      rintro _ ⟨⟩
      refine Request.blame_of_limit ?_ hlimit
      exact hh.destinations e he

end Routing.Hijack

/-! ## Leases -/

/-- One of several leases does not fail through the client's fault. -/
def Part.Blameless : Part → Prop
  | .open_ key => isValidName key.application = true
  | .failed f => f.isClientError = false
  | .called _ _ | .held _ _ => True

theorem forall_blameless_replace {done rest : List Part} {p q : Part}
    (hparts : ∀ x ∈ done ++ p :: rest, x.Blameless) (hpq : p.Blameless → q.Blameless) :
    ∀ x ∈ done ++ q :: rest, x.Blameless := by
  simp only [List.forall_mem_append, List.forall_mem_cons] at hparts ⊢
  exact ⟨hparts.1, hpq hparts.2.1, hparts.2.2⟩

namespace Service

/-- What a call fails with is a failure of the store. -/
theorem blameless_launchCall {sv : Service} {call : Nat} {f : Failure}
    (hf : (sv.launchCall call).2 = some f) : f.isClientError = false := by
  have hlaunch : ∀ (h : Hub) (now time : Nat) (watched : Except StoreError Unit),
      (h.launch now time call watched).2 = some f → f.isClientError = false := by
    intro h now time watched hf
    unfold Hub.launch at hf
    split at hf
    · cases hf
    · cases watched with
      | error e =>
        cases hf
        rfl
      | ok _ => cases hf
  exact hlaunch _ _ _ _ hf

/-- A wait for a holder ends with its holder or its deadline. -/
theorem blameless_waitVerdict {key : TreeKey} {holder : Option Holder}
    {time deadline limit : Nat} {f : Failure}
    (hf : Hub.waitVerdict key holder time deadline limit = some (.error f)) :
    f.isClientError = false := by
  have honTime : (if deadline ≤ time then some (.error (.initTimeout key limit))
      else (none : Option (Except Failure Unit))) = some (.error f) → f.isClientError = false := by
    intro hf
    split at hf
    · cases hf
      rfl
    · cases hf
  unfold Hub.waitVerdict at hf
  cases holder with
  | none => exact honTime hf
  | some holder =>
    dsimp only at hf
    split at hf
    · cases hf
    · split at hf
      · cases hf
        rfl
      · exact honTime hf

theorem blameless_verdict {h : Hub} {time : Nat} {c : Call} {f : Failure}
    (hf : h.verdict time c = some (.error f)) : f.isClientError = false := by
  unfold Hub.verdict at hf
  split at hf
  · cases hf
  · dsimp only at hf
    split at hf
    · split at hf
      · cases hf
        rfl
      · cases hf
    · cases hf
    · exact blameless_waitVerdict hf
    · exact blameless_waitVerdict hf

theorem blameless_tryEnd {h : Hub} {now time call : Nat} {f : Failure}
    (hf : (h.tryEnd now time call).2 = some (.error f)) : f.isClientError = false := by
  unfold Hub.tryEnd at hf
  split at hf
  · cases hf
  · split at hf
    · cases hf
    · cases hf
    · rename_i hverdict
      cases hf
      exact blameless_verdict hverdict

/-- **A call** never fails through the client's fault. -/
theorem blameless_pollCall {sv : Service} {call : Nat} {f : Failure}
    (hf : (sv.pollCall call).2 = some (.error f)) : f.isClientError = false := by
  unfold pollCall at hf
  generalize hr : (if sv.hub.isAdmitted call then sv.launchCall call else (sv, none)) = r at hf
  obtain ⟨launched, failure⟩ := r
  cases failure with
  | some failure =>
    cases hf
    split at hr
    · exact blameless_launchCall (congrArg Prod.snd hr)
    · cases hr
  | none =>
    have hend : (launched.onHub fun h now => h.tryEnd now launched.time call).2 =
        (launched.hub.tryEnd (launched.clock + ticksPerReading) launched.time call).2 := rfl
    dsimp only at hf
    generalize launched.onHub _ = r at hend hf
    obtain ⟨ended, _ | result⟩ := r
    · cases hf
    · cases hf
      exact blameless_tryEnd hend.symm

/-- A lease of a tree with a valid name is never refused. -/
theorem exists_callFor (sv : Service) {key : TreeKey}
    (hkey : isValidName key.application = true) : ∃ call, (sv.callFor key).2 = .ok call := by
  have hrequest : (sv.callFor key).2 =
      (sv.hub.request (sv.clock + ticksPerReading) sv.time key).2 := rfl
  rw [hrequest, Hub.request, if_pos hkey]
  exact ⟨_, rfl⟩

theorem blameless_pollCalled (sv : Service) (key : TreeKey) (call : Nat) :
    (sv.pollCalled key call).2.Blameless := by
  have hpoll : ∀ f, (sv.pollCall call).2 = some (.error f) → f.isClientError = false :=
    fun f => blameless_pollCall
  unfold pollCalled
  generalize sv.pollCall call = r at hpoll ⊢
  obtain ⟨polled, _ | f | lease⟩ := r
  · trivial
  · exact hpoll f rfl
  · trivial

theorem blameless_pollPart (sv : Service) {p : Part} (hp : p.Blameless) :
    (sv.pollPart p).2.Blameless := by
  cases p with
  | open_ key =>
    obtain ⟨call, hcall⟩ := exists_callFor sv hp
    rw [pollPart]
    generalize sv.callFor key = r at hcall ⊢
    obtain ⟨called, _⟩ := r
    cases hcall
    exact blameless_pollCalled called key call
  | called key call => exact blameless_pollCalled sv key call
  | held key lease => trivial
  | failed f => exact hp

/-- What a look at several leases leaves is blameless, and so is what they fail with. -/
def Blameless : Except Failure (List Part) → Prop
  | .ok parts => ∀ p ∈ parts, p.Blameless
  | .error f => f.isClientError = false

/-- **Several leases** that are called for together never fail through the client's fault. -/
theorem blameless_pollParts (sv : Service) {parts : List Part}
    (hparts : ∀ p ∈ parts, p.Blameless) : Blameless (sv.pollParts parts).2 := by
  have hkept := pollParts_keeps (P := fun parts => ∀ p ∈ parts, p.Blameless)
    (fun sv _ _ _ hparts => forall_blameless_replace hparts fun hp => blameless_pollPart sv hp)
    sv hparts
  cases hlooked : (sv.pollParts parts).2 with
  | ok after => rwa [hlooked] at hkept
  | error f =>
    rw [hlooked] at hkept
    obtain ⟨_, hblameless, hfailed⟩ := hkept
    exact hblameless _ hfailed

end Service

/-! ## Tasks -/

/-- How a long poll may end.  Its stream starts, or it is refused; the client is blamed for
nothing but an intent in the settings that is no name. -/
inductive JobResult.Answers (policy : Policy) : JobResult → Prop where
  | streaming : Answers policy .streaming
  | refused {failure : Failure} (hblameless : failure.isClientError = false) :
    Answers policy (.refused failure)
  | intent (hinvalid : isValidName policy.hijack.intent = false) :
    Answers policy (.refused (.request (.invalidName .cluster policy.hijack.intent)))

/-- A task of a long poll under a policy, all of whose names are valid. -/
inductive Task.Names (policy : Policy) : Task → Prop where
  | poll {p : Preparation} {poll : Poll} {reader : String} (hhijack : p.hijack.Addressed policy)
    (hleft : ∀ e ∈ p.left, isValidName e.1 = true) (hrequest : poll.request.WellNamed)
    (hclient : ∀ c, poll.options.caller = some c → isValidName c.application = true) :
    Names policy (.poll p poll reader)
  | launch {l : Launching} {reader : String} {hijack : Hijack}
    (houtlet : l.outlet = .poll reader hijack) (hparts : ∀ p ∈ l.parts, p.Blameless) :
    Names policy (.launch l)

/-- **What may become of a task.**  It is looked at again and again, as a whole or at one of the
leases that it waits for; meanwhile anything may happen in the service. -/
inductive Task.ComesTo : Task → JobResult → Prop where
  | ended {task : Task} {result : JobResult} (sv : Service)
    (hend : (sv.pollTask task).2 = .ended result) : ComesTo task result
  | waited {task later : Task} {result : JobResult} (sv : Service)
    (hwait : (sv.pollTask task).2 = .waiting later) (hlater : ComesTo later result) :
    ComesTo task result
  | lookedAtPart {l : Launching} {result : JobResult} (sv : Service) (i : Nat)
    (hlater : ComesTo (.launch (sv.pollPartAt l i).2) result) : ComesTo (.launch l) result

namespace Service

/-- What a look at a task of a long poll comes to. -/
def Polled.Answers (policy : Policy) : Polled → Prop
  | .waiting task => task.Names policy
  | .ended result => result.Answers policy

variable {policy : Policy}

theorem answers_pollLaunch (sv : Service) {l : Launching} {reader : String} {hijack : Hijack}
    (houtlet : l.outlet = .poll reader hijack) (hparts : ∀ p ∈ l.parts, p.Blameless) :
    (sv.pollLaunch l).2.Answers policy := by
  have hpolled := blameless_pollParts sv hparts
  unfold pollLaunch
  generalize sv.pollParts l.parts = r at hpolled ⊢
  obtain ⟨polled, failure | parts⟩ := r
  · rw [houtlet]
    exact .refused hpolled
  · dsimp only
    split
    · rw [houtlet]
      exact .streaming
    · exact .launch houtlet hpolled

/-- The trees that a session reads belong to the applications that are asked for and to the
client. -/
theorem valid_of_mem_treesOf {request : Request} (hr : request.WellNamed) {mode : RouteMode}
    {caller : Option Caller} (hcaller : ∀ c, caller = some c → isValidName c.application = true)
    {tree : TreeKey} (htree : tree ∈ Session.treesOf request mode caller) :
    isValidName tree.application = true := by
  have hasked : ∀ tree ∈ (SortedSet.ofElements
      ((Session.subscriptionsOf request).map Subscription.tree)).elements,
      isValidName tree.application = true := by
    intro tree htree
    obtain ⟨sub, hsub, rfl⟩ := List.mem_map.1 (SortedSet.mem_elements_ofElements.1 htree)
    obtain ⟨e, he, rfl⟩ := List.mem_map.1 hsub
    exact (hr e.1 e.2 (SortedMap.mem_toList_iff.1 he)).1
  unfold Session.treesOf at htree
  dsimp only at htree
  split at htree
  · rename_i own hown
    rcases SortedSet.mem_elements_add.1 htree with rfl | htree
    · unfold Session.callerTreeOf at hown
      split at hown
      · obtain ⟨c, hc, rfl⟩ := Option.map_eq_some_iff.1 hown
        exact hcaller c hc
      · cases hown
    · exact hasked tree htree
  · exact hasked tree htree

/-- The start of the session of a long poll whose hijack is prepared. -/
theorem answers_pollPrepared (sv : Service) {h : Hijack} (hh : h.Addressed policy) {poll : Poll}
    (hr : poll.request.WellNamed)
    (hclient : ∀ c, poll.options.caller = some c → isValidName c.application = true)
    (reader : String) : (sv.pollPrepared h poll reader).2.Answers policy := by
  obtain ⟨hnames, hblame⟩ := Hijack.wellNamed_extendRequest hh hr
  unfold pollPrepared
  generalize h.extendRequest poll.request = r at hnames hblame ⊢
  obtain ⟨request, _ | fault⟩ := r
  · refine answers_pollLaunch sv rfl fun p hp => ?_
    obtain ⟨tree, htree, rfl⟩ := List.mem_map.1 hp
    exact valid_of_mem_treesOf hnames hclient htree
  · obtain ⟨hinvalid, rfl⟩ := hblame fault rfl
    exact .intent hinvalid

/-- The destinations of a preparation that goes on, or that came to its end. -/
def Addressed (policy : Policy) : Preparation ⊕ Hijack → Prop
  | .inl p => p.hijack.Addressed policy ∧ ∀ e ∈ p.left, isValidName e.1 = true
  | .inr h => h.Addressed policy

theorem addressed_prepareAll (caller : Caller) (left : List (String × Takeover)) :
    ∀ (sv : Service) {h : Hijack} (stage : PrepareStage), h.Addressed policy →
      (∀ e ∈ left, isValidName e.1 = true) →
      Addressed policy (sv.prepareAll caller h stage left).2 := by
  induction left with
  | nil => exact fun sv h stage hh _ => hh
  | cons e rest ih =>
    intro sv h stage hh hleft
    obtain ⟨application, t⟩ := e
    have happlication := hleft _ List.mem_cons_self
    have hrest := fun e he => hleft e (List.mem_cons_of_mem _ he)
    have hlooked := prepareOne_lookedAt sv h caller application t stage
    rw [prepareAll]
    generalize sv.prepareOne h caller application t stage = r at hlooked ⊢
    obtain ⟨one, stage | _ | prepared⟩ := r
    · exact ⟨hh, hleft⟩
    · exact ih one .begin_ hh hrest
    · obtain ⟨callerTree, destination, rfl⟩ := hlooked
      exact ih one .begin_ (hh.prepareOn happlication callerTree destination caller t) hrest

/-- **A look at a task of a long poll** leaves such a task, or it ends as it may. -/
theorem answers_pollTask (sv : Service) {task : Task} (htask : task.Names policy) :
    (sv.pollTask task).2.Answers policy := by
  cases htask with
  | poll hhijack hleft hrequest hclient =>
    rename_i p poll reader
    have hwent := addressed_prepareAll p.caller p.left sv p.stage hhijack hleft
    rw [pollTask, goOn]
    generalize sv.prepareAll p.caller p.hijack p.stage p.left = r at hwent ⊢
    obtain ⟨went, p | h⟩ := r
    · exact .poll hwent.1 hwent.2 hrequest hclient
    · exact answers_pollPrepared went hwent hrequest hclient reader
  | launch houtlet hparts => exact answers_pollLaunch sv houtlet hparts

theorem names_pollPartAt (sv : Service) {l : Launching} (i : Nat)
    (hl : Task.Names policy (.launch l)) :
    Task.Names policy (.launch (sv.pollPartAt l i).2) := by
  cases hl with
  | launch houtlet hparts =>
    have hsplit := List.take_append_drop i l.parts
    unfold pollPartAt
    split
    · exact .launch houtlet hparts
    · rename_i p rest hdrop
      rw [hdrop] at hsplit
      rw [← hsplit] at hparts
      exact .launch houtlet
        (forall_blameless_replace hparts fun hp => blameless_pollPart sv hp)

end Service

/-- **A long poll whose names are valid** ends as it may, whatever happens. -/
theorem Task.Names.comesTo {policy : Policy} {task : Task} (htask : task.Names policy)
    {result : JobResult} (hcomes : task.ComesTo result) : result.Answers policy := by
  induction hcomes with
  | ended sv hend =>
    have hanswers := Service.answers_pollTask sv htask
    rwa [hend] at hanswers
  | waited sv hwait _ ih =>
    have hanswers := Service.answers_pollTask sv htask
    rw [hwait] at hanswers
    exact ih hanswers
  | lookedAtPart sv i _ ih => exact ih (Service.names_pollPartAt sv i htask)

/-! ## Long polls -/

namespace Service

variable {policy : Policy}

/-- The task of a long poll whose request was read has valid names. -/
theorem names_preparationOf {request : Request} (hr : request.WellNamed) (options : WatchOptions)
    {caller : Option Caller} (hoptions : options.caller = caller)
    (hcaller : ∀ c, caller = some c → isValidName c.application = true) (mode : RouteMode)
    (reader : String) :
    let hijack := Hijack.create policy caller mode
    Task.Names policy (.poll (preparationOf hijack request) ⟨request, options, hijack⟩ reader) := by
  intro hijack
  have haddressed := Hijack.addressed_create policy caller mode
  have hclient : ∀ c, options.caller = some c → isValidName c.application = true :=
    hoptions ▸ hcaller
  unfold preparationOf
  split
  · exact .poll haddressed (Hijack.valid_of_candidate hr) hr hclient
  · exact .poll haddressed (fun _ he => nomatch he) hr hclient

/-- Counting leaves everything else as it is. -/
theorem exists_foldl_count (meter : Meter) (counts : List Nat) : ∀ sv : Service, ∃ meters,
    counts.foldl (fun sv _ => sv.count meter) sv =
      { sv with hub := { sv.hub with meters := meters } } := by
  induction counts with
  | nil => exact fun sv => ⟨sv.hub.meters, rfl⟩
  | cons n rest ih =>
    intro sv
    obtain ⟨meters, heq⟩ := ih (sv.count meter)
    exact ⟨meters, heq⟩

/-- **Whom a refusal blames.**  A long poll that cannot be read is refused before anything is done.
Any other one becomes a job, or it is refused for the target of a forced route that is no name, and
leaves nothing but a count.  In the end the stream of a job starts, whatever happens meanwhile, or
it is refused for something that is not the client's fault or for an intent in the settings that is
no name. -/
theorem openPoll_blames (sv : Service) (name : String) (body : List UInt8) (query : PollQuery)
    (headers : PollHeaders) :
    match Poll.read body headers with
    | .error fault => sv.openPoll name body query headers = (sv, .error (.request fault))
    | .ok _ =>
      (∃ opened job task, sv.openPoll name body query headers = (opened, .ok job) ∧
        opened.jobs = sv.jobs ++ [⟨job, name, task⟩] ∧
        ∀ result, task.ComesTo result → result.Answers sv.policy) ∨
      (∃ target meters, sv.policy.Forces target ∧ isValidName target = false ∧
        sv.openPoll name body query headers =
          ({ sv with hub := { sv.hub with meters := meters } },
            .error (.request (.invalidName .cluster target)))) := by
  cases hread : Poll.read body headers with
  | error fault =>
    simp only [openPoll, Poll.ofParts, hread]
    rfl
  | ok read =>
    obtain ⟨request, mode, caller⟩ := read
    obtain ⟨hr, hcaller⟩ := Poll.wellNamed_read hread
    obtain ⟨hforced, hblame⟩ := Poll.wellNamed_force sv.policy hr caller
    simp only [openPoll, Poll.ofParts, hread]
    generalize Poll.force sv.policy request caller = r at hforced hblame ⊢
    obtain ⟨forced, count, refused⟩ := r
    obtain ⟨meters, hcount⟩ := exists_foldl_count .forceRouted (List.range count) sv
    cases refused with
    | none =>
      dsimp only
      rw [hcount]
      refine .inl ⟨_, _, _, rfl, rfl, fun result => ?_⟩
      exact (names_preparationOf hforced (Poll.optionsOf query caller mode) rfl hcaller mode
        name).comesTo
    | some fault =>
      dsimp only
      rw [hcount]
      obtain ⟨target, hforces, hinvalid, rfl⟩ := hblame fault rfl
      exact .inr ⟨target, meters, hforces, hinvalid, rfl⟩

/-- Settings that pass their check, though the intent is no name. -/
def looseSettings : Settings :=
  { Settings.standard with
    hijack :=
      { HijackSettings.standard with
        intent := "bad intent"
        modes := SortedMap.ofList [("web", .checking)] } }

/-- A service under those settings. -/
def looseService : Service :=
  create smallSettings ⟨looseSettings.route, looseSettings.hijack⟩ Store.empty

/-- A client in `web` asks for a cluster of `shop`. -/
def shopBody : List UInt8 := "\x7b\"service\":\x7b\"shop\":[\"a\"]\x7d\x7d".toUTF8.toList

/-- The client says who it is. -/
def webHeaders : PollHeaders := ⟨none, some "main", some "web"⟩

/-- The failures for which long polls were refused. -/
def refusals (sv : Service) : List Failure :=
  sv.results.filterMap fun e =>
    match e.2 with
    | .refused failure => some failure
    | _ => none

/-- A client whose request is right is blamed for the intent in accepted settings, after holders
were created for it. -/
theorem refusals_looseService :
    let opened := looseService.openPoll "client" shopBody ⟨none, none⟩ webHeaders
    looseSettings.check = .ok () ∧ (Poll.read shopBody webHeaders).isOk = true ∧
      opened.2 = .ok 0 ∧
      refusals opened.1.settle = [.request (.invalidName .cluster "bad intent")] ∧
      looseService.hub.stats.holders = 0 ∧ opened.1.settle.hub.stats.holders = 2 := by
  decide +kernel

/-- The target of a forced route may be no name either. -/
example :
    let forcing : HijackSettings :=
      { HijackSettings.standard with
        forceEnabled := true, forceClusters := SortedMap.ofList [("a", "no such")] }
    let sv := create smallSettings ⟨RouteSettings.standard, forcing⟩ Store.empty
    forcing.check = .ok () ∧ (sv.openPoll "client" shopBody ⟨none, none⟩ webHeaders).2 =
      .error (.request (.invalidName .cluster "no such")) := by
  decide +kernel

end Service

end Treecast
