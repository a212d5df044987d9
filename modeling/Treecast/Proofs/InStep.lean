import Treecast.Proofs.ChangeLog
import Treecast.Proofs.Deliveries

/-!
# Subscriptions keep their clients in step

Between what a client holds and what a new session would send stand the changes that the session
has not read.  A piece of what the client holds is right as soon as every unread change of the
places that it is read from is covered by the revision that the subscription has seen
(`Subscription.InStep`).  Each move of a replica and each handling of a change or of a gap keeps
this.

## Results

* `Subscription.InStep.advance`: the replica moves on.
* `Subscription.InStep.told`: a change of a key is read.
* `Subscription.InStep.reconsidered`, `Subscription.InStep.resent`: a change of metadata or a gap
  is read.
-/

set_option autoImplicit false

namespace Treecast

open Routing
open Json (Value)

/-! ## Unread changes -/

/-- The changes of a replica that a reader has not read: their revisions increase up to the
replica's, and the last of a place gives the value that is there. -/
structure Pending (r : Replica) (unread : List Change) : Prop where
  seen : r.AllSeen
  increasing : unread.Pairwise fun a b => a.revision < b.revision
  bounded : ∀ c ∈ unread, c.revision ≤ r.revision
  last : ∀ before change after, unread = before ++ change :: after →
    (∀ c ∈ after, c.level ≠ change.level) → r.value? change.level = change.value

theorem Holder.Logged.pending {h : Holder} (hl : h.Logged) (cursor : Nat) :
    Pending h.replica (h.unread cursor) where
  seen := hl.seen
  increasing := hl.increasing.sublist (h.unread_sublist cursor)
  bounded c hc := hl.bounded c ((h.unread_sublist cursor).subset hc)
  last before change after heq hafter := by
    have hsplit : changesOf h.log =
        (changesOf (h.log.take cursor) ++ before) ++ change :: after := by
      rw [List.append_assoc, ← heq, Holder.unread, ← changesOf_append, List.take_append_drop]
    exact hl.last _ change after hsplit hafter

/-- Unread changes of these places are covered by what was seen. -/
def Settled (unread : List Change) (places : Level → Prop) (seen : Nat) : Prop :=
  ∀ c ∈ unread, places c.level → c.revision ≤ seen

theorem Settled.nil (places : Level → Prop) (seen : Nat) : Settled [] places seen :=
  fun _ hc => by cases hc

theorem Settled.cons {change : Change} {rest : List Change} {places : Level → Prop} {seen : Nat}
    (h : Settled rest places seen) (hc : places change.level → change.revision ≤ seen) :
    Settled (change :: rest) places seen := by
  intro c hmem hp
  rcases List.mem_cons.1 hmem with rfl | hmem
  · exact hc hp
  · exact h c hmem hp

/-- What follows a change is newer. -/
theorem Pending.newer {r : Replica} {change : Change} {rest : List Change}
    (h : Pending r (change :: rest)) : ∀ c ∈ rest, change.revision < c.revision :=
  (List.pairwise_cons.1 h.increasing).1

/-- A replica moves on by at most one change, which is then unread. -/
inductive Advanced (r : Replica) (unread : List Change) (r' : Replica) (unread' : List Change) :
    Prop
  | same (replica : r' = r) (unread : unread' = unread)
  | moved {change : Change} (moved : Replica.Moved r change r') (seen : r'.AllSeen)
      (unread : unread' = unread ++ [change])

namespace Advanced

variable {r r' : Replica} {unread unread' : List Change}

theorem revision_le (h : Advanced r unread r' unread') : r.revision ≤ r'.revision := by
  cases h with
  | same hr => exact hr ▸ Nat.le_refl _
  | moved hmoved =>
    have := hmoved.revision
    omega

/-- What is settled afterwards was settled before, and its places are as they were. -/
theorem settled (h : Advanced r unread r' unread') {places : Level → Prop} {seen : Nat}
    (hseen : seen ≤ r.revision) (hs : Settled unread' places seen) :
    Settled unread places seen ∧ ∀ level, places level → r.value? level = r'.value? level := by
  cases h with
  | same hr hu =>
    subst hr hu
    exact ⟨hs, fun _ _ => rfl⟩
  | @moved change hmoved _ hu =>
    subst hu
    refine ⟨fun c hc => hs c (List.mem_append.2 (.inl hc)), fun level hl => ?_⟩
    -- the new change is newer than what was seen, so it is of no such place
    have hne : level ≠ change.level := by
      rintro rfl
      have hle := hs change (List.mem_append.2 (.inr List.mem_cons_self)) hl
      have hnumber := hmoved.numbered
      have hrev := hmoved.revision
      omega
    exact (hmoved.value?_elsewhere hne).symm

end Advanced

/-! ## The invariant -/

namespace Subscription

/-- A payload under a name that these clusters serve is up to date: under a key it has what the
replica has there, unless a change of the key is still unread. -/
def UpToDate (s : Subscription) (r : Replica) (unread : List Change) (clusters : List String)
    (payload : Option Value) : Prop :=
  ∃ entries : Entries String Value, payload = some (.object entries) ∧ entries.Sorted ∧
    ∀ key, Settled unread (s.Reads clusters key) s.seen →
      Entries.find? key entries = Entries.find? key (s.entries r clusters)

/-- What a client holds of a subscription: every name that it resolves, and under a key what the
replica has there, unless a change of the key is still unread. -/
def ShownIn (s : Subscription) (r : Replica) (unread : List Change) (held : Payloads) : Prop :=
  ∀ name, match s.resolved.find? name with
    | none => held name = none
    | some clusters => ∃ entries : Entries String Value, held name = some (.object entries) ∧
        entries.Sorted ∧ ∀ key, Settled unread (s.Reads clusters key) s.seen →
          Entries.find? key entries = Entries.find? key (s.entries r clusters)

/-- A subscription is in step with what its session has read. -/
structure InStep (s : Subscription) (r : Replica) (unread : List Change) (v : Viewpoint)
    (view : View) : Prop where
  seen_le : s.seen ≤ r.revision
  resolved : Settled unread (fun level => level.isStructural = true) s.seen →
    s.resolved = s.resolve r v
  shown : ∃ held, view s.feed = some held ∧ s.ShownIn r unread held

variable {s : Subscription} {r r' : Replica} {unread unread' : List Change} {v : Viewpoint}
  {view : View}

theorem upToDate_payload (s : Subscription) (r : Replica) (unread : List Change)
    (clusters : List String) : s.UpToDate r unread clusters (some (s.payload r clusters)) :=
  ⟨s.entries r clusters, congrArg some (s.payload_eq r clusters), s.entries_sorted r clusters,
    fun _ _ => rfl⟩

theorem UpToDate.advance {clusters : List String} {payload : Option Value}
    (h : s.UpToDate r unread clusters payload) (hle : s.seen ≤ r.revision)
    (ha : Advanced r unread r' unread') (hs : r.AllSeen) (hs' : r'.AllSeen) :
    s.UpToDate r' unread' clusters payload := by
  obtain ⟨entries, hentries, hsorted, hkeys⟩ := h
  refine ⟨entries, hentries, hsorted, fun key hsettled => ?_⟩
  obtain ⟨hbefore, hsame⟩ := ha.settled hle hsettled
  rw [hkeys key hbefore]
  exact s.find?_entries_congr hs hs' hsame

/-- With nothing unread a payload is what its clusters show. -/
theorem UpToDate.eq_entries {clusters : List String} {payload : Option Value}
    (h : s.UpToDate r [] clusters payload) (hs : r.AllSeen) (hs' : r'.AllSeen)
    (hsame : ∀ key level, s.Reads clusters key level → r.value? level = r'.value? level) :
    payload = some (.object (s.entries r' clusters)) := by
  obtain ⟨entries, hentries, hsorted, hkeys⟩ := h
  rw [hentries]
  refine congrArg (fun e => some (Value.object e))
    (Entries.ext_find? hsorted (s.entries_sorted r' clusters) fun key => ?_)
  rw [hkeys key (.nil _ _)]
  exact s.find?_entries_congr hs hs' (hsame key)

theorem shownIn_fullSection (s : Subscription) (r : Replica) (unread : List Change) :
    s.ShownIn r unread (s.fullSection r) := by
  intro name
  rw [fullSection]
  cases s.resolved.find? name with
  | none => rfl
  | some clusters => exact s.upToDate_payload r unread clusters

theorem InStep.advance (h : s.InStep r unread v view) (ha : Advanced r unread r' unread')
    (hs : r.AllSeen) (hs' : r'.AllSeen) : s.InStep r' unread' v view := by
  refine ⟨Nat.le_trans h.seen_le ha.revision_le, fun hsettled => ?_, ?_⟩
  · obtain ⟨hbefore, hsame⟩ := ha.settled h.seen_le hsettled
    rw [h.resolved hbefore]
    exact s.resolve_congr hs hs' hsame rfl rfl fun _ => rfl
  · obtain ⟨held, hheld, hshown⟩ := h.shown
    refine ⟨held, hheld, fun name => ?_⟩
    have hname := hshown name
    cases hfind : s.resolved.find? name with
    | none =>
      rw [hfind] at hname
      exact hname
    | some clusters =>
      rw [hfind] at hname
      exact UpToDate.advance hname h.seen_le ha hs hs'

end Subscription

/-- **A subscription with nothing unread shows what it would show anew.** -/
theorem Subscription.InStep.view_eq {s : Subscription} {r r' : Replica} {v v' : Viewpoint}
    {view : View} (h : s.InStep r [] v view) (hs : r.AllSeen) (hs' : r'.AllSeen)
    (hsame : ∀ level, r.value? level = r'.value? level) (hmode : v'.mode = v.mode)
    (hpolicy : v'.policy = v.policy) (hcaller : v'.caller = v.caller) :
    view s.feed = some ((s.refresh r' v').fullSection r') := by
  obtain ⟨held, hheld, hshown⟩ := h.shown
  have hresolved : s.resolved = s.resolve r' v' := by
    rw [h.resolved (.nil _ _)]
    exact s.resolve_congr hs hs' (fun level _ => hsame level) hmode hpolicy fun _ => hcaller
  rw [hheld, Option.some.injEq]
  funext name
  have hname := hshown name
  rw [Subscription.fullSection, Subscription.refresh, ← hresolved]
  cases hfind : s.resolved.find? name with
  | none =>
    rw [hfind] at hname
    exact hname
  | some clusters =>
    rw [hfind] at hname
    rw [UpToDate.eq_entries hname hs hs' fun _ level _ => hsame level, Option.map_some,
      Subscription.payload_eq]

/-! ## Subscriptions while a session reads -/

namespace Subscription

variable {s : Subscription} {r : Replica} {unread rest : List Change} {change : Change}
  {v v' : Viewpoint} {view view' : View}

/-- A subscription that was sent in full is in step, whatever is unread. -/
theorem inStep_inFull {replicas : Replicas} (sub : Subscription)
    (hview : view sub.feed =
      some ((Session.inFull replicas v sub).fullSection (replicas sub.tree))) :
    (Session.inFull replicas v sub).InStep (replicas sub.tree) unread v view :=
  ⟨Nat.le_refl _, fun _ => rfl, _, hview, shownIn_fullSection _ _ _⟩

/-- Another viewpoint, another caller's route in it, does not matter to a subscription that does
not ask for the caller. -/
theorem InStep.of_viewpoint (h : s.InStep r unread v view) (hs : r.AllSeen)
    (hmode : v'.mode = v.mode) (hpolicy : v'.policy = v.policy)
    (hcaller : s.needsCaller v.mode = true → v'.caller = v.caller) :
    s.InStep r unread v' view := by
  refine ⟨h.seen_le, fun hsettled => ?_, h.shown⟩
  rw [h.resolved hsettled]
  exact s.resolve_congr hs hs (fun _ _ => rfl) hmode hpolicy hcaller

/-- The caller's route may have moved if the subscription does not ask for the caller. -/
theorem InStep.of_callerMoved {callerMoved : Bool} (h : s.InStep r unread v view)
    (hs : r.AllSeen) (hmode : v'.mode = v.mode) (hpolicy : v'.policy = v.policy)
    (hcaller : callerMoved = false → v'.caller = v.caller)
    (hout : callerMoved = true → s.needsCaller v'.mode = false) : s.InStep r unread v' view := by
  refine h.of_viewpoint hs hmode hpolicy fun hneeds => hcaller ?_
  cases callerMoved with
  | false => rfl
  | true =>
    have := hout rfl
    rw [hmode, hneeds] at this
    cases this

theorem InStep.of_view (h : s.InStep r unread v view) (hview : view' s.feed = view s.feed) :
    s.InStep r unread v view' := by
  obtain ⟨held, hheld, hshown⟩ := h.shown
  exact ⟨h.seen_le, h.resolved, held, hview.trans hheld, hshown⟩

/-- A payload stays up to date if the changes that are read meanwhile are covered, or are of other
places. -/
theorem UpToDate.read {clusters : List String} {payload : Option Value} {seen : Nat}
    (h : s.UpToDate r (change :: rest) clusters payload)
    (hnewer : ∀ c ∈ rest, change.revision < c.revision) (hle : s.seen ≤ seen)
    (hseen : seen ≤ max s.seen change.revision)
    (hchange : ∀ key, s.Reads clusters key change.level → change.revision ≤ s.seen) :
    UpToDate { s with seen } r rest clusters payload := by
  obtain ⟨entries, hentries, hsorted, hkeys⟩ := h
  refine ⟨entries, hentries, hsorted, fun key hsettled => hkeys key ?_⟩
  refine Settled.cons (fun c hc hp => ?_) (hchange key)
  have hcovered : c.revision ≤ seen := hsettled c hc hp
  have := hnewer c hc
  omega

/-- What a client holds stays right if the changes that are read meanwhile are covered, or are of
other places. -/
theorem ShownIn.read {held : Payloads} {seen : Nat} (h : s.ShownIn r (change :: rest) held)
    (hnewer : ∀ c ∈ rest, change.revision < c.revision) (hle : s.seen ≤ seen)
    (hseen : seen ≤ max s.seen change.revision)
    (hchange : ∀ clusters key, (∃ name, s.resolved.find? name = some clusters) →
      s.Reads clusters key change.level → change.revision ≤ s.seen) :
    ShownIn { s with seen } r rest held := by
  intro name
  have hname := h name
  cases hfind : s.resolved.find? name with
  | none =>
    rw [hfind] at hname
    exact hname
  | some clusters =>
    rw [hfind] at hname
    exact UpToDate.read hname hnewer hle hseen fun key => hchange clusters key ⟨name, hfind⟩

/-- An unread change that is covered, or that neither metadata nor a shown key depends on, is
read without anything being said. -/
theorem InStep.skip (h : s.InStep r (change :: rest) v view)
    (hnewer : ∀ c ∈ rest, change.revision < c.revision)
    (hmetadata : change.level.isStructural = true → change.revision ≤ s.seen)
    (hreads : ∀ clusters key, (∃ name, s.resolved.find? name = some clusters) →
      s.Reads clusters key change.level → change.revision ≤ s.seen) :
    s.InStep r rest v view := by
  obtain ⟨held, hheld, hshown⟩ := h.shown
  exact ⟨h.seen_le, fun hsettled => h.resolved (hsettled.cons hmetadata), held, hheld,
    hshown.read hnewer (Nat.le_refl _) (Nat.le_max_left _ _) hreads⟩

theorem reads_key_iff (hkind : s.feed.kind ≠ .serviceInfo) {clusters : List String} {key : String}
    {level : Level} : s.Reads clusters key level ↔ ∃ c ∈ clusters, level = .key c key := by
  unfold Reads
  split
  · exact absurd ‹_› hkind
  · rfl

/-- A changed key is read under that key alone, where its cluster serves. -/
theorem reads_changed_iff {clusters : List String} {other cluster key : String} :
    s.Reads clusters other (.key cluster key) ↔
      s.feed.kind ≠ .serviceInfo ∧ cluster ∈ clusters ∧ other = key := by
  by_cases hkind : s.feed.kind = .serviceInfo
  · simp [Reads, hkind]
  · rw [reads_key_iff hkind]
    constructor
    · rintro ⟨c, hc, he⟩
      cases he
      exact ⟨hkind, hc, rfl⟩
    · rintro ⟨-, hc, rfl⟩
      exact ⟨cluster, hc, rfl⟩

theorem entries_of_keys (hkind : s.feed.kind ≠ .serviceInfo) (r : Replica)
    (clusters : List String) : s.entries r clusters = mergedKeys r clusters := by
  unfold entries
  split
  · exact absurd ‹_› hkind
  · rfl

/-- The value that is told of a changed key is the one that its name now shows. -/
theorem keyValue_eq (hp : Pending r (change :: rest)) {cluster key : String}
    (hlevel : change.level = .key cluster key) {clusters : List String}
    (hmem : clusters.contains cluster = true)
    (hlast : ∀ c ∈ rest, c.level ≠ .key cluster key) :
    keyValue r clusters key change.value = clusters.findSome? fun c => r.value? (.key c key) := by
  unfold keyValue
  split
  · rename_i hone
    obtain ⟨c, rfl⟩ := List.length_eq_one_iff.1 hone
    have hc : c = cluster := by simpa [eq_comm] using hmem
    have hvalue := hp.last [] change rest rfl (hlevel ▸ hlast)
    rw [List.findSome?_cons, hc, ← hlevel, hvalue]
    cases change.value <;> rfl
  · rfl

theorem find?_tell (key : String) {entries : Entries String Value} (hsorted : entries.Sorted)
    (value : Option String) :
    ∃ entries', Session.tell key (some (.object entries)) (some value) = some (.object entries') ∧
      Entries.Sorted entries' ∧ ∀ other, Entries.find? other entries' =
        if other = key then value.map fun v => Sections.keyEntry (some v)
        else Entries.find? other entries := by
  cases value with
  | some v =>
    refine ⟨Entries.insert key (Sections.keyEntry (some v)) entries, rfl,
      Entries.insert_sorted key _ hsorted, fun other => ?_⟩
    rw [Entries.find?_insert]
    rfl
  | none =>
    refine ⟨Entries.erase key entries, rfl, Entries.erase_sorted key hsorted, fun other => ?_⟩
    rw [Entries.find?_erase key other hsorted]
    rfl

/-- A change of a key that is not told under a name is covered, or the name does not read it. -/
theorem seen_of_tells?_eq_none {replicas : Replicas} {tree : TreeKey} (htree : s.tree = tree)
    {cluster key : String} (hlevel : change.level = .key cluster key) {clusters : List String}
    (h : Session.tells? replicas tree change cluster key s clusters = none) {other : String}
    (hreads : s.Reads clusters other change.level) : change.revision ≤ s.seen := by
  rw [hlevel, reads_changed_iff] at hreads
  obtain ⟨hkind, hmem, -⟩ := hreads
  rw [Session.tells?] at h
  split at h
  · rw [if_pos (List.contains_iff_mem.2 hmem)] at h
    cases h
  · rename_i hheard
    exact Nat.not_lt.1 fun hnew => hheard (Session.hears_iff.2 ⟨htree, hkind, hnew⟩)

/-- What is told of a changed key is what its name shows, unless the key has changed again. -/
theorem find?_of_tells?_eq_some {tree : TreeKey} {replicas : Replicas}
    (hp : Pending (replicas tree) (change :: rest)) {cluster key : String}
    (hlevel : change.level = .key cluster key) {clusters : List String} {value : Option String}
    (h : Session.tells? replicas tree change cluster key s clusters = some value)
    (hsettled : Settled rest (s.Reads clusters key) s.seen) :
    value.map (fun v => Sections.keyEntry (some v)) =
      Entries.find? key (s.entries (replicas tree) clusters) := by
  rw [Session.tells?] at h
  split at h
  · rename_i hheard
    obtain ⟨-, hkind, hnew⟩ := Session.hears_iff.1 hheard
    split at h
    · rename_i hmem
      cases h
      -- a later change of the key would be unread and newer than what was seen
      have hlast : ∀ c ∈ rest, c.level ≠ .key cluster key := by
        intro c hc he
        have hread : s.Reads clusters key c.level :=
          he ▸ reads_changed_iff.2 ⟨hkind, List.contains_iff_mem.1 hmem, rfl⟩
        have hle := hsettled c hc hread
        have := hp.newer c hc
        omega
      rw [keyValue_eq hp hlevel hmem hlast, entries_of_keys hkind, find?_mergedKeys]
      exact List.map_findSome?
    · cases h
  · cases h

/-- What is told of a change of a key brings a payload up to date. -/
theorem UpToDate.told {replicas : Replicas} {tree : TreeKey} (htree : s.tree = tree)
    {clusters : List String} {payload : Option Value}
    (h : s.UpToDate (replicas tree) (change :: rest) clusters payload)
    (hp : Pending (replicas tree) (change :: rest)) {cluster key : String}
    (hlevel : change.level = .key cluster key) :
    s.UpToDate (replicas tree) rest clusters
      (Session.tell key payload (Session.tells? replicas tree change cluster key s clusters)) := by
  obtain ⟨entries, hentries, hsorted, hkeys⟩ := h
  rw [hentries]
  cases htells : Session.tells? replicas tree change cluster key s clusters with
  | none =>
    exact ⟨entries, rfl, hsorted, fun other hsettled => hkeys other
      (hsettled.cons (seen_of_tells?_eq_none htree hlevel htells))⟩
  | some value =>
    obtain ⟨entries', hentries', hsorted', hfind'⟩ := find?_tell key hsorted value
    refine ⟨entries', hentries', hsorted', fun other hsettled => ?_⟩
    rw [hfind']
    by_cases hkey : other = key
    · subst hkey
      rw [if_pos rfl, find?_of_tells?_eq_some hp hlevel htells hsettled]
    · rw [if_neg hkey]
      refine hkeys other (hsettled.cons fun hread => ?_)
      rw [hlevel] at hread
      exact absurd (reads_changed_iff.1 hread).2.2 hkey

/-- **A change of a key is told where it is shown**, and is right there from then on. -/
theorem InStep.told {replicas : Replicas} {tree : TreeKey} (htree : s.tree = tree)
    (h : s.InStep (replicas tree) (change :: rest) v view)
    (hp : Pending (replicas tree) (change :: rest)) {cluster key : String}
    (hlevel : change.level = .key cluster key)
    (hview : ∀ held, view s.feed = some held → view' s.feed = some fun name =>
      Session.tell key (held name) ((s.resolved.find? name).bind
        (Session.tells? replicas tree change cluster key s))) :
    s.InStep (replicas tree) rest v view' := by
  obtain ⟨held, hheld, hshown⟩ := h.shown
  have hmetadata : change.level.isStructural = true → change.revision ≤ s.seen := by
    rw [hlevel]
    nofun
  refine ⟨h.seen_le, fun hsettled => h.resolved (hsettled.cons hmetadata), _, hview held hheld,
    fun name => ?_⟩
  have hname := hshown name
  cases hfind : s.resolved.find? name with
  | none =>
    rw [hfind] at hname
    exact hname
  | some clusters =>
    rw [hfind] at hname
    exact UpToDate.told htree hname hp hlevel

/-- A change of metadata is shown only by descriptive fields of a cluster that serves a name. -/
theorem touchesInfo_of_reads (hstructural : change.level.isStructural = true)
    {clusters : List String} {key : String}
    (hname : ∃ name, s.resolved.find? name = some clusters)
    (hreads : s.Reads clusters key change.level) : Session.touchesInfo s change = true := by
  obtain ⟨name, hname⟩ := hname
  by_cases hkind : s.feed.kind = .serviceInfo
  · rw [Reads, hkind] at hreads
    obtain ⟨c, hc, hlevel⟩ := hreads
    have huses : s.uses c = true := by
      refine List.any_eq_true.2 ⟨clusters, ?_, List.contains_iff_mem.2 hc⟩
      exact List.mem_map_of_mem (f := Prod.snd) (SortedMap.mem_toList_iff.2 hname)
    rw [Session.touchesInfo, hkind, hlevel]
    simpa using huses
  · obtain ⟨c, -, hlevel⟩ := (reads_key_iff hkind).1 hreads
    rw [hlevel] at hstructural
    cases hstructural

/-- A change that is covered, or is of another tree, leaves a subscription in step. -/
theorem InStep.pass {tree : TreeKey} {before after : List Change} (h : s.InStep r before v view)
    (hp : Pending r before)
    (hread : s.tree = tree ∧ before = change :: after ∨ s.tree ≠ tree ∧ before = after)
    (hcovered : s.tree = tree → change.revision ≤ s.seen) : s.InStep r after v view := by
  rcases hread with ⟨htree, rfl⟩ | ⟨-, rfl⟩
  · exact h.skip hp.newer (fun _ => hcovered htree) fun _ _ _ _ => hcovered htree
  · exact h

/-- A change of metadata that moves no name, and that no descriptive field comes from, is seen
without anything being said. -/
theorem InStep.unmoved (h : s.InStep r (change :: rest) v view)
    (hp : Pending r (change :: rest)) (hstructural : change.level.isStructural = true)
    (hresolved : s.resolved = s.resolve r v') (htouched : Session.touchesInfo s change = false) :
    ({ s with seen := max s.seen change.revision } : Subscription).InStep r rest v' view := by
  obtain ⟨held, hheld, hshown⟩ := h.shown
  have hreads : ∀ clusters key, (∃ name, s.resolved.find? name = some clusters) →
      s.Reads clusters key change.level → change.revision ≤ s.seen := by
    intro clusters key hname hreads
    rw [touchesInfo_of_reads hstructural hname hreads] at htouched
    cases htouched
  exact ⟨Nat.max_le.2 ⟨h.seen_le, hp.bounded change List.mem_cons_self⟩, fun _ => hresolved, held,
    hheld, hshown.read hp.newer (Nat.le_max_left _ _) (Nat.le_refl _) hreads⟩

/-- **A change of metadata leaves a subscription in step**: it is sent in full, or nothing that it
shows has changed. -/
theorem InStep.reconsidered {replicas : Replicas} {tree : TreeKey} {callerMoved : Bool}
    {before after : List Change} (h : s.InStep (replicas s.tree) before v view)
    (hp : Pending (replicas s.tree) before) (hstructural : change.level.isStructural = true)
    (hread : s.tree = tree ∧ before = change :: after ∨ s.tree ≠ tree ∧ before = after)
    (hmode : v'.mode = v.mode) (hpolicy : v'.policy = v.policy)
    (hcaller : callerMoved = false → v'.caller = v.caller)
    (hview : view' s.feed =
      if (Session.reconsidered replicas v' tree change callerMoved s).2 then
        some ((Session.reconsidered replicas v' tree change callerMoved s).1.fullSection
          (replicas s.tree))
      else view s.feed) :
    (Session.reconsidered replicas v' tree change callerMoved s).1.InStep (replicas s.tree) after
      v' view' := by
  rcases Session.reconsidered_inv replicas v' tree change callerMoved s with
    hfull | ⟨hbound, hresolved, htouched, hseen⟩ | ⟨hbound, hresolved, hsame⟩
  · rw [hfull] at hview ⊢
    exact inStep_inFull s hview
  · rw [hseen] at hview ⊢
    rcases hread with ⟨-, rfl⟩ | ⟨htree, -⟩
    · exact (h.unmoved hp hstructural hresolved htouched).of_view hview
    · exact absurd hbound.1 htree
  · rw [hsame] at hview ⊢
    have hcovered : s.tree = tree → change.revision ≤ s.seen := fun htree =>
      Nat.not_lt.1 fun hnew => hbound ⟨htree, hnew⟩
    have hkept : s.InStep (replicas s.tree) before v' view := by
      cases hmoved : callerMoved && s.needsCaller v'.mode with
      | true =>
        obtain ⟨hmoved, hneeds⟩ := Bool.and_eq_true_iff.1 hmoved
        exact ⟨h.seen_le, fun _ => hresolved hmoved hneeds, h.shown⟩
      | false =>
        exact h.of_callerMoved hp.seen hmode hpolicy hcaller fun hmoved' => by
          simpa [hmoved'] using hmoved
    exact (hkept.pass hp hread hcovered).of_view hview

/-- A gap leaves a subscription in step: it is sent in full, or the gap does not concern it. -/
theorem InStep.resent {replicas : Replicas} {tree : TreeKey} {ofCaller : Bool} {x : Session}
    {policy : Policy} {before after : List Change} (h : s.InStep (replicas s.tree) before v view)
    (hs : (replicas s.tree).AllSeen) (hread : s.tree ≠ tree → before = after)
    (hmode : (x.viewpoint policy).mode = v.mode) (hpolicy : (x.viewpoint policy).policy = v.policy)
    (hcaller : ofCaller = false → (x.viewpoint policy).caller = v.caller)
    (hview : view' s.feed = if (x.resent replicas policy tree ofCaller s).2 then
        some ((x.resent replicas policy tree ofCaller s).1.fullSection (replicas s.tree))
      else view s.feed) :
    (x.resent replicas policy tree ofCaller s).1.InStep (replicas s.tree) after
      (x.viewpoint policy) view' := by
  rcases x.resent_inv replicas policy tree ofCaller s with hfull | ⟨htree, hout, hsame⟩
  · rw [hfull] at hview ⊢
    exact inStep_inFull s hview
  · rw [hsame] at hview ⊢
    have hkept := h.of_callerMoved hs hmode hpolicy hcaller hout
    exact (hread htree ▸ hkept).of_view hview

end Subscription

end Treecast
