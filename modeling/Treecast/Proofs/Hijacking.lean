import Treecast.Service.Jobs
import Treecast.Proofs.View

/-!
# Hijacked views

A hijacked client gets rewritten messages.  What it then holds is what it would hold of the
original messages, with the intent's payload shown under every hijacked cluster name and the
intent itself hidden unless it was asked for (`Hijack.projectView`).

A hijacking is *prepared* when some of the request's destinations were looked at, each on
whatever trees; a hijacked cluster is then never an intent that is hidden.

## Results

* `Hijack.receiveAll_project`: a rewritten message has the effect of one whose sections are
  rewritten, even if it is dropped because nothing is left of it.
* `Hijack.receive_projectSections`: rewriting commutes with receiving, section by section.
* `Hijack.receiveAll_filterMap_project`: rewriting commutes with receiving any number of
  messages.
* `Service.prepareAll_prepared`: what the service prepares is a prepared hijacking.
-/

set_option autoImplicit false

namespace Treecast

open Json (Value)

/-! ## Changing messages -/

namespace Message

theorem get?_alterMember (key : String) (f : Value → Value) (v : Value) (other : String) :
    (alterMember key f v).get? other =
      if other = key then (v.get? key).map f else v.get? other := by
  cases v with
  | object members =>
    rw [alterMember]
    cases hfind : Entries.find? key members with
    | none =>
      by_cases h : other = key
      · simp only [h, if_true, Value.get?, hfind, Option.map_none]
      · rw [if_neg h]
    | some w =>
      simp only [Value.get?, Entries.find?_insert, hfind, Option.map_some]
  | _ => simp [alterMember, Value.get?]

theorem clusters?_alterClusters (m : Message) (key : FeedKey)
    (f : Entries String Value → Entries String Value) (other : FeedKey) :
    (m.alterClusters key f).clusters? other =
      if other = key then (m.clusters? key).map f else m.clusters? other := by
  simp only [clusters?, alterClusters, get?_alterMember]
  by_cases hk : other.kind.name = key.kind.name
  · rw [if_pos hk]
    cases hkind : m.body.get? key.kind.name with
    | none =>
      simp [hk, hkind]
    | some sections =>
      simp only [Option.map_some, Option.bind_eq_bind, Option.bind_some, get?_alterMember, hk,
        hkind]
      by_cases ha : other.application = key.application
      · have : other = key := by
          cases other
          cases key
          simp only [FeedKey.mk.injEq]
          exact ⟨FeedKind.name_inj hk, ha⟩
        rw [if_pos ha, if_pos this]
        cases sections.get? key.application with
        | none => rfl
        | some section_ => cases section_ <;> rfl
      · rw [if_neg ha, if_neg fun h => ha (congrArg FeedKey.application h)]
  · rw [if_neg hk, if_neg fun h => hk (congrArg (fun k => k.kind.name) h)]

theorem sortedTo_alterMember {levels : Nat} {key : String} {f : Value → Value} {v : Value}
    (hf : ∀ w : Value, w.SortedTo levels → (f w).SortedTo levels) (h : v.SortedTo (levels + 1)) :
    (alterMember key f v).SortedTo (levels + 1) := by
  cases v with
  | object members =>
    rw [alterMember]
    split
    · rename_i w hw
      refine ⟨Entries.insert_sorted key (f w) h.1, fun e he => ?_⟩
      rcases Entries.mem_insert he with rfl | he
      · exact hf w (h.2 _ (Entries.mem_of_find? hw))
      · exact h.2 e he
    · exact h
  | _ => exact h

theorem sortedTo_alterClusters {m : Message} (h : m.body.SortedTo 2) (key : FeedKey)
    (f : Entries String Value → Entries String Value) :
    (m.alterClusters key f).body.SortedTo 2 := by
  refine sortedTo_alterMember (fun w hw => sortedTo_alterMember (fun x _ => ?_) hw) h
  cases x <;> trivial

theorem get?_pruneKind {v : Value} (h : v.SortedTo 1) (key : String) :
    (pruneKind v).get? key = (v.get? key).filter fun s => !s.isEmptyObject := by
  cases v with
  | object sections =>
    rw [pruneKind, Value.get?, Entries.find?_filter _ _ h.1, Value.get?]
  | _ => rfl

theorem bind_get?_filter (v : Option Value) (key : String) :
    (v.filter fun x => !x.isEmptyObject).bind (Value.get? key) = v.bind (Value.get? key) := by
  cases v with
  | none => rfl
  | some v =>
    cases v with
    | object members => cases members <;> rfl
    | _ => rfl

theorem bind_members?_filter (v : Option Value) :
    (v.filter fun x => !x.isEmptyObject).bind Value.members? =
      (v.bind Value.members?).filter fun clusters => !clusters.isEmpty := by
  cases v with
  | none => rfl
  | some v =>
    cases v with
    | object members => cases members <;> rfl
    | _ => rfl

@[simp] theorem kind_prune (m : Message) : m.prune.kind = m.kind := by
  unfold prune
  split <;> rfl

/-- What pruning leaves of each kind. -/
theorem get?_prune {m : Message} (hm : m.body.SortedTo 1) (kind : String) :
    m.prune.body.get? kind =
      ((m.body.get? kind).map pruneKind).filter fun v => !v.isEmptyObject := by
  obtain ⟨messageKind, body⟩ := m
  cases body with
  | object kinds =>
    have hsorted := Entries.map_sorted (fun _ v => pruneKind v) hm.1
    rw [prune, Value.get?, Entries.find?_filter _ _ hsorted,
      Entries.find?_map (fun _ v => pruneKind v), Value.get?]
  | _ => rfl

/-- What stands in the body for an application, whatever its kind is called. -/
def sectionAt? (m : Message) (kind application : String) : Option Value :=
  (m.body.get? kind).bind (Value.get? application)

theorem clusters?_eq_sectionAt? (m : Message) (key : FeedKey) :
    m.clusters? key = (m.sectionAt? key.kind.name key.application).bind Value.members? := by
  rw [clusters?, sectionAt?, Option.bind_assoc]
  rfl

/-- **Pruning drops the empty sections** and nothing else. -/
theorem sectionAt?_prune {m : Message} (hm : m.body.SortedTo 2) (kind application : String) :
    m.prune.sectionAt? kind application =
      (m.sectionAt? kind application).filter fun v => !v.isEmptyObject := by
  rw [sectionAt?, sectionAt?, get?_prune hm.of_succ, bind_get?_filter]
  cases hkind : m.body.get? kind with
  | none => rfl
  | some sections =>
    rw [Option.map_some, Option.bind_some, Option.bind_some, get?_pruneKind (hm.get? hkind)]

theorem clusters?_prune {m : Message} (h : m.body.SortedTo 2) (key : FeedKey) :
    m.prune.clusters? key = (m.clusters? key).filter fun clusters => !clusters.isEmpty := by
  rw [clusters?_eq_sectionAt?, clusters?_eq_sectionAt?, sectionAt?_prune h, bind_members?_filter]

/-- A message without entries has no cluster in any section. -/
theorem clusters?_of_hasEntries {m : Message} (h : m.hasEntries = false) {key : FeedKey}
    {clusters : Entries String Value} (hc : m.clusters? key = some clusters) : clusters = [] := by
  obtain ⟨kind, body⟩ := m
  cases body with
  | object kinds =>
    obtain ⟨sections, hsections, hc⟩ := Option.bind_eq_some_iff.1 hc
    obtain ⟨section_, hsection, hc⟩ := Option.bind_eq_some_iff.1 hc
    have hkind := List.any_eq_false.1 h _ (Entries.mem_of_find? hsections)
    cases sections with
    | object sections =>
      have hentry := List.any_eq_false.1 (Bool.eq_false_iff.2 hkind) _
        (Entries.mem_of_find? hsection)
      cases section_ with
      | object members =>
        cases hc
        simpa [sectionHasEntries] using hentry
      | _ => cases hc
    | _ => cases hsection
  | _ => cases hc

end Message

namespace Routing

/-! ## What a client is shown -/

namespace Takeover

/-- The payloads of a destination's section as the client sees them. -/
def shown (t : Takeover) (intent : String) (held : Payloads) : Payloads := fun name =>
  if name = intent ∧ ¬ t.intentRequested then none
  else if t.mode.projects ∧ t.clusters.has name then (held intent).or (held name)
  else held name

end Takeover

namespace Hijack

/-- What is done for a section; none if it is left alone. -/
def takeoverOf? (h : Hijack) (key : FeedKey) : Option Takeover :=
  if key.kind = .service then (h.takeover? key.application).filter (·.mode ≠ .disabled) else none

/-- What a client holds as it is shown to it. -/
def projectView (h : Hijack) (v : View) : View := fun key =>
  match h.takeoverOf? key with
  | some t => (v key).map (t.shown h.intent)
  | none => v key

/-- The hijackings that come out when some of the request's destinations were looked at. -/
inductive Prepared (policy : Policy) (caller : Option Caller) (mode : RouteMode)
    (request : Request) : Hijack → Prop
  | start : Prepared policy caller mode request (create policy caller mode)
  | look {h : Hijack} {c : Caller} {application : String} {t : Takeover}
      (callerTree destination : Replica) :
      Prepared policy caller mode request h → h.caller = some c →
      (application, t) ∈ h.candidates request →
      Prepared policy caller mode request (h.prepareOn application callerTree destination c t)

/-- A hijacked cluster is not an intent that is hidden. -/
def Sound (h : Hijack) : Prop :=
  ∀ application t, h.takeover? application = some t →
    t.clusters.has h.intent = true → t.intentRequested = true

variable {h : Hijack}

theorem diagnose_keeps (h : Hijack) (d : Destination) (caller : CallerRoute) (t : Takeover) :
    (h.diagnose d caller t).clusters = t.clusters ∧
      (h.diagnose d caller t).intentRequested = t.intentRequested := by
  unfold diagnose
  split
  · exact ⟨rfl, rfl⟩
  · exact ⟨rfl, rfl⟩
  · dsimp only
    split <;> exact ⟨rfl, rfl⟩

theorem requested_of_candidate {request : Request} {application : String} {t : Takeover}
    (hmem : (application, t) ∈ h.candidates request) (hhas : t.clusters.has h.intent = true) :
    t.intentRequested = true := by
  obtain ⟨⟨feed, selection⟩, -, hcandidate⟩ := List.mem_filterMap.1 hmem
  obtain ⟨t', ht', he⟩ := Option.map_eq_some_iff.1 hcandidate
  cases he
  unfold candidate? at ht'
  dsimp only at ht'
  split at ht'
  · cases ht'
  · cases ht'
    -- the hijackable clusters are among those asked for
    rw [SortedSet.has, SortedMap.contains, hijackable, SortedMap.find?_filter,
      Option.isSome_filter] at hhas
    rw [SortedSet.has, SortedMap.contains]
    exact Option.isSome_of_any hhas

theorem Sound.prepareOn (hs : h.Sound) {request : Request} {application : String} {t : Takeover}
    (hmem : (application, t) ∈ h.candidates request) (callerTree destination : Replica)
    (caller : Caller) : (h.prepareOn application callerTree destination caller t).Sound := by
  intro application' t' ht' hhas
  simp only [takeover?, Hijack.prepareOn, SortedMap.find?_insert] at ht'
  split at ht'
  · cases ht'
    obtain ⟨hclusters, hrequested⟩ := h.diagnose_keeps
      ⟨application, destination, h.policy⟩ (CallerRoute.ofReplica callerTree h.policy caller) t
    rw [hclusters] at hhas
    rw [hrequested]
    exact requested_of_candidate hmem hhas
  · exact hs application' t' ht' hhas

theorem Prepared.sound {policy : Policy} {caller : Option Caller} {mode : RouteMode}
    {request : Request} (hp : Prepared policy caller mode request h) : h.Sound := by
  induction hp with
  | start => exact fun _ _ ht => by cases ht
  | look callerTree destination _ _ hmem ih => exact ih.prepareOn hmem callerTree destination _

theorem Sound.takeoverOf? (hs : h.Sound) {key : FeedKey} {t : Takeover}
    (ht : h.takeoverOf? key = some t) (hhas : t.clusters.has h.intent = true) :
    t.intentRequested = true := by
  unfold Hijack.takeoverOf? at ht
  split at ht
  · exact hs _ _ (Option.filter_eq_some_iff.1 ht).1 hhas
  · cases ht

/-! ## Rewriting cluster entries -/

theorem find?_foldl_erase (names : List String) {clusters : Entries String Value}
    (hs : clusters.Sorted) (name : String) :
    Entries.find? name (names.foldl (fun cs c => Entries.erase c cs) clusters) =
      if name ∈ names then none else Entries.find? name clusters := by
  induction names generalizing clusters with
  | nil => rfl
  | cons c rest ih =>
    rw [List.foldl_cons, ih (Entries.erase_sorted c hs), Entries.find?_erase c name hs]
    by_cases hr : name ∈ rest
    · simp [hr]
    · by_cases hc : name = c <;> simp [hr, hc]

theorem find?_foldl_put (names : List String) (p : Value) (clusters : Entries String Value)
    (name : String) :
    Entries.find? name (names.foldl (fun cs c => Entries.insert c p cs) clusters) =
      if name ∈ names then some p else Entries.find? name clusters := by
  induction names generalizing clusters with
  | nil => rfl
  | cons c rest ih =>
    rw [List.foldl_cons, ih, Entries.find?_insert]
    by_cases hr : name ∈ rest
    · simp [hr]
    · by_cases hc : name = c <;> simp [hr, hc]

/-- The rewritten entries: under a hijacked name what the message carries for the intent, and
in an `all` without the intent what it carries for the name itself. -/
theorem find?_projectClusters (intent : String) (kind : MessageKind) (t : Takeover)
    {clusters : Entries String Value} (hs : clusters.Sorted) (name : String) :
    Entries.find? name (projectClusters intent kind t clusters) =
      let own := if name = intent ∧ ¬ t.intentRequested then none else Entries.find? name clusters
      if t.mode.projects ∧ t.clusters.has name then
        (Entries.find? intent clusters).or (if kind = .all then own else none)
      else own := by
  have hkept : Entries.Sorted
        (if t.intentRequested then clusters else Entries.erase intent clusters) ∧
      Entries.find? name (if t.intentRequested then clusters else Entries.erase intent clusters) =
        if name = intent ∧ ¬ t.intentRequested then none else Entries.find? name clusters := by
    cases t.intentRequested with
    | true => simpa using hs
    | false => simpa [Entries.find?_erase intent name hs] using Entries.erase_sorted intent hs
  have hhas : t.clusters.has name = true ↔ name ∈ t.clusters.elements := by
    rw [SortedSet.has, SortedMap.contains, SortedSet.elements, SortedMap.mem_keys_iff]
  unfold projectClusters
  generalize (if t.intentRequested then clusters else Entries.erase intent clusters) = kept at hkept
  obtain ⟨hsorted, hfind⟩ := hkept
  cases hprojects : t.mode.projects with
  | false => simpa using hfind
  | true =>
    by_cases hmem : name ∈ t.clusters.elements
    · cases Entries.find? intent clusters with
      | some p => simp [hhas, hmem, find?_foldl_put]
      | none =>
        by_cases hkind : kind = .all
        · simp [hhas, hmem, hkind, hfind]
        · simp [hhas, hmem, hkind, find?_foldl_erase _ hsorted]
    · cases Entries.find? intent clusters with
      | some p =>
        by_cases hkind : kind = .all
        · simp [hhas, hmem, hkind, find?_foldl_put, hfind]
        · simp [hhas, hmem, hkind, find?_foldl_put, find?_foldl_erase _ hsorted, hfind]
      | none =>
        by_cases hkind : kind = .all
        · simp [hhas, hmem, hkind, hfind]
        · simp [hhas, hmem, hkind, find?_foldl_erase _ hsorted, hfind]

/-! ## Rewriting messages -/

/-- **What a change of a destination's section keeps**, whatever the change, rewriting keeps. -/
theorem projectSections_keeps {P : Message → Prop} (h : Hijack) {m : Message} (hm : P m)
    (hstep : ∀ (x : Message) (application : String) (f : Entries String Value →
      Entries String Value), (h.takeover? application).isSome = true → P x →
        P (x.alterClusters ⟨.service, application⟩ f)) : P (h.projectSections m) := by
  unfold projectSections
  refine List.foldlRecOn _ _ hm fun x hx e he => ?_
  have hdestination : (h.takeover? e.1).isSome = true := by
    rw [takeover?, SortedMap.mem_toList_iff.1 he, Option.isSome_some]
  split
  · exact hx
  · exact hstep x e.1 _ hdestination hx

@[simp] theorem kind_projectSections (h : Hijack) (m : Message) :
    (h.projectSections m).kind = m.kind :=
  projectSections_keeps (P := fun x => x.kind = m.kind) h rfl fun _ _ _ _ hx => hx

theorem sortedTo_projectSections (h : Hijack) {m : Message} (hm : m.body.SortedTo 2) :
    (h.projectSections m).body.SortedTo 2 :=
  projectSections_keeps (P := fun x => x.body.SortedTo 2) h hm fun _ _ f _ hx =>
    Message.sortedTo_alterClusters hx _ f

/-- The message with one destination as the client sees it. -/
def projectSection (intent : String) (kind : MessageKind) (m : Message) (application : String)
    (t : Takeover) : Message :=
  if t.mode = .disabled then m
  else m.alterClusters ⟨.service, application⟩ (projectClusters intent kind t)

/-- The kind of the message does not change while its sections are rewritten. -/
theorem projectSections_eq_foldl (h : Hijack) (m : Message) :
    h.projectSections m =
      h.takeovers.toList.foldl (fun x e => projectSection h.intent m.kind x e.1 e.2) m := by
  unfold projectSections
  generalize h.takeovers.toList = entries
  have hfold : ∀ x : Message, x.kind = m.kind →
      entries.foldl (fun x e =>
        if e.2.mode = .disabled then x
        else x.alterClusters ⟨.service, e.1⟩ (projectClusters h.intent x.kind e.2)) x =
      entries.foldl (fun x e => projectSection h.intent m.kind x e.1 e.2) x := by
    induction entries with
    | nil => exact fun _ _ => rfl
    | cons e rest ih =>
      intro x hx
      rw [List.foldl_cons, List.foldl_cons, projectSection, hx]
      split
      · exact ih x hx
      · exact ih _ hx
  exact hfold m rfl

theorem clusters?_projectSection (intent : String) (kind : MessageKind) (m : Message)
    (application : String) (t : Takeover) (key : FeedKey) :
    (projectSection intent kind m application t).clusters? key =
      if t.mode ≠ .disabled ∧ key = ⟨.service, application⟩ then
        (m.clusters? key).map (projectClusters intent kind t)
      else m.clusters? key := by
  unfold projectSection
  by_cases hmode : t.mode = .disabled
  · simp [hmode]
  · by_cases hkey : key = ⟨.service, application⟩ <;>
      simp [hmode, hkey, Message.clusters?_alterClusters]

/-- The sections of a destination are rewritten by its takeover, and all others stay. -/
theorem clusters?_projectSections (h : Hijack) (m : Message) (key : FeedKey) :
    (h.projectSections m).clusters? key =
      match h.takeoverOf? key with
      | some t => (m.clusters? key).map (projectClusters h.intent m.kind t)
      | none => m.clusters? key := by
  obtain ⟨kind, application⟩ := key
  by_cases hkind : kind = .service
  · subst hkind
    rw [projectSections_eq_foldl]
    refine (Entries.look_foldl (projectSection h.intent m.kind)
      (fun x application => x.clusters? ⟨.service, application⟩)
      (fun t clusters =>
        if t.mode ≠ .disabled then clusters.map (projectClusters h.intent m.kind t) else clusters)
      (fun x application t other => ?_) h.takeovers.sorted m application).trans ?_
    · rw [clusters?_projectSection]
      by_cases ho : other = application <;> simp [ho]
    · rw [takeoverOf?, if_pos rfl, takeover?, SortedMap.find?]
      cases h.takeovers.entries.find? application with
      | none => rfl
      | some t =>
        by_cases hmode : t.mode = .disabled
        · rw [Option.filter_some_neg (by simpa using hmode)]
          exact if_neg fun hn => hn hmode
        · rw [Option.filter_some_pos (by simpa using hmode)]
          exact if_pos hmode
  · rw [takeoverOf?, if_neg hkind]
    refine projectSections_keeps (P := fun x => x.clusters? ⟨kind, application⟩ = _) h rfl
      fun x other f _ hx => ?_
    rw [Message.clusters?_alterClusters, if_neg fun he => hkind (congrArg FeedKey.kind he), hx]

/-- Without any destination that is hijacked or checked nothing is rewritten. -/
theorem projectSections_of_not_active (hactive : h.isActive = false) (m : Message) :
    h.projectSections m = m := by
  unfold projectSections
  refine List.foldlRecOn (motive := fun x => x = m) _ _ rfl fun x hx e he => ?_
  have hmode := List.any_eq_false.1 hactive e.2 (List.mem_map_of_mem he)
  rw [if_pos (by simpa using hmode), hx]

/-- Sections without clusters can be dropped from an `update` or a `delete`. -/
theorem receive_prune {m : Message} (hm : m.body.SortedTo 2) (hkind : m.kind ≠ .all) (v : View) :
    v.receive m.prune = v.receive m := by
  funext key
  rw [View.receive, View.receive, Message.kind_prune, Message.clusters?_prune hm]
  cases m.clusters? key with
  | none => rfl
  | some clusters =>
    cases clusters with
    | nil => exact (receiveSection_nil hkind (v key)).symm
    | cons e rest => rfl

/-- **A rewritten message, dropped or not, has the effect of its rewritten sections.** -/
theorem receiveAll_project (h : Hijack) {m : Message} (hm : m.body.SortedTo 2) (v : View) :
    v.receiveAll (h.project m).toList = v.receive (h.projectSections m) := by
  unfold project
  by_cases hping : m.kind = .ping
  · rw [if_pos (.inl hping)]
    exact (View.receive_ping v hping).trans
      (View.receive_ping v (by rw [kind_projectSections, hping])).symm
  · cases hactive : h.isActive with
    | false =>
      rw [if_pos (.inr (by simp)), projectSections_of_not_active hactive]
      rfl
    | true =>
      rw [if_neg (by simp [hping])]
      by_cases hall : m.kind = .all
      · simp only [kind_projectSections, hall, if_true]
        rfl
      · simp only [kind_projectSections, hall, if_false]
        have hne : (h.projectSections m).kind ≠ .all := by rwa [kind_projectSections]
        rw [← receive_prune (sortedTo_projectSections h hm) hne v]
        split
        · rfl
        · rename_i hempty
          -- nothing is left that the client could receive
          funext key
          rw [View.receive]
          split
          · rename_i clusters hclusters
            rw [Message.clusters?_of_hasEntries (Bool.eq_false_iff.2 hempty) hclusters,
              receiveSection_nil (by rwa [Message.kind_prune])]
            rfl
          · rfl

/-! ## Rewriting against receiving -/

section Shown

variable {t : Takeover} {intent : String} {clusters : Entries String Value}

theorem payloadsOf_projectClusters (ht : t.clusters.has intent = true → t.intentRequested = true)
    (hs : clusters.Sorted) (hintent : (Entries.find? intent clusters).isSome) :
    payloadsOf (projectClusters intent .all t clusters) = t.shown intent (payloadsOf clusters) := by
  obtain ⟨p, hp⟩ := Option.isSome_iff_exists.1 hintent
  funext name
  rw [payloadsOf, find?_projectClusters intent .all t hs, hp]
  simp only [Takeover.shown, payloadsOf, hp, Option.some_or]
  by_cases hhidden : name = intent ∧ ¬ t.intentRequested = true
  · have hown : ¬ (t.mode.projects = true ∧ t.clusters.has name = true) :=
      fun h => hhidden.2 (ht (hhidden.1 ▸ h.2))
    rw [if_neg hown, if_pos hhidden, if_pos hhidden]
  · rw [if_neg hhidden, if_neg hhidden]

theorem change_projectClusters (ht : t.clusters.has intent = true → t.intentRequested = true)
    (hs : clusters.Sorted) {kind : MessageKind} (hkind : kind ≠ .all)
    (f : Option Value → Value → Option Value) (hf : ∀ p news, (f (some p) news).isSome)
    {held : Payloads} (hheld : (held intent).isSome) :
    (t.shown intent held).change f (projectClusters intent kind t clusters) =
      t.shown intent (held.change f clusters) := by
  obtain ⟨p, hp⟩ := Option.isSome_iff_exists.1 hheld
  funext name
  rw [Payloads.change, find?_projectClusters intent kind t hs]
  simp only [hkind, if_false, Option.or_none, Takeover.shown]
  by_cases hhidden : name = intent ∧ ¬ t.intentRequested = true
  · -- a hidden intent is no hijacked name
    have hown : ¬ (t.mode.projects = true ∧ t.clusters.has name = true) :=
      fun h => hhidden.2 (ht (hhidden.1 ▸ h.2))
    rw [if_neg hown, if_pos hhidden, if_pos hhidden, if_pos hhidden]
  · rw [if_neg hhidden, if_neg hhidden, if_neg hhidden]
    by_cases hshown : t.mode.projects = true ∧ t.clusters.has name = true
    · rw [if_pos hshown, if_pos hshown, if_pos hshown, Payloads.change, hp, Option.some_or]
      cases Entries.find? intent clusters with
      | none => rfl
      | some news =>
        obtain ⟨q, hq⟩ := Option.isSome_iff_exists.1 (hf p news)
        simp only [hq, Option.some_or]
    · rw [if_neg hshown, if_neg hshown, if_neg hshown]
      rfl

end Shown

/-- The client holds every section of a destination, with its intent. -/
def Informed (h : Hijack) (v : View) : Prop :=
  ∀ key t, h.takeoverOf? key = some t → ∃ held, v key = some held ∧ (held h.intent).isSome

/-- An `all` carries the intent of every destination of which it carries the section. -/
def CarriesIntents (h : Hijack) (m : Message) : Prop :=
  ∀ key t clusters, h.takeoverOf? key = some t → m.clusters? key = some clusters →
    (Entries.find? h.intent clusters).isSome

theorem Informed.receive {v : View} {m : Message} (hv : h.Informed v)
    (hall : m.kind = .all → h.CarriesIntents m) : h.Informed (v.receive m) := by
  intro key t ht
  obtain ⟨held, hheld, hintent⟩ := hv key t ht
  rw [View.receive]
  cases hc : m.clusters? key with
  | none => exact ⟨held, hheld, hintent⟩
  | some clusters =>
    obtain ⟨p, hp⟩ := Option.isSome_iff_exists.1 hintent
    rw [hheld]
    cases hkind : m.kind with
    | all => exact ⟨_, rfl, hall hkind key t clusters ht hc⟩
    | update =>
      refine ⟨_, receiveSection_update held clusters, ?_⟩
      rw [Payloads.update, Payloads.change]
      split
      · rfl
      · exact hintent
    | delete =>
      refine ⟨held.delete clusters, rfl, ?_⟩
      rw [Payloads.delete, Payloads.change, hp]
      split <;> rfl
    | ping => exact ⟨held, rfl, hintent⟩

/-- **Rewriting commutes with receiving a message.**  An `all` must carry the intents of its
sections; any other message must meet a client that holds them. -/
theorem receive_projectSections (hsound : h.Sound) {v : View} {m : Message}
    (hm : m.body.inOrder = m.body) (hall : m.kind = .all → h.CarriesIntents m)
    (hv : m.kind ≠ .all → h.Informed v) :
    (h.projectView v).receive (h.projectSections m) = h.projectView (v.receive m) := by
  funext key
  rw [View.receive, clusters?_projectSections, kind_projectSections]
  unfold projectView
  cases ht : h.takeoverOf? key with
  | none => rfl
  | some t =>
    dsimp only
    rw [View.receive]
    cases hc : m.clusters? key with
    | none => rfl
    | some clusters =>
      have hs := Message.sorted_of_inOrder hm hc
      have hrequested := hsound.takeoverOf? ht
      simp only [Option.map_some]
      cases hkind : m.kind with
      | all =>
        exact congrArg some (payloadsOf_projectClusters hrequested hs
          (hall hkind key t clusters ht hc))
      | update =>
        obtain ⟨held, hheld, hintent⟩ := hv (by simp [hkind]) key t ht
        rw [hheld, Option.map_some, receiveSection_update, receiveSection_update, Option.map_some]
        exact congrArg some (change_projectClusters hrequested hs (by decide) _ (fun _ _ => rfl)
          hintent)
      | delete =>
        obtain ⟨held, hheld, hintent⟩ := hv (by simp [hkind]) key t ht
        rw [hheld]
        exact congrArg some (change_projectClusters hrequested hs (by decide) _ (fun _ _ => rfl)
          hintent)
      | ping => rfl

theorem receiveAll_filterMap_cons_of_sortedTo (h : Hijack) {m : Message}
    (hm : m.body.SortedTo 2) (rest : List Message) (v : View) :
    v.receiveAll ((m :: rest).filterMap h.project) =
      (v.receive (h.projectSections m)).receiveAll (rest.filterMap h.project) := by
  have hfilter : (m :: rest).filterMap h.project =
      (h.project m).toList ++ rest.filterMap h.project := by
    cases hp : h.project m <;> simp [hp]
  rw [hfilter, View.receiveAll_append, receiveAll_project h hm v]

theorem receiveAll_filterMap_cons (h : Hijack) {m : Message} (hm : m.body.inOrder = m.body)
    (rest : List Message) (v : View) :
    v.receiveAll ((m :: rest).filterMap h.project) =
      (v.receive (h.projectSections m)).receiveAll (rest.filterMap h.project) :=
  h.receiveAll_filterMap_cons_of_sortedTo (Value.sortedTo_of_inOrder 2 hm) rest v

theorem receiveAll_project_of_informed (hsound : h.Sound) (messages : List Message) :
    ∀ {v : View}, h.Informed v → (∀ m ∈ messages, m.body.inOrder = m.body) →
      (∀ m ∈ messages, m.kind = .all → h.CarriesIntents m) →
      (h.projectView v).receiveAll (messages.filterMap h.project) =
        h.projectView (v.receiveAll messages) := by
  induction messages with
  | nil => exact fun _ _ _ => rfl
  | cons m rest ih =>
    intro v hv horder hintents
    have hm := horder m List.mem_cons_self
    have hall := hintents m List.mem_cons_self
    rw [receiveAll_filterMap_cons h hm, receive_projectSections hsound hm hall fun _ => hv]
    exact ih (hv.receive hall) (fun x hx => horder x (List.mem_cons_of_mem _ hx))
      (fun x hx => hintents x (List.mem_cons_of_mem _ hx))

/-- **Rewriting commutes with receiving.**  A client of a prepared hijacking that gets the
rewritten messages holds what it would hold of the original ones, as it is shown to it.  The
first message is an `all` with every destination's section, and every `all` carries the intents
of the sections that it carries. -/
theorem receiveAll_filterMap_project {policy : Policy} {caller : Option Caller} {mode : RouteMode}
    {request : Request} (hprepared : Prepared policy caller mode request h) {first : Message}
    {rest : List Message} (hfirst : first.kind = .all)
    (hsections : ∀ key t, h.takeoverOf? key = some t → (first.clusters? key).isSome)
    (horder : ∀ m ∈ first :: rest, m.body.inOrder = m.body)
    (hintents : ∀ m ∈ first :: rest, m.kind = .all → h.CarriesIntents m) :
    View.empty.receiveAll ((first :: rest).filterMap h.project) =
      h.projectView (View.empty.receiveAll (first :: rest)) := by
  have hm := horder first List.mem_cons_self
  have hall := hintents first List.mem_cons_self
  have hempty : h.projectView View.empty = View.empty := by
    funext key
    unfold projectView
    split <;> rfl
  have hinformed : h.Informed (View.empty.receive first) := by
    intro key t ht
    obtain ⟨clusters, hc⟩ := Option.isSome_iff_exists.1 (hsections key t ht)
    refine ⟨payloadsOf clusters, ?_, hall hfirst key t clusters ht hc⟩
    rw [View.receive_empty hfirst, View.ofMessage, hc, Option.map_some]
  have hstep : View.empty.receive (h.projectSections first) =
      h.projectView (View.empty.receive first) := by
    have := receive_projectSections hprepared.sound (v := View.empty) hm hall
      fun hne => absurd hfirst hne
    rwa [hempty] at this
  rw [receiveAll_filterMap_cons h hm, hstep]
  exact receiveAll_project_of_informed hprepared.sound rest hinformed
    (fun x hx => horder x (List.mem_cons_of_mem _ hx))
    (fun x hx => hintents x (List.mem_cons_of_mem _ hx))

/-- Callers of `web` are hijacked. -/
def webPolicy : Policy :=
  { Policy.standard with
    hijack := { HijackSettings.standard with modes := SortedMap.ofList [("web", .enabled)] } }

/-- Two clusters of `shop` are asked for. -/
def shopRequest : Request :=
  ⟨SortedMap.ofList
    [(⟨.service, "shop"⟩, ⟨SortedSet.ofElements ["a", "b"], SortedMap.empty, false⟩)]⟩

/-- What is done for `shop`. -/
def shopTakeover : Takeover := ⟨.enabled, SortedSet.ofElements ["a", "b"], false, []⟩

/-- The hijacking of a client in `web`, prepared on trees without clusters. -/
def shopHijack : Hijack :=
  (create webPolicy (some ⟨"web", "w"⟩) .orig).prepareOn "shop" (Replica.empty "/service/web")
    (Replica.empty "/service/shop") ⟨"web", "w"⟩ shopTakeover

/-- A message about the clusters of `shop`, with one key in each. -/
def shopMessage (kind : MessageKind) (keys : List (String × String × Value)) : Message :=
  ⟨kind, .object [("service", .object [("shop",
    .object (keys.map fun e => (e.1, .object [(e.2.1, .object [("value", e.2.2)])])))])]⟩

/-- A dump, an update of one cluster and of the intent, and a deletion in a hijacked cluster. -/
def shopMessages : List Message :=
  [shopMessage .all [("a", "k1", .string "x"), ("direct", "k2", .string "y")],
    shopMessage .update [("a", "k1", .string "z"), ("direct", "k3", .string "u")],
    shopMessage .delete [("b", "k1", .null)]]

theorem shopHijack_takeoverOf? {key : FeedKey} {t : Takeover}
    (h : shopHijack.takeoverOf? key = some t) : key = ⟨.service, "shop"⟩ := by
  unfold takeoverOf? at h
  split at h
  · rename_i hkind
    have hmem := Entries.mem_of_find? (Option.filter_eq_some_iff.1 h).1
    have hkeys : shopHijack.takeovers.entries.map Prod.fst = ["shop"] := by decide
    have := List.mem_map_of_mem (f := Prod.fst) hmem
    rw [hkeys, List.mem_singleton] at this
    cases key
    simp_all
  · cases h

/-- A client of `shop` while its two clusters are taken over. -/
theorem receiveAll_filterMap_project_shop :
    Prepared webPolicy (some ⟨"web", "w"⟩) .orig shopRequest shopHijack ∧
    (∀ key t, shopHijack.takeoverOf? key = some t →
      ((shopMessage .all [("a", "k1", .string "x"), ("direct", "k2", .string "y")]).clusters?
        key).isSome) ∧
    (∀ m ∈ shopMessages, m.body.inOrder = m.body) ∧
    (∀ m ∈ shopMessages, m.kind = .all → shopHijack.CarriesIntents m) ∧
    View.empty.receiveAll (shopMessages.filterMap shopHijack.project) =
      shopHijack.projectView (View.empty.receiveAll shopMessages) := by
  have hprepared : Prepared webPolicy (some ⟨"web", "w"⟩) .orig shopRequest shopHijack :=
    Prepared.start.look _ _ rfl (by decide)
  have hsections : ∀ key t, shopHijack.takeoverOf? key = some t →
      ((shopMessage .all [("a", "k1", .string "x"), ("direct", "k2", .string "y")]).clusters?
        key).isSome := by
    intro key t ht
    rw [shopHijack_takeoverOf? ht]
    decide
  have horder : ∀ m ∈ shopMessages, m.body.inOrder = m.body := by decide
  have hintents : ∀ m ∈ shopMessages, m.kind = .all → shopHijack.CarriesIntents m := by
    intro m hm hkind key t clusters ht hc
    have hall : ∀ m ∈ shopMessages, m.kind = .all → ((m.clusters? ⟨.service, "shop"⟩).all
        fun cs => (Entries.find? shopHijack.intent cs).isSome) = true := by decide
    have := hall m hm hkind
    rw [shopHijack_takeoverOf? ht] at hc
    rwa [hc] at this
  exact ⟨hprepared, hsections, horder, hintents,
    receiveAll_filterMap_project hprepared rfl hsections horder hintents⟩

end Hijack

end Routing

/-! ## Preparations of the service -/

namespace Service

open Routing

/-- What looking at a destination comes to, if it comes to anything. -/
def LookedAt (h : Hijack) (caller : Caller) (application : String) (t : Takeover) :
    Prepared → Prop
  | .looked h' => ∃ callerTree destination,
    h' = h.prepareOn application callerTree destination caller t
  | _ => True

theorem prepareDestination_lookedAt (sv : Service) (h : Hijack) (caller : Caller)
    (application : String) (t : Takeover) (callerLease call : Nat) :
    LookedAt h caller application t
      (sv.prepareDestination h caller application t callerLease call).2 := by
  unfold prepareDestination
  split
  · trivial
  · trivial
  · exact ⟨_, _, rfl⟩

theorem prepareCaller_lookedAt (sv : Service) (h : Hijack) (caller : Caller)
    (application : String) (t : Takeover) (call : Nat) :
    LookedAt h caller application t (sv.prepareCaller h caller application t call).2 := by
  unfold prepareCaller
  split
  · trivial
  · trivial
  · split
    · trivial
    · exact prepareDestination_lookedAt _ h caller application t _ _

theorem prepareOne_lookedAt (sv : Service) (h : Hijack) (caller : Caller) (application : String)
    (t : Takeover) (stage : PrepareStage) :
    LookedAt h caller application t (sv.prepareOne h caller application t stage).2 := by
  cases stage with
  | begin_ =>
    rw [prepareOne]
    split
    · trivial
    · exact prepareCaller_lookedAt _ h caller application t _
  | callerTree call => exact prepareCaller_lookedAt sv h caller application t call
  | destinationTree callerLease call =>
    exact prepareDestination_lookedAt sv h caller application t callerLease call

/-- What the service prepares for a request is a prepared hijacking. -/
theorem prepareAll_prepared {policy : Policy} {caller : Caller} {mode : RouteMode}
    {request : Request} (left : List (String × Takeover)) :
    ∀ {sv sv' : Service} {h h' : Hijack} {stage : PrepareStage},
      h.Prepared policy (some caller) mode request → h.caller = some caller →
      (∀ e ∈ left, e ∈ h.candidates request) →
      sv.prepareAll caller h stage left = (sv', .inr h') →
      h'.Prepared policy (some caller) mode request := by
  induction left with
  | nil =>
    intro sv sv' h h' stage hp _ _ he
    cases he
    exact hp
  | cons e rest ih =>
    intro sv sv' h h' stage hp hcaller hleft he
    obtain ⟨application, t⟩ := e
    have hrest : ∀ e ∈ rest, e ∈ h.candidates request :=
      fun e he => hleft e (List.mem_cons_of_mem _ he)
    have hlooked := prepareOne_lookedAt sv h caller application t stage
    rw [prepareAll] at he
    split at he
    · cases he
    · exact ih hp hcaller hrest he
    · rename_i hone
      rw [hone] at hlooked
      obtain ⟨callerTree, destination, rfl⟩ := hlooked
      exact ih (hp.look callerTree destination hcaller (hleft _ List.mem_cons_self)) hcaller
        hrest he

end Service

end Treecast
