import Treecast.Settings.Check
import Treecast.Proofs.Checking
import Treecast.Proofs.LinkWalks

/-!
# What a look at a destination decides

A destination is looked at on its own tree and the caller's.  If the intent resolves there, hijacked
clusters show the intent's data, and otherwise the destination is only checked.  The look reports
hijacked clusters that are not served by a single cluster, or not by the same one as the intent.

The session asks for the intent on the side and reads it in its own way (`besides`), which is not
always the way of the look.  A request may pin the intent, and then the session goes where the pin
leads.  An intent that the settings do not list is no intent to either of them, but the cluster of
its name, whether or not there is one; and of the two only a session that prefers the caller's ezone
tries the name there.

## Results

* `Hijack.servedBy_spec`, `Hijack.single_of_inconsistency?`: what is compared, and what it means if
  nothing is reported.
* `Hijack.DecidedOn`, `Hijack.Prepared.decidedOn`: the look that a takeover goes back to.
* `Hijack.shownFirst_projects`: hijacked names show what the session reads for the intent.
* `Hijack.shownFirst_silent`: when nothing was reported, hijacking changes nothing, unless the
  session strays from the look.
* `Hijack.shownFirst_routed`: what is shown of an intent that the settings list comes from where a
  route leads.
-/

set_option autoImplicit false

namespace Treecast

namespace Routing

/-! ## Modes -/

theorem HijackMode.ne_disabled {m : HijackMode} (hprojects : m.projects = true) :
    m ≠ .disabled := by
  rintro rfl
  cases hprojects

/-- Of the modes in which anything is done only one leaves hijacked names as they are. -/
theorem HijackMode.eq_checking {m : HijackMode} (hactive : m ≠ .disabled)
    (hstays : m.projects = false) : m = .checking := by
  cases m with
  | disabled => exact absurd rfl hactive
  | checking => rfl
  | enabled => cases hstays
  | standalone => cases hstays

/-! ## Names that resolve -/

namespace Destination

variable {d : Destination} {name : String} {options : ResolveOptions} {found : List String}

/-- A name resolves by way of some cluster. -/
theorem exists_physical?_of_resolve? (h : d.resolve? name options = some found) :
    ∃ cluster, d.physical? cluster = some found := by
  unfold resolve? at h
  split at h
  · obtain ⟨caller, -, h⟩ := Option.bind_eq_some_iff.1 h
    obtain ⟨target, -, h⟩ := Option.bind_eq_some_iff.1 h
    exact ⟨target, h⟩
  · split at h
    · split at h
      · exact ⟨_, h⟩
      · exact ⟨_, h⟩
    · exact ⟨_, h⟩

/-- A name that resolves to no other cluster resolves to this one. -/
theorem eq_singleton_of_resolve? (h : d.resolve? name options = some found) {served : String}
    (hserved : ∀ cluster ∈ found, cluster = served) : found = [served] := by
  obtain ⟨cluster, hcluster⟩ := exists_physical?_of_resolve? h
  have hne := ne_nil_of_physical? hcluster
  have hnodup := nodup_of_physical? hcluster
  cases found with
  | nil => exact absurd rfl hne
  | cons first rest =>
    have hfirst : first = served := hserved first List.mem_cons_self
    have hrest : rest = [] := by
      apply List.eq_nil_iff_forall_not_mem.2
      intro other hother
      have heq : other = first := by
        rw [hserved other (List.mem_cons_of_mem first hother), hfirst]
      exact (List.nodup_cons.1 hnodup).1 (heq ▸ hother)
    rw [hfirst, hrest]

/-- An intent is served by what its route leads to. -/
theorem resolve?_eq_bind (hname : d.policy.isIntent name = true) (route : CallerRoute)
    (ezonePrefix : Bool) :
    d.resolve? name ⟨some route, true, ezonePrefix⟩ =
      (d.intentTarget? name route).bind d.physical? := by
  simp only [resolve?, hname, Bool.and_self, if_true]
  rfl

/-- Without a cluster of that name in the caller's ezone the ezone makes no difference. -/
theorem resolve?_of_inCallerEzone?_eq_none {route : CallerRoute} {routing : Bool}
    (hnone : d.inCallerEzone? name (some route) = none) (ezonePrefix : Bool) :
    d.resolve? name ⟨some route, routing, ezonePrefix⟩ =
      d.resolve? name ⟨some route, routing, false⟩ := by
  unfold resolve?
  split
  · rfl
  · cases ezonePrefix with
    | false => rfl
    | true => simp [hnone]

end Destination

namespace Hijack

/-! ## What is compared -/

/-- Adds the clusters that serve a name. -/
def addServing (d : Destination) (options : ResolveOptions) (known : SortedSet String × Bool)
    (name : String) : SortedSet String × Bool :=
  match d.resolve? name options with
  | some clusters => (clusters.foldl SortedSet.add known.1, known.2)
  | none => (known.1, false)

/-- The clusters that serve some of the names; complete if every name resolves. -/
theorem servedBy_spec (d : Destination) (names : List String) (options : ResolveOptions) :
    ((servedBy d names options).2 = true ↔
      ∀ name ∈ names, (d.resolve? name options).isSome = true) ∧
    ∀ cluster, cluster ∈ (servedBy d names options).1.elements ↔
      ∃ name ∈ names, ∃ found, d.resolve? name options = some found ∧ cluster ∈ found := by
  have hfold : ∀ known : SortedSet String × Bool,
      let result := names.foldl (addServing d options) known
      (result.2 = true ↔
        known.2 = true ∧ ∀ name ∈ names, (d.resolve? name options).isSome = true) ∧
      ∀ cluster, cluster ∈ result.1.elements ↔ cluster ∈ known.1.elements ∨
        ∃ name ∈ names, ∃ found, d.resolve? name options = some found ∧ cluster ∈ found := by
    induction names with
    | nil => simp
    | cons first rest ih =>
      intro known
      obtain ⟨hcomplete, hserved⟩ := ih (addServing d options known first)
      simp only [List.foldl_cons, List.mem_cons, forall_eq_or_imp, exists_eq_or_imp]
      cases hfirst : d.resolve? first options with
      | none =>
        simp only [addServing, hfirst] at hcomplete hserved ⊢
        exact ⟨by simpa using hcomplete, by simpa using hserved⟩
      | some clusters =>
        simp only [addServing, hfirst] at hcomplete hserved ⊢
        constructor
        · simpa using hcomplete
        · intro cluster
          rw [hserved, SortedSet.mem_elements_foldl_add, or_comm (a := cluster ∈ clusters),
            or_assoc]
          simp
  obtain ⟨hcomplete, hserved⟩ := hfold (SortedMap.empty, true)
  exact ⟨hcomplete.trans (and_iff_right rfl),
    fun cluster => (hserved cluster).trans (or_iff_right List.not_mem_nil)⟩

/-- **If nothing is inconsistent** every name resolves, and one cluster serves them all and the
intent. -/
theorem single_of_inconsistency? {target : List String} {served : SortedSet String}
    {complete : Bool} (h : inconsistency? target served complete = none) :
    complete = true ∧ ∃ one, served.elements = [one] ∧ ∀ cluster ∈ target, cluster = one := by
  unfold inconsistency? at h
  split at h
  · cases h
  split at h
  · cases h
  rename_i hstable hequal
  simp only [Bool.or_eq_true, Bool.not_eq_true', decide_eq_true_eq, not_or, Bool.not_eq_false,
    ne_eq, Decidable.not_not] at hstable hequal
  obtain ⟨hcomplete, hsize⟩ := hstable
  obtain ⟨one, hone⟩ := List.length_eq_one_iff.1 hsize
  have helements : served.elements = [one.1] := by
    rw [SortedSet.elements, SortedMap.keys, hone]
    rfl
  refine ⟨hcomplete, one.1, helements, fun cluster hcluster => ?_⟩
  have hmem : cluster ∈ served.elements := by
    rw [hequal]
    exact SortedSet.mem_elements_ofElements.2 hcluster
  rw [helements] at hmem
  exact List.mem_singleton.1 hmem

/-! ## What a look decides -/

variable {h : Hijack} {policy : Policy} {caller : Caller} {mode : RouteMode} {request : Request}
  {application : String} {t : Takeover}

/-- An intent that resolves leaves the mode as it was set; any other is only checked. -/
theorem mode_diagnose (h : Hijack) (d : Destination) (route : CallerRoute) (t : Takeover) :
    (h.diagnose d route t).mode =
      if (d.resolve? h.intent ⟨some route, true, false⟩).isSome then t.mode else .checking := by
  unfold diagnose
  cases hintent : d.resolve? h.intent ⟨some route, true, false⟩ with
  | none => rfl
  | some target =>
    obtain ⟨cluster, hcluster⟩ := Destination.exists_physical?_of_resolve? hintent
    cases target with
    | nil => exact absurd rfl (Destination.ne_nil_of_physical? hcluster)
    | cons first rest =>
      dsimp only
      split <;> rfl

/-- **If a look reports nothing** of a destination whose intent resolves, one cluster serves the
intent and all hijacked clusters. -/
theorem single_of_diagnose {d : Destination} {route : CallerRoute}
    (hresolves : (d.resolve? h.intent ⟨some route, true, false⟩).isSome = true)
    (hsilent : (h.diagnose d route t).diagnostics = []) :
    ∃ one, d.resolve? h.intent ⟨some route, true, false⟩ = some [one] ∧
      ∀ name, t.clusters.has name = true →
        d.resolve? name ⟨some route, false, h.mode = .prefixed⟩ = some [one] := by
  obtain ⟨target, htarget⟩ := Option.isSome_iff_exists.1 hresolves
  obtain ⟨cluster, hcluster⟩ := Destination.exists_physical?_of_resolve? htarget
  obtain ⟨hcomplete, hserved⟩ :=
    servedBy_spec d t.clusters.elements ⟨some route, false, h.mode = .prefixed⟩
  have hconsistent : inconsistency? target
      (servedBy d t.clusters.elements ⟨some route, false, h.mode = .prefixed⟩).1
      (servedBy d t.clusters.elements ⟨some route, false, h.mode = .prefixed⟩).2 = none := by
    cases target with
    | nil => exact absurd rfl (Destination.ne_nil_of_physical? hcluster)
    | cons first rest =>
      unfold diagnose at hsilent
      rw [htarget] at hsilent
      dsimp only at hsilent
      split at hsilent
      · simp at hsilent
      · assumption
  obtain ⟨hall, one, hone, hsame⟩ := single_of_inconsistency? hconsistent
  refine ⟨one, htarget.trans ?_, fun name hname => ?_⟩
  · rw [Destination.eq_singleton_of_resolve? htarget hsame]
  · have hmem : name ∈ t.clusters.elements := SortedMap.mem_keys_iff.2 hname
    obtain ⟨found, hfound⟩ := Option.isSome_iff_exists.1 (hcomplete.1 hall name hmem)
    rw [hfound, Destination.eq_singleton_of_resolve? hfound]
    intro other hother
    have hin := (hserved other).2 ⟨name, hmem, found, hfound, hother⟩
    rw [hone] at hin
    exact List.mem_singleton.1 hin

/-- A name that may be hijacked is asked for, is not pinned and stands for no intent. -/
theorem has_hijackable {s : Selection} {name : String} :
    (h.hijackable s).has name = true ↔
      s.clusters.has name = true ∧ s.isPinned name = false ∧ h.policy.isIntent name = false := by
  rw [SortedSet.has, SortedMap.contains, hijackable, SortedMap.find?_filter, SortedSet.has,
    SortedMap.contains]
  cases s.clusters.find? name <;> simp

/-- What is done for a destination was decided by a look at these trees. -/
def DecidedOn (h : Hijack) (request : Request) (caller : Caller) (callerTree destination : Replica)
    (application : String) (t : Takeover) : Prop :=
  ∃ candidate, (application, candidate) ∈ h.candidates request ∧
    t = h.diagnose ⟨application, destination, h.policy⟩
      (CallerRoute.ofReplica callerTree h.policy caller) candidate

/-- **Every takeover was decided on some trees.** -/
theorem Prepared.decidedOn (hp : Prepared policy (some caller) mode request h)
    (ht : h.takeover? application = some t) :
    ∃ callerTree destination, h.DecidedOn request caller callerTree destination application t := by
  induction hp with
  | start => cases ht
  | @look before c looked candidate callerTree destination hbefore hcaller hmem ih =>
    have hsame : c = caller := Option.some.inj (hcaller.symm.trans hbefore.same.2.1)
    rw [takeover?, prepareOn, SortedMap.find?_insert] at ht
    split at ht
    · rename_i heq
      cases ht
      subst heq hsame
      exact ⟨callerTree, destination, candidate, hmem, rfl⟩
    · exact ih ht

section DecidedOn

variable {callerTree destination : Replica}

/-- The mode is the one that is set, unless the intent does not resolve. -/
theorem DecidedOn.mode_eq
    (hd : h.DecidedOn request caller callerTree destination application t) :
    h.modeFor application ≠ .disabled ∧
      t.mode =
        if ((Destination.mk application destination h.policy).resolve? h.intent
          ⟨some (CallerRoute.ofReplica callerTree h.policy caller), true, false⟩).isSome then
          h.modeFor application
        else .checking := by
  obtain ⟨candidate, hmem, rfl⟩ := hd
  obtain ⟨hmode, hactive, -⟩ := of_mem_candidates hmem
  exact ⟨hactive, (mode_diagnose h _ _ candidate).trans (by rw [hmode])⟩

/-- A destination whose hijacked names are shown has an intent that resolves. -/
theorem DecidedOn.resolves
    (hd : h.DecidedOn request caller callerTree destination application t)
    (hprojects : t.mode.projects = true) :
    ((Destination.mk application destination h.policy).resolve? h.intent
      ⟨some (CallerRoute.ofReplica callerTree h.policy caller), true, false⟩).isSome = true := by
  have hmode := hd.mode_eq.2
  split at hmode
  · assumption
  · rw [hmode] at hprojects
    cases hprojects

/-- The hijacked names are asked for, are not pinned and stand for no intent. -/
theorem DecidedOn.asked
    (hd : h.DecidedOn request caller callerTree destination application t) {s : Selection}
    (hs : request.find? ⟨.service, application⟩ = some s) :
    s.isAll = false ∧ ∀ name, t.clusters.has name = true ↔
      s.clusters.has name = true ∧ s.isPinned name = false ∧ h.policy.isIntent name = false := by
  obtain ⟨candidate, hmem, rfl⟩ := hd
  obtain ⟨-, -, s', hs', hsome, -, hclusters⟩ := of_mem_candidates hmem
  rw [hs] at hs'
  cases hs'
  refine ⟨hsome, fun name => ?_⟩
  rw [(h.diagnose_keeps _ _ candidate).1, hclusters, has_hijackable]

/-- If nothing was reported, one cluster serves the intent and all hijacked clusters. -/
theorem DecidedOn.single
    (hd : h.DecidedOn request caller callerTree destination application t)
    (hprojects : t.mode.projects = true) (hsilent : t.diagnostics = []) :
    let d := Destination.mk application destination h.policy
    let route := CallerRoute.ofReplica callerTree h.policy caller
    ∃ one, d.resolve? h.intent ⟨some route, true, false⟩ = some [one] ∧
      ∀ name, t.clusters.has name = true →
        d.resolve? name ⟨some route, false, h.mode = .prefixed⟩ = some [one] := by
  have hresolves := hd.resolves hprojects
  obtain ⟨candidate, -, rfl⟩ := hd
  rw [(h.diagnose_keeps _ _ candidate).1]
  exact single_of_diagnose hresolves hsilent

end DecidedOn

/-! ## What a session reads for the intent -/

/-- The clusters that a session reads for the intent: the one that a request pins it to, or those
that it resolves to. -/
def besides (d : Destination) (s : Selection) (mode : RouteMode) (intent : String)
    (route : CallerRoute) : List String :=
  match s.pinned.find? intent with
  | some target => [target]
  | none => (d.resolve? intent ⟨some route, true, mode = .prefixed⟩).getD []

/-- The caller as a session knows it that starts on these trees. -/
def callerAt (policy : Policy) (caller : Caller) (replicas : Replicas) : CallerRoute :=
  CallerRoute.ofReplica (replicas ⟨caller.application, .service⟩) policy caller

/-- The destination as a session knows it that starts on these trees. -/
def destinationAt (policy : Policy) (application : String) (replicas : Replicas) : Destination :=
  ⟨application, replicas ⟨application, .service⟩, policy⟩

theorem isPinned_eq_false_iff {s : Selection} {name : String} :
    s.isPinned name = false ↔ s.pinned.find? name = none := by
  rw [Selection.isPinned, SortedMap.contains, Option.isSome_eq_false_iff, Option.isNone_iff_eq_none]

theorem serving_intent {extended : Request} {s : Selection} {intent : String}
    (hextended : extended.find? ⟨.service, application⟩ = some (s.withIntent intent))
    (policy : Policy) (caller : Caller) (mode : RouteMode) (replicas : Replicas) :
    (Subscription.create ⟨.service, application⟩ (s.withIntent intent)).serving
        (replicas ⟨application, .service⟩)
        (Session.viewpointAt extended mode (some caller) policy replicas) intent =
      besides (destinationAt policy application replicas) s mode intent
        (callerAt policy caller replicas) := by
  have hneeds : (Subscription.create ⟨.service, application⟩
      (s.withIntent intent)).needsCaller mode = true := by
    simp [Subscription.needsCaller, Subscription.create, Subscription.tree, FeedKey.tree,
      FeedKind.tree, TreeKind.carriesRouting, Selection.withIntent]
  rw [Session.viewpointAt, Session.callerOn_of_needsCaller _ policy replicas hextended hneeds]
  unfold besides Subscription.serving
  rw [show (Subscription.create ⟨.service, application⟩ (s.withIntent intent)).selection.pinned =
    s.pinned from rfl]
  cases s.pinned.find? intent with
  | some target => rfl
  | none =>
    simp [Subscription.create, Subscription.tree, FeedKey.tree, FeedKind.tree,
      TreeKind.carriesRouting, Subscription.options, Selection.withIntent, destinationAt, callerAt]

/-- **Hijacked names show** what the session reads for the intent. -/
theorem shownFirst_projects (hp : Prepared policy (some caller) mode request h)
    (hr : request.WellNamed) (hintent : isValidName policy.hijack.intent = true)
    (ht : h.takeover? application = some t) (hprojects : t.mode.projects = true) {s : Selection}
    (hs : request.find? ⟨.service, application⟩ = some s) (replicas : Replicas) :
    ∃ shown, h.shownFirst request replicas ⟨.service, application⟩ = some shown ∧
      ∀ name, t.clusters.has name = true →
        shown name = some ((Subscription.create ⟨.service, application⟩ s).payload
          (replicas ⟨application, .service⟩)
          (besides (destinationAt policy application replicas) s mode policy.hijack.intent
            (callerAt policy caller replicas))) := by
  obtain ⟨extended, hfind, hshown⟩ :=
    shownFirst_takenOver hp hr hintent ht (HijackMode.ne_disabled hprojects) hs replicas
  refine ⟨_, hshown, fun name hname => ?_⟩
  -- a hijacked name is not the intent that is hidden
  have hown : ¬ (name = policy.hijack.intent ∧ ¬ t.intentRequested = true) := by
    rintro ⟨rfl, hhidden⟩
    rw [← hp.same.1] at hname
    exact hhidden (hp.sound application t ht hname)
  have hheld := Session.firstSection_eq extended mode (some caller) policy replicas
    ⟨.service, application⟩ (s.withIntent policy.hijack.intent) policy.hijack.intent
  rw [if_pos ((Subscription.mem_wanted_withIntent _ _ _ _ _).2 (.inl rfl))] at hheld
  rw [Takeover.shown, if_neg hown, if_pos ⟨hprojects, hname⟩, hheld, Option.some_or]
  exact congrArg (fun clusters => some (Subscription.payload _ _ clusters))
    (serving_intent hfind policy caller mode replicas)

/-- Asks for the intent of one destination, unless the request is refused already. -/
def askFor (intent : String) (asked : Request × Option RequestFault) (e : String × Takeover) :
    Request × Option RequestFault :=
  if asked.2.isSome || e.2.mode = .disabled then asked
  else
    match asked.1.limit ⟨.service, e.1⟩ intent with
    | .ok request => (request.routeIntents ⟨.service, e.1⟩, none)
    | .error fault => (asked.1, some fault)

theorem extendRequest_eq_foldl (h : Hijack) (request : Request) :
    h.extendRequest request = h.takeovers.toList.foldl (askFor h.intent) (request, none) := rfl

/-- A refusal stays, and an intent that is no name is refused. -/
theorem refused_askFor {intent : String} (hintent : isValidName intent = false)
    {asked : Request × Option RequestFault} {e : String × Takeover}
    (hrefused : asked.2.isSome = true ∨ e.2.mode ≠ .disabled) :
    (askFor intent asked e).2.isSome = true := by
  unfold askFor
  split
  · rename_i hskip
    simp only [Bool.or_eq_true, decide_eq_true_eq] at hskip
    rcases hrefused with hrefused | hmode
    · exact hrefused
    · exact hskip.resolve_right hmode
  · have hlimit : asked.1.limit ⟨.service, e.1⟩ intent =
        .error (.invalidName .cluster intent) := by
      simp only [Request.limit, Request.checkName, hintent]
      rfl
    rw [hlimit]
    rfl

theorem refused_foldl_askFor {intent : String} (hintent : isValidName intent = false)
    (entries : List (String × Takeover)) :
    ∀ asked : Request × Option RequestFault,
      asked.2.isSome = true ∨ (∃ e ∈ entries, e.2.mode ≠ .disabled) →
      (entries.foldl (askFor intent) asked).2.isSome = true := by
  induction entries with
  | nil => simp
  | cons first rest ih =>
    intro asked hrefused
    rw [List.foldl_cons]
    apply ih
    rcases hrefused with hrefused | ⟨e, he, hmode⟩
    · exact .inl (refused_askFor hintent (.inl hrefused))
    rcases List.mem_cons.1 he with rfl | he
    · exact .inl (refused_askFor hintent (.inr hmode))
    · exact .inr ⟨e, he, hmode⟩

/-- With an intent that is no name the request is refused. -/
theorem shownFirst_of_invalid (hintent : isValidName h.intent = false)
    (ht : h.takeover? application = some t) (hmode : t.mode ≠ .disabled) (replicas : Replicas)
    (feed : FeedKey) : h.shownFirst request replicas feed = none := by
  have hrefused := refused_foldl_askFor hintent h.takeovers.toList (request, none)
    (.inr ⟨_, SortedMap.mem_toList_iff.2 ht, hmode⟩)
  rw [← extendRequest_eq_foldl] at hrefused
  unfold shownFirst
  cases hextend : h.extendRequest request with
  | mk extended fault =>
    cases fault with
    | some fault => rfl
    | none =>
      rw [hextend] at hrefused
      cases hrefused

/-! ## Silence -/

/-- What a name that may be hijacked shows to a client that is not. -/
theorem shownFirst_plainly {plain : Hijack}
    (hplain : Prepared policy.unhijacked (some caller) mode request plain) {s : Selection}
    (hs : request.find? ⟨.service, application⟩ = some s) (hsome : s.isAll = false)
    (replicas : Replicas) :
    ∃ plainly, plain.shownFirst request replicas ⟨.service, application⟩ = some plainly ∧
      ∀ name, s.clusters.has name = true → s.isPinned name = false →
        policy.isIntent name = false →
        plainly name = some ((Subscription.create ⟨.service, application⟩ s).payload
          (replicas ⟨application, .service⟩)
          (((destinationAt policy application replicas).resolve? name
            ⟨some (callerAt policy caller replicas), false, mode = .prefixed⟩).getD [])) := by
  have hfirst := shownFirst_create policy.unhijacked (some caller) mode request replicas
    ⟨.service, application⟩
  rw [← hplain.eq_create, hs] at hfirst
  refine ⟨_, hfirst, fun name hasked hfree hliteral => ?_⟩
  have hwanted := (Subscription.mem_wanted hsome ⟨.service, application⟩
    (replicas ⟨application, .service⟩) name).2 hasked
  refine (Session.firstSection_eq request mode (some caller) policy.unhijacked replicas
    ⟨.service, application⟩ s name).trans ((if_pos hwanted).trans ?_)
  refine congrArg (fun clusters => some (Subscription.payload _ _ clusters)) ?_
  -- a session that does not know the caller asks nothing of it
  have hcaller : (Subscription.create ⟨.service, application⟩ s).needsCaller mode = true →
      some (callerAt policy caller replicas) =
        Session.callerOn policy.unhijacked replicas
          (Session.callerTreeOf request mode (some caller)) (some caller) := fun hneeds =>
    (Session.callerOn_of_needsCaller (some caller) policy.unhijacked replicas hs hneeds).symm
  rw [Session.viewpointAt, Subscription.serving_unhijacked,
    Subscription.serving_of_caller _ _ policy hcaller]
  unfold Subscription.serving
  rw [show (Subscription.create ⟨.service, application⟩ s).selection.pinned.find? name = none from
    isPinned_eq_false_iff.1 hfree]
  exact congrArg (Option.getD · []) (Destination.resolve?_of_literal _ hliteral _ _ _ _)

/-- A session reads the intent elsewhere than the look did: where a request pins it, or in the
caller's ezone if the settings do not list it and it is asked for on the side only. -/
def Strays (d : Destination) (s : Selection) (mode : RouteMode) (intent : String)
    (route : CallerRoute) : Prop :=
  s.isPinned intent = true ∨
    (d.policy.isIntent intent = false ∧ s.clusters.has intent = false ∧ mode = .prefixed ∧
      (d.inCallerEzone? intent (some route)).isSome = true)

theorem besides_of_not_strays {d : Destination} {s : Selection} {intent : String}
    {route : CallerRoute} {one : String} (hstays : ¬ Strays d s mode intent route)
    (hlook : d.resolve? intent ⟨some route, true, false⟩ = some [one])
    (hasked : s.clusters.has intent = true → s.isPinned intent = false →
      d.policy.isIntent intent = false →
      d.resolve? intent ⟨some route, false, mode = .prefixed⟩ = some [one]) :
    besides d s mode intent route = [one] := by
  have hfree : s.isPinned intent = false := by
    cases hpinned : s.isPinned intent with
    | false => rfl
    | true => exact absurd (.inl hpinned) hstays
  have hresolves : d.resolve? intent ⟨some route, true, mode = .prefixed⟩ = some [one] := by
    cases hlisted : d.policy.isIntent intent with
    | true => rw [← hlook, Destination.resolve?_of_intent d hlisted (some route) _ false]
    | false =>
      cases hwanted : s.clusters.has intent with
      | true =>
        -- the intent is one of the hijacked clusters
        rw [← hasked hwanted hfree hlisted, Destination.resolve?_of_literal d hlisted _ true false]
      | false =>
        by_cases hmode : mode = .prefixed
        · have hnone : d.inCallerEzone? intent (some route) = none := by
            cases hezone : d.inCallerEzone? intent (some route) with
            | none => rfl
            | some candidate =>
              refine absurd (.inr ⟨hlisted, hwanted, hmode, ?_⟩) hstays
              rw [hezone]
              rfl
          rw [Destination.resolve?_of_inCallerEzone?_eq_none hnone, hlook]
        · simpa [hmode] using hlook
  unfold besides
  rw [isPinned_eq_false_iff.1 hfree, hresolves]
  rfl

/-- **Silence.**  A destination's intent is shown under the hijacked clusters, and the look at it
reported nothing.  Then one cluster serves the intent and every hijacked cluster.  What a session
first shows that starts on the same trees is what it shows of the hijacked clusters with hijacking
switched off, unless it strays from the look. -/
theorem shownFirst_silent {plain : Hijack}
    (hp : Prepared policy (some caller) mode request h)
    (hplain : Prepared policy.unhijacked (some caller) mode request plain)
    (hr : request.WellNamed) (ht : h.takeover? application = some t) {replicas : Replicas}
    (hdecided : h.DecidedOn request caller (replicas ⟨caller.application, .service⟩)
      (replicas ⟨application, .service⟩) application t)
    (hprojects : t.mode.projects = true) (hsilent : t.diagnostics = []) {s : Selection}
    (hs : request.find? ⟨.service, application⟩ = some s) :
    let feed : FeedKey := ⟨.service, application⟩
    let d := destinationAt policy application replicas
    let route := callerAt policy caller replicas
    ∃ (one : String) (shown plainly : Payloads),
      d.resolve? policy.hijack.intent ⟨some route, true, false⟩ = some [one] ∧
      (∀ name, t.clusters.has name = true →
        d.resolve? name ⟨some route, false, mode = .prefixed⟩ = some [one]) ∧
      h.shownFirst request replicas feed =
        (if isValidName policy.hijack.intent then some shown else none) ∧
      plain.shownFirst request replicas feed = some plainly ∧
      (¬ Strays d s mode policy.hijack.intent route →
        ∀ name, t.clusters.has name = true → shown name = plainly name) := by
  intro feed d route
  obtain ⟨rfl, -, rfl⟩ := hp.same
  obtain ⟨hsome, hhijacked⟩ := hdecided.asked hs
  obtain ⟨one, hone, hserved⟩ := hdecided.single hprojects hsilent
  obtain ⟨plainly, hplainly, hunder⟩ := shownFirst_plainly hplain hs hsome replicas
  cases hvalid : isValidName h.policy.hijack.intent with
  | false =>
    have hrefused : h.shownFirst request replicas feed = none :=
      shownFirst_of_invalid hvalid ht (HijackMode.ne_disabled hprojects) replicas feed
    exact ⟨one, plainly, plainly, hone, hserved, hrefused, hplainly, fun _ _ _ => rfl⟩
  | true =>
    obtain ⟨shown, hshown, hreads⟩ := shownFirst_projects hp hr hvalid ht hprojects hs replicas
    refine ⟨one, shown, plainly, hone, hserved, hshown, hplainly, fun hstays name hname => ?_⟩
    obtain ⟨hasked, hfree, hliteral⟩ := (hhijacked name).1 hname
    have hbesides : besides d s h.mode h.policy.hijack.intent route = [one] :=
      besides_of_not_strays hstays hone fun hasked hfree hliteral =>
        hserved _ ((hhijacked _).2 ⟨hasked, hfree, hliteral⟩)
    have hresolved : d.resolve? name ⟨some route, false, h.mode = .prefixed⟩ = some [one] :=
      hserved name hname
    rw [hreads name hname, hunder name hasked hfree hliteral, hbesides, hresolved]
    rfl

/-- Callers of `web` are hijacked, and the intent leads to `a`. -/
def movedPolicy : Policy where
  route :=
    { RouteSettings.standard with defaultPolicy := SortedMap.ofList [("direct", "a")] }
  hijack := { HijackSettings.standard with modes := SortedMap.ofList [("web", .enabled)] }

def webCaller : Caller := ⟨"web", "main"⟩

/-- A cluster of `shop` is asked for. -/
def shopSelection : Selection := ⟨SortedSet.ofElements ["a"], SortedMap.empty, false⟩

/-- What is asked for of `shop`. -/
def shopRequestOf (s : Selection) : Request := ⟨SortedMap.ofList [(⟨.service, "shop"⟩, s)]⟩

/-- The hijacking of a client in `web`, for which `shop` was looked at. -/
def lookedAt (policy : Policy) (t : Takeover) : Hijack :=
  (create policy (some webCaller) .orig).prepareOn "shop" (shopTrees ⟨"web", .service⟩)
    (shopTrees ⟨"shop", .service⟩) webCaller t

/-- What is done for `shop` when `a` is hijacked. -/
def shopTakenOver (intentRequested : Bool) : Takeover :=
  ⟨.enabled, SortedSet.ofElements ["a"], intentRequested, []⟩

theorem shopRequestOf_wellNamed : (shopRequestOf shopSelection).WellNamed := by
  have hread : Request.ofBytes Service.shopBody = .ok (shopRequestOf shopSelection) := by
    decide +kernel
  exact Request.wellNamed_ofBytes hread

/-- A destination whose hijacked cluster is the one that the intent leads to. -/
theorem shownFirst_silent_shop :
    let h := lookedAt movedPolicy (shopTakenOver false)
    let plain := create movedPolicy.unhijacked (some webCaller) .orig
    let d := destinationAt movedPolicy "shop" shopTrees
    let route := callerAt movedPolicy webCaller shopTrees
    Prepared movedPolicy (some webCaller) .orig (shopRequestOf shopSelection) h ∧
    (shopTakenOver false).mode.projects = true ∧ (shopTakenOver false).diagnostics = [] ∧
    ∃ (one : String) (shown plainly : Payloads),
      d.resolve? "direct" ⟨some route, true, false⟩ = some [one] ∧
      (∀ name, (shopTakenOver false).clusters.has name = true →
        d.resolve? name ⟨some route, false, false⟩ = some [one]) ∧
      h.shownFirst (shopRequestOf shopSelection) shopTrees ⟨.service, "shop"⟩ =
        (if isValidName "direct" then some shown else none) ∧
      plain.shownFirst (shopRequestOf shopSelection) shopTrees ⟨.service, "shop"⟩ =
        some plainly ∧
      ∀ name, (shopTakenOver false).clusters.has name = true → shown name = plainly name := by
  have hmem : ("shop", shopTakenOver false) ∈
      (create movedPolicy (some webCaller) .orig).candidates (shopRequestOf shopSelection) := by
    decide +kernel
  have hprepared : Prepared movedPolicy (some webCaller) .orig (shopRequestOf shopSelection)
      (lookedAt movedPolicy (shopTakenOver false)) := Prepared.start.look _ _ rfl hmem
  have hdecided : (lookedAt movedPolicy (shopTakenOver false)).DecidedOn
      (shopRequestOf shopSelection) webCaller (shopTrees ⟨"web", .service⟩)
      (shopTrees ⟨"shop", .service⟩) "shop" (shopTakenOver false) :=
    ⟨shopTakenOver false, hmem, by decide +kernel⟩
  -- the settings list the intent, and the request does not pin it
  have hstays : ¬ Strays (destinationAt movedPolicy "shop" shopTrees) shopSelection .orig "direct"
      (callerAt movedPolicy webCaller shopTrees) := by
    rintro (hpinned | ⟨hunlisted, -⟩)
    · exact absurd hpinned (by decide +kernel)
    · exact absurd hunlisted (by decide +kernel)
  have hasked : (shopRequestOf shopSelection).find? ⟨.service, "shop"⟩ = some shopSelection := by
    decide +kernel
  obtain ⟨one, shown, plainly, hone, hserved, hshown, hplainly, hsame⟩ :=
    shownFirst_silent hprepared .start shopRequestOf_wellNamed (by decide +kernel) hdecided rfl rfl
      hasked
  exact ⟨hprepared, rfl, rfl, one, shown, plainly, hone, hserved, hshown, hplainly, hsame hstays⟩

/-- A forced route pins the intent to `b`. -/
def forcedPolicy : Policy :=
  { movedPolicy with
    hijack :=
      { movedPolicy.hijack with
        forceEnabled := true, forceClusters := SortedMap.ofList [("direct", "b")] } }

/-- A cluster of `shop` is asked for and the intent, which is pinned. -/
def pinnedSelection : Selection :=
  ⟨SortedSet.ofElements ["a", "direct"], SortedMap.ofList [("direct", "b")], false⟩

/-- Nothing is reported of a destination, but a client for which a forced route pins the intent is
shown another payload under the hijacked cluster than with hijacking switched off. -/
theorem shownFirst_pinned_differs :
    let h := lookedAt forcedPolicy (shopTakenOver true)
    let plain := create forcedPolicy.unhijacked (some webCaller) .orig
    let feed : FeedKey := ⟨.service, "shop"⟩
    ((Request.ofBytes "\x7b\"service\":\x7b\"shop\":[\"a\",\"direct\"]\x7d\x7d".toUTF8.toList).map
      fun read => (Poll.force forcedPolicy read (some webCaller)).1) =
        .ok (shopRequestOf pinnedSelection) ∧
    Prepared forcedPolicy (some webCaller) .orig (shopRequestOf pinnedSelection) h ∧
    h.DecidedOn (shopRequestOf pinnedSelection) webCaller (shopTrees ⟨"web", .service⟩)
      (shopTrees feed.tree) "shop" (shopTakenOver true) ∧
    Prepared forcedPolicy.unhijacked (some webCaller) .orig (shopRequestOf pinnedSelection)
      plain ∧
    h.takeover? "shop" = some (shopTakenOver true) ∧
    (shopTakenOver true).mode.projects = true ∧ (shopTakenOver true).diagnostics = [] ∧
    (shopTakenOver true).clusters.has "a" = true ∧
    ((h.shownFirst (shopRequestOf pinnedSelection) shopTrees feed).bind fun shown => shown "a") =
      some (.object [("1", .object [("value", .string "y")])]) ∧
    ((plain.shownFirst (shopRequestOf pinnedSelection) shopTrees feed).bind fun shown =>
      shown "a") = some (.object [("1", .object [("value", .string "x")])]) := by
  have hmem : ("shop", shopTakenOver true) ∈
      (create forcedPolicy (some webCaller) .orig).candidates
        (shopRequestOf pinnedSelection) := by
    decide +kernel
  exact ⟨by decide +kernel, Prepared.start.look _ _ rfl hmem,
    ⟨shopTakenOver true, hmem, by decide +kernel⟩, .start, by decide +kernel⟩

/-- A client in the ezone `alta` that prefers it, where the intent is not listed: the look followed
the links of `direct` to `a`, and the session reads `alta-direct`. -/
example :
    let policy : Policy :=
      { movedPolicy with
        route := { movedPolicy.route with intents := ["proxy"], ezones := ["alta"] } }
    let caller : Caller := ⟨"web", "alta-main"⟩
    let shop : Replica := ⟨"/service/shop", some ⟨"", 0, 3⟩,
      SortedMap.ofList [("a", clusterOf "x"), ("alta-direct", clusterOf "z"),
        ("direct", ⟨some ⟨"\x7b\"link\":[\"a\"]\x7d", 0, 0⟩, SortedMap.empty⟩)], 7⟩
    let replicas : Replicas := fun key =>
      if key.application = "shop" then shop else Replica.empty key.root
    let h := (create policy (some caller) .prefixed).prepareOn "shop" (replicas ⟨"web", .service⟩)
      shop caller (shopTakenOver false)
    h.takeover? "shop" = some (shopTakenOver false) ∧
      ((h.shownFirst (shopRequestOf shopSelection) replicas ⟨.service, "shop"⟩).bind fun shown =>
        shown "a") = some (.object [("1", .object [("value", .string "z")])]) := by
  decide +kernel

/-! ## Routed intents -/

/-- **What hijacked names show of an intent that the settings list.**  A destination that is not
only checked has a target for its intent, and the target is served by some cluster.  With the intent
routed so, hijacked names show what a route leads to at the time, or nothing. -/
theorem shownFirst_routed (hp : Prepared policy (some caller) mode request h)
    (hr : request.WellNamed) (ht : h.takeover? application = some t)
    {callerTree destination : Replica}
    (hdecided : h.DecidedOn request caller callerTree destination application t)
    (hlisted : policy.isIntent policy.hijack.intent = true) :
    let feed : FeedKey := ⟨.service, application⟩
    let d : Destination := ⟨application, destination, policy⟩
    let route := CallerRoute.ofReplica callerTree policy caller
    (t.mode.projects = true → ∃ target served,
      d.intentTarget? policy.hijack.intent route = some target ∧
      d.physical? target = some served ∧ served ≠ []) ∧
    (t.mode.projects = false → t.mode = .checking) ∧
    (t.mode.projects = true → ∀ s, request.find? feed = some s →
      s.isPinned policy.hijack.intent = false → ∀ replicas, ∃ shown,
        h.shownFirst request replicas feed =
          (if isValidName policy.hijack.intent then some shown else none) ∧
        ∀ name, t.clusters.has name = true →
          shown name = some ((Subscription.create feed s).payload (replicas feed.tree)
            (((destinationAt policy application replicas).intentTarget? policy.hijack.intent
              (callerAt policy caller replicas)).bind
                (destinationAt policy application replicas).physical? |>.getD []))) := by
  intro feed d route
  obtain ⟨rfl, -, -⟩ := hp.same
  obtain ⟨hactive, hmode⟩ := hdecided.mode_eq
  have hroutes : d.resolve? h.intent ⟨some route, true, false⟩ =
      (d.intentTarget? h.intent route).bind d.physical? :=
    Destination.resolve?_eq_bind hlisted route false
  refine ⟨fun hprojects => ?_, fun hstays => ?_, fun hprojects s hs hfree replicas => ?_⟩
  · obtain ⟨served, hserved⟩ := Option.isSome_iff_exists.1 (hdecided.resolves hprojects)
    obtain ⟨target, htarget, hphysical⟩ := Option.bind_eq_some_iff.1 (hroutes.symm.trans hserved)
    exact ⟨target, served, htarget, hphysical, Destination.ne_nil_of_physical? hphysical⟩
  · split at hmode
    · rw [hmode] at hstays ⊢
      exact HijackMode.eq_checking hactive hstays
    · exact hmode
  · cases hvalid : isValidName h.policy.hijack.intent with
    | false =>
      have hrefused : h.shownFirst request replicas feed = none :=
        shownFirst_of_invalid hvalid ht (HijackMode.ne_disabled hprojects) replicas feed
      exact ⟨_, hrefused, fun _ _ => rfl⟩
    | true =>
      obtain ⟨shown, hshown, hreads⟩ := shownFirst_projects hp hr hvalid ht hprojects hs replicas
      refine ⟨shown, hshown, fun name hname => ?_⟩
      rw [hreads name hname]
      unfold besides
      rw [isPinned_eq_false_iff.1 hfree]
      refine congrArg (fun served => some (Subscription.payload _ _ (Option.getD served []))) ?_
      exact Destination.resolve?_eq_bind hlisted _ _

/-- A destination whose intent leads to one of its clusters. -/
theorem shownFirst_routed_shop :
    let h := lookedAt movedPolicy (shopTakenOver false)
    let d : Destination := ⟨"shop", shopTrees ⟨"shop", .service⟩, movedPolicy⟩
    let route := CallerRoute.ofReplica (shopTrees ⟨"web", .service⟩) movedPolicy webCaller
    Prepared movedPolicy (some webCaller) .orig (shopRequestOf shopSelection) h ∧
    movedPolicy.isIntent movedPolicy.hijack.intent = true ∧
    h.takeover? "shop" = some (shopTakenOver false) ∧
    ∃ target served, d.intentTarget? "direct" route = some target ∧
      d.physical? target = some served ∧ served ≠ [] := by
  have hmem : ("shop", shopTakenOver false) ∈
      (create movedPolicy (some webCaller) .orig).candidates (shopRequestOf shopSelection) := by
    decide +kernel
  have hprepared : Prepared movedPolicy (some webCaller) .orig (shopRequestOf shopSelection)
      (lookedAt movedPolicy (shopTakenOver false)) := Prepared.start.look _ _ rfl hmem
  have hdecided : (lookedAt movedPolicy (shopTakenOver false)).DecidedOn
      (shopRequestOf shopSelection) webCaller (shopTrees ⟨"web", .service⟩)
      (shopTrees ⟨"shop", .service⟩) "shop" (shopTakenOver false) :=
    ⟨shopTakenOver false, hmem, by decide +kernel⟩
  have hlisted : movedPolicy.isIntent movedPolicy.hijack.intent = true := by decide +kernel
  have hfound : (lookedAt movedPolicy (shopTakenOver false)).takeover? "shop" =
      some (shopTakenOver false) := by decide +kernel
  exact ⟨hprepared, hlisted, hfound,
    (shownFirst_routed hprepared shopRequestOf_wellNamed hfound hdecided hlisted).1 rfl⟩

/-- Settings in which the intent of hijacking is not among the intents. -/
def unlistedSettings : Settings :=
  { Settings.standard with
    route :=
      { RouteSettings.standard with
        intents := ["proxy"], defaultPolicy := SortedMap.ofList [("proxy", "b")] }
    hijack := movedPolicy.hijack }

/-- The policy of those settings. -/
def unlistedPolicy : Policy := ⟨unlistedSettings.route, unlistedSettings.hijack⟩

/-- Settings that pass their check let a hijacked cluster show a cluster that is not there and that
no route names. -/
theorem shownFirst_unlisted_empties :
    let h := lookedAt unlistedPolicy (shopTakenOver false)
    let plain := create unlistedPolicy.unhijacked (some webCaller) .orig
    let feed : FeedKey := ⟨.service, "shop"⟩
    let d := destinationAt unlistedPolicy "shop" shopTrees
    unlistedSettings.check = .ok () ∧
    Prepared unlistedPolicy (some webCaller) .orig (shopRequestOf shopSelection) h ∧
    Prepared unlistedPolicy.unhijacked (some webCaller) .orig (shopRequestOf shopSelection)
      plain ∧
    (h.takeover? "shop").map Takeover.mode = some .enabled ∧
    d.intentTarget? "direct" (callerAt unlistedPolicy webCaller shopTrees) = none ∧
    (d.replica.cluster? "direct").isNone = true ∧
    ((h.shownFirst (shopRequestOf shopSelection) shopTrees feed).bind fun shown => shown "a") =
      some (.object []) ∧
    ((plain.shownFirst (shopRequestOf shopSelection) shopTrees feed).bind fun shown =>
      shown "a") = some (.object [("1", .object [("value", .string "x")])]) := by
  have hmem : ("shop", shopTakenOver false) ∈
      (create unlistedPolicy (some webCaller) .orig).candidates
        (shopRequestOf shopSelection) := by
    decide +kernel
  exact ⟨by decide +kernel, Prepared.start.look _ _ rfl hmem, .start, by decide +kernel⟩

end Hijack

end Routing

end Treecast
