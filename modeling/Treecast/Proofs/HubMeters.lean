import Mathlib.Data.List.Nodup
import Treecast.Proofs.HubActs

/-!
# What a hub counts

Meters have different names, so that each is read and set on its own.  The number of registered
holders is read into its meter whenever the registry gets or loses a holder, and so that meter is
right at any time.  The meters of sessions and their messages are not the hub's business: whatever
it does leaves them alone.

Both are said together, of one operation at a time (`Hub.Quiet`).

## Results

* `Meter.name_inj`, `Meters.get_set`: setting one meter does not change another.
* `Hub.quiet_request`, `Hub.quiet_launch`, `Hub.quiet_tryEnd`, `Hub.quiet_abandon`,
  `Hub.quiet_dropLease`, `Hub.quiet_sweep`, ...: every operation of a hub is quiet.
* `Hub.gauged_run`: the meter of the holders is right in every run.
-/

set_option autoImplicit false

namespace Treecast

/-! ## The size of a map -/

namespace SortedMap

variable {κ ν : Type} [Ord κ] [Std.TransOrd κ] [Std.LawfulEqOrd κ] [DecidableEq κ]

/-- An entry that is replaced does not change the size. -/
theorem size_insert_of_find? {m : SortedMap κ ν} {key : κ} {old : ν} (h : m.find? key = some old)
    (value : ν) : (m.insert key value).size = m.size := by
  have hafter := (m.toList_insert_perm key value).length_eq
  have hbefore := (toList_perm_of_find? h).length_eq
  exact hafter.trans hbefore.symm

end SortedMap

/-! ## One meter and another -/

namespace Meter

/-- All meters. -/
def every : List Meter :=
  [.holders, .watchers, .initSamples, .forceRouted, .evictions, .sweepFailures] ++
    [LoadFailure.timeout, .store, .closed].map initFailures ++
    [MessageKind.all, .update, .delete, .ping].map messages ++
    [ResyncCause.lagged, .structural].map resyncs ++
    ([Diagnostic.unstable, .mismatch].flatMap fun d => Routing.HijackMode.every.map (hijack d)) ++
    [DeclarationOutcome.recorded, .present, .missing, .malformed, .conflict, .failed].map
      declarations

theorem mem_every (meter : Meter) : meter ∈ every := by
  cases meter with
  | initFailures why => cases why <;> decide
  | messages kind => cases kind <;> decide
  | resyncs cause => cases cause <;> decide
  | hijack diagnostic mode => cases diagnostic <;> cases mode <;> decide
  | declarations outcome => cases outcome <;> decide
  | _ => decide

/-- **No two meters have the same name.** -/
theorem name_inj {meter other : Meter} (hname : meter.name = other.name) : meter = other := by
  have hnodup : (every.map name).Nodup := by decide +kernel
  exact List.inj_on_of_nodup_map hnodup (mem_every meter) (mem_every other) hname

/-- Whether a meter is about sessions: how many run, or what they sent. -/
def ofSessions : Meter → Bool
  | .watchers | .messages _ => true
  | _ => false

end Meter

namespace Meters

/-- Setting a meter changes no other. -/
theorem get_set (m : Meters) (meter : Meter) (reading : Nat) (other : Meter) :
    (m.set meter reading).get other = if other = meter then reading else m.get other := by
  unfold get set
  rw [SortedMap.find?_insert]
  by_cases h : other = meter
  · simp [h]
  · have hname : other.name ≠ meter.name := fun heq => h (Meter.name_inj heq)
    simp [h, hname]

theorem get_count (m : Meters) (meter other : Meter) :
    (m.count meter).get other = if other = meter then m.get other + 1 else m.get other := by
  rw [count, get_set]
  split
  · rename_i h
    rw [h]
  · rfl

theorem get_discount (m : Meters) (meter other : Meter) :
    (m.discount meter).get other = if other = meter then m.get other - 1 else m.get other := by
  rw [discount, get_set]
  split
  · rename_i h
    rw [h]
  · rfl

end Meters

namespace Hub

/-- The meter of the holders reads how many are registered. -/
def Gauged (h : Hub) : Prop := h.meters.get .holders = h.registry.size

/-- What happens is quiet: the meter of the holders stays right, and the meters of sessions stay as
they are. -/
structure Quiet (h h' : Hub) : Prop where
  gauged : h.Gauged → h'.Gauged
  sessions : ∀ meter : Meter, meter.ofSessions = true → h'.meters.get meter = h.meters.get meter

variable {h h' h'' : Hub}

theorem Quiet.refl (h : Hub) : h.Quiet h := ⟨id, fun _ _ => rfl⟩

theorem Quiet.trans (hab : h.Quiet h') (hbc : h'.Quiet h'') : h.Quiet h'' :=
  ⟨fun hg => hbc.gauged (hab.gauged hg), fun meter hmeter =>
    (hbc.sessions meter hmeter).trans (hab.sessions meter hmeter)⟩

/-- A change that neither the meters nor the number of holders are part of. -/
theorem Quiet.of_eq (hmeters : h'.meters = h.meters)
    (hsize : h'.registry.size = h.registry.size) : h.Quiet h' := by
  constructor
  · intro hg
    unfold Gauged
    rw [hmeters, hsize]
    exact hg
  · intro meter _
    rw [hmeters]

/-- Once the number of holders is read, its meter is right. -/
theorem Quiet.gauge (hmeters : h'.meters = h.meters) : h.Quiet h'.gauge := by
  constructor
  · intro _
    simp [Gauged, Hub.gauge, Meters.get_set]
  · intro meter hmeter
    have hne : meter ≠ .holders := by
      rintro rfl
      cases hmeter
    simp [Hub.gauge, Meters.get_set, hne, hmeters]

/-- Counting something else. -/
theorem Quiet.count (h : Hub) (meter : Meter) (hother : meter.ofSessions = false)
    (hholders : meter ≠ .holders) : h.Quiet (h.count meter) := by
  constructor
  · intro hg
    simp only [Gauged, Hub.count, Meters.get_count, if_neg (Ne.symm hholders)]
    exact hg
  · intro other hsessions
    have hne : other ≠ meter := by
      rintro rfl
      rw [hother] at hsessions
      cases hsessions
    simp only [Hub.count, Meters.get_count, if_neg hne]

/-! ## Holders and leases -/

variable (h) (now time id : Nat) (key : TreeKey)

theorem quiet_updateHolder (f : Holder → Holder) : h.Quiet (h.updateHolder id f) := .of_eq rfl rfl

theorem quiet_takeLease : h.Quiet (h.takeLease key).1 := by
  unfold takeLease
  split
  · rename_i s _
    have hadded : h.Quiet
        (Hub.gauge { h with registry := h.registry.insert key { s with refs := s.refs + 1 } }) :=
      .gauge rfl
    exact hadded.trans (.of_eq rfl rfl)
  · have hregistered : h.Quiet (h.register key).1.gauge := .gauge rfl
    exact hregistered.trans (.of_eq rfl rfl)

theorem quiet_call : h.Quiet (h.call now time key).1 := by
  have htracked : h.Quiet (h.track now key) := .of_eq rfl rfl
  have htaken := htracked.trans (quiet_takeLease (h.track now key) key)
  unfold call
  dsimp only
  split
  · exact htaken.trans (.of_eq rfl rfl)
  · exact htaken.trans (.of_eq rfl rfl)

theorem quiet_request : h.Quiet (h.request now time key).1 := by
  unfold request
  split
  · exact quiet_call h now time key
  · exact .refl h

/-- A reference less does not change which holders are registered. -/
theorem quiet_dropReference {s : Slot} (hs : h.slot? key = some s) :
    h.Quiet (h.dropReference now key s) := by
  rw [dropReference_eq]
  split
  · exact .refl h
  · exact .of_eq rfl (SortedMap.size_insert_of_find? hs _)

theorem quiet_release : h.Quiet (h.release now key) := by
  unfold release
  split
  · rename_i s hs
    exact quiet_dropReference h now key hs
  · exact .refl h

theorem quiet_releaseLease : h.Quiet (h.releaseLease now id) := by
  unfold releaseLease
  split
  · exact .refl h
  rename_i lease _
  split
  · exact .refl h
  have hmarked : h.Quiet { h with leases := h.leases.insert id { lease with released := true } } :=
    .of_eq rfl rfl
  dsimp only
  split
  · rename_i s hs
    split
    · exact hmarked.trans (quiet_dropReference _ now lease.key hs)
    · exact hmarked
  · exact hmarked

theorem quiet_dropLease : h.Quiet (h.dropLease now id) :=
  (quiet_releaseLease h now id).trans (.of_eq rfl rfl)

/-! ## Evictions -/

theorem quiet_unregister (s : Slot) : h.Quiet (h.unregister key s) := by
  have hgone : h.Quiet (Hub.gauge { h with registry := h.registry.erase key }) := .gauge rfl
  exact hgone.trans (quiet_updateHolder _ s.holder Holder.close)

theorem quiet_evictFailed (holder : Nat) : h.Quiet (h.evictFailed key holder) := by
  rcases h.evictFailed_eq key holder with heq | ⟨s, -, -, -, heq⟩
  · rw [heq]
    exact .refl h
  · rw [heq]
    exact (quiet_unregister h key s).trans (.of_eq rfl rfl)

theorem quiet_tryEvict : h.Quiet (h.tryEvict key).1 := by
  rcases h.tryEvict_eq key with heq | ⟨s, -, -, heq⟩
  · rw [heq]
    exact .refl h
  · rw [heq]
    exact quiet_unregister h key s

theorem quiet_closeAll : h.Quiet h.closeAll := by
  have hfold : ∀ (slots : List (TreeKey × Slot)) (g : Hub),
      g.Quiet (slots.foldl (fun g e => (g.forget e.1).closeHolder e.2.holder) g) := by
    intro slots
    induction slots with
    | nil => exact fun g => .refl g
    | cons e rest ih =>
      intro g
      have hclosed : g.Quiet ((g.forget e.1).closeHolder e.2.holder) := .of_eq rfl rfl
      exact hclosed.trans (ih _)
  have hempty : h.Quiet (Hub.gauge { h with registry := SortedMap.empty }) := .gauge rfl
  exact hempty.trans (hfold h.registry.toList _)

theorem quiet_evictIdle (moment : Nat) : h.Quiet (h.evictIdle key moment).1 := by
  unfold evictIdle
  split
  · rename_i s _
    split
    · split
      · rename_i interest _
        have hnoted : h.Quiet { h with interest } := .of_eq rfl rfl
        exact (hnoted.trans (quiet_unregister { h with interest } key s)).trans
          (.count _ .evictions rfl (by decide))
      · exact .refl h
    · exact .refl h
  · exact .refl h

theorem quiet_evictAll (idle : List (Nat × TreeKey)) : ∀ h : Hub, h.Quiet (h.evictAll idle).1 := by
  induction idle with
  | nil => exact fun h => .refl h
  | cons e rest ih => exact fun h => (quiet_evictIdle h e.2 e.1).trans (ih _)

theorem quiet_purge (old : List (Nat × TreeKey)) : ∀ h : Hub, h.Quiet (h.purge old).1 := by
  induction old with
  | nil => exact fun h => .refl h
  | cons e rest ih =>
    intro h
    have hremoved : h.Quiet { h with interest := (h.interest.removeIfUnchanged e.2 e.1).1 } :=
      .of_eq rfl rfl
    exact hremoved.trans (ih _)

/-- **A sweep** counts what it evicts and nothing of sessions. -/
theorem quiet_sweep (settings : SweepSettings) (condition : EvictionCondition) :
    h.Quiet (h.sweep settings condition now).1 := by
  have hevict : h.Quiet (h.evictStale settings now).1 := by
    unfold evictStale
    split
    · exact quiet_evictAll _ h
    · exact .refl h
  have hpurge : ∀ g : Hub, g.Quiet (g.purgeStale settings now).1 := by
    intro g
    unfold purgeStale
    split
    · exact quiet_purge _ g
    · exact .refl g
  unfold sweep
  split
  · exact .refl h
  · rename_i allowed _
    cases allowed with
    | true => exact hevict.trans (hpurge _)
    | false => exact hpurge h

/-! ## The end of a call -/

theorem quiet_endCall (c : Call) : h.Quiet (h.endCall id c) := by
  obtain ⟨gate, next, heq⟩ := h.endCall_eq id c
  rw [heq]
  exact .of_eq rfl rfl

theorem quiet_abandon : h.Quiet (h.abandon now id) := by
  unfold abandon
  split
  · rename_i c _
    exact (quiet_endCall h id c).trans (quiet_dropLease _ now c.lease)
  · exact .refl h

/-- A call that created its holder counts how its start went. -/
theorem quiet_countStart (c : Call) (meter : Meter) (hother : meter.ofSessions = false)
    (hholders : meter ≠ .holders) :
    h.Quiet (if c.phase.isCreator then h.count meter else h) := by
  split
  · exact .count h meter hother hholders
  · exact .refl h

theorem quiet_fail (failure : Failure) : h.Quiet (h.fail now id failure) := by
  unfold fail
  split
  · exact .refl h
  · rename_i c _
    have hcounted := quiet_countStart h c (.initFailures (lossOf failure)) rfl nofun
    dsimp only
    generalize (if c.phase.isCreator then h.count (.initFailures (lossOf failure)) else h) = g
      at hcounted ⊢
    have hdropped := (hcounted.trans (quiet_endCall g id c)).trans
      (quiet_dropLease (g.endCall id c) now c.lease)
    split
    · exact hdropped.trans (quiet_evictFailed _ _ _)
    · exact hdropped

theorem quiet_succeed : h.Quiet (h.succeed id) := by
  unfold succeed
  split
  · exact .refl h
  · rename_i c _
    exact (quiet_countStart h c .initSamples rfl nofun).trans (quiet_endCall _ id c)

theorem quiet_launch (watched : Except StoreError Unit) :
    h.Quiet (h.launch now time id watched).1 := by
  unfold launch
  split
  · exact .refl h
  · rename_i c lease _
    have hstarted := quiet_updateHolder h lease.holder Holder.start
    dsimp only
    split
    · exact (hstarted.trans (quiet_updateHolder _ lease.holder Holder.close)).trans
        (quiet_fail _ now id _)
    · exact hstarted.trans (.of_eq rfl rfl)

theorem quiet_tryEnd : h.Quiet (h.tryEnd now time id).1 := by
  unfold tryEnd
  split
  · exact .refl h
  · split
    · exact .refl h
    · exact quiet_succeed h id
    · exact quiet_fail h now id _

/-! ## Runs -/

/-- **Whatever happens to a hub is quiet.** -/
theorem quiet_act (settings : SweepSettings) (a : Act) : h.Quiet (h.act settings a) := by
  cases a with
  | request now time key => exact quiet_request h now time key
  | launch now time call watched =>
    rw [act]
    split
    · exact quiet_launch h now time call _
    · exact .refl h
  | tryEnd now time call => exact quiet_tryEnd h now time call
  | abandon now call => exact quiet_abandon h now call
  | evictFailed key holder => exact quiet_evictFailed h key holder
  | releaseLease now lease =>
    rw [act]
    split
    · exact .refl h
    · exact quiet_releaseLease h now lease
  | dropLease now lease =>
    rw [act]
    split
    · exact .refl h
    · exact quiet_dropLease h now lease
  | release now key => exact quiet_release h now key
  | track now key => exact .of_eq rfl rfl
  | sweep condition now => exact quiet_sweep h now settings condition
  | evict key => exact quiet_tryEvict h key
  | feed holder events => exact quiet_updateHolder h holder _
  | close holder => exact quiet_updateHolder h holder Holder.close
  | closeAll => exact quiet_closeAll h

theorem gauged_create (settings : HubSettings) : (create settings).Gauged := rfl

/-- **The meter of the holders is right** in every run. -/
theorem gauged_run (settings : SweepSettings) (hub : HubSettings) (acts : List Act) :
    ((create hub).run settings acts).Gauged := by
  refine run_induction (P := fun _ h => h.Gauged) (gauged_create hub) ?_ acts
  intro acts a hg
  exact (quiet_act _ settings a).gauged hg

end Hub

end Treecast
