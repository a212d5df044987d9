import Treecast.Proofs.References

/-!
# Evictions

Sweeps, evictions on request and evictions after a failed start all come down to the same thing: a
holder without references is taken from the registry and closed.  While the counts are right, such
a holder has no lease that is not released, so whoever still holds a lease keeps the holder as it
is.

## Results

* `Hub.Culls`: what evictions are made of.
* `Hub.Culls.keeps`: they leave calls and leases alone, and every holder that is held.
* `Hub.counted_run`: without references that are dropped without a lease, the counts are right in
  every run.
* `Hub.spares_act`: no eviction touches a holder that has a lease afterwards.
-/

set_option autoImplicit false

namespace Treecast

namespace Hub

variable {h h' : Hub} {key : TreeKey} {s : Slot} {id now : Nat}

/-- The changes that evictions are made of: a holder without references goes, and the interest index
and the meters change. -/
inductive Cull : Hub → Hub → Prop where
  | aside (h : Hub) (interest : Interest) (meters : Meters) : Cull h { h with interest, meters }
  | evict {h : Hub} {key : TreeKey} {s : Slot} (hs : h.slot? key = some s) (hzero : s.refs = 0) :
      Cull h (h.unregister key s)

/-- Such changes in order. -/
abbrev Culls : Hub → Hub → Prop := Relation.ReflTransGen Cull

/-- What evictions keep. -/
structure Keeps (h h' : Hub) : Prop where
  orderly : h'.Orderly
  counted : h'.Counted
  calls : h'.calls = h.calls
  leases : h'.leases = h.leases
  holders : ∀ holder, 0 < h.heldOn holder → h'.holder? holder = h.holder? holder

theorem Cull.keeps (hcull : Cull h h') (ho : h.Orderly) (hc : h.Counted) : Keeps h h' := by
  cases hcull with
  | aside interest meters =>
    exact ⟨ho.shrink (shrinks_of_eq ⟨rfl, rfl, rfl⟩ rfl rfl rfl), hc.of_eq rfl rfl, rfl, rfl,
      fun _ _ => rfl⟩
  | evict hs hzero =>
    rename_i key s
    refine ⟨ho.shrink (shrinks_unregister h key s), hc.unregister key s, rfl, rfl,
      fun holder hheld => ?_⟩
    have hne : holder ≠ s.holder := by
      rintro rfl
      have hrefs := hc key s hs
      omega
    exact (SortedMap.find?_modify _ _ _ _).trans (if_neg hne)

/-- **Evictions** leave calls and leases alone, and every holder that is held. -/
theorem Culls.keeps (hculls : Culls h h') (ho : h.Orderly) (hc : h.Counted) : Keeps h h' := by
  induction hculls with
  | refl => exact ⟨ho, hc, rfl, rfl, fun _ _ => rfl⟩
  | tail _ hlast ih =>
    have hnext := hlast.keeps ih.orderly ih.counted
    refine ⟨hnext.orderly, hnext.counted, hnext.calls.trans ih.calls, hnext.leases.trans ih.leases,
      fun holder hheld => ?_⟩
    rw [hnext.holders holder, ih.holders holder hheld]
    rwa [heldOn, ih.leases]

theorem evictFailed_culls (h : Hub) (key : TreeKey) (holder : Nat) :
    Culls h (h.evictFailed key holder) := by
  obtain heq | ⟨s, hs, -, hzero, heq⟩ := h.evictFailed_eq key holder
  · rw [heq]
  · rw [heq]
    exact (Relation.ReflTransGen.single (Cull.evict hs hzero)).tail (Cull.aside _ _ _)

theorem tryEvict_culls (h : Hub) (key : TreeKey) : Culls h (h.tryEvict key).1 := by
  obtain heq | ⟨s, hs, hzero, heq⟩ := h.tryEvict_eq key
  · rw [heq]
  · rw [heq]
    exact .single (.evict hs hzero)

theorem evictIdle_culls (h : Hub) (key : TreeKey) (moment : Nat) :
    Culls h (h.evictIdle key moment).1 := by
  cases he : h.isEvictable (moment, key) with
  | false => rw [evictIdle_of_not he]
  | true =>
    obtain ⟨⟨t, ht, hzero⟩, -⟩ := isEvictable_iff.1 he
    obtain ⟨s, hs, heq⟩ := evictIdle_of_evictable he
    cases ht.symm.trans hs
    rw [heq]
    exact ((Relation.ReflTransGen.single (Cull.aside h _ h.meters)).tail (Cull.evict hs hzero)).tail
      (Cull.aside _ _ _)

theorem purgeStale_culls (h : Hub) (settings : SweepSettings) (now : Nat) :
    Culls h (h.purgeStale settings now).1 := by
  obtain ⟨interest, heq⟩ := h.purgeStale_eq settings now
  rw [heq]
  exact .single (.aside h interest h.meters)

/-- **A sweep** evicts and forgets. -/
theorem sweep_culls (h : Hub) (settings : SweepSettings) (condition : EvictionCondition)
    (now : Nat) : Culls h (h.sweep settings condition now).1 := by
  cases hcondition : condition h.stats with
  | error fault => rw [sweep_of_error hcondition]
  | ok allowed =>
    rw [sweep_of_ok hcondition]
    cases allowed with
    | true =>
      exact (evictStale_chain evictIdle_culls h settings now).trans
        (purgeStale_culls _ settings now)
    | false => exact h.purgeStale_culls settings now

/-! ## Runs -/

/-- Whether an act drops a reference without a lease. -/
def Act.isRelease : Act → Bool
  | .release _ _ => true
  | _ => false

/-- **Every act** that does not drop a reference without a lease keeps the counts right. -/
theorem counted_act (settings : SweepSettings) (ho : h.Orderly) (hc : h.Counted) {a : Act}
    (ha : a.isRelease = false) : (h.act settings a).Counted := by
  have hturn := act_turn settings h a
  generalize h.act settings a = h' at hturn ⊢
  cases hturn with
  | moves hm => exact (Moves.counted hm ho hc).2
  | abandon now id => exact hc.abandon ho now id
  | timeout meters hcall hl hwait hle =>
    have ho' := ho.meters meters
    exact (Culls.keeps (evictFailed_culls _ _ _) (ho'.abandon _ _)
      ((hc.meters meters).abandon ho' _ _)).counted
  | release now key => cases ha
  | sweep condition now => exact (Culls.keeps (h.sweep_culls settings condition now) ho hc).counted

/-- **The counts are right** in every run in which no reference is dropped without a lease. -/
theorem counted_run (settings : SweepSettings) (hub : HubSettings) {acts : List Act}
    (hacts : ∀ a ∈ acts, a.isRelease = false) : ((create hub).run settings acts).Counted := by
  refine run_induction (P := fun acts h => (∀ a ∈ acts, a.isRelease = false) → h.Counted)
    (fun _ => counted_create hub) (fun acts a ih hacts => ?_) acts hacts
  have hbefore : ∀ b ∈ acts, b.isRelease = false := fun b hb =>
    hacts b (List.mem_append_left _ hb)
  exact counted_act settings (orderly_run settings hub acts) (ih hbefore)
    (hacts a (List.mem_append_right _ (List.mem_singleton_self a)))

/-! ## Protection -/

/-- Whether an act may evict a holder: a sweep, an eviction on request, and one after a failed
start, by the call that fails or later. -/
def Act.mayEvict : Act → Bool
  | .sweep _ _ | .evict _ | .evictFailed _ _ | .tryEnd _ _ _ => true
  | _ => false

/-- Every holder that has a lease afterwards is what it was. -/
def Spares (h h' : Hub) : Prop :=
  ∀ id l, h'.leases.find? id = some l → l.released = false →
    h'.holder? l.holder = h.holder? l.holder

theorem Keeps.spares (hkeeps : Keeps h h') : Spares h h' := fun _ l hl hr =>
  hkeeps.holders l.holder (heldOn_pos (hkeeps.leases ▸ hl) hr)

/-- A call that fails drops its own lease first. -/
theorem spares_tryEnd (ho : h.Orderly) (hc : h.Counted) (now time id : Nat) :
    Spares h (h.tryEnd now time id).1 := by
  unfold tryEnd
  split
  · exact fun _ _ _ _ => rfl
  rename_i c hcall
  split
  · exact fun _ _ _ _ => rfl
  · intro _ l _ _
    have hholders : (h.succeed id).holders = h.holders := by
      unfold succeed
      rw [hcall]
      dsimp only
      split
      · obtain ⟨gate, next, heq⟩ := (h.count .initSamples).endCall_eq id c
        rw [heq]
        rfl
      · obtain ⟨gate, next, heq⟩ := h.endCall_eq id c
        rw [heq]
    exact congrArg (SortedMap.find? · l.holder) hholders
  · rename_i failure hv
    obtain ⟨l, hl⟩ := lease_of_verdict hv
    obtain ⟨meters, heq⟩ := fail_eq now failure hcall hl
    have ho' := ho.meters meters
    have hkeeps := Culls.keeps (evictFailed_culls _ l.key l.holder) (ho'.abandon now id)
      ((hc.meters meters).abandon ho' now id)
    intro other m hm hr
    rw [heq] at hm ⊢
    rw [hkeeps.spares other m hm hr, holder?, holders_abandon]
    rfl

/-- **No eviction** touches a holder that has a lease afterwards. -/
theorem spares_act (settings : SweepSettings) (ho : h.Orderly) (hc : h.Counted) {a : Act}
    (ha : a.mayEvict = true) : Spares h (h.act settings a) := by
  cases a with
  | sweep condition now => exact (Culls.keeps (h.sweep_culls settings condition now) ho hc).spares
  | evict key => exact (Culls.keeps (h.tryEvict_culls key) ho hc).spares
  | evictFailed key holder => exact (Culls.keeps (h.evictFailed_culls key holder) ho hc).spares
  | tryEnd now time call => exact spares_tryEnd ho hc now time call
  | _ => cases ha

end Hub

end Treecast
