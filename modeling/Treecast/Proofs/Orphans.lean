import Treecast.Proofs.References

/-!
# Who starts a new holder

A new holder is started by the call that created it, and by no other.  As long as that call waits,
all is well.  A call that is dropped while it waits gives up its lease but leaves the holder where
it is: nobody will start it, and who calls for a lease on it afterwards waits in vain.  The same
happens when the call has waited too long at the gate and others have leases on the holder by then.

## Results

* `Hub.Move.orphan`: no other change makes an orphan.
* `Hub.orphan_act`: which acts do.
* `Hub.starter_or_deserted`: over whole runs, the starter of a registered new holder still waits,
  unless one of these acts was to blame.
-/

set_option autoImplicit false

namespace Treecast.Hub

variable {h h' : Hub} {key other : TreeKey} {starter id now holder : Nat}

/-- A call that waits will start a holder. -/
def IsStarter (h : Hub) (starter holder : Nat) : Prop :=
  ∃ c l, h.calls.find? starter = some c ∧ c.phase.willStart = true ∧
    h.leases.find? c.lease = some l ∧ l.holder = holder

/-- A registered holder is new, and nobody will start it. -/
structure Orphan (h : Hub) (key : TreeKey) (holder : Nat) : Prop where
  slot : ∃ s, h.slot? key = some s ∧ s.holder = holder
  new : ∃ x, h.holder? holder = some x ∧ x.phase = .new
  nobody : ∀ starter, ¬ h.IsStarter starter holder

/-- Where no new holder is registered and every starter is kept, there is no new orphan. -/
theorem Orphan.of_sub (he : h'.Orphan key holder)
    (hslots : ∀ s, h'.slot? key = some s → s.holder = holder →
      ∃ t, h.slot? key = some t ∧ t.holder = holder)
    (hnew : ∀ x, h'.holder? holder = some x → x.phase = .new →
      ∃ y, h.holder? holder = some y ∧ y.phase = .new)
    (hkept : ∀ starter, h.IsStarter starter holder → h'.IsStarter starter holder) :
    h.Orphan key holder := by
  obtain ⟨s, hs, hsh⟩ := he.slot
  obtain ⟨x, hx, hxn⟩ := he.new
  exact ⟨hslots s hs hsh, hnew x hx hxn, fun starter hs => he.nobody starter (hkept starter hs)⟩

/-! ## Starters -/

/-- Leases that are on the same holders do as well. -/
theorem IsStarter.of_leases (hs : h.IsStarter starter holder) (hcalls : h'.calls = h.calls)
    (hleases : ∀ id l, h.leases.find? id = some l →
      ∃ m, h'.leases.find? id = some m ∧ m.holder = l.holder) : h'.IsStarter starter holder := by
  obtain ⟨c, l, hc, hp, hl, hh⟩ := hs
  obtain ⟨m, hm, hml⟩ := hleases c.lease l hl
  exact ⟨c, m, hcalls ▸ hc, hp, hm, hml.trans hh⟩

/-- The end of another call does not matter: at best the starter is given a permit. -/
theorem IsStarter.endCall (hs : h.IsStarter starter holder) (hne : starter ≠ id) (c : Call) :
    (h.endCall id c).IsStarter starter holder := by
  obtain ⟨d, l, hd, hp, hl, hh⟩ := hs
  obtain ⟨gate, next, heq⟩ := h.endCall_eq id c
  rw [heq]
  have hfind : (grant (h.calls.erase id) next).find? starter =
      some (if next = some starter then { d with phase := .admitted } else d) := by
    rw [find?_grant, SortedMap.find?_erase, if_neg hne, hd]
    rfl
  refine ⟨_, l, hfind, ?_, ?_, hh⟩
  · split
    · rfl
    · exact hp
  · split <;> exact hl

theorem IsStarter.releaseLease (hs : h.IsStarter starter holder) (now id : Nat) :
    (h.releaseLease now id).IsStarter starter holder := by
  refine hs.of_leases (h.releaseLease_rest now id).1 fun other l hl => ?_
  cases hm : h.leases.find? id with
  | none =>
    rw [releaseLease_of_none hm]
    exact ⟨l, hl, rfl⟩
  | some m =>
    cases hr : m.released with
    | true =>
      rw [releaseLease_of_released hm hr]
      exact ⟨l, hl, rfl⟩
    | false =>
      rw [(releaseLease_of_held now hm hr).1, SortedMap.find?_insert]
      split
      · rename_i heq
        cases (heq ▸ hm).symm.trans hl
        exact ⟨_, rfl, rfl⟩
      · exact ⟨l, hl, rfl⟩

/-- A lease that no call waits for may go. -/
theorem IsStarter.dropLease (hs : h.IsStarter starter holder) (now : Nat)
    (hfree : h.isAwaited id = false) : (h.dropLease now id).IsStarter starter holder := by
  obtain ⟨c, l, hc, hp, hl, hh⟩ := hs.releaseLease now id
  have hfree' : (h.releaseLease now id).isAwaited id = false :=
    (h.isAwaited_releaseLease now id id).trans hfree
  refine ⟨c, l, hc, hp, ?_, hh⟩
  exact (SortedMap.find?_erase _ _ _).trans
    ((if_neg (isAwaited_eq_false_iff.1 hfree' starter c hc)).trans hl)

theorem IsStarter.abandon (hs : h.IsStarter starter holder) (ho : h.Orderly) (now : Nat)
    (hne : starter ≠ id) : (h.abandon now id).IsStarter starter holder := by
  cases hc : h.calls.find? id with
  | none => rwa [abandon_of_none now hc]
  | some c =>
    rw [abandon_of_some now hc]
    exact (hs.endCall hne c).dropLease now (ho.isAwaited_endCall hc)

theorem IsStarter.call (hs : h.IsStarter starter holder) (ho : h.Orderly) (now time : Nat)
    (key : TreeKey) : (h.call now time key).1.IsStarter starter holder := by
  obtain ⟨c, l, hc, hp, hl, hh⟩ := hs
  obtain ⟨x, refs, hj, -⟩ := ho.call_joins now time key
  exact ⟨c, l, hj.call_kept ho hc, hp, hj.lease_kept ho hl, hh⟩

/-! ## Changes -/

/-- A holder that is registered for a call is started by it. -/
theorem Orphan.of_call (ho : h.Orderly) (now time : Nat) (tree : TreeKey)
    (he : (h.call now time tree).1.Orphan key holder) : h.Orphan key holder := by
  obtain ⟨s, hs, hsh⟩ := he.slot
  cases hopen : h.openSlot? tree with
  | some t =>
    obtain ⟨meters, heq⟩ := call_of_open now time hopen
    refine he.of_sub (fun s hs hsh => ?_) (fun x hx hn => ?_)
      fun starter hst => hst.call ho now time tree
    · rw [heq] at hs
      have hs' : (h.registry.insert tree { t with refs := t.refs + 1 }).find? key = some s := hs
      rw [SortedMap.find?_insert] at hs'
      split at hs'
      · rename_i hkey
        cases hs'
        exact ⟨t, hkey ▸ (openSlot?_eq_some_iff.1 hopen).1, hsh⟩
      · exact ⟨s, hs', hsh⟩
    · rw [heq] at hx
      exact ⟨x, hx, hn⟩
  | none =>
    obtain ⟨meters, gate, phase, heq, hphase⟩ := call_of_none now time hopen
    by_cases hnew : holder = h.nextHolder
    · -- its starter is the new call
      refine absurd ?_ (he.nobody h.nextCall)
      rw [heq]
      refine ⟨⟨h.nextLease, phase, now⟩, ⟨tree, h.nextHolder, false⟩, ?_, hphase, ?_, hnew.symm⟩
      · exact (SortedMap.find?_insert _ _ _ _).trans (if_pos rfl)
      · exact (SortedMap.find?_insert _ _ _ _).trans (if_pos rfl)
    · refine he.of_sub (fun s hs hsh => ?_) (fun x hx hn => ?_) fun starter hst =>
        hst.call ho now time tree
      · rw [heq] at hs
        have hs' : (h.registry.insert tree ⟨h.nextHolder, 1⟩).find? key = some s := hs
        rw [SortedMap.find?_insert] at hs'
        split at hs'
        · cases hs'
          exact absurd hsh.symm hnew
        · exact ⟨s, hs', hsh⟩
      · rw [heq] at hx
        have hx' : (h.holders.insert h.nextHolder
            (.create tree h.settings.changeLogCapacity)).find? holder = some x := hx
        rw [SortedMap.find?_insert, if_neg hnew] at hx'
        exact ⟨x, hx', hn⟩

/-- What is done to a holder makes none new. -/
theorem new_of_updateHolder {f : Holder → Holder} (hf : ∀ x, (f x).phase = .new → x.phase = .new)
    {x : Holder} (hx : (h.updateHolder id f).holder? holder = some x) (hn : x.phase = .new) :
    ∃ y, h.holder? holder = some y ∧ y.phase = .new := by
  have hx' : (h.holders.modify id f).find? holder = some x := hx
  rw [SortedMap.find?_modify] at hx'
  split at hx'
  · rename_i heq
    obtain ⟨y, hy, rfl⟩ := Option.map_eq_some_iff.1 hx'
    exact ⟨y, heq ▸ hy, hf y hn⟩
  · exact ⟨x, hx', hn⟩

theorem start_phase_ne_new (x : Holder) : x.start.phase ≠ .new := by
  unfold Holder.start
  split
  · exact HolderPhase.noConfusion
  · assumption

/-- A call that starts its holder leaves no orphan: the holder is not new any more. -/
theorem Orphan.of_start {c : Call} {l : Lease} {deadline : Nat} (hc : h.calls.find? id = some c)
    (hl : h.leases.find? c.lease = some l)
    (he : ((h.updateHolder l.holder Holder.start).setPhase id
      (.loading deadline)).Orphan key holder) :
    h.Orphan key holder := by
  obtain ⟨x, hx, hn⟩ := he.new
  have hx' : (h.holders.modify l.holder Holder.start).find? holder = some x := hx
  have hother : holder ≠ l.holder := by
    intro heq
    rw [SortedMap.find?_modify, if_pos heq] at hx'
    obtain ⟨y, -, rfl⟩ := Option.map_eq_some_iff.1 hx'
    exact start_phase_ne_new y hn
  refine he.of_sub (fun s hs hsh => ⟨s, hs, hsh⟩)
    (fun x hx hn => new_of_updateHolder (fun _ => new_of_start) hx hn) fun starter hst => ?_
  obtain ⟨d, m, hd, hp, hm, hh⟩ := hst
  have hne : starter ≠ id := by
    rintro rfl
    cases hc.symm.trans hd
    cases hl.symm.trans hm
    exact hother hh.symm
  refine ⟨d, m, ?_, hp, hm, hh⟩
  exact (SortedMap.find?_modify _ _ _ _).trans ((if_neg hne).trans hd)

/-- When a call is dropped, the only holder that may become an orphan is the one that it would have
started. -/
theorem Orphan.of_abandon (ho : h.Orderly) (now id : Nat)
    (he : (h.abandon now id).Orphan key holder) : h.Orphan key holder ∨ h.IsStarter id holder := by
  by_cases hst : h.IsStarter id holder
  · exact .inr hst
  refine .inl (he.of_sub (fun s hs hsh => ?_) (fun x hx hn => ?_) fun starter hs => ?_)
  · obtain ⟨t, ht, hts⟩ := (ho.shrinks_abandon now id).slots key s hs
    exact ⟨t, ht, hts.trans hsh⟩
  · exact ⟨x, by rwa [holder?, holders_abandon] at hx, hn⟩
  · exact hs.abandon ho now fun heq => hst (heq ▸ hs)

/-- **No change makes an orphan**, apart from calls that are dropped although they were to start a
new holder. -/
theorem Move.orphan (hm : Move h h') (ho : h.Orderly) (he : h'.Orphan key holder) :
    h.Orphan key holder := by
  cases hm with
  | meters meters => exact ⟨he.slot, he.new, he.nobody⟩
  | track now key => exact ⟨he.slot, he.new, he.nobody⟩
  | call now time tree => exact he.of_call ho now time tree
  | start deadline hc hl => exact Orphan.of_start hc hl he
  | succeed hc hp =>
    rename_i id c
    refine he.of_sub (fun s hs hsh => ?_) (fun x hx hn => ?_) fun starter hst => ?_
    · obtain ⟨t, ht, hts⟩ := (h.shrinks_endCall id c).slots key s hs
      exact ⟨t, ht, hts.trans hsh⟩
    · obtain ⟨gate, next, heq⟩ := h.endCall_eq id c
      rw [heq] at hx
      exact ⟨x, hx, hn⟩
    · refine hst.endCall ?_ c
      rintro rfl
      obtain ⟨d, -, hd, hpd, -⟩ := hst
      cases hc.symm.trans hd
      exact Bool.false_ne_true (hp.symm.trans hpd)
  | drop now hc hfree =>
    refine (he.of_abandon ho now _).elim id fun hst => ?_
    obtain ⟨d, l, hd, hp, hl, rfl⟩ := hst
    cases hc.symm.trans hd
    obtain ⟨x, hx, hn⟩ := he.new
    rw [holder?, holders_abandon] at hx
    exact absurd hn (hfree hp l x hl hx)
  | releaseLease now hfree =>
    refine he.of_sub (fun s hs hsh => ?_) (fun x hx hn => ?_)
      fun starter hst => hst.releaseLease now _
    · obtain ⟨t, ht, hts⟩ := (shrinks_releaseLease now hfree).slots key s hs
      exact ⟨t, ht, hts.trans hsh⟩
    · exact ⟨x, by rwa [holder?, (h.releaseLease_rest now _).2.1] at hx, hn⟩
  | dropLease now hfree =>
    refine he.of_sub (fun s hs hsh => ?_) (fun x hx hn => ?_) fun starter hst =>
      hst.dropLease now hfree
    · obtain ⟨t, ht, hts⟩ := (shrinks_dropLease now hfree).slots key s hs
      exact ⟨t, ht, hts.trans hsh⟩
    · exact ⟨x, by rwa [holder?, holders_dropLease] at hx, hn⟩
  | evict interest hs hzero hcoherent hothers =>
    refine he.of_sub (fun s hs hsh => ?_)
      (fun x hx hn => new_of_updateHolder (fun _ => new_of_close) hx hn) fun starter hst => hst
    rw [slot?_unregister] at hs
    split at hs
    · cases hs
    · exact ⟨s, hs, hsh⟩
  | change id hf =>
    exact he.of_sub (fun s hs hsh => ⟨s, hs, hsh⟩) (fun x hx hn => new_of_updateHolder hf hx hn)
      fun starter hst => hst
  | closeAll =>
    obtain ⟨s, hs, -⟩ := he.slot
    obtain ⟨interest, holders, meters, heq⟩ := h.closeAll_eq
    rw [heq] at hs
    cases hs

theorem Moves.orphan (hm : Moves h h') (ho : h.Orderly) (he : h'.Orphan key holder) :
    h.Orphan key holder := by
  induction hm with
  | refl => exact he
  | tail hfirst hlast ih => exact ih (hlast.orphan (Moves.orderly hfirst ho) he)

/-! ## Acts -/

/-- An act takes the call away that was to start a registered new holder: it is dropped, or it has
waited too long at the gate while there are other leases on the holder. -/
def Deserts (h : Hub) (key : TreeKey) (holder : Nat) : Act → Prop
  | .abandon _ id => h.IsStarter id holder
  | .tryEnd _ time id =>
    h.IsStarter id holder ∧
      (∃ c deadline, h.calls.find? id = some c ∧ c.phase = .waiting deadline ∧ deadline ≤ time) ∧
      ∃ s, h.slot? key = some s ∧ s.holder = holder ∧ 1 < s.refs
  | _ => False

theorem Orphan.of_release (now : Nat) (tree : TreeKey)
    (he : (h.release now tree).Orphan key holder) :
    h.Orphan key holder := by
  unfold release at he
  split at he
  · rename_i s hs
    refine he.of_sub (fun t ht hth => ?_) (fun x hx hn => ⟨x, ?_, hn⟩) fun starter hst => ?_
    · rw [slot?_dropReference h now hs] at ht
      split at ht
      · rename_i heq
        cases ht
        exact ⟨s, heq ▸ hs, hth⟩
      · exact ⟨t, ht, hth⟩
    · rw [dropReference_eq] at hx
      split at hx <;> exact hx
    · rw [dropReference_eq]
      split <;> exact hst
  · exact he

/-- A holder that survives its starter's failure at the gate had other leases. -/
theorem refs_of_timeout (ho : h.Orderly) {c : Call} {l : Lease} (hc : h.calls.find? id = some c)
    (hl : h.leases.find? c.lease = some l)
    (he : ((h.abandon now id).evictFailed l.key l.holder).Orphan key l.holder) :
    ∃ s, h.slot? key = some s ∧ s.holder = l.holder ∧ 1 < s.refs := by
  obtain ⟨m, hm, hr⟩ := ho.awaits id c hc
  cases hl.symm.trans hm
  obtain ⟨⟨s', hs', hsh'⟩, ⟨x, hx, hn⟩, -⟩ :=
    Moves.orphan (evictFailed_moves _ l.key l.holder) (ho.abandon now id) he
  obtain ⟨s, hs, hsh⟩ := (ho.shrinks_abandon now id).slots key s' hs'
  have hkey : l.key = key := ho.keyed key s c.lease l hs hl (hsh'.symm.trans hsh.symm)
  have hrefs : s'.refs = s.refs - 1 := by
    obtain ⟨gate, next, hend⟩ := h.endCall_eq id c
    have hslots := (releaseLease_of_held (h := h.endCall id c) now
      (by rw [hend]; exact hl) hr).2
    rw [abandon_of_some now hc] at hs'
    have hs'' := (hslots key).symm.trans hs'
    have hs₀ : (h.endCall id c).slot? key = some s := by
      rw [hend]
      exact hs
    rw [hs₀, Option.map_some, if_pos ⟨hkey.symm, hsh.trans hsh'⟩] at hs''
    cases hs''
    rfl
  refine ⟨s, hs, hsh.trans hsh', ?_⟩
  refine Nat.lt_of_not_le fun hle => ?_
  -- without other leases it would have been evicted
  have hready : x.isReady = false := by
    rw [Holder.isReady, hn]
    rfl
  have hevicted := evictFailed_of_idle (hkey ▸ hs') (by omega) (hsh' ▸ hx) hready
  obtain ⟨t, ht, -⟩ := he.slot
  rw [← hsh', hevicted] at ht
  have ht' : ((h.abandon now id).unregister l.key s').slot? key = some t := ht
  rw [slot?_unregister, if_pos hkey.symm] at ht'
  cases ht'

/-- **Which acts make orphans.** -/
theorem orphan_act {settings : SweepSettings} (ho : h.Orderly) {a : Act}
    (he : (h.act settings a).Orphan key holder) : h.Orphan key holder ∨ Deserts h key holder a := by
  have hturn := act_turn settings h a
  generalize h.act settings a = h' at he hturn
  cases hturn with
  | moves hm => exact .inl (Moves.orphan hm ho he)
  | abandon now id => exact he.of_abandon ho now id
  | timeout meters hc hl hwait hle =>
    rename_i now time id c l deadline
    have ho' := ho.meters meters
    have hdropped := Moves.orphan (evictFailed_moves _ l.key l.holder) (ho'.abandon now id) he
    refine (hdropped.of_abandon ho' now id).imp (fun hold => ⟨hold.slot, hold.new, hold.nobody⟩)
      fun hst => ⟨hst, ⟨c, deadline, hc, hwait, hle⟩, ?_⟩
    obtain ⟨d, m, hd, -, hm, rfl⟩ := hst
    cases hc.symm.trans hd
    cases hl.symm.trans hm
    exact refs_of_timeout ho' hc hl he
  | release now key => exact .inl (he.of_release now key)
  | sweep condition now =>
    obtain ⟨h', interest, hm, heq⟩ := h.sweep_moves settings condition now
    rw [heq] at he
    exact .inl (Moves.orphan hm ho ⟨he.slot, he.new, he.nobody⟩)

/-- **A registered new holder has a call that waits to start it**, whatever happens in whatever
order, but for one thing: that call was dropped, or gave up at the gate when there were other leases
on the holder, and since then nobody will start it. -/
theorem starter_or_deserted (settings : SweepSettings) (hub : HubSettings) (acts : List Act)
    {key : TreeKey} {s : Slot} {x : Holder}
    (hs : ((create hub).run settings acts).slot? key = some s)
    (hx : ((create hub).run settings acts).holder? s.holder = some x) (hn : x.phase = .new) :
    (∃ starter, ((create hub).run settings acts).IsStarter starter s.holder) ∨
      Since settings (create hub) acts (fun h a => Deserts h key s.holder a)
        (·.Orphan key s.holder) := by
  by_cases hst : ∃ starter, ((create hub).run settings acts).IsStarter starter s.holder
  · exact .inl hst
  · refine .inr (since_of_run (P := (·.Orphan key s.holder)) (fun hstart => ?_)
      (fun acts a he => orphan_act (orderly_run settings hub acts) he) acts
      ⟨⟨s, hs, rfl⟩, ⟨x, hx, hn⟩, fun starter h => hst ⟨starter, h⟩⟩)
    obtain ⟨t, ht, -⟩ := hstart.slot
    cases ht

/-- The only permit is taken, the call for a second tree waits at the gate and is dropped, and then
there is another one for that tree. -/
def overtaken : List Act :=
  [.request 0 0 ⟨"b", .service⟩, .request 0 0 ⟨"z", .service⟩, .abandon 0 1,
    .request 0 0 ⟨"z", .service⟩]

theorem starter_or_deserted_overtaken :
    ((create ⟨1, 5, 1⟩).run ⟨true, 1, 0, 1, 0⟩ overtaken).slot? ⟨"z", .service⟩ = some ⟨1, 1⟩ ∧
      ((create ⟨1, 5, 1⟩).run ⟨true, 1, 0, 1, 0⟩ overtaken).holder? 1 =
        some (.create ⟨"z", .service⟩ 1) ∧
      ((∃ starter, ((create ⟨1, 5, 1⟩).run ⟨true, 1, 0, 1, 0⟩ overtaken).IsStarter starter 1) ∨
        Since ⟨true, 1, 0, 1, 0⟩ (create ⟨1, 5, 1⟩) overtaken
          (fun h a => Deserts h ⟨"z", .service⟩ 1 a) (·.Orphan ⟨"z", .service⟩ 1)) :=
  have hs : ((create ⟨1, 5, 1⟩).run ⟨true, 1, 0, 1, 0⟩ overtaken).slot? ⟨"z", .service⟩ =
      some ⟨1, 1⟩ := by decide +kernel
  have hx : ((create ⟨1, 5, 1⟩).run ⟨true, 1, 0, 1, 0⟩ overtaken).holder? 1 =
      some (.create ⟨"z", .service⟩ 1) := by decide +kernel
  ⟨hs, hx, starter_or_deserted ⟨true, 1, 0, 1, 0⟩ ⟨1, 5, 1⟩ overtaken hs hx rfl⟩

/-- The later call then waits for a registered holder that nobody will start. -/
theorem overtaken_orphan :
    ((create ⟨1, 5, 1⟩).run ⟨true, 1, 0, 1, 0⟩ overtaken).Orphan ⟨"z", .service⟩ 1 ∧
      ((create ⟨1, 5, 1⟩).run ⟨true, 1, 0, 1, 0⟩ overtaken).calls.find? 2 =
        some ⟨2, .following 5, 0⟩ ∧
      ((create ⟨1, 5, 1⟩).run ⟨true, 1, 0, 1, 0⟩ overtaken).leases.find? 2 =
        some ⟨⟨"z", .service⟩, 1, false⟩ := by
  refine ⟨⟨⟨⟨1, 1⟩, by decide +kernel, rfl⟩, ⟨.create ⟨"z", .service⟩ 1, by decide +kernel, rfl⟩,
    fun starter hst => ?_⟩, by decide +kernel, by decide +kernel⟩
  have hcalls : ((create ⟨1, 5, 1⟩).run ⟨true, 1, 0, 1, 0⟩ overtaken).calls.toList =
      [(0, ⟨0, .admitted, 0⟩), (2, ⟨2, .following 5, 0⟩)] := by decide +kernel
  have hlease : ((create ⟨1, 5, 1⟩).run ⟨true, 1, 0, 1, 0⟩ overtaken).leases.find? 0 =
      some ⟨⟨"b", .service⟩, 0, false⟩ := by decide +kernel
  obtain ⟨c, l, hc, hp, hl, hh⟩ := hst
  have hmem := SortedMap.mem_toList_iff.2 hc
  rw [hcalls, List.mem_cons, List.mem_singleton] at hmem
  rcases hmem with heq | heq
  · cases heq
    cases hlease.symm.trans hl
    cases hh
  · cases heq
    cases hp

end Treecast.Hub
