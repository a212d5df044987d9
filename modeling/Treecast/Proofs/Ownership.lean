import Mathlib.Data.Multiset.Filter
import Treecast.Proofs.Evictions

/-!
# Who owns a lease

A call for a lease belongs to whoever waits for it, and waits for a lease of its own; when it ends
well the lease goes to its owner.  So every lease that exists has exactly one owner: a call, or
whoever took it from a call.  What an owner knows of a call or a lease is its tree, and that the
lease is not released; an owner that may release it knows nothing.

## Results

* `Hub.Owned`: these are the owners of all calls and all leases.
* `Hub.Owned.request`, `Hub.Owned.endCall`, `Hub.Owned.abandon`, `Hub.Owned.releaseLease`,
  `Hub.Owned.dropLease`: what is owned after a call for a lease, its end and its drop, and after the
  release and the drop of a lease.
* `Hub.Owned.launch`, `Hub.Owned.tryEnd`: the same for the start of a holder and for a look at a
  call.
* `Hub.Owned.culls`, `Hub.Owned.closeAll`: evictions do not touch what is owned.
-/

set_option autoImplicit false

namespace Treecast

namespace SortedMap

variable {κ ν : Type} [Ord κ] [Std.TransOrd κ] [Std.LawfulEqOrd κ] [DecidableEq κ]
  {m : SortedMap κ ν} {key : κ} {value : ν}

theorem keys_of_find? (h : m.find? key = some value) :
    (m.keys : Multiset κ) = key ::ₘ ((m.erase key).keys : Multiset κ) :=
  Multiset.coe_eq_coe.2 ((toList_perm_of_find? h).map Prod.fst)

theorem values_of_find? (h : m.find? key = some value) :
    (m.values : Multiset ν) = value ::ₘ ((m.erase key).values : Multiset ν) :=
  Multiset.coe_eq_coe.2 ((toList_perm_of_find? h).map Prod.snd)

theorem keys_insert_new (h : m.find? key = none) (value : ν) :
    ((m.insert key value).keys : Multiset κ) = key ::ₘ (m.keys : Multiset κ) := by
  have hperm := (m.toList_insert_perm key value).map Prod.fst
  rw [erase_of_find?_eq_none h] at hperm
  exact Multiset.coe_eq_coe.2 hperm

theorem values_insert_new (h : m.find? key = none) (value : ν) :
    ((m.insert key value).values : Multiset ν) = value ::ₘ (m.values : Multiset ν) := by
  have hperm := (m.toList_insert_perm key value).map Prod.snd
  rw [erase_of_find?_eq_none h] at hperm
  exact Multiset.coe_eq_coe.2 hperm

/-- Another value under a key that is there already. -/
theorem keys_insert_old (h : m.find? key = some value) (other : ν) :
    ((m.insert key other).keys : Multiset κ) = m.keys := by
  rw [keys_of_find? h]
  exact Multiset.coe_eq_coe.2 ((m.toList_insert_perm key other).map Prod.fst)

end SortedMap

namespace Hub

variable {h h' : Hub} {id now time : Nat} {key : TreeKey}

/-- The lease that each call waits for. -/
def awaited (h : Hub) : SortedMap Nat Nat := h.calls.map fun _ c => c.lease

theorem find?_awaited (h : Hub) (id : Nat) :
    h.awaited.find? id = (h.calls.find? id).map Call.lease :=
  SortedMap.find?_map _ _ _

theorem awaited_of_calls (hcalls : h'.calls = h.calls) : h'.awaited = h.awaited := by
  rw [awaited, hcalls, awaited]

theorem lease_grant (calls : SortedMap Nat Call) (next : Option Nat) (id : Nat) :
    ((grant calls next).find? id).map Call.lease = (calls.find? id).map Call.lease := by
  rw [find?_grant, Option.map_map]
  congr 1
  funext c
  dsimp only [Function.comp]
  split <;> rfl

theorem awaited_endCall (h : Hub) (id : Nat) (c : Call) :
    (h.endCall id c).awaited = h.awaited.erase id := by
  obtain ⟨gate, next, heq⟩ := h.endCall_eq id c
  refine SortedMap.ext_find? fun other => ?_
  rw [find?_awaited, SortedMap.find?_erase, find?_awaited, heq]
  dsimp only
  rw [lease_grant, SortedMap.find?_erase]
  split <;> rfl

theorem awaited_setPhase (h : Hub) (id : Nat) (phase : CallPhase) :
    (h.setPhase id phase).awaited = h.awaited := by
  refine SortedMap.ext_find? fun other => ?_
  rw [find?_awaited, find?_awaited, setPhase]
  dsimp only
  rw [SortedMap.find?_modify]
  split
  · rename_i heq
    rw [heq, Option.map_map]
    rfl
  · rfl

theorem values_awaited (h : Hub) : h.awaited.values = h.calls.values.map Call.lease := by
  rw [awaited, SortedMap.values, SortedMap.map, SortedMap.values, List.map_map, List.map_map]
  rfl

theorem isAwaited_iff {lease : Nat} : h.isAwaited lease = true ↔ lease ∈ h.awaited.values := by
  rw [isAwaited, List.any_eq_true, values_awaited, List.mem_map]
  simp only [decide_eq_true_eq]

theorem leases_dropLease (h : Hub) (now id : Nat) :
    (h.dropLease now id).leases = h.leases.erase id := by
  change (h.releaseLease now id).leases.erase id = h.leases.erase id
  cases hl : h.leases.find? id with
  | none => rw [releaseLease_of_none hl]
  | some l =>
    cases hr : l.released with
    | true => rw [releaseLease_of_released hl hr]
    | false =>
      rw [(releaseLease_of_held now hl hr).1]
      refine SortedMap.ext_find? fun other => ?_
      simp only [SortedMap.find?_erase, SortedMap.find?_insert]
      split <;> rfl

/-! ## Owners -/

end Hub

/-- What somebody owns: a call or a lease, with its tree if the owner relies on it. -/
inductive Claim where
  | call (id : Nat) (tree : Option TreeKey)
  | lease (id : Nat) (tree : Option TreeKey)

def Claim.call? : Claim → Option Nat
  | .call id _ => some id
  | .lease _ _ => none

def Claim.lease? : Claim → Option Nat
  | .call _ _ => none
  | .lease id _ => some id

/-- What somebody owns. -/
abbrev Claims := Multiset Claim

namespace Claims

variable (id : Nat) (tree : Option TreeKey) (S : Claims)

/-- The calls that are owned. -/
def calls : Multiset Nat := S.filterMap Claim.call?

/-- The leases that are owned. -/
def leases : Multiset Nat := S.filterMap Claim.lease?

@[simp] theorem calls_cons_call : calls (.call id tree ::ₘ S) = id ::ₘ S.calls :=
  Multiset.filterMap_cons_some _ _ _ rfl

@[simp] theorem calls_cons_lease : calls (.lease id tree ::ₘ S) = S.calls :=
  Multiset.filterMap_cons_none _ _ rfl

@[simp] theorem leases_cons_call : leases (.call id tree ::ₘ S) = S.leases :=
  Multiset.filterMap_cons_none _ _ rfl

@[simp] theorem leases_cons_lease : leases (.lease id tree ::ₘ S) = id ::ₘ S.leases :=
  Multiset.filterMap_cons_some _ _ _ rfl

variable {id tree S}

theorem mem_calls (hmem : Claim.call id tree ∈ S) : id ∈ S.calls :=
  (Multiset.mem_filterMap _ _).2 ⟨_, hmem, rfl⟩

theorem mem_leases (hmem : Claim.lease id tree ∈ S) : id ∈ S.leases :=
  (Multiset.mem_filterMap _ _).2 ⟨_, hmem, rfl⟩

end Claims

namespace Hub

variable {h h' : Hub} {id now time : Nat} {key : TreeKey} {S : Claims} {k : Option TreeKey}

/-- These are the owners of all calls and all leases. -/
structure Owned (h : Hub) (S : Claims) : Prop where
  orderly : h.Orderly
  counted : h.Counted
  callIds : (h.awaited.keys : Multiset Nat) = S.calls
  leaseIds : (h.leases.keys : Multiset Nat) = (h.awaited.values : Multiset Nat) + S.leases
  called : ∀ id key, .call id (some key) ∈ S →
    ∃ lease l, h.awaited.find? id = some lease ∧ h.leases.find? lease = some l ∧ l.key = key
  held : ∀ id key, .lease id (some key) ∈ S →
    ∃ l, h.leases.find? id = some l ∧ l.key = key ∧ l.released = false

theorem owned_create (settings : HubSettings) : (create settings).Owned 0 where
  orderly := orderly_create settings
  counted := counted_create settings
  callIds := rfl
  leaseIds := rfl
  called _ _ hmem := absurd hmem (Multiset.notMem_zero _)
  held _ _ hmem := absurd hmem (Multiset.notMem_zero _)

/-- The calls and the leases stay what they are. -/
theorem Owned.of_eq (hO : h.Owned S) (ho : h'.Orderly) (hc : h'.Counted)
    (hawaited : h'.awaited = h.awaited) (hleases : h'.leases = h.leases) : h'.Owned S where
  orderly := ho
  counted := hc
  callIds := by rw [hawaited, hO.callIds]
  leaseIds := by rw [hawaited, hleases, hO.leaseIds]
  called := by rw [hawaited, hleases]; exact hO.called
  held := by rw [hleases]; exact hO.held

/-- An owner may forget what it knows of a call. -/
theorem Owned.forget_call (hO : h.Owned (.call id k ::ₘ S)) : h.Owned (.call id none ::ₘ S) where
  orderly := hO.orderly
  counted := hO.counted
  callIds := by simpa using hO.callIds
  leaseIds := by simpa using hO.leaseIds
  called other key hmem :=
    hO.called other key (Multiset.mem_cons_of_mem ((Multiset.mem_cons.1 hmem).resolve_left nofun))
  held other key hmem :=
    hO.held other key (Multiset.mem_cons_of_mem ((Multiset.mem_cons.1 hmem).resolve_left nofun))

/-- An owner may forget what it knows of a lease. -/
theorem Owned.forget_lease (hO : h.Owned (.lease id k ::ₘ S)) :
    h.Owned (.lease id none ::ₘ S) where
  orderly := hO.orderly
  counted := hO.counted
  callIds := by simpa using hO.callIds
  leaseIds := by simpa using hO.leaseIds
  called other key hmem :=
    hO.called other key (Multiset.mem_cons_of_mem ((Multiset.mem_cons.1 hmem).resolve_left nofun))
  held other key hmem :=
    hO.held other key (Multiset.mem_cons_of_mem ((Multiset.mem_cons.1 hmem).resolve_left nofun))

/-- A call that has an owner exists. -/
theorem Owned.exists_call (hO : h.Owned (.call id k ::ₘ S)) : ∃ c, h.calls.find? id = some c := by
  have hmem : id ∈ (h.awaited.keys : Multiset Nat) := by
    rw [hO.callIds, Claims.calls_cons_call]
    exact Multiset.mem_cons_self _ _
  have hsome := SortedMap.mem_keys_iff.1 (Multiset.mem_coe.1 hmem)
  rw [find?_awaited, Option.isSome_map] at hsome
  exact Option.isSome_iff_exists.1 hsome

/-- A lease that has an owner exists. -/
theorem Owned.exists_lease (hO : h.Owned (.lease id k ::ₘ S)) :
    ∃ l, h.leases.find? id = some l := by
  have hmem : id ∈ (h.leases.keys : Multiset Nat) := by
    rw [hO.leaseIds, Claims.leases_cons_lease, Multiset.add_cons]
    exact Multiset.mem_cons_self _ _
  exact Option.isSome_iff_exists.1 (SortedMap.mem_keys_iff.1 (Multiset.mem_coe.1 hmem))

/-- **Nobody else owns a lease**, and no call waits for it. -/
theorem Owned.alone (hO : h.Owned (.lease id k ::ₘ S)) :
    h.isAwaited id = false ∧ id ∉ S.leases := by
  have hnodup : (h.leases.keys : Multiset Nat).Nodup := Multiset.coe_nodup.2 h.leases.nodup_keys
  rw [hO.leaseIds, Claims.leases_cons_lease, Multiset.add_cons, Multiset.nodup_cons] at hnodup
  refine ⟨Bool.eq_false_iff.2 fun hw => hnodup.1 ?_, fun hS => hnodup.1 ?_⟩
  · exact Multiset.mem_add.2 (.inl (Multiset.mem_coe.2 (isAwaited_iff.1 hw)))
  · exact Multiset.mem_add.2 (.inr hS)

/-! ## The end of a call -/

/-- **A call that ended** leaves its lease to its owner. -/
theorem Owned.endCall (hO : h.Owned (.call id k ::ₘ S)) {c : Call}
    (hc : h.calls.find? id = some c) : (h.endCall id c).Owned (.lease c.lease k ::ₘ S) := by
  have hawaited : h.awaited.find? id = some c.lease := by rw [find?_awaited, hc, Option.map_some]
  have hleases : (h.endCall id c).leases = h.leases := by
    obtain ⟨gate, next, heq⟩ := h.endCall_eq id c
    rw [heq]
  have hids : (h.awaited.erase id).keys = S.calls := by
    have hall := hO.callIds
    rw [SortedMap.keys_of_find? hawaited, Claims.calls_cons_call] at hall
    exact (Multiset.cons_inj_right id).1 hall
  constructor
  case orderly => exact hO.orderly.shrink (h.shrinks_endCall id c)
  case counted => exact hO.counted.endCall id c
  case callIds => rw [awaited_endCall, hids, Claims.calls_cons_lease]
  case leaseIds =>
    rw [awaited_endCall, hleases, hO.leaseIds, SortedMap.values_of_find? hawaited,
      Claims.leases_cons_call, Claims.leases_cons_lease, Multiset.cons_add, Multiset.add_cons]
  case called =>
    intro other key hmem
    have hmem := (Multiset.mem_cons.1 hmem).resolve_left nofun
    obtain ⟨lease, l, hlease, hl⟩ := hO.called other key (Multiset.mem_cons_of_mem hmem)
    refine ⟨lease, l, ?_, by rwa [hleases]⟩
    have hother : other ∈ (h.awaited.erase id).keys := by
      rw [← Multiset.mem_coe, hids]
      exact Claims.mem_calls hmem
    have hsome := SortedMap.mem_keys_iff.1 hother
    rw [SortedMap.find?_erase] at hsome
    rw [awaited_endCall, SortedMap.find?_erase]
    split at hsome
    · cases hsome
    · rename_i hne
      rwa [if_neg hne]
  case held =>
    intro other key hmem
    rw [hleases]
    rcases Multiset.mem_cons.1 hmem with heq | hmem
    · cases heq
      obtain ⟨lease, l, hlease, hl, hkey⟩ := hO.called id key (Multiset.mem_cons_self _ _)
      cases hawaited.symm.trans hlease
      obtain ⟨m, hm, hr⟩ := hO.orderly.awaits id c hc
      cases hl.symm.trans hm
      exact ⟨l, hl, hkey, hr⟩
    · exact hO.held other key (Multiset.mem_cons_of_mem hmem)

/-- Who owns one lease does not own another, and a call waits for neither: all of them stay as they
are when something happens to that one. -/
theorem Owned.others (hO : h.Owned (.lease id k ::ₘ S)) (hawaited : h'.awaited = h.awaited)
    (hkept : ∀ other, other ≠ id → h'.leases.find? other = h.leases.find? other) :
    (∀ other key, .call other (some key) ∈ S → ∃ lease l, h'.awaited.find? other = some lease ∧
      h'.leases.find? lease = some l ∧ l.key = key) ∧
    ∀ other key, .lease other (some key) ∈ S →
      ∃ l, h'.leases.find? other = some l ∧ l.key = key ∧ l.released = false := by
  obtain ⟨hfree, hothers⟩ := hO.alone
  refine ⟨fun other key hmem => ?_, fun other key hmem => ?_⟩
  · obtain ⟨lease, l, hlease, hl, hkey⟩ := hO.called other key (Multiset.mem_cons_of_mem hmem)
    refine ⟨lease, l, hawaited ▸ hlease, ?_, hkey⟩
    rw [hkept lease, hl]
    rintro rfl
    rw [find?_awaited] at hlease
    obtain ⟨c, hc, heq⟩ := Option.map_eq_some_iff.1 hlease
    exact isAwaited_eq_false_iff.1 hfree other c hc heq
  · obtain ⟨l, hl, hkey⟩ := hO.held other key (Multiset.mem_cons_of_mem hmem)
    refine ⟨l, ?_, hkey⟩
    rw [hkept other, hl]
    rintro rfl
    exact hothers (Claims.mem_leases hmem)

/-- **A lease that was dropped** is gone. -/
theorem Owned.dropLease (hO : h.Owned (.lease id k ::ₘ S)) (now : Nat) :
    (h.dropLease now id).Owned S := by
  obtain ⟨l, hl⟩ := hO.exists_lease
  have hawaited : (h.dropLease now id).awaited = h.awaited :=
    awaited_of_calls (h.releaseLease_rest now id).1
  obtain ⟨hcalled, hheld⟩ := hO.others hawaited fun other hne => by
    rw [leases_dropLease, SortedMap.find?_erase, if_neg hne]
  refine ⟨hO.orderly.shrink (shrinks_dropLease now hO.alone.1),
    hO.counted.dropLease hO.orderly now id, ?_, ?_, hcalled, hheld⟩
  · rw [hawaited, hO.callIds, Claims.calls_cons_lease]
  · have hall := hO.leaseIds
    rw [SortedMap.keys_of_find? hl, Claims.leases_cons_lease, Multiset.add_cons] at hall
    rw [hawaited, leases_dropLease]
    exact (Multiset.cons_inj_right id).1 hall

/-- **A lease that was released** still has its owner, who may drop it. -/
theorem Owned.releaseLease (hO : h.Owned (.lease id k ::ₘ S)) (now : Nat) :
    (h.releaseLease now id).Owned (.lease id none ::ₘ S) := by
  obtain ⟨l, hl⟩ := hO.exists_lease
  cases hr : l.released with
  | true =>
    rw [releaseLease_of_released hl hr]
    exact hO.forget_lease
  | false =>
    have hawaited := awaited_of_calls (h.releaseLease_rest now id).1
    have hleases := (releaseLease_of_held now hl hr).1
    obtain ⟨hcalled, hheld⟩ := hO.others hawaited fun other hne => by
      rw [hleases, SortedMap.find?_insert, if_neg hne]
    refine ⟨hO.orderly.shrink (shrinks_releaseLease now hO.alone.1),
      hO.counted.releaseLease hO.orderly now id, ?_, ?_,
      fun other key hmem => hcalled other key ((Multiset.mem_cons.1 hmem).resolve_left nofun),
      fun other key hmem => hheld other key ((Multiset.mem_cons.1 hmem).resolve_left nofun)⟩
    · rw [hawaited, hO.callIds, Claims.calls_cons_lease, Claims.calls_cons_lease]
    · rw [hawaited, hleases, SortedMap.keys_insert_old hl, hO.leaseIds, Claims.leases_cons_lease,
        Claims.leases_cons_lease]

/-- **A call that is dropped** takes its lease with it. -/
theorem Owned.abandon (hO : h.Owned (.call id k ::ₘ S)) (now : Nat) :
    (h.abandon now id).Owned S := by
  obtain ⟨c, hc⟩ := hO.exists_call
  rw [abandon_of_some now hc]
  exact (hO.endCall hc).dropLease now

/-! ## Changes that leave calls and leases alone -/

theorem Owned.of_parts (hO : h.Owned S) (hnext : h'.nextCall = h.nextCall ∧
      h'.nextLease = h.nextLease ∧ h'.nextHolder = h.nextHolder)
    (hcalls : h'.calls = h.calls) (hleases : h'.leases = h.leases)
    (hregistry : h'.registry = h.registry) : h'.Owned S :=
  hO.of_eq (hO.orderly.shrink (shrinks_of_eq hnext hcalls hleases hregistry))
    (hO.counted.of_eq hleases hregistry) (awaited_of_calls hcalls) hleases

theorem Owned.meters (hO : h.Owned S) (meters : Meters) : Owned { h with meters } S :=
  hO.of_parts ⟨rfl, rfl, rfl⟩ rfl rfl rfl

theorem Owned.updateHolder (hO : h.Owned S) (holder : Nat) (f : Holder → Holder) :
    (h.updateHolder holder f).Owned S :=
  hO.of_parts ⟨rfl, rfl, rfl⟩ rfl rfl rfl

theorem Owned.setPhase (hO : h.Owned S) (id : Nat) (phase : CallPhase) :
    (h.setPhase id phase).Owned S :=
  hO.of_eq (hO.orderly.shrink (shrinks_setPhase h id phase)) (hO.counted.of_eq rfl rfl)
    (awaited_setPhase h id phase) rfl

/-- **Evictions** do not touch what is owned. -/
theorem Owned.culls (hO : h.Owned S) (hculls : Culls h h') : h'.Owned S := by
  have hkeeps := Culls.keeps hculls hO.orderly hO.counted
  exact hO.of_eq hkeeps.orderly hkeeps.counted (awaited_of_calls hkeeps.calls) hkeeps.leases

theorem Owned.closeAll (hO : h.Owned S) : h.closeAll.Owned S := by
  obtain ⟨interest, holders, meters, heq⟩ := h.closeAll_eq
  have hmove : Move h h.closeAll := .closeAll h
  exact hO.of_eq (hmove.orderly hO.orderly) (hmove.counted hO.orderly hO.counted)
    (awaited_of_calls (by rw [heq])) (by rw [heq])

/-! ## Calls -/

/-- A call with a lease, both with new numbers. -/
theorem Owned.join (hO : h.Owned S) {holder refs : Nat} (hj : Joins h h' key holder refs)
    (hc : h'.Counted) : h'.Owned (.call h.nextCall (some key) ::ₘ S) := by
  have hawaited : h'.awaited = h.awaited.insert h.nextCall h.nextLease := by
    obtain ⟨phase, began, hcalls⟩ := hj.calls
    refine SortedMap.ext_find? fun other => ?_
    rw [find?_awaited, hcalls, SortedMap.find?_insert, SortedMap.find?_insert, find?_awaited]
    split <;> rfl
  have hnewCall : h.awaited.find? h.nextCall = none := by
    rw [find?_awaited]
    cases hfind : h.calls.find? h.nextCall with
    | none => rfl
    | some c => exact absurd (hO.orderly.call_lt _ c hfind) (Nat.lt_irrefl _)
  have hnewLease : h.leases.find? h.nextLease = none := by
    cases hfind : h.leases.find? h.nextLease with
    | none => rfl
    | some l => exact absurd (hO.orderly.lease_lt _ l hfind) (Nat.lt_irrefl _)
  constructor
  case orderly => exact hO.orderly.join hj
  case counted => exact hc
  case callIds =>
    rw [hawaited, SortedMap.keys_insert_new hnewCall, hO.callIds, Claims.calls_cons_call]
  case leaseIds =>
    rw [hj.leases, hawaited, SortedMap.keys_insert_new hnewLease,
      SortedMap.values_insert_new hnewCall, hO.leaseIds, Claims.leases_cons_call, Multiset.cons_add]
  case called =>
    intro id other hmem
    rcases Multiset.mem_cons.1 hmem with heq | hmem
    · cases heq
      refine ⟨h.nextLease, ⟨key, holder, false⟩, ?_, hj.find?_nextLease, rfl⟩
      rw [hawaited, SortedMap.find?_insert, if_pos rfl]
    · obtain ⟨lease, l, hlease, hl, hkey⟩ := hO.called id other hmem
      refine ⟨lease, l, ?_, hj.lease_kept hO.orderly hl, hkey⟩
      rw [hawaited, SortedMap.find?_insert, if_neg, hlease]
      rintro rfl
      cases hnewCall.symm.trans hlease
  case held =>
    intro id other hmem
    obtain ⟨l, hl, hkey⟩ := hO.held id other ((Multiset.mem_cons.1 hmem).resolve_left nofun)
    exact ⟨l, hj.lease_kept hO.orderly hl, hkey⟩

theorem call_snd (h : Hub) (now time : Nat) (key : TreeKey) :
    (h.call now time key).2 = h.nextCall := by
  unfold call takeLease
  cases (h.track now key).openSlot? key <;> rfl

/-- **A call for a lease** belongs to whoever called. -/
theorem Owned.call (hO : h.Owned S) (now time : Nat) (key : TreeKey) :
    (h.call now time key).1.Owned (.call (h.call now time key).2 (some key) ::ₘ S) := by
  obtain ⟨holder, refs, hj, -⟩ := hO.orderly.call_joins now time key
  rw [call_snd]
  exact hO.join hj (hO.counted.call hO.orderly now time key)

/-- What whoever asked for a lease owns: the call, unless it was refused. -/
def claimsOfRequest (tree : Option TreeKey) : Except Failure Nat → Claims
  | .ok call => {.call call tree}
  | .error _ => 0

/-- What the owner of a call owns after a look at it: still the call, or its lease, or nothing if it
failed. -/
def claimsOfLook (call : Nat) (tree : Option TreeKey) : Option (Except Failure Nat) → Claims
  | none => {.call call tree}
  | some (.ok lease) => {.lease lease tree}
  | some (.error _) => 0

theorem Owned.request (hO : h.Owned S) (now time : Nat) (key : TreeKey) :
    (h.request now time key).1.Owned
      (claimsOfRequest (some key) (h.request now time key).2 + S) := by
  unfold Hub.request
  split
  · exact hO.call now time key
  · exact (Multiset.zero_add S).symm ▸ hO

/-- **A call that fails** takes its lease with it. -/
theorem Owned.fail (hO : h.Owned (.call id k ::ₘ S)) (now : Nat) (failure : Failure) :
    (h.fail now id failure).Owned S := by
  obtain ⟨c, hc⟩ := hO.exists_call
  obtain ⟨l, hl, -⟩ := hO.orderly.awaits id c hc
  obtain ⟨meters, heq⟩ := fail_eq now failure hc hl
  rw [heq]
  exact ((hO.meters meters).abandon now).culls (evictFailed_culls _ _ _)

theorem Owned.succeed (hO : h.Owned (.call id k ::ₘ S)) {c : Call}
    (hc : h.calls.find? id = some c) : (h.succeed id).Owned (.lease c.lease k ::ₘ S) := by
  unfold Hub.succeed
  rw [hc]
  dsimp only
  split
  · exact (hO.meters _).endCall hc
  · exact hO.endCall hc

/-- **The start of a holder**: the call fails, or waits on. -/
theorem Owned.launch (hO : h.Owned (.call id k ::ₘ S)) (now time : Nat)
    (watched : Except StoreError Unit) :
    (h.launch now time id watched).1.Owned
      (claimsOfLook id k ((h.launch now time id watched).2.map .error) + S) := by
  unfold Hub.launch
  split
  · exact hO
  · rename_i c l _
    cases watched with
    | error e =>
      rw [Option.map_some, claimsOfLook, Multiset.zero_add]
      exact ((hO.updateHolder l.holder Holder.start).updateHolder l.holder Holder.close).fail now _
    | ok _ => exact (hO.updateHolder l.holder Holder.start).setPhase id _

/-- **A look at a call**: it waits on, or it leaves its lease to its owner, or it failed. -/
theorem Owned.tryEnd (hO : h.Owned (.call id k ::ₘ S)) (now time : Nat) :
    (h.tryEnd now time id).1.Owned (claimsOfLook id k (h.tryEnd now time id).2 + S) := by
  obtain ⟨c, hc⟩ := hO.exists_call
  unfold Hub.tryEnd
  rw [hc]
  dsimp only
  split
  · exact hO
  · exact hO.succeed hc
  · rename_i failure _
    rw [claimsOfLook, Multiset.zero_add]
    exact hO.fail now failure

end Hub

end Treecast
