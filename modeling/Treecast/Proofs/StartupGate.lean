import Treecast.Proofs.Evictions

/-!
# Permits at the startup gate

Of a hub only the gate, the calls that have not returned and the number of the next call matter
here (`Hub.Desk`).  All that an act can do to them is in `Hub.Pass`: a call comes or goes, is let
through, waits in line, or starts its holder.

Calls are numbered as they come.  The line holds the numbers of the calls that wait, in order, and
every call with a permit came before every call that waits; that invariant is what makes the gate
fair.

## Results

* `Hub.act_pass`: what an act can do to the gate and the calls.
* `Hub.launch_deadline`: the wait at the gate is taken off the time for the load.
* `Hub.Pass.gated`, `Hub.gated_run`: the invariant of the gate, along one act and along a run.
* `Hub.Pass.fate`: what an act can make of a call, how a call parts with its permit, and what a call
  without one leaves behind.
* `Hub.permits_run`: permits are conserved, given out in the order of the calls, and returned one
  by one.
-/

set_option autoImplicit false

namespace Treecast

/-- Whether a call in that phase stands in line for a permit. -/
def CallPhase.inLine : CallPhase → Bool
  | .waiting _ => true
  | _ => false

/-- How many of some calls hold a permit. -/
def permitsOf (calls : SortedMap Nat Call) : Nat := calls.values.countP (·.phase.hasPermit)

theorem permitsOf_of_find? {calls : SortedMap Nat Call} {id : Nat} {c : Call}
    (hc : calls.find? id = some c) :
    permitsOf calls = permitsOf (calls.erase id) + if c.phase.hasPermit then 1 else 0 :=
  SortedMap.countP_values_of_find? hc (·.phase.hasPermit)

theorem permitsOf_insert (calls : SortedMap Nat Call) (id : Nat) (c : Call) :
    permitsOf (calls.insert id c) =
      permitsOf (calls.erase id) + if c.phase.hasPermit then 1 else 0 :=
  SortedMap.countP_values_insert calls id c (·.phase.hasPermit)

theorem permitsOf_insert_new {calls : SortedMap Nat Call} {id : Nat}
    (hnew : calls.find? id = none) (c : Call) :
    permitsOf (calls.insert id c) = permitsOf calls + if c.phase.hasPermit then 1 else 0 := by
  rw [permitsOf_insert, SortedMap.erase_of_find?_eq_none hnew]

namespace Hub

/-! ## What acts do at the gate -/

/-- The part of a hub that calls for a permit are about. -/
structure Desk where
  gate : Gate
  calls : SortedMap Nat Call
  /-- The number of the next call. -/
  next : Nat

/-- The gate of a hub, its calls, and the number of the next one. -/
def desk (h : Hub) : Desk := ⟨h.gate, h.calls, h.nextCall⟩

/-- All that one act can do at the gate. -/
inductive Pass (d : Desk) : Desk → Prop
  | aside : Pass d d
  /-- A call comes for a holder that another one created. -/
  | follow (lease deadline began : Nat) :
      Pass d ⟨d.gate, d.calls.insert d.next ⟨lease, .following deadline, began⟩, d.next + 1⟩
  /-- A call comes that created its holder, and finds a permit. -/
  | letIn (lease began : Nat) (hfree : 0 < d.gate.free) :
      Pass d ⟨⟨d.gate.free - 1, d.gate.waiting⟩, d.calls.insert d.next ⟨lease, .admitted, began⟩,
        d.next + 1⟩
  /-- A call comes that created its holder, and finds no permit. -/
  | queue (lease deadline began : Nat) (hfree : d.gate.free = 0) :
      Pass d ⟨⟨d.gate.free, d.gate.waiting ++ [d.next]⟩,
        d.calls.insert d.next ⟨lease, .waiting deadline, began⟩, d.next + 1⟩
  /-- A call starts its holder. -/
  | load {id : Nat} {c : Call} (deadline : Nat) (hc : d.calls.find? id = some c)
      (hp : c.phase = .admitted) :
      Pass d ⟨d.gate, d.calls.modify id fun c => { c with phase := .loading deadline }, d.next⟩
  /-- A call goes that had nothing to do with the gate. -/
  | depart {id : Nat} {c : Call} (hc : d.calls.find? id = some c)
      (hp : c.phase.hasPermit = false) (hline : c.phase.inLine = false) :
      Pass d ⟨d.gate, d.calls.erase id, d.next⟩
  /-- A call goes while it stands in line. -/
  | giveUp {id : Nat} {c : Call} (hc : d.calls.find? id = some c) (hline : c.phase.inLine = true) :
      Pass d ⟨⟨d.gate.free, d.gate.waiting.filter (· ≠ id)⟩, d.calls.erase id, d.next⟩
  /-- A call goes with a permit that nobody waits for. -/
  | giveBack {id : Nat} {c : Call} (hc : d.calls.find? id = some c)
      (hp : c.phase.hasPermit = true) (hnone : d.gate.waiting = []) :
      Pass d ⟨⟨d.gate.free + 1, []⟩, d.calls.erase id, d.next⟩
  /-- A call goes with a permit, which the first in line gets. -/
  | handOver {id first : Nat} {c : Call} {rest : List Nat} (hc : d.calls.find? id = some c)
      (hp : c.phase.hasPermit = true) (hline : d.gate.waiting = first :: rest) :
      Pass d ⟨⟨d.gate.free, rest⟩, grant (d.calls.erase id) (some first), d.next⟩

variable {h h' : Hub} {d d' : Desk} {id now : Nat} {c : Call} {permits : Nat}

/-- A call that ends passes the gate. -/
theorem endCall_pass (hc : h.calls.find? id = some c) : Pass h.desk (h.endCall id c).desk := by
  have hpermit : c.phase.hasPermit = true →
      Pass h.desk (Hub.returnPermit { h with calls := h.calls.erase id }).desk := by
    intro hp
    cases hline : h.gate.waiting with
    | nil =>
      have : Hub.returnPermit { h with calls := h.calls.erase id } =
          { h with calls := h.calls.erase id, gate := ⟨h.gate.free + 1, []⟩ } := by
        simp only [returnPermit, Gate.leave, hline]
      rw [this]
      exact .giveBack hc hp hline
    | cons first rest =>
      have : Hub.returnPermit { h with calls := h.calls.erase id } =
          { h with
            calls := grant (h.calls.erase id) (some first), gate := ⟨h.gate.free, rest⟩ } := by
        simp only [returnPermit, Gate.leave, hline]
        rfl
      rw [this]
      exact .handOver hc hp hline
  unfold endCall leaveGate
  split
  · rename_i hp
    exact .giveUp hc (by rw [hp]; rfl)
  · rename_i hp
    exact hpermit (by rw [hp]; rfl)
  · rename_i hp
    exact hpermit (by rw [hp]; rfl)
  · rename_i hp
    exact .depart hc (by rw [hp]; rfl) (by rw [hp]; rfl)

theorem desk_releaseLease (h : Hub) (now id : Nat) : (h.releaseLease now id).desk = h.desk := by
  unfold releaseLease
  split
  · rfl
  split
  · rfl
  dsimp only
  split
  · split
    · rw [dropReference_eq]
      split <;> rfl
    · rfl
  · rfl

theorem desk_dropLease (h : Hub) (now id : Nat) : (h.dropLease now id).desk = h.desk :=
  h.desk_releaseLease now id

theorem desk_release (h : Hub) (now : Nat) (key : TreeKey) : (h.release now key).desk = h.desk := by
  unfold release
  split
  · rw [dropReference_eq]
    split <;> rfl
  · rfl

/-- Evictions do not touch the gate. -/
theorem Culls.desk_eq (hculls : Culls h h') : h'.desk = h.desk := by
  induction hculls with
  | refl => rfl
  | tail _ hlast ih =>
    cases hlast with
    | aside interest meters => exact ih
    | evict hs hzero => exact ih

theorem desk_evictFailed (h : Hub) (key : TreeKey) (holder : Nat) :
    (h.evictFailed key holder).desk = h.desk :=
  (h.evictFailed_culls key holder).desk_eq

theorem desk_closeAll (h : Hub) : h.closeAll.desk = h.desk := by
  obtain ⟨interest, holders, meters, heq⟩ := h.closeAll_eq
  rw [heq]
  rfl

theorem abandon_pass (h : Hub) (now id : Nat) : Pass h.desk (h.abandon now id).desk := by
  cases hc : h.calls.find? id with
  | none =>
    rw [abandon_of_none now hc]
    exact .aside
  | some c =>
    rw [abandon_of_some now hc, desk_dropLease]
    exact endCall_pass hc

theorem fail_pass (h : Hub) (now id : Nat) (failure : Failure) :
    Pass h.desk (h.fail now id failure).desk := by
  unfold fail
  split
  · exact .aside
  · rename_i c hc
    have hend : ∀ h' : Hub, h'.desk = h.desk → h'.calls.find? id = some c →
        Pass h.desk ((h'.endCall id c).dropLease now c.lease).desk := by
      intro h' hdesk hc'
      rw [desk_dropLease, ← hdesk]
      exact endCall_pass hc'
    split
    · dsimp only
      split
      · rw [desk_evictFailed]
        exact hend (h.count _) rfl hc
      · exact hend (h.count _) rfl hc
    · dsimp only
      split
      · rw [desk_evictFailed]
        exact hend h rfl hc
      · exact hend h rfl hc

theorem tryEnd_pass (h : Hub) (now time id : Nat) : Pass h.desk (h.tryEnd now time id).1.desk := by
  unfold tryEnd
  split
  · exact .aside
  · rename_i c hc
    split
    · exact .aside
    · rw [succeed, hc]
      dsimp only
      split
      · exact endCall_pass (h := h.count .initSamples) hc
      · exact endCall_pass hc
    · exact h.fail_pass now id _

theorem launch_pass (h : Hub) (now time id : Nat) (watched : Except StoreError Unit)
    (hadmitted : h.isAdmitted id = true) : Pass h.desk (h.launch now time id watched).1.desk := by
  unfold launch
  split
  · exact .aside
  · rename_i c lease hlease
    have hc := (leasedCall?_eq_some_iff.1 hlease).1
    have hp : c.phase = .admitted := by
      rw [isAdmitted, hc] at hadmitted
      exact of_decide_eq_true hadmitted
    cases watched with
    | error e =>
      exact fail_pass ((h.updateHolder lease.holder Holder.start).closeHolder lease.holder) now id _
    | ok _ => exact .load _ hc hp

/-- A call has one time for all its waiting.  Where the clock runs with the timers, what is left for
the load after a wait at the gate ends when the wait of a call that never stood in line would. -/
theorem launch_deadline {h : Hub} {c : Call} {lease : Lease} {id now time arrival : Nat}
    (hcall : h.leasedCall? id = some (c, lease))
    (hclock : now = c.began + ticksPerMilli * (time - arrival)) (harrival : arrival ≤ time)
    (hontime : time ≤ h.deadlineAt arrival) :
    (h.launch now time id (.ok ())).1.calls.find? id =
      some { c with phase := .loading (h.deadlineAt arrival) } := by
  have hspent : (now - c.began) / ticksPerMilli = time - arrival := by
    rw [hclock, Nat.add_sub_cancel_left]
    exact Nat.mul_div_cancel_left _ (by decide)
  have hleft : time + h.timeLeft now c.began = h.deadlineAt arrival := by
    rw [timeLeft, hspent]
    rw [deadlineAt] at hontime ⊢
    omega
  have hc : (h.updateHolder lease.holder Holder.start).calls.find? id = some c :=
    (leasedCall?_eq_some_iff.1 hcall).1
  rw [launch, hcall]
  dsimp only
  rw [setPhase, SortedMap.find?_modify, if_pos rfl, hc]
  exact congrArg (fun deadline => some { c with phase := .loading deadline }) hleft

/-- A call for a lease follows another one, or comes to the gate. -/
theorem call_pass (h : Hub) (now time : Nat) (key : TreeKey) :
    Pass h.desk (h.call now time key).1.desk := by
  cases ho : h.openSlot? key with
  | some s =>
    obtain ⟨meters, heq⟩ := call_of_open now time ho
    rw [heq]
    exact .follow h.nextLease (h.deadlineAt time) now
  | none =>
    have ho' : (h.track now key).openSlot? key = none := ho
    have hdesk : (h.call now time key).1.desk =
        ⟨(h.gate.enter h.nextCall).1, h.calls.insert h.nextCall ⟨h.nextLease,
          if (h.gate.enter h.nextCall).2 then .admitted else .waiting (h.deadlineAt time), now⟩,
          h.nextCall + 1⟩ := by
      unfold call takeLease
      rw [ho']
      rfl
    rw [hdesk]
    by_cases hfree : h.gate.free = 0
    · rw [Gate.enter, if_pos hfree]
      exact .queue h.nextLease (h.deadlineAt time) now hfree
    · rw [Gate.enter, if_neg hfree]
      exact .letIn h.nextLease now (Nat.pos_of_ne_zero hfree)

/-- **What every act does at the gate.** -/
theorem act_pass (settings : SweepSettings) (h : Hub) (a : Act) :
    Pass h.desk (h.act settings a).desk := by
  have hsame : ∀ h' : Hub, h'.desk = h.desk → Pass h.desk h'.desk := by
    intro h' heq
    rw [heq]
    exact .aside
  cases a with
  | request now time key =>
    simp only [act, request]
    split
    · exact h.call_pass now time key
    · exact .aside
  | launch now time call watched =>
    dsimp only [act]
    split
    · rename_i hadmitted
      exact h.launch_pass now time call _ hadmitted
    · exact .aside
  | tryEnd now time call => exact h.tryEnd_pass now time call
  | abandon now call => exact h.abandon_pass now call
  | evictFailed key holder => exact hsame _ (h.desk_evictFailed key holder)
  | releaseLease now lease =>
    dsimp only [act]
    split
    · exact .aside
    · exact hsame _ (h.desk_releaseLease now lease)
  | dropLease now lease =>
    dsimp only [act]
    split
    · exact .aside
    · exact hsame _ (h.desk_dropLease now lease)
  | release now key => exact hsame _ (h.desk_release now key)
  | track now key => exact .aside
  | sweep condition now => exact hsame _ (h.sweep_culls settings condition now).desk_eq
  | evict key => exact hsame _ (h.tryEvict_culls key).desk_eq
  | feed holder events => exact .aside
  | close holder => exact .aside
  | closeAll => exact hsame _ h.desk_closeAll

/-! ## The invariant of the gate -/

/-- Every permit is free or held by a call.  The line holds the calls that wait, in the order in
which they came; while somebody waits no permit is free, and whoever has one came before. -/
structure Gated (permits : Nat) (d : Desk) : Prop where
  conserved : d.gate.free + permitsOf d.calls = permits
  fresh : ∀ id c, d.calls.find? id = some c → id < d.next
  line : ∀ id, id ∈ d.gate.waiting ↔ ∃ c, d.calls.find? id = some c ∧ c.phase.inLine = true
  sorted : d.gate.waiting.Pairwise (· < ·)
  idle : 0 < d.gate.free → d.gate.waiting = []
  before : ∀ id ∈ d.gate.waiting, ∀ other c, d.calls.find? other = some c →
    c.phase.hasPermit = true → other < id

theorem gated_create (settings : HubSettings) :
    Gated settings.startupConcurrency (create settings).desk where
  conserved := rfl
  fresh := nofun
  line := by
    intro id
    simp [desk, create, Gate.ofSize]
  sorted := .nil
  idle _ := rfl
  before := nofun

theorem hasPermit_eq_false_of_inLine {phase : CallPhase} (h : phase.inLine = true) :
    phase.hasPermit = false := by
  cases phase <;> first | rfl | cases h

theorem Gated.find?_next (hg : Gated permits d) : d.calls.find? d.next = none := by
  cases hc : d.calls.find? d.next with
  | none => rfl
  | some c => exact absurd (hg.fresh d.next c hc) (Nat.lt_irrefl _)

/-- A call that goes without a permit. -/
theorem permitsOf_erase_of_not {calls : SortedMap Nat Call} (hc : calls.find? id = some c)
    (hp : c.phase.hasPermit = false) : permitsOf (calls.erase id) = permitsOf calls := by
  have := permitsOf_of_find? hc
  simp only [hp, Bool.false_eq_true, if_false] at this
  omega

/-- A call that goes with its permit. -/
theorem permitsOf_erase_of_permit {calls : SortedMap Nat Call} (hc : calls.find? id = some c)
    (hp : c.phase.hasPermit = true) : permitsOf (calls.erase id) + 1 = permitsOf calls := by
  have := permitsOf_of_find? hc
  simp only [hp, if_true] at this
  omega

/-- A call comes: it takes a free permit, or its place at the end of the line, or neither. -/
theorem Gated.arrive (hg : Gated permits d) {gate : Gate}
    (hfree : gate.free + (if c.phase.hasPermit then 1 else 0) = d.gate.free)
    (hwaiting : gate.waiting = d.gate.waiting ++ if c.phase.inLine then [d.next] else [])
    (hidle : 0 < gate.free → gate.waiting = []) :
    Gated permits ⟨gate, d.calls.insert d.next c, d.next + 1⟩ := by
  have hnew := hg.find?_next
  have hbelow : ∀ id ∈ d.gate.waiting, id < d.next := by
    intro id hid
    obtain ⟨c', hc', -⟩ := (hg.line id).1 hid
    exact hg.fresh id c' hc'
  have hmem : ∀ id, id ∈ gate.waiting ↔
      id ∈ d.gate.waiting ∨ id = d.next ∧ c.phase.inLine = true := by
    intro id
    rw [hwaiting, List.mem_append]
    cases c.phase.inLine <;> simp
  refine ⟨?_, fun id c' hc' => ?_, fun id => ?_, ?_, hidle, fun id hid other c' hc' hp => ?_⟩
  · rw [permitsOf_insert_new hnew]
    have := hg.conserved
    dsimp only
    omega
  · rw [SortedMap.find?_insert] at hc'
    split at hc'
    · rename_i heq
      exact heq ▸ Nat.lt_succ_self _
    · exact Nat.lt_succ_of_lt (hg.fresh id c' hc')
  · rw [hmem, SortedMap.find?_insert, hg.line]
    by_cases heq : id = d.next
    · subst heq
      simp [hnew]
    · simp [heq]
  · dsimp only
    rw [hwaiting]
    refine List.pairwise_append.2 ⟨hg.sorted, ?_, fun id hid other hother => ?_⟩
    · split
      · exact List.pairwise_singleton _ _
      · exact .nil
    · split at hother
      · rw [List.mem_singleton.1 hother]
        exact hbelow id hid
      · cases hother
  · rw [SortedMap.find?_insert] at hc'
    rcases (hmem id).1 hid with hid | ⟨rfl, hline⟩
    · split at hc'
      · -- a permit was free, so nobody was in line
        cases hc'
        rw [hp, if_pos rfl] at hfree
        rw [hg.idle (by omega)] at hid
        cases hid
      · exact hg.before id hid other c' hc' hp
    · split at hc'
      · cases hc'
        rw [hasPermit_eq_false_of_inLine hline] at hp
        cases hp
      · exact hg.fresh other c' hc'

/-- A call goes that is the only one to be concerned. -/
theorem Gated.leave (hg : Gated permits d) {free : Nat}
    (hfree : free + permitsOf (d.calls.erase id) = permits)
    (hidle : 0 < free → d.gate.waiting.filter (· ≠ id) = []) :
    Gated permits ⟨⟨free, d.gate.waiting.filter (· ≠ id)⟩, d.calls.erase id, d.next⟩ := by
  refine ⟨hfree, fun other c' hc' => ?_, fun other => ?_, hg.sorted.filter _, hidle,
    fun other hother holder c' hc' hp => ?_⟩
  · rw [SortedMap.find?_erase] at hc'
    split at hc'
    · cases hc'
    · exact hg.fresh other c' hc'
  · rw [SortedMap.find?_erase, List.mem_filter, hg.line]
    by_cases heq : other = id <;> simp [heq]
  · rw [SortedMap.find?_erase] at hc'
    split at hc'
    · cases hc'
    · exact hg.before other (List.mem_filter.1 hother).1 holder c' hc' hp

/-- A call that does not wait is not in line. -/
theorem Gated.ne_of_mem_waiting (hg : Gated permits d) (hc : d.calls.find? id = some c)
    (hline : c.phase.inLine = false) {other : Nat} (hother : other ∈ d.gate.waiting) :
    other ≠ id := by
  rintro rfl
  obtain ⟨c', hc', hline'⟩ := (hg.line other).1 hother
  rw [hc] at hc'
  cases hc'
  rw [hline] at hline'
  cases hline'

/-- A call that does not wait leaves the line as it is. -/
theorem Gated.filter_waiting (hg : Gated permits d) (hc : d.calls.find? id = some c)
    (hline : c.phase.inLine = false) : d.gate.waiting.filter (· ≠ id) = d.gate.waiting := by
  refine List.filter_eq_self.2 fun other hother => ?_
  rw [decide_eq_true_eq]
  exact hg.ne_of_mem_waiting hc hline hother

theorem inLine_eq_false_of_hasPermit {phase : CallPhase} (h : phase.hasPermit = true) :
    phase.inLine = false := by
  cases phase <;> first | rfl | cases h

/-- The calls after one went and another one got its permit. -/
theorem find?_handOver {calls : SortedMap Nat Call} {first : Nat} {next : Call}
    (hnext : calls.find? first = some next) (other : Nat) :
    (grant (calls.erase id) (some first)).find? other =
      if other = id then none
      else if other = first then some { next with phase := .admitted }
      else calls.find? other := by
  rw [find?_grant, SortedMap.find?_erase]
  by_cases hid : other = id
  · simp [hid]
  · by_cases heq : other = first
    · subst heq
      simp [hid, hnext]
    · simp [hid, heq, Ne.symm heq]

/-- The permit is handed over, so there are as many as before. -/
theorem permitsOf_handOver {calls : SortedMap Nat Call} {first : Nat} {next : Call}
    (hc : calls.find? id = some c) (hp : c.phase.hasPermit = true)
    (hnext : calls.find? first = some next) (hwaits : next.phase.inLine = true)
    (hne : first ≠ id) :
    permitsOf (grant (calls.erase id) (some first)) = permitsOf calls := by
  have hstill : (calls.erase id).find? first = some next := by
    rw [SortedMap.find?_erase, if_neg hne, hnext]
  have hinsert : grant (calls.erase id) (some first) =
      (calls.erase id).insert first { next with phase := .admitted } := by
    simp only [grant, SortedMap.modify, hstill]
  rw [hinsert, permitsOf_insert, ← permitsOf_erase_of_permit hc hp, permitsOf_of_find? hstill,
    hasPermit_eq_false_of_inLine hwaits]
  rfl

/-- A call goes and the first in line gets its permit. -/
theorem Gated.handOver (hg : Gated permits d) {first : Nat} {rest : List Nat}
    (hc : d.calls.find? id = some c) (hp : c.phase.hasPermit = true)
    (hline : d.gate.waiting = first :: rest) :
    Gated permits ⟨⟨d.gate.free, rest⟩, grant (d.calls.erase id) (some first), d.next⟩ := by
  have hsorted := hg.sorted
  rw [hline] at hsorted
  obtain ⟨hfirst, hrest⟩ := List.pairwise_cons.1 hsorted
  have hwaiting : ∀ other, other ∈ first :: rest → other ∈ d.gate.waiting ∧ other ≠ id := by
    intro other hother
    rw [← hline] at hother
    exact ⟨hother, hg.ne_of_mem_waiting hc (inLine_eq_false_of_hasPermit hp) hother⟩
  obtain ⟨hmem, hne⟩ := hwaiting first List.mem_cons_self
  obtain ⟨next, hnext, hwaits⟩ := (hg.line first).1 hmem
  constructor
  case conserved =>
    show d.gate.free + permitsOf (grant (d.calls.erase id) (some first)) = permits
    rw [permitsOf_handOver hc hp hnext hwaits hne]
    exact hg.conserved
  case fresh =>
    intro other c' hc'
    rw [find?_handOver hnext] at hc'
    split at hc'
    · cases hc'
    · split at hc'
      · rename_i heq
        exact heq ▸ hg.fresh first next hnext
      · exact hg.fresh other c' hc'
  case line =>
    intro other
    rw [find?_handOver hnext]
    constructor
    · intro hother
      obtain ⟨hstands, hid⟩ := hwaiting other (List.mem_cons_of_mem first hother)
      obtain ⟨c', hc', hl⟩ := (hg.line other).1 hstands
      have hnot : other ≠ first := Nat.ne_of_gt (hfirst other hother)
      exact ⟨c', by rw [if_neg hid, if_neg hnot, hc'], hl⟩
    · rintro ⟨c', hc', hl⟩
      split at hc'
      · cases hc'
      · split at hc'
        · cases hc'
          cases hl
        · rename_i hnot
          have hstands := (hg.line other).2 ⟨c', hc', hl⟩
          rw [hline] at hstands
          exact (List.mem_cons.1 hstands).resolve_left hnot
  case sorted => exact hrest
  case idle =>
    intro hfree
    have hnobody := hg.idle hfree
    rw [hline] at hnobody
    cases hnobody
  case before =>
    intro other hother holder c' hc' hp'
    rw [find?_handOver hnext] at hc'
    split at hc'
    · cases hc'
    · split at hc'
      · rename_i heq
        exact heq ▸ hfirst other hother
      · exact hg.before other (hwaiting other (List.mem_cons_of_mem first hother)).1 holder c' hc'
          hp'

/-- A call starts its holder and keeps its permit. -/
theorem Gated.load (hg : Gated permits d) (deadline : Nat) (hc : d.calls.find? id = some c)
    (hp : c.phase = .admitted) :
    Gated permits
      ⟨d.gate, d.calls.modify id fun c => { c with phase := .loading deadline }, d.next⟩ := by
  have hinsert : (d.calls.modify id fun c => { c with phase := .loading deadline }) =
      d.calls.insert id { c with phase := .loading deadline } := by
    simp only [SortedMap.modify, hc]
  have hpermit : c.phase.hasPermit = true := by
    rw [hp]
    rfl
  rw [hinsert]
  refine ⟨?_, fun other c' hc' => ?_, fun other => ?_, hg.sorted, hg.idle,
    fun other hother holder c' hc' hp' => ?_⟩
  · dsimp only
    rw [permitsOf_insert, ← hg.conserved, permitsOf_of_find? hc, hpermit]
    rfl
  · rw [SortedMap.find?_insert] at hc'
    split at hc'
    · rename_i heq
      exact heq ▸ hg.fresh id c hc
    · exact hg.fresh other c' hc'
  · dsimp only
    rw [hg.line, SortedMap.find?_insert]
    by_cases heq : other = id
    · subst heq
      simp [hc, hp, CallPhase.inLine]
    · simp [heq]
  · rw [SortedMap.find?_insert] at hc'
    split at hc'
    · rename_i heq
      exact heq ▸ hg.before other hother id c hc hpermit
    · exact hg.before other hother holder c' hc' hp'

/-- **What passes the gate keeps its invariant.** -/
theorem Pass.gated (hpass : Pass d d') (hg : Gated permits d) : Gated permits d' := by
  cases hpass with
  | aside => exact hg
  | follow lease deadline began => exact hg.arrive rfl (List.append_nil _).symm hg.idle
  | letIn lease began hfree =>
    have hnone := hg.idle hfree
    refine hg.arrive (Nat.sub_add_cancel hfree) (List.append_nil _).symm fun _ => hnone
  | queue lease deadline began hfree =>
    exact hg.arrive rfl rfl fun hpos => absurd hfree (Nat.ne_of_gt hpos)
  | load deadline hc hp => exact hg.load deadline hc hp
  | depart hc hp hline =>
    have hkept := permitsOf_erase_of_not hc hp ▸ hg.conserved
    have hleft := hg.leave hkept
    rw [hg.filter_waiting hc hline] at hleft
    exact hleft hg.idle
  | giveUp hc hline =>
    have hp := hasPermit_eq_false_of_inLine hline
    refine hg.leave (permitsOf_erase_of_not hc hp ▸ hg.conserved) fun hfree => ?_
    rw [hg.idle hfree]
    rfl
  | giveBack hc hp hnone =>
    rename_i id c
    have hfree : d.gate.free + 1 + permitsOf (d.calls.erase id) = permits := by
      have := hg.conserved
      have := permitsOf_erase_of_permit hc hp
      omega
    have hgone := hg.leave hfree fun _ => by rw [hnone]; rfl
    rwa [hnone] at hgone
  | handOver hc hp hline => exact hg.handOver hc hp hline

/-- The invariant holds after every run. -/
theorem gated_run (settings : SweepSettings) (hub : HubSettings) (acts : List Act) :
    Gated hub.startupConcurrency ((create hub).run settings acts).desk :=
  run_induction (P := fun _ h => Gated hub.startupConcurrency h.desk) (gated_create hub)
    (fun _ a ih => (act_pass settings _ a).gated ih) acts

/-! ## What becomes of a call -/

/-- The call of that number is gone, and its permit is returned: it is free if nobody waits, and
otherwise the first in line has it.  Nothing else happens to any call. -/
def Returned (d d' : Desk) (id : Nat) : Prop :=
  d'.calls.find? id = none ∧
    ((d.gate.waiting = [] ∧ d'.gate = ⟨d.gate.free + 1, []⟩ ∧
        ∀ other, other ≠ id → d'.calls.find? other = d.calls.find? other) ∨
      ∃ first rest, d.gate.waiting = first :: rest ∧ d'.gate = ⟨d.gate.free, rest⟩ ∧
        ∀ other, other ≠ id → d'.calls.find? other =
          (d.calls.find? other).map fun c =>
            if first = other then { c with phase := .admitted } else c)

/-- The call of that number is gone, and no permit moves: the line is without it, and nothing
happens to any other call. -/
def Vanished (d d' : Desk) (id : Nat) : Prop :=
  d'.calls.find? id = none ∧ d'.gate = ⟨d.gate.free, d.gate.waiting.filter (· ≠ id)⟩ ∧
    ∀ other, other ≠ id → d'.calls.find? other = d.calls.find? other

/-- What one act can make of the call of a number. -/
inductive Fate (d d' : Desk) (id : Nat) : Prop
  | same (hsame : d'.calls.find? id = d.calls.find? id)
  | new (hid : id = d.next)
  | loads {c : Call} {deadline : Nat} (hc : d.calls.find? id = some c) (hp : c.phase = .admitted)
      (hc' : d'.calls.find? id = some { c with phase := .loading deadline })
  | admitted {c : Call} {rest : List Nat} (hc : d.calls.find? id = some c)
      (hwaiting : d.gate.waiting = id :: rest)
      (hc' : d'.calls.find? id = some { c with phase := .admitted })
  | leaves {c : Call} (hc : d.calls.find? id = some c) (hp : c.phase.hasPermit = true)
      (hreturned : Returned d d' id)
  | goes {c : Call} (hc : d.calls.find? id = some c) (hp : c.phase.hasPermit = false)
      (hvanished : Vanished d d' id)

/-- **What passes the gate makes one of a few things of every call.** -/
theorem Pass.fate (hpass : Pass d d') (hg : Gated permits d) (id : Nat) : Fate d d' id := by
  have hinsert : ∀ e : Call, id ≠ d.next →
      (d.calls.insert d.next e).find? id = d.calls.find? id :=
    fun e hne => (SortedMap.find?_insert ..).trans (if_neg hne)
  have herase : ∀ other, id ≠ other → (d.calls.erase other).find? id = d.calls.find? id :=
    fun other hne => (SortedMap.find?_erase ..).trans (if_neg hne)
  have hgone : (d.calls.erase id).find? id = none := (SortedMap.find?_erase ..).trans (if_pos rfl)
  have hothers : ∀ other, other ≠ id → (d.calls.erase id).find? other = d.calls.find? other :=
    fun other hne => (SortedMap.find?_erase ..).trans (if_neg hne)
  cases hpass with
  | aside => exact .same rfl
  | follow lease deadline began =>
    by_cases heq : id = d.next
    · exact .new heq
    · exact .same (hinsert _ heq)
  | letIn lease began hfree =>
    by_cases heq : id = d.next
    · exact .new heq
    · exact .same (hinsert _ heq)
  | queue lease deadline began hfree =>
    by_cases heq : id = d.next
    · exact .new heq
    · exact .same (hinsert _ heq)
  | load deadline he hadmitted =>
    rename_i other e
    by_cases heq : id = other
    · subst heq
      have hload : (d.calls.modify id fun c => { c with phase := .loading deadline }).find? id =
          some { e with phase := .loading deadline } := by
        rw [SortedMap.find?_modify, if_pos rfl, he]
        rfl
      exact .loads he hadmitted hload
    · exact .same ((SortedMap.find?_modify ..).trans (if_neg heq))
  | depart he hnot hline =>
    rename_i other e
    by_cases heq : id = other
    · subst heq
      exact .goes he hnot ⟨hgone, by rw [hg.filter_waiting he hline], hothers⟩
    · exact .same (herase other heq)
  | giveUp he hline =>
    rename_i other e
    by_cases heq : id = other
    · subst heq
      exact .goes he (hasPermit_eq_false_of_inLine hline) ⟨hgone, rfl, hothers⟩
    · exact .same (herase other heq)
  | giveBack he hp hnone =>
    rename_i other e
    by_cases heq : id = other
    · subst heq
      exact .leaves he hp ⟨hgone, .inl ⟨hnone, rfl, hothers⟩⟩
    · exact .same (herase other heq)
  | handOver he hp hwaiting =>
    rename_i other first e rest
    by_cases heq : id = other
    · subst heq
      refine .leaves he hp ⟨?_, .inr ⟨first, rest, hwaiting, rfl, fun other hne => ?_⟩⟩
      · simp [find?_grant]
      · simp [find?_grant, hne]
    · by_cases hfirst : id = first
      · subst hfirst
        obtain ⟨c, hc, -⟩ := (hg.line id).1 (hwaiting ▸ List.mem_cons_self)
        refine .admitted hc hwaiting ?_
        simp [find?_grant, heq, hc]
      · refine .same ?_
        simp [find?_grant, heq, Ne.symm hfirst]

/-- A call with a permit keeps it or is gone, and then the permit is returned. -/
theorem Fate.of_permit (hf : Fate d d' id) (hg : Gated permits d)
    (hc : d.calls.find? id = some c) (hp : c.phase.hasPermit = true) :
    (∃ c', d'.calls.find? id = some c' ∧ c'.phase.hasPermit = true) ∨ Returned d d' id := by
  cases hf with
  | same hsame => exact .inl ⟨c, hsame.trans hc, hp⟩
  | new hid => exact absurd hid (Nat.ne_of_lt (hg.fresh id c hc))
  | loads he hadmitted hc' => exact .inl ⟨_, hc', rfl⟩
  | admitted he hwaiting hc' => exact .inl ⟨_, hc', rfl⟩
  | leaves he hpe hreturned => exact .inr hreturned
  | goes he hnot hvanished =>
    cases hc.symm.trans he
    rw [hp] at hnot
    cases hnot

/-- A call that is gone without having had a permit leaves no trace but its place in line. -/
theorem Fate.of_gone (hf : Fate d d' id) (hg : Gated permits d)
    (hc : d.calls.find? id = some c) (hp : c.phase.hasPermit = false)
    (hgone : d'.calls.find? id = none) : Vanished d d' id := by
  cases hf with
  | same hsame => exact nomatch (hsame.trans hc).symm.trans hgone
  | new hid => exact absurd hid (Nat.ne_of_lt (hg.fresh id c hc))
  | loads he hadmitted hc' => exact nomatch hc'.symm.trans hgone
  | admitted he hwaiting hc' => exact nomatch hc'.symm.trans hgone
  | leaves he hpe hreturned =>
    cases hc.symm.trans he
    rw [hp] at hpe
    cases hpe
  | goes he hnot hvanished => exact hvanished

/-- A call that waited and now has a permit was the first in line. -/
theorem Fate.of_admitted (hf : Fate d d' id) (hg : Gated permits d) {c' : Call}
    (hc : d.calls.find? id = some c) (hline : c.phase.inLine = true)
    (hc' : d'.calls.find? id = some c') (hp : c'.phase.hasPermit = true) :
    ∃ rest, d.gate.waiting = id :: rest := by
  have hnot := hasPermit_eq_false_of_inLine hline
  cases hf with
  | same hsame =>
    cases hc'.symm.trans (hsame.trans hc)
    rw [hnot] at hp
    cases hp
  | new hid => exact absurd hid (Nat.ne_of_lt (hg.fresh id c hc))
  | loads he hadmitted hload =>
    cases hc.symm.trans he
    rw [hadmitted] at hline
    cases hline
  | admitted he hwaiting hadmit => exact ⟨_, hwaiting⟩
  | leaves he hpe hreturned => exact nomatch hc'.symm.trans hreturned.1
  | goes he hpe hvanished => exact nomatch hc'.symm.trans hvanished.1

/-- A call that was not there has the next number. -/
theorem Fate.of_new (hf : Fate d d' id) {c' : Call} (hnone : d.calls.find? id = none)
    (hc' : d'.calls.find? id = some c') : id = d.next := by
  cases hf with
  | same hsame => exact nomatch hnone.symm.trans (hsame.symm.trans hc')
  | new hid => exact hid
  | loads he hadmitted hload => exact nomatch hnone.symm.trans he
  | admitted he hwaiting hadmit => exact nomatch hnone.symm.trans he
  | leaves he hpe hreturned => exact nomatch hnone.symm.trans he
  | goes he hpe hvanished => exact nomatch hnone.symm.trans he

/-! ## Runs -/

/-- **The gate conserves its permits and is fair.**  After every run the free permits and those
that calls hold are all that there are, so no more calls than that are between the gate and their
end; no permit is free while a call waits, and whoever has a permit came before whoever waits.  In
the next act a call that comes has the next number, a call that waited gets a permit only as the
first in line, a call with a permit keeps it until it is gone, which returns just that permit, and
no other call that goes returns one. -/
theorem permits_run (hub : HubSettings) (settings : SweepSettings) (acts : List Act) :
    let h := (create hub).run settings acts
    (h.gate.free + permitsOf h.calls = hub.startupConcurrency ∧
      permitsOf h.calls ≤ hub.startupConcurrency) ∧
    (∀ id c, h.calls.find? id = some c → c.phase.inLine = true →
      h.gate.free = 0 ∧ ∀ other e, h.calls.find? other = some e → e.phase.hasPermit = true →
        other < id) ∧
    ∀ a id, let h' := h.act settings a
      (h.calls.find? id = none → ∀ c', h'.calls.find? id = some c' →
        id = h.nextCall ∧ ∀ other e, h.calls.find? other = some e → other < id) ∧
      ∀ c, h.calls.find? id = some c →
        (c.phase.inLine = true → ∀ c', h'.calls.find? id = some c' → c'.phase.hasPermit = true →
          ∀ other e, h.calls.find? other = some e → e.phase.inLine = true → id ≤ other) ∧
        (c.phase.hasPermit = true →
          (∃ c', h'.calls.find? id = some c' ∧ c'.phase.hasPermit = true) ∨
            Returned h.desk h'.desk id) ∧
        (c.phase.hasPermit = false → h'.calls.find? id = none → Vanished h.desk h'.desk id) := by
  intro h
  have hg : Gated hub.startupConcurrency h.desk := gated_run settings hub acts
  have hconserved : h.gate.free + permitsOf h.calls = hub.startupConcurrency := hg.conserved
  refine ⟨⟨hconserved, by omega⟩, fun id c hc hline => ?_, fun a id => ?_⟩
  · have hwaits : id ∈ h.gate.waiting := (hg.line id).2 ⟨c, hc, hline⟩
    refine ⟨Nat.eq_zero_of_not_pos fun hfree => ?_, hg.before id hwaits⟩
    have hnone : h.gate.waiting = [] := hg.idle hfree
    rw [hnone] at hwaits
    cases hwaits
  · intro h'
    have hf : Fate h.desk h'.desk id := (act_pass settings h a).fate hg id
    refine ⟨fun hnone c' hc' => ?_, fun c hc => ⟨fun hline c' hc' hp other e he hwaits => ?_,
      fun hp => hf.of_permit hg hc hp, fun hp hgone => hf.of_gone hg hc hp hgone⟩⟩
    · have hid : id = h.nextCall := hf.of_new hnone hc'
      exact ⟨hid, fun other e he => hid ▸ hg.fresh other e he⟩
    · obtain ⟨rest, hwaiting⟩ := hf.of_admitted hg hc hline hc' hp
      have hsorted := hg.sorted
      have hother := (hg.line other).2 ⟨e, he, hwaits⟩
      rw [hwaiting] at hsorted hother
      rcases List.mem_cons.1 hother with rfl | hrest
      · exact Nat.le_refl _
      · exact Nat.le_of_lt ((List.pairwise_cons.1 hsorted).1 other hrest)

/-- One call has the only permit and two wait for it, one of them for too long. -/
def crowded : List Act :=
  [.request 0 0 ⟨"a", .service⟩, .request 0 0 ⟨"b", .service⟩, .request 0 1 ⟨"c", .service⟩,
    .tryEnd 0 5 1]

/-- The store then refuses the watch, and the call that still waits gets the permit. -/
theorem permits_run_crowded :
    let h := (create ⟨1, 5, 1⟩).run ⟨true, 1, 0, 1, 0⟩ crowded
    let h' := h.act ⟨true, 1, 0, 1, 0⟩ (.launch 0 5 0 (.error .sessionClosed))
    h.gate = ⟨0, [2]⟩ ∧ h.gate.free + permitsOf h.calls = 1 ∧ Returned h.desk h'.desk 0 ∧
      h'.calls.toList = [(2, ⟨2, .admitted, 0⟩)] := by
  obtain ⟨⟨hconserved, -⟩, -, hact⟩ := permits_run ⟨1, 5, 1⟩ ⟨true, 1, 0, 1, 0⟩ crowded
  have hc : ((create ⟨1, 5, 1⟩).run ⟨true, 1, 0, 1, 0⟩ crowded).calls.find? 0 =
      some ⟨0, .admitted, 0⟩ := by decide +kernel
  refine ⟨by decide +kernel, hconserved, ?_, by decide +kernel⟩
  have hpermit := ((hact (.launch 0 5 0 (.error .sessionClosed)) 0).2 _ hc).2.1 rfl
  refine hpermit.resolve_left ?_
  have hgone : (((create ⟨1, 5, 1⟩).run ⟨true, 1, 0, 1, 0⟩ crowded).act ⟨true, 1, 0, 1, 0⟩
      (.launch 0 5 0 (.error .sessionClosed))).calls.find? 0 = none := by decide +kernel
  rintro ⟨c', hc', -⟩
  exact nomatch hgone.symm.trans hc'

end Hub

end Treecast
