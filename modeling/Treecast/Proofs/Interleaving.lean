import Treecast.Proofs.ChangeLog
import Treecast.Proofs.Replication
import Treecast.Proofs.SessionSync

/-!
# A store, its holders and a session in any order

A world is a store, the holders of some of its trees and a session with its client.  Calls on the
store, the writers of the holders and the session take their steps in any order: a writer applies
one queued event, the session handles one entry of a log or one gap, and the replicas that it reads
may be ahead of that entry.

What a property of the session has to withstand is said once (`World.Kept`): its holders move on,
it starts, it reads on, it ends.

## Results

* `World.Grounded.call`, `World.Grounded.hold`, `World.Grounded.write`, `World.Grounded.close`:
  what happens to the holders.
* `World.Kept.run`: a property that is kept holds after every run.
-/

set_option autoImplicit false

namespace Treecast

open Routing

/-! ## Worlds -/

/-- How far a session has read the log of a holder. -/
structure Bookmark where
  holder : Nat
  cursor : Nat
  deriving DecidableEq

/-- A moment of a session: its start, or something that it read, with the replicas as they were,
the session afterwards and what it sent. -/
structure Note where
  read : Option (TreeKey × Holder.Unread)
  replicas : Replicas
  session : Session
  messages : List Message

/-- A session and what its client was sent. -/
structure Client where
  request : Request
  mode : RouteMode
  caller : Option Caller
  /-- Where it reads on, by tree. -/
  bookmarks : SortedMap TreeKey Bookmark
  session : Session
  /-- Its moments so far, the start first. -/
  history : List Note
  isOpen : Bool

/-- What the client holds. -/
def Client.view (c : Client) : View := View.empty.receiveAll (c.history.flatMap Note.messages)

/-- A session starts on these replicas. -/
def Client.start (request : Request) (mode : RouteMode) (caller : Option Caller) (policy : Policy)
    (bookmarks : SortedMap TreeKey Bookmark) (replicas : Replicas) : Client :=
  let started := Session.start request mode caller policy replicas
  { request, mode, caller, bookmarks, session := started.1
    history := [⟨none, replicas, started.1, [started.2.message .all]⟩]
    isOpen := true }

/-- The session handles what it read of the log of `tree`. -/
def Client.handle (c : Client) (replicas : Replicas) (policy : Policy) (tree : TreeKey)
    (unread : Holder.Unread) (cursor : Nat) : Client :=
  let r := c.session.react replicas policy tree unread
  { c with
    bookmarks := c.bookmarks.modify tree fun b => { b with cursor }
    session := r.session
    history := c.history ++ [⟨some (tree, unread), replicas, r.session, r.messages⟩]
    isOpen := !r.ends }

/-- A store, the holders of some of its trees by the numbers of their watches, and a session. -/
structure World where
  store : Store
  holders : SortedMap Nat Holder
  client : Option Client

/-- What can happen next. -/
inductive Act where
  /-- A call on the store. -/
  | call (call : Store.Call)
  /-- A holder is created and started. -/
  | hold (key : TreeKey) (capacity : Nat)
  /-- The writer of a holder applies the next event. -/
  | write (id : Nat)
  /-- A holder closes. -/
  | close (id : Nat)
  /-- A session starts; it reads on in the logs from these bookmarks. -/
  | start (request : Request) (mode : RouteMode) (caller : Option Caller)
      (bookmarks : SortedMap TreeKey Bookmark)
  /-- The session reads on in the log of a tree. -/
  | read (tree : TreeKey)
  /-- The session ends. -/
  | leave

/-- Takes the next event from a watch's queue. -/
def Store.takeFirst (s : Store) (id : Nat) : Store :=
  { s with
    watches := s.watches.map fun w => if w.id = id then { w with queue := w.queue.tail } else w }

namespace World

/-- A store without nodes, and nobody to read it. -/
def empty : World := ⟨Store.empty, SortedMap.empty, none⟩

/-- The holder that a tree is read from, and the cursor in its log. -/
def followed? (w : World) (bookmarks : SortedMap TreeKey Bookmark) (tree : TreeKey) :
    Option (Holder × Nat) :=
  (bookmarks.find? tree).bind fun b => (w.holders.find? b.holder).map fun h => (h, b.cursor)

/-- The replicas that are read with these bookmarks. -/
def replicasOf (w : World) (bookmarks : SortedMap TreeKey Bookmark) : Replicas := fun tree =>
  match w.followed? bookmarks tree with
  | some (h, _) => h.replica
  | none => Replica.empty tree.root

/-- A new holder with its watch, if there can be a watch on its tree. -/
def hold (w : World) (key : TreeKey) (capacity : Nat) : World :=
  match w.store.watch key.root with
  | (store, .ok id) =>
    { w with store, holders := w.holders.insert id (Holder.create key capacity).start }
  | (_, .error _) => w

/-- The writer of a holder applies the next event; that of a closed holder goes away. -/
def write (w : World) (id : Nat) : World :=
  match w.holders.find? id with
  | none => w
  | some h =>
    if h.isClosed then { w with store := w.store.abandon id }
    else
      match w.store.pending id with
      | [] => w
      | event :: _ =>
        { w with
          store := w.store.takeFirst id
          holders := w.holders.insert id (h.handleAll [event]) }

def close (w : World) (id : Nat) : World :=
  match w.holders.find? id with
  | none => w
  | some h => { w with holders := w.holders.insert id h.close }

/-- Whether a session can read a tree from a bookmark on: the holder is one of that tree, is not
closed, and its log goes as far. -/
def canFollow (w : World) (tree : TreeKey) (b : Bookmark) : Bool :=
  match w.holders.find? b.holder with
  | some h => h.key = tree && !h.isClosed && decide (b.cursor ≤ h.log.length)
  | none => false

/-- A session starts, if there is a bookmark for every tree that it reads. -/
def start (policy : Policy) (w : World) (request : Request) (mode : RouteMode)
    (caller : Option Caller) (bookmarks : SortedMap TreeKey Bookmark) : World :=
  if bookmarks.keys = Session.treesOf request mode caller ∧
      bookmarks.toList.all fun e => w.canFollow e.1 e.2 then
    { w with
      client := some (.start request mode caller policy bookmarks (w.replicasOf bookmarks)) }
  else w

/-- The session reads on in the log of a tree. -/
def read (policy : Policy) (w : World) (tree : TreeKey) : World :=
  match w.client with
  | none => w
  | some c =>
    if c.isOpen then
      match w.followed? c.bookmarks tree with
      | none => w
      | some (h, cursor) =>
        match h.readAt cursor with
        | none => w
        | some (unread, cursor) =>
          { w with
            client := some (c.handle (w.replicasOf c.bookmarks) policy tree unread cursor) }
    else w

def act (policy : Policy) (w : World) : Act → World
  | .call call => { w with store := w.store.perform call }
  | .hold key capacity => w.hold key capacity
  | .write id => w.write id
  | .close id => w.close id
  | .start request mode caller bookmarks => w.start policy request mode caller bookmarks
  | .read tree => w.read policy tree
  | .leave => { w with client := w.client.map fun c => { c with isOpen := false } }

/-- Things happen in order. -/
def run (policy : Policy) (w : World) (acts : List Act) : World := acts.foldl (act policy) w

/-- Whether all that is to come to a client has come: the writers of its holders have applied
every event, and the session has read their logs to the end. -/
def isIdle (w : World) (c : Client) : Bool :=
  c.bookmarks.toList.all fun e =>
    (w.store.pending e.2.holder).isEmpty &&
      match w.holders.find? e.2.holder with
      | some h => (h.readAt e.2.cursor).isNone
      | none => true

end World

/-! ## Watches and their readers -/

namespace Store

variable {s : Store} {id other : Nat} {r : Replica}

/-- What is done to another watch does not matter to a watch. -/
theorem Leads.of_map (h : s.Leads id r) {f : Watch → Watch} (hid : ∀ w, (f w).id = w.id)
    (hother : ∀ w, w.id = id → f w = w) :
    ({ s with watches := s.watches.map f } : Store).Leads id r := by
  obtain ⟨w, hw, hread, hroot, hcatch⟩ := h
  have hwid : w.id = id := by simpa using List.find?_some hw
  refine ⟨w, ?_, hread, hroot, hcatch.of_core?_eq fun _ => rfl⟩
  rw [watch?, find?_map_watches hid hw, hother w hwid]

theorem Leads.takeFirst_other (h : s.Leads id r) (hne : id ≠ other) :
    (s.takeFirst other).Leads id r := by
  refine h.of_map (fun w => ?_) fun w hw => if_neg fun he => hne (hw.symm.trans he)
  split <;> rfl

theorem Leads.abandon_other (h : s.Leads id r) (hne : id ≠ other) :
    (s.abandon other).Leads id r := by
  refine h.of_map (fun w => ?_) fun w hw => if_neg fun he => hne (hw.symm.trans he)
  split <;> rfl

/-- A reader that takes the next event and applies it is led on. -/
theorem Leads.takeFirst (h : s.Leads id r) {event : StoreEvent} {rest : List StoreEvent}
    (hpending : s.pending id = event :: rest) :
    r.Tidy event ∧ (s.takeFirst id).Leads id (r.apply event).1 := by
  obtain ⟨w, hw, hread, hroot, hcatch⟩ := h
  have hwid : w.id = id := by simpa using List.find?_some hw
  rw [pending_of_watch? hw] at hpending
  rw [hpending] at hcatch
  obtain ⟨ht, hcatch⟩ := hcatch.tail
  refine ⟨ht, { w with queue := w.queue.tail }, ?_, hread, ?_, ?_⟩
  · rw [watch?, Store.takeFirst, find?_map_watches (fun w => ?_) hw, if_pos hwid]
    split <;> rfl
  · rw [Replica.root_apply]
    exact hroot
  · dsimp only
    rw [hpending]
    exact hcatch.of_core?_eq fun _ => rfl

theorem Numbered.of_map (h : s.Numbered) {f : Watch → Watch} (hid : ∀ w, (f w).id = w.id) :
    ({ s with watches := s.watches.map f } : Store).Numbered := by
  refine h.of_watches rfl fun w hw => ?_
  obtain ⟨x, hx, rfl⟩ := List.mem_map.1 hw
  exact ⟨x, hx, (hid x).symm⟩

theorem Numbered.takeFirst (h : s.Numbered) (id : Nat) : (s.takeFirst id).Numbered := by
  refine h.of_map fun w => ?_
  split <;> rfl

theorem Numbered.abandon (h : s.Numbered) (id : Nat) : (s.abandon id).Numbered := by
  refine h.of_map fun w => ?_
  split <;> rfl

/-- Numbers that were given to watches are not given again. -/
theorem given_kept (id : Nat) : Kept fun s => id < s.nextWatch where
  add s path value h _ _ _ := by
    rw [addNode]
    exact (nextWatch_countAtParent _ _ _).symm ▸ h
  rewrite _ _ _ _ h _ := h
  remove s path h _ _ := by
    rw [removeNode]
    exact (nextWatch_countAtParent _ _ _).symm ▸ h
  announce _ _ h := h
  watch s root h hwf := by
    rw [watch, if_pos hwf]
    exact Nat.lt_succ_of_lt h

end Store

/-! ## Holders -/

namespace Holder

variable {h h' : Holder}

/-- What may happen to a holder that a session follows: if it is closed, its log says so. -/
structure Moves (h h' : Holder) : Prop where
  key : h'.key = h.key
  grown : Grown h h'
  closing : h'.isClosed = true → h.isClosed = true ∨ h.log.length < h'.log.length

theorem Grown.refl (h : Holder) : Grown h h := .quiet (List.append_nil _).symm rfl rfl

theorem Moves.refl (h : Holder) : Moves h h := ⟨rfl, .refl h, .inl⟩

theorem close_moves (h : Holder) : Moves h h.close := by
  refine ⟨?_, h.close_grown, ?_⟩
  · rw [Holder.close]
    split <;> rfl
  · unfold Holder.close
    split
    · exact .inl
    · exact fun _ => .inr (by simp)

/-- A holder in a world: its log is true, and unless it is closed its watch leads its replica to
the store; the log of a closed holder ends by saying so. -/
structure Fits (h : Holder) (s : Store) (id : Nat) : Prop where
  given : id < s.nextWatch
  logged : h.Logged
  root : h.replica.root = h.key.root
  capacity : 0 < h.capacity
  started : h.phase ≠ .new
  led : h.isClosed = false → s.Leads id h.replica
  closes : h.isClosed = true → h.log.getLast? = some .closed

theorem handle_replica (h : Holder) (event : StoreEvent) :
    (h.handle event).replica = (h.replica.apply event).1 := by
  cases event with
  | initialized =>
    rw [handle]
    split <;> rfl
  | connection state => rfl
  | _ =>
    unfold handle
    dsimp only
    split
    · rename_i heq
      rw [heq]
    · rename_i heq
      rw [heq]

variable {s : Store} {id : Nat}

theorem Fits.perform (hf : h.Fits s id) (hs : s.Rooted) (call : Store.Call) :
    h.Fits (s.perform call) id :=
  ⟨(Store.given_kept id).perform hs hf.given call, hf.logged, hf.root, hf.capacity, hf.started,
    fun hopen => (Store.leads_kept id h.replica).perform hs (hf.led hopen) call, hf.closes⟩

theorem Fits.takeFirst_other (hf : h.Fits s id) {other : Nat} (hne : id ≠ other) :
    h.Fits (s.takeFirst other) id :=
  ⟨hf.given, hf.logged, hf.root, hf.capacity, hf.started,
    fun hopen => (hf.led hopen).takeFirst_other hne, hf.closes⟩

/-- The watch of a closed holder is abandoned. -/
theorem Fits.abandon (hf : h.Fits s id) {other : Nat}
    (hother : id = other → h.isClosed = true) : h.Fits (s.abandon other) id := by
  refine ⟨hf.given, hf.logged, hf.root, hf.capacity, hf.started, fun hopen => ?_, hf.closes⟩
  refine (hf.led hopen).abandon_other fun he => ?_
  rw [hother he] at hopen
  cases hopen

/-- The writer of an open holder applies the next event. -/
theorem Fits.write (hf : h.Fits s id) (hopen : h.isClosed = false) {event : StoreEvent}
    {rest : List StoreEvent} (hpending : s.pending id = event :: rest) :
    Moves h (h.handle event) ∧ (h.handle event).Fits (s.takeFirst id) id := by
  obtain ⟨ht, hleads⟩ := (hf.led hopen).takeFirst hpending
  obtain ⟨hkey, hcapacity, hnew, hclosed⟩ := h.handle_keeps event
  have hgrown := handle_grown hf.logged ht
  have hstill : ¬ (h.handle event).isClosed = true :=
    Bool.eq_false_iff.1 (decide_eq_false (hclosed (of_decide_eq_false hopen)))
  refine ⟨⟨hkey, hgrown, fun hc => absurd hc hstill⟩, hf.given, hgrown.logged hf.logged, ?_, ?_,
    hnew hf.started, fun _ => ?_, fun hc => absurd hc hstill⟩
  · rw [handle_replica, Replica.root_apply, hkey]
    exact hf.root
  · rw [hcapacity]
    exact hf.capacity
  · rw [handle_replica]
    exact hleads

theorem Fits.close (hf : h.Fits s id) : h.close.Fits s id := by
  unfold Holder.close
  split
  · exact hf
  · rename_i hopen
    have hgrown := h.close_grown
    rw [Holder.close, if_neg hopen] at hgrown
    refine ⟨hf.given, hgrown.logged hf.logged, hf.root, hf.capacity, HolderPhase.noConfusion,
      fun hc => ?_, fun _ => List.getLast?_concat⟩
    cases hc

theorem fits_start (hs : s.Rooted) (hn : s.Numbered) {key : TreeKey} (capacity : Nat) {id : Nat}
    {s' : Store} (hwatch : s.watch key.root = (s', .ok id)) :
    id = s.nextWatch ∧ (Holder.create key capacity).start.Fits s' id := by
  have hwf : Path.isWellFormed key.root = true := by
    refine Classical.byContradiction fun hn => ?_
    rw [Store.watch, if_neg hn] at hwatch
    cases hwatch
  obtain ⟨hid, hleads⟩ := Store.leads_watch hs hn (TreeKey.isRoot_root key) hwf
  have hgiven : s.nextWatch < (s.watch key.root).1.nextWatch := by
    rw [Store.watch, if_pos hwf]
    exact Nat.lt_succ_self _
  rw [hwatch] at hid hleads hgiven
  cases hid
  have hcapacity : 0 < (max capacity 1).nextPowerOfTwo :=
    Nat.pos_of_isPowerOfTwo (Nat.isPowerOfTwo_nextPowerOfTwo _)
  have hlogged := logged_create key capacity
  refine ⟨rfl, hgiven, ⟨hlogged.seen, hlogged.increasing, hlogged.bounded, hlogged.last⟩, rfl,
    hcapacity, HolderPhase.noConfusion, fun _ => hleads, fun hc => ?_⟩
  cases hc

end Holder

/-! ## What happens to holders -/

namespace World

/-- A bookmark lies in the log of a holder of the tree, and before the entry that says that the
holder is closed. -/
structure Reaches (w : World) (tree : TreeKey) (b : Bookmark) (h : Holder) : Prop where
  found : w.holders.find? b.holder = some h
  key : h.key = tree
  within : b.cursor ≤ h.log.length
  closing : h.isClosed = true → b.cursor < h.log.length

/-- The holders fit the store. -/
structure Grounded (w : World) : Prop where
  rooted : w.store.Rooted
  numbered : w.store.Numbered
  holders : ∀ id h, w.holders.find? id = some h → h.Fits w.store id

/-- The holders of a world move on, whatever becomes of its session. -/
structure Stirs (w w' : World) : Prop where
  grounded : w'.Grounded
  holders : ∀ id h, w.holders.find? id = some h →
    ∃ h', w'.holders.find? id = some h' ∧ h.Moves h'

variable {policy : Policy} {w w' : World} {c : Client} {bookmarks : SortedMap TreeKey Bookmark}
  {tree : TreeKey} {h : Holder} {b : Bookmark}

theorem followed?_eq (hb : bookmarks.find? tree = some b)
    (hh : w.holders.find? b.holder = some h) :
    w.followed? bookmarks tree = some (h, b.cursor) := by
  rw [followed?, hb, Option.bind_some, hh]
  rfl

theorem bookmark_of_followed? {cursor : Nat}
    (hf : w.followed? bookmarks tree = some (h, cursor)) :
    ∃ b, bookmarks.find? tree = some b ∧ w.holders.find? b.holder = some h ∧ b.cursor = cursor := by
  obtain ⟨b, hb, hbook⟩ := Option.bind_eq_some_iff.1 hf
  obtain ⟨x, hh, he⟩ := Option.map_eq_some_iff.1 hbook
  cases he
  exact ⟨b, hb, hh, rfl⟩

theorem Stirs.refl (hw : w.Grounded) : w.Stirs w := ⟨hw, fun _ h hh => ⟨h, hh, .refl h⟩⟩

/-- **A call on the store.** -/
theorem Grounded.call (hw : w.Grounded) (call : Store.Call) :
    w.Stirs { w with store := w.store.perform call } := by
  obtain ⟨hrooted, hnumbered, hholders⟩ := hw
  exact ⟨⟨hrooted.perform call, Store.numbered_kept.perform hrooted hnumbered call,
    fun id h hh => (hholders id h hh).perform hrooted call⟩, fun id h hh => ⟨h, hh, .refl h⟩⟩

/-- **A new holder.** -/
theorem Grounded.hold (hw : w.Grounded) (key : TreeKey) (capacity : Nat) :
    w.Stirs (w.hold key capacity) := by
  obtain ⟨hrooted, hnumbered, hholders⟩ := id hw
  unfold World.hold
  split
  · rename_i store id hwatch
    obtain ⟨rfl, hfits⟩ := Holder.fits_start hrooted hnumbered capacity hwatch
    have hstore : w.store.perform (.watch key.root) = store := by
      rw [Store.perform, hwatch]
    have hrooted' := hrooted.perform (.watch key.root)
    have hnumbered' := Store.numbered_kept.perform hrooted hnumbered (.watch key.root)
    have hholders' := fun other h hh => (hholders other h hh).perform hrooted (.watch key.root)
    rw [hstore] at hrooted' hnumbered' hholders'
    refine ⟨⟨hrooted', hnumbered', fun other h hh => ?_⟩, fun other h hh => ⟨h, ?_, .refl h⟩⟩
    · dsimp only at hh ⊢
      rw [SortedMap.find?_insert] at hh
      split at hh
      · rename_i he
        cases hh
        rw [he]
        exact hfits
      · exact hholders' other h hh
    · -- the number of the new watch is not one of a holder's
      have hgiven := (hholders other h hh).given
      have hne : other ≠ w.store.nextWatch := by omega
      dsimp only
      rw [SortedMap.find?_insert, if_neg hne]
      exact hh
  · exact .refl hw

/-- One holder moves on, and the store with it. -/
theorem Grounded.replace (hw : w.Grounded) {id : Nat} {h' : Holder} {store : Store}
    (hh : w.holders.find? id = some h) (hmoves : h.Moves h') (hrooted : store.Rooted)
    (hnumbered : store.Numbered) (hfits : h'.Fits store id)
    (hothers : ∀ other (x : Holder), other ≠ id → x.Fits w.store other → x.Fits store other) :
    w.Stirs { w with store, holders := w.holders.insert id h' } := by
  refine ⟨⟨hrooted, hnumbered, fun other x hx => ?_⟩, fun other x hx => ?_⟩
  · dsimp only at hx ⊢
    rw [SortedMap.find?_insert] at hx
    split at hx
    · rename_i he
      cases hx
      rw [he]
      exact hfits
    · rename_i hne
      exact hothers other x hne (hw.holders other x hx)
  · dsimp only
    rw [SortedMap.find?_insert]
    split
    · rename_i he
      rw [he, hh] at hx
      cases hx
      exact ⟨h', rfl, hmoves⟩
    · exact ⟨x, hx, .refl x⟩

/-- **A writer applies the next event**, or goes away. -/
theorem Grounded.write (hw : w.Grounded) (id : Nat) : w.Stirs (w.write id) := by
  unfold World.write
  split
  · exact .refl hw
  · rename_i h hh
    split
    · rename_i hclosed
      refine ⟨⟨hw.rooted.of_nodes_eq rfl, hw.numbered.abandon id, fun other x hx => ?_⟩,
        fun other x hx => ⟨x, hx, .refl x⟩⟩
      refine (hw.holders other x hx).abandon fun he => ?_
      rw [he, hh] at hx
      cases hx
      exact hclosed
    · rename_i hopen
      have hopen : h.isClosed = false := Bool.eq_false_iff.2 hopen
      split
      · exact .refl hw
      · rename_i event rest hpending
        have hfits := hw.holders id h hh
        obtain ⟨hmoves, hfits'⟩ := hfits.write hopen hpending
        have hhandle : h.handleAll [event] = h.handle event := by
          rw [Holder.handleAll, if_neg (not_or.2 ⟨of_decide_eq_false hopen, hfits.started⟩)]
          rfl
        rw [hhandle]
        exact hw.replace hh hmoves (hw.rooted.of_nodes_eq rfl) (hw.numbered.takeFirst id) hfits'
          fun other x hne hx => hx.takeFirst_other hne

/-- **A holder closes.** -/
theorem Grounded.close (hw : w.Grounded) (id : Nat) : w.Stirs (w.close id) := by
  unfold World.close
  split
  · exact .refl hw
  · rename_i h hh
    exact hw.replace hh h.close_moves hw.rooted hw.numbered (hw.holders id h hh).close
      fun _ _ _ hx => hx

/-! ## Bookmarks -/

/-- A bookmark stays in the log of its holder. -/
theorem Reaches.stir (hreach : w.Reaches tree b h) (hstir : w.Stirs w') :
    ∃ h', h.Moves h' ∧ w'.Reaches tree b h' := by
  obtain ⟨h', hh', hmoves⟩ := hstir.holders _ h hreach.found
  have hlength := hmoves.grown.length_le
  have hwithin := hreach.within
  refine ⟨h', hmoves, hh', hmoves.key.trans hreach.key, by omega, fun hclosed => ?_⟩
  rcases hmoves.closing hclosed with hwas | hlonger
  · have := hreach.closing hwas
    omega
  · omega

theorem reaches_of_canFollow (hfollow : w.canFollow tree b = true) : ∃ h, w.Reaches tree b h := by
  unfold canFollow at hfollow
  split at hfollow
  · rename_i h hh
    simp only [Bool.and_eq_true, decide_eq_true_eq, Bool.not_eq_true'] at hfollow
    obtain ⟨⟨hkey, hopen⟩, hwithin⟩ := hfollow
    refine ⟨h, hh, hkey, hwithin, fun hclosed => ?_⟩
    rw [hopen] at hclosed
    cases hclosed
  · cases hfollow

theorem followed?_modify (w : World) (bookmarks : SortedMap TreeKey Bookmark) (tree : TreeKey)
    (cursor : Nat) (other : TreeKey) :
    w.followed? (bookmarks.modify tree fun b => { b with cursor }) other =
      if other = tree then (w.followed? bookmarks tree).map fun e => (e.1, cursor)
      else w.followed? bookmarks other := by
  unfold followed?
  rw [SortedMap.find?_modify]
  split
  · cases bookmarks.find? tree with
    | none => rfl
    | some b =>
      rw [Option.map_some, Option.bind_some, Option.bind_some, Option.map_map]
      rfl
  · rfl

theorem replicasOf_modify (w : World) (bookmarks : SortedMap TreeKey Bookmark) (tree : TreeKey)
    (cursor : Nat) : w.replicasOf (bookmarks.modify tree fun b => { b with cursor }) =
      w.replicasOf bookmarks := by
  funext other
  rw [replicasOf, replicasOf, followed?_modify]
  by_cases he : other = tree
  · rw [if_pos he, he]
    cases w.followed? bookmarks tree <;> rfl
  · rw [if_neg he]

theorem isSome_bookmark_handle (c : Client) (replicas : Replicas) (policy : Policy)
    (tree : TreeKey) (unread : Holder.Unread) (next : Nat) (other : TreeKey) :
    ((c.handle replicas policy tree unread next).bookmarks.find? other).isSome =
      (c.bookmarks.find? other).isSome := by
  rw [Client.handle, SortedMap.find?_modify]
  split
  · rename_i he
    rw [Option.isSome_map, he]
  · rfl

/-- The bookmark of the tree that was read moves to the new cursor, and the others stay. -/
theorem bookmark_of_handle {replicas : Replicas} {unread : Holder.Unread} {next : Nat}
    {other : TreeKey} {b' : Bookmark}
    (hb : (c.handle replicas policy tree unread next).bookmarks.find? other = some b') :
    (other = tree ∧ ∃ b, c.bookmarks.find? tree = some b ∧ b' = { b with cursor := next }) ∨
      other ≠ tree ∧ c.bookmarks.find? other = some b' := by
  rw [Client.handle, SortedMap.find?_modify] at hb
  split at hb
  · rename_i he
    obtain ⟨b, hfind, rfl⟩ := Option.map_eq_some_iff.1 hb
    exact .inl ⟨he, b, hfind, rfl⟩
  · rename_i hne
    exact .inr ⟨hne, hb⟩

/-- A bookmark after something was read that is not the end of the log. -/
theorem Reaches.read (hreach : w.Reaches tree b h) (hfits : h.Fits w.store b.holder) {next : Nat}
    {unread : Holder.Unread} (hr : h.readAt b.cursor = some (unread, next))
    (hopen : unread ≠ .entry .closed) : w.Reaches tree { b with cursor := next } h :=
  ⟨hreach.found, hreach.key, Holder.readAt_within hr, fun hclosed =>
    Holder.readAt_before_closed hfits.capacity (hfits.closes hclosed) (hreach.closing hclosed) hr
      hopen⟩

/-- The bookmarks of a session that read on, unless what it read was the end of a log. -/
theorem reaches_handle (hw : w.Grounded)
    (hreach : ∀ tree b, c.bookmarks.find? tree = some b → ∃ h, w.Reaches tree b h)
    {cursor next : Nat} {read : Holder.Unread}
    (hf : w.followed? c.bookmarks tree = some (h, cursor))
    (hr : h.readAt cursor = some (read, next)) {replicas : Replicas}
    (hopen : (c.handle replicas policy tree read next).isOpen = true) {other : TreeKey}
    {b' : Bookmark}
    (hb' : (c.handle replicas policy tree read next).bookmarks.find? other = some b') :
    ∃ h, w.Reaches other b' h := by
  obtain ⟨b, hb, hh, rfl⟩ := bookmark_of_followed? hf
  rcases bookmark_of_handle hb' with ⟨rfl, b₀, hb₀, rfl⟩ | ⟨-, hb'⟩
  · obtain rfl : b₀ = b := Option.some.inj (hb₀.symm.trans hb)
    obtain ⟨h', hreach⟩ := hreach other b₀ hb
    obtain rfl : h' = h := Option.some.inj (hreach.found.symm.trans hh)
    refine ⟨h', hreach.read (hw.holders _ _ hh) hr ?_⟩
    rintro rfl
    cases hopen
  · exact hreach other b' hb'

/-! ## Properties of the session -/

/-- What a property of the session has to withstand. -/
structure Kept (policy : Policy) (I : World → Client → Prop) : Prop where
  stir : ∀ w w' c, w.Grounded → w.Stirs w' → I w c → I w' c
  start : ∀ w request mode caller bookmarks, w.Grounded →
    bookmarks.keys = Session.treesOf request mode caller →
    (∀ tree b, bookmarks.find? tree = some b → ∃ h, w.Reaches tree b h) →
    I w (.start request mode caller policy bookmarks (w.replicasOf bookmarks))
  read : ∀ w c tree h cursor unread next, w.Grounded → I w c → c.isOpen = true →
    w.followed? c.bookmarks tree = some (h, cursor) → h.readAt cursor = some (unread, next) →
    I w (c.handle (w.replicasOf c.bookmarks) policy tree unread next)
  leave : ∀ w c, I w c → I w { c with isOpen := false }

variable {I : World → Client → Prop}

theorem client_hold (w : World) (key : TreeKey) (capacity : Nat) :
    (w.hold key capacity).client = w.client := by
  unfold World.hold
  split <;> rfl

theorem client_write (w : World) (id : Nat) : (w.write id).client = w.client := by
  unfold World.write
  split
  · rfl
  · split
    · rfl
    · split <;> rfl

theorem client_close (w : World) (id : Nat) : (w.close id).client = w.client := by
  unfold World.close
  split <;> rfl

/-- The holders fit the store, and the session has the property. -/
structure Has (I : World → Client → Prop) (w : World) : Prop where
  grounded : w.Grounded
  client : ∀ c, w.client = some c → I w c

theorem Has.stir (hw : w.Has I) (hk : Kept policy I) (hstir : w.Stirs w')
    (hclient : w'.client = w.client) : w'.Has I :=
  ⟨hstir.grounded, fun c hc => hk.stir w w' c hw.grounded hstir (hw.client c (hclient ▸ hc))⟩

/-- The session changes, and the holders do not. -/
theorem Has.of_client (hw : w.Has I) (hk : Kept policy I) {client : Option Client}
    (hI : ∀ c, client = some c → I w c) : ({ w with client } : World).Has I := by
  have hgrounded : ({ w with client } : World).Grounded :=
    ⟨hw.grounded.rooted, hw.grounded.numbered, hw.grounded.holders⟩
  exact ⟨hgrounded, fun c hc => hk.stir w _ c hw.grounded
    ⟨hgrounded, fun _ h hh => ⟨h, hh, .refl h⟩⟩ (hI c hc)⟩

/-- **Every step keeps a property of the session.** -/
theorem Kept.act (hk : Kept policy I) (hw : w.Has I) (act : Act) : (w.act policy act).Has I := by
  cases act with
  | call call => exact hw.stir hk (hw.grounded.call call) rfl
  | hold key capacity =>
    exact hw.stir hk (hw.grounded.hold key capacity) (w.client_hold key capacity)
  | write id => exact hw.stir hk (hw.grounded.write id) (w.client_write id)
  | close id => exact hw.stir hk (hw.grounded.close id) (w.client_close id)
  | start request mode caller bookmarks =>
    unfold World.act World.start
    dsimp only
    split
    · rename_i hguard
      obtain ⟨hkeys, hfollow⟩ := hguard
      refine hw.of_client hk fun c hc => ?_
      cases hc
      refine hk.start w request mode caller bookmarks hw.grounded hkeys fun tree b hb => ?_
      exact reaches_of_canFollow (List.all_eq_true.1 hfollow _ (SortedMap.mem_toList_iff.2 hb))
    · exact hw
  | read tree =>
    unfold World.act World.read
    dsimp only
    split
    · exact hw
    · rename_i c hc
      split
      · rename_i hopen
        split
        · exact hw
        · rename_i h cursor hf
          split
          · exact hw
          · rename_i unread next hr
            refine hw.of_client hk fun c' hc' => ?_
            cases hc'
            exact hk.read w c tree h cursor unread next hw.grounded (hw.client c hc) hopen hf hr
      · exact hw
  | leave =>
    refine hw.of_client hk fun c hc => ?_
    obtain ⟨c', hc', rfl⟩ := Option.map_eq_some_iff.1 hc
    exact hk.leave w c' (hw.client c' hc')

theorem has_empty (I : World → Client → Prop) : empty.Has I :=
  ⟨⟨Store.rooted_empty, fun _ h => absurd h List.not_mem_nil, fun _ _ h => nomatch h⟩,
    fun _ h => nomatch h⟩

/-- **Every run keeps a property of the session.** -/
theorem Kept.run (hk : Kept policy I) (acts : List Act) : (empty.run policy acts).Has I :=
  List.foldlRecOn (motive := fun w : World => w.Has I) _ _ (has_empty I) fun _ hw act _ =>
    hk.act hw act

/-! ## A run -/

/-- A holder loads a cluster with one key, and a session starts on the cluster; the key is set,
another cluster is added and the key is deleted, all before the session reads on. -/
def shopRun : List Act :=
  let tree : TreeKey := ⟨"shop", .service⟩
  [.hold tree 4, .call (.create "/service/shop/a/1" "x" true), .write 0, .write 0, .write 0,
    .write 0,
    .start ⟨SortedMap.ofList [(⟨.service, "shop"⟩, Selection.all.limit "a")]⟩ .orig none
      (SortedMap.ofList [(tree, ⟨0, 2⟩)]),
    .call (.set "/service/shop/a/1" "y" none), .call (.create "/service/shop/b" "" false),
    .call (.delete "/service/shop/a/1" none false), .write 0, .write 0, .write 0,
    .read tree, .read tree, .read tree, .read tree]

/-- The session of `shopRun`. -/
def shopClient : Client := (empty.run .standard shopRun).client.get (by decide +kernel)

theorem client_shopRun : (empty.run .standard shopRun).client = some shopClient :=
  (Option.some_get _).symm

end World

end Treecast
