import Treecast.Proofs.Interleaving

/-!
# Convergence

Between what a client holds and what a new session would send stand the changes that its session
has not read and the events that the writers have not applied.  In every run an open session is in
step with what it has read (`World.Attends`); when nothing is left to apply and to read, its client
holds what a new session would send.

## Results

* `World.attends_kept`: an open session stays in step.
* `World.view_eq_start`: an open session that has read everything has brought its client to what
  a new session would send, from these holders or from any others that show the store.
-/

set_option autoImplicit false

namespace Treecast

open Routing

/-- What a reader has not read grows with the log. -/
theorem Holder.Grown.advanced {h h' : Holder} (hg : Grown h h') {cursor : Nat}
    (hcursor : cursor ≤ h.log.length) :
    Advanced h.replica (h.unread cursor) h'.replica (h'.unread cursor) := by
  cases hg with
  | quiet hlog hmore hreplica =>
    refine .same hreplica ?_
    rw [unread, hlog, List.drop_append_of_le_length hcursor, changesOf_append, hmore,
      List.append_nil, unread]
  | moved hlog hmoved hseen =>
    refine .moved hmoved hseen ?_
    rw [unread, hlog, List.drop_append_of_le_length hcursor, changesOf_append, unread]
    rfl

theorem Client.view_handle (c : Client) (replicas : Replicas) (policy : Policy) (tree : TreeKey)
    (unread : Holder.Unread) (cursor : Nat) :
    (c.handle replicas policy tree unread cursor).view =
      c.view.receiveAll (c.session.react replicas policy tree unread).messages := by
  rw [Client.view, Client.handle, List.flatMap_append, View.receiveAll_append]
  simp only [List.flatMap_cons, List.flatMap_nil, List.append_nil]
  rfl

namespace World

/-- The changes that are unread with these bookmarks. -/
def unreadOf (w : World) (bookmarks : SortedMap TreeKey Bookmark) : TreeKey → List Change :=
  fun tree =>
    match w.followed? bookmarks tree with
    | some (h, cursor) => h.unread cursor
    | none => []

/-- An open session follows holders of its trees and keeps its client in step. -/
structure Attends (policy : Policy) (w : World) (c : Client) : Prop where
  trees : ∀ tree, (c.bookmarks.find? tree).isSome ↔
    tree ∈ Session.treesOf c.request c.mode c.caller
  bookmarks : ∀ tree b, c.bookmarks.find? tree = some b → ∃ h, w.Reaches tree b h
  synced : Synced policy (w.replicasOf c.bookmarks) (w.unreadOf c.bookmarks) c.session c.view
  serves : Serves c.request c.mode c.caller c.session

variable {policy : Policy} {w w' : World} {c : Client} {bookmarks : SortedMap TreeKey Bookmark}
  {tree : TreeKey} {h : Holder} {b : Bookmark}

theorem Grounded.pending (hw : w.Grounded) (bookmarks : SortedMap TreeKey Bookmark)
    (tree : TreeKey) : Pending (w.replicasOf bookmarks tree) (w.unreadOf bookmarks tree) := by
  rw [replicasOf, unreadOf]
  cases hf : w.followed? bookmarks tree with
  | none => exact (Holder.logged_create tree 1).pending 0
  | some e =>
    obtain ⟨b, -, hh, -⟩ := bookmark_of_followed? hf
    exact (hw.holders _ _ hh).logged.pending e.2

/-- Whatever happens to the holders, what is read of them only moves on. -/
theorem Stirs.advanced (hstir : w.Stirs w')
    (hwithin : ∀ tree b, bookmarks.find? tree = some b →
      ∃ h, w.holders.find? b.holder = some h ∧ b.cursor ≤ h.log.length) (tree : TreeKey) :
    Advanced (w.replicasOf bookmarks tree) (w.unreadOf bookmarks tree)
      (w'.replicasOf bookmarks tree) (w'.unreadOf bookmarks tree) := by
  cases hb : bookmarks.find? tree with
  | none =>
    refine .same ?_ ?_
    · simp only [replicasOf, followed?, hb, Option.bind_none]
    · simp only [unreadOf, followed?, hb, Option.bind_none]
  | some b =>
    obtain ⟨h, hh, hcursor⟩ := hwithin tree b hb
    obtain ⟨h', hh', hmoves⟩ := hstir.holders _ h hh
    simp only [replicasOf, unreadOf, followed?_eq hb hh, followed?_eq hb hh']
    exact hmoves.grown.advanced hcursor

/-- **Whatever happens to the holders**, an open session keeps its client in step. -/
theorem Attends.stir (ha : w.Attends policy c) (hw : w.Grounded) (hstir : w.Stirs w') :
    w'.Attends policy c := by
  refine ⟨ha.trees, fun tree b hb => ?_, ha.synced.advance (hstir.advanced fun tree b hb => ?_)
    (fun tree => (hw.pending _ tree).seen) (fun tree => (hstir.grounded.pending _ tree).seen),
    ha.serves⟩
  · obtain ⟨h, hreach⟩ := ha.bookmarks tree b hb
    obtain ⟨h', -, hreach'⟩ := hreach.stir hstir
    exact ⟨h', hreach'⟩
  · obtain ⟨h, hreach⟩ := ha.bookmarks tree b hb
    exact ⟨h, hreach.found, hreach.within⟩

theorem attends_start {request : Request} {mode : RouteMode}
    {caller : Option Caller} (hkeys : bookmarks.keys = Session.treesOf request mode caller)
    (hreach : ∀ tree b, bookmarks.find? tree = some b → ∃ h, w.Reaches tree b h) :
    w.Attends policy
      (.start request mode caller policy bookmarks (w.replicasOf bookmarks)) := by
  refine ⟨fun tree => ?_, hreach, ?_, serves_start request mode caller policy _⟩
  · rw [Client.start, ← hkeys, SortedMap.mem_keys_iff]
  · have hview := View.receive_empty (m := Sections.message (Session.start request mode caller
      policy (w.replicasOf bookmarks)).2 .all) rfl
    have hsync := synced_start request mode caller policy (w.replicasOf bookmarks)
      (w.unreadOf bookmarks)
    dsimp only at hsync
    rw [← hview] at hsync
    exact hsync

/-- What is read of a log is not unread any more, and that of the other logs still is. -/
theorem unreadOf_modify {cursor next : Nat} {read : Holder.Unread}
    (hf : w.followed? bookmarks tree = some (h, cursor))
    (hr : h.readAt cursor = some (read, next)) :
    let bookmarks' := bookmarks.modify tree fun b => { b with cursor := next }
    (∀ e, read = .entry e →
      w.unreadOf bookmarks tree = e.change?.toList ++ w.unreadOf bookmarks' tree) ∧
    ∀ other, other ≠ tree → w.unreadOf bookmarks other = w.unreadOf bookmarks' other := by
  have hmodify := w.followed?_modify bookmarks tree next
  refine ⟨fun e he => ?_, fun other hne => ?_⟩
  · subst he
    obtain ⟨rfl, hdrop⟩ := Holder.readAt_entry hr
    rw [unreadOf, unreadOf, hmodify, if_pos rfl, hf]
    exact Holder.unread_of_drop hdrop
  · rw [unreadOf, unreadOf, hmodify, if_neg hne]

/-- **The session reads on** and, unless the holder has closed, keeps its client in step. -/
theorem Attends.read (ha : w.Attends policy c) (hw : w.Grounded) {cursor next : Nat}
    {unread : Holder.Unread} (hf : w.followed? c.bookmarks tree = some (h, cursor))
    (hr : h.readAt cursor = some (unread, next))
    (hopen : (c.handle (w.replicasOf c.bookmarks) policy tree unread next).isOpen = true) :
    w.Attends policy (c.handle (w.replicasOf c.bookmarks) policy tree unread next) := by
  obtain ⟨hhere, helsewhere⟩ := unreadOf_modify hf hr
  refine ⟨fun other => ?_, fun _ _ => reaches_handle hw ha.bookmarks hf hr hopen, ?_,
    ha.serves.react _ _ _ _⟩
  · rw [isSome_bookmark_handle]
    exact ha.trees other
  · rw [Client.view_handle, Client.handle]
    dsimp only
    rw [replicasOf_modify]
    exact ha.synced.react (hw.pending _) hhere helsewhere

/-- **An open session stays in step.** -/
theorem attends_kept (policy : Policy) :
    Kept policy fun w c => c.isOpen = true → w.Attends policy c where
  stir _ _ _ hw hstir ha hopen := (ha hopen).stir hw hstir
  start _ _ _ _ _ _ hkeys hreach _ := attends_start hkeys hreach
  read _ _ _ _ _ _ _ hw ha hopen hf hr hopen' := (ha hopen).read hw hf hr hopen'
  leave _ _ _ hopen := nomatch hopen

/-! ## At rest -/

/-- With every event applied and the log read to the end, a replica shows the store. -/
theorem Reaches.shows (hreach : w.Reaches tree b h) (hw : w.Grounded)
    (hb : bookmarks.find? tree = some b) (hpending : w.store.pending b.holder = [])
    (hdrop : h.log.drop b.cursor = []) :
    (w.replicasOf bookmarks tree).root = tree.root ∧
      (w.replicasOf bookmarks tree).Shows w.store := by
  have hfits := hw.holders _ _ hreach.found
  have hopen : h.isClosed = false := by
    refine Bool.eq_false_iff.2 fun hclosed => ?_
    have := hreach.closing hclosed
    have := List.drop_eq_nil_iff.1 hdrop
    omega
  have hcatch := (hfits.led hopen).pending
  rw [hpending] at hcatch
  rw [replicasOf, followed?_eq hb hreach.found]
  exact ⟨by rw [hfits.root, hreach.key], hcatch.caughtUp⟩

/-- At a bookmark of a client to whom all has come there is nothing to apply or to read. -/
theorem rest_of_isIdle (hidle : w.isIdle c = true) (hb : c.bookmarks.find? tree = some b)
    (hh : w.holders.find? b.holder = some h) :
    w.store.pending b.holder = [] ∧ h.log.drop b.cursor = [] := by
  have := List.all_eq_true.1 hidle _ (SortedMap.mem_toList_iff.2 hb)
  simp only [hh, Bool.and_eq_true, List.isEmpty_iff, Option.isNone_iff_eq_none] at this
  exact ⟨this.1, Holder.readAt_none this.2⟩

/-- A session that has read everything, of holders whose writers have applied everything. -/
theorem Attends.of_isIdle (ha : w.Attends policy c) (hw : w.Grounded)
    (hidle : w.isIdle c = true) :
    (∀ tree, w.unreadOf c.bookmarks tree = []) ∧
      ∀ tree ∈ Session.treesOf c.request c.mode c.caller,
        (w.replicasOf c.bookmarks tree).root = tree.root ∧
          (w.replicasOf c.bookmarks tree).Shows w.store := by
  refine ⟨fun tree => ?_, fun tree htree => ?_⟩
  · rw [unreadOf]
    cases hb : c.bookmarks.find? tree with
    | none => rw [followed?, hb, Option.bind_none]
    | some b =>
      obtain ⟨h, hreach⟩ := ha.bookmarks tree b hb
      rw [followed?_eq hb hreach.found]
      dsimp only
      rw [Holder.unread, (rest_of_isIdle hidle hb hreach.found).2]
      rfl
  · obtain ⟨b, hb⟩ := Option.isSome_iff_exists.1 ((ha.trees tree).2 htree)
    obtain ⟨h, hreach⟩ := ha.bookmarks tree b hb
    obtain ⟨hpending, hdrop⟩ := rest_of_isIdle hidle hb hreach.found
    exact hreach.shows hw hb hpending hdrop

/-- Two replicas of a tree that show a store have the same values. -/
theorem value?_of_shows {r r' : Replica} {s : Store} (h : r.Shows s) (h' : r'.Shows s)
    (hroot : r.root = r'.root) (level : Level) : r.value? level = r'.value? level := by
  have hvalue : ∀ x : Replica, x.value? level = ((x.node? level).map Node.core).map Prod.fst := by
    intro x
    rw [Replica.value?, Option.map_map]
    rfl
  rw [hvalue, hvalue, h.cores, h'.cores, hroot]

/-- **A session brings its client to what a new session would send.**  After every run in which
the session is still open, its holders' writers have applied every event and the session has read
their logs to the end, its replicas are the subtrees of the store, and the client holds what the
first `all` of a new session would carry, whether it reads these replicas or any others that show
the store. -/
theorem view_eq_start (policy : Policy) (acts : List Act) (c : Client)
    (hclient : (empty.run policy acts).client = some c) (hopen : c.isOpen = true)
    (hidle : (empty.run policy acts).isIdle c = true) :
    let w := empty.run policy acts
    (∀ tree ∈ Session.treesOf c.request c.mode c.caller,
      (w.replicasOf c.bookmarks tree).IsSubtreeOf w.store) ∧
    c.view = View.ofMessage ((Session.start c.request c.mode c.caller policy
      (w.replicasOf c.bookmarks)).2.message .all) ∧
    ∀ fresh : Replicas,
      (∀ tree ∈ Session.treesOf c.request c.mode c.caller,
        (fresh tree).root = tree.root ∧ (fresh tree).Shows w.store) →
      c.view = View.ofMessage
        ((Session.start c.request c.mode c.caller policy fresh).2.message .all) := by
  intro w
  have hw := (attends_kept policy).run acts
  have ha := hw.client c hclient hopen
  obtain ⟨hunread, hshows⟩ := ha.of_isIdle hw.grounded hidle
  have hs := fun tree => (hw.grounded.pending c.bookmarks tree).seen
  refine ⟨fun tree htree => (hshows tree htree).2.isSubtreeOf,
    ha.synced.view_eq ha.serves hunread hs fun tree _ => ⟨hs tree, fun _ => rfl⟩,
    fun fresh hfresh => ?_⟩
  refine ha.synced.view_eq ha.serves hunread hs fun tree htree => ?_
  obtain ⟨hroot, hshow⟩ := hshows tree htree
  obtain ⟨hroot', hshow'⟩ := hfresh tree htree
  exact ⟨hshow'.seen, value?_of_shows hshow hshow' (hroot.trans hroot'.symm)⟩

/-- The session of a run in which the replica was ahead of all that it read. -/
theorem view_eq_start_shopRun :
    let w := empty.run .standard shopRun
    w.client = some shopClient ∧ shopClient.isOpen = true ∧ w.isIdle shopClient = true ∧
      shopClient.view = View.ofMessage ((Session.start shopClient.request shopClient.mode
        shopClient.caller .standard (w.replicasOf shopClient.bookmarks)).2.message .all) := by
  intro w
  have hrest : shopClient.isOpen = true ∧ w.isIdle shopClient = true := by decide +kernel
  exact ⟨client_shopRun, hrest.1, hrest.2,
    (view_eq_start .standard shopRun shopClient client_shopRun hrest.1 hrest.2).2.1⟩

end World

end Treecast
