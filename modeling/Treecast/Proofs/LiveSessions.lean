import Treecast.Proofs.Emissions
import Treecast.Proofs.Interleaving
import Treecast.Proofs.LifeCycle

/-!
# The sessions of a service are those of worlds

A world has one session, which reads its holders by bookmarks.  In a service a session reads the
holders that its leases are on, has a channel and a backlog, and ends for reasons of its own.  Where
the leases of a live session are on the holders that a client has its bookmarks in, the two start
alike and go on alike while the holders move on: a step of the live session is a read of the client,
its departure, or nothing to it, and what the one has sent, with what it has left to send, is what
the other was sent.

What is proved of the clients of worlds is in this way said of the sessions of a service.

## Results

* `Service.Mirrors`, `Service.Tracks`: a live session is that of a client, and what it has sent is
  what the client was sent.
* `Service.startSession_tracks`, `Service.finds_bookmarksOf`: so it is at its start, and there is a
  world for every start.
* `Service.Tracks.write`, `Service.Tracks.close`: so it stays when a holder of both moves on.
* `Service.Mirrors.read`, `Service.Tracks.handleUnread`: the two read the same, and go on alike.
* `Service.Tracks.stepSession`, `Service.Tracks.runSession`: so it is after every step, and as long
  as the session runs.
-/

set_option autoImplicit false

namespace Treecast

open Routing

/-- A client is sent what its session makes of what it reads, and stays unless the session ends. -/
theorem Client.handle_spec (c : Client) (replicas : Replicas) (policy : Policy) (tree : TreeKey)
    (unread : Holder.Unread) (cursor : Nat) :
    let r := c.session.react replicas policy tree unread
    (c.handle replicas policy tree unread cursor).history.flatMap Note.messages =
        c.history.flatMap Note.messages ++ r.messages ∧
      (c.handle replicas policy tree unread cursor).isOpen = !r.ends := by
  rw [Client.handle, List.flatMap_append]
  exact ⟨by simp only [List.flatMap_singleton], rfl⟩

namespace Service

variable {sv sv' : Service} {live : LiveSession} {leases : SortedMap TreeKey Nat} {w : World}
  {c : Client} {bookmarks : SortedMap TreeKey Bookmark} {id : Nat} {sent : List Message}

/-! ## What a live session reads -/

/-- The holder that a session reads a tree from. -/
def source? (sv : Service) (leases : SortedMap TreeKey Nat) (tree : TreeKey) : Option Holder :=
  ((leases.find? tree).bind sv.leasedHolder?).bind sv.holder?

/-- The leases are on the holders that the bookmarks are in. -/
def SameSources (sv : Service) (leases : SortedMap TreeKey Nat) (w : World)
    (bookmarks : SortedMap TreeKey Bookmark) : Prop :=
  ∀ tree, sv.source? leases tree = (w.followed? bookmarks tree).map Prod.fst

theorem SameSources.replicasOf (h : sv.SameSources leases w bookmarks) :
    sv.replicasOf leases = w.replicasOf bookmarks := by
  funext tree
  have htree := h tree
  rw [source?] at htree
  rw [Service.replicasOf, World.replicasOf, htree]
  cases w.followed? bookmarks tree <;> rfl

/-- A session of a service is in the state of a client, reads the same holders and has got as far
in their logs. -/
structure Mirrors (sv : Service) (live : LiveSession) (w : World) (c : Client) : Prop where
  session : live.session = c.session
  sources : sv.SameSources live.leases w c.bookmarks
  cursors : ∀ tree, live.cursors.find? tree = (c.bookmarks.find? tree).map Bookmark.cursor

/-- Who the client of the world is does not matter to its holders. -/
theorem Mirrors.withClient (h : Mirrors sv live w c) (client : Option Client) :
    Mirrors sv live { w with client } c :=
  ⟨h.session, h.sources, h.cursors⟩

/-- No lease and no holder changes, and the policy does not. -/
structure Undisturbed (sv sv' : Service) : Prop where
  leases : sv'.hub.leases = sv.hub.leases
  holders : sv'.hub.holders = sv.hub.holders
  alone : sv'.alone = sv.alone
  policy : sv'.policy = sv.policy

theorem Undisturbed.trans {sv'' : Service} (hfirst : Undisturbed sv sv')
    (hmore : Undisturbed sv' sv'') : Undisturbed sv sv'' :=
  ⟨hmore.leases.trans hfirst.leases, hmore.holders.trans hfirst.holders,
    hmore.alone.trans hfirst.alone, hmore.policy.trans hfirst.policy⟩

theorem Undisturbed.source? (h : Undisturbed sv sv') (leases : SortedMap TreeKey Nat)
    (tree : TreeKey) : sv'.source? leases tree = sv.source? leases tree := by
  have hlease : sv'.leasedHolder? = sv.leasedHolder? := by
    funext lease
    rw [leasedHolder?, leasedHolder?, h.leases]
  have hholder : sv'.holder? = sv.holder? := by
    funext ref
    cases ref with
    | ofHub id => rw [holder?, holder?, Hub.holder?, Hub.holder?, h.holders]
    | alone id => rw [holder?, holder?, h.alone]
  rw [Service.source?, Service.source?, hlease, hholder]

/-- Where nothing is disturbed, it does not matter what is in the channel and left to send. -/
theorem Mirrors.undisturbed (h : Mirrors sv live w c) (hsame : Undisturbed sv sv')
    (channel backlog : List Message) :
    Mirrors sv' { live with channel := channel, backlog := backlog } w c :=
  ⟨h.session, fun tree => (hsame.source? _ tree).trans (h.sources tree), h.cursors⟩

/-- A session that has sent so much is that of the client of a world, who was sent what the session
has left to send besides; or the session and the client have left. -/
inductive Tracks (sv : Service) (id : Nat) (sent : List Message) (w : World) : Prop where
  | runs (live : LiveSession) (c : Client) (hs : sv.sessions.find? id = some live)
    (hrunning : live.ended = false) (hclient : w.client = some c) (hopen : c.isOpen = true)
    (hmirrors : Mirrors sv live w c)
    (hsent : sent ++ live.backlog = c.history.flatMap Note.messages) : Tracks sv id sent w
  | parted (c : Client) (hended : ∀ live, sv.sessions.find? id = some live → live.ended = true)
    (hclient : w.client = some c) (hclosed : c.isOpen = false)
    (hsent : sent <+: c.history.flatMap Note.messages) : Tracks sv id sent w

/-- Whatever else happens to the service and to the world does not matter, as long as the session
and the client are left alone and still read the same holders. -/
theorem Tracks.moved {w' : World} (h : Tracks sv id sent w)
    (hsession : sv'.sessions.find? id = sv.sessions.find? id) (hclient : w'.client = w.client)
    (hsources : ∀ live c, sv.sessions.find? id = some live → w.client = some c →
      sv.SameSources live.leases w c.bookmarks → sv'.SameSources live.leases w' c.bookmarks) :
    Tracks sv' id sent w' := by
  cases h with
  | runs live c hs hrunning hc hopen hmirrors hsent =>
    exact .runs live c (hsession.trans hs) hrunning (hclient.trans hc) hopen
      ⟨hmirrors.session, hsources live c hs hc hmirrors.sources, hmirrors.cursors⟩
      hsent
  | parted c hended hc hclosed hsent =>
    exact .parted c (fun live hs => hended live (hsession.symm.trans hs)) (hclient.trans hc) hclosed
      hsent

/-! ## Holders that move on -/

/-- Of the trees that a session reads, those on one holder of the service are those that the client
reads from one holder of the world. -/
def SameReaders (sv : Service) (leases : SortedMap TreeKey Nat) (ref : HolderRef)
    (bookmarks : SortedMap TreeKey Bookmark) (number : Nat) : Prop :=
  ∀ tree, (leases.find? tree).bind sv.leasedHolder? = some ref ↔
    (bookmarks.find? tree).map Bookmark.holder = some number

theorem source?_updateHolder (sv : Service) (ref : HolderRef) (f : Holder → Holder)
    (leases : SortedMap TreeKey Nat) (tree : TreeKey) :
    (sv.updateHolder ref f).source? leases tree = (sv.source? leases tree).map fun h =>
      if (leases.find? tree).bind sv.leasedHolder? = some ref then f h else h := by
  have hlease : (sv.updateHolder ref f).leasedHolder? = sv.leasedHolder? := by
    cases ref <;> rfl
  rw [source?, source?, hlease]
  cases (leases.find? tree).bind sv.leasedHolder? with
  | none => rfl
  | some other =>
    rw [Option.bind_some, Option.bind_some, holder?_updateHolder]
    simp only [Option.some.injEq]

theorem followed?_modify (w : World) (number : Nat) (f : Holder → Holder)
    (bookmarks : SortedMap TreeKey Bookmark) (tree : TreeKey) :
    (World.followed? { w with holders := w.holders.modify number f } bookmarks tree).map Prod.fst =
      ((w.followed? bookmarks tree).map Prod.fst).map fun h =>
        if (bookmarks.find? tree).map Bookmark.holder = some number then f h else h := by
  rw [World.followed?, World.followed?]
  cases bookmarks.find? tree with
  | none => rfl
  | some b =>
    rw [Option.bind_some, Option.bind_some, SortedMap.find?_modify]
    by_cases heq : b.holder = number
    · subst heq
      simp [Function.comp_def]
    · simp [heq, Function.comp_def]

/-- **A holder moves on** in the service and in the world alike. -/
theorem Tracks.updateHolder {w' : World} (h : Tracks sv id sent w) {ref : HolderRef} {number : Nat}
    {f : Holder → Holder}
    (hreaders : ∀ live c, sv.sessions.find? id = some live → w.client = some c →
      sv.SameReaders live.leases ref c.bookmarks number)
    (hholders : w'.holders = w.holders.modify number f) (hclient : w'.client = w.client) :
    Tracks (sv.updateHolder ref f) id sent w' := by
  have hsessions : (sv.updateHolder ref f).sessions = sv.sessions := by
    cases ref <;> rfl
  refine h.moved (hsessions ▸ rfl) hclient fun live c hs hc hsources tree => ?_
  have hfollowed : w'.followed? c.bookmarks tree =
      World.followed? { w with holders := w.holders.modify number f } c.bookmarks tree := by
    rw [World.followed?, World.followed?, hholders]
  rw [hfollowed, source?_updateHolder, followed?_modify, hsources tree]
  simp only [hreaders live c hs hc tree]

/-- The writer of a holder applies the next event. -/
theorem Tracks.write (h : Tracks sv id sent w) {ref : HolderRef} {number : Nat} {holder : Holder}
    {event : StoreEvent} {rest : List StoreEvent}
    (hreaders : ∀ live c, sv.sessions.find? id = some live → w.client = some c →
      sv.SameReaders live.leases ref c.bookmarks number)
    (hfound : w.holders.find? number = some holder) (hopen : holder.isClosed = false)
    (hpending : w.store.pending number = event :: rest) :
    Tracks (sv.updateHolder ref fun x => x.handleAll [event]) id sent (w.write number) := by
  have hwrite : w.write number =
      { w with
        store := w.store.takeFirst number
        holders := w.holders.insert number (holder.handleAll [event]) } := by
    rw [World.write, hfound]
    dsimp only
    rw [hopen, hpending]
    rfl
  rw [hwrite]
  exact h.updateHolder hreaders (by rw [SortedMap.modify, hfound]) rfl

/-- A holder closes. -/
theorem Tracks.close (h : Tracks sv id sent w) {ref : HolderRef} {number : Nat} {holder : Holder}
    (hreaders : ∀ live c, sv.sessions.find? id = some live → w.client = some c →
      sv.SameReaders live.leases ref c.bookmarks number)
    (hfound : w.holders.find? number = some holder) :
    Tracks (sv.updateHolder ref Holder.close) id sent (w.close number) := by
  rw [World.close, hfound]
  exact h.updateHolder hreaders (by rw [SortedMap.modify, hfound]) rfl

/-! ## Sending disturbs nothing -/

theorem undisturbed_deliver (sv : Service) (name : String) (reader : Reader) (m : Message) :
    Undisturbed sv (sv.deliver name reader m) := by
  cases reader with
  | poll session hijack keepalive =>
    simp only [Service.deliver]
    split <;> exact ⟨rfl, rfl, rfl, rfl⟩
  | _ => exact ⟨rfl, rfl, rfl, rfl⟩

theorem undisturbed_emit (sv : Service) (id : Nat) (m : Message) :
    Undisturbed sv (sv.emit id m).1 := by
  unfold Service.emit
  dsimp only
  split
  · split
    · split <;> exact ⟨rfl, rfl, rfl, rfl⟩
    · exact ⟨rfl, rfl, rfl, rfl⟩
  · have hcounted : Undisturbed sv ((sv.count (.messages m.kind)).stir) := ⟨rfl, rfl, rfl, rfl⟩
    exact hcounted.trans (undisturbed_deliver _ _ _ m)
  · exact ⟨rfl, rfl, rfl, rfl⟩

theorem sessions_deliver (sv : Service) (name : String) (reader : Reader) (m : Message) :
    (sv.deliver name reader m).sessions = sv.sessions := by
  cases reader with
  | poll session hijack keepalive =>
    simp only [Service.deliver]
    split <;> rfl
  | _ => rfl

/-- Of a session that sends nothing changes but the channel. -/
theorem find?_emit (hs : sv.sessions.find? id = some live) (m : Message) : ∃ channel,
    (sv.emit id m).1.sessions.find? id = some { live with channel := channel } := by
  have hkept : ∃ channel, sv.sessions.find? id = some { live with channel := channel } :=
    ⟨live.channel, hs⟩
  unfold Service.emit
  dsimp only
  split
  · rw [hs]
    dsimp only
    split
    · refine ⟨live.channel ++ [m], find?_updateSession ?_ _⟩
      exact hs
    · exact hkept
  · rw [sessions_deliver]
    exact hkept
  · exact hkept

/-- **What is sent and what is left** is what was to be sent, and nothing else has changed. -/
theorem emitAll_spec (messages : List Message) : ∀ {sv : Service} {live : LiveSession},
    sv.sessions.find? id = some live →
      Undisturbed sv (sv.emitAll id messages).1 ∧
      (∃ channel, (sv.emitAll id messages).1.sessions.find? id =
        some { live with channel := channel }) ∧
      sv.emitted id messages ++ (sv.emitAll id messages).2 = messages := by
  induction messages with
  | nil => exact fun hs => ⟨⟨rfl, rfl, rfl, rfl⟩, ⟨_, hs⟩, rfl⟩
  | cons m rest ih =>
    intro sv live hs
    have hsame := undisturbed_emit sv id m
    obtain ⟨channel, hput⟩ := find?_emit hs m
    rw [Service.emitAll, emitted]
    generalize sv.emit id m = r at hsame hput ⊢
    obtain ⟨put, _ | _⟩ := r
    · exact ⟨hsame, ⟨channel, hput⟩, rfl⟩
    · obtain ⟨hmore, hrest, hall⟩ := ih hput
      exact ⟨hsame.trans hmore, hrest, congrArg (m :: ·) hall⟩

/-! ## Starts -/

theorem undisturbed_dropReader (sv : Service) (name : String) :
    Undisturbed sv (sv.dropReader name).1 := by
  unfold Service.dropReader
  split
  · exact ⟨rfl, rfl, rfl, rfl⟩
  rename_i reader _
  cases reader with
  | events feed => exact ⟨rfl, rfl, rfl, rfl⟩
  | log holder cursor => exact ⟨rfl, rfl, rfl, rfl⟩
  | slow | prompt | poll =>
    dsimp only
    split
    · split <;> exact ⟨rfl, rfl, rfl, rfl⟩
    · exact ⟨rfl, rfl, rfl, rfl⟩

theorem undisturbed_openSession (sv : Service) (l : Launching) (session : Session)
    (leases : SortedMap TreeKey Nat) : Undisturbed sv (sv.openSession l session leases) := by
  have hdropped := undisturbed_dropReader sv l.outlet.reader
  unfold Service.openSession
  dsimp only
  generalize sv.dropReader l.outlet.reader = r at hdropped ⊢
  exact ⟨hdropped.leases, hdropped.holders, hdropped.alone, hdropped.policy⟩

/-- A session that starts is there on its leases, reads on at the ends of the logs and has nothing
left to send. -/
structure Starts (sv : Service) (l : Launching) (leases : SortedMap TreeKey Nat)
    (live : LiveSession) : Prop where
  session : live.session = (Session.start l.request l.options.mode l.options.caller sv.policy
    (sv.replicasOf leases)).1
  onLeases : live.leases = leases
  cursors : live.cursors = sv.cursorsAtEnd leases
  backlog : live.backlog = []
  running : live.ended = false

theorem startSession_spec (sv : Service) (l : Launching) (leases : SortedMap TreeKey Nat) :
    Undisturbed sv (sv.startSession l leases) ∧
      ∃ live, (sv.startSession l leases).sessions.find? sv.nextSession = some live ∧
        sv.Starts l leases live := by
  unfold Service.startSession
  dsimp only
  generalize hsession : (Session.start l.request l.options.mode l.options.caller sv.policy
    (sv.replicasOf leases)).1 = session
  have hopened := sv.undisturbed_openSession l session leases
  obtain ⟨live, hlive, hstarts⟩ : ∃ live,
      (sv.openSession l session leases).sessions.find? sv.nextSession = some live ∧
        sv.Starts l leases live :=
    ⟨_, (SortedMap.find?_insert ..).trans (if_pos rfl), hsession.symm, rfl, rfl, rfl, rfl⟩
  obtain ⟨hgreeted, ⟨channel, hput⟩, -⟩ := emitAll_spec (sv.greeting l leases) hlive
  have hsame := hopened.trans hgreeted
  generalize ((sv.openSession l session leases).emitAll sv.nextSession (sv.greeting l leases)).1 =
    greeted at hput hsame ⊢
  obtain ⟨meters, backend, hdeclared⟩ := exists_declareAll greeted session
  rw [hdeclared]
  exact ⟨⟨hsame.leases, hsame.holders, hsame.alone, hsame.policy⟩, { live with channel := channel },
    hput, hstarts.session, hstarts.onLeases, hstarts.cursors, hstarts.backlog, hstarts.running⟩

/-- The bookmarks that a session finds which starts: one for each tree that it is to read, in the
open holder that its lease is on, at the end of the log. -/
structure Finds (sv : Service) (l : Launching) (leases : SortedMap TreeKey Nat) (w : World)
    (bookmarks : SortedMap TreeKey Bookmark) : Prop where
  sources : sv.SameSources leases w bookmarks
  atEnd : ∀ tree, (sv.cursorsAtEnd leases).find? tree =
    (bookmarks.find? tree).map Bookmark.cursor
  trees : bookmarks.keys = Session.treesOf l.request l.options.mode l.options.caller
  follow : ∀ e ∈ bookmarks.toList, w.canFollow e.1 e.2 = true

/-- **A session that starts** is that of the client who starts with the bookmarks that it finds.
The first message of the client is what the session sends at once, if it was asked for. -/
theorem startSession_tracks {l : Launching} (h : sv.Finds l leases w bookmarks) :
    ∃ first, sv.greeting l leases = (if l.options.initial then [first] else []) ∧
      Tracks (sv.startSession l leases) sv.nextSession [first]
        (w.start sv.policy l.request l.options.mode l.options.caller bookmarks) := by
  have hreplicas := h.sources.replicasOf
  obtain ⟨hsame, live, hlive, hstarts⟩ := sv.startSession_spec l leases
  have hmirrors : Mirrors (sv.startSession l leases) live w (.start l.request l.options.mode
      l.options.caller sv.policy bookmarks (w.replicasOf bookmarks)) := by
    refine ⟨?_, fun tree => ?_, fun tree => ?_⟩
    · rw [hstarts.session, hreplicas]
      rfl
    · rw [hstarts.onLeases, hsame.source?]
      exact h.sources tree
    · rw [hstarts.cursors]
      exact h.atEnd tree
  rw [World.start, if_pos ⟨h.trees, List.all_eq_true.2 h.follow⟩]
  refine ⟨(Session.start l.request l.options.mode l.options.caller sv.policy
    (w.replicasOf bookmarks)).2.message .all, ?_,
    .runs live _ hlive hstarts.running rfl rfl (hmirrors.withClient _) ?_⟩
  · rw [greeting, hreplicas]
  · rw [hstarts.backlog]
    rfl

/-- The store and the holders of the hub, with the numbers that they have there. -/
def holdersWorld (sv : Service) : World := ⟨sv.backend.store, sv.hub.holders, none⟩

/-- Bookmarks in the holders of the hub that the leases are on, at the ends of their logs. -/
def bookmarksOf (sv : Service) (leases : SortedMap TreeKey Nat) : SortedMap TreeKey Bookmark :=
  leases.map fun tree lease =>
    { holder := ((sv.hub.leases.find? lease).map Lease.holder).getD 0
      cursor := ((sv.cursorsAtEnd leases).find? tree).getD 0 }

/-- **Every session that starts** on open holders of the trees that it reads finds such
bookmarks. -/
theorem finds_bookmarksOf {l : Launching}
    (htrees : leases.keys = Session.treesOf l.request l.options.mode l.options.caller)
    (hheld : ∀ tree lease, leases.find? tree = some lease → ∃ held holder,
      sv.hub.leases.find? lease = some held ∧ sv.hub.holder? held.holder = some holder ∧
      holder.key = tree ∧ holder.isClosed = false) :
    sv.Finds l leases sv.holdersWorld (sv.bookmarksOf leases) := by
  -- what is found for a tree with a lease
  have hfinds : ∀ tree lease, leases.find? tree = some lease → ∃ held holder,
      sv.source? leases tree = some holder ∧
      (sv.cursorsAtEnd leases).find? tree = some holder.log.length ∧
      (sv.bookmarksOf leases).find? tree = some ⟨held, holder.log.length⟩ ∧
      sv.hub.holders.find? held = some holder ∧ holder.key = tree ∧ holder.isClosed = false := by
    intro tree lease hlease
    obtain ⟨held, holder, hfound, hholder, hkey, hopen⟩ := hheld tree lease hlease
    have hcursor : (sv.cursorsAtEnd leases).find? tree = some holder.log.length := by
      simp [cursorsAtEnd, hlease, leasedHolder?, hfound, Service.holder?, hholder]
    refine ⟨held.holder, holder, ?_, hcursor, ?_, hholder, hkey, hopen⟩
    · simp [source?, hlease, leasedHolder?, hfound, Service.holder?, hholder]
    · simp [bookmarksOf, hlease, hfound, hcursor]
  refine ⟨fun tree => ?_, fun tree => ?_, ?_, fun e he => ?_⟩
  · cases hlease : leases.find? tree with
    | none => simp [source?, World.followed?, bookmarksOf, hlease]
    | some lease =>
      obtain ⟨held, holder, hsource, -, hb, hnumber, -, -⟩ := hfinds tree lease hlease
      simp [hsource, World.followed?, holdersWorld, hb, hnumber]
  · cases hlease : leases.find? tree with
    | none => simp [cursorsAtEnd, bookmarksOf, hlease]
    | some lease =>
      obtain ⟨held, holder, -, hcursor, hb, -, -, -⟩ := hfinds tree lease hlease
      rw [hcursor, hb, Option.map_some]
  · rw [← htrees]
    simp [bookmarksOf, SortedMap.keys, SortedMap.map, Function.comp_def]
  · have hb := SortedMap.mem_toList_iff.1 he
    have hlisted := hb
    rw [bookmarksOf, SortedMap.find?_map] at hlisted
    obtain ⟨lease, hlease, -⟩ := Option.map_eq_some_iff.1 hlisted
    obtain ⟨held, holder, -, -, hb', hnumber, hkey, hopen⟩ := hfinds e.1 lease hlease
    rw [Option.some.inj (hb.symm.trans hb')]
    simp [World.canFollow, holdersWorld, hnumber, hkey, hopen]

/-! ## Reading on -/

/-- What a session reads next is in the log of the holder that its lease is on. -/
theorem unreadOf?_spec {tree : TreeKey} {unread : Holder.Unread} {cursor : Nat}
    (hunread : sv.unreadOf? live = some (tree, unread, cursor)) :
    ∃ seen h, live.cursors.find? tree = some seen ∧ sv.source? live.leases tree = some h ∧
      h.readAt seen = some (unread, cursor) := by
  obtain ⟨⟨key, seen⟩, hmem, hread⟩ := List.exists_of_findSome?_eq_some hunread
  obtain ⟨h, hsource, hread⟩ := Option.bind_eq_some_iff.1 hread
  obtain ⟨⟨found, next⟩, hat, heq⟩ := Option.map_eq_some_iff.1 hread
  cases heq
  exact ⟨seen, h, SortedMap.mem_toList_iff.1 hmem, hsource, hat⟩

/-- The client has its bookmark where the session reads. -/
theorem Mirrors.followed? (h : Mirrors sv live w c) {tree : TreeKey} {seen : Nat} {holder : Holder}
    (hseen : live.cursors.find? tree = some seen)
    (hsource : sv.source? live.leases tree = some holder) :
    w.followed? c.bookmarks tree = some (holder, seen) := by
  obtain ⟨b, hb, rfl⟩ := Option.map_eq_some_iff.1 ((h.cursors tree).symm.trans hseen)
  have hfound := (h.sources tree).symm.trans hsource
  rw [World.followed?, hb, Option.bind_some] at hfound ⊢
  cases hholder : w.holders.find? b.holder with
  | none =>
    rw [hholder] at hfound
    cases hfound
  | some found =>
    rw [hholder] at hfound
    cases hfound
    rfl

/-- The client reads what the session reads. -/
theorem Mirrors.read (h : Mirrors sv live w c) (hclient : w.client = some c)
    (hopen : c.isOpen = true) {tree : TreeKey} {unread : Holder.Unread} {cursor : Nat}
    (hunread : sv.unreadOf? live = some (tree, unread, cursor)) :
    w.read sv.policy tree = { w with
      client := some (c.handle (sv.replicasOf live.leases) sv.policy tree unread cursor) } := by
  obtain ⟨seen, holder, hseen, hsource, hread⟩ := unreadOf?_spec hunread
  rw [World.read, hclient]
  dsimp only
  rw [if_pos hopen, h.followed? hseen hsource]
  dsimp only
  rw [hread, h.sources.replicasOf]

/-- The bookmark of a client that has read on is in the same holder. -/
theorem followed?_handle (w : World) (c : Client) (replicas : Replicas) (policy : Policy)
    (tree : TreeKey) (unread : Holder.Unread) (cursor : Nat) (other : TreeKey) :
    (w.followed? (c.handle replicas policy tree unread cursor).bookmarks other).map Prod.fst =
      (w.followed? c.bookmarks other).map Prod.fst := by
  rw [Client.handle, World.followed?, World.followed?, SortedMap.find?_modify]
  split
  · rename_i heq
    subst heq
    cases c.bookmarks.find? other with
    | none => rfl
    | some b =>
      rw [Option.map_some, Option.bind_some, Option.bind_some, Option.map_map, Option.map_map]
      rfl
  · rfl

/-- **A session that reads on** is that of a client who reads on in the same log. -/
theorem Mirrors.handle (h : Mirrors sv live w c) {tree : TreeKey} {unread : Holder.Unread}
    {cursor : Nat} (hunread : sv.unreadOf? live = some (tree, unread, cursor)) :
    let r := live.session.react (sv.replicasOf live.leases) sv.policy tree unread
    Mirrors sv { live with session := r.session, cursors := live.cursors.insert tree cursor } w
      (c.handle (sv.replicasOf live.leases) sv.policy tree unread cursor) := by
  obtain ⟨seen, holder, hseen, -, -⟩ := unreadOf?_spec hunread
  obtain ⟨b, hb, -⟩ := Option.map_eq_some_iff.1 ((h.cursors tree).symm.trans hseen)
  refine ⟨?_, fun other => ?_, fun other => ?_⟩
  · dsimp only
    rw [h.session]
    rfl
  · rw [followed?_handle]
    exact h.sources other
  · rw [Client.handle, SortedMap.find?_insert, SortedMap.find?_modify]
    split
    · rw [hb]
      rfl
    · exact h.cursors other

/-! ## Steps -/

/-- What a client does of its own accord. -/
def IsOwn : Treecast.Act → Prop
  | .read _ | .leave => True
  | _ => False

theorem ended_endSession (sv : Service) (id : Nat) :
    (sv.endSession id).policy = sv.policy ∧
      ∀ live, (sv.endSession id).sessions.find? id = some live → live.ended = true := by
  unfold Service.endSession
  split
  · rename_i hnone
    exact ⟨rfl, fun live hlive => nomatch hnone.symm.trans hlive⟩
  rename_i s hs
  dsimp only
  obtain ⟨hub, clock, heq⟩ := exists_dropLeases s.leases.values
    { sv with hub := { sv.hub with meters := sv.hub.meters.discount .watchers } }
  rw [heq]
  have hgone : ∀ live, (sv.sessions.erase id).find? id = some live → live.ended = true := by
    intro live hlive
    rw [SortedMap.find?_erase, if_pos rfl] at hlive
    cases hlive
  split
  · refine ⟨rfl, fun live hlive => ?_⟩
    rw [updateSession, SortedMap.find?_modify, if_pos rfl] at hlive
    obtain ⟨_, -, rfl⟩ := Option.map_eq_some_iff.1 hlive
    rfl
  · exact ⟨rfl, hgone⟩
  · exact ⟨rfl, hgone⟩

/-- The session reads, and so does the client. -/
theorem Tracks.handleUnread (hs : sv.sessions.find? id = some live) (hrunning : live.ended = false)
    (hclient : w.client = some c) (hopen : c.isOpen = true) (hmirrors : Mirrors sv live w c)
    (hsent : sent = c.history.flatMap Note.messages) {tree : TreeKey} {unread : Holder.Unread}
    {cursor : Nat} (hunread : sv.unreadOf? live = some (tree, unread, cursor)) :
    (sv.handleUnread id live tree unread cursor).policy = sv.policy ∧
      Tracks (sv.handleUnread id live tree unread cursor) id sent (w.read sv.policy tree) := by
  obtain ⟨meters, -, heq⟩ := sv.handleUnread_eq id live tree unread cursor
  have hnext := hmirrors.handle hunread
  obtain ⟨hmessages, hstays⟩ :=
    c.handle_spec (sv.replicasOf live.leases) sv.policy tree unread cursor
  rw [← hsent, ← hmirrors.session] at hmessages
  rw [← hmirrors.session] at hstays
  rw [hmirrors.read hclient hopen hunread, heq]
  dsimp only at hnext ⊢
  generalize live.session.react (sv.replicasOf live.leases) sv.policy tree unread = r at *
  split
  · rename_i hends
    obtain ⟨hpolicy, hended⟩ := ended_endSession (updateSession
      { sv with hub := { sv.hub with meters := meters } } id fun s =>
        { s with session := r.session, cursors := s.cursors.insert tree cursor,
                 backlog := r.messages }) id
    refine ⟨hpolicy, .parted _ hended rfl ?_ ⟨r.messages, hmessages.symm⟩⟩
    rw [hstays, hends]
    rfl
  · rename_i hends
    refine ⟨rfl, .runs _ _ (find?_updateSession ?_ _) hrunning rfl ?_ ?_ hmessages.symm⟩
    · exact hs
    · rw [hstays, Bool.eq_false_iff.2 hends]
      rfl
    · refine (hnext.undisturbed ?_ live.channel r.messages).withClient _
      exact ⟨rfl, rfl, rfl, rfl⟩

/-- **A step of a session** is a read of the client, its departure, or nothing to it. -/
theorem Tracks.stepSession (h : Tracks sv id sent w) :
    (sv.stepSession id).1.policy = sv.policy ∧
      ∃ acts : List Treecast.Act, acts.length ≤ 1 ∧ (∀ a ∈ acts, IsOwn a) ∧
        Tracks (sv.stepSession id).1 id (sent ++ sv.sentIn id) (w.run sv.policy acts) := by
  have hstep := stepSession_stepped sv id
  generalize (sv.stepSession id).1 = after, sv.sentIn id = put at hstep ⊢
  cases h with
  | parted c hended hclient hclosed hsent =>
    cases hstep with
    | rests =>
      refine ⟨rfl, [], Nat.zero_le 1, nofun, ?_⟩
      rw [List.append_nil]
      exact .parted c hended hclient hclosed hsent
    | ends s hs hrunning => exact absurd (hended s hs) (Bool.eq_false_iff.1 hrunning)
    | reads s hs hrunning => exact absurd (hended s hs) (Bool.eq_false_iff.1 hrunning)
    | emits s hs hrunning => exact absurd (hended s hs) (Bool.eq_false_iff.1 hrunning)
  | runs live c hs hrunning hclient hopen hmirrors hsent =>
    cases hstep with
    | rests =>
      refine ⟨rfl, [], Nat.zero_le 1, nofun, ?_⟩
      rw [List.append_nil]
      exact .runs live c hs hrunning hclient hopen hmirrors hsent
    | ends s hs' hrunning' =>
      obtain ⟨hpolicy, hended⟩ := ended_endSession sv id
      refine ⟨hpolicy, [.leave], Nat.le_refl 1, by simp [IsOwn], ?_⟩
      rw [List.append_nil]
      refine .parted { c with isOpen := false } hended ?_ rfl ⟨live.backlog, hsent⟩
      simp only [World.run, List.foldl_cons, List.foldl_nil, World.act, hclient, Option.map_some]
    | reads s hs' hrunning' hempty tree unread cursor hunread =>
      cases hs.symm.trans hs'
      rw [hempty, List.append_nil] at hsent
      obtain ⟨hpolicy, htracks⟩ :=
        Tracks.handleUnread hs hrunning hclient hopen hmirrors hsent hunread
      refine ⟨hpolicy, [.read tree], Nat.le_refl 1, by simp [IsOwn], ?_⟩
      rw [List.append_nil]
      exact htracks
    | emits s hs' hrunning' =>
      cases hs.symm.trans hs'
      obtain ⟨hsame, ⟨channel, hput⟩, hall⟩ := emitAll_spec live.backlog hs
      refine ⟨hsame.policy, [], Nat.zero_le 1, nofun, ?_⟩
      refine .runs _ c (find?_updateSession hput _) hrunning hclient hopen
        (hmirrors.undisturbed (hsame.trans ?_) channel _) ?_
      · exact ⟨rfl, rfl, rfl, rfl⟩
      · rw [List.append_assoc, hall, hsent]

/-- **A session that runs until it waits** is that of a client who reads on, and perhaps leaves. -/
theorem Tracks.runSession (steps : Nat) : ∀ {sv : Service} {sent : List Message} {w : World},
    Tracks sv id sent w → ∃ (more : List Message) (acts : List Treecast.Act),
      (∀ a ∈ acts, IsOwn a) ∧
        Tracks (sv.runSession id steps) id (sent ++ more) (w.run sv.policy acts) := by
  induction steps with
  | zero =>
    intro sv sent w h
    exact ⟨[], [], nofun, by rwa [List.append_nil]⟩
  | succ steps ih =>
    intro sv sent w h
    obtain ⟨hpolicy, acts, -, hown, hstep⟩ := h.stepSession
    rw [Service.runSession]
    generalize sv.stepSession id = r at hpolicy hstep ⊢
    obtain ⟨stepped, _ | _⟩ := r
    · exact ⟨sv.sentIn id, acts, hown, hstep⟩
    · obtain ⟨more, later, hlater, hrest⟩ := ih hstep
      refine ⟨sv.sentIn id ++ more, acts ++ later, fun a ha => ?_, ?_⟩
      · exact (List.mem_append.1 ha).elim (hown a) (hlater a)
      · rw [hpolicy, List.append_assoc] at hrest
        rwa [World.run, List.foldl_append]

end Service

end Treecast
