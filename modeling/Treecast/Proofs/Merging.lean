import Treecast.Watcher
import Treecast.Proofs.ForcedRoutes

/-!
# Merging requests and replaying calls

A request is put together by calls, each of which checks the names that it is given and then changes
what is wanted of one feed.  The calls are given here as they act on a request in place, step by
step, where a refusal would leave what was changed before it: every check comes before every change,
and so a refused call changes nothing.

Whether a call is refused does not depend on the request, and what a call does to two requests that
are merged is what it does to the second one.  So a list of calls does the same to a request as
merging what the calls build from nothing.

## Results

* `SortedMap.union_assoc`, `Selection.union_assoc`, `Request.merge_assoc`, `Request.merge_self`:
  merging as an operation.
* `InPlace.call_eq`: a call in place, step by step.
* `InPlace.replay_merge`: calls on merged requests.
* `merging_replays`: merging replays the calls that built a request.
-/

set_option autoImplicit false

namespace Treecast

/-! ## Unions -/

namespace SortedMap

variable {κ ν : Type} [Ord κ] [Std.TransOrd κ] [Std.LawfulEqOrd κ] [DecidableEq κ]

omit [DecidableEq κ] in
theorem union_empty (m : SortedMap κ ν) : m.union empty = m := rfl

theorem union_assoc (m other last : SortedMap κ ν) :
    (m.union other).union last = m.union (other.union last) := by
  refine ext_find? fun key => ?_
  simp only [find?_union, Option.or_assoc]

theorem union_self (m : SortedMap κ ν) : m.union m = m := by
  refine ext_find? fun key => ?_
  rw [find?_union, Option.or_self]

theorem union_insert (m other : SortedMap κ ν) (key : κ) (value : ν) :
    m.union (other.insert key value) = (m.union other).insert key value := by
  refine ext_find? fun key' => ?_
  simp only [find?_union, find?_insert]
  split
  · rfl
  · rfl

end SortedMap

namespace Selection

variable (s other last : Selection)

theorem union_all : s.union all = s := by
  simp [union, all, SortedMap.union_empty]

theorem union_assoc : (s.union other).union last = s.union (other.union last) := by
  simp only [union, SortedMap.union_assoc, Bool.or_assoc]

theorem union_self : s.union s = s := by
  simp only [union, SortedMap.union_self, Bool.or_self]

theorem union_limit (cluster : String) :
    s.union (other.limit cluster) = (s.union other).limit cluster := by
  simp only [union, limit, SortedSet.add, SortedMap.union_insert]

theorem union_pin (cluster target : String) :
    s.union (other.pin cluster target) = (s.union other).pin cluster target := by
  simp only [union, pin, SortedSet.add, SortedMap.union_insert]

end Selection

/-! ## Merging requests -/

namespace Request

variable {r other last : Request} {key : FeedKey}

/-- Two requests that want the same of every feed are equal. -/
theorem ext_find? (h : ∀ key, r.find? key = other.find? key) : r = other := by
  cases r with
  | mk selections =>
    cases other with
    | mk selections' => exact congrArg Request.mk (SortedMap.ext_find? h)

theorem find?_merge (r other : Request) (key : FeedKey) :
    (r.merge other).find? key =
      match other.find? key with
      | some s => some ((r.selectionOf key).union s)
      | none => r.find? key := by
  refine (Entries.look_foldl (fun (r : Request) key s => r.alter key (·.union s)) find?
    (fun s asked => some ((asked.getD .all).union s))
    (fun r key s other => ?_) other.selections.sorted r key).trans ?_
  · rw [find?_alter, selectionOf]
    split
    · rename_i hkey
      rw [hkey]
    · rfl
  · rw [show other.find? key = other.selections.entries.find? key from rfl]
    cases other.selections.entries.find? key <;> rfl

theorem selectionOf_merge (r other : Request) (key : FeedKey) :
    (r.merge other).selectionOf key = (r.selectionOf key).union (other.selectionOf key) := by
  rw [selectionOf, find?_merge, selectionOf.eq_def other]
  cases other.find? key with
  | none => exact (Selection.union_all _).symm
  | some s => rfl

theorem merge_empty (r : Request) : r.merge empty = r := rfl

theorem merge_assoc (r other last : Request) :
    (r.merge other).merge last = r.merge (other.merge last) := by
  refine ext_find? fun key => ?_
  rw [find?_merge, find?_merge, find?_merge r (other.merge last), find?_merge other last,
    selectionOf_merge]
  cases last.find? key with
  | none => rfl
  | some s => exact congrArg some (Selection.union_assoc _ _ s)

theorem merge_self (r : Request) : r.merge r = r := by
  refine ext_find? fun key => ?_
  rw [find?_merge, selectionOf]
  cases r.find? key with
  | none => rfl
  | some s => exact congrArg some s.union_self

/-- What changes the second one of two selections together changes the second one of two
requests. -/
theorem merge_alter (r other : Request) (key : FeedKey) {f : Selection → Selection}
    (hf : ∀ s t : Selection, s.union (f t) = f (s.union t)) :
    r.merge (other.alter key f) = (r.merge other).alter key f := by
  refine ext_find? fun key' => ?_
  rw [find?_merge, find?_alter, find?_alter]
  by_cases hkey : key' = key
  · subst hkey
    rw [if_pos rfl, if_pos rfl, selectionOf_merge]
    exact congrArg some (hf _ _)
  · rw [if_neg hkey, if_neg hkey, find?_merge]

theorem alter_alter (r : Request) (key : FeedKey) (f g : Selection → Selection) :
    (r.alter key f).alter key g = r.alter key fun s => g (f s) := by
  refine ext_find? fun key' => ?_
  rw [find?_alter, find?_alter, selectionOf.eq_def (r.alter key f), find?_alter]
  by_cases hkey : key' = key
  · subst hkey
    rw [if_pos rfl, if_pos rfl, find?_alter, if_pos rfl]
    rfl
  · rw [if_neg hkey, if_neg hkey, find?_alter, if_neg hkey]

end Request

/-! ## Calls -/

namespace WatchCall

/-- The check that a call starts with. -/
def check : WatchCall → Except RequestFault Unit
  | .watch feed => Request.checkName .application feed.application
  | .limit feed cluster => do
    Request.checkName .cluster cluster
    Request.checkName .application feed.application
  | .pin feed cluster target => do
    Request.checkName .cluster cluster
    Request.checkName .cluster target
    Request.checkName .application feed.application
  | .merge _ => .ok ()

/-- What a call does to a request if it is not refused. -/
def perform : WatchCall → Request → Request
  | .watch feed, r => r.alter feed id
  | .limit feed cluster, r => r.alter feed (·.limit cluster)
  | .pin feed cluster target, r => r.alter feed (·.pin cluster target)
  | .merge other, r => r.merge other

/-- **What is done to merged requests** is done to the second one. -/
theorem merge_perform (r other : Request) (call : WatchCall) :
    r.merge (call.perform other) = call.perform (r.merge other) := by
  cases call with
  | watch feed => exact r.merge_alter other feed fun _ _ => rfl
  | limit feed cluster => exact r.merge_alter other feed fun s t => s.union_limit t cluster
  | pin feed cluster target =>
    exact r.merge_alter other feed fun s t => s.union_pin t cluster target
  | merge last => exact (r.merge_assoc other last).symm

end WatchCall

theorem Request.answer_eq (r : Request) (call : WatchCall) :
    r.answer call = call.check.map fun _ => call.perform r := by
  cases call with
  | watch feed => rfl
  | limit feed cluster =>
    rw [answer, limit, WatchCall.check]
    cases checkName .cluster cluster with
    | error fault => rfl
    | ok _ => rfl
  | pin feed cluster target =>
    rw [answer, pin, WatchCall.check]
    cases checkName .cluster cluster with
    | error fault => rfl
    | ok _ =>
      cases checkName .cluster target with
      | error fault => rfl
      | ok _ => rfl
  | merge other => rfl

/-! ## Calls in place -/

/-- What acts on a request in place: a refusal leaves the request as it is by then. -/
abbrev InPlace := ExceptT RequestFault (StateM Request)

namespace InPlace

/-- Refuses a name that is not valid. -/
def checkName (role : NameRole) (name : String) : InPlace Unit :=
  ExceptT.mk (pure (Request.checkName role name))

/-- Changes what is wanted of a feed, which is added if it is new. -/
def alter (feed : FeedKey) (f : Selection → Selection) : InPlace Unit :=
  modify (·.alter feed f)

def watch (feed : FeedKey) : InPlace Unit := do
  checkName .application feed.application
  alter feed id

/-- Asks for one cluster: for its feed first, which may be refused, then for the cluster. -/
def limit (feed : FeedKey) (cluster : String) : InPlace Unit := do
  checkName .cluster cluster
  watch feed
  alter feed (·.limit cluster)

/-- Asks for one cluster, then pins it. -/
def pin (feed : FeedKey) (cluster target : String) : InPlace Unit := do
  checkName .cluster cluster
  checkName .cluster target
  watch feed
  alter feed (·.limit cluster)
  alter feed fun s => { s with pinned := s.pinned.insert cluster target }

/-- A call, step by step. -/
def answer : WatchCall → InPlace Unit
  | .watch feed => watch feed
  | .limit feed cluster => limit feed cluster
  | .pin feed cluster target => pin feed cluster target
  | .merge other => modify (·.merge other)

/-- What a call answers, and the request after it. -/
def call (c : WatchCall) (r : Request) : Except RequestFault Unit × Request :=
  (answer c).run.run r

/-- What a list of calls answers, and the request after them; a refused call does not stop the ones
after it. -/
def replay : List WatchCall → Request → List (Except RequestFault Unit) × Request
  | [], r => ([], r)
  | c :: rest, r =>
    let (answer, r) := call c r
    let (answers, r) := replay rest r
    (answer :: answers, r)

theorem run_checkName_bind (role : NameRole) (name : String) (rest : InPlace Unit) (r : Request) :
    (checkName role name >>= fun _ => rest).run.run r =
      match Request.checkName role name with
      | .ok _ => rest.run.run r
      | .error fault => (.error fault, r) := by
  rw [checkName]
  cases Request.checkName role name with
  | error fault => rfl
  | ok _ => rfl

theorem run_alter (feed : FeedKey) (f : Selection → Selection) (r : Request) :
    (alter feed f).run.run r = (.ok (), r.alter feed f) := rfl

theorem run_alter_bind (feed : FeedKey) (f : Selection → Selection) (rest : InPlace Unit)
    (r : Request) :
    (alter feed f >>= fun _ => rest).run.run r = rest.run.run (r.alter feed f) := rfl

theorem run_watch (feed : FeedKey) (r : Request) :
    (watch feed).run.run r =
      match Request.checkName .application feed.application with
      | .ok _ => (.ok (), r.alter feed id)
      | .error fault => (.error fault, r) :=
  run_checkName_bind _ _ _ r

theorem run_watch_bind (feed : FeedKey) (rest : InPlace Unit) (r : Request) :
    (watch feed >>= fun _ => rest).run.run r =
      match Request.checkName .application feed.application with
      | .ok _ => rest.run.run (r.alter feed id)
      | .error fault => (.error fault, r) := by
  rw [watch, bind_assoc, run_checkName_bind]
  rfl

/-- **A call in place** is refused by its check, before it changes anything. -/
theorem call_eq (c : WatchCall) (r : Request) :
    call c r =
      match c.check with
      | .ok _ => (.ok (), c.perform r)
      | .error fault => (.error fault, r) := by
  cases c with
  | watch feed => exact run_watch feed r
  | limit feed cluster =>
    rw [call, answer, limit, run_checkName_bind, WatchCall.check]
    cases Request.checkName .cluster cluster with
    | error fault => rfl
    | ok _ =>
      simp only [run_watch_bind, run_alter, Request.alter_alter]
      rfl
  | pin feed cluster target =>
    rw [call, answer, pin, run_checkName_bind, WatchCall.check]
    cases Request.checkName .cluster cluster with
    | error fault => rfl
    | ok _ =>
      simp only [run_checkName_bind]
      cases Request.checkName .cluster target with
      | error fault => rfl
      | ok _ =>
        simp only [run_watch_bind, run_alter_bind, run_alter, Request.alter_alter]
        rfl
  | merge other => rfl

/-- A call on merged requests answers as it does on the second one, and does the same to it. -/
theorem call_merge (c : WatchCall) (r other : Request) :
    call c (r.merge other) = ((call c other).1, r.merge (call c other).2) := by
  rw [call_eq, call_eq]
  cases c.check with
  | error fault => rfl
  | ok _ => exact Prod.ext rfl (c.merge_perform r other).symm

/-- **Calls on merged requests** answer as they do on the second one, and do the same to it. -/
theorem replay_merge (calls : List WatchCall) (r other : Request) :
    replay calls (r.merge other) = ((replay calls other).1, r.merge (replay calls other).2) := by
  induction calls generalizing other with
  | nil => rfl
  | cons c rest ih =>
    rw [replay, replay, call_merge]
    dsimp only
    rw [ih]

end InPlace

/-! ## Watchers -/

namespace Watcher

/-- A new watcher passes a call on to its request. -/
theorem answer_eq_call (w : Watcher) (hnew : w.phase = .new) (c : WatchCall) :
    w.answer c = ({ w with request := (InPlace.call c w.request).2 },
      (InPlace.call c w.request).1.mapError .request) := by
  rw [answer, checkNew, if_pos hnew, Request.answer_eq, InPlace.call_eq]
  cases c.check with
  | error fault => rfl
  | ok _ => rfl

/-- A watcher that is not new refuses every call. -/
theorem answer_of_ne_new {w : Watcher} (h : w.phase ≠ .new) (c : WatchCall) :
    w.answer c = (w, .error (.illegalState w.phase)) := by
  rw [answer, checkNew, if_neg h]

/-- What a list of calls leaves of a watcher. -/
def replay (calls : List WatchCall) (w : Watcher) : Watcher :=
  calls.foldl (fun w c => (w.answer c).1) w

theorem replay_of_new (calls : List WatchCall) {w : Watcher} (hnew : w.phase = .new) :
    w.replay calls = { w with request := (InPlace.replay calls w.request).2 } := by
  induction calls generalizing w with
  | nil => rfl
  | cons c rest ih =>
    rw [replay, List.foldl_cons, w.answer_eq_call hnew]
    exact ih hnew

theorem replay_of_ne_new (calls : List WatchCall) {w : Watcher} (h : w.phase ≠ .new) :
    w.replay calls = w := by
  induction calls with
  | nil => rfl
  | cons c rest ih =>
    rw [replay, List.foldl_cons, answer_of_ne_new h]
    exact ih

/-- **A refused call** leaves a watcher as it is; any other one changes its request only. -/
theorem answer_cases (w : Watcher) (c : WatchCall) :
    (∃ failure, w.answer c = (w, .error failure)) ∨
      ∃ r, w.request.answer c = .ok r ∧ w.answer c = ({ w with request := r }, .ok ()) := by
  by_cases hnew : w.phase = .new
  · rw [answer, checkNew, if_pos hnew]
    cases hanswer : w.request.answer c with
    | error fault => exact .inl ⟨.request fault, rfl⟩
    | ok r => exact .inr ⟨r, rfl, rfl⟩
  · exact .inl ⟨_, answer_of_ne_new hnew c⟩

/-- What calls build from nothing, merged at once, does to a watcher what the calls do. -/
theorem replay_eq_merge (calls : List WatchCall) (w : Watcher) :
    w.replay calls = (w.answer (.merge (InPlace.replay calls Request.empty).2)).1 := by
  by_cases hnew : w.phase = .new
  · have hmerge := InPlace.replay_merge calls w.request Request.empty
    rw [Request.merge_empty] at hmerge
    rw [replay_of_new calls hnew, hmerge, answer, checkNew, if_pos hnew]
    rfl
  · rw [replay_of_ne_new calls hnew, answer_of_ne_new hnew]

end Watcher

/-! ## Main result -/

/-- **Merging replays the calls that built a request.**  A call in place either is refused and
leaves the request as it was, or makes of it what the request's own operation gives; so it is for
watchers.  A list of calls, some of them refused, answers on any request as it does on the empty one,
and leaves what merging does with what the calls build from nothing; a watcher to which that is
merged is left as by the calls.  Merging is associative, and a request merged into itself does not
change. -/
theorem merging_replays (r : Request) (calls : List WatchCall) :
    let built := InPlace.replay calls Request.empty
    (∀ (c : WatchCall) (r : Request),
      (∃ fault, r.answer c = .error fault ∧ InPlace.call c r = (.error fault, r)) ∨
        ∃ r', r.answer c = .ok r' ∧ InPlace.call c r = (.ok (), r')) ∧
    (∀ (c : WatchCall) (w : Watcher),
      (∃ failure, w.answer c = (w, .error failure)) ∨
        ∃ r', w.request.answer c = .ok r' ∧ w.answer c = ({ w with request := r' }, .ok ())) ∧
    InPlace.replay calls r = (built.1, r.merge built.2) ∧
    (∀ w : Watcher, w.replay calls = (w.answer (.merge built.2)).1) ∧
    (∀ other last : Request, (r.merge other).merge last = r.merge (other.merge last)) ∧
    r.merge r = r := by
  refine ⟨fun c r => ?_, fun c w => w.answer_cases c, ?_, fun w => w.replay_eq_merge calls,
    r.merge_assoc, r.merge_self⟩
  · rw [Request.answer_eq, InPlace.call_eq]
    cases c.check with
    | error fault => exact .inl ⟨fault, rfl, rfl⟩
    | ok _ => exact .inr ⟨c.perform r, rfl, rfl⟩
  · have hreplay := InPlace.replay_merge calls r Request.empty
    rwa [Request.merge_empty] at hreplay

/-- Of two pins of one name the later one stays, whether the calls are made directly or are merged;
a refused call in between changes nothing. -/
example :
    let feed : FeedKey := ⟨.service, "shop"⟩
    let direct := (InPlace.replay [.pin feed "a" "x", .limit feed "/", .pin feed "a" "y"]
      (Request.empty.alter feed (·.limit "b"))).2
    direct = (Request.empty.alter feed (·.limit "b")).merge
      (Request.empty.alter feed (·.pin "a" "y")) := by
  decide +kernel

end Treecast
