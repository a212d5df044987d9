import Treecast.Proofs.Metadata
import Treecast.Proofs.StoreCalls

/-!
# Concurrent declarations

Any number of declarations on one cluster take their steps in any order, each reading the node
and writing it back if its version is still the one that was read, while others use the store
elsewhere.  The invariant ties versions to values: what is about to be written over the present
version is the present metadata with the consumer added, so a write never takes back what another
one did.

## Results

* `Declarations.Intact.act`, `Declarations.intact_run`: the invariant.
* `Declarations.lossless_run`: at every moment the node names every consumer whose declaration
  ended well and nobody who was neither named at the start nor declared, all other metadata is
  what it was, and a declaration fails only after as many conflicts as it had attempts.
-/

set_option autoImplicit false

namespace Treecast

open Routing

/-! ## Declarations under observation -/

/-- A declaration, and what it did so far. -/
structure Declaring where
  declarer : Declarer
  /-- The number of attempts that it was called with. -/
  maxRetries : Nat
  /-- How many attempts ended in a version conflict. -/
  conflicts : Nat
  /-- How many of its steps changed the cluster's node. -/
  changes : Nat

namespace Declaring

/-- A declaration that was just called. -/
def start (application cluster : String) (consumer : Consumer) (maxRetries : Nat) : Declaring :=
  ⟨.create application cluster consumer maxRetries, maxRetries, 0, 0⟩

/-- Whether the next step is a write that comes too late. -/
def isLate (s : Store) (d : Declarer) : Bool :=
  match d.phase with
  | .writing value version =>
    match (s.set d.path value (some version)).2 with
    | .error e => Declarer.isConflict e
    | .ok _ => false
  | _ => false

def step (s : Store) (c : Declaring) : Store × Declaring :=
  let (s', d) := c.declarer.step s
  (s', { c with
    declarer := d
    conflicts := c.conflicts + (isLate s c.declarer).toNat
    changes := c.changes +
      (s'.nodes.find? c.declarer.path != s.nodes.find? c.declarer.path).toNat })

end Declaring

/-- A cluster in the store and the declarations that were called on it. -/
structure Declarations where
  application : String
  cluster : String
  store : Store
  calls : List Declaring

/-- What can happen. -/
inductive DeclarationsAct where
  | declare (consumer : Consumer) (maxRetries : Nat)
  /-- The declaration of that number takes a step. -/
  | step (i : Nat)
  /-- Somebody else uses the store. -/
  | other (call : Store.Call)
  deriving DecidableEq, Repr

namespace Declarations

/-- The path of the cluster's node. -/
def path (w : Declarations) : String := Declarer.clusterPath w.application w.cluster

/-- After one act.  Nobody else writes or deletes the cluster's node. -/
def act (w : Declarations) : DeclarationsAct → Declarations
  | .declare consumer maxRetries =>
    { w with calls := w.calls ++ [.start w.application w.cluster consumer maxRetries] }
  | .step i =>
    match w.calls[i]? with
    | none => w
    | some c =>
      let (s, c) := c.step w.store
      { w with store := s, calls := w.calls.set i c }
  | .other call =>
    let s := w.store.perform call
    if s.core? w.path = w.store.core? w.path then { w with store := s } else w

def run (w : Declarations) (acts : List DeclarationsAct) : Declarations := acts.foldl act w

end Declarations

namespace Declarations

variable {w : Declarations}

theorem act_step_of_none {i : Nat} (hi : w.calls[i]? = none) : w.act (.step i) = w := by
  rw [act, hi]

theorem act_step_of_some {i : Nat} {c : Declaring} (hi : w.calls[i]? = some c) :
    w.act (.step i) =
      { w with store := (c.step w.store).1, calls := w.calls.set i (c.step w.store).2 } := by
  rw [act, hi]

theorem act_other (call : Store.Call) :
    w.act (.other call) =
      if (w.store.perform call).core? w.path = w.store.core? w.path then
        { w with store := w.store.perform call }
      else w := rfl

theorem path_act (w : Declarations) (a : DeclarationsAct) : (w.act a).path = w.path := by
  cases a with
  | declare consumer maxRetries => rfl
  | step i =>
    cases hi : w.calls[i]? with
    | none => rw [act_step_of_none hi]
    | some c =>
      rw [act_step_of_some hi]
      rfl
  | other call =>
    rw [act_other]
    split <;> rfl

end Declarations

/-! ## Steps of one declaration -/

namespace Store

variable {s : Store} {path : String} {node : Node}

theorem get_of_find? (hpath : Path.isWellFormed path = true)
    (hnode : s.nodes.find? path = some node) : s.get path = .ok (some node) := by
  rw [get, checkPath, if_pos hpath, hnode]
  rfl

theorem set_current (hpath : Path.isWellFormed path = true)
    (hnode : s.nodes.find? path = some node) (value : String) :
    s.set path value (some node.version) =
      (s.rewrite path ⟨value, node.version + 1, node.childCount⟩,
        .ok ⟨node.version + 1, node.childCount⟩) := by
  have hchecked : s.checked path (some node.version) = .ok node :=
    checked_eq_ok_iff.2 ⟨hpath, hnode, fun _ h => Option.mem_some_iff.1 h⟩
  rw [set, hchecked]
  rfl

theorem set_late (hpath : Path.isWellFormed path = true)
    (hnode : s.nodes.find? path = some node) (value : String) {version : Int}
    (hne : node.version ≠ version) :
    s.set path value (some version) =
      (s, .error (.versionConflict path version node.version)) := by
  have hchecked : s.checked path (some version) =
      .error (.versionConflict path version node.version) := by
    rw [checked, checkPath, if_pos hpath, hnode]
    simp [hne, bind, Except.bind, throw, throwThe, MonadExceptOf.throw]
  rw [set, hchecked]

theorem find?_rewrite (s : Store) (path : String) (node : Node) :
    (s.rewrite path node).nodes.find? path = some node := by
  rw [rewrite, publish, SortedMap.find?_insert, if_pos rfl]

end Store

namespace Declarer

variable {s : Store} {node : Node} {d : Declarer}

theorem step_of_reading (hphase : d.phase = .reading) (hpath : Path.isWellFormed d.path = true)
    (hnode : s.nodes.find? d.path = some node) : d.step s = (s, d.onRead (.ok (some node))) := by
  rw [step, hphase, Store.get_of_find? hpath hnode]

theorem step_of_current {value : String} (hphase : d.phase = .writing value node.version)
    (hpath : Path.isWellFormed d.path = true) (hnode : s.nodes.find? d.path = some node) :
    d.step s = (s.rewrite d.path ⟨value, node.version + 1, node.childCount⟩,
      { d with phase := .ended (.ok .recorded) }) := by
  simp only [step, hphase, Store.set_current hpath hnode value, onWrite]

end Declarer

namespace Declaring

variable {s : Store} {node : Node} {m : ClusterMetadata} {c : Declaring}

/-- What no step changes. -/
def SameCall (c c' : Declaring) : Prop :=
  c'.declarer.path = c.declarer.path ∧ c'.declarer.consumer = c.declarer.consumer ∧
    c'.declarer.limit = c.declarer.limit ∧ c'.maxRetries = c.maxRetries

/-- How a declaration stands while the node has this metadata and version. -/
def Stands (m : ClusterMetadata) (version : Int) (c : Declaring) : Prop :=
  match c.declarer.phase with
  | .reading =>
    c.conflicts + 1 = c.declarer.attempts ∧ c.declarer.attempts ≤ c.declarer.limit ∧ c.changes = 0
  | .writing value read =>
    c.conflicts + 1 = c.declarer.attempts ∧ c.declarer.attempts ≤ c.declarer.limit ∧
      c.changes = 0 ∧ read ≤ version ∧
      (read = version → value = (m.addConsumer c.declarer.consumer).encode)
  | .ended (.ok .recorded) => c.changes = 1 ∧ m.hasConsumer c.declarer.consumer = true
  | .ended (.ok .present) => c.changes = 0 ∧ m.hasConsumer c.declarer.consumer = true
  | .ended (.ok _) => False
  | .ended (.error e) =>
    Declarer.isConflict e = true ∧ c.conflicts = c.declarer.limit ∧ c.changes = 0

theorem stands_start (application cluster : String) (consumer : Consumer) (maxRetries : Nat)
    (m : ClusterMetadata) (version : Int) :
    (start application cluster consumer maxRetries).Stands m version :=
  ⟨rfl, Nat.le_max_right _ _, rfl⟩

/-- **Somebody else's write** leaves a declaration where it stands: the version that it read is
no longer the present one. -/
theorem Stands.addConsumer {version : Int} (h : c.Stands m version) (other : Consumer) :
    c.Stands (m.addConsumer other) (version + 1) := by
  have hgrow : ∀ {consumer : Consumer}, m.hasConsumer consumer = true →
      (m.addConsumer other).hasConsumer consumer = true := fun h =>
    (ClusterMetadata.hasConsumer_addConsumer m other _).2 (.inl h)
  obtain ⟨⟨path, consumer, limit, attempts, phase⟩, maxRetries, conflicts, changes⟩ := c
  match phase with
  | .reading => exact h
  | .writing value read =>
    obtain ⟨hattempts, hlimit, hchanges, hread, -⟩ := h
    exact ⟨hattempts, hlimit, hchanges, by omega, fun heq => absurd heq (by omega)⟩
  | .ended (.ok .recorded) => exact ⟨h.1, hgrow h.2⟩
  | .ended (.ok .present) => exact ⟨h.1, hgrow h.2⟩
  | .ended (.ok .missing) => exact h
  | .ended (.ok .malformed) => exact h
  | .ended (.error e) => exact h

theorem step_of_reading (hphase : c.declarer.phase = .reading)
    (hpath : Path.isWellFormed c.declarer.path = true)
    (hnode : s.nodes.find? c.declarer.path = some node) :
    c.step s = (s, { c with declarer := c.declarer.onRead (.ok (some node)) }) := by
  simp only [Declaring.step, Declarer.step_of_reading hphase hpath hnode, isLate, hphase,
    bne_self_eq_false, Bool.toNat_false, Nat.add_zero]

theorem step_of_current {value : String} (hphase : c.declarer.phase = .writing value node.version)
    (hpath : Path.isWellFormed c.declarer.path = true)
    (hnode : s.nodes.find? c.declarer.path = some node) :
    c.step s = (s.rewrite c.declarer.path ⟨value, node.version + 1, node.childCount⟩,
      { c with
        declarer := { c.declarer with phase := .ended (.ok .recorded) }
        changes := c.changes + 1 }) := by
  have hnew := Store.find?_rewrite s c.declarer.path ⟨value, node.version + 1, node.childCount⟩
  have hdiffers :
      (some (⟨value, node.version + 1, node.childCount⟩ : Node) != some node) = true := by
    refine bne_iff_ne.2 fun heq => ?_
    have hversion : node.version + 1 = node.version := congrArg Node.version (Option.some.inj heq)
    omega
  simp only [Declaring.step, Declarer.step_of_current hphase hpath hnode, isLate, hphase,
    Store.set_current hpath hnode value, hnew, hnode, hdiffers, Bool.toNat_true, Bool.toNat_false,
    Nat.add_zero]

theorem step_of_late {value : String} {version : Int}
    (hphase : c.declarer.phase = .writing value version) (hne : node.version ≠ version)
    (hpath : Path.isWellFormed c.declarer.path = true)
    (hnode : s.nodes.find? c.declarer.path = some node) :
    c.step s = (s, { c with
      declarer := c.declarer.onWrite
        (.error (.versionConflict c.declarer.path version node.version))
      conflicts := c.conflicts + 1 }) := by
  simp only [Declaring.step, Declarer.step, isLate, hphase, Store.set_late hpath hnode value hne,
    Declarer.isConflict, bne_self_eq_false, Bool.toNat_true, Bool.toNat_false, Nat.add_zero]

theorem step_of_ended {result : Except StoreError Declaration}
    (hphase : c.declarer.phase = .ended result) : c.step s = (s, c) := by
  simp only [Declaring.step, Declarer.step, isLate, hphase, bne_self_eq_false, Bool.toNat_false,
    Nat.add_zero]

/-- What a step of a declaration does to the node: nothing, or the consumer is added. -/
inductive Outcome (m : ClusterMetadata) (node : Node) (s : Store) (c : Declaring) :
    Store × Declaring → Prop where
  | kept {c' : Declaring} (same : c.SameCall c') (stands : c'.Stands m node.version) :
    Outcome m node s c (s, c')
  | added {c' : Declaring} (same : c.SameCall c')
    (stands : c'.Stands (m.addConsumer c.declarer.consumer) (node.version + 1)) :
    Outcome m node s c (s.rewrite c.declarer.path
      ⟨(m.addConsumer c.declarer.consumer).encode, node.version + 1, node.childCount⟩, c')

/-- **One step of a declaration.** -/
theorem Stands.step (h : c.Stands m node.version)
    (hpath : Path.isWellFormed c.declarer.path = true)
    (hnode : s.nodes.find? c.declarer.path = some node)
    (hm : ClusterMetadata.decode? node.value = some m) :
    Outcome m node s c (c.step s) := by
  obtain ⟨⟨path, consumer, limit, attempts, phase⟩, maxRetries, conflicts, changes⟩ := c
  match phase with
  | .reading =>
    obtain ⟨hattempts, hlimit, hchanges⟩ := h
    rw [step_of_reading rfl hpath hnode]
    simp only [Declarer.onRead, declareStep, hm]
    by_cases hhas : m.hasConsumer consumer = true
    · rw [if_pos hhas]
      exact .kept ⟨rfl, rfl, rfl, rfl⟩ ⟨hchanges, hhas⟩
    · rw [if_neg hhas]
      exact .kept ⟨rfl, rfl, rfl, rfl⟩
        ⟨hattempts, hlimit, hchanges, Int.le_refl _, fun _ => rfl⟩
  | .writing value read =>
    obtain ⟨hattempts, hlimit, hchanges, -, hvalue⟩ := h
    by_cases hcurrent : read = node.version
    · subst hcurrent
      rw [step_of_current rfl hpath hnode, hvalue rfl]
      exact .added ⟨rfl, rfl, rfl, rfl⟩ ⟨congrArg (· + 1) hchanges,
        (ClusterMetadata.hasConsumer_addConsumer m consumer consumer).2 (.inr rfl)⟩
    · rw [step_of_late rfl (Ne.symm hcurrent) hpath hnode, Declarer.onWrite]
      simp only at hattempts hlimit
      by_cases hmore : attempts < limit
      · simp only [Declarer.isConflict, hmore, and_self, if_true]
        exact .kept ⟨rfl, rfl, rfl, rfl⟩ ⟨congrArg (· + 1) hattempts, hmore, hchanges⟩
      · simp only [Declarer.isConflict, hmore, and_false, if_false]
        exact .kept ⟨rfl, rfl, rfl, rfl⟩ ⟨rfl, by simp only; omega, hchanges⟩
  | .ended result =>
    rw [step_of_ended rfl]
    exact .kept ⟨rfl, rfl, rfl, rfl⟩ h

end Declaring

/-! ## The invariant -/

namespace Declarations

variable {first m : ClusterMetadata} {node : Node} {w : Declarations}

/-- The consumers that were declared. -/
def declared (w : Declarations) : List Consumer := w.calls.map (·.declarer.consumer)

/-- The cluster's node holds this metadata, which differs from the first one in declared
consumers only. -/
structure Intact (first m : ClusterMetadata) (node : Node) (w : Declarations) : Prop where
  stored : w.store.nodes.find? w.path = some node
  decoded : ClusterMetadata.decode? node.value = some m
  tidy : m.Tidy
  fields : m.link = first.link ∧ m.route = first.route ∧ m.info = first.info ∧ m.extra = first.extra
  held : ∀ consumer, first.hasConsumer consumer = true → m.hasConsumer consumer = true
  named : ∀ consumer, m.hasConsumer consumer = true →
    first.hasConsumer consumer = true ∨ consumer ∈ w.declared
  target : ∀ c ∈ w.calls, c.declarer.path = w.path ∧ c.declarer.limit = max c.maxRetries 1
  stands : ∀ c ∈ w.calls, c.Stands m node.version

theorem Intact.declare (h : w.Intact first m node) (consumer : Consumer) (maxRetries : Nat) :
    (w.act (.declare consumer maxRetries)).Intact first m node where
  stored := h.stored
  decoded := h.decoded
  tidy := h.tidy
  fields := h.fields
  held := h.held
  named other hother := (h.named other hother).imp id fun hmem => by
    rw [declared, act, List.map_append]
    exact List.mem_append_left _ hmem
  target c hc := by
    rcases List.mem_append.1 hc with hc | hc
    · exact h.target c hc
    · rw [List.mem_singleton.1 hc]
      exact ⟨rfl, rfl⟩
  stands _ hc := by
    rcases List.mem_append.1 hc with hc | hc
    · exact h.stands _ hc
    · rw [List.mem_singleton.1 hc]
      exact Declaring.stands_start _ _ _ _ _ _

/-- A step declares nobody else. -/
theorem declared_set {i : Nat} {c c' : Declaring} (hi : w.calls[i]? = some c)
    (hsame : c.SameCall c') :
    (w.calls.set i c').map (·.declarer.consumer) = w.declared := by
  rw [declared]
  refine List.ext_getElem? fun j => ?_
  rw [List.getElem?_map, List.getElem?_map, List.getElem?_set]
  split
  · rename_i hij
    subst hij
    obtain ⟨hlt, -⟩ := List.getElem?_eq_some_iff.1 hi
    rw [if_pos hlt, hi, Option.map_some, Option.map_some, hsame.2.1]
  · rfl

/-- **A declaration's step** leaves the metadata as it is or adds a declared consumer. -/
theorem Intact.step (h : w.Intact first m node) (hpath : Path.isWellFormed w.path = true)
    (i : Nat) :
    ∃ m' node', (w.act (.step i)).Intact first m' node' := by
  cases hi : w.calls[i]? with
  | none => exact ⟨m, node, by rw [act_step_of_none hi]; exact h⟩
  | some c =>
    rw [act_step_of_some hi]
    have hc := List.mem_of_getElem? hi
    obtain ⟨htarget, hlimit⟩ := h.target c hc
    have htargets : ∀ {c' : Declaring}, c.SameCall c' → ∀ x ∈ w.calls.set i c',
        x.declarer.path = w.path ∧ x.declarer.limit = max x.maxRetries 1 := by
      intro c' hsame x hx
      rcases List.mem_or_eq_of_mem_set hx with hx | rfl
      · exact h.target x hx
      · exact ⟨hsame.1.trans htarget, by rw [hsame.2.2.1, hsame.2.2.2, hlimit]⟩
    have houtcome := (h.stands c hc).step (htarget ▸ hpath) (htarget ▸ h.stored) h.decoded
    generalize c.step w.store = next at houtcome ⊢
    cases houtcome with
    | kept hsame hstands =>
      refine ⟨m, node, h.stored, h.decoded, h.tidy, h.fields, h.held, ?_, htargets hsame, ?_⟩
      · rw [declared, declared_set hi hsame]
        exact h.named
      · intro x hx
        rcases List.mem_or_eq_of_mem_set hx with hx | rfl
        · exact h.stands x hx
        · exact hstands
    | added hsame hstands =>
      have htidy := h.tidy.addConsumer c.declarer.consumer
      have hadded := ClusterMetadata.hasConsumer_addConsumer m c.declarer.consumer
      have hstored := Store.find?_rewrite w.store c.declarer.path
        ⟨(m.addConsumer c.declarer.consumer).encode, node.version + 1, node.childCount⟩
      rw [htarget] at hstored ⊢
      refine ⟨m.addConsumer c.declarer.consumer, _, hstored, ClusterMetadata.decode?_encode htidy,
        htidy, h.fields, fun other hother => (hadded other).2 (.inl (h.held other hother)), ?_,
        htargets hsame, ?_⟩
      · rw [declared, declared_set hi hsame]
        intro other hother
        rcases (hadded other).1 hother with hother | rfl
        · exact h.named other hother
        · exact .inr (List.mem_map_of_mem hc)
      · intro x hx
        rcases List.mem_or_eq_of_mem_set hx with hx | rfl
        · exact (h.stands x hx).addConsumer c.declarer.consumer
        · exact hstands

/-- Other calls to the store leave value and version of the node alone. -/
theorem Intact.other (h : w.Intact first m node) (call : Store.Call) :
    ∃ node', (w.act (.other call)).Intact first m node' := by
  rw [act_other]
  split
  · rename_i hcore
    rw [Store.core?, Store.core?, h.stored, Option.map_some] at hcore
    obtain ⟨node', hnode, hsame⟩ := Option.map_eq_some_iff.1 hcore
    have hvalue : node'.value = node.value := congrArg Prod.fst hsame
    have hversion : node'.version = node.version := congrArg Prod.snd hsame
    exact ⟨node', hnode, hvalue ▸ h.decoded, h.tidy, h.fields, h.held, h.named, h.target,
      hversion ▸ h.stands⟩
  · exact ⟨node, h⟩

theorem Intact.act (h : w.Intact first m node) (hpath : Path.isWellFormed w.path = true)
    (a : DeclarationsAct) : ∃ m' node', (w.act a).Intact first m' node' := by
  cases a with
  | declare consumer maxRetries => exact ⟨m, node, h.declare consumer maxRetries⟩
  | step i => exact h.step hpath i
  | other call => exact ⟨m, h.other call⟩

/-- **However the steps are interleaved**, the metadata stays intact. -/
theorem intact_run (acts : List DeclarationsAct) (hpath : Path.isWellFormed w.path = true)
    (h : w.Intact first m node) : ∃ m' node', (w.run acts).Intact first m' node' := by
  induction acts generalizing w m node with
  | nil => exact ⟨m, node, h⟩
  | cons a acts ih =>
    obtain ⟨m', node', h'⟩ := h.act hpath a
    exact ih ((path_act w a).symm ▸ hpath) h'

/-- The cluster before anything is declared. -/
def start (application cluster : String) (store : Store) : Declarations :=
  ⟨application, cluster, store, []⟩

/-! ## Main result -/

/-- What can be seen of a declaration: one that ended well left its consumer in the metadata, it
changed the node exactly if it recorded the consumer, and it failed only when all its attempts
ended in a conflict. -/
def Fair (m : ClusterMetadata) (c : Declaring) : Prop :=
  match c.declarer.phase with
  | .ended (.ok d) =>
    (d = .recorded ∧ c.changes = 1 ∨ d = .present ∧ c.changes = 0) ∧
      m.hasConsumer c.declarer.consumer = true
  | .ended (.error e) =>
    Declarer.isConflict e = true ∧ c.conflicts = max c.maxRetries 1 ∧ c.changes = 0
  | _ => c.changes = 0

theorem Intact.fair (h : w.Intact first m node) {c : Declaring} (hc : c ∈ w.calls) : Fair m c := by
  have hstands := h.stands c hc
  have hlimit := (h.target c hc).2
  rw [Declaring.Stands] at hstands
  rw [Fair]
  split at hstands
  all_goals rename_i hphase
  all_goals simp only [hphase]
  · exact hstands.2.2
  · exact hstands.2.2.1
  · exact ⟨.inl ⟨trivial, hstands.1⟩, hstands.2⟩
  · exact ⟨.inr ⟨trivial, hstands.1⟩, hstands.2⟩
  · exact hstands.elim
  · exact ⟨hstands.1, hlimit ▸ hstands.2.1, hstands.2.2⟩

/-- What is so at every moment: the cluster's node has a value that decodes, the fields of its
metadata are the first ones, and it names whom it named first, nobody else but those that were
declared, and all of those whose declaration ended well. -/
structure Lossless (first m : ClusterMetadata) (node : Node) (w : Declarations) : Prop where
  stored : w.store.nodes.find? w.path = some node
  decoded : ClusterMetadata.decode? node.value = some m
  fields : m.link = first.link ∧ m.route = first.route ∧ m.info = first.info ∧ m.extra = first.extra
  held : ∀ consumer, first.hasConsumer consumer = true → m.hasConsumer consumer = true
  named : ∀ consumer, m.hasConsumer consumer = true →
    first.hasConsumer consumer = true ∨ consumer ∈ w.declared
  fair : ∀ c ∈ w.calls, Fair m c

/-- **Concurrent declarations lose nothing.**  In a store that any calls led to, let a cluster's
node have a value that decodes to metadata without doubles.  Any declarations on that cluster may
then be interleaved in any order, with each other and with other uses of the store that neither
write nor delete the node. -/
theorem lossless_run (calls : List Store.Call) (application cluster : String) {node : Node}
    {m : ClusterMetadata}
    (hnode : (Store.empty.run calls).nodes.find? (Declarer.clusterPath application cluster) =
      some node)
    (hm : ClusterMetadata.decode? node.value = some m)
    (hinfo : Json.membersWhole m.info = true) (hextra : Json.membersWhole m.extra = true)
    (acts : List DeclarationsAct) :
    ∃ m' node', ((start application cluster (Store.empty.run calls)).run acts).Lossless m m' node' := by
  generalize hw : start application cluster (Store.empty.run calls) = w
  have hwpath : w.path = Declarer.clusterPath application cluster := by
    rw [← hw]
    rfl
  have hpath : Path.isWellFormed w.path = true := by
    rw [hwpath]
    exact (Store.rooted_run calls).wellFormed _ (Option.isSome_iff_exists.2 ⟨node, hnode⟩)
  have hfirst : w.Intact m m node := by
    rw [← hw]
    exact ⟨hnode, hm, ClusterMetadata.tidy_of_decode? hm hinfo hextra, ⟨rfl, rfl, rfl, rfl⟩,
      fun _ h => h, fun _ h => .inl h, fun _ hc => absurd hc List.not_mem_nil,
      fun _ hc => absurd hc List.not_mem_nil⟩
  obtain ⟨m', node', h⟩ := intact_run acts hpath hfirst
  exact ⟨m', node', h.stored, h.decoded, h.fields, h.held, h.named, fun c hc => h.fair hc⟩

/-- A cluster with a route, a consumer and a field of its own. -/
def shopNode : Node where
  value := "\x7b\"route\":\x7b\"pay\":\"east\"\x7d,\"dependency\":\x7b\"app\":[\"x\"]\x7d,\"weight\":3\x7d"
  version := 0
  childCount := 0

/-- The call that creates that cluster. -/
def shopCalls : List Store.Call := [.create "/service/shop/main" shopNode.value true]

/-- The metadata of that cluster. -/
def shopMetadata : ClusterMetadata :=
  ⟨[], .ofList [("pay", "east")], [], .ofList [("app", ["x"])], [("weight", .nat 3)]⟩

/-- Two clients read the same version, and the one that writes later has no other attempt; a third
one records the same consumer again. -/
def shopActs : List DeclarationsAct :=
  [.declare ⟨"app", "a"⟩ 0, .declare ⟨"app", "b"⟩ 3, .step 0, .step 1,
    .other (.create "/service/shop/main/1" "" false), .step 1, .step 0,
    .declare ⟨"app", "a"⟩ 3, .step 2, .step 2]

/-- Three declarations on the shop. -/
theorem lossless_run_shop :
    (Store.empty.run shopCalls).nodes.find? (Declarer.clusterPath "shop" "main") = some shopNode ∧
    ClusterMetadata.decode? shopNode.value = some shopMetadata ∧
    Json.membersWhole shopMetadata.info = true ∧ Json.membersWhole shopMetadata.extra = true ∧
    ∃ m node, ((start "shop" "main" (Store.empty.run shopCalls)).run shopActs).Lossless
      shopMetadata m node := by
  have hnode : (Store.empty.run shopCalls).nodes.find? (Declarer.clusterPath "shop" "main") =
      some shopNode := by decide +kernel
  have hm : ClusterMetadata.decode? shopNode.value = some shopMetadata := by decide +kernel
  exact ⟨hnode, hm, rfl, rfl, lossless_run shopCalls "shop" "main" hnode hm rfl rfl shopActs⟩

end Declarations

end Treecast
