import Treecast.Message

/-!
# The client's view

A client keeps, section by section, the payload of every cluster.  An `all` replaces the
sections that it carries, an `update` sets keys of the payloads, a `delete` removes keys, and a
`ping` changes nothing.  Each section is received on its own (`View.receive`).

## Results

* `Sections.clusters?_message`: the sections of a message are those of the body that it is made
  from.
* `Message.sorted_of_inOrder`: in a message in order the clusters of every section are sorted.
-/

set_option autoImplicit false

namespace Treecast

open Json (Value)

/-! ## Receiving -/

/-- The payloads of a section by cluster. -/
abbrev Payloads := String → Option Value

/-- What a client holds; none for a section that it never received. -/
abbrev View := FeedKey → Option Payloads

/-- The payload with these keys set. -/
def setKeys (held : Option Value) (news : Value) : Value :=
  .object ((news.members?.getD []).foldl (fun known e => Entries.insert e.1 e.2 known)
    ((held.bind Value.members?).getD []))

/-- The payload without these keys. -/
def dropKeys (held gone : Value) : Value :=
  .object ((gone.members?.getD []).foldl (fun known e => Entries.erase e.1 known)
    (held.members?.getD []))

/-- The payloads in a section's cluster entries. -/
def payloadsOf (clusters : Entries String Value) : Payloads :=
  fun name => Entries.find? name clusters

namespace Payloads

/-- The payloads after each cluster that is listed has changed. -/
def change (f : Option Value → Value → Option Value) (held : Payloads)
    (clusters : Entries String Value) : Payloads := fun name =>
  match Entries.find? name clusters with
  | some news => f (held name) news
  | none => held name

/-- The payloads after an `update`. -/
def update (held : Payloads) (clusters : Entries String Value) : Payloads :=
  held.change (fun old news => some (setKeys old news)) clusters

/-- The payloads after a `delete`. -/
def delete (held : Payloads) (clusters : Entries String Value) : Payloads :=
  held.change (fun old gone => old.map (dropKeys · gone)) clusters

end Payloads

/-- A section after the cluster entries that a message carries for it.  An `update` without
entries does not create the section. -/
def receiveSection (kind : MessageKind) (held : Option Payloads) (clusters : Entries String Value) :
    Option Payloads :=
  match kind with
  | .all => some (payloadsOf clusters)
  | .update =>
    if clusters.isEmpty then held else some ((held.getD fun _ => none).update clusters)
  | .delete => held.map (·.delete clusters)
  | .ping => held

/-- A section without entries changes nothing, except in an `all`. -/
theorem receiveSection_nil {kind : MessageKind} (h : kind ≠ .all) (held : Option Payloads) :
    receiveSection kind held [] = held := by
  cases kind with
  | all => exact absurd rfl h
  | update => rfl
  | delete => cases held <;> rfl
  | ping => rfl

/-- An `update` of a section that the client holds. -/
theorem receiveSection_update (held : Payloads) (clusters : Entries String Value) :
    receiveSection .update (some held) clusters = some (held.update clusters) := by
  cases clusters with
  | nil => rfl
  | cons e rest => rfl

namespace View

/-- What a client holds before the first message. -/
def empty : View := fun _ => none

/-- What a client holds after a message. -/
def receive (v : View) (m : Message) : View := fun key =>
  match m.clusters? key with
  | some clusters => receiveSection m.kind (v key) clusters
  | none => v key

/-- What a client holds after messages in order. -/
def receiveAll (v : View) (messages : List Message) : View := messages.foldl receive v

theorem receiveAll_append (v : View) (messages more : List Message) :
    v.receiveAll (messages ++ more) = (v.receiveAll messages).receiveAll more :=
  List.foldl_append

/-- What a message carries. -/
def ofMessage (m : Message) : View := fun key => (m.clusters? key).map payloadsOf

theorem receive_ping (v : View) {m : Message} (h : m.kind = .ping) : v.receive m = v := by
  funext key
  rw [receive, h]
  split <;> rfl

theorem receive_all (v : View) {m : Message} (h : m.kind = .all) (key : FeedKey) :
    v.receive m key = (ofMessage m key).or (v key) := by
  rw [receive, ofMessage, h]
  cases m.clusters? key <;> rfl

/-- The first `all` gives what it carries. -/
theorem receive_empty {m : Message} (h : m.kind = .all) : empty.receive m = ofMessage m := by
  funext key
  rw [receive_all empty h]
  exact Option.or_none

end View

/-! ## Sections of a body -/

theorem FeedKind.name_inj {a b : FeedKind} (h : a.name = b.name) : a = b := by
  revert h
  cases a <;> cases b <;> decide

/-- The cluster entries of a section in the members of a body. -/
def sectionIn (body : Entries String Value) (key : FeedKey) : Option (Entries String Value) :=
  ((Entries.find? key.kind.name body).bind (Value.get? key.application)).bind Value.members?

theorem clusters?_eq_sectionIn (kind : MessageKind) (body : Entries String Value) (key : FeedKey) :
    Message.clusters? ⟨kind, .object body⟩ key = sectionIn body key := by
  rw [Message.clusters?, sectionIn, Option.bind_assoc]
  rfl

namespace Sections

theorem sectionIn_addSection (body : Entries String Value) (key : FeedKey)
    (clusters : Entries String Value) (other : FeedKey) :
    sectionIn (addSection body key clusters) other =
      if other = key then some clusters else sectionIn body other := by
  rw [sectionIn, addSection, Entries.find?_insert]
  by_cases hk : other.kind = key.kind
  · rw [if_pos (congrArg FeedKind.name hk), Option.bind_some, Value.get?, Entries.find?_insert]
    by_cases ha : other.application = key.application
    · have : other = key := by
        cases other
        cases key
        simp_all
      rw [if_pos ha, if_pos this]
      rfl
    · rw [if_neg ha, if_neg fun h => ha (congrArg FeedKey.application h), sectionIn, hk]
      split
      · rename_i h
        rw [h]
        rfl
      · rename_i h
        -- a kind that is no object has no sections
        cases hfind : Entries.find? key.kind.name body with
        | none => rfl
        | some v =>
          cases v with
          | object sections => exact absurd hfind (h sections)
          | _ => rfl
  · rw [if_neg fun h => hk (FeedKind.name_inj h), if_neg fun h => hk (congrArg FeedKey.kind h),
      sectionIn]

/-- **The sections of a message are those of its body.** -/
theorem clusters?_message (b : Sections) (kind : MessageKind) (key : FeedKey) :
    (b.message kind).clusters? key = b.sections.find? key := by
  rw [message, toValue, clusters?_eq_sectionIn]
  refine (Entries.look_foldl addSection sectionIn (fun clusters _ => some clusters)
    sectionIn_addSection b.sections.sorted [] key).trans ?_
  rw [SortedMap.find?]
  cases b.sections.entries.find? key <;> rfl

end Sections

/-! ## Messages in order -/

namespace Json.Value

theorem membersInOrder_eq_map (members : List (String × Value)) :
    membersInOrder members = members.map fun e => (e.1, e.2.inOrder) := by
  induction members with
  | nil => rfl
  | cons e rest ih =>
    obtain ⟨k, v⟩ := e
    rw [membersInOrder, ih, List.map_cons]

/-- The members of an object in order are sorted and in order themselves. -/
theorem members_of_inOrder {members : Entries String Value}
    (h : (Value.object members).inOrder = .object members) :
    members.Sorted ∧ ∀ e ∈ members, e.2.inOrder = e.2 := by
  rw [inOrder, Value.object.injEq, membersInOrder_eq_map] at h
  have hsorted : members.Sorted := h ▸ Entries.ofList_sorted _
  refine ⟨hsorted, fun e he => ?_⟩
  rw [Entries.ofList_eq_self (Entries.map_sorted (fun _ v => v.inOrder) hsorted)] at h
  exact congrArg Prod.snd (List.map_inj_left.1 (h.trans (List.map_id members).symm) e he)

/-- The objects of the outer levels, so many of them, have sorted members. -/
def SortedTo : Nat → Value → Prop
  | levels + 1, .object members => Entries.Sorted members ∧ ∀ e ∈ members, SortedTo levels e.2
  | _, _ => True

theorem sortedTo_of_inOrder (levels : Nat) {v : Value} (h : v.inOrder = v) : v.SortedTo levels := by
  induction levels generalizing v with
  | zero => cases v <;> trivial
  | succ levels ih =>
    cases v with
    | object members =>
      obtain ⟨hsorted, hmembers⟩ := members_of_inOrder h
      exact ⟨hsorted, fun e he => ih (hmembers e he)⟩
    | _ => trivial

theorem SortedTo.of_succ {levels : Nat} {v : Value} (h : v.SortedTo (levels + 1)) :
    v.SortedTo levels := by
  induction levels generalizing v with
  | zero => cases v <;> trivial
  | succ levels ih =>
    cases v with
    | object members => exact ⟨h.1, fun e he => ih (h.2 e he)⟩
    | _ => trivial

theorem SortedTo.get? {levels : Nat} {v w : Value} {key : String} (h : v.SortedTo (levels + 1))
    (hw : v.get? key = some w) : w.SortedTo levels := by
  cases v with
  | object members => exact h.2 _ (Entries.mem_of_find? hw)
  | _ => cases hw

end Json.Value

namespace Message

/-- The clusters of every section of a message whose objects are sorted down to there. -/
theorem sorted_of_sortedTo {m : Message} (h : m.body.SortedTo 3) {key : FeedKey}
    {clusters : Entries String Value} (hc : m.clusters? key = some clusters) :
    clusters.Sorted := by
  obtain ⟨sections, hsections, hc⟩ := Option.bind_eq_some_iff.1 hc
  obtain ⟨section_, hsection, hc⟩ := Option.bind_eq_some_iff.1 hc
  have hin := (h.get? hsections).get? hsection
  cases section_ with
  | object members =>
    cases hc
    exact hin.1
  | _ => cases hc

/-- **In a message in order the clusters of every section are sorted.** -/
theorem sorted_of_inOrder {m : Message} (h : m.body.inOrder = m.body) {key : FeedKey}
    {clusters : Entries String Value} (hc : m.clusters? key = some clusters) :
    clusters.Sorted :=
  sorted_of_sortedTo (Value.sortedTo_of_inOrder 3 h) hc

end Message

end Treecast
