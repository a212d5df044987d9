import Treecast.Kind
import Treecast.Json.Printer
import Treecast.Json.Decode

/-!
# Messages to clients

A message carries a body `{kind: {application: {cluster: payload}}}`.  In feeds of keys the
payload is `{key: {"value": text}}`, with null for a deleted key; in `service_info` it is the
cluster's descriptive fields.  An `all` replaces the sections it carries, an `update` sets keys
and a `delete` removes them; a `ping` only keeps the connection alive.
-/

set_option autoImplicit false

namespace Treecast

inductive MessageKind where
  | all
  | update
  | delete
  | ping
  deriving DecidableEq, Repr

def MessageKind.name : MessageKind → String
  | .all => "all"
  | .update => "update"
  | .delete => "delete"
  | .ping => "ping"

def MessageKind.ofName? (text : String) : Option MessageKind :=
  [MessageKind.all, .update, .delete, .ping].find? (·.name = text)

structure Message where
  kind : MessageKind
  body : Json.Value
  deriving DecidableEq

namespace Message

open Json (Value)

/-- The message that only keeps the connection alive. -/
def ping : Message := ⟨.ping, Value.emptyObject⟩

/-- The cluster entries of one section. -/
def clusters? (m : Message) (key : FeedKey) : Option (Entries String Value) := do
  let section_ ← m.body.get? key.kind.name
  let clusters ← section_.get? key.application
  clusters.members?

/-- Changes the member of an object under `key`, if there is one. -/
def alterMember (key : String) (f : Value → Value) : Value → Value
  | .object members =>
    match Entries.find? key members with
    | some v => .object (Entries.insert key (f v) members)
    | none => .object members
  | v => v

/-- Changes the cluster entries of one section, if it is there. -/
def alterClusters (m : Message) (key : FeedKey)
    (f : Entries String Value → Entries String Value) : Message :=
  let onClusters : Value → Value
    | .object clusters => .object (f clusters)
    | v => v
  { m with body := alterMember key.kind.name (alterMember key.application onClusters) m.body }

/-- Whether a section holds a cluster entry. -/
def sectionHasEntries : Value → Bool
  | .object clusters => !clusters.isEmpty
  | _ => false

/-- Whether any section of a kind holds a cluster entry. -/
def kindHasEntries : Value → Bool
  | .object sections => sections.any fun s => sectionHasEntries s.2
  | _ => false

/-- Whether any section holds a cluster entry. -/
def hasEntries (m : Message) : Bool :=
  match m.body with
  | .object kinds => kinds.any fun k => kindHasEntries k.2
  | _ => false

/-- A kind's sections without the empty ones. -/
def pruneKind : Value → Value
  | .object sections => .object (sections.filter fun s => !s.2.isEmptyObject)
  | v => v

/-- The message without empty sections, and without kinds that have no section left. -/
def prune (m : Message) : Message :=
  match m.body with
  | .object kinds =>
    let kinds := kinds.map fun k => (k.1, pruneKind k.2)
    { m with body := .object (kinds.filter fun k => !k.2.isEmptyObject) }
  | _ => m

def toValue (m : Message) : Value :=
  .object [("body", m.body), ("message", .string m.kind.name)]

/-- The message of a value: an object with both fields, or the two in an array. -/
def ofValue? (v : Value) : Option Message := do
  let (kind, body) ← match v with
    | .array [kind, body] => some (kind, body)
    | .object members => do
      some (← Entries.find? "message" members, ← Entries.find? "body" members)
    | _ => none
  let name ← kind.variant?
  return ⟨← MessageKind.ofName? name, body⟩

/-- The characters of a message's line: the kind, then the body, then a newline. -/
def lineChars (m : Message) : List Char :=
  "\x7b\"message\":".toList ++ Json.stringChars m.kind.name ++ ",\"body\":".toList ++
    Json.valueChars m.body ++ ['\x7d', '\n']

/-- The line that carries a message. -/
def line (m : Message) : String := String.ofList m.lineChars

end Message

/-- A body while it is put together: cluster entries by section. -/
structure Sections where
  sections : SortedMap FeedKey (Entries String Json.Value)
  deriving DecidableEq

namespace Sections

open Json (Value)

/-- The body without sections. -/
def empty : Sections := ⟨SortedMap.empty⟩

def isEmpty (b : Sections) : Bool := b.sections.isEmpty

/-- The cluster entries of a section so far. -/
def clusters (b : Sections) (key : FeedKey) : Entries String Value :=
  (b.sections.find? key).getD []

/-- Makes sure that a section is there. -/
def touch (b : Sections) (key : FeedKey) : Sections :=
  ⟨b.sections.insert key (b.clusters key)⟩

/-- Sets the payload of a cluster. -/
def putCluster (b : Sections) (key : FeedKey) (cluster : String) (payload : Value) : Sections :=
  ⟨b.sections.insert key (Entries.insert cluster payload (b.clusters key))⟩

/-- The entry of a key: its value, or null for a deleted key. -/
def keyEntry (value : Option String) : Value :=
  .object [("value", match value with
    | some v => .string v
    | none => .null)]

def putKey (b : Sections) (key : FeedKey) (cluster name : String) (value : Option String) :
    Sections :=
  match (Entries.find? cluster (b.clusters key)).getD Value.emptyObject with
  | .object keys => b.putCluster key cluster (.object (Entries.insert name (keyEntry value) keys))
  | _ => b.touch key

def addSection (body : Entries String Value) (key : FeedKey) (clusters : Entries String Value) :
    Entries String Value :=
  let sections :=
    match Entries.find? key.kind.name body with
    | some (.object sections) => sections
    | _ => []
  Entries.insert key.kind.name
    (.object (Entries.insert key.application (.object clusters) sections)) body

def toValue (b : Sections) : Value :=
  .object (b.sections.toList.foldl (fun body s => addSection body s.1 s.2) [])

/-- The message of that kind with this body. -/
def message (b : Sections) (kind : MessageKind) : Message := ⟨kind, b.toValue⟩

end Sections

end Treecast
