import Treecast.Json.Reader
import Treecast.Json.Decode
import Treecast.Json.Printer
import Treecast.Text.Classes

/-!
# Metadata of clusters and applications

The value of a service tree's cluster or application node is a JSON object.  The fields named
here are interpreted and all others are kept as they are.  A blank value means no metadata, and
so does one that does not decode: wrong types, or a named field given twice.
-/

set_option autoImplicit false

namespace Treecast.Routing

open Json (Value)

/-- The intent that a route without an intent stands for. -/
def directIntent : String := "direct"

/-- The ezone whose default routes hold for every caller. -/
def overallEzone : String := "overall"

/-- The key of an entry for one name within another. -/
def scopedKey (outer inner : String) : String := outer ++ "@" ++ inner

/-- The values given for a field of an object. -/
def fieldValues (name : String) (members : List (String × Value)) : List Value :=
  members.filterMap fun m => if m.1 = name then some m.2 else none

/-- The value of a field that may be missing but must not be given twice. -/
def fieldOr? {α : Type} (name : String) (read : Value → Option α) (missing : α)
    (members : List (String × Value)) : Option α :=
  match fieldValues name members with
  | [] => some missing
  | [v] => read v
  | _ => none

/-- The members of an object, in order. -/
def freeForm? (v : Value) : Option (Entries String Value) := v.inOrder.members?

/-- The members that are not among the named fields, in order. -/
def otherFields (names : List String) (members : List (String × Value)) :
    Entries String Value :=
  Entries.ofList (Value.membersInOrder (members.filter fun m => !names.contains m.1))

/-- A text's metadata, if it has any that decodes. -/
def decodeText {α : Type} (read : List (String × Value) → Option α) (none_ : α) (text : String) :
    Option α :=
  if Text.allBlank text then some none_
  else
    match Json.readSource text with
    | some (.object members) => read members
    | _ => none

/-- The metadata of a cluster. -/
structure ClusterMetadata where
  /-- The clusters that stand for this one. -/
  link : List String
  /-- Where this cluster's callers go: by destination, or by destination and intent. -/
  route : SortedMap String String
  /-- Descriptive fields. -/
  info : Entries String Value
  /-- The clusters of each application that were declared as consumers. -/
  dependency : SortedMap String (List String)
  /-- All other fields. -/
  extra : Entries String Value
  deriving DecidableEq

namespace ClusterMetadata

/-- No metadata. -/
def empty : ClusterMetadata := ⟨[], SortedMap.empty, [], SortedMap.empty, []⟩

instance : Inhabited ClusterMetadata := ⟨empty⟩

/-- The fields that are interpreted. -/
def fieldNames : List String := ["link", "route", "info", "dependency"]

/-- The metadata in the members of an object. -/
def ofMembers? (members : List (String × Value)) : Option ClusterMetadata := do
  let link ← fieldOr? "link" (Value.listOf? Value.text?) [] members
  let route ← fieldOr? "route" (Value.mapOf? Value.text?) SortedMap.empty members
  let info ← fieldOr? "info" freeForm? [] members
  let dependency ← fieldOr? "dependency" (Value.mapOf? (Value.listOf? Value.text?))
    SortedMap.empty members
  return ⟨link, route, info, dependency, otherFields fieldNames members⟩

/-- The metadata in a node's value; none if it does not decode. -/
def decode? (text : String) : Option ClusterMetadata := decodeText ofMembers? empty text

/-- The metadata in a node's value. -/
def decode (text : String) : ClusterMetadata := (decode? text).getD empty

/-- The members that the metadata is written with: the named fields that are not empty, then the
others. -/
def toMembers (m : ClusterMetadata) : List (String × Value) :=
  (if m.link.isEmpty then [] else [("link", Value.strings m.link)]) ++
  (if m.route.isEmpty then [] else [("route", Value.ofMap Value.string m.route)]) ++
  (if m.info.isEmpty then [] else [("info", .object m.info)]) ++
  (if m.dependency.isEmpty then []
    else [("dependency", Value.ofMap Value.strings m.dependency)]) ++
  m.extra

/-- The value that the metadata is written as. -/
def toValue (m : ClusterMetadata) : Value := .object m.toMembers

/-- The text that the metadata is written as. -/
def encode (m : ClusterMetadata) : String := m.toValue.render

/-- Whether other clusters stand for this one. -/
def isLink (m : ClusterMetadata) : Bool := !m.link.isEmpty

/-- Where callers in this cluster go for an intent of a destination. -/
def routeTo? (m : ClusterMetadata) (destination intent : String) : Option String :=
  let byIntent := m.route.find? (scopedKey destination intent)
  if intent = directIntent then (m.route.find? destination).or byIntent else byIntent

end ClusterMetadata

/-- The metadata of an application. -/
structure ApplicationMetadata where
  /-- Where callers go by default: by ezone, then intent. -/
  defaultRoute : SortedMap String (SortedMap String String)
  /-- All other fields. -/
  extra : Entries String Value
  deriving DecidableEq

namespace ApplicationMetadata

/-- No metadata. -/
def empty : ApplicationMetadata := ⟨SortedMap.empty, []⟩

instance : Inhabited ApplicationMetadata := ⟨empty⟩

/-- The fields that are interpreted. -/
def fieldNames : List String := ["default_route"]

/-- The metadata in the members of an object. -/
def ofMembers? (members : List (String × Value)) : Option ApplicationMetadata := do
  let defaultRoute ← fieldOr? "default_route" (Value.mapOf? (Value.mapOf? Value.text?))
    SortedMap.empty members
  return ⟨defaultRoute, otherFields fieldNames members⟩

/-- The metadata in a node's value; none if it does not decode. -/
def decode? (text : String) : Option ApplicationMetadata := decodeText ofMembers? empty text

/-- The metadata in a node's value. -/
def decode (text : String) : ApplicationMetadata := (decode? text).getD empty

/-- The members that the metadata is written with. -/
def toMembers (m : ApplicationMetadata) : List (String × Value) :=
  (if m.defaultRoute.isEmpty then []
    else [("default_route", Value.ofMap (Value.ofMap Value.string) m.defaultRoute)]) ++
  m.extra

/-- The value that the metadata is written as. -/
def toValue (m : ApplicationMetadata) : Value := .object m.toMembers

/-- The text that the metadata is written as. -/
def encode (m : ApplicationMetadata) : String := m.toValue.render

/-- The default route for an intent in one ezone. -/
def routeIn? (m : ApplicationMetadata) (ezone intent : String) : Option String :=
  (m.defaultRoute.find? ezone).bind (·.find? intent)

/-- The default route for an intent: the ezone's, then the one that holds for every caller. -/
def routeFor? (m : ApplicationMetadata) (ezone : Option String) (intent : String) :
    Option String :=
  (ezone.bind (m.routeIn? · intent)).or (m.routeIn? overallEzone intent)

end ApplicationMetadata

end Treecast.Routing
