import Treecast.Json.Value

/-!
# Decoding JSON values

Readers of typed data from a value.  They accept values whose objects still carry repeated keys:
every member must decode, and of repeated keys the last one counts.
-/

set_option autoImplicit false

namespace Treecast.Json.Value

def text? : Value → Option String
  | .string s => some s
  | _ => none

def flag? : Value → Option Bool
  | .bool b => some b
  | _ => none

/-- A whole number from 0 to `limit`. -/
def natUpTo? (limit : Nat) : Value → Option Nat
  | .number (.whole n) => if 0 ≤ n ∧ n ≤ (limit : Int) then some n.toNat else none
  | _ => none

/-- A list whose items all decode. -/
def listOf? {α : Type} (item : Value → Option α) : Value → Option (List α)
  | .array items => items.mapM item
  | _ => none

/-- A map whose members all decode. -/
def mapOf? {α : Type} (member : Value → Option α) : Value → Option (SortedMap String α)
  | .object members =>
    (members.mapM fun m => (member m.2).map fun x => (m.1, x)).map SortedMap.ofList
  | _ => none

/-- The name of a variant without content: a string, or an object whose only member is null. -/
def variant? : Value → Option String
  | .string s => some s
  | .object [(name, .null)] => some name
  | _ => none

/-- The object of a map. -/
def ofMap {α : Type} (member : α → Value) (m : SortedMap String α) : Value :=
  .object (m.map fun _ x => member x).entries

end Treecast.Json.Value
