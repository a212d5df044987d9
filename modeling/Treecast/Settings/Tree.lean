import Treecast.Sorted
import Treecast.Decimal.Nearest
import Treecast.Text.Case

/-!
# Trees of settings

What a source of settings says is a tree of tables.  Sources are laid one over another: tables
are merged name by name, whatever the case of their letters, and any other value takes the place
of what was there, with the names in it as they are.

A place in a tree is written as names joined by dots, with numbers in brackets for the items of
lists.
-/

set_option autoImplicit false

namespace Treecast

/-- What a source of settings says. -/
inductive SettingTree where
  /-- Nothing: an item of a list that no source gave. -/
  | blank
  | flag (b : Bool)
  | whole (n : Int)
  | real (d : Double)
  | text (s : String)
  | list (items : List SettingTree)
  | table (entries : List (String × SettingTree))
  deriving Inhabited

namespace SettingTree

/-- The table without entries. -/
def emptyTable : SettingTree := .table []

/-- The entries of a table; anything else has none. -/
def entries : SettingTree → Entries String SettingTree
  | .table entries => entries
  | _ => []

/-- The items of a list; anything else has none. -/
def items : SettingTree → List SettingTree
  | .list items => items
  | _ => []

mutual

/-- Lays a value over what a target has under a name in small letters: the entries of a table one
by one, any other value as a whole.  A target that is no table becomes one. -/
def put (name : String) : (value target : SettingTree) → SettingTree
  | .table upper, target =>
    let under := (Entries.find? name target.entries).getD emptyTable
    .table (Entries.insert name (putAll upper under) target.entries)
  | .blank, target => .table (Entries.insert name .blank target.entries)
  | .flag b, target => .table (Entries.insert name (.flag b) target.entries)
  | .whole n, target => .table (Entries.insert name (.whole n) target.entries)
  | .real d, target => .table (Entries.insert name (.real d) target.entries)
  | .text s, target => .table (Entries.insert name (.text s) target.entries)
  | .list xs, target => .table (Entries.insert name (.list xs) target.entries)

/-- Lays entries over a target, in order. -/
def putAll : List (String × SettingTree) → SettingTree → SettingTree
  | [], target => target
  | (name, value) :: rest, target => putAll rest (put (Text.lower name) value target)

end

/-! ## Places -/

/-- One step down into a tree. -/
inductive Step where
  | entry (name : String)
  | item (index : Int)
  deriving DecidableEq, Repr

/-- Whether a character may stand in a name of a place. -/
def isPlaceChar (c : Char) : Bool := c.isAlphanum || c = ' ' || c = '_' || c = '-'

def readName (cs : List Char) : Option (String × List Char) :=
  match cs.takeWhile isPlaceChar with
  | [] => none
  | name => some (String.ofList name, cs.dropWhile isPlaceChar)

/-- Whether blanks of this kind may stand around the number of an item. -/
def isGap (c : Char) : Bool := c = ' ' || c = '\t'

/-- Reads a number of 64 bits, which a minus may precede, the blanks around it and the bracket
after it. -/
def readIndex (cs : List Char) : Option (Int × List Char) :=
  let (minus, cs) := match cs.dropWhile isGap with
    | '-' :: rest => (true, rest)
    | cs => (false, cs)
  match cs.takeWhile Char.isDigit, (cs.dropWhile Char.isDigit).dropWhile isGap with
  | [], _ => none
  | digits, ']' :: rest =>
    let n : Nat := digits.foldl (fun n c => n * 10 + (c.toNat - 48)) 0
    if n < Nat.pow 2 63 ∨ (minus ∧ n = Nat.pow 2 63) then some (if minus then -n else n, rest)
    else none
  | _, _ => none

/-- Reads the steps after the first, at most so many. -/
def readSteps : (limit : Nat) → List Char → Option (List Step)
  | _, [] => some []
  | 0, _ => none
  | limit + 1, '.' :: cs => do
    let (name, cs) ← readName cs
    return .entry name :: (← readSteps limit cs)
  | limit + 1, '[' :: cs => do
    let (index, cs) ← readIndex cs
    return .item index :: (← readSteps limit cs)
  | _ + 1, _ => none

/-- The steps of a place as it is written. -/
def stepsOf? (place : String) : Option (List Step) := do
  let (name, cs) ← readName place.toList
  return .entry name :: (← readSteps cs.length cs)

/-- The place in a list that an index means; a negative one counts from the end. -/
def placeOf (index : Int) (length : Nat) : Nat :=
  if index ≥ 0 then index.toNat else length - index.natAbs

/-- A list with one item changed; it grows by blanks where it is too short. -/
def alterItem (items : List SettingTree) (index : Int) (f : SettingTree → SettingTree) :
    List SettingTree :=
  let place := placeOf index items.length
  let grown := items ++ List.replicate (place + 1 - items.length) .blank
  grown.modify place f

/-- Lays a value over what a target has at the end of some steps.  Only the last name is made
small; those on the way have to be as the target has them. -/
def putAt (value : SettingTree) : List Step → SettingTree → SettingTree
  | [], _ => value
  | [.entry name], target => put (Text.lower name) value target
  | .entry name :: rest, target =>
    let under := (Entries.find? name target.entries).getD .blank
    .table (Entries.insert name (putAt value rest under) target.entries)
  | .item index :: rest, target => .list (alterItem target.items index (putAt value rest))

/-- Lays the entries of a source over a tree.  The names of a source may be places; a name that
is none stands for itself. -/
def layOver (source target : SettingTree) : SettingTree :=
  source.entries.foldl (fun target e =>
    match stepsOf? e.1 with
    | some steps => putAt e.2 steps target
    | none => put (Text.lower e.1) e.2 target) target

end SettingTree

end Treecast
