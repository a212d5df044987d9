import Treecast.Toml.Document
import Treecast.Settings.Lenient
import Treecast.Path

/-!
# Loading settings

Settings come in layers: the settings that hold already, then a file, then the environment.  A
later layer takes precedence, name by name.
-/

set_option autoImplicit false

namespace Treecast

/-! ## The environment -/

structure Variable where
  name : String
  value : String
  deriving DecidableEq, Repr

namespace Variable

/-- What the names of variables with settings start with, in small letters. -/
def marker : List Char := "arbor__".toList

/-- A name with a dot for every two underscores. -/
def dotted : List Char → List Char
  | '_' :: '_' :: rest => '.' :: dotted rest
  | c :: rest => c :: dotted rest
  | [] => []

/-- The place that a variable sets, in small letters; none if it sets nothing. -/
def place? (v : Variable) : Option String :=
  if v.value = "" then none
  else
    (Path.after? marker (Text.lower v.name).toList).map fun cs => String.ofList (dotted cs)

/-- The digits, a point somewhere among them, and the power of ten of a decimal. -/
def decimalParts? (cs : List Char) : Option (List Char × Int) := do
  let whole := cs.takeWhile Char.isDigit
  let cs := cs.dropWhile Char.isDigit
  let (fraction, cs) := match cs with
    | '.' :: rest => (rest.takeWhile Char.isDigit, rest.dropWhile Char.isDigit)
    | cs => ([], cs)
  if whole.isEmpty && fraction.isEmpty then none
  let (power, cs) ← match cs with
    | c :: rest =>
      if c = 'e' ∨ c = 'E' then
        let (sign, rest) := Toml.readSign? rest
        match rest.takeWhile Char.isDigit with
        | [] => none
        | digits =>
          let n : Int := Toml.decimalNumber digits
          some (if sign = some true then -n else n, rest.dropWhile Char.isDigit)
      else none
    | [] => some (0, [])
  if cs.isEmpty then some (whole ++ fraction, power - fraction.length) else none

def real? (text : String) : Option Double :=
  let (sign, cs) := Toml.readSign? text.toList
  let magnitude : Option Double :=
    match Text.asciiLower (String.ofList cs) with
    | "inf" | "infinity" => some Double.infinity
    | "nan" => some Double.notNumber
    | _ => (decimalParts? cs).map fun p => Double.ofDecimal (Toml.decimalNumber p.1) p.2
  magnitude.map fun d => if sign = some true then d.negate else d

/-- The whole number of 64 bits of a text. -/
def whole? (text : String) : Option SettingTree :=
  match Toml.readSign? text.toList with
  | (sign, cs) => (SettingTree.digits? cs).bind (Toml.wholeOf? (sign = some true))

/-- What a variable says: a truth value, a number or a text. -/
def tree (v : Variable) : SettingTree :=
  match Text.asciiLower v.value with
  | "true" => .flag true
  | "false" => .flag false
  | _ =>
    (whole? v.value).getD <|
      match real? v.value with
      | some d => .real d
      | none => .text v.value

end Variable

/-- What the environment says. -/
def environmentTree (vars : List Variable) : SettingTree :=
  .table (Entries.ofList (vars.filterMap fun v => v.place?.map fun place => (place, v.tree)))

/-! ## Settings as a layer -/

mutual

/-- The values in a value with the places at which they stand. -/
def leaves (place : String) : Json.Value → List (String × Json.Value)
  | .object members => memberLeaves place members
  | .array items => itemLeaves place 0 items
  | .null => [(place, .null)]
  | .bool b => [(place, .bool b)]
  | .number n => [(place, .number n)]
  | .string s => [(place, .string s)]

/-- The values in the members of an object. -/
def memberLeaves (place : String) : List (String × Json.Value) → List (String × Json.Value)
  | [] => []
  | (name, v) :: rest =>
    leaves (if place = "" then name else place ++ "." ++ name) v ++ memberLeaves place rest

/-- The values in the items of a list, from an index on. -/
def itemLeaves (place : String) (index : Nat) : List Json.Value → List (String × Json.Value)
  | [] => []
  | v :: rest =>
    leaves (place ++ "[" ++ toString index ++ "]") v ++ itemLeaves place (index + 1) rest

end

/-- What a plain value says; whole numbers have 64 bits with a sign. -/
def plainTree? : Json.Value → Option SettingTree
  | .bool b => some (.flag b)
  | .string s => some (.text s)
  | .number (.whole n) => if n < Nat.pow 2 63 then some (.whole n) else none
  | _ => none

/-- Settings as a tree: each value is put at its place, so that empty lists and maps leave no
trace; a name that cannot be part of a place cannot be laid out. -/
def Settings.tree? (s : Settings) : Option SettingTree :=
  (leaves "" s.toValue).foldlM (fun tree e => do
    return SettingTree.putAt (← plainTree? e.2) (← SettingTree.stepsOf? e.1) tree)
    SettingTree.emptyTable

/-! ## Layers -/

/-- A file of settings. -/
inductive SettingsFile where
  | unnamed
  /-- It was named but is not there. -/
  | absent
  | holding (text : String)

/-- What a file says; `none` if it cannot be read or is no table.  A byte order mark at its start
belongs to the file and not to its text. -/
def SettingsFile.tree? : SettingsFile → Option SettingTree
  | .unnamed => some .emptyTable
  | .absent => none
  | .holding text =>
    match Toml.read (String.ofList (Toml.unmarked text.toList)) with
    | some (.table entries) => some (.table entries)
    | _ => none

namespace Settings

/-- The settings with a file and the environment laid over them; `none` if a layer cannot be read
or a value does not fit. -/
def overlay (s : Settings) (file : SettingsFile) (environment : List Variable) :
    Option Settings := do
  let tree := (← s.tree?).layOver SettingTree.emptyTable
  let tree := (← file.tree?).layOver tree
  let tree := (environmentTree environment).layOver tree
  tree.settings?

/-- The settings of a file and the environment. -/
def load (file : SettingsFile) (environment : List Variable) : Option Settings :=
  standard.overlay file environment

end Settings

end Treecast
