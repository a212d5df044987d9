import Treecast.Toml.Scalar

/-!
# TOML documents

A document is a sequence of keys with values, under headers that open tables.  No key is given
twice, and a table is defined in one place: under its header, by dotted keys, or inline.  Tables
that are only on the way to others may be opened later.
-/

set_option autoImplicit false

namespace Treecast.Toml

/-! ## Tables while they are built -/

/-- How a table came about. -/
inductive Origin where
  /-- By its header, or it is the document itself. -/
  | opened
  /-- On the way to a header's table. -/
  | passed
  /-- On the way to a dotted key's value. -/
  | dotted
  deriving DecidableEq, Repr

/-- What stands under a key while a document is read. -/
inductive Item where
  | value (v : SettingTree)
  | table (origin : Origin) (entries : List (String × Item))
  /-- Tables that one header opens again and again, the last one first. -/
  | tables (latest : List (String × Item)) (earlier : List (List (String × Item)))

/-- The entries of a table that is built, in the order in which they were added. -/
abbrev Building := List (String × Item)

namespace Building

/-- What stands under a key. -/
def find? (name : String) (b : Building) : Option Item :=
  (List.find? (fun e => e.1 = name) b).map Prod.snd

/-- Puts something under a key, which keeps its place if it is there already. -/
def put (name : String) (item : Item) (b : Building) : Building :=
  if b.any (·.1 = name) then b.map fun e => if e.1 = name then (name, item) else e
  else b ++ [(name, item)]

/-- Puts something under a key, which takes the last place. -/
def putLast (name : String) (item : Item) (b : Building) : Building :=
  b.filter (·.1 ≠ name) ++ [(name, item)]

end Building

mutual

def Item.tree : Item → SettingTree
  | .value v => v
  | .table _ entries => .table (trees entries)
  | .tables latest earlier => .list ((treeLists earlier).reverse ++ [.table (trees latest)])

/-- What the entries of a table say. -/
def trees : List (String × Item) → List (String × SettingTree)
  | [] => []
  | (name, item) :: rest => (name, item.tree) :: trees rest

/-- What tables say, one by one. -/
def treeLists : List (List (String × Item)) → List SettingTree
  | [] => []
  | entries :: rest => .table (trees entries) :: treeLists rest

end

/-- Changes the table that a path leads to, where missing tables on the way are added.  On the way
to a header a table may be of any origin; a dotted key passes no table that was opened. -/
def descend (dotted : Bool) (f : Origin → Building → Option Building) :
    (path : List String) → Origin → Building → Option Building
  | [], origin, entries => f origin entries
  | name :: rest, _, entries =>
    match entries.find? name with
    | none => do
      let origin := if dotted then Origin.dotted else .passed
      let inner ← descend dotted f rest origin []
      return entries.put name (.table origin inner)
    | some (.table origin inner) => do
      if dotted && origin = .opened then none
      let inner ← descend dotted f rest origin inner
      return entries.put name (.table origin inner)
    | some (.tables latest earlier) => do
      let latest ← descend dotted f rest .opened latest
      return entries.put name (.tables latest earlier)
    | some (.value _) => none

/-- A path without its last part, and that part. -/
def splitLast (path : List String) : List String × String :=
  (path.dropLast, path.getLast?.getD "")

/-- Adds a value under a key to a table; a table that dotted keys define takes no plain key, and
the other way round. -/
def addValue (key : List String) (v : SettingTree) (entries : Building) : Option Building :=
  let (path, name) := splitLast key
  descend true (fun origin entries =>
    if (origin = .dotted) = path.isEmpty then none
    else if (entries.find? name).isSome then none
    else some (entries.put name (.value v))) path .opened entries

/-- Opens the table of a header. -/
def openTable (key : List String) (entries : Building) : Option Building :=
  let (path, name) := splitLast key
  descend false (fun _ entries =>
    match entries.find? name with
    | none => some (entries.put name (.table .opened []))
    | some (.table .passed inner) => some (entries.putLast name (.table .opened inner))
    | some _ => none) path .opened entries

/-- Opens one more table of a header in double brackets. -/
def openNext (key : List String) (entries : Building) : Option Building :=
  let (path, name) := splitLast key
  descend false (fun _ entries =>
    match entries.find? name with
    | none => some (entries.put name (.tables [] []))
    | some (.tables latest earlier) =>
      some (entries.put name (.tables [] (latest :: earlier)))
    | some _ => none) path .opened entries

/-- Adds a value under a key to the table of a header. -/
def addUnder (header key : List String) (v : SettingTree) (entries : Building) :
    Option Building :=
  descend false (fun _ entries => addValue key v entries) header .opened entries

/-- The table of keys and values that stand together. -/
def inlineTable (pairs : List (List String × SettingTree)) : Option SettingTree := do
  let entries ← pairs.foldlM (fun entries p => addValue p.1 p.2 entries) []
  return .table (trees entries)

/-! ## Values -/

mutual

/-- Reads a value that nests no deeper than `depth`; `fuel` is more than the characters left. -/
def readValue : (fuel depth : Nat) → List Char → Option (SettingTree × List Char)
  | 0, _, _ => none
  | fuel + 1, depth, cs =>
    match cs with
    | '"' :: _ => (readQuoted cs).map fun r => (.text r.1, r.2)
    | '\'' :: _ => (readQuoted cs).map fun r => (.text r.1, r.2)
    | 't' :: 'r' :: 'u' :: 'e' :: rest => some (.flag true, rest)
    | 'f' :: 'a' :: 'l' :: 's' :: 'e' :: rest => some (.flag false, rest)
    | '[' :: rest => if depth = 0 then none else readItems fuel (depth - 1) [] rest
    | '\x7b' :: rest =>
      if depth = 0 then none
      else
        match skipBlanks rest with
        | '\x7d' :: rest => some (.emptyTable, rest)
        | rest => readPairs fuel (depth - 1) [] rest
    | _ => readScalar cs

/-- Reads the items of a list up to its closing bracket; a comma may follow the last one. -/
def readItems : (fuel depth : Nat) → List SettingTree → List Char →
    Option (SettingTree × List Char)
  | 0, _, _, _ => none
  | fuel + 1, depth, done, cs =>
    match skipGaps cs.length cs with
    | ']' :: rest => some (.list done.reverse, rest)
    | cs =>
      match readValue fuel depth cs with
      | none => none
      | some (v, rest) =>
        match skipGaps rest.length rest with
        | ',' :: rest => readItems fuel depth (v :: done) rest
        | ']' :: rest => some (.list (v :: done).reverse, rest)
        | _ => none

/-- Reads the keys and values of an inline table up to its closing brace. -/
def readPairs : (fuel depth : Nat) → List (List String × SettingTree) → List Char →
    Option (SettingTree × List Char)
  | 0, _, _, _ => none
  | fuel + 1, depth, done, cs =>
    match readKey maxKeyParts cs with
    | some (key, '=' :: rest) =>
      match readValue fuel depth (skipBlanks rest) with
      | none => none
      | some (v, rest) =>
        let done := (key, v) :: done
        match skipBlanks rest with
        | ',' :: rest => readPairs fuel depth done rest
        | '\x7d' :: rest => (inlineTable done.reverse).map fun t => (t, rest)
        | _ => none
    | _ => none

end

/-- How deep lists and inline tables may nest. -/
def maxDepth : Nat := 79

/-! ## Documents -/

/-- A document that was read up to some line. -/
structure Progress where
  /-- The header under which the next keys stand. -/
  header : List String
  entries : Building

/-- Reads a header after its first bracket. -/
def readHeader (p : Progress) (cs : List Char) : Option (Progress × List Char) :=
  match cs with
  | '[' :: cs => do
    let (key, cs) ← readKey maxKeyParts cs
    match cs with
    | ']' :: ']' :: cs => return (⟨key, ← openNext key p.entries⟩, ← restOfLine? cs)
    | _ => none
  | _ => do
    let (key, cs) ← readKey maxKeyParts cs
    match cs with
    | ']' :: cs => return (⟨key, ← openTable key p.entries⟩, ← restOfLine? cs)
    | _ => none

/-- Reads a key with its value. -/
def readEntry (p : Progress) (cs : List Char) : Option (Progress × List Char) := do
  let (key, cs) ← readKey maxKeyParts cs
  let cs ← expect '=' cs
  let (v, rest) ← readValue (cs.length + 1) maxDepth (skipBlanks cs)
  let entries ← addUnder p.header key v p.entries
  return ({ p with entries }, ← restOfLine? rest)

/-- Reads lines to the end, at most so many. -/
def readLines : (limit : Nat) → Progress → List Char → Option Building
  | 0, _, _ => none
  | limit + 1, p, cs =>
    match skipBlanks cs with
    | [] => some p.entries
    | '[' :: rest => do
      let (p, rest) ← readHeader p rest
      readLines limit p rest
    | '#' :: rest => do readLines limit p (← restOfLine? ('#' :: rest))
    | '\n' :: rest => readLines limit p rest
    | '\x0d' :: rest => do readLines limit p (← lineEnd? ('\x0d' :: rest))
    | cs => do
      let (p, rest) ← readEntry p cs
      readLines limit p rest

/-! ## Dates -/

mutual

/-- A tree with its dates as texts and its tables in order: a table whose first key is that of a
date is that date, and has to hold the text of one. -/
def settled? : SettingTree → Option SettingTree
  | .table entries => settledTable? entries
  | .list items => do return .list (← settledItems? items)
  | .blank => some .blank
  | .flag b => some (.flag b)
  | .whole n => some (.whole n)
  | .real d => some (.real d)
  | .text s => some (.text s)

def settledTable? : List (String × SettingTree) → Option SettingTree
  | [] => some .emptyTable
  | (name, v) :: rest =>
    if name = dateKey then
      match v with
      | .text s => (moment? s).map SettingTree.text
      | _ => none
    else do
      let v ← settled? v
      return .table (Entries.ofList ((name, v) :: (← settledEntries? rest)))

/-- What the entries of a table say. -/
def settledEntries? : List (String × SettingTree) → Option (List (String × SettingTree))
  | [] => some []
  | (name, v) :: rest => do
    let v ← settled? v
    return (name, v) :: (← settledEntries? rest)

/-- What the items of a list say. -/
def settledItems? : List SettingTree → Option (List SettingTree)
  | [] => some []
  | v :: rest => do
    let v ← settled? v
    return v :: (← settledItems? rest)

end

/-- A text without a byte order mark at its start. -/
def unmarked : List Char → List Char
  | '\uFEFF' :: rest => rest
  | cs => cs

/-- What a text says as a document; one byte order mark may stand before it. -/
def read (text : String) : Option SettingTree :=
  let cs := unmarked text.toList
  (readLines (cs.length + 1) ⟨[], []⟩ cs).bind fun entries => settledTable? (trees entries)

end Treecast.Toml
