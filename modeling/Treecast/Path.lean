/-!
# Store paths and names

An absolute path is `/` or a chain of segments, each after its own slash.  All functions on paths
read them as lists of characters.

Applications, clusters and keys are named by short ASCII words, so that a name is always one segment
of a path.
-/

set_option autoImplicit false

namespace Treecast

/-! ## Names -/

/-- What a refused name was meant to name. -/
inductive NameRole where
  | application
  | cluster
  deriving DecidableEq, Repr

def NameRole.word : NameRole → String
  | .application => "application"
  | .cluster => "cluster"

/-- The characters of names: ASCII letters and digits, `-`, `_`, `.` and `@`. -/
def isNameChar (c : Char) : Bool :=
  c.isAlphanum || c = '-' || c = '_' || c = '.' || c = '@'

/-- Whether `name` is made of 1 to 128 name characters and is neither `.` nor `..`. -/
def isValidName (name : String) : Bool :=
  let cs := name.toList
  !cs.isEmpty && cs.length ≤ 128 && cs != ['.'] && cs != ['.', '.'] && cs.all isNameChar

/-! ## Paths -/

namespace Path

/-- The path of the node above all others. -/
def top : String := "/"

/-- A segment without the slashes at its ends. -/
def bare (segment : List Char) : List Char :=
  ((segment.dropWhile (· = '/')).reverse.dropWhile (· = '/')).reverse

/-- The path of the given segments. -/
def join (segments : List String) : String :=
  String.ofList (segments.flatMap fun s => '/' :: bare s.toList)

/-- Whether two slashes stand side by side. -/
def hasEmptySegment : List Char → Bool
  | '/' :: '/' :: _ => true
  | _ :: rest => hasEmptySegment rest
  | [] => false

/-- Whether `path` starts with a slash, has no empty segment and does not end with a slash,
unless it is `/` itself. -/
def isWellFormed (path : String) : Bool :=
  let cs := path.toList
  cs.head? = some '/' && (cs.length ≤ 1 || cs.getLast? ≠ some '/') && !hasEmptySegment cs

/-- The path without its last segment; `none` for `/`. -/
def parent? (path : String) : Option String :=
  if path = top ∨ path = "" then none
  else
    match path.toList.reverse.dropWhile (· ≠ '/') with
    | [] => none
    | [_] => some top
    | _ :: above => some (String.ofList above.reverse)

/-- Whether `path` is `root` or lies below it. -/
def isUnder (path root : String) : Bool :=
  root = top || path = root || (root.toList ++ ['/']).isPrefixOf path.toList

/-- What follows `front` in `cs`, if `cs` starts with it. -/
def after? : (front cs : List Char) → Option (List Char)
  | [], cs => some cs
  | _ :: _, [] => none
  | f :: front, c :: cs => if f = c then after? front cs else none

/-- The segment that leads from `path` to `child`, if `child` is one segment longer. -/
def childName? (path child : String) : Option String :=
  let front := if path = top then ['/'] else path.toList ++ ['/']
  match after? front child.toList with
  | some name => if name.isEmpty || name.contains '/' then none else some (String.ofList name)
  | none => none

/-- The number of slashes. -/
def depth (path : String) : Nat := path.toList.count '/'

end Path

end Treecast
