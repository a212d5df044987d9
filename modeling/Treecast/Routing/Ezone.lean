/-!
# Ezone prefixes

A cluster named `<ezone>-<rest>` belongs to `<ezone>` if that is a known ezone and the rest is
not empty.  Prefixes may be nested; the outermost one is the cluster's ezone.
-/

set_option autoImplicit false

namespace Treecast.Ezone

/-- The text before the first `-` and the text after it, if there is a `-`. -/
def cut? (name : String) : Option (String × String) :=
  let cs := name.toList
  match cs.dropWhile (· ≠ '-') with
  | _ :: tail => some (String.ofList (cs.takeWhile (· ≠ '-')), String.ofList tail)
  | [] => none

/-- The known ezone that prefixes `name`, with the rest of the name. -/
def stripKnown? (ezones : List String) (name : String) : Option (String × String) :=
  match cut? name with
  | some (front, tail) => if tail ≠ "" ∧ front ∈ ezones then some (front, tail) else none
  | none => none

/-- Strips known prefixes, at most `steps` of them, and remembers the first. -/
def splitFrom (ezones : List String) :
    (steps : Nat) → (outer : Option String) → String → Option String × String
  | 0, outer, name => (outer, name)
  | steps + 1, outer, name =>
    match stripKnown? ezones name with
    | some (ezone, tail) => splitFrom ezones steps (outer.or (some ezone)) tail
    | none => (outer, name)

/-- The outermost ezone of a cluster name and the name without any known prefix. -/
def split (ezones : List String) (name : String) : Option String × String :=
  splitFrom ezones name.length none name

/-- The known prefixes, outermost first, at most `steps` of them. -/
def chainFrom (ezones : List String) : (steps : Nat) → String → List String
  | 0, _ => []
  | steps + 1, name =>
    match stripKnown? ezones name with
    | some (ezone, tail) => ezone :: chainFrom ezones steps tail
    | none => []

/-- The known prefixes of a cluster name, outermost first. -/
def chain (ezones : List String) (name : String) : List String :=
  chainFrom ezones name.length name

/-- The name of `name` in an ezone. -/
def prefixed (ezone name : String) : String := ezone ++ "-" ++ name

end Treecast.Ezone
