import Treecast.Sorted
import Treecast.Decimal.Double

/-!
# JSON values

A value keeps the members of an object as entries.  In a value that is *in order* the keys of
every object strictly increase; `Value.inOrder` brings any value into that form, where of
repeated keys the last one stays.
-/

set_option autoImplicit false

namespace Treecast.Json

/-- A number: an integer that fits 64 bits, signed or unsigned, or a double. -/
inductive Number where
  | whole (n : Int)
  | real (d : Double)
  deriving DecidableEq, Repr

/-- A JSON value. -/
inductive Value where
  | null
  | bool (b : Bool)
  | number (n : Number)
  | string (s : String)
  | array (items : List Value)
  | object (members : List (String × Value))
  deriving Inhabited

namespace Value

/-- The object without members. -/
def emptyObject : Value := .object []

/-- The number of a natural number. -/
def nat (n : Nat) : Value := .number (.whole n)

def members? : Value → Option (Entries String Value)
  | .object members => some members
  | _ => none

/-- The member of an object under `key`. -/
def get? (key : String) : Value → Option Value
  | .object members => Entries.find? key members
  | _ => none

def strings (xs : List String) : Value := .array (xs.map .string)

/-- The object of these members, in key order; the last one of a repeated key stays. -/
def ofMembers (members : List (String × Value)) : Value := .object (Entries.ofList members)

/-- Whether the value is an object without members. -/
def isEmptyObject : Value → Bool
  | .object members => members.isEmpty
  | _ => false

mutual

/-- The same value with every object in key order. -/
def inOrder : Value → Value
  | .array items => .array (itemsInOrder items)
  | .object members => .object (Entries.ofList (membersInOrder members))
  | .null => .null
  | .bool b => .bool b
  | .number n => .number n
  | .string s => .string s

def itemsInOrder : List Value → List Value
  | [] => []
  | v :: rest => inOrder v :: itemsInOrder rest

/-- Every member's value in order, the members where they were. -/
def membersInOrder : List (String × Value) → List (String × Value)
  | [] => []
  | (k, v) :: rest => (k, inOrder v) :: membersInOrder rest

end

mutual

/-- Whether two values are written alike. -/
def same : Value → Value → Bool
  | .null, .null => true
  | .bool a, .bool b => a == b
  | .number a, .number b => a == b
  | .string a, .string b => a == b
  | .array a, .array b => sameItems a b
  | .object a, .object b => sameMembers a b
  | _, _ => false

/-- Item by item. -/
def sameItems : List Value → List Value → Bool
  | [], [] => true
  | a :: as, b :: bs => same a b && sameItems as bs
  | _, _ => false

/-- Member by member. -/
def sameMembers : List (String × Value) → List (String × Value) → Bool
  | [], [] => true
  | (k, a) :: as, (l, b) :: bs => k == l && same a b && sameMembers as bs
  | _, _ => false

end

mutual

theorem eq_of_same {a b : Value} (h : same a b = true) : a = b := by
  match a, b with
  | .null, .null => rfl
  | .bool a, .bool b => simp_all [same]
  | .number a, .number b => simp_all [same]
  | .string a, .string b => simp_all [same]
  | .array a, .array b => rw [same] at h; rw [eq_of_sameItems h]
  | .object a, .object b => rw [same] at h; rw [eq_of_sameMembers h]

theorem eq_of_sameItems {a b : List Value} (h : sameItems a b = true) : a = b := by
  match a, b with
  | [], [] => rfl
  | x :: xs, y :: ys =>
    simp only [sameItems, Bool.and_eq_true] at h
    rw [eq_of_same h.1, eq_of_sameItems h.2]

theorem eq_of_sameMembers {a b : List (String × Value)} (h : sameMembers a b = true) :
    a = b := by
  match a, b with
  | [], [] => rfl
  | (k, x) :: xs, (l, y) :: ys =>
    simp only [sameMembers, Bool.and_eq_true, beq_iff_eq] at h
    rw [h.1.1, eq_of_same h.1.2, eq_of_sameMembers h.2]

end

mutual

theorem same_self (a : Value) : same a a = true := by
  match a with
  | .null | .bool _ | .number _ | .string _ => simp [same]
  | .array items => rw [same]; exact sameItems_self items
  | .object members => rw [same]; exact sameMembers_self members

theorem sameItems_self (a : List Value) : sameItems a a = true := by
  match a with
  | [] => rfl
  | x :: xs => simp [sameItems, same_self x, sameItems_self xs]

theorem sameMembers_self (a : List (String × Value)) : sameMembers a a = true := by
  match a with
  | [] => rfl
  | (k, x) :: xs => simp [sameMembers, same_self x, sameMembers_self xs]

end

instance : DecidableEq Value := fun a b =>
  if h : same a b = true then isTrue (eq_of_same h)
  else isFalse fun e => h (e ▸ same_self a)

end Value

end Treecast.Json
