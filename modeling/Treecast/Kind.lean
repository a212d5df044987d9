import Treecast.Path

/-!
# Kinds of trees and feeds

A *tree* is the part of the store at `/<kind>/<application>`.  A *feed* is what a client
subscribes to: one feed per tree kind, and `service_info`, which shows the descriptive fields of
a service tree's clusters instead of their keys.
-/

set_option autoImplicit false

namespace Treecast

/-- The kinds of trees. -/
inductive TreeKind where
  | service
  | switch
  | config
  deriving DecidableEq, Repr

namespace TreeKind

/-- The kinds in their order. -/
def all : List TreeKind := [.service, .switch, .config]

/-- The first segment of the kind's paths. -/
def name : TreeKind → String
  | .service => "service"
  | .switch => "switch"
  | .config => "config"

def ofName? (text : String) : Option TreeKind := all.find? (·.name = text)

/-- Whether cluster names of the kind go through routing. -/
def carriesRouting (kind : TreeKind) : Bool := kind = .service

/-- The kind's place in the order. -/
def rank : TreeKind → Nat
  | .service => 0
  | .switch => 1
  | .config => 2

instance : Ord TreeKind := ⟨compareOn rank⟩

instance : Std.TransOrd TreeKind := inferInstanceAs (Std.TransCmp (compareOn rank))

instance : Std.LawfulEqOrd TreeKind where
  eq_of_compare {x y} h := by
    have : x.rank = y.rank := Std.LawfulEqOrd.eq_of_compare h
    revert this
    cases x <;> cases y <;> decide

end TreeKind

/-- The kinds of feeds. -/
inductive FeedKind where
  | service
  | switch
  | config
  | serviceInfo
  deriving DecidableEq, Repr

namespace FeedKind

/-- The kinds in their order. -/
def all : List FeedKind := [.service, .switch, .config, .serviceInfo]

/-- The name of the kind in requests and messages. -/
def name : FeedKind → String
  | .service => "service"
  | .switch => "switch"
  | .config => "config"
  | .serviceInfo => "service_info"

def ofName? (text : String) : Option FeedKind := all.find? (·.name = text)

/-- The tree that the feed shows. -/
def tree : FeedKind → TreeKind
  | .service | .serviceInfo => .service
  | .switch => .switch
  | .config => .config

/-- The feed of a tree's keys. -/
def ofTree : TreeKind → FeedKind
  | .service => .service
  | .switch => .switch
  | .config => .config

/-- The kind's place in the order. -/
def rank : FeedKind → Nat
  | .service => 0
  | .switch => 1
  | .config => 2
  | .serviceInfo => 3

instance : Ord FeedKind := ⟨compareOn rank⟩

instance : Std.TransOrd FeedKind := inferInstanceAs (Std.TransCmp (compareOn rank))

instance : Std.LawfulEqOrd FeedKind where
  eq_of_compare {x y} h := by
    have : x.rank = y.rank := Std.LawfulEqOrd.eq_of_compare h
    revert this
    cases x <;> cases y <;> decide

end FeedKind

/-- The identity of a tree; trees are ordered by application, then kind. -/
structure TreeKey where
  application : String
  kind : TreeKind
  deriving DecidableEq, Repr

namespace TreeKey

/-- The store path of the tree's topmost node. -/
def root (key : TreeKey) : String := Path.join [key.kind.name, key.application]

/-- The key as shown in messages. -/
def display (key : TreeKey) : String := key.application ++ "/" ++ key.kind.name

instance : Ord TreeKey := ⟨compareLex (compareOn application) (compareOn kind)⟩

instance : Std.TransOrd TreeKey :=
  inferInstanceAs (Std.TransCmp (compareLex (compareOn application) (compareOn kind)))

instance : Std.LawfulEqOrd TreeKey where
  eq_of_compare {x y} h := by
    have h' := Ordering.then_eq_eq.1 h
    have ha := Std.LawfulEqOrd.eq_of_compare
      (show compare x.application y.application = .eq from h'.1)
    have hk := Std.LawfulEqOrd.eq_of_compare (show compare x.kind y.kind = .eq from h'.2)
    cases x; cases y; simp_all

end TreeKey

/-- The identity of a feed; feeds are ordered by kind, then application. -/
structure FeedKey where
  kind : FeedKind
  application : String
  deriving DecidableEq, Repr

namespace FeedKey

/-- The tree that the feed shows. -/
def tree (key : FeedKey) : TreeKey := ⟨key.application, key.kind.tree⟩

instance : Ord FeedKey := ⟨compareLex (compareOn kind) (compareOn application)⟩

instance : Std.TransOrd FeedKey :=
  inferInstanceAs (Std.TransCmp (compareLex (compareOn kind) (compareOn application)))

instance : Std.LawfulEqOrd FeedKey where
  eq_of_compare {x y} h := by
    have h' := Ordering.then_eq_eq.1 h
    have hk := Std.LawfulEqOrd.eq_of_compare (show compare x.kind y.kind = .eq from h'.1)
    have ha := Std.LawfulEqOrd.eq_of_compare
      (show compare x.application y.application = .eq from h'.2)
    cases x; cases y; simp_all

end FeedKey

end Treecast
