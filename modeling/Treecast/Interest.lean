import Treecast.Kind
import Treecast.Sorted

/-!
# The interest index

The index remembers for every tree when interest in it was last shown.  No two entries have the
same instant: a clock that stands still or goes backwards is corrected by one tick.
-/

set_option autoImplicit false

namespace Treecast

/-- The trees by the instant of the last interest in them. -/
structure Interest where
  byTime : SortedMap Nat TreeKey
  byKey : SortedMap TreeKey Nat
  /-- The last instant given out. -/
  last : Option Nat

namespace Interest

/-- The index without entries. -/
def empty : Interest := ⟨SortedMap.empty, SortedMap.empty, none⟩

instance : Inhabited Interest := ⟨empty⟩

/-- The instant that is noted when the clock reads `now`. -/
def instant (i : Interest) (now : Nat) : Nat :=
  match i.last with
  | some last => if now ≤ last then last + 1 else now
  | none => now

def touch (i : Interest) (key : TreeKey) (now : Nat) : Interest :=
  let moment := i.instant now
  let byTime :=
    match i.byKey.find? key with
    | some previous => i.byTime.erase previous
    | none => i.byTime
  ⟨byTime.insert moment key, i.byKey.insert key moment, some moment⟩

def remove (i : Interest) (key : TreeKey) : Interest :=
  match i.byKey.find? key with
  | some moment => { i with byTime := i.byTime.erase moment, byKey := i.byKey.erase key }
  | none => i

/-- Whether the last interest in a tree was noted at that instant. -/
def isLast (i : Interest) (key : TreeKey) (moment : Nat) : Bool := i.byKey.find? key == some moment

/-- Forgets a tree unless interest was noted again after that instant; says whether it did. -/
def removeIfUnchanged (i : Interest) (key : TreeKey) (moment : Nat) : Interest × Bool :=
  if i.isLast key moment then
    ({ i with byTime := i.byTime.erase moment, byKey := i.byKey.erase key }, true)
  else (i, false)

/-- The entries at or before an instant, the oldest first. -/
def olderThan (i : Interest) (cutoff : Nat) : List (Nat × TreeKey) :=
  i.byTime.toList.takeWhile fun e => e.1 ≤ cutoff

/-- The number of trees. -/
def size (i : Interest) : Nat := i.byKey.size

end Interest

end Treecast
