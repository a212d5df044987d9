import Treecast.Settings.Decode
import Treecast.Settings.Tree
import Treecast.Json.Reader
import Treecast.Text.Classes

/-!
# Reading settings from trees

Sources of settings often have only texts to offer, so a value of one kind is taken for another
where its meaning is plain: `"on"` for true, `"7"` or `7.2` for the number 7, `7` for the text
`"7"`.
-/

set_option autoImplicit false

namespace Treecast

open Routing

namespace SettingTree

/-- What a text says as a truth value. -/
def flagWord? (text : String) : Option Bool :=
  let word := Text.asciiLower text
  if ["true", "on", "yes"].contains word then some true
  else if ["false", "off", "no"].contains word then some false
  else none

/-- The number that digits stand for, if there are any and nothing else. -/
def digits? (cs : List Char) : Option Nat :=
  if cs.isEmpty || !cs.all Char.isDigit then none
  else some (cs.foldl (fun n c => n * 10 + Json.digitValue c) 0)

/-- What a text says as a number of 64 bits: digits, which a plus may precede, or a truth value. -/
def wordText? (text : String) : Option Nat :=
  match flagWord? text with
  | some b => some b.toNat
  | none =>
    let cs := match text.toList with
      | '+' :: rest => rest
      | cs => cs
    (digits? cs).bind fun n => if n < Nat.pow 2 64 then some n else none

/-- A value as a number up to a limit. -/
def nat? (limit : Nat) (v : SettingTree) : Option Nat :=
  let n? := match v with
    | .whole n => if 0 ≤ n then some n.toNat else none
    | .text s => wordText? s
    | .flag b => some b.toNat
    | .real d => some d.roundedWord
    | .blank | .list _ | .table _ => none
  n?.bind fun n => if n ≤ limit then some n else none

/-- A value as a truth value. -/
def flag? : SettingTree → Option Bool
  | .flag b => some b
  | .whole n => some (n != 0)
  | .real d => some d.isNonzero
  | .text s => if s = "1" then some true else if s = "0" then some false else flagWord? s
  | .blank | .list _ | .table _ => none

def text? : SettingTree → Option String
  | .text s => some s
  | .flag b => some (if b then "true" else "false")
  | .whole n => some (toString n)
  | .real d => some d.plainText
  | .blank | .list _ | .table _ => none

/-- The name of a variant: a text, or the only name in a table. -/
def variant? : SettingTree → Option String
  | .text s => some s
  | .table [(name, _)] => some name
  | _ => none

/-- The hijack mode of a letter or name, the case of letters aside. -/
def modeWord? (text : String) : Option HijackMode :=
  HijackMode.every.find? fun m =>
    Text.lower m.code = Text.lower text || m.name = Text.lower text

def reading : Reading SettingTree where
  nat? := nat?
  flag? := flag?
  text? := text?
  items?
    | .list items => some items
    | _ => none
  members?
    | .table entries => some entries
    | _ => none
  mode? v := v.variant?.bind modeWord?
  extraItems := true

def settings? (v : SettingTree) : Option Settings := reading.settings? v

end SettingTree

end Treecast
