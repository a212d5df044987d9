import Treecast.Json.Reader

/-!
# Texts and keys in TOML

Quoted texts in their four forms, comments, line ends and dotted keys.  Every reader takes the
characters that are left and returns what it read with the characters after it.
-/

set_option autoImplicit false

namespace Treecast.Toml

/-- Whether a character is a blank within a line. -/
def isBlank (c : Char) : Bool := c = ' ' || c = '\t'

/-- The characters after the blanks at the start. -/
def skipBlanks (cs : List Char) : List Char := cs.dropWhile isBlank

/-- Whether a character may stand in a comment: a tab, or anything that is no control
character. -/
def isPlain (c : Char) : Bool := c = '\t' || (c.toNat ≥ 0x20 && c.toNat ≠ 0x7F)

/-- Reads the end of a line, or of the whole text. -/
def lineEnd? : List Char → Option (List Char)
  | [] => some []
  | '\n' :: rest => some rest
  | '\x0d' :: '\n' :: rest => some rest
  | _ => none

/-- The characters after a comment, if there is one. -/
def skipComment : List Char → List Char
  | '#' :: rest => rest.dropWhile isPlain
  | cs => cs

/-- Reads what may follow a line's content: blanks, a comment and the end of the line. -/
def restOfLine? (cs : List Char) : Option (List Char) := lineEnd? (skipComment (skipBlanks cs))

/-- Drops blanks, line ends and comments, at most so many. -/
def skipGaps : (steps : Nat) → List Char → List Char
  | 0, cs => cs
  | steps + 1, cs =>
    match skipComment (skipBlanks cs) with
    | '\n' :: rest => skipGaps steps rest
    | '\x0d' :: '\n' :: rest => skipGaps steps rest
    | rest => rest

/-! ## Escapes -/

/-- The number of hexadecimal digits. -/
def hexNumber? (cs : List Char) : Option Nat :=
  cs.foldlM (fun n c => (Json.hexDigit? c).map fun d => n * 16 + d) 0

/-- The character of a code point. -/
def charOf? (n : Nat) : Option Char :=
  if n < 0xD800 ∨ (0xE000 ≤ n ∧ n ≤ 0x10FFFF) then some (Char.ofNat n) else none

/-- Reads a code point of so many digits. -/
def readCode (width : Nat) (cs : List Char) : Option (Char × List Char) :=
  if cs.length < width then none
  else ((hexNumber? (cs.take width)).bind charOf?).map fun c => (c, cs.drop width)

/-- Reads an escape after its backslash. -/
def readEscape : List Char → Option (Char × List Char)
  | 'b' :: rest => some ('\x08', rest)
  | 't' :: rest => some ('\t', rest)
  | 'n' :: rest => some ('\n', rest)
  | 'f' :: rest => some ('\x0c', rest)
  | 'r' :: rest => some ('\x0d', rest)
  | '"' :: rest => some ('"', rest)
  | '\\' :: rest => some ('\\', rest)
  | 'u' :: rest => readCode 4 rest
  | 'U' :: rest => readCode 8 rest
  | _ => none

/-! ## Quoted texts -/

/-- Reads a text up to its closing quote, with escapes, in at most so many steps. -/
def readBasic : (steps : Nat) → (done : List Char) → List Char → Option (String × List Char)
  | 0, _, _ => none
  | steps + 1, done, cs =>
    match cs with
    | [] => none
    | '"' :: rest => some (String.ofList done.reverse, rest)
    | '\\' :: rest => do
      let (c, rest) ← readEscape rest
      readBasic steps (c :: done) rest
    | c :: rest => if isPlain c then readBasic steps (c :: done) rest else none

/-- Reads a text up to its closing quote, without escapes. -/
def readLiteral (cs : List Char) : Option (String × List Char) :=
  let body := cs.takeWhile fun c => c ≠ '\'' && isPlain c
  match cs.drop body.length with
  | '\'' :: rest => some (String.ofList body, rest)
  | _ => none

/-- The characters after the blanks and line ends at the start. -/
def dropLines : List Char → List Char
  | '\n' :: rest => dropLines rest
  | '\x0d' :: '\n' :: rest => dropLines rest
  | c :: rest => if isBlank c then dropLines rest else c :: rest
  | [] => []

/-- A backslash at the end of a line: the characters after it, its line end and the blanks and
line ends that follow. -/
def joined? (cs : List Char) : Option (List Char) :=
  match skipBlanks cs with
  | '\n' :: rest => some (dropLines rest)
  | '\x0d' :: '\n' :: rest => some (dropLines rest)
  | _ => none

/-- Reads a text of several lines up to its three closing quotes; up to two more quotes before
them belong to the text. -/
def readLong (quote : Char) (escapes : Bool) :
    (steps : Nat) → (done : List Char) → List Char → Option (String × List Char)
  | 0, _, _ => none
  | steps + 1, done, cs =>
    match cs with
    | [] => none
    | '\x0d' :: '\n' :: rest => readLong quote escapes steps ('\n' :: done) rest
    | '\n' :: rest => readLong quote escapes steps ('\n' :: done) rest
    | c :: rest =>
      if c = quote then
        let run := min 5 (cs.takeWhile (· = quote)).length
        if run ≥ 3 then
          some (String.ofList (done.reverse ++ List.replicate (run - 3) quote), cs.drop run)
        else readLong quote escapes steps (c :: done) rest
      else if escapes && c = '\\' then
        match joined? rest with
        | some rest => readLong quote escapes steps done rest
        | none => do
          let (c, rest) ← readEscape rest
          readLong quote escapes steps (c :: done) rest
      else if isPlain c then readLong quote escapes steps (c :: done) rest
      else none

/-- The characters after a line end at the start. -/
def dropFirstLineEnd : List Char → List Char
  | '\n' :: rest => rest
  | '\x0d' :: '\n' :: rest => rest
  | cs => cs

/-- Reads a quoted text of any form. -/
def readQuoted : List Char → Option (String × List Char)
  | '"' :: '"' :: '"' :: rest => readLong '"' true (rest.length + 1) [] (dropFirstLineEnd rest)
  | '"' :: rest => readBasic (rest.length + 1) [] rest
  | '\'' :: '\'' :: '\'' :: rest =>
    readLong '\'' false (rest.length + 1) [] (dropFirstLineEnd rest)
  | '\'' :: rest => readLiteral rest
  | _ => none

/-! ## Keys -/

/-- Whether a character may stand in a key without quotes. -/
def isKeyChar (c : Char) : Bool := c.isAlphanum || c = '_' || c = '-'

def readKeyPart (cs : List Char) : Option (String × List Char) :=
  match cs with
  | '"' :: rest => readBasic (rest.length + 1) [] rest
  | '\'' :: rest => readLiteral rest
  | _ =>
    match cs.takeWhile isKeyChar with
    | [] => none
    | name => some (String.ofList name, cs.dropWhile isKeyChar)

/-- Reads a key of at most so many parts, joined by dots, with the blanks around it. -/
def readKey : (parts : Nat) → List Char → Option (List String × List Char)
  | 0, _ => none
  | parts + 1, cs => do
    let (name, cs) ← readKeyPart (skipBlanks cs)
    match skipBlanks cs with
    | '.' :: rest => do
      let (names, cs) ← readKey parts rest
      return (name :: names, cs)
    | cs => return ([name], cs)

/-- The most parts of a key. -/
def maxKeyParts : Nat := 79

end Treecast.Toml
