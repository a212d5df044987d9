import Treecast.Proofs.Metadata
import Treecast.Proofs.TextBytes

/-!
# Messages on lines

A stream carries one line for each message.  Whatever is written as JSON has no newline in it:
within strings it is escaped, and nothing else is written with one.  Nor has any character but the
newline itself the byte of a newline among its bytes.  So the newlines in the bytes of a stream are
the ends of its lines, and what stands between them is read back as the messages.

## Results

* `Json.newline_not_mem_valueChars`: a value's text is on one line.
* `Json.newline_mem_bytes_iff`: a newline among the bytes of a text is a newline of the text.
* `Message.ofText?_eq_ofValue?`: reading a message's text is reading its value.
* `Message.ofBytes?_frame`: the text of a message is read back as that message.
* `Message.framing_lossless`: the bytes of a stream are split and read back as its messages.
-/

set_option autoImplicit false

namespace Treecast

open Json (Value)

/-! ## Texts on one line -/

namespace Json

theorem newline_not_mem_escapeChar (c : Char) : '\n' ∉ escapeChar c := by
  unfold escapeChar
  split
  · decide
  split
  · decide
  split
  · decide
  split
  · decide
  split
  · decide
  split
  · decide
  split
  · decide
  rename_i hnewline _ _
  split
  · rename_i hcontrol
    have hhex : ∀ n < 16, hexChar n ≠ '\n' := by decide
    have hhigh := hhex (c.toNat / 16) (by omega)
    have hlow := hhex (c.toNat % 16) (by omega)
    simp [hhigh.symm, hlow.symm]
  · simpa using Ne.symm hnewline

theorem newline_not_mem_stringChars (s : String) : '\n' ∉ stringChars s := by
  have hchars : '\n' ∉ s.toList.flatMap escapeChar := by
    rw [List.mem_flatMap]
    rintro ⟨c, -, hc⟩
    exact newline_not_mem_escapeChar c hc
  simp [stringChars, hchars]

theorem newline_not_mem_toDigits (n : Nat) : '\n' ∉ Nat.toDigits 10 n := by
  intro h
  have hdigit := Nat.isDigit_of_mem_toDigits (by omega) (by omega) h
  exact absurd hdigit (by decide)

theorem newline_not_mem_decimal (n : Nat) (e : Int) :
    '\n' ∉ (Double.jsonLayout.decimal n e).toList := by
  have hdigits := newline_not_mem_toDigits n
  have htake : ∀ k, '\n' ∉ (Nat.toDigits 10 n).take k := fun k h => hdigits (List.mem_of_mem_take h)
  have hdrop : ∀ k, '\n' ∉ (Nat.toDigits 10 n).drop k := fun k h => hdigits (List.mem_of_mem_drop h)
  have hzeros : ∀ k, '\n' ∉ List.replicate k '0' := fun k h =>
    absurd (List.eq_of_mem_replicate h) (by decide)
  unfold Double.Layout.decimal
  dsimp only
  split
  · simp [hdigits, hzeros]
  split
  · simp [htake, hdrop]
  split
  · simp [hdigits, hzeros]
  · have hfraction : '\n' ∉ if ((Nat.toDigits 10 n).drop 1).isEmpty then []
        else '.' :: (Nat.toDigits 10 n).drop 1 := by
      split
      · exact List.not_mem_nil
      · exact List.not_mem_cons_of_ne_of_not_mem (by decide) (hdrop 1)
    have hsign : ∀ exponent : Int,
        '\n' ∉ (if exponent < 0 then "-" else Double.jsonLayout.plus).toList := by
      intro exponent
      split <;> decide
    have hexponent : ∀ k : Nat, '\n' ∉ (toString k).toList := by
      intro k
      simpa using newline_not_mem_toDigits k
    simp only [String.toList_append, String.toList_ofList, List.mem_append, not_or]
    exact ⟨⟨⟨⟨htake 1, hfraction⟩, by decide⟩, hsign _⟩, hexponent _⟩

theorem newline_not_mem_numberChars (n : Number) : '\n' ∉ numberChars n := by
  cases n with
  | whole n =>
    have hdigits := newline_not_mem_toDigits n.natAbs
    rw [numberChars]
    split
    · simpa using hdigits
    · exact hdigits
  | real d =>
    have hbody : '\n' ∉ (if d.magnitude.1 = 0 then "0.0"
        else Double.jsonLayout.decimal d.shortest.1 d.shortest.2).toList := by
      split
      · decide
      · exact newline_not_mem_decimal _ _
    rw [numberChars, Double.render]
    dsimp only
    split
    · simpa using hbody
    · exact hbody

mutual

/-- **The text of a value** has no newline. -/
theorem newline_not_mem_valueChars (v : Value) : '\n' ∉ valueChars v := by
  match v with
  | .null | .bool true | .bool false => decide
  | .number n => exact newline_not_mem_numberChars n
  | .string s => exact newline_not_mem_stringChars s
  | .array items =>
    have hitems := newline_not_mem_itemsChars items
    simpa [valueChars] using hitems
  | .object members =>
    have hmembers := newline_not_mem_membersChars members
    simpa [valueChars] using hmembers

theorem newline_not_mem_itemsChars (items : List Value) : '\n' ∉ itemsChars items := by
  match items with
  | [] => exact List.not_mem_nil
  | [v] => exact newline_not_mem_valueChars v
  | v :: w :: rest =>
    have hhere := newline_not_mem_valueChars v
    have hrest := newline_not_mem_itemsChars (w :: rest)
    simp [itemsChars, hhere, hrest]

theorem newline_not_mem_membersChars (members : List (String × Value)) :
    '\n' ∉ membersChars members := by
  match members with
  | [] => exact List.not_mem_nil
  | [(k, v)] =>
    have hkey := newline_not_mem_stringChars k
    have hhere := newline_not_mem_valueChars v
    simp [membersChars, hkey, hhere]
  | (k, v) :: m :: rest =>
    have hkey := newline_not_mem_stringChars k
    have hhere := newline_not_mem_valueChars v
    have hrest := newline_not_mem_membersChars (m :: rest)
    simp [membersChars, hkey, hhere, hrest]

end

/-! ## Bytes -/

/-- The byte of a newline. -/
def newline : UInt8 := 10

/-- Of all characters only the newline has its byte. -/
theorem newline_mem_utf8EncodeChar_iff {c : Char} :
    newline ∈ String.utf8EncodeChar c ↔ c = '\n' := by
  have hbyte : ∀ n : Nat, newline = UInt8.ofNat n ↔ n % 256 = 10 := by
    intro n
    rw [← UInt8.toNat_inj, UInt8.toNat_ofNat', eq_comm]
    rfl
  have hchar : c = '\n' ↔ c.val.toNat = 10 := by
    rw [Char.ext_iff, ← UInt32.toNat_inj]
    rfl
  rw [hchar, String.utf8EncodeChar]
  simp only [apply_ite (newline ∈ ·), List.mem_cons, List.not_mem_nil, hbyte, or_false]
  -- of several bytes none is below 128
  split
  · omega
  split
  · omega
  split
  · omega
  · omega

/-- **A newline among the bytes** of a text is a newline of the text. -/
theorem newline_mem_bytes_iff {cs : List Char} :
    newline ∈ bytesOfText (String.ofList cs) ↔ '\n' ∈ cs := by
  rw [bytesOfText_ofList, List.mem_flatMap]
  constructor
  · rintro ⟨c, hc, hbyte⟩
    exact newline_mem_utf8EncodeChar_iff.1 hbyte ▸ hc
  · intro h
    exact ⟨'\n', h, newline_mem_utf8EncodeChar_iff.2 rfl⟩

end Json

/-! ## Reading a message -/

namespace Message

/-- The kind and the body in a value that was read: an object with both fields, each given once, or
the two in an array. -/
def parts? : Value → Option (Value × Value)
  | .array [kind, body] => some (kind, body)
  | .object members =>
    match Routing.fieldValues "message" members, Routing.fieldValues "body" members with
    | [kind], [body] => some (kind, body)
    | _, _ => none
  | _ => none

def ofText? (text : String) : Option Message := do
  let (kind, body) ← parts? (← Json.readSource text)
  let name ← kind.variant?
  return ⟨← MessageKind.ofName? name, body.inOrder⟩

/-- Of members in order at most one is a field's. -/
theorem fieldValues_of_sorted {name : String} {members : Entries String Value}
    (h : members.Sorted) :
    Routing.fieldValues name members = (Entries.find? name members).toList := by
  induction members with
  | nil => rfl
  | cons head rest ih =>
    obtain ⟨key, v⟩ := head
    have hrest := ih (List.pairwise_cons.1 h).2
    show ([(key, v)] ++ rest).filterMap _ = _
    rw [List.filterMap_append]
    by_cases hkey : key = name
    · subst hkey
      have hlater : Entries.find? key rest = none :=
        Entries.find?_eq_none_of_forall_ne fun e he => Entries.ne_of_mem_tail h he
      rw [hlater] at hrest
      rw [Entries.find?_cons_self]
      show _ ++ Routing.fieldValues key rest = _
      rw [hrest]
      simp
    · rw [Entries.find?_cons_of_ne (Ne.symm hkey), ← hrest]
      simp [hkey, Routing.fieldValues]

/-- **A text of a value in order** is read as the value is. -/
theorem ofText?_eq_ofValue? {text : String} {v : Value} (hread : Json.readSource text = some v)
    (hv : v.inOrder = v) : ofText? text = ofValue? v := by
  simp only [ofText?, hread, Option.bind_eq_bind, Option.bind_some]
  match v with
  | .null | .bool _ | .number _ | .string _ => rfl
  | .array [] | .array [_] | .array (_ :: _ :: _ :: _) => rfl
  | .array [kind, body] =>
    have hbody : body.inOrder = body := by
      simp only [Value.inOrder, Value.itemsInOrder, Value.array.injEq, List.cons.injEq] at hv
      exact hv.2.1
    simp [parts?, ofValue?, hbody]
  | .object members =>
    obtain ⟨hsorted, hvalues⟩ := Value.members_of_inOrder hv
    simp only [parts?, ofValue?, fieldValues_of_sorted hsorted]
    cases hkind : Entries.find? "message" members with
    | none => rfl
    | some kind =>
      cases hbody : Entries.find? "body" members with
      | none => rfl
      | some body => simp [hvalues _ (Entries.mem_of_find? hbody)]

/-- The message in bytes. -/
def ofBytes? (bytes : List UInt8) : Option Message := (Json.textOfBytes? bytes).bind ofText?

def lineBytes (m : Message) : List UInt8 := Json.bytesOfText m.line

/-- A message with its kind first, as a line carries it. -/
def written (m : Message) : Value := .object [("message", .string m.kind.name), ("body", m.body)]

/-- What stands on the line before the newline. -/
def frame (m : Message) : List UInt8 := Json.bytesOfText m.written.render

theorem lineChars_eq (m : Message) : m.lineChars = Json.valueChars m.written ++ ['\n'] := by
  have hmessage : "\x7b\"message\":".toList = '\x7b' :: Json.stringChars "message" ++ [':'] :=
    rfl
  have hbody : ",\"body\":".toList = ',' :: Json.stringChars "body" ++ [':'] := rfl
  unfold lineChars
  generalize "\x7b\"message\":".toList = first at hmessage ⊢
  generalize ",\"body\":".toList = second at hbody ⊢
  simp [hmessage, hbody, written, Json.valueChars, Json.membersChars]

/-- **A line** is the text of the message and a newline. -/
theorem lineBytes_eq (m : Message) : m.lineBytes = m.frame ++ [Json.newline] := by
  rw [lineBytes, line, lineChars_eq, frame, Value.render, Json.bytesOfText_ofList,
    Json.bytesOfText_ofList, List.flatMap_append]
  rfl

theorem newline_not_mem_frame (m : Message) : Json.newline ∉ m.frame := by
  rw [frame, Value.render, Json.newline_mem_bytes_iff]
  exact Json.newline_not_mem_valueChars m.written

/-- What a message must be like to be read back: its objects are in order, its numbers are integers
of 64 bits, and it is nested no deeper than is read. -/
structure Plain (m : Message) : Prop where
  ordered : m.body.inOrder = m.body
  meets : m.toValue.Meets Json.Number.Kept Json.maxDepth

theorem ofName?_name (kind : MessageKind) : MessageKind.ofName? kind.name = some kind := by
  cases kind <;> decide

/-- **The text of a message** is read back as that message. -/
theorem ofBytes?_frame {m : Message} (hm : m.Plain) : ofBytes? m.frame = some m := by
  have hwritten : m.written.Meets Json.Number.Kept Json.maxDepth :=
    ⟨by decide, trivial, hm.meets.2.1, trivial⟩
  have hparts : parts? m.written = some (.string m.kind.name, m.body) := rfl
  rw [ofBytes?, frame, Json.textOfBytes?_bytesOfText, Option.bind_some, ofText?,
    Json.readSource_render hwritten]
  simp [hparts, Value.variant?, ofName?_name, hm.ordered]

/-! ## Streams -/

/-- The bytes of a stream, split at newlines. -/
theorem splitOn_lines (messages : List Message) :
    (messages.flatMap lineBytes).splitOn Json.newline = messages.map frame ++ [[]] := by
  induction messages with
  | nil => rfl
  | cons m rest ih =>
    rw [List.flatMap_cons, lineBytes_eq, List.append_assoc, List.singleton_append,
      List.splitOn_append_cons_self_of_not_mem (newline_not_mem_frame m), ih]
    rfl

/-- **Framing is lossless.**  The line of any message has exactly one newline among its bytes, and
ends with it.  Lines of messages, one after another, are split at the newlines into pieces of which
each is read back as the message of its line. -/
theorem framing_lossless :
    (∀ m : Message, m.lineBytes.count Json.newline = 1 ∧
      m.lineBytes.getLast? = some Json.newline) ∧
    ∀ messages : List Message, (∀ m ∈ messages, m.Plain) → ∃ frames,
      (messages.flatMap lineBytes).splitOn Json.newline = frames ++ [[]] ∧
        frames.mapM ofBytes? = some messages := by
  refine ⟨fun m => ?_, fun messages hplain => ⟨_, splitOn_lines messages, ?_⟩⟩
  · rw [lineBytes_eq, List.count_append, List.count_eq_zero.2 (newline_not_mem_frame m)]
    exact ⟨rfl, List.getLast?_concat⟩
  · exact Value.mapM_map_eq_some fun m hm => ofBytes?_frame (hplain m hm)

/-- A message with newlines, a quote and a character of four bytes in its keys and values, and a
number in a list. -/
def wildMessage : Message :=
  ⟨.update, .object [("service_info", .object [("a\n", .object
    [("\"\n😀", .array [.number (.whole (-9223372036854775808)), .string "\n\r\x00\n"])])])]⟩

/-- Two messages and a ping between them. -/
theorem framing_lossless_wild :
    ∃ frames, ([wildMessage, ping, wildMessage].flatMap lineBytes).splitOn Json.newline =
      frames ++ [[]] ∧ frames.mapM ofBytes? = some [wildMessage, ping, wildMessage] := by
  have hwild : wildMessage.Plain := by
    refine ⟨by decide +kernel, ?_⟩
    simp [toValue, wildMessage, Value.Meets, Json.MembersMeet, Json.ItemsMeet, Json.Number.Kept,
      Json.Number.Fits, Json.Number.isWhole, Json.maxDepth, Json.maxUnsigned]
  have hping : ping.Plain := by
    refine ⟨rfl, ?_⟩
    simp [toValue, ping, Value.emptyObject, Value.Meets, Json.MembersMeet, Json.maxDepth]
  refine framing_lossless.2 _ fun m hm => ?_
  rcases List.mem_cons.1 hm with rfl | hm
  · exact hwild
  rcases List.mem_cons.1 hm with rfl | hm
  · exact hping
  · rw [List.mem_singleton.1 hm]
    exact hwild

end Message

end Treecast
