import Mathlib.Data.List.Basic
import Mathlib.Tactic.SplitIfs
import Treecast.Json.Reader

/-!
# Texts and their bytes

The bytes of a text are those of its characters, one character after the other, and a text is read
back from its bytes.  Of two characters the greater one has the greater bytes, so that texts are
ordered as their bytes are.

## Results

* `Json.textOfBytes?_eq_some_iff`: which bytes are read as a text.
* `Json.octets_lt_iff`: the order of texts is that of their bytes.
-/

set_option autoImplicit false

namespace Treecast.Json

def bytesOfText (text : String) : List UInt8 := text.toUTF8.data.toList

theorem bytesOfText_ofList (cs : List Char) :
    bytesOfText (String.ofList cs) = cs.flatMap String.utf8EncodeChar := by
  rw [bytesOfText, String.toUTF8_eq_toByteArray, String.toByteArray_ofList, List.utf8Encode,
    List.toList_data_toByteArray]

/-- Bytes of a text are read back as the text. -/
theorem textOfBytes?_bytesOfText (text : String) : textOfBytes? (bytesOfText text) = some text := by
  have hbytes : (⟨(bytesOfText text).toArray⟩ : ByteArray) = text.toByteArray := by
    rw [bytesOfText, Array.toArray_toList]
    rfl
  rw [textOfBytes?, hbytes, String.fromUTF8?, dif_pos text.isValidUTF8]
  rfl

/-- Bytes are read as a text if they are the text's. -/
theorem textOfBytes?_eq_some_iff {bytes : List UInt8} {text : String} :
    textOfBytes? bytes = some text ↔ bytes = bytesOfText text := by
  constructor
  · intro h
    rw [textOfBytes?, String.fromUTF8?] at h
    split at h
    · cases h
      simp [bytesOfText, String.fromUTF8]
    · cases h
  · rintro rfl
    exact textOfBytes?_bytesOfText text

/-- The numbers of a text's bytes. -/
def octets (text : String) : List Nat := (bytesOfText text).map UInt8.toNat

theorem octets_eq (text : String) :
    octets text = text.toList.flatMap fun c => (String.utf8EncodeChar c).map UInt8.toNat := by
  rw [octets, ← String.ofList_toList (s := text), bytesOfText_ofList, List.map_flatMap,
    String.toList_ofList]

theorem octets_inj {text other : String} (h : octets text = octets other) : text = other := by
  have hbytes : bytesOfText text = bytesOfText other :=
    List.map_injective_iff.2 (fun _ _ => UInt8.toNat_inj.1) h
  have htext := textOfBytes?_bytesOfText text
  rw [hbytes, textOfBytes?_bytesOfText] at htext
  exact (Option.some.inj htext).symm

/-- The numbers of a character's bytes. -/
theorem map_utf8EncodeChar (c : Char) :
    (String.utf8EncodeChar c).map UInt8.toNat =
      if c.toNat ≤ 0x7f then [c.toNat]
      else if c.toNat ≤ 0x7ff then [0xc0 + c.toNat / 0x40, 0x80 + c.toNat % 0x40]
      else if c.toNat ≤ 0xffff then
        [0xe0 + c.toNat / 0x1000, 0x80 + c.toNat / 0x40 % 0x40, 0x80 + c.toNat % 0x40]
      else [0xf0 + c.toNat / 0x40000, 0x80 + c.toNat / 0x1000 % 0x40, 0x80 + c.toNat / 0x40 % 0x40,
        0x80 + c.toNat % 0x40] := by
  have hvalid := c.valid
  simp only [UInt32.isValidChar, Nat.isValidChar] at hvalid
  rw [String.utf8EncodeChar, Char.toNat]
  generalize c.val.toNat = n at hvalid ⊢
  simp only [apply_ite (List.map UInt8.toNat), List.map_cons, List.map_nil, UInt8.toNat_ofNat']
  split_ifs <;> simp only [List.cons.injEq, and_true] <;> omega

/-- Of two characters the smaller one has the smaller bytes, whatever comes after them. -/
theorem utf8EncodeChar_lt {c d : Char} (h : c < d) (cs ds : List Nat) :
    (String.utf8EncodeChar c).map UInt8.toNat ++ cs <
      (String.utf8EncodeChar d).map UInt8.toNat ++ ds := by
  have hlt : c.toNat < d.toNat := h
  rw [map_utf8EncodeChar, map_utf8EncodeChar]
  split_ifs <;> simp only [List.cons_append, List.cons_lt_cons_iff] <;> omega

theorem flatMap_utf8EncodeChar_lt {cs ds : List Char} (h : cs < ds) :
    (cs.flatMap fun c => (String.utf8EncodeChar c).map UInt8.toNat) <
      ds.flatMap fun c => (String.utf8EncodeChar c).map UInt8.toNat := by
  induction h with
  | @nil d ds =>
    rw [List.flatMap_nil, List.flatMap_cons, map_utf8EncodeChar]
    split_ifs <;> exact List.nil_lt_cons _ _
  | cons _ ih =>
    rw [List.flatMap_cons, List.flatMap_cons]
    exact List.append_left_lt ih
  | rel h =>
    rw [List.flatMap_cons, List.flatMap_cons]
    exact utf8EncodeChar_lt h _ _

/-- **Texts in order** have their bytes in order. -/
theorem octets_lt_of_compare {text other : String} (h : compare text other = .lt) :
    octets text < octets other := by
  rw [octets_eq, octets_eq]
  exact flatMap_utf8EncodeChar_lt (String.lt_iff.1 (compareOfLessAndEq_eq_lt.1 h))

/-- **The order of texts** is that of their bytes. -/
theorem octets_lt_iff {text other : String} :
    octets text < octets other ↔ compare text other = .lt := by
  constructor
  · intro h
    cases hcompare : compare text other with
    | lt => rfl
    | eq =>
      rw [Std.LawfulEqOrd.eq_of_compare hcompare] at h
      exact absurd h (List.lt_irrefl _)
    | gt =>
      have hother := octets_lt_of_compare (Std.OrientedCmp.lt_of_gt hcompare)
      exact absurd hother (List.lt_asymm h)
  · exact octets_lt_of_compare

end Treecast.Json
