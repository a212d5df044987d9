import Mathlib.Data.List.TakeWhile
import Treecast.Request
import Treecast.Proofs.JsonText

/-!
# Texts of lists and objects of strings

The reader of JSON texts is compared with a grammar of those texts that hold strings, arrays and
objects of what is known: which characters may stand where, with every escape of a string's
characters and every place where blanks are allowed.  A reader and a decoder of values that together
read exactly the texts of one grammar give others that read the texts of its arrays and objects.

## Results

* `Json.readChars_stringText`, `Json.stringText_of_readChars`: the text of a string.
* `Json.reads_string`, `Json.Reads.array`, `Json.Reads.object`: what is read as a string, as an
  array and as an object.
* `Json.Reads.readSource_iff`: what is read of a whole text.
-/

set_option autoImplicit false

namespace Treecast.Json

/-! ## Blanks -/

/-- Nothing but blanks. -/
def Gap (cs : List Char) : Prop := ∀ c ∈ cs, isGap c = true

theorem skipGap_gap {gap : List Char} (hgap : Gap gap) (rest : List Char) :
    skipGap (gap ++ rest) = skipGap rest :=
  List.dropWhile_append_of_pos hgap

theorem skipGap_skipGap (cs : List Char) : skipGap (skipGap cs) = skipGap cs :=
  List.dropWhile_eq_self_iff.2 fun hlen => List.dropWhile_get_zero_not isGap cs hlen

/-- The blanks that are skipped. -/
theorem exists_gap (cs : List Char) : ∃ gap, Gap gap ∧ cs = gap ++ skipGap cs :=
  ⟨cs.takeWhile isGap, fun _ hc => List.mem_takeWhile_imp hc, List.takeWhile_append_dropWhile.symm⟩

theorem skipGap_eq_nil_iff {cs : List Char} : skipGap cs = [] ↔ Gap cs :=
  List.dropWhile_eq_nil_iff

/-! ## Strings -/

/-- A character of a string, as it may be written. -/
inductive Spells : List Char → Char → Prop where
  | plain {c : Char} (hquote : c ≠ '"') (hslash : c ≠ '\\') (hc : ¬ c.toNat < 0x20) : Spells [c] c
  | short {e c : Char} (h : escaped? e = some c) : Spells ['\\', e] c
  | unit {a b c d : Char} {n : Nat} (h : hexUnit? a b c d = some n) (hlead : isLeadUnit n = false)
      (htrail : isTrailUnit n = false) : Spells ['\\', 'u', a, b, c, d] (Char.ofNat n)
  | pair {a b c d e f g h : Char} {lead trail : Nat} (hfirst : hexUnit? a b c d = some lead)
      (hlead : isLeadUnit lead = true) (hsecond : hexUnit? e f g h = some trail)
      (htrail : isTrailUnit trail = true) :
      Spells ['\\', 'u', a, b, c, d, '\\', 'u', e, f, g, h] (pairChar lead trail)

/-- The text between the quotes of a string. -/
inductive StringText : List Char → List Char → Prop where
  | nil : StringText [] []
  | cons {t ts cs : List Char} {c : Char} (h : Spells t c) (hrest : StringText ts cs) :
      StringText (t ++ ts) (c :: cs)

/-- A string with its quotes. -/
def Quoted (t : List Char) (s : String) : Prop :=
  ∃ inner, StringText inner s.toList ∧ t = '"' :: (inner ++ ['"'])

theorem readChars_spells {t : List Char} {c : Char} (h : Spells t c) (done rest : List Char) :
    readChars done (t ++ rest) = readChars (c :: done) rest := by
  cases h with
  | plain hquote hslash hc => exact readChars_plain done rest hquote hslash hc
  | short h =>
    unfold escaped? at h
    split at h <;> cases h <;> rfl
  | unit h hlead htrail =>
    rw [List.cons_append, List.cons_append, List.cons_append, List.cons_append, List.cons_append,
      List.cons_append, List.nil_append, readChars]
    simp only [h, hlead, htrail, Bool.false_eq_true, if_false]
  | pair hfirst hlead hsecond htrail =>
    simp only [List.cons_append, List.nil_append]
    rw [readChars]
    simp only [hfirst, hlead, hsecond, htrail, if_true]

theorem readChars_stringText {t cs : List Char} (h : StringText t cs) (done rest : List Char) :
    readChars done (t ++ '"' :: rest) = some (done.reverse ++ cs, rest) := by
  induction h generalizing done with
  | nil =>
    rw [List.append_nil]
    rfl
  | cons h _ ih =>
    rw [List.append_assoc, readChars_spells h, ih, List.reverse_cons, List.append_assoc]
    rfl

/-- **The text of a string** is all that is read as one. -/
theorem stringText_of_readChars {done cs out rest : List Char}
    (h : readChars done cs = some (out, rest)) :
    ∃ t s, StringText t s ∧ cs = t ++ '"' :: rest ∧ out = done.reverse ++ s := by
  -- a character that was read, before the rest of the string
  have hcons : ∀ {t : List Char} {c : Char} {done more : List Char}, Spells t c →
      (∃ ts s, StringText ts s ∧ more = ts ++ '"' :: rest ∧ out = (c :: done).reverse ++ s) →
      ∃ ts s, StringText ts s ∧ t ++ more = ts ++ '"' :: rest ∧ out = done.reverse ++ s := by
    rintro t c done more hspells ⟨ts, s, htext, rfl, rfl⟩
    refine ⟨t ++ ts, c :: s, .cons hspells htext, (List.append_assoc ..).symm, ?_⟩
    rw [List.reverse_cons, List.append_assoc]
    rfl
  fun_induction readChars done cs with
  | case1 => cases h
  | case2 done more =>
    cases h
    exact ⟨[], [], .nil, rfl, (List.append_nil _).symm⟩
  | case3 => cases h
  | case4 done a b c d lead hfirst hlead e f g h' more trail hsecond htrail ih =>
    exact hcons (.pair hfirst hlead hsecond htrail) (ih h)
  | case5 => cases h
  | case6 => cases h
  | case7 => cases h
  | case8 => cases h
  | case9 done a b c d more n hunit hlead htrail ih =>
    exact hcons (.unit hunit (Bool.eq_false_iff.2 hlead) (Bool.eq_false_iff.2 htrail)) (ih h)
  | case10 done e more _ c hescaped ih => exact hcons (.short hescaped) (ih h)
  | case11 => cases h
  | case12 => cases h
  | case13 done c more hquote _ hslash hc ih =>
    have hne : c ≠ '\\' := by
      rintro rfl
      cases more with
      | nil => cases h
      | cons e more => exact hslash e more rfl rfl
    exact hcons (.plain hquote hne hc) (ih h)

/-! ## Arrays and objects -/

section Texts

variable {α : Type}

/-- Items with commas between them, and blanks wherever they may be; there is at least one. -/
inductive Listed (item : List Char → α → Prop) : List Char → List α → Prop where
  | last {gap t gap' : List Char} {x : α} (hgap : Gap gap) (h : item t x) (hgap' : Gap gap') :
      Listed item (gap ++ (t ++ gap')) [x]
  | more {gap t gap' rest : List Char} {x : α} {xs : List α} (hgap : Gap gap) (h : item t x)
      (hgap' : Gap gap') (hrest : Listed item rest xs) :
      Listed item (gap ++ (t ++ (gap' ++ ',' :: rest))) (x :: xs)

/-- Any number of items between brackets. -/
inductive Enclosed (opening closing : Char) (item : List Char → α → Prop) :
    List Char → List α → Prop where
  | none {gap : List Char} (hgap : Gap gap) :
      Enclosed opening closing item (opening :: (gap ++ [closing])) []
  | some {t : List Char} {xs : List α} (h : Listed item t xs) :
      Enclosed opening closing item (opening :: (t ++ [closing])) xs

/-- A key and a value. -/
inductive MemberText (value : List Char → α → Prop) : List Char → String × α → Prop where
  | mk {key gap gap' t : List Char} {k : String} {x : α} (hkey : Quoted key k) (hgap : Gap gap)
      (hgap' : Gap gap') (h : value t x) :
      MemberText value (key ++ (gap ++ ':' :: (gap' ++ t))) (k, x)

/-- The text of an array. -/
def ArrayText (item : List Char → α → Prop) : List Char → List α → Prop :=
  Enclosed '[' ']' item

/-- The text of an object. -/
def ObjectText (value : List Char → α → Prop) : List Char → List (String × α) → Prop :=
  Enclosed '\x7b' '\x7d' (MemberText value)

end Texts

/-! ## One step of the reader -/

variable {fuel depth : Nat} {cs rest : List Char} {v : Value}

/-- Neither a string nor an array nor an object. -/
def Value.IsScalar : Value → Prop
  | .null | .bool _ | .number _ => True
  | _ => False

/-- **How a value is read.** -/
theorem readValue_cases (h : readValue fuel depth cs = some (v, rest)) :
    ∃ f, fuel = f + 1 ∧
      ((∃ inner s, skipGap cs = '"' :: inner ∧ readChars [] inner = some (s, rest) ∧
          v = .string (String.ofList s)) ∨
        (∃ d more, depth = d + 1 ∧ skipGap cs = '[' :: more ∧
          (skipGap more = ']' :: rest ∧ v = .array [] ∨
            readItems f d [] (skipGap more) = some (v, rest))) ∨
        (∃ d more, depth = d + 1 ∧ skipGap cs = '\x7b' :: more ∧
          (skipGap more = '\x7d' :: rest ∧ v = .object [] ∨
            readMembers f d [] (skipGap more) = some (v, rest))) ∨
        v.IsScalar) := by
  cases fuel with
  | zero => cases h
  | succ f =>
    refine ⟨f, rfl, ?_⟩
    rw [readValue] at h
    split at h
    · cases h
      exact .inr (.inr (.inr trivial))
    · cases h
      exact .inr (.inr (.inr trivial))
    · cases h
      exact .inr (.inr (.inr trivial))
    · rename_i inner hcs
      obtain ⟨⟨s, more⟩, hread, heq⟩ := Option.map_eq_some_iff.1 h
      cases heq
      exact .inl ⟨inner, s, hcs, hread, rfl⟩
    · rename_i more hcs
      split at h
      · cases h
      rename_i d
      refine .inr (.inl ⟨d, more, rfl, hcs, ?_⟩)
      split at h
      · rename_i hmore
        cases h
        exact .inl ⟨hmore, rfl⟩
      · exact .inr h
    · rename_i more hcs
      split at h
      · cases h
      rename_i d
      refine .inr (.inr (.inl ⟨d, more, rfl, hcs, ?_⟩))
      split at h
      · rename_i hmore
        cases h
        exact .inl ⟨hmore, rfl⟩
      · exact .inr h
    · split at h
      · obtain ⟨n, -, heq⟩ := Option.map_eq_some_iff.1 h
        cases heq
        exact .inr (.inr (.inr trivial))
      · cases h

/-- **How an item is read**: then comes another one, or the end. -/
theorem readItems_cases {done : List Value} (h : readItems fuel depth done cs = some (v, rest)) :
    ∃ f w more, fuel = f + 1 ∧ readValue f depth cs = some (w, more) ∧
      ((∃ next, skipGap more = ',' :: next ∧
          readItems f depth (w :: done) next = some (v, rest)) ∨
        (skipGap more = ']' :: rest ∧ v = .array (done.reverse ++ [w]))) := by
  cases fuel with
  | zero => cases h
  | succ f =>
    rw [readItems] at h
    split at h
    · cases h
    rename_i w more hvalue
    refine ⟨f, w, more, rfl, hvalue, ?_⟩
    split at h
    · rename_i next hmore
      exact .inl ⟨next, hmore, h⟩
    · rename_i hmore
      cases h
      exact .inr ⟨hmore, by rw [List.reverse_cons]⟩
    · cases h

/-- **How a member is read**: then comes another one, or the end. -/
theorem readMembers_cases {done : List (String × Value)}
    (h : readMembers fuel depth done cs = some (v, rest)) :
    ∃ f inner key colon value w more, fuel = f + 1 ∧ skipGap cs = '"' :: inner ∧
      readChars [] inner = some (key, colon) ∧ skipGap colon = ':' :: value ∧
      readValue f depth value = some (w, more) ∧
      ((∃ next, skipGap more = ',' :: next ∧
          readMembers f depth ((String.ofList key, w) :: done) next = some (v, rest)) ∨
        (skipGap more = '\x7d' :: rest ∧
          v = .object (done.reverse ++ [(String.ofList key, w)]))) := by
  cases fuel with
  | zero => cases h
  | succ f =>
    rw [readMembers] at h
    split at h
    · rename_i inner hcs
      split at h
      · cases h
      rename_i key colon hkey
      split at h
      · rename_i value hcolon
        split at h
        · cases h
        rename_i w more hvalue
        refine ⟨f, inner, key, colon, value, w, more, rfl, hcs, hkey, hcolon, hvalue, ?_⟩
        split at h
        · rename_i next hmore
          exact .inl ⟨next, hmore, h⟩
        · rename_i hmore
          cases h
          exact .inr ⟨hmore, by rw [List.reverse_cons]⟩
        · cases h
      · cases h
    · cases h

theorem exists_array_of_readItems {done : List Value}
    (h : readItems fuel depth done cs = some (v, rest)) : ∃ items, v = .array items := by
  induction fuel generalizing done cs with
  | zero => cases h
  | succ f ih =>
    obtain ⟨f', w, more, hfuel, -, ⟨next, -, hnext⟩ | ⟨-, rfl⟩⟩ := readItems_cases h
    · cases hfuel
      exact ih hnext
    · exact ⟨_, rfl⟩

theorem exists_object_of_readMembers {done : List (String × Value)}
    (h : readMembers fuel depth done cs = some (v, rest)) : ∃ members, v = .object members := by
  induction fuel generalizing done cs with
  | zero => cases h
  | succ f ih =>
    obtain ⟨f', _, _, _, _, _, _, hfuel, -, -, -, -, ⟨next, -, hnext⟩ | ⟨-, rfl⟩⟩ :=
      readMembers_cases h
    · cases hfuel
      exact ih hnext
    · exact ⟨_, rfl⟩

/-- Blanks before a value do not matter. -/
theorem readValue_skipGap (fuel depth : Nat) (cs : List Char) :
    readValue fuel depth (skipGap cs) = readValue fuel depth cs := by
  cases fuel with
  | zero => rfl
  | succ f => rw [readValue, readValue, skipGap_skipGap]

theorem readItems_skipGap (fuel depth : Nat) (done : List Value) (cs : List Char) :
    readItems fuel depth done (skipGap cs) = readItems fuel depth done cs := by
  cases fuel with
  | zero => rfl
  | succ f => rw [readItems, readItems, readValue_skipGap]

theorem readMembers_skipGap (fuel depth : Nat) (done : List (String × Value)) (cs : List Char) :
    readMembers fuel depth done (skipGap cs) = readMembers fuel depth done cs := by
  cases fuel with
  | zero => rfl
  | succ f => rw [readMembers, readMembers, skipGap_skipGap]

theorem readValue_gap {gap : List Char} (hgap : Gap gap) (fuel depth : Nat) (cs : List Char) :
    readValue fuel depth (gap ++ cs) = readValue fuel depth cs := by
  rw [← readValue_skipGap, skipGap_gap hgap, readValue_skipGap]

theorem skipGap_of_ends {gap : List Char} (hgap : Gap gap) {c : Char} (hc : isGap c = false)
    (rest : List Char) : skipGap (gap ++ c :: rest) = c :: rest := by
  rw [skipGap_gap hgap, skipGap_cons hc]

/-! ## Readers of texts -/

section Reads

variable {α : Type} {text : List Char → α → Prop} {decode : Value → Option α}

/-- A grammar's texts are what is read as values that decode, and they stand for what is decoded. -/
structure Reads (text : List Char → α → Prop) (decode : Value → Option α) (depth : Nat) : Prop where
  opens : ∀ {t x}, text t x → ∃ c more, t = c :: more ∧ isGap c = false ∧ c ≠ ']'
  sound : ∀ {fuel cs v rest x}, readValue fuel depth cs = some (v, rest) → decode v = some x →
    ∃ gap t, Gap gap ∧ text t x ∧ cs = gap ++ (t ++ rest)
  complete : ∀ {fuel t x} (rest : List Char), text t x → t.length < fuel →
    ∃ v, readValue fuel depth (t ++ rest) = some (v, rest) ∧ decode v = some x

/-- **What is read as a string.** -/
theorem reads_string (depth : Nat) : Reads Quoted Value.text? depth where
  opens := by
    rintro t s ⟨inner, -, rfl⟩
    exact ⟨'"', _, rfl, by decide, by decide⟩
  sound := by
    intro fuel cs v rest s hread hdecode
    obtain ⟨f, -, ⟨inner, chars, hcs, hchars, rfl⟩ | ⟨d, more, -, -, h⟩ | ⟨d, more, -, -, h⟩ | h⟩ :=
      readValue_cases hread
    · cases hdecode
      obtain ⟨gap, hgap, heq⟩ := exists_gap cs
      obtain ⟨t, s, htext, rfl, rfl⟩ := stringText_of_readChars hchars
      refine ⟨gap, _, hgap, ⟨t, ?_, rfl⟩, ?_⟩
      · rw [String.toList_ofList]
        exact htext
      · rw [heq, hcs, List.cons_append, List.append_assoc]
        rfl
    · rcases h with ⟨-, rfl⟩ | h
      · cases hdecode
      · obtain ⟨items, rfl⟩ := exists_array_of_readItems h
        cases hdecode
    · rcases h with ⟨-, rfl⟩ | h
      · cases hdecode
      · obtain ⟨members, rfl⟩ := exists_object_of_readMembers h
        cases hdecode
    · cases v <;> first | exact False.elim h | cases hdecode
  complete := by
    rintro fuel _ s rest ⟨inner, htext, rfl⟩ hfuel
    obtain ⟨fuel, rfl⟩ := Nat.exists_eq_succ_of_ne_zero (n := fuel) (by omega)
    refine ⟨.string s, ?_, rfl⟩
    rw [List.cons_append, List.append_assoc, List.singleton_append, readValue_quote,
      readChars_stringText htext]
    simp

/-- A list starts like its first item, after blanks. -/
theorem skipGap_listed {item : List Char → α → Prop} {P : Char → Prop}
    (hopens : ∀ {t x}, item t x → ∃ c more, t = c :: more ∧ isGap c = false ∧ P c)
    {t : List Char} {xs : List α} (h : Listed item t xs) (rest : List Char) :
    ∃ c more, skipGap (t ++ rest) = c :: more ∧ P c := by
  cases h with
  | @last gap t gap' x hgap h _ =>
    obtain ⟨c, more, rfl, hc, hp⟩ := hopens h
    refine ⟨c, more ++ (gap' ++ rest), ?_, hp⟩
    rw [List.append_assoc, List.cons_append, List.cons_append, skipGap_of_ends hgap hc,
      List.append_assoc]
  | @more gap t gap' ts x xs hgap h _ _ =>
    obtain ⟨c, more, rfl, hc, hp⟩ := hopens h
    refine ⟨c, more ++ (gap' ++ ',' :: (ts ++ rest)), ?_, hp⟩
    rw [List.append_assoc, List.cons_append, List.cons_append, skipGap_of_ends hgap hc,
      List.append_assoc, List.append_assoc, List.cons_append]

theorem Reads.items_sound (h : Reads text decode depth) {done items : List Value}
    (hread : readItems fuel depth done cs = some (.array items, rest)) :
    ∃ new, items = done.reverse ++ new ∧ ∀ xs, new.mapM decode = some xs →
      ∃ t, Listed text t xs ∧ cs = t ++ ']' :: rest := by
  induction fuel generalizing done cs with
  | zero => cases hread
  | succ f ih =>
    obtain ⟨f', w, more, hfuel, hvalue, hmore⟩ := readItems_cases hread
    cases hfuel
    obtain ⟨gap', hgap', hrest⟩ := exists_gap more
    rcases hmore with ⟨next, hcomma, hnext⟩ | ⟨hend, heq⟩
    · obtain ⟨new, rfl, hnew⟩ := ih hnext
      refine ⟨w :: new, by rw [List.reverse_cons, List.append_assoc]; rfl, fun xs hxs => ?_⟩
      rw [List.mapM_cons] at hxs
      obtain ⟨x, hx, hxs⟩ := Option.bind_eq_some_iff.1 hxs
      obtain ⟨xs', hxs', heq⟩ := Option.bind_eq_some_iff.1 hxs
      cases heq
      obtain ⟨gap, t, hgap, htext, rfl⟩ := h.sound hvalue hx
      obtain ⟨ts, hlisted, rfl⟩ := hnew xs' hxs'
      refine ⟨_, .more hgap htext hgap' hlisted, ?_⟩
      rw [hrest, hcomma]
      simp only [List.append_assoc, List.cons_append]
    · cases heq
      refine ⟨[w], rfl, fun xs hxs => ?_⟩
      rw [List.mapM_cons] at hxs
      obtain ⟨x, hx, hxs⟩ := Option.bind_eq_some_iff.1 hxs
      cases hxs
      obtain ⟨gap, t, hgap, htext, rfl⟩ := h.sound hvalue hx
      refine ⟨_, .last hgap htext hgap', ?_⟩
      rw [hrest, hend]
      simp only [List.append_assoc]

theorem Reads.items_complete (h : Reads text decode depth) {t : List Char} {xs : List α}
    (ht : Listed text t xs) (hfuel : t.length + 1 < fuel) (done : List Value) (rest : List Char) :
    ∃ new,
      readItems fuel depth done (t ++ ']' :: rest) = some (.array (done.reverse ++ new), rest) ∧
        new.mapM decode = some xs := by
  induction ht generalizing fuel done with
  | @last gap t gap' x hgap htext hgap' =>
    obtain ⟨f, rfl⟩ := Nat.exists_eq_succ_of_ne_zero (n := fuel) (by omega)
    rw [List.length_append, List.length_append] at hfuel
    have hlen : t.length < f := by omega
    obtain ⟨w, hvalue, hx⟩ := h.complete (gap' ++ ']' :: rest) htext hlen
    refine ⟨[w], ?_, ?_⟩
    · rw [List.append_assoc, List.append_assoc, readItems, readValue_gap hgap, hvalue]
      simp only [skipGap_of_ends hgap' (c := ']') (by decide), List.reverse_cons]
    · rw [List.mapM_cons, hx]
      rfl
  | @more gap t gap' ts x xs hgap htext hgap' _ ih =>
    obtain ⟨f, rfl⟩ := Nat.exists_eq_succ_of_ne_zero (n := fuel) (by omega)
    rw [List.length_append, List.length_append, List.length_append, List.length_cons] at hfuel
    have hlen : t.length < f := by omega
    have hmore : ts.length + 1 < f := by omega
    obtain ⟨w, hvalue, hx⟩ := h.complete (gap' ++ ',' :: (ts ++ ']' :: rest)) htext hlen
    obtain ⟨new, hread, hnew⟩ := ih hmore (w :: done)
    refine ⟨w :: new, ?_, ?_⟩
    · rw [List.append_assoc, List.append_assoc, List.append_assoc, List.cons_append, readItems,
        readValue_gap hgap, hvalue]
      simp only [skipGap_of_ends hgap' (c := ',') (by decide), hread, List.reverse_cons,
        List.append_assoc]
      rfl
    · rw [List.mapM_cons, hx, hnew]
      rfl

/-- **What is read as an array.** -/
theorem Reads.array (h : Reads text decode depth) :
    Reads (ArrayText text) (Value.listOf? decode) (depth + 1) where
  opens := by
    rintro t xs (⟨-⟩ | ⟨-⟩)
    · exact ⟨'[', _, rfl, by decide, by decide⟩
    · exact ⟨'[', _, rfl, by decide, by decide⟩
  sound := by
    intro fuel cs v rest xs hread hdecode
    obtain ⟨f, -, ⟨_, _, -, -, rfl⟩ | ⟨d, more, hd, hcs, hitems⟩ | ⟨_, _, -, -, hmembers⟩ | hv⟩ :=
      readValue_cases hread
    · cases hdecode
    · cases hd
      obtain ⟨gap, hgap, heq⟩ := exists_gap cs
      obtain ⟨gap', hgap', hmore⟩ := exists_gap more
      rcases hitems with ⟨hend, rfl⟩ | hitems
      · cases hdecode
        refine ⟨gap, _, hgap, .none hgap', ?_⟩
        rw [heq, hcs, hmore, hend]
        simp only [List.append_assoc, List.cons_append, List.nil_append]
      · obtain ⟨items, rfl⟩ := exists_array_of_readItems hitems
        rw [readItems_skipGap] at hitems
        obtain ⟨new, rfl, hnew⟩ := h.items_sound hitems
        obtain ⟨t, hlisted, rfl⟩ := hnew xs hdecode
        refine ⟨gap, _, hgap, .some hlisted, ?_⟩
        rw [heq, hcs]
        simp only [List.append_assoc, List.cons_append, List.nil_append]
    · rcases hmembers with ⟨-, rfl⟩ | hmembers
      · cases hdecode
      · obtain ⟨members, rfl⟩ := exists_object_of_readMembers hmembers
        cases hdecode
    · cases v <;> first | exact False.elim hv | cases hdecode
  complete := by
    rintro fuel _ xs rest (⟨hgap⟩ | ⟨hlisted⟩) hfuel
    · obtain ⟨f, rfl⟩ := Nat.exists_eq_succ_of_ne_zero (n := fuel) (by omega)
      refine ⟨.array [], ?_, rfl⟩
      rw [List.cons_append, List.append_assoc, List.singleton_append, readValue_bracket,
        skipGap_of_ends hgap (by decide)]
      rfl
    · obtain ⟨f, rfl⟩ := Nat.exists_eq_succ_of_ne_zero (n := fuel) (by omega)
      rw [List.length_cons, List.length_append, List.length_singleton] at hfuel
      obtain ⟨new, hread, hnew⟩ := h.items_complete hlisted (Nat.lt_of_succ_lt_succ hfuel) [] rest
      obtain ⟨c, more, hmore, hc⟩ := skipGap_listed h.opens hlisted (']' :: rest)
      refine ⟨.array new, ?_, hnew⟩
      rw [List.cons_append, List.append_assoc, List.singleton_append, readValue_bracket]
      rw [← readItems_skipGap, hmore] at hread
      rw [hmore]
      split
      · rename_i heq
        exact absurd (List.cons.inj heq).1 hc
      · exact hread

/-- The members of an object whose values all decode, as they are written. -/
def Value.membersOf? (decode : Value → Option α) : Value → Option (List (String × α))
  | .object members => members.mapM fun m => (decode m.2).map fun x => (m.1, x)
  | _ => none

/-- A map holds the last values of the members. -/
theorem Value.mapOf?_eq (decode : Value → Option α) (v : Value) :
    v.mapOf? decode = (v.membersOf? decode).map SortedMap.ofList := by
  cases v <;> rfl

theorem memberText_opens {t : List Char} {m : String × α} (h : MemberText text t m) :
    ∃ c more, t = c :: more ∧ isGap c = false ∧ c ≠ '\x7d' := by
  obtain @⟨key, gap, gap', t, k, x, ⟨inner, -, rfl⟩, -, -, -⟩ := h
  exact ⟨'"', _, rfl, by decide, by decide⟩

theorem Reads.member_sound (h : Reads text decode depth) {inner key colon value more : List Char}
    {w : Value} {x : α} (hcs : skipGap cs = '"' :: inner)
    (hkey : readChars [] inner = some (key, colon)) (hcolon : skipGap colon = ':' :: value)
    (hvalue : readValue fuel depth value = some (w, more)) (hx : decode w = some x) :
    ∃ gap t, Gap gap ∧ MemberText text t (String.ofList key, x) ∧ cs = gap ++ (t ++ more) := by
  obtain ⟨gap, hgap, heq⟩ := exists_gap cs
  obtain ⟨before, hbefore, hrest⟩ := exists_gap colon
  obtain ⟨ts, _, htext, rfl, rfl⟩ := stringText_of_readChars hkey
  obtain ⟨after, t, hafter, ht, rfl⟩ := h.sound hvalue hx
  have hquoted : Quoted ('"' :: (ts ++ ['"'])) (String.ofList key) :=
    ⟨ts, by rw [String.toList_ofList]; exact htext, rfl⟩
  refine ⟨gap, _, hgap, .mk hquoted hbefore hafter ht, ?_⟩
  rw [heq, hcs, hrest, hcolon]
  simp only [List.append_assoc, List.cons_append, List.nil_append]

theorem Reads.members_sound (h : Reads text decode depth) {done members : List (String × Value)}
    (hread : readMembers fuel depth done cs = some (.object members, rest)) :
    ∃ new, members = done.reverse ++ new ∧ ∀ xs, (Value.object new).membersOf? decode = some xs →
      ∃ t, Listed (MemberText text) t xs ∧ cs = t ++ '\x7d' :: rest := by
  induction fuel generalizing done cs with
  | zero => cases hread
  | succ f ih =>
    obtain ⟨f', inner, key, colon, value, w, more, hfuel, hcs, hkey, hcolon, hvalue, hmore⟩ :=
      readMembers_cases hread
    cases hfuel
    obtain ⟨gap', hgap', hrest⟩ := exists_gap more
    rcases hmore with ⟨next, hcomma, hnext⟩ | ⟨hend, heq⟩
    · obtain ⟨new, rfl, hnew⟩ := ih hnext
      refine ⟨(String.ofList key, w) :: new,
        by rw [List.reverse_cons, List.append_assoc]; rfl, fun xs hxs => ?_⟩
      rw [Value.membersOf?, List.mapM_cons] at hxs
      obtain ⟨m, hm, hxs⟩ := Option.bind_eq_some_iff.1 hxs
      obtain ⟨x, hx, rfl⟩ := Option.map_eq_some_iff.1 hm
      obtain ⟨xs', hxs', heq⟩ := Option.bind_eq_some_iff.1 hxs
      cases heq
      obtain ⟨gap, t, hgap, htext, rfl⟩ := h.member_sound hcs hkey hcolon hvalue hx
      obtain ⟨ts, hlisted, rfl⟩ := hnew xs' hxs'
      refine ⟨_, .more hgap htext hgap' hlisted, ?_⟩
      rw [hrest, hcomma]
      simp only [List.append_assoc, List.cons_append]
    · cases heq
      refine ⟨[(String.ofList key, w)], rfl, fun xs hxs => ?_⟩
      rw [Value.membersOf?, List.mapM_cons] at hxs
      obtain ⟨m, hm, hxs⟩ := Option.bind_eq_some_iff.1 hxs
      obtain ⟨x, hx, rfl⟩ := Option.map_eq_some_iff.1 hm
      cases hxs
      obtain ⟨gap, t, hgap, htext, rfl⟩ := h.member_sound hcs hkey hcolon hvalue hx
      refine ⟨_, .last hgap htext hgap', ?_⟩
      rw [hrest, hend]
      simp only [List.append_assoc]

theorem Reads.member_complete (h : Reads text decode depth) {gap t : List Char} {m : String × α}
    (hgap : Gap gap) (ht : MemberText text t m) (hfuel : t.length < fuel)
    (done : List (String × Value)) (rest : List Char) :
    ∃ w, decode w = some m.2 ∧
      (∀ next, skipGap rest = ',' :: next →
        readMembers (fuel + 1) depth done (gap ++ (t ++ rest)) =
          readMembers fuel depth ((m.1, w) :: done) next) ∧
      ∀ next, skipGap rest = '\x7d' :: next →
        readMembers (fuel + 1) depth done (gap ++ (t ++ rest)) =
          some (.object (done.reverse ++ [(m.1, w)]), next) := by
  obtain @⟨key, before, after, t, k, x, ⟨inner, htext, rfl⟩, hbefore, hafter, ht⟩ := ht
  rw [List.length_append, List.length_append, List.length_cons, List.length_cons,
    List.length_append, List.length_append] at hfuel
  have hlen : t.length < fuel := by omega
  obtain ⟨w, hvalue, hx⟩ := h.complete rest ht hlen
  have hcs : '"' :: (inner ++ ['"']) ++ (before ++ ':' :: (after ++ t)) ++ rest =
      '"' :: (inner ++ '"' :: (before ++ ':' :: (after ++ (t ++ rest)))) := by
    simp only [List.append_assoc, List.cons_append, List.nil_append]
  have hcolon := skipGap_of_ends hbefore (c := ':') (by decide) (after ++ (t ++ rest))
  refine ⟨w, hx, fun next hnext => ?_, fun next hnext => ?_⟩
  · rw [hcs, readMembers, skipGap_of_ends hgap (by decide)]
    simp only [readChars_stringText htext, hcolon, readValue_gap hafter, hvalue, hnext,
      List.reverse_nil, List.nil_append, String.ofList_toList]
  · rw [hcs, readMembers, skipGap_of_ends hgap (by decide)]
    simp only [readChars_stringText htext, hcolon, readValue_gap hafter, hvalue, hnext,
      List.reverse_nil, List.nil_append, String.ofList_toList, List.reverse_cons]

theorem Reads.members_complete (h : Reads text decode depth) {t : List Char}
    {xs : List (String × α)} (ht : Listed (MemberText text) t xs) (hfuel : t.length + 1 < fuel)
    (done : List (String × Value)) (rest : List Char) :
    ∃ new, readMembers fuel depth done (t ++ '\x7d' :: rest) =
        some (.object (done.reverse ++ new), rest) ∧
      (Value.object new).membersOf? decode = some xs := by
  induction ht generalizing fuel done with
  | @last gap t gap' m hgap htext hgap' =>
    obtain ⟨f, rfl⟩ := Nat.exists_eq_succ_of_ne_zero (n := fuel) (by omega)
    rw [List.length_append, List.length_append] at hfuel
    have hlen : t.length < f := by omega
    obtain ⟨w, hx, -, hread⟩ := h.member_complete hgap htext hlen done (gap' ++ '\x7d' :: rest)
    refine ⟨[(m.1, w)], ?_, ?_⟩
    · rw [List.append_assoc, List.append_assoc]
      exact hread rest (skipGap_of_ends hgap' (by decide) rest)
    · rw [Value.membersOf?, List.mapM_cons, hx]
      rfl
  | @more gap t gap' ts m xs hgap htext hgap' _ ih =>
    obtain ⟨f, rfl⟩ := Nat.exists_eq_succ_of_ne_zero (n := fuel) (by omega)
    rw [List.length_append, List.length_append, List.length_append, List.length_cons] at hfuel
    have hlen : t.length < f := by omega
    have hleft : ts.length + 1 < f := by omega
    obtain ⟨w, hx, hread, -⟩ := h.member_complete hgap htext hlen done
      (gap' ++ ',' :: (ts ++ '\x7d' :: rest))
    obtain ⟨new, hmore, hnew⟩ := ih hleft ((m.1, w) :: done)
    rw [Value.membersOf?] at hnew
    refine ⟨(m.1, w) :: new, ?_, ?_⟩
    · rw [List.append_assoc, List.append_assoc, List.append_assoc, List.cons_append,
        hread _ (skipGap_of_ends hgap' (by decide) _), hmore, List.reverse_cons, List.append_assoc]
      rfl
    · rw [Value.membersOf?, List.mapM_cons, hx, hnew]
      rfl

/-- **What is read as an object.** -/
theorem Reads.object (h : Reads text decode depth) :
    Reads (ObjectText text) (Value.membersOf? decode) (depth + 1) where
  opens := by
    rintro t xs (⟨-⟩ | ⟨-⟩)
    · exact ⟨'\x7b', _, rfl, by decide, by decide⟩
    · exact ⟨'\x7b', _, rfl, by decide, by decide⟩
  sound := by
    intro fuel cs v rest xs hread hdecode
    obtain ⟨f, -, ⟨_, _, -, -, rfl⟩ | ⟨_, _, -, -, hitems⟩ | ⟨d, more, hd, hcs, hmembers⟩ | hv⟩ :=
      readValue_cases hread
    · cases hdecode
    · rcases hitems with ⟨-, rfl⟩ | hitems
      · cases hdecode
      · obtain ⟨items, rfl⟩ := exists_array_of_readItems hitems
        cases hdecode
    · cases hd
      obtain ⟨gap, hgap, heq⟩ := exists_gap cs
      obtain ⟨gap', hgap', hmore⟩ := exists_gap more
      rcases hmembers with ⟨hend, rfl⟩ | hmembers
      · cases hdecode
        refine ⟨gap, _, hgap, .none hgap', ?_⟩
        rw [heq, hcs, hmore, hend]
        simp only [List.append_assoc, List.cons_append, List.nil_append]
      · obtain ⟨members, rfl⟩ := exists_object_of_readMembers hmembers
        rw [readMembers_skipGap] at hmembers
        obtain ⟨new, rfl, hnew⟩ := h.members_sound hmembers
        obtain ⟨t, hlisted, rfl⟩ := hnew xs hdecode
        refine ⟨gap, _, hgap, .some hlisted, ?_⟩
        rw [heq, hcs]
        simp only [List.append_assoc, List.cons_append, List.nil_append]
    · cases v <;> first | exact False.elim hv | cases hdecode
  complete := by
    rintro fuel _ xs rest (⟨hgap⟩ | ⟨hlisted⟩) hfuel
    · obtain ⟨f, rfl⟩ := Nat.exists_eq_succ_of_ne_zero (n := fuel) (by omega)
      refine ⟨.object [], ?_, rfl⟩
      rw [List.cons_append, List.append_assoc, List.singleton_append, readValue_brace,
        skipGap_of_ends hgap (by decide)]
      rfl
    · obtain ⟨f, rfl⟩ := Nat.exists_eq_succ_of_ne_zero (n := fuel) (by omega)
      rw [List.length_cons, List.length_append, List.length_singleton] at hfuel
      obtain ⟨new, hread, hnew⟩ := h.members_complete hlisted (Nat.lt_of_succ_lt_succ hfuel) [] rest
      obtain ⟨c, more, hmore, hc⟩ := skipGap_listed memberText_opens hlisted ('\x7d' :: rest)
      refine ⟨.object new, ?_, hnew⟩
      rw [List.cons_append, List.append_assoc, List.singleton_append, readValue_brace]
      rw [← readMembers_skipGap, hmore] at hread
      rw [hmore]
      split
      · rename_i heq
        exact absurd (List.cons.inj heq).1 hc
      · exact hread

/-- **What is read of a whole text**: it may have blanks around it. -/
theorem Reads.readSource_iff (h : Reads text decode maxDepth) {source : String} {x : α} :
    (readSource source).bind decode = some x ↔
      ∃ gap t gap', Gap gap ∧ text t x ∧ Gap gap' ∧ source.toList = gap ++ (t ++ gap') := by
  rw [readSource]
  constructor
  · intro hread
    split at hread
    · rename_i v rest hvalue
      split at hread
      · rename_i hend
        obtain ⟨gap, t, hgap, ht, heq⟩ := h.sound hvalue hread
        exact ⟨gap, t, rest, hgap, ht, skipGap_eq_nil_iff.1 (List.isEmpty_iff.1 hend), heq⟩
      · cases hread
    · cases hread
  · rintro ⟨gap, t, gap', hgap, ht, hgap', heq⟩
    have hlen : t.length < source.toList.length + 1 := by
      rw [heq, List.length_append, List.length_append]
      omega
    obtain ⟨v, hvalue, hx⟩ := h.complete gap' ht hlen
    rw [← readValue_gap hgap, ← heq] at hvalue
    simp only [hvalue, skipGap_eq_nil_iff.2 hgap', List.isEmpty_nil, if_true, Option.bind_some, hx]

end Reads

end Treecast.Json
