import Treecast.Json.Printer
import Treecast.Json.Reader

/-!
# Reading what was written

A value whose numbers are integers of 64 bits, nested no deeper than the reader allows, is read
back from its text as it was.  All that is ever read is nested no deeper than that, and its
integers fit 64 bits.

## Results

* `Json.readSource_render`: reading what was written.
* `Json.meets_of_readSource`: what is read could be written and read again, as long as it has no
  doubles.
-/

set_option autoImplicit false

namespace Treecast.Json

/-! ## Values that can be read back -/

/-- An integer fits 64 bits, signed or unsigned; doubles do as they are. -/
def Number.Fits : Number → Prop
  | .whole n => -(Nat.pow 2 63 : Int) ≤ n ∧ n ≤ (maxUnsigned : Int)
  | .real _ => True

def Number.isWhole : Number → Bool
  | .whole _ => true
  | .real _ => false

/-- The numbers whose text is read back as they are: integers of 64 bits. -/
def Number.Kept (n : Number) : Prop := n.Fits ∧ n.isWhole = true

mutual

/-- A value is nested at most so deep, and its numbers are as they should be. -/
def Value.Meets (p : Number → Prop) : (depth : Nat) → Value → Prop
  | _, .number n => p n
  | depth, .array items => 0 < depth ∧ ItemsMeet p (depth - 1) items
  | depth, .object members => 0 < depth ∧ MembersMeet p (depth - 1) members
  | _, .null => True
  | _, .bool _ => True
  | _, .string _ => True

/-- So do all items. -/
def ItemsMeet (p : Number → Prop) : (depth : Nat) → List Value → Prop
  | _, [] => True
  | depth, v :: rest => Value.Meets p depth v ∧ ItemsMeet p depth rest

/-- So do the values of all members. -/
def MembersMeet (p : Number → Prop) : (depth : Nat) → List (String × Value) → Prop
  | _, [] => True
  | depth, (_, v) :: rest => Value.Meets p depth v ∧ MembersMeet p depth rest

end

mutual

/-- Whether a value has no doubles. -/
def Value.isWhole : Value → Bool
  | .number n => n.isWhole
  | .array items => itemsWhole items
  | .object members => membersWhole members
  | .null => true
  | .bool _ => true
  | .string _ => true

/-- Whether no item has. -/
def itemsWhole : List Value → Bool
  | [] => true
  | v :: rest => v.isWhole && itemsWhole rest

/-- Whether no member's value has. -/
def membersWhole : List (String × Value) → Bool
  | [] => true
  | (_, v) :: rest => v.isWhole && membersWhole rest

end

/-! ## Strings -/

theorem hexUnit?_hexChar :
    ∀ n < 32, hexUnit? '0' '0' (hexChar (n / 16)) (hexChar (n % 16)) = some n := by
  decide

/-- An escaped control character. -/
theorem readChars_unit (done rest : List Char) {c : Char} (hc : c.toNat < 0x20) :
    readChars done ('\\' :: 'u' :: '0' :: '0' :: hexChar (c.toNat / 16) :: hexChar (c.toNat % 16) ::
      rest) = readChars (c :: done) rest := by
  have hlead : isLeadUnit c.toNat = false := by
    simp only [isLeadUnit, Bool.and_eq_false_iff, decide_eq_false_iff_not]
    omega
  have htrail : isTrailUnit c.toNat = false := by
    simp only [isTrailUnit, Bool.and_eq_false_iff, decide_eq_false_iff_not]
    omega
  rw [readChars, hexUnit?_hexChar _ hc]
  simp only [hlead, htrail, Bool.false_eq_true, if_false, Char.ofNat_toNat]

/-- A character that needs no escape. -/
theorem readChars_plain (done rest : List Char) {c : Char} (hquote : c ≠ '"') (hslash : c ≠ '\\')
    (hc : ¬ c.toNat < 0x20) : readChars done (c :: rest) = readChars (c :: done) rest := by
  rw [readChars.eq_def]
  split
  · rename_i h
    cases h
  · rename_i h
    cases h
    exact absurd rfl hquote
  · rename_i h
    cases h
    exact absurd rfl hslash
  · rename_i h
    cases h
    exact absurd rfl hslash
  · rename_i h
    cases h
    exact if_neg hc

/-- **A character that was written** is read back. -/
theorem readChars_escapeChar (done rest : List Char) (c : Char) :
    readChars done (escapeChar c ++ rest) = readChars (c :: done) rest := by
  unfold escapeChar
  split
  · rename_i h
    rw [h]
    rfl
  split
  · rename_i h
    rw [h]
    rfl
  split
  · rename_i h
    rw [h]
    rfl
  split
  · rename_i h
    rw [h]
    rfl
  split
  · rename_i h
    rw [h]
    rfl
  split
  · rename_i h
    rw [h]
    rfl
  split
  · rename_i h
    rw [h]
    rfl
  split
  · rename_i hc
    exact readChars_unit done rest hc
  · rename_i hquote hslash _ _ _ _ _ hc
    exact readChars_plain done rest hquote hslash hc

theorem readChars_escaped (rest : List Char) {cs : List Char} :
    ∀ done, readChars done (cs.flatMap escapeChar ++ '"' :: rest) =
      some (done.reverse ++ cs, rest) := by
  induction cs with
  | nil =>
    intro done
    rw [List.append_nil]
    rfl
  | cons c cs ih =>
    intro done
    rw [List.flatMap_cons, List.append_assoc, readChars_escapeChar, ih, List.reverse_cons,
      List.append_assoc]
    rfl

/-- **A string that was written** is read back, after its quote. -/
theorem readChars_stringChars (s : String) (rest : List Char) :
    ∃ cs, stringChars s ++ rest = '"' :: cs ∧ readChars [] cs = some (s.toList, rest) := by
  refine ⟨s.toList.flatMap escapeChar ++ '"' :: rest, ?_, readChars_escaped rest []⟩
  simp [stringChars]

/-! ## Numbers -/

/-- A text does not go on with what could belong to an integer. -/
def EndsNumber (rest : List Char) : Prop :=
  ∀ c, rest.head? = some c → c.isDigit = false ∧ c ≠ '.' ∧ c ≠ 'e' ∧ c ≠ 'E'

theorem spanDigits_append {digits rest : List Char} (hd : ∀ c ∈ digits, c.isDigit = true)
    (hrest : EndsNumber rest) : spanDigits (digits ++ rest) = (digits, rest) := by
  have htake : rest.takeWhile Char.isDigit = [] := by
    cases rest with
    | nil => rfl
    | cons c rest => rw [List.takeWhile_cons_of_neg (by simp [(hrest c rfl).1])]
  have hdrop : rest.dropWhile Char.isDigit = rest := by
    cases rest with
    | nil => rfl
    | cons c rest => rw [List.dropWhile_cons_of_neg (by simp [(hrest c rfl).1])]
  rw [spanDigits, List.takeWhile_append_of_pos hd, List.dropWhile_append_of_pos hd, htake, hdrop,
    List.append_nil]

/-- Digits do not start with a zero, unless there is no other one. -/
theorem toDigits_head (n : Nat) :
    ∃ c rest, Nat.toDigits 10 n = c :: rest ∧ (c = '0' → rest = []) := by
  induction n using Nat.strongRecOn with
  | _ n ih =>
    rcases Nat.lt_or_ge n 10 with hlt | hge
    · exact ⟨_, [], Nat.toDigits_of_lt_base hlt, fun _ => rfl⟩
    · obtain ⟨c, rest, heq, hzero⟩ := ih (n / 10) (by omega)
      rw [Nat.toDigits_of_base_le (by omega) hge, heq]
      refine ⟨c, rest ++ [(n % 10).digitChar], rfl, fun hc => ?_⟩
      -- a tenth that is not zero does not start with a zero either
      rw [hzero hc, hc] at heq
      have hvalue := congrArg (Nat.ofDigitChars 10 · 0) heq
      simp only [Nat.ofDigitChars_ten_toDigits] at hvalue
      have hnull : Nat.ofDigitChars 10 ['0'] 0 = 0 := by decide
      omega

theorem readWhole_toDigits (n : Nat) {rest : List Char} (hrest : EndsNumber rest) :
    readWhole (Nat.toDigits 10 n ++ rest) = some (Nat.toDigits 10 n, rest) := by
  have hdigits : ∀ c ∈ Nat.toDigits 10 n, c.isDigit = true := fun c hc =>
    Nat.isDigit_of_mem_toDigits (by omega) (by omega) hc
  have hspan := spanDigits_append hdigits hrest
  obtain ⟨c, more, heq, hzero⟩ := toDigits_head n
  rw [readWhole, hspan, heq]
  split
  · rename_i h
    cases h
  · rename_i h
    cases h
    cases hzero rfl
  · rename_i h
    cases h
    rfl

theorem readFraction_of_ends {rest : List Char} (hrest : EndsNumber rest) :
    readFraction rest = some (none, rest) := by
  unfold readFraction
  split
  · exact absurd rfl (hrest _ rfl).2.1
  · rfl

theorem readExponent_of_ends {rest : List Char} (hrest : EndsNumber rest) :
    readExponent rest = some (none, rest) := by
  cases rest with
  | nil => rfl
  | cons c rest =>
    rw [readExponent, if_neg]
    rintro (h | h)
    · exact (hrest c rfl).2.2.1 h
    · exact (hrest c rfl).2.2.2 h

theorem foldl_digitValue (n : Nat) :
    (Nat.toDigits 10 n).foldl (fun n c => n * 10 + digitValue c) 0 = n := by
  have hvalue : Nat.ofDigitChars 10 (Nat.toDigits 10 n) 0 = n := Nat.ofDigitChars_ten_toDigits
  rw [Nat.ofDigitChars] at hvalue
  refine Eq.trans ?_ hvalue
  congr 1
  funext acc c
  rw [digitValue, Nat.mul_comm]

/-- **An integer that was written** is read back. -/
theorem readLiteral_numberChars {n : Int} (hn : (Number.whole n).Fits) {rest : List Char}
    (hrest : EndsNumber rest) :
    ∃ literal, readLiteral (numberChars (.whole n) ++ rest) = some (literal, rest) ∧
      literal.number? = some (.whole n) := by
  obtain ⟨hlow, hhigh⟩ := hn
  by_cases hneg : n < 0
  · refine ⟨⟨true, Nat.toDigits 10 n.natAbs, none, none⟩, ?_, ?_⟩
    · rw [numberChars, if_pos hneg, List.cons_append, readLiteral]
      simp only [readWhole_toDigits _ hrest, readFraction_of_ends hrest,
        readExponent_of_ends hrest, Option.bind_eq_bind, Option.bind_some]
      rfl
    · have hsmall : n.natAbs ≤ Nat.pow 2 63 := by omega
      have hpos : 0 < n.natAbs := by omega
      simp only [Literal.number?, foldl_digitValue, Option.isNone_none, true_and, not_true,
        false_and, if_false, hpos, hsmall, and_self, if_true]
      congr 2
      omega
  · refine ⟨⟨false, Nat.toDigits 10 n.natAbs, none, none⟩, ?_, ?_⟩
    · obtain ⟨c, more, heq, -⟩ := toDigits_head n.natAbs
      have hdigit : c.isDigit = true :=
        Nat.isDigit_of_mem_toDigits (b := 10) (n := n.natAbs) (by omega) (by omega)
          (heq ▸ List.mem_cons_self)
      have hminus : c ≠ '-' := by
        rintro rfl
        exact absurd hdigit (by decide)
      have hwhole := readWhole_toDigits n.natAbs hrest
      rw [heq] at hwhole
      rw [numberChars, if_neg hneg, heq, readLiteral]
      · simp only [hwhole, readFraction_of_ends hrest,
          readExponent_of_ends hrest, Option.bind_eq_bind, Option.bind_some]
        rfl
      · intro rest h
        cases h
        exact hminus rfl
    · have hsmall : n.natAbs ≤ maxUnsigned := by omega
      simp only [Literal.number?, foldl_digitValue, Option.isNone_none, true_and,
        Bool.false_eq_true, not_false_eq_true, hsmall, if_true]
      congr 2
      omega

/-! ## The first character of a value -/

theorem skipGap_cons {c : Char} (hc : isGap c = false) (rest : List Char) :
    skipGap (c :: rest) = c :: rest :=
  List.dropWhile_cons_of_neg (by simp [hc])

theorem numberChars_head {n : Int} :
    ∃ c rest, numberChars (.whole n) = c :: rest ∧ (c = '-' ∨ c.isDigit = true) := by
  obtain ⟨c, rest, heq, -⟩ := toDigits_head n.natAbs
  have hdigit : c.isDigit = true :=
    Nat.isDigit_of_mem_toDigits (b := 10) (n := n.natAbs) (by omega) (by omega)
      (heq ▸ List.mem_cons_self)
  rw [numberChars]
  split
  · exact ⟨'-', _, rfl, .inl rfl⟩
  · exact ⟨c, rest, heq, .inr hdigit⟩

/-- The characters that a number starts with. -/
theorem ne_of_minus_or_digit {c : Char} (hc : c = '-' ∨ c.isDigit = true) :
    isGap c = false ∧ ∀ d ∈ ['n', 't', 'f', '"', '[', ']', '\x7b', '\x7d'], c ≠ d := by
  rcases hc with rfl | hc
  · simp [isGap]
  · have hne : ∀ d : Char, d.isDigit = false → c ≠ d := by
      rintro d hd rfl
      exact Bool.false_ne_true (hd.symm.trans hc)
    constructor
    · simp only [isGap, Bool.or_eq_false_iff, decide_eq_false_iff_not]
      exact ⟨⟨⟨hne _ rfl, hne _ rfl⟩, hne _ rfl⟩, hne _ rfl⟩
    · have hnone : ∀ d ∈ ['n', 't', 'f', '"', '[', ']', '\x7b', '\x7d'], d.isDigit = false := by
        simp
      exact fun d hd => hne d (hnone d hd)

theorem valueChars_head {depth : Nat} {v : Value} (hv : v.Meets Number.Kept depth) :
    ∃ c rest, valueChars v = c :: rest ∧ isGap c = false ∧ c ≠ ']' := by
  match v with
  | .null => exact ⟨'n', _, by rw [valueChars], by decide, by decide⟩
  | .bool true => exact ⟨'t', _, by rw [valueChars], by decide, by decide⟩
  | .bool false => exact ⟨'f', _, by rw [valueChars], by decide, by decide⟩
  | .number (.whole n) =>
    obtain ⟨c, rest, heq, hc⟩ := numberChars_head (n := n)
    obtain ⟨hgap, hne⟩ := ne_of_minus_or_digit hc
    exact ⟨c, rest, by rw [valueChars, heq], hgap, hne _ (by decide)⟩
  | .number (.real d) =>
    rw [Value.Meets] at hv
    exact absurd hv.2 Bool.false_ne_true
  | .string s =>
    exact ⟨'"', _, by rw [valueChars, stringChars, List.cons_append], by decide, by decide⟩
  | .array items => exact ⟨'[', _, by rw [valueChars, List.cons_append], by decide, by decide⟩
  | .object members => exact ⟨'\x7b', _, by rw [valueChars, List.cons_append], by decide, by decide⟩

theorem itemsChars_head {depth : Nat} {v : Value} (hv : v.Meets Number.Kept depth)
    (items : List Value) :
    ∃ c rest, itemsChars (v :: items) = c :: rest ∧ isGap c = false ∧ c ≠ ']' := by
  obtain ⟨c, rest, heq, hc⟩ := valueChars_head hv
  cases items with
  | nil => exact ⟨c, rest, by rw [itemsChars, heq], hc⟩
  | cons w items => exact ⟨c, _, by rw [itemsChars, heq, List.cons_append], hc⟩

theorem membersChars_head (key : String) (v : Value) (members : List (String × Value)) :
    ∃ rest, membersChars ((key, v) :: members) = '"' :: rest := by
  cases members with
  | nil => exact ⟨_, by rw [membersChars, stringChars, List.cons_append, List.cons_append]⟩
  | cons m members =>
    exact ⟨_, by
      rw [membersChars, stringChars, List.cons_append, List.cons_append, List.cons_append]⟩

/-! ## One step of the reader -/

variable {fuel depth : Nat}

theorem readValue_null (rest : List Char) :
    readValue (fuel + 1) depth ('n' :: 'u' :: 'l' :: 'l' :: rest) = some (.null, rest) := by
  rw [readValue, skipGap_cons (by decide)]
  rfl

theorem readValue_true (rest : List Char) :
    readValue (fuel + 1) depth ('t' :: 'r' :: 'u' :: 'e' :: rest) = some (.bool true, rest) := by
  rw [readValue, skipGap_cons (by decide)]
  rfl

theorem readValue_false (rest : List Char) :
    readValue (fuel + 1) depth ('f' :: 'a' :: 'l' :: 's' :: 'e' :: rest) =
      some (.bool false, rest) := by
  rw [readValue, skipGap_cons (by decide)]
  rfl

theorem readValue_quote (rest : List Char) :
    readValue (fuel + 1) depth ('"' :: rest) =
      (readChars [] rest).map fun r => (.string (String.ofList r.1), r.2) := by
  rw [readValue, skipGap_cons (by decide)]
  rfl

theorem readValue_string (s : String) (rest : List Char) :
    readValue (fuel + 1) depth (stringChars s ++ rest) = some (.string s, rest) := by
  obtain ⟨cs, heq, hread⟩ := readChars_stringChars s rest
  rw [heq, readValue_quote, hread, Option.map_some, String.ofList_toList]

/-- A text that starts like no other value is read as a number. -/
theorem readValue_literal {c : Char} {rest : List Char} (hgap : isGap c = false)
    (hne : ∀ d ∈ ['n', 't', 'f', '"', '[', ']', '\x7b', '\x7d'], c ≠ d) :
    readValue (fuel + 1) depth (c :: rest) =
      match readLiteral (c :: rest) with
      | some (literal, rest) => literal.number?.map fun n => (.number n, rest)
      | none => none := by
  rw [readValue, skipGap_cons hgap]
  split
  all_goals rename_i h
  · exact absurd (List.cons.inj h).1 (hne _ (by decide))
  · exact absurd (List.cons.inj h).1 (hne _ (by decide))
  · exact absurd (List.cons.inj h).1 (hne _ (by decide))
  · exact absurd (List.cons.inj h).1 (hne _ (by decide))
  · exact absurd (List.cons.inj h).1 (hne _ (by decide))
  · exact absurd (List.cons.inj h).1 (hne _ (by decide))
  · rfl

theorem readValue_number {n : Int} (hn : (Number.whole n).Fits) {rest : List Char}
    (hrest : EndsNumber rest) :
    readValue (fuel + 1) depth (numberChars (.whole n) ++ rest) =
      some (.number (.whole n), rest) := by
  obtain ⟨literal, hread, hnumber⟩ := readLiteral_numberChars hn hrest
  obtain ⟨c, more, heq, hc⟩ := numberChars_head (n := n)
  obtain ⟨hgap, hne⟩ := ne_of_minus_or_digit hc
  rw [heq, List.cons_append] at hread ⊢
  rw [readValue_literal hgap hne, hread]
  simp only [hnumber, Option.map_some]

theorem readValue_bracket (rest : List Char) :
    readValue (fuel + 1) (depth + 1) ('[' :: rest) =
      match skipGap rest with
      | ']' :: rest => some (.array [], rest)
      | rest => readItems fuel depth [] rest := by
  rw [readValue, skipGap_cons (by decide)]
  rfl

theorem readValue_array_nil (rest : List Char) :
    readValue (fuel + 1) (depth + 1) ('[' :: ']' :: rest) = some (.array [], rest) := by
  rw [readValue_bracket, skipGap_cons (by decide)]
  rfl

theorem readValue_array {c : Char} (hgap : isGap c = false) (hc : c ≠ ']') (rest : List Char) :
    readValue (fuel + 1) (depth + 1) ('[' :: c :: rest) = readItems fuel depth [] (c :: rest) := by
  rw [readValue_bracket, skipGap_cons hgap]
  split
  · rename_i h
    exact absurd (List.cons.inj h).1 hc
  · rfl

theorem readValue_brace (rest : List Char) :
    readValue (fuel + 1) (depth + 1) ('\x7b' :: rest) =
      match skipGap rest with
      | '\x7d' :: rest => some (.object [], rest)
      | rest => readMembers fuel depth [] rest := by
  rw [readValue, skipGap_cons (by decide)]
  rfl

theorem readValue_object_nil (rest : List Char) :
    readValue (fuel + 1) (depth + 1) ('\x7b' :: '\x7d' :: rest) = some (.object [], rest) := by
  rw [readValue_brace, skipGap_cons (by decide)]
  rfl

theorem readValue_object (rest : List Char) :
    readValue (fuel + 1) (depth + 1) ('\x7b' :: '"' :: rest) =
      readMembers fuel depth [] ('"' :: rest) := by
  rw [readValue_brace, skipGap_cons (by decide)]
  rfl

theorem readItems_last {done : List Value} {v : Value} {cs rest : List Char}
    (hv : readValue fuel depth cs = some (v, ']' :: rest)) :
    readItems (fuel + 1) depth done cs = some (.array (done.reverse ++ [v]), rest) := by
  rw [readItems, hv]
  simp only [skipGap_cons (show isGap ']' = false by decide), List.reverse_cons]

theorem readItems_more {done : List Value} {v : Value} {cs rest : List Char}
    (hv : readValue fuel depth cs = some (v, ',' :: rest)) :
    readItems (fuel + 1) depth done cs = readItems fuel depth (v :: done) rest := by
  rw [readItems, hv]
  simp only [skipGap_cons (show isGap ',' = false by decide)]

theorem readMembers_last {done : List (String × Value)} {key : String} {v : Value}
    {cs rest : List Char} (hv : readValue fuel depth cs = some (v, '\x7d' :: rest)) :
    readMembers (fuel + 1) depth done (stringChars key ++ ':' :: cs) =
      some (.object (done.reverse ++ [(key, v)]), rest) := by
  obtain ⟨more, heq, hread⟩ := readChars_stringChars key (':' :: cs)
  rw [heq, readMembers, skipGap_cons (by decide)]
  simp only [hread, skipGap_cons (show isGap ':' = false by decide), hv,
    skipGap_cons (show isGap '\x7d' = false by decide), String.ofList_toList, List.reverse_cons]

theorem readMembers_more {done : List (String × Value)} {key : String} {v : Value}
    {cs rest : List Char} (hv : readValue fuel depth cs = some (v, ',' :: rest)) :
    readMembers (fuel + 1) depth done (stringChars key ++ ':' :: cs) =
      readMembers fuel depth ((key, v) :: done) rest := by
  obtain ⟨more, heq, hread⟩ := readChars_stringChars key (':' :: cs)
  rw [heq, readMembers, skipGap_cons (by decide)]
  simp only [hread, skipGap_cons (show isGap ':' = false by decide), hv,
    skipGap_cons (show isGap ',' = false by decide), String.ofList_toList]

/-! ## A written value is read back -/

theorem endsNumber_nil : EndsNumber [] := fun _ h => nomatch h

theorem endsNumber_cons {c : Char} (hc : c ∈ [',', ']', '\x7d']) (rest : List Char) :
    EndsNumber (c :: rest) := by
  intro d hd
  rw [← Option.some.inj hd]
  have hends : ∀ c ∈ [',', ']', '\x7d'], c.isDigit = false ∧ c ≠ '.' ∧ c ≠ 'e' ∧ c ≠ 'E' := by
    simp
  exact hends c hc

mutual

/-- **A value that was written** is read back, whatever comes after it. -/
theorem readValue_valueChars {v : Value} {depth fuel : Nat} {rest : List Char}
    (hv : v.Meets Number.Kept depth) (hfuel : (valueChars v).length ≤ fuel)
    (hrest : EndsNumber rest) :
    readValue (fuel + 1) depth (valueChars v ++ rest) = some (v, rest) := by
  match v with
  | .null => exact readValue_null rest
  | .bool true => exact readValue_true rest
  | .bool false => exact readValue_false rest
  | .number (.whole n) => exact readValue_number hv.1 hrest
  | .number (.real d) => exact absurd hv.2 Bool.false_ne_true
  | .string s => exact readValue_string s rest
  | .array [] =>
    rw [Value.Meets] at hv
    obtain ⟨depth, rfl⟩ := Nat.exists_eq_succ_of_ne_zero (Nat.pos_iff_ne_zero.1 hv.1)
    exact readValue_array_nil rest
  | .array (w :: items) =>
    rw [Value.Meets] at hv
    obtain ⟨depth, rfl⟩ := Nat.exists_eq_succ_of_ne_zero (Nat.pos_iff_ne_zero.1 hv.1)
    have hitems : ItemsMeet Number.Kept depth (w :: items) := hv.2
    rw [valueChars, List.length_append, List.length_cons, List.length_singleton] at hfuel
    obtain ⟨fuel, rfl⟩ := Nat.exists_eq_succ_of_ne_zero (n := fuel) (by omega)
    obtain ⟨c, cs, heq, hgap, hc⟩ := itemsChars_head (ItemsMeet.eq_def .. ▸ hitems).1 items
    calc readValue (fuel + 2) (depth + 1) (valueChars (.array (w :: items)) ++ rest)
        = readValue (fuel + 2) (depth + 1) ('[' :: (itemsChars (w :: items) ++ ']' :: rest)) := by
          rw [valueChars, List.cons_append, List.cons_append, List.append_assoc]
          rfl
      _ = readItems (fuel + 1) depth [] (itemsChars (w :: items) ++ ']' :: rest) := by
          rw [heq, List.cons_append]
          exact readValue_array hgap hc _
      _ = some (.array (w :: items), rest) := readItems_itemsChars hitems (by omega)
  | .object [] =>
    rw [Value.Meets] at hv
    obtain ⟨depth, rfl⟩ := Nat.exists_eq_succ_of_ne_zero (Nat.pos_iff_ne_zero.1 hv.1)
    exact readValue_object_nil rest
  | .object ((key, w) :: members) =>
    rw [Value.Meets] at hv
    obtain ⟨depth, rfl⟩ := Nat.exists_eq_succ_of_ne_zero (Nat.pos_iff_ne_zero.1 hv.1)
    have hmembers : MembersMeet Number.Kept depth ((key, w) :: members) := hv.2
    rw [valueChars, List.length_append, List.length_cons, List.length_singleton] at hfuel
    obtain ⟨fuel, rfl⟩ := Nat.exists_eq_succ_of_ne_zero (n := fuel) (by omega)
    obtain ⟨cs, heq⟩ := membersChars_head key w members
    calc readValue (fuel + 2) (depth + 1) (valueChars (.object ((key, w) :: members)) ++ rest)
        = readValue (fuel + 2) (depth + 1)
            ('\x7b' :: (membersChars ((key, w) :: members) ++ '\x7d' :: rest)) := by
          rw [valueChars, List.cons_append, List.cons_append, List.append_assoc]
          rfl
      _ = readMembers (fuel + 1) depth []
          (membersChars ((key, w) :: members) ++ '\x7d' :: rest) := by
          rw [heq, List.cons_append]
          exact readValue_object _
      _ = some (.object ((key, w) :: members), rest) := readMembers_membersChars hmembers (by omega)
termination_by sizeOf v

theorem readItems_itemsChars {v : Value} {items done : List Value} {depth fuel : Nat}
    {rest : List Char} (hv : ItemsMeet Number.Kept depth (v :: items))
    (hfuel : (itemsChars (v :: items)).length < fuel) :
    readItems (fuel + 1) depth done (itemsChars (v :: items) ++ ']' :: rest) =
      some (.array (done.reverse ++ v :: items), rest) := by
  match fuel, items with
  | fuel + 1, [] =>
    rw [ItemsMeet] at hv
    rw [itemsChars] at hfuel ⊢
    exact readItems_last (readValue_valueChars hv.1 (by omega) (endsNumber_cons (by decide) rest))
  | fuel + 1, w :: items =>
    rw [ItemsMeet] at hv
    rw [itemsChars, List.length_append, List.length_cons] at hfuel
    rw [itemsChars, List.append_assoc, List.cons_append, readItems_more
      (readValue_valueChars hv.1 (by omega) (endsNumber_cons (by decide) _)),
      readItems_itemsChars hv.2 (by omega), List.reverse_cons, List.append_assoc]
    rfl
termination_by sizeOf (v :: items)

theorem readMembers_membersChars {m : String × Value} {members done : List (String × Value)}
    {depth fuel : Nat} {rest : List Char} (hv : MembersMeet Number.Kept depth (m :: members))
    (hfuel : (membersChars (m :: members)).length < fuel) :
    readMembers (fuel + 1) depth done (membersChars (m :: members) ++ '\x7d' :: rest) =
      some (.object (done.reverse ++ m :: members), rest) := by
  match fuel, m, members with
  | fuel + 1, (key, v), [] =>
    rw [MembersMeet] at hv
    rw [membersChars, List.length_append, List.length_cons] at hfuel
    rw [membersChars, List.append_assoc, List.cons_append]
    exact readMembers_last (readValue_valueChars hv.1 (by omega) (endsNumber_cons (by decide) rest))
  | fuel + 1, (key, v), m :: members =>
    rw [MembersMeet] at hv
    rw [membersChars, List.length_append, List.length_append, List.length_cons,
      List.length_cons] at hfuel
    rw [membersChars, List.append_assoc, List.append_assoc, List.cons_append, List.cons_append,
      readMembers_more (readValue_valueChars hv.1 (by omega) (endsNumber_cons (by decide) _)),
      readMembers_membersChars hv.2 (by omega), List.reverse_cons, List.append_assoc]
    rfl
termination_by sizeOf (m :: members)

end

/-- **Reading what was written** gives it back. -/
theorem readSource_render {v : Value} (hv : v.Meets Number.Kept maxDepth) :
    readSource v.render = some v := by
  have hread := readValue_valueChars hv (Nat.le_refl _) endsNumber_nil
  rw [List.append_nil] at hread
  rw [readSource, Value.render, String.toList_ofList]
  simp only [hread]
  rfl

/-! ## What is read -/

theorem fits_of_number? {literal : Literal} {n : Number} (h : literal.number? = some n) :
    n.Fits := by
  rw [Literal.number?] at h
  split at h
  · rename_i hsmall
    rw [← Option.some.inj h]
    constructor <;> omega
  split at h
  · rename_i hsmall
    rw [← Option.some.inj h]
    have hbound : Nat.pow 2 63 ≤ maxUnsigned := by decide
    constructor <;> omega
  · obtain ⟨d, -, rfl⟩ := Option.map_eq_some_iff.1 h
    trivial

theorem itemsMeet_iff {p : Number → Prop} {depth : Nat} {items : List Value} :
    ItemsMeet p depth items ↔ ∀ v ∈ items, v.Meets p depth := by
  induction items with
  | nil => simp [ItemsMeet]
  | cons v items ih => rw [ItemsMeet, ih, List.forall_mem_cons]

theorem membersMeet_iff {p : Number → Prop} {depth : Nat} {members : List (String × Value)} :
    MembersMeet p depth members ↔ ∀ m ∈ members, m.2.Meets p depth := by
  induction members with
  | nil => simp [MembersMeet]
  | cons m members ih => rw [MembersMeet, ih, List.forall_mem_cons]

/-- **What the reader returns** fits, at every step of the reader. -/
theorem meets_of_read (fuel : Nat) :
    (∀ {depth : Nat} {cs rest : List Char} {v : Value},
      readValue fuel depth cs = some (v, rest) → v.Meets Number.Fits depth) ∧
    (∀ {depth : Nat} {cs rest : List Char} {done : List Value} {v : Value},
      readItems fuel depth done cs = some (v, rest) → ItemsMeet Number.Fits depth done →
        v.Meets Number.Fits (depth + 1)) ∧
    ∀ {depth : Nat} {cs rest : List Char} {done : List (String × Value)} {v : Value},
      readMembers fuel depth done cs = some (v, rest) → MembersMeet Number.Fits depth done →
        v.Meets Number.Fits (depth + 1) := by
  induction fuel with
  | zero => exact ⟨(nomatch ·), fun h _ => (nomatch h), fun h _ => (nomatch h)⟩
  | succ fuel ih =>
    obtain ⟨ihv, ihi, ihm⟩ := ih
    refine ⟨fun h => ?_, fun h hdone => ?_, fun h hdone => ?_⟩
    · rw [readValue] at h
      split at h
      · cases h
        trivial
      · cases h
        trivial
      · cases h
        trivial
      · obtain ⟨r, -, heq⟩ := Option.map_eq_some_iff.1 h
        cases heq
        trivial
      · split at h
        · cases h
        split at h
        · cases h
          exact ⟨Nat.succ_pos _, trivial⟩
        · exact ihi h trivial
      · split at h
        · cases h
        split at h
        · cases h
          exact ⟨Nat.succ_pos _, trivial⟩
        · exact ihm h trivial
      · split at h
        · obtain ⟨n, hn, heq⟩ := Option.map_eq_some_iff.1 h
          cases heq
          exact fits_of_number? hn
        · cases h
    · rw [readItems] at h
      split at h
      · cases h
      rename_i hv
      have hdone : ItemsMeet Number.Fits _ (_ :: _) := ⟨ihv hv, hdone⟩
      split at h
      · exact ihi h hdone
      · cases h
        refine ⟨Nat.succ_pos _, itemsMeet_iff.2 fun w hw => ?_⟩
        exact itemsMeet_iff.1 hdone w (List.mem_reverse.1 hw)
      · cases h
    · rw [readMembers] at h
      split at h
      · split at h
        · cases h
        split at h
        · split at h
          · cases h
          rename_i key _ _ _ _ _ _ w _ hv
          have hdone : MembersMeet Number.Fits _ ((String.ofList key, w) :: _) := ⟨ihv hv, hdone⟩
          split at h
          · exact ihm h hdone
          · cases h
            refine ⟨Nat.succ_pos _, membersMeet_iff.2 fun w hw => ?_⟩
            exact membersMeet_iff.1 hdone w (List.mem_reverse.1 hw)
          · cases h
        · cases h
      · cases h

/-- **Whatever is read** is nested no deeper than allowed, and its integers fit. -/
theorem meets_of_readSource {text : String} {v : Value} (h : readSource text = some v) :
    v.Meets Number.Fits maxDepth := by
  rw [readSource] at h
  split at h
  · rename_i hread
    split at h
    · cases h
      exact (meets_of_read _).1 hread
    · cases h
  · cases h

end Treecast.Json
