import Crowdsensing.Text.Bytes

/-!
# JSON values and the text of flat objects

JSON values, and a writer and a reader for the objects whose fields are strings and
booleans, in the layout `{"key": "value", "key": true}`.

* `writeObject`, `readObject` — the writer and the reader, with
  `readObject_writeObject`: **what is written is read back**.
* `le_of_mem_writeFields` — the text between the braces holds no control byte, so
  no line end.
-/

namespace Text

/-! ## Values -/

/-- A JSON value. -/
inductive Json
  | null
  | bool (value : Bool)
  | number (literal : Str)
  | string (value : Str)
  | array (items : List Json)
  | object (fields : List (Str × Json))

namespace Json

/-- The value of a key: null where there is no such field. -/
def get (json : Json) (key : Str) : Json :=
  match json with
  | object fields => (fields.lookup key).getD null
  | _ => null

/-- The value is null. -/
def isNull : Json → Bool
  | null => true
  | _ => false

/-- The text of a string value: empty for any other value. -/
def stringValue : Json → Str
  | string value => value
  | _ => []

/-- A string or a boolean. -/
def IsPlain : Json → Prop
  | .string _ => True
  | .bool _ => True
  | _ => False

end Json

/-! ## Strings -/

/-- The bytes with an escape of one letter, and the letters. -/
def shortEscapes : List (UInt8 × UInt8) :=
  [(34, 34), (92, 92), (8, ch 'b'), (12, ch 'f'), (10, ch 'n'), (13, ch 'r'), (9, ch 't')]

/-- The lower-case hexadecimal digit of a number below sixteen. -/
def hexDigitLower (n : ℕ) : UInt8 := UInt8.ofNat (if n < 10 then 48 + n else 87 + n)

/-- A byte of a string as it is written. -/
def jsonByte (b : UInt8) : Str :=
  match shortEscapes.find? fun p => p.1 == b with
  | some p => [92, p.2]
  | none =>
    if b < 32 then
      [92, ch 'u', ch '0', ch '0', hexDigitLower (b.toNat / 16), hexDigitLower (b.toNat % 16)]
    else [b]

/-- A string as it is written, without the quote before it. -/
def writeString (s : Str) : Str := s.flatMap jsonByte ++ [34]

/-- Read a string whose opening quote has been read: its bytes and what follows. -/
def readString : Str → Option (Str × Str)
  | [] => none
  | b :: s =>
    if b = 34 then some ([], s)
    else if b = 92 then
      match s with
      | [] => none
      | c :: s =>
        if c = ch 'u' then
          match s with
          | z :: z' :: h :: l :: s =>
            if z = ch '0' ∧ z' = ch '0' then
              (hexTable h l).bind fun x => (readString s).map fun r => (x :: r.1, r.2)
            else none
          | _ => none
        else
          (shortEscapes.find? fun p => p.2 == c).bind fun p =>
            (readString s).map fun r => (p.1 :: r.1, r.2)
    else if b < 32 then none
    else (readString s).map fun r => (b :: r.1, r.2)

/-- An escape of one letter is read as its byte. -/
theorem find?_of_mem_shortEscapes {p : UInt8 × UInt8} (h : p ∈ shortEscapes) :
    p.2 ≠ ch 'u' ∧ 32 ≤ p.2 ∧ shortEscapes.find? (fun q => q.2 == p.2) = some p := by
  simp only [shortEscapes, List.mem_cons, List.not_mem_nil, or_false] at h
  rcases h with rfl | rfl | rfl | rfl | rfl | rfl | rfl <;> decide

theorem hexValue_hexDigitLower {n : ℕ} (h : n < 16) : hexValue (hexDigitLower n) = some n := by
  interval_cases n <;> decide

theorem le_hexDigitLower {n : ℕ} (h : n < 16) : 32 ≤ hexDigitLower n := by
  interval_cases n <;> decide

theorem hexTable_hexDigitLower (b : UInt8) :
    hexTable (hexDigitLower (b.toNat / 16)) (hexDigitLower (b.toNat % 16)) = some b := by
  have hb : b.toNat < 256 := UInt8.toNat_lt b
  have hsum : 16 * (b.toNat / 16) + b.toNat % 16 = b.toNat := by omega
  rw [hexTable, hexValue_hexDigitLower (by omega), hexValue_hexDigitLower (by omega),
    Option.bind_some, Option.map_some, hsum, UInt8.ofNat_toNat]

/-- The three ways to write a byte. -/
theorem jsonByte_cases (b : UInt8) :
    (∃ p ∈ shortEscapes, p.1 = b ∧ jsonByte b = [92, p.2]) ∨
      jsonByte b = [92, ch 'u', ch '0', ch '0', hexDigitLower (b.toNat / 16),
        hexDigitLower (b.toNat % 16)] ∨
      (b ≠ 34 ∧ b ≠ 92 ∧ 32 ≤ b ∧ jsonByte b = [b]) := by
  unfold jsonByte
  cases hfind : shortEscapes.find? fun p => p.1 == b with
  | some p =>
    refine Or.inl ⟨p, List.mem_of_find?_eq_some hfind, ?_, rfl⟩
    simpa using List.find?_some hfind
  | none =>
    refine Or.inr ?_
    by_cases hb : b < 32
    · exact Or.inl (if_pos hb)
    · have hnone := List.find?_eq_none.1 hfind
      refine Or.inr ⟨?_, ?_, UInt8.not_lt.1 hb, if_neg hb⟩
      · rintro rfl
        exact hnone (34, 34) (by decide) (by decide)
      · rintro rfl
        exact hnone (92, 92) (by decide) (by decide)

theorem readString_jsonByte (b : UInt8) (s : Str) :
    readString (jsonByte b ++ s) = (readString s).map fun r => (b :: r.1, r.2) := by
  rcases jsonByte_cases b with ⟨p, hp, rfl, hb⟩ | hb | ⟨hquote, hback, hle, hb⟩
  · obtain ⟨hu, -, hfind⟩ := find?_of_mem_shortEscapes hp
    rw [hb]
    show readString (92 :: p.2 :: s) = _
    rw [readString.eq_def]
    simp only [if_neg (show ¬ (92 : UInt8) = 34 by decide), if_true, if_neg hu, hfind,
      Option.bind_some]
  · rw [hb]
    simp only [List.cons_append, List.nil_append]
    rw [readString.eq_def]
    simp only [if_neg (show ¬ (92 : UInt8) = 34 by decide), if_true, and_self,
      hexTable_hexDigitLower, Option.bind_some]
  · rw [hb]
    show readString (b :: s) = _
    rw [readString.eq_def]
    simp only [if_neg hquote, if_neg hback, if_neg (UInt8.not_lt.2 hle)]

/-- **A string is read back**, with what follows it. -/
theorem readString_writeString (s t : Str) : readString (writeString s ++ t) = some (s, t) := by
  induction s with
  | nil =>
    show readString (34 :: t) = _
    rw [readString.eq_def]
    rfl
  | cons b s ih =>
    have hcons : writeString (b :: s) ++ t = jsonByte b ++ (writeString s ++ t) := by
      simp [writeString]
    rw [hcons, readString_jsonByte, ih, Option.map_some]

theorem le_of_mem_jsonByte {b c : UInt8} (hc : c ∈ jsonByte b) : 32 ≤ c := by
  rcases jsonByte_cases b with ⟨p, hp, -, hb⟩ | hb | ⟨-, -, hle, hb⟩
  · rw [hb] at hc
    simp only [List.mem_cons, List.not_mem_nil, or_false] at hc
    rcases hc with rfl | rfl
    · decide
    · exact (find?_of_mem_shortEscapes hp).2.1
  · have hlt : b.toNat < 256 := UInt8.toNat_lt b
    rw [hb] at hc
    simp only [List.mem_cons, List.not_mem_nil, or_false] at hc
    rcases hc with rfl | rfl | rfl | rfl | rfl | rfl
    · decide
    · decide
    · decide
    · decide
    · exact le_hexDigitLower (by omega)
    · exact le_hexDigitLower (by omega)
  · rw [hb, List.mem_singleton] at hc
    rw [hc]
    exact hle

theorem le_of_mem_writeString {s : Str} {c : UInt8} (hc : c ∈ writeString s) : 32 ≤ c := by
  rcases List.mem_append.1 hc with hc | hc
  · obtain ⟨b, -, hb⟩ := List.mem_flatMap.1 hc
    exact le_of_mem_jsonByte hb
  · rw [List.mem_singleton.1 hc]
    decide

/-! ## Fields -/

/-- A value as it is written. -/
def writeValue : Json → Str
  | .string value => 34 :: writeString value
  | .bool true => txt "true"
  | .bool false => txt "false"
  | _ => txt "null"

/-- A field as it is written. -/
def writeField (f : Str × Json) : Str := 34 :: writeString f.1 ++ txt ": " ++ writeValue f.2

/-- The fields of an object as they are written. -/
def writeFields (fields : List (Str × Json)) : Str :=
  (txt ", ").intercalate (fields.map writeField)

/-- An object as it is written. -/
def writeObject (fields : List (Str × Json)) : Str := ch '{' :: writeFields fields ++ [ch '}']

/-- What follows a literal. -/
def expect (literal s : Str) : Option Str :=
  if literal <+: s then some (s.drop literal.length) else none

/-- Read a string or a boolean. -/
def readValue (s : Str) : Option (Json × Str) :=
  match expect [34] s with
  | some t => (readString t).map fun r => (.string r.1, r.2)
  | none =>
    match expect (txt "true") s with
    | some t => some (.bool true, t)
    | none => (expect (txt "false") s).map fun t => (.bool false, t)

/-- Read a field. -/
def readField (s : Str) : Option ((Str × Json) × Str) := do
  let s ← expect [34] s
  let (key, s) ← readString s
  let s ← expect (txt ": ") s
  let (value, s) ← readValue s
  return ((key, value), s)

/-- Read fields up to the closing brace, at most as many as the number says. -/
def readFields : ℕ → Str → Option (List (Str × Json))
  | 0, _ => none
  | n + 1, s => (readField s).bind fun r =>
    if r.2 = [ch '}'] then some [r.1]
    else (expect (txt ", ") r.2).bind fun t => (readFields n t).map (r.1 :: ·)

/-- Read an object: null for any other text. -/
def readObject (s : Str) : Json :=
  match expect [ch '{'] s with
  | none => .null
  | some t =>
    if t = [ch '}'] then .object []
    else ((readFields t.length t).map Json.object).getD .null

theorem expect_append (literal s : Str) : expect literal (literal ++ s) = some s := by
  rw [expect, if_pos (List.prefix_append _ _), List.drop_left]

theorem expect_cons_of_ne {b c : UInt8} (h : b ≠ c) (literal s : Str) :
    expect (b :: literal) (c :: s) = none := by
  refine if_neg fun hp => h ?_
  exact (List.cons_prefix_cons.1 hp).1

theorem readValue_writeValue {v : Json} (h : v.IsPlain) (t : Str) :
    readValue (writeValue v ++ t) = some (v, t) := by
  cases v with
  | string value =>
    show readValue ([34] ++ (writeString value ++ t)) = _
    rw [readValue, expect_append]
    simp only [readString_writeString, Option.map_some]
  | bool value =>
    cases value with
    | true =>
      have hquote : expect [34] (txt "true" ++ t) = none :=
        expect_cons_of_ne (show (34 : UInt8) ≠ ch 't' by decide) _ _
      show readValue (txt "true" ++ t) = _
      rw [readValue, hquote, expect_append]
    | false =>
      have hquote : expect [34] (txt "false" ++ t) = none :=
        expect_cons_of_ne (show (34 : UInt8) ≠ ch 'f' by decide) _ _
      have htrue : expect (txt "true") (txt "false" ++ t) = none :=
        expect_cons_of_ne (show ch 't' ≠ ch 'f' by decide) _ _
      show readValue (txt "false" ++ t) = _
      rw [readValue, hquote, htrue, expect_append]
      rfl
  | _ => exact absurd h not_false

theorem readField_writeField {f : Str × Json} (h : f.2.IsPlain) (t : Str) :
    readField (writeField f ++ t) = some (f, t) := by
  have htext : writeField f ++ t =
      [34] ++ (writeString f.1 ++ (txt ": " ++ (writeValue f.2 ++ t))) := by
    simp [writeField]
  rw [readField, htext, expect_append]
  simp only [Option.bind_eq_bind, Option.bind_some, readString_writeString, expect_append,
    readValue_writeValue h]
  rfl

/-- **The fields of an object are read back.** -/
theorem readFields_writeFields {fields : List (Str × Json)} (hne : fields ≠ [])
    (h : ∀ f ∈ fields, f.2.IsPlain) {n : ℕ} (hn : fields.length ≤ n) :
    readFields n (writeFields fields ++ [ch '}']) = some fields := by
  induction fields generalizing n with
  | nil => exact absurd rfl hne
  | cons f fields ih =>
    obtain ⟨n, rfl⟩ := Nat.exists_eq_add_of_lt (Nat.lt_of_lt_of_le (by simp) hn : 0 < n)
    rw [Nat.zero_add] at hn ⊢
    have hf := h f (List.mem_cons_self ..)
    cases fields with
    | nil =>
      have htext : writeFields [f] ++ [ch '}'] = writeField f ++ [ch '}'] := by
        simp [writeFields]
      rw [readFields, htext, readField_writeField hf, Option.bind_some, if_pos rfl]
    | cons g fields =>
      have htext : writeFields (f :: g :: fields) ++ [ch '}'] =
          writeField f ++ (txt ", " ++ (writeFields (g :: fields) ++ [ch '}'])) := by
        simp [writeFields, List.intercalate_cons_cons]
      have hmore : txt ", " ++ (writeFields (g :: fields) ++ [ch '}']) ≠ [ch '}'] := by
        intro hc
        exact absurd (List.cons.inj hc).1 (by decide)
      rw [readFields, htext, readField_writeField hf, Option.bind_some, if_neg hmore,
        expect_append, Option.bind_some,
        ih (by simp) (fun x hx => h x (List.mem_cons_of_mem _ hx)) (by simpa using hn),
        Option.map_some]

theorem length_le_writeFields (fields : List (Str × Json)) :
    fields.length ≤ (writeFields fields).length := by
  induction fields with
  | nil => simp
  | cons f fields ih =>
    cases fields with
    | nil => simp [writeFields, writeField]
    | cons g fields =>
      have htext : writeFields (f :: g :: fields) =
          writeField f ++ (txt ", " ++ writeFields (g :: fields)) := by
        simp [writeFields, List.intercalate_cons_cons]
      have hcomma : (txt ", ").length = 2 := rfl
      rw [htext, List.length_append, List.length_append, hcomma, List.length_cons]
      omega

/-- **What is written is read back.** -/
theorem readObject_writeObject {fields : List (Str × Json)} (h : ∀ f ∈ fields, f.2.IsPlain) :
    readObject (writeObject fields) = .object fields := by
  have htext : writeObject fields = [ch '{'] ++ (writeFields fields ++ [ch '}']) := rfl
  rw [readObject, htext, expect_append]
  cases fields with
  | nil => rfl
  | cons f fields =>
    have hlength := length_le_writeFields (f :: fields)
    have hmore : writeFields (f :: fields) ++ [ch '}'] ≠ [ch '}'] := by
      intro hc
      have := congrArg List.length hc
      simp only [List.length_append, List.length_cons] at this hlength
      omega
    have hfuel : (f :: fields).length ≤ (writeFields (f :: fields) ++ [ch '}']).length := by
      rw [List.length_append]
      omega
    simp only [if_neg hmore, readFields_writeFields (List.cons_ne_nil f fields) h hfuel]
    rfl

theorem le_of_mem_writeField {f : Str × Json} (h : f.2.IsPlain) {c : UInt8}
    (hc : c ∈ writeField f) : 32 ≤ c := by
  have hvalue : ∀ c ∈ writeValue f.2, 32 ≤ c := by
    intro c hc
    cases hv : f.2 with
    | string value =>
      rw [hv] at hc
      rcases List.mem_cons.1 hc with rfl | hc
      · decide
      · exact le_of_mem_writeString hc
    | bool value =>
      rw [hv] at hc
      revert c
      cases value <;> decide +kernel
    | _ =>
      rw [hv] at h
      exact absurd h not_false
  have hcolon : ∀ c ∈ txt ": ", 32 ≤ c := by decide +kernel
  rcases List.mem_append.1 hc with hc | hc
  · rcases List.mem_append.1 hc with hc | hc
    · rcases List.mem_cons.1 hc with rfl | hc
      · decide
      · exact le_of_mem_writeString hc
    · exact hcolon c hc
  · exact hvalue c hc

/-- **No control byte is written.** -/
theorem le_of_mem_writeFields {fields : List (Str × Json)} (h : ∀ f ∈ fields, f.2.IsPlain)
    {c : UInt8} (hc : c ∈ writeFields fields) : 32 ≤ c := by
  have hcomma : ∀ c ∈ txt ", ", 32 ≤ c := by decide +kernel
  induction fields with
  | nil => exact absurd hc List.not_mem_nil
  | cons f fields ih =>
    have hf := h f (List.mem_cons_self ..)
    cases fields with
    | nil =>
      have htext : writeFields [f] = writeField f := by simp [writeFields]
      rw [htext] at hc
      exact le_of_mem_writeField hf hc
    | cons g fields =>
      have htext : writeFields (f :: g :: fields) =
          writeField f ++ (txt ", " ++ writeFields (g :: fields)) := by
        simp [writeFields, List.intercalate_cons_cons]
      rw [htext] at hc
      rcases List.mem_append.1 hc with hc | hc
      · exact le_of_mem_writeField hf hc
      · rcases List.mem_append.1 hc with hc | hc
        · exact hcomma c hc
        · exact ih (fun x hx => h x (List.mem_cons_of_mem _ hx)) hc

end Text
