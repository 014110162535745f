import Crowdsensing.Text.Percent

/-!
# Byte strings

Byte strings, the decimal text of a number and the percent escapes of a URI.

* `decimal` — the digits of a number, with `decimalValue_decimal`, `decimal_injective`
  and `isDigit_of_mem_decimal`; `foldl_decimal` — **a loop over the digits of a number**
  goes digit by digit, whether or not leading zeros are written.
* `uriEscape`, `uriUnescape` — every byte other than a letter, a digit and
  `-._~` is written `%XY` with two upper-case hexadecimal digits, and read back;
  `uriUnescape_flatMap` is the round trip, for texts of which any part is escaped.
-/

namespace Text

/-- A byte string. -/
abbrev Str := List UInt8

/-- The instance that decides membership in a list of byte strings. -/
instance : LawfulBEq Str := inferInstance

/-- The byte of an ASCII character. -/
def ch (c : Char) : UInt8 := c.toUInt8

/-- The bytes of an ASCII literal. -/
def txt (s : String) : Str := s.toList.map Char.toUInt8

/-! ## Letters and digits -/

/-- `0` to `9`. -/
def isDigit (b : UInt8) : Bool := decide (48 ≤ b.toNat ∧ b.toNat ≤ 57)

/-- `A` to `Z` and `a` to `z`. -/
def isLetter (b : UInt8) : Bool :=
  decide (65 ≤ b.toNat ∧ b.toNat ≤ 90) || decide (97 ≤ b.toNat ∧ b.toNat ≤ 122)

/-- A letter or a digit. -/
def isAlnum (b : UInt8) : Bool := isLetter b || isDigit b

/-! ## Decimal numbers -/

/-- The decimal text of a number. -/
def decimal (n : ℕ) : Str := (Nat.toDigits 10 n).map Char.toUInt8

theorem toNat_toUInt8_of_isDigit {c : Char} (h : c.isDigit = true) : c.toUInt8.toNat = c.toNat := by
  rw [Char.isDigit] at h
  have hc : c.toNat ≤ 57 := by
    simp only [Bool.and_eq_true, decide_eq_true_eq] at h
    exact h.2
  show c.val.toNat % 256 = c.toNat
  exact Nat.mod_eq_of_lt (by change c.toNat < 256; omega)

theorem isDigit_of_mem_decimal {n : ℕ} {b : UInt8} (h : b ∈ decimal n) : isDigit b = true := by
  obtain ⟨c, hc, rfl⟩ := List.mem_map.1 h
  have hd := Nat.isDigit_of_mem_toDigits (by decide) (by decide) hc
  rw [isDigit, toNat_toUInt8_of_isDigit hd]
  simp only [Char.isDigit, Bool.and_eq_true, decide_eq_true_eq] at hd
  exact decide_eq_true ⟨hd.1, hd.2⟩

theorem isAlnum_of_mem_decimal {n : ℕ} {b : UInt8} (h : b ∈ decimal n) : isAlnum b = true := by
  rw [isAlnum, isDigit_of_mem_decimal h, Bool.or_true]

theorem not_mem_decimal {b : UInt8} (h : isDigit b = false) (n : ℕ) : b ∉ decimal n := fun hb => by
  rw [isDigit_of_mem_decimal hb] at h
  exact absurd h (by decide)

/-- The number a decimal text stands for. -/
def decimalValue (s : Str) : ℕ := s.foldl (fun n b => 10 * n + (b.toNat - 48)) 0

/-- **The decimal text of a number stands for it.** -/
theorem decimalValue_decimal (n : ℕ) : decimalValue (decimal n) = n := by
  have hfold : ∀ (l : List Char) (m : ℕ), (∀ c ∈ l, c.isDigit = true) →
      (l.map Char.toUInt8).foldl (fun n b => 10 * n + (b.toNat - 48)) m =
        Nat.ofDigitChars 10 l m := by
    intro l
    induction l with
    | nil => intro m _; rfl
    | cons c l ih =>
      intro m hl
      rw [List.map_cons, List.foldl_cons, Nat.ofDigitChars_cons,
        ih _ fun x hx => hl x (List.mem_cons_of_mem _ hx),
        toNat_toUInt8_of_isDigit (hl c List.mem_cons_self)]
      rfl
  exact (hfold _ 0 fun c hc => Nat.isDigit_of_mem_toDigits (by decide) (by decide) hc).trans
    Nat.ofDigitChars_ten_toDigits

/-- Different numbers have different decimal texts. -/
theorem decimal_injective : Function.Injective decimal :=
  Function.LeftInverse.injective decimalValue_decimal

theorem decimal_ne_nil (n : ℕ) : decimal n ≠ [] := by
  simp [decimal, Nat.toDigits_ne_nil]

/-- The digit of a number below ten. -/
def digitByte (d : ℕ) : UInt8 := UInt8.ofNat (48 + d)

theorem decimal_of_lt {d : ℕ} (hd : d < 10) : decimal d = [digitByte d] := by
  rw [decimal, Nat.toDigits_of_lt_base hd]
  interval_cases d <;> rfl

/-- **A loop over the digits of a number**, one digit longer.  A leading zero leaves the loop
where it starts. -/
theorem foldl_decimal {β : Type*} (f : β → UInt8 → β) {b : β} (hzero : f b (digitByte 0) = b)
    (m : ℕ) {d : ℕ} (hd : d < 10) :
    (decimal (10 * m + d)).foldl f b = f ((decimal m).foldl f b) (digitByte d) := by
  rcases Nat.eq_zero_or_pos m with rfl | hm
  · have hdigit : decimal (10 * 0 + d) = [digitByte d] := by
      rw [Nat.mul_zero, Nat.zero_add, decimal_of_lt hd]
    rw [hdigit, decimal_of_lt (by decide)]
    simp [hzero]
  · have happend : decimal (10 * m + d) = decimal m ++ decimal d := by
      unfold decimal
      rw [← List.map_append, Nat.toDigits_append_toDigits (by decide) hm hd]
    rw [happend, decimal_of_lt hd, List.foldl_append]
    rfl

theorem digitByte_toNat {d : ℕ} (hd : d < 10) : (digitByte d).toNat - 48 = d := by
  interval_cases d <;> rfl

theorem isDigit_digitByte {d : ℕ} (hd : d < 10) : isDigit (digitByte d) = true := by
  interval_cases d <;> rfl

theorem decimalValue_concat (s : Str) {d : ℕ} (hd : d < 10) :
    decimalValue (s ++ [digitByte d]) = 10 * decimalValue s + d := by
  rw [decimalValue, List.foldl_append]
  simp [decimalValue, digitByte_toNat hd]

/-- What a text of digits adds behind a number. -/
theorem foldl_decimalValue (s : Str) (n : ℕ) :
    s.foldl (fun n b => 10 * n + (b.toNat - 48)) n = n * 10 ^ s.length + decimalValue s := by
  induction s generalizing n with
  | nil => simp [decimalValue]
  | cons b s ih =>
    have hvalue : decimalValue (b :: s) = (b.toNat - 48) * 10 ^ s.length + decimalValue s := by
      rw [decimalValue, List.foldl_cons, ih, Nat.mul_zero, Nat.zero_add]
    rw [List.foldl_cons, ih, hvalue, List.length_cons, Nat.pow_succ]
    ring

theorem decimalValue_cons (b : UInt8) (s : Str) :
    decimalValue (b :: s) = (b.toNat - 48) * 10 ^ s.length + decimalValue s := by
  rw [decimalValue, List.foldl_cons, foldl_decimalValue, Nat.mul_zero, Nat.zero_add]

/-- A text of digits stands for a number of that many digits. -/
theorem decimalValue_lt {s : Str} (h : ∀ b ∈ s, isDigit b = true) :
    decimalValue s < 10 ^ s.length := by
  induction s with
  | nil => simp [decimalValue]
  | cons b s ih =>
    have hrest := ih fun c hc => h c (List.mem_cons_of_mem _ hc)
    have hb := h b List.mem_cons_self
    unfold isDigit at hb
    have hdigit : b.toNat - 48 ≤ 9 := by
      have := of_decide_eq_true hb
      omega
    rw [decimalValue_cons, List.length_cons, Nat.pow_succ]
    nlinarith

/-! ## URI escapes -/

/-- The bytes a URI may hold as they are. -/
def isUnreserved (b : UInt8) : Bool :=
  isAlnum b || b == ch '-' || b == ch '.' || b == ch '_' || b == ch '~'

/-- The upper-case hexadecimal digit of a number below sixteen. -/
def hexDigit (n : ℕ) : UInt8 := UInt8.ofNat (if n < 10 then 48 + n else 55 + n)

/-- The first digit of the escape of a byte. -/
def hexHigh (b : UInt8) : UInt8 := hexDigit (b.toNat / 16)

/-- The second digit of the escape of a byte. -/
def hexLow (b : UInt8) : UInt8 := hexDigit (b.toNat % 16)

/-- The value of a hexadecimal digit, in either case. -/
def hexValue (b : UInt8) : Option ℕ :=
  if 48 ≤ b.toNat ∧ b.toNat ≤ 57 then some (b.toNat - 48)
  else if 65 ≤ b.toNat ∧ b.toNat ≤ 70 then some (b.toNat - 55)
  else if 97 ≤ b.toNat ∧ b.toNat ≤ 102 then some (b.toNat - 87)
  else none

/-- The byte an escape stands for. -/
def hexTable : EscapeTable UInt8 := fun d e =>
  (hexValue d).bind fun v => (hexValue e).map fun w => UInt8.ofNat (16 * v + w)

/-- Percent-escape a text. -/
def uriEscape (s : Str) : Str := escape (ch '%') isUnreserved hexHigh hexLow s

/-- Undo the percent escapes of a text. -/
def uriUnescape (s : Str) : Str := scan (ch '%') hexTable s

theorem hexValue_hexDigit {n : ℕ} (h : n < 16) : hexValue (hexDigit n) = some n := by
  interval_cases n <;> decide

theorem hexTable_hexDigits (b : UInt8) : hexTable (hexHigh b) (hexLow b) = some b := by
  have hb : b.toNat < 256 := UInt8.toNat_lt b
  have hsum : 16 * (b.toNat / 16) + b.toNat % 16 = b.toNat := by omega
  rw [hexTable, hexHigh, hexLow, hexValue_hexDigit (by omega), hexValue_hexDigit (by omega),
    Option.bind_some, Option.map_some, hsum, UInt8.ofNat_toNat]

/-- The digits of an escape are letters or digits. -/
theorem isAlnum_hexDigit {n : ℕ} (h : n < 16) : isAlnum (hexDigit n) = true := by
  interval_cases n <;> decide

theorem isAlnum_hexHigh (b : UInt8) : isAlnum (hexHigh b) = true :=
  isAlnum_hexDigit (by have := UInt8.toNat_lt b; omega)

theorem isAlnum_hexLow (b : UInt8) : isAlnum (hexLow b) = true :=
  isAlnum_hexDigit (by omega)

theorem ne_of_isAlnum {b c : UInt8} (hb : isAlnum b = true) (hc : isAlnum c = false) : b ≠ c := by
  rintro rfl
  rw [hb] at hc
  exact absurd hc (by decide)

theorem isUnreserved_ne_percent {b : UInt8} (h : isUnreserved b = true) : b ≠ ch '%' := by
  rintro rfl
  exact absurd h (by decide)

/-- A text written with each byte either as itself or escaped reads back. -/
theorem uriUnescape_flatMap {piece : UInt8 → Str} {s : Str}
    (h : ∀ b ∈ s, (piece b = [b] ∧ b ≠ ch '%') ∨
      piece b = [ch '%', hexHigh b, hexLow b]) :
    uriUnescape (s.flatMap piece) = s :=
  scan_flatMap_piece fun b hb => (h b hb).imp id fun hp => ⟨_, _, hp, hexTable_hexDigits b⟩

/-- A text without a percent sign has nothing to undo. -/
theorem uriUnescape_of_not_mem {s : Str} (h : ch '%' ∉ s) : uriUnescape s = s := by
  have hread : uriUnescape (s.flatMap fun b => [b]) = s :=
    uriUnescape_flatMap fun b hb => Or.inl ⟨rfl, fun hc => h (hc ▸ hb)⟩
  simpa using hread

end Text
