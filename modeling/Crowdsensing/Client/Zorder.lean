import Crowdsensing.Client.Blocking

/-!
# Cells of the map

A location is the digit 3 and one digit from 0 to 3 for each bit of the two coordinates of its
cell, most significant first; `manager.js` takes the number 30000 off and decodes the text of
what is left.

* `Client.cellCode` — the digits of a cell.
* `Client.convertZordertoXY_step` — one more digit doubles both coordinates and adds its bits.
* `Client.onMap_digits` — which locations lie on the map.
* `Client.zorder_decoding` — **decoding undoes the interleaving for any number of digits**,
  leading zeros or not, so a reply for a location marks its cell of the map and no other.
-/

namespace Crowdsensing

open Text

/-! ## Numbers as text -/

/-- One code unit for each byte. -/
def unitsOf (s : Str) : JsString := s.map fun b => UInt16.ofNat b.toNat

/-- `String(n)`. -/
def numberText (n : ℕ) : JsString := unitsOf (decimal n)

/-- The documented behaviour of `parseInt` and of number texts: decimal digits are read as the
number they stand for, and below 2⁵³ numbers are exact and written in decimal. -/
def Browser.NumbersDocumented (browser : Browser) : Prop :=
  ∀ s : Str, s ≠ [] → (∀ b ∈ s, isDigit b = true) → 30000 ≤ decimalValue s →
    decimalValue s < 2 ^ 53 → browser.zorderText (unitsOf s) = numberText (decimalValue s - 30000)

namespace Client

/-! ## The code of a cell -/

/-- The digit for one bit of each coordinate. -/
def cellDigit (x y bit : ℕ) : ℕ := 2 * (y.testBit bit).toNat + (x.testBit bit).toNat

/-- The digits for the lowest `n` bits of the coordinates, most significant first. -/
def cellCode (n x y : ℕ) : Str := (List.range n).map fun i => digitByte (cellDigit x y (n - 1 - i))

theorem cellDigit_lt (x y bit : ℕ) : cellDigit x y bit < 4 := by
  have hx := Bool.toNat_lt (x.testBit bit)
  have hy := Bool.toNat_lt (y.testBit bit)
  unfold cellDigit
  omega

theorem length_cellCode (n x y : ℕ) : (cellCode n x y).length = n := by
  simp [cellCode]

/-- The last digit is for the lowest bits. -/
theorem cellCode_succ (n x y : ℕ) :
    cellCode (n + 1) x y = cellCode n (x / 2) (y / 2) ++ [digitByte (2 * (y % 2) + x % 2)] := by
  have hlow : ∀ i ∈ List.range n, digitByte (cellDigit x y (n + 1 - 1 - i)) =
      digitByte (cellDigit (x / 2) (y / 2) (n - 1 - i)) := by
    intro i hi
    have hlt := List.mem_range.1 hi
    have hbit : n + 1 - 1 - i = n - 1 - i + 1 := by omega
    unfold cellDigit
    rw [hbit, Nat.testBit_succ, Nat.testBit_succ]
  have hlast : cellDigit x y 0 = 2 * (y % 2) + x % 2 := by
    unfold cellDigit
    rw [Nat.toNat_testBit, Nat.toNat_testBit, Nat.pow_zero, Nat.div_one, Nat.div_one]
  rw [cellCode, List.range_succ, List.map_append, List.map_congr_left hlow, ← hlast]
  simp [cellCode]

/-- The number the code stands for, one digit longer. -/
theorem decimalValue_cellCode_succ (n x y : ℕ) :
    decimalValue (cellCode (n + 1) x y) =
      10 * decimalValue (cellCode n (x / 2) (y / 2)) + (2 * (y % 2) + x % 2) := by
  rw [cellCode_succ, decimalValue_concat _ (by omega)]

/-! ## Decoding -/

theorem bitAt_digitByte {d : ℕ} (hd : d < 4) :
    bitAt (UInt16.ofNat (digitByte d).toNat) 1 = d % 2 ∧
      bitAt (UInt16.ofNat (digitByte d).toNat) 0 = d / 2 := by
  interval_cases d <;> decide

/-- **One more digit doubles both coordinates and adds its bits.** -/
theorem convertZordertoXY_step (m : ℕ) {d : ℕ} (hd : d < 4) :
    convertZordertoXY (numberText (10 * m + d)) =
      ((convertZordertoXY (numberText m)).1 * 2 + d % 2,
        (convertZordertoXY (numberText m)).2 * 2 + d / 2) := by
  obtain ⟨hx, hy⟩ := bitAt_digitByte hd
  unfold convertZordertoXY numberText unitsOf
  simp only [List.foldl_map]
  rw [foldl_decimal _ (by decide) m (by omega), foldl_decimal _ (by decide) m (by omega), hx, hy]

/-- **Decoding undoes the interleaving**, by induction on the number of digits. -/
theorem convertZordertoXY_cellCode (n : ℕ) {x y : ℕ} (hx : x < 2 ^ n) (hy : y < 2 ^ n) :
    convertZordertoXY (numberText (decimalValue (cellCode n x y))) = (x, y) := by
  induction n generalizing x y with
  | zero =>
    obtain rfl : x = 0 := by simpa using hx
    obtain rfl : y = 0 := by simpa using hy
    decide
  | succ n ih =>
    have hpow : 2 ^ (n + 1) = 2 * 2 ^ n := Nat.pow_succ'
    rw [decimalValue_cellCode_succ, convertZordertoXY_step _ (by omega),
      ih (by omega : x / 2 < 2 ^ n) (by omega : y / 2 < 2 ^ n), Prod.mk.injEq]
    omega

/-- **Distinct cells have distinct codes.** -/
theorem eq_of_cellCode {n x y x' y' : ℕ} (hx : x < 2 ^ n) (hy : y < 2 ^ n) (hx' : x' < 2 ^ n)
    (hy' : y' < 2 ^ n)
    (h : decimalValue (cellCode n x y) = decimalValue (cellCode n x' y')) : (x, y) = (x', y') := by
  rw [← convertZordertoXY_cellCode n hx hy, h, convertZordertoXY_cellCode n hx' hy']

/-! ## From a location to the map -/

theorem isDigit_cellCode {n x y : ℕ} {b : UInt8} (h : b ∈ cellCode n x y) : isDigit b = true := by
  obtain ⟨i, -, rfl⟩ := List.mem_map.1 h
  have hlt := cellDigit_lt x y (n - 1 - i)
  exact isDigit_digitByte (by omega)

/-- What is left of a location when 30000 is taken off. -/
theorem zorderText_location {browser : Browser} (hdoc : browser.NumbersDocumented) (x y : ℕ) :
    browser.zorderText (unitsOf (ch '3' :: cellCode 4 x y)) =
      numberText (decimalValue (cellCode 4 x y)) := by
  have hdigits : ∀ b ∈ ch '3' :: cellCode 4 x y, isDigit b = true := by
    intro b hb
    rcases List.mem_cons.1 hb with rfl | hb
    · decide
    · exact isDigit_cellCode hb
  have hvalue : decimalValue (ch '3' :: cellCode 4 x y) =
      30000 + decimalValue (cellCode 4 x y) := by
    rw [decimalValue_cons, length_cellCode]
    rfl
  have hlt := decimalValue_lt fun b (hb : b ∈ cellCode 4 x y) => isDigit_cellCode hb
  rw [length_cellCode] at hlt
  have hread := hdoc _ (List.cons_ne_nil _ _) hdigits (by omega) (by omega)
  rwa [hvalue, Nat.add_sub_cancel_left] at hread

section

variable {browser : Browser}

/-- **Which locations are on the map**: of a location written in digits, from 30000 on, what is
left when 30000 is taken off has no 2, 3, 6 or 7 before its last four digits. -/
theorem onMap_digits (hdoc : browser.NumbersDocumented) {s : Str} (hne : s ≠ [])
    (hdigits : ∀ b ∈ s, isDigit b = true) (hlow : 30000 ≤ decimalValue s)
    (hhigh : decimalValue s < 2 ^ 53) :
    OnMap (browser.zorderText (unitsOf s)) ↔
      ∀ b ∈ (decimal (decimalValue s - 30000)).rdrop 4, b ∉ txt "2367" := by
  have hunit : ∀ b : UInt8, UInt16.ofNat b.toNat ∈ js "2367" ↔ b ∈ txt "2367" := by decide +kernel
  rw [hdoc s hne hdigits hlow hhigh, OnMap, numberText, unitsOf, List.rdrop, List.length_map,
    ← List.map_take, List.forall_mem_map]
  exact forall₂_congr fun b _ => not_congr (hunit b)

variable (browser) in
theorem cellsArray_foldl (texts : List JsString) (c : Client) :
    (texts.foldl (insert browser) c).cellsArray = c.cellsArray := by
  induction texts generalizing c with
  | nil => rfl
  | cons text texts ih => exact ih _

/-- The mark of a reply. -/
def markOf (r : Result) : ℕ := if r.isFound then 1 else 2

/-- Showing the reply marks this cell, and no other, on any map of sixteen rows. -/
def MarksCell (browser : Browser) (r : Result) (x y : ℕ) : Prop :=
  ∀ c : Client, c.cellsArray.length = 16 → r.target ∈ c.page ++ browser.elementsOf (statusLine r) →
    ∃ c' row, c.showResult browser r = .returned c' ∧ c.cellsArray[y]? = some row ∧
      c'.cellsArray = c.cellsArray.set y (Function.update row x (markOf r))

theorem marksCell_of_decoded {r : Result} {x y : ℕ} (hy : y < 16)
    (h : convertZordertoXY (browser.zorderText r.location) = (x, y)) :
    MarksCell browser r x y := by
  intro c hrows hmem
  have hrow : c.cellsArray[y]? = some c.cellsArray[y] := List.getElem?_eq_getElem (by omega)
  set shown := (targetTexts browser r).foldl (insert browser)
    (c.printLine browser (statusLine r)) with hshown
  have hcells : shown.cellsArray = c.cellsArray := cellsArray_foldl browser _ _
  refine ⟨{ shown with cellsArray := c.cellsArray.set y (Function.update c.cellsArray[y] x
    (markOf r)) }, c.cellsArray[y], ?_, hrow, rfl⟩
  have hmark : shown.markingXY x y r.isFound = some { shown with
      cellsArray := c.cellsArray.set y (Function.update c.cellsArray[y] x (markOf r)) } := by
    unfold markingXY
    rw [hcells, hrow]
    rfl
  change r.target ∈ (c.printLine browser (statusLine r)).page at hmem
  unfold showResult
  simp only [if_pos hmem, h, ← hshown, hmark]

/-- A Data packet leaves the map its rows. -/
theorem rows_onData (c : Client) (content : Str) :
    (c.onData browser content).client.cellsArray.length = c.cellsArray.length := by
  unfold onData
  simp only
  split
  · rfl
  · rename_i rs hparse
    have hprint := sameRequests_insert browser c (js "Payload: " ++ browser.toString content)
    rcases showResults_spec browser rs
      (c.printLine browser (js "Payload: " ++ browser.toString content)) with
        ⟨-, c', hc', hsame⟩ | ⟨-, c', hc', hsame⟩
    · rw [hc']
      exact (hprint.trans hsame).rows
    · rw [hc']
      exact (hprint.trans hsame).rows

/-- **The map keeps its sixteen rows**: no event changes their number. -/
theorem rows_step {lib : Externals} {c c' : Client} {e : PageEvent}
    (h : c.step lib browser e = some c') : c'.cellsArray.length = c.cellsArray.length := by
  cases e with
  | tick =>
    rw [← Option.some.inj h]
    rcases sendRequest_eq browser c with ⟨hsame, -⟩ | ⟨-, -, -, -, hcells⟩
    · rw [hsame]
    · rw [hcells]
  | registerTarget target name =>
    rw [← Option.some.inj h]
    rfl
  | data position replies =>
    obtain ⟨-, rfl⟩ := step_data.1 h
    exact rows_onData _ _
  | timeout position =>
    obtain ⟨-, rfl⟩ := step_timeout.1 h
    rfl

theorem rows_run (lib : Externals) (events : List PageEvent) (c : Client)
    (h : Runs.exec (step lib browser) start events = some c) : c.cellsArray.length = 16 :=
  Runs.history (P := fun _ (c : Client) => c.cellsArray.length = 16) rfl
    (fun _ _ _ _ _ hc hstep => (rows_step hstep).trans hc) events c h

end

/-- **Z-order decoding is the inverse of bit interleaving.**  For every number of digits and
every cell, decoding the number its digits stand for gives the cell; distinct cells have
distinct numbers; and a reply for the location that is written 3 and the four digits of a cell
marks just that cell, inside the map, whose sixteen rows are there in every run. -/
theorem zorder_decoding {n x y : ℕ} (hx : x < 2 ^ n) (hy : y < 2 ^ n) :
    convertZordertoXY (numberText (decimalValue (cellCode n x y))) = (x, y) ∧
      (∀ x' y', x' < 2 ^ n → y' < 2 ^ n → (x', y') ≠ (x, y) →
        decimalValue (cellCode n x' y') ≠ decimalValue (cellCode n x y)) ∧
      (n = 4 → ∀ browser : Browser, browser.NumbersDocumented → ∀ r : Result,
        r.location = unitsOf (ch '3' :: cellCode n x y) →
          x < 16 ∧ y < 16 ∧ MarksCell browser r x y ∧
          ∀ (lib : Externals) (events : List PageEvent) (c : Client),
            Runs.exec (step lib browser) start events = some c → c.cellsArray.length = 16) := by
  refine ⟨convertZordertoXY_cellCode n hx hy, fun x' y' hx' hy' hne h => ?_, ?_⟩
  · exact hne (eq_of_cellCode hx' hy' hx hy h)
  · rintro rfl browser hdoc r hlocation
    refine ⟨hx, hy, marksCell_of_decoded hy ?_, rows_run⟩
    rw [hlocation, zorderText_location hdoc, convertZordertoXY_cellCode 4 hx hy]

/-- The reference browser reads decimal digits. -/
theorem referenceBrowser_numbers : referenceBrowser.NumbersDocumented := by
  intro s _ _ _ _
  have hread : (unitsOf s).foldl (fun n c => 10 * n + (c.toNat - 48)) 0 = decimalValue s := by
    simp only [unitsOf, List.foldl_map, toNat_unit]
    rfl
  change unitsOf (decimal ((unitsOf s).foldl (fun n c => 10 * n + (c.toNat - 48)) 0 - 30000)) = _
  rw [hread]
  rfl

/-- The first location of the client's page. -/
theorem zorder_decoding_page : convertZordertoXY (numberText 321) = (5, 6) ∧
    MarksCell referenceBrowser (referenceBrowser.result (personAt (txt "30321"))) 5 6 := by
  have h := zorder_decoding (n := 4) (x := 5) (y := 6) (by decide) (by decide)
  have hcode : decimalValue (cellCode 4 5 6) = 321 := by decide
  rw [hcode] at h
  exact ⟨h.1, (h.2.2 rfl referenceBrowser referenceBrowser_numbers _ (by decide +kernel)).2.2.1⟩

end Client

end Crowdsensing
