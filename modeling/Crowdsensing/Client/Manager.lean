import Crowdsensing.Edge.Lifecycle
import Crowdsensing.Text.Lines

/-!
# The browser client

`client/js/main.js`, `client/js/target-manager.js` and `client/js/manager.js`: the page
asks the edge every half second, unless it is still waiting for an answer, and shows the
replies it gets.

* `Client.sendRequest` — the interval tick.
* `Client.onData`, `Client.onTimeout` — the two ways a request ends; an exception ends a
  handler where it is thrown (`Ending`).
* `Client.row_lt_iff` — which texts of numbers lie in the first rows.
* `Client.CanShow` — what a reply needs: the page has an element for its target and the map
  a row for its location.
* `Client.showResults_spec` — **the replies are shown exactly if each has what it needs.**
-/

namespace Crowdsensing

open Text

/-! ## The browser -/

/-- A string of the browser: its UTF-16 code units. -/
abbrev JsString := List UInt16

/-- The code units of an ASCII literal. -/
def js (s : String) : JsString := s.toList.map fun c => UInt16.ofNat c.toNat

/-- A byte is its own code unit. -/
theorem toNat_unit (b : UInt8) : (UInt16.ofNat b.toNat).toNat = b.toNat := by
  have hlt : b.toNat < 256 := UInt8.toNat_lt b
  exact Nat.mod_eq_of_lt (by omega)

/-- What `onData` reads of a line that `JSON.parse` has read. -/
structure Result where
  isFound : Bool
  target : JsString
  location : JsString
  time : JsString
  deriving DecidableEq, Repr

/-- The functions of the browser and of ndn-js the page calls. -/
structure Browser where
  /-- `DataUtils.toString`. -/
  toString : Str → JsString
  /-- `JSON.parse`: `none` where it throws. -/
  parse : JsString → Option Result
  /-- What `JSON.parse` makes of a string that json11 wrote. -/
  readText : Str → JsString
  /-- `JSON.stringify` of an object with a target. -/
  stringify : JsString → JsString
  /-- The text of `Number(location)`. -/
  number : JsString → JsString
  /-- The text of `parseInt(location, 10) - 30000`; the numbers are floating-point. -/
  zorderText : JsString → JsString
  /-- The ids of the elements that a text brings into the page it is inserted in as HTML. -/
  elementsOf : JsString → List JsString

/-- What a reply is for the page. -/
def Browser.result (browser : Browser) (r : Reply) : Result where
  isFound := r.isFound
  target := browser.readText r.target
  location := browser.readText r.location
  time := browser.readText r.time

/-- The documented behaviour of these functions: one character for each byte of a packet; an
empty text is not JSON; and a text that json11 wrote is read back field by field. -/
structure Browser.Documented (lib : Externals) (browser : Browser) : Prop where
  /-- A packet is read byte by byte. -/
  toString_eq : ∀ s, browser.toString s = s.map fun b => UInt16.ofNat b.toNat
  /-- The empty text is not JSON. -/
  parse_nil : browser.parse [] = none
  /-- A reply is read. -/
  parse_encode : ∀ r, browser.parse (browser.toString (encode lib r)) = some (browser.result r)

/-! ## The page -/

/-- The elements of `index.html` that have an id. -/
def indexHtml : List JsString :=
  [js "target", js "name", js "button_1", js "receiveLog", js "targetList", js "sendLog",
    js "cells"]

/-- The page, with its global variables and the `TargetManager`. -/
structure Client where
  isFinding : Bool := false
  target : JsString := []
  cd : JsString := js "/icn2020/edge/#f:detect/#a:[30321,33212] #a:[person]"
  /-- `cellsArray`: a mark for each column of each of its rows. -/
  cellsArray : List (ℕ → ℕ) := List.replicate 16 fun _ => 0
  /-- The ids of the elements of the page. -/
  page : List JsString := indexHtml
  /-- The Interests that are neither answered nor timed out. -/
  outstanding : List JsString := []

/-- How a handler ends; an exception leaves what was done before it. -/
inductive Ending
  | returned (c : Client)
  | thrown (c : Client)

/-- What a handler leaves. -/
def Ending.client : Ending → Client
  | .returned c => c
  | .thrown c => c

namespace Client

variable (browser : Browser)

/-- Insert a text in the page. -/
def insert (c : Client) (html : JsString) : Client :=
  { c with page := c.page ++ browser.elementsOf html }

/-- `printStatus` and `printLine2`; the time and the line breaks around a line bring no
elements. -/
def printLine (c : Client) (line : JsString) : Client := c.insert browser line

/-! ## Requests -/

/-- `TargetManager.sendInterest`. -/
def sendInterest (c : Client) (name : JsString) : Client :=
  let c := c.printLine browser (js "Sent request of name: " ++ name ++ js ", target: " ++ c.target
    ++ js ", parameter: " ++ browser.stringify c.target)
  { c with outstanding := c.outstanding ++ [name] }

/-- `TargetManager.sendRequest`, called at each interval. -/
def sendRequest (c : Client) : Client :=
  if c.target ≠ [] then
    if c.isFinding = false then { c with isFinding := true }.sendInterest browser c.cd else c
  else c

/-- `RegisterTarget`, with what stands in the two input fields. -/
def registerTarget (c : Client) (target name : JsString) : Client :=
  { c with target := target, cd := name }.insert browser
    (js "<p id=\"" ++ target ++ js "\">" ++ js "\n[" ++ target ++ js "] Finding..." ++ js "</p>")

/-- `onTimeout`. -/
def onTimeout (c : Client) : Client :=
  { c.printLine browser (js "Request Timeout") with isFinding := false }

/-! ## The map -/

/-- `parseInt` of one character: `none` for `NaN`. -/
def parseDigit (c : UInt16) : Option ℕ :=
  if 48 ≤ c.toNat ∧ c.toNat ≤ 57 then some (c.toNat - 48) else none

/-- `( '00' + digit.toString(2) ).slice( -2 )`. -/
def zorderBin (c : UInt16) : JsString :=
  let text := js "00" ++ match parseDigit c with
    | some digit => (Nat.toDigits 2 digit).map fun c => UInt16.ofNat c.toNat
    | none => js "NaN"
  text.drop (text.length - 2)

/-- A character of `zorderBin` as a bit: it is compared with the number 1. -/
def bitAt (c : UInt16) (position : ℕ) : ℕ :=
  if (zorderBin c)[position]? = some 49 then 1 else 0

/-- `convertZordertoXY`, of the text of a number. -/
def convertZordertoXY (zorder : JsString) : ℕ × ℕ :=
  (zorder.foldl (fun x c => x * 2 + bitAt c 1) 0, zorder.foldl (fun y c => y * 2 + bitAt c 0) 0)

/-- `markingXY`: `none` where the map has no such row.  `draw` only shows the map. -/
def markingXY (c : Client) (x y : ℕ) (isFound : Bool) : Option Client :=
  match c.cellsArray[y]? with
  | none => none
  | some row =>
    some { c with
      cellsArray := c.cellsArray.set y (Function.update row x (if isFound then 1 else 2)) }

/-! ## Replies -/

/-- The status line of a reply. -/
def statusLine (r : Result) : JsString :=
  js "[" ++ r.target ++ if r.isFound then js "]Target Found!" else js "]Target Not Found"

/-- The texts a reply adds to the element of its target. -/
def targetTexts (r : Result) : List JsString :=
  [js "[" ++ r.target ++ (if r.isFound then js "]: Found" else js "]: Not Found"),
    js "<br>Location: " ++ browser.number r.location,
    js "<br>Time: " ++ r.time ++ js "<br><br>"]

/-- One round of the second loop of `onData`.  `getElementById` is null where the page has no
element of that id. -/
def showResult (c : Client) (r : Result) : Ending :=
  let c := c.printLine browser (statusLine r)
  if r.target ∈ c.page then
    let c := (targetTexts browser r).foldl (insert browser) c
    let cell := convertZordertoXY (browser.zorderText r.location)
    match c.markingXY cell.1 cell.2 r.isFound with
    | none => .thrown c
    | some c => .returned c
  else .thrown c

/-- The second loop of `onData`. -/
def showResults : List Result → Client → Ending
  | [], c => .returned c
  | r :: rs, c =>
    match c.showResult browser r with
    | .thrown c => .thrown c
    | .returned c => showResults rs c

/-- The characters `trim` takes off. -/
def isBlank (c : UInt16) : Bool :=
  let n := c.toNat
  (9 ≤ n ∧ n ≤ 13) ∨ n = 32 ∨ n = 160 ∨ n = 5760 ∨ (8192 ≤ n ∧ n ≤ 8202) ∨ n = 8232 ∨ n = 8233 ∨
    n = 8239 ∨ n = 8287 ∨ n = 12288 ∨ n = 65279

/-- `onData`. -/
def onData (c : Client) (content : Str) : Ending :=
  let payload := browser.toString content
  let stringContentArray := splitLines 13 10 (trim isBlank payload)
  match stringContentArray.mapM browser.parse with
  | none => .thrown c
  | some resultJsonObject =>
    match showResults browser resultJsonObject (c.printLine browser (js "Payload: " ++ payload)) with
    | .thrown c => .thrown c
    | .returned c => .returned { c with isFinding := false }

/-! ## Steps -/

/-- The Data of an edge for these replies. -/
def contentOf (lib : Externals) (replies : List Reply) : Str :=
  collected (replies.map (encode lib))

end Client

/-- What can happen to the page.  A Data packet or a timeout ends one of the outstanding
Interests. -/
inductive PageEvent
  | tick
  | registerTarget (target name : JsString)
  | data (position : ℕ) (replies : List Reply)
  | timeout (position : ℕ)

/-- A Data packet or a timeout. -/
def PageEvent.EndsRequest : PageEvent → Prop
  | .data _ _ => True
  | .timeout _ => True
  | _ => False

namespace Client

/-- One of the Interests is outstanding no more. -/
def settle (c : Client) (position : ℕ) : Client :=
  { c with outstanding := c.outstanding.eraseIdx position }

/-- One event: `none` if it cannot happen. -/
def step (lib : Externals) (browser : Browser) (c : Client) : PageEvent → Option Client
  | .tick => some (c.sendRequest browser)
  | .registerTarget target name => some (c.registerTarget browser target name)
  | .data position replies =>
    if position < c.outstanding.length then
      some ((c.settle position).onData browser (contentOf lib replies)).client
    else none
  | .timeout position =>
    if position < c.outstanding.length then some ((c.settle position).onTimeout browser) else none

/-- A Data packet comes for one of the Interests that are outstanding. -/
theorem step_data {lib : Externals} {browser : Browser} {c c' : Client} {position : ℕ}
    {replies : List Reply} : c.step lib browser (.data position replies) = some c' ↔
      position < c.outstanding.length ∧
        ((c.settle position).onData browser (contentOf lib replies)).client = c' := by
  rw [step, Option.ite_none_right_eq_some, Option.some.injEq]

/-- So does a timeout. -/
theorem step_timeout {lib : Externals} {browser : Browser} {c c' : Client} {position : ℕ} :
    c.step lib browser (.timeout position) = some c' ↔
      position < c.outstanding.length ∧ (c.settle position).onTimeout browser = c' := by
  rw [step, Option.ite_none_right_eq_some, Option.some.injEq]

/-- The page after `main`. -/
def start : Client := {}

/-! ## What a handler leaves alone -/

/-- The two states have the same requests, and the map has as many rows. -/
structure SameRequests (c c' : Client) : Prop where
  isFinding : c'.isFinding = c.isFinding
  target : c'.target = c.target
  cd : c'.cd = c.cd
  outstanding : c'.outstanding = c.outstanding
  rows : c'.cellsArray.length = c.cellsArray.length

theorem SameRequests.trans {c c' c'' : Client} (h : SameRequests c c')
    (h' : SameRequests c' c'') : SameRequests c c'' :=
  ⟨h'.isFinding.trans h.isFinding, h'.target.trans h.target, h'.cd.trans h.cd,
    h'.outstanding.trans h.outstanding, h'.rows.trans h.rows⟩

section

variable {browser : Browser} {c c' : Client}

variable (browser) in
theorem sameRequests_insert (c : Client) (html : JsString) :
    SameRequests c (c.insert browser html) := ⟨rfl, rfl, rfl, rfl, rfl⟩

variable (browser) in
theorem sameRequests_foldl (texts : List JsString) (c : Client) :
    SameRequests c (texts.foldl (insert browser) c) := by
  induction texts generalizing c with
  | nil => exact ⟨rfl, rfl, rfl, rfl, rfl⟩
  | cons text texts ih => exact (sameRequests_insert browser c text).trans (ih _)

theorem page_foldl (texts : List JsString) (c : Client) :
    (texts.foldl (insert browser) c).page = c.page ++ texts.flatMap browser.elementsOf := by
  induction texts generalizing c with
  | nil => exact (List.append_nil _).symm
  | cons text texts ih =>
    rw [List.foldl_cons, ih, List.flatMap_cons, ← List.append_assoc]
    rfl

/-- A mark is made exactly if the map has the row. -/
theorem markingXY_eq (x : ℕ) {y : ℕ} (isFound : Bool) (h : y < c.cellsArray.length) :
    ∃ c', c.markingXY x y isFound = some c' ∧ SameRequests c c' ∧ c'.page = c.page := by
  unfold markingXY
  rw [List.getElem?_eq_getElem h]
  exact ⟨_, rfl, ⟨rfl, rfl, rfl, rfl, List.length_set⟩, rfl⟩

theorem markingXY_of_ge {x y : ℕ} {isFound : Bool} (h : ¬ y < c.cellsArray.length) :
    c.markingXY x y isFound = none := by
  unfold markingXY
  rw [List.getElem?_eq_none (Nat.le_of_not_lt h)]

/-! ## What a reply needs -/

/-- The row of the map for a location. -/
def rowOf (browser : Browser) (location : JsString) : ℕ :=
  (convertZordertoXY (browser.zorderText location)).2

/-- The bit for the row is set in the digits 2, 3, 6 and 7, and in no other character. -/
theorem bitAt_zero (c : UInt16) : bitAt c 0 = if c ∈ js "2367" then 1 else 0 := by
  by_cases hdigit : 48 ≤ c.toNat ∧ c.toNat ≤ 57
  · obtain ⟨d, hd, rfl⟩ : ∃ d < 10, c = UInt16.ofNat (48 + d) := by
      refine ⟨c.toNat - 48, by omega, UInt16.toNat_inj.1 ?_⟩
      rw [UInt16.toNat_ofNat', Nat.mod_eq_of_lt (by omega)]
      omega
    interval_cases d <;> decide
  · have hbin : zorderBin c = js "aN" := by
      unfold zorderBin parseDigit
      rw [if_neg hdigit]
      decide
    have hother : c ∉ js "2367" := by
      intro hc
      have hunits : js "2367" = [50, 51, 54, 55] := by decide
      rw [hunits] at hc
      simp only [List.mem_cons, List.not_mem_nil, or_false] at hc
      rcases hc with rfl | rfl | rfl | rfl <;> exact hdigit (by decide)
    unfold bitAt
    rw [hbin, if_neg hother]
    decide

/-- **A text is in one of the first `2 ^ k` rows exactly if no character before its last `k` has
the bit for the row**, by induction on the text from its end. -/
theorem row_lt_iff (k : ℕ) (text : JsString) :
    (convertZordertoXY text).2 < 2 ^ k ↔ ∀ c ∈ text.rdrop k, c ∉ js "2367" := by
  unfold convertZordertoXY
  simp only
  induction text using List.reverseRecOn generalizing k with
  | nil => simp
  | append_singleton text c ih =>
    rw [List.foldl_append, List.foldl_cons, List.foldl_nil, bitAt_zero]
    cases k with
    | zero =>
      have hzero := ih 0
      rw [List.rdrop_zero] at hzero ⊢
      rw [List.forall_mem_append, ← hzero, List.forall_mem_singleton]
      split <;> simp_all
    | succ k =>
      rw [List.rdrop_concat_succ, ← ih k, Nat.pow_succ]
      split <;> omega

/-- The text of a number that has a row on the map of sixteen rows: none of its characters but
the last four is a 2, 3, 6 or 7. -/
def OnMap (zorder : JsString) : Prop := ∀ c ∈ zorder.rdrop 4, c ∉ js "2367"

theorem onMap_iff (browser : Browser) (location : JsString) :
    OnMap (browser.zorderText location) ↔ rowOf browser location < 16 := (row_lt_iff 4 _).symm

/-- The ids that a reply brings in when it is shown. -/
def idsShown (browser : Browser) (r : Result) : List JsString :=
  browser.elementsOf (statusLine r) ++ (targetTexts browser r).flatMap browser.elementsOf

/-- The reply can be shown: the page has an element for its target, once the status line is
printed, and the map a row for its location. -/
def CanShow (browser : Browser) (page : List JsString) (rows : ℕ) (r : Result) : Prop :=
  r.target ∈ page ++ browser.elementsOf (statusLine r) ∧ rowOf browser r.location < rows

/-- A reply that can be shown is shown. -/
theorem showResult_of_canShow {r : Result}
    (h : CanShow browser c.page c.cellsArray.length r) : ∃ c',
      c.showResult browser r = .returned c' ∧ SameRequests c c' ∧
        c'.page = c.page ++ idsShown browser r := by
  obtain ⟨hmem, hrow⟩ := h
  change r.target ∈ (c.printLine browser (statusLine r)).page at hmem
  have hprint := sameRequests_insert browser c (statusLine r)
  have hfold := sameRequests_foldl browser (targetTexts browser r)
    (c.printLine browser (statusLine r))
  have hmap : (convertZordertoXY (browser.zorderText r.location)).2 <
      ((targetTexts browser r).foldl (insert browser)
        (c.printLine browser (statusLine r))).cellsArray.length := by
    rw [hfold.rows]
    exact hrow
  obtain ⟨c', hmark, hsame, hpage⟩ :=
    markingXY_eq (convertZordertoXY (browser.zorderText r.location)).1 r.isFound hmap
  refine ⟨c', ?_, (hprint.trans hfold).trans hsame, ?_⟩
  · unfold showResult
    simp only
    rw [if_pos hmem, hmark]
  · rw [hpage, page_foldl, idsShown, ← List.append_assoc]
    rfl

/-- Any other reply throws. -/
theorem showResult_of_not {r : Result}
    (h : ¬ CanShow browser c.page c.cellsArray.length r) : ∃ c',
      c.showResult browser r = .thrown c' ∧ SameRequests c c' := by
  have hprint := sameRequests_insert browser c (statusLine r)
  have hfold := sameRequests_foldl browser (targetTexts browser r)
    (c.printLine browser (statusLine r))
  unfold showResult
  simp only
  by_cases hmem : r.target ∈ (c.printLine browser (statusLine r)).page
  · have hrow : ¬ (convertZordertoXY (browser.zorderText r.location)).2 <
        ((targetTexts browser r).foldl (insert browser)
          (c.printLine browser (statusLine r))).cellsArray.length := by
      rw [hfold.rows]
      exact fun hlt => h ⟨hmem, hlt⟩
    rw [if_pos hmem, markingXY_of_ge hrow]
    exact ⟨_, rfl, hprint.trans hfold⟩
  · rw [if_neg hmem]
    exact ⟨_, rfl, hprint⟩

/-- Each of the replies can be shown, on the page as the ones before it leave it. -/
def CanShowAll (browser : Browser) (page : List JsString) (rows : ℕ) (rs : List Result) : Prop :=
  ∀ before r after, rs = before ++ r :: after →
    CanShow browser (page ++ before.flatMap (idsShown browser)) rows r

theorem canShowAll_cons {page : List JsString} {rows : ℕ} {r : Result} {rs : List Result} :
    CanShowAll browser page rows (r :: rs) ↔ CanShow browser page rows r ∧
      CanShowAll browser (page ++ idsShown browser r) rows rs := by
  constructor
  · intro h
    refine ⟨?_, fun before r' after hrs => ?_⟩
    · have hfirst := h [] r rs rfl
      rwa [List.flatMap_nil, List.append_nil] at hfirst
    · have hrest := h (r :: before) r' after (by rw [hrs, List.cons_append])
      rwa [List.flatMap_cons, ← List.append_assoc] at hrest
  · rintro ⟨hfirst, hrest⟩ before r' after hrs
    cases before with
    | nil =>
      obtain ⟨rfl, -⟩ := List.cons.inj hrs
      rwa [List.flatMap_nil, List.append_nil]
    | cons r'' before =>
      obtain ⟨rfl, htail⟩ := List.cons.inj hrs
      rw [List.flatMap_cons, ← List.append_assoc]
      exact hrest before r' after htail

variable (browser) in
/-- **The loop over the replies ends exactly if each can be shown**; an exception leaves the
requests as they are. -/
theorem showResults_spec (rs : List Result) (c : Client) :
    (CanShowAll browser c.page c.cellsArray.length rs ∧
        ∃ c', showResults browser rs c = .returned c' ∧ SameRequests c c') ∨
      (¬ CanShowAll browser c.page c.cellsArray.length rs ∧
        ∃ c', showResults browser rs c = .thrown c' ∧ SameRequests c c') := by
  induction rs generalizing c with
  | nil =>
    refine Or.inl ⟨fun before r after h => ?_, c, rfl, rfl, rfl, rfl, rfl, rfl⟩
    exact absurd h (by simp)
  | cons r rs ih =>
    rw [canShowAll_cons]
    unfold showResults
    by_cases hr : CanShow browser c.page c.cellsArray.length r
    · obtain ⟨c₁, hshow, hsame, hpage⟩ := showResult_of_canShow hr
      have hrest := ih c₁
      rw [hpage, hsame.rows] at hrest
      simp only [hshow, hr, true_and]
      refine hrest.imp (fun ⟨hall, c', hc', hsame'⟩ => ?_) fun ⟨hall, c', hc', hsame'⟩ => ?_
      · exact ⟨hall, c', hc', hsame.trans hsame'⟩
      · exact ⟨hall, c', hc', hsame.trans hsame'⟩
    · obtain ⟨c₁, hshow, hsame⟩ := showResult_of_not hr
      simp only [hshow]
      exact Or.inr ⟨fun h => hr h.1, c₁, rfl, hsame⟩

end

end Client

end Crowdsensing
