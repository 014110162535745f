import Crowdsensing.Client.Zorder
import Crowdsensing.System.Tally

/-!
# What the page shows

The map of the page has a mark for each cell.  Data packets bring replies, which are shown one
after another until one cannot be, and each that is shown marks the cell of its location.

* `Client.shownUntil` — the replies the second loop of `onData` comes to show.
* `Client.mark_step` — a step leaves each cell the mark of the last reply it shows there, if it
  shows one.
* `Client.map_law` — **after any run each cell is drawn as the last reply shown for it says**.
* `Client.blocked_forever` — **a content that cannot be shown is the last thing that happens to
  the page**: after it, it neither asks nor shows anything, whatever happens.
-/

namespace Crowdsensing

open Text

namespace Client

/-- The mark of a cell. -/
def mark (c : Client) (x y : ℕ) : ℕ :=
  match c.cellsArray[y]? with
  | none => 0
  | some row => row x

/-- The class `draw` gives the cell of a mark. -/
def cellClass (mark : ℕ) : String :=
  match mark with
  | 1 => "found"
  | 2 => "notFound"
  | _ => "default"

/-- `draw`: the class of a cell of the table. -/
def draw (c : Client) (x y : ℕ) : String := cellClass (c.mark x y)

/-- The cell of a reply. -/
def cellOf (browser : Browser) (r : Result) : ℕ × ℕ :=
  convertZordertoXY (browser.zorderText r.location)

instance (browser : Browser) (page : List JsString) (rows : ℕ) (r : Result) :
    Decidable (CanShow browser page rows r) :=
  decidable_of_iff ((∃ id ∈ page ++ browser.elementsOf (statusLine r), id = r.target) ∧
    rowOf browser r.location < rows) (by rw [exists_eq_right]; rfl)

/-- The replies that the second loop of `onData` shows: those before the first one that cannot
be shown. -/
def shownUntil (browser : Browser) (rows : ℕ) : List JsString → List Result → List Result
  | _, [] => []
  | page, r :: rs =>
    if CanShow browser page rows r then
      r :: shownUntil browser rows (page ++ idsShown browser r) rs
    else []

/-- The replies an event shows. -/
def shown (lib : Externals) (browser : Browser) (c : Client) : PageEvent → List Result
  | .data _ replies => shownUntil browser c.cellsArray.length (c.page ++ browser.elementsOf
      (js "Payload: " ++ browser.toString (contentOf lib replies))) (replies.map browser.result)
  | _ => []

section

variable {lib : Externals} {browser : Browser} {c c' : Client}

theorem mem_of_mem_shownUntil {rows : ℕ} {r : Result} :
    ∀ {rs : List Result} {page : List JsString}, r ∈ shownUntil browser rows page rs → r ∈ rs := by
  intro rs
  induction rs with
  | nil =>
    intro page h
    exact absurd h List.not_mem_nil
  | cons r' rs ih =>
    intro page h
    unfold shownUntil at h
    split at h
    · rcases List.mem_cons.1 h with rfl | h
      · exact List.mem_cons_self
      · exact List.mem_cons_of_mem _ (ih h)
    · exact absurd h List.not_mem_nil

/-! ## One reply -/

theorem mark_of_cellsArray (h : c'.cellsArray = c.cellsArray) (x y : ℕ) :
    c'.mark x y = c.mark x y := by
  unfold mark
  rw [h]

theorem mark_markingXY {x' y' : ℕ} {isFound : Bool} (h : c.markingXY x' y' isFound = some c')
    (x y : ℕ) :
    c'.mark x y = if (x', y') = (x, y) then (if isFound then 1 else 2) else c.mark x y := by
  unfold markingXY at h
  split at h
  · exact absurd h.symm (Option.some_ne_none _)
  · rename_i row hrow
    obtain ⟨hlt, hget⟩ := List.getElem?_eq_some_iff.1 hrow
    rw [← Option.some.inj h]
    unfold mark
    simp only [List.getElem?_set, Prod.mk.injEq]
    by_cases hy : y' = y
    · subst hy
      by_cases hx : x' = x
      · simp [hx, hlt]
      · simp [hx, hlt, hget, Ne.symm hx]
    · simp [hy]

variable (browser) in
/-- **A reply that is shown marks its cell**; one that is not marks nothing. -/
theorem mark_showResult (c : Client) (r : Result) (x y : ℕ) :
    (c.showResult browser r).client.mark x y =
      if CanShow browser c.page c.cellsArray.length r ∧ cellOf browser r = (x, y) then markOf r
      else c.mark x y := by
  by_cases hshow : CanShow browser c.page c.cellsArray.length r
  · have hmem := hshow.1
    have hcells := cellsArray_foldl browser (targetTexts browser r)
      (c.printLine browser (statusLine r))
    obtain ⟨c', hc', -, -⟩ := showResult_of_canShow hshow
    rw [hc', Ending.client]
    unfold showResult at hc'
    simp only at hc'
    rw [if_pos (show r.target ∈ (c.printLine browser (statusLine r)).page from hmem)] at hc'
    split at hc'
    · exact absurd hc' (by simp)
    · rename_i marked hmark
      rw [← Ending.returned.inj hc', mark_markingXY hmark x y]
      have hold := mark_of_cellsArray (c := c) hcells x y
      simp only [hold, hshow, true_and]
      rfl
  · rw [if_neg fun h => hshow h.1]
    have hcells := cellsArray_foldl browser (targetTexts browser r)
      (c.printLine browser (statusLine r))
    obtain ⟨c', hc', -⟩ := showResult_of_not hshow
    rw [hc', Ending.client]
    unfold showResult at hc'
    simp only at hc'
    split at hc'
    · split at hc'
      · rw [← Ending.thrown.inj hc']
        exact mark_of_cellsArray hcells x y
      · exact absurd hc' (by simp)
    · rw [← Ending.thrown.inj hc']
      exact mark_of_cellsArray rfl x y

/-! ## One event -/

/-- Whether a reply goes to a cell. -/
def goesTo (browser : Browser) (x y : ℕ) (r : Result) : Bool := decide (cellOf browser r = (x, y))

variable (browser) in
theorem mark_showResults (rs : List Result) (c : Client) (x y : ℕ) :
    (showResults browser rs c).client.mark x y = Runs.lastWrite (goesTo browser x y) markOf
      (shownUntil browser c.cellsArray.length c.page rs) (c.mark x y) := by
  induction rs generalizing c with
  | nil => rfl
  | cons r rs ih =>
    have hone := mark_showResult browser c r x y
    unfold showResults shownUntil
    by_cases hshow : CanShow browser c.page c.cellsArray.length r
    · obtain ⟨c', hc', hsame, hpage⟩ := showResult_of_canShow hshow
      rw [hc', Ending.client] at hone
      simp only [hc', if_pos hshow]
      rw [ih c', hpage, hsame.rows, hone, ← List.singleton_append, Runs.lastWrite_append]
      congr 1
      by_cases hcell : cellOf browser r = (x, y)
      · simp [Runs.lastWrite, goesTo, hcell, hshow]
      · simp [Runs.lastWrite, goesTo, hcell]
    · obtain ⟨c', hc', -⟩ := showResult_of_not hshow
      rw [hc', Ending.client, if_neg fun h => hshow h.1] at hone
      simp only [hc', if_neg hshow, Ending.client]
      exact hone

/-- A Data packet shows the replies of its content until one cannot be shown. -/
theorem mark_onData (hjson : lib.JsonDocumented) (hdoc : browser.Documented lib) (c : Client)
    (position : ℕ) (replies : List Reply) (x y : ℕ) :
    (c.onData browser (contentOf lib replies)).client.mark x y =
      Runs.lastWrite (goesTo browser x y) markOf (c.shown lib browser (.data position replies))
        (c.mark x y) := by
  by_cases hne : replies = []
  · subst hne
    rw [onData_nil hdoc]
    rfl
  · have hloop := mark_showResults browser (replies.map browser.result)
      (c.printLine browser (js "Payload: " ++ browser.toString (contentOf lib replies))) x y
    unfold onData
    simp only [lines_contentOf hjson hdoc.toString_eq hne, mapM_parse hdoc]
    refine Eq.trans ?_ hloop
    split
    · rename_i hthrown
      rw [hthrown]
    · rename_i hreturned
      rw [hreturned]
      rfl

/-- **A step leaves each cell the mark of the last reply it shows there**, if it shows one. -/
theorem mark_step (hjson : lib.JsonDocumented) (hdoc : browser.Documented lib) {e : PageEvent}
    (h : c.step lib browser e = some c') (x y : ℕ) :
    c'.mark x y = Runs.lastWrite (goesTo browser x y) markOf (c.shown lib browser e)
      (c.mark x y) := by
  cases e with
  | tick =>
    rw [← Option.some.inj h]
    refine mark_of_cellsArray ?_ x y
    rcases sendRequest_eq browser c with ⟨hsame, -⟩ | ⟨-, -, -, -, hcells⟩
    · rw [hsame]
    · exact hcells
  | registerTarget target name =>
    rw [← Option.some.inj h]
    exact mark_of_cellsArray rfl x y
  | data position replies =>
    obtain ⟨-, rfl⟩ := step_data.1 h
    exact mark_onData hjson hdoc (c.settle position) position replies x y
  | timeout position =>
    obtain ⟨-, rfl⟩ := step_timeout.1 h
    exact mark_of_cellsArray rfl x y

variable (browser) in
/-- A Data packet changes neither what is registered nor what is outstanding. -/
theorem sameNames_onData (c : Client) (content : Str) :
    (c.onData browser content).client.target = c.target ∧
      (c.onData browser content).client.cd = c.cd ∧
      (c.onData browser content).client.outstanding = c.outstanding := by
  unfold onData
  simp only
  split
  · exact ⟨rfl, rfl, rfl⟩
  · rename_i rs hparse
    have hprint := sameRequests_insert browser c (js "Payload: " ++ browser.toString content)
    rcases showResults_spec browser rs
      (c.printLine browser (js "Payload: " ++ browser.toString content)) with
        ⟨-, c', hc', hsame⟩ | ⟨-, c', hc', hsame⟩
    · have hkeep := hprint.trans hsame
      rw [hc']
      exact ⟨hkeep.target, hkeep.cd, hkeep.outstanding⟩
    · have hkeep := hprint.trans hsame
      rw [hc']
      exact ⟨hkeep.target, hkeep.cd, hkeep.outstanding⟩

/-! ## A content that can be shown -/

/-- Replies about an element of the page, with a row for each location, can all be shown. -/
theorem canShowAll_of_mem {page : List JsString} {rows : ℕ} {rs : List Result}
    (h : ∀ r ∈ rs, r.target ∈ page ∧ rowOf browser r.location < rows) :
    CanShowAll browser page rows rs := by
  intro before r after hrs
  obtain ⟨hmem, hrow⟩ := h r (by simp [hrs])
  exact ⟨List.mem_append_left _ (List.mem_append_left _ hmem), hrow⟩

/-- Where all replies can be shown, all are. -/
theorem shownUntil_of_canShowAll {rows : ℕ} : ∀ {rs : List Result} {page : List JsString},
    CanShowAll browser page rows rs → shownUntil browser rows page rs = rs := by
  intro rs
  induction rs with
  | nil => exact fun _ => rfl
  | cons r rs ih =>
    intro page h
    obtain ⟨hfirst, hrest⟩ := canShowAll_cons.1 h
    unfold shownUntil
    rw [if_pos hfirst, ih hrest]

/-- They bring their ids into the page, which keeps what it has. -/
theorem page_showResults {rs : List Result} {c : Client}
    (h : CanShowAll browser c.page c.cellsArray.length rs) :
    (showResults browser rs c).client.page = c.page ++ rs.flatMap (idsShown browser) := by
  induction rs generalizing c with
  | nil => exact (List.append_nil _).symm
  | cons r rs ih =>
    obtain ⟨hfirst, hrest⟩ := canShowAll_cons.1 h
    obtain ⟨c₁, hshow, hsame, hpage⟩ := showResult_of_canShow hfirst
    rw [← hpage, ← hsame.rows] at hrest
    unfold showResults
    simp only [hshow]
    rw [ih hrest, hpage, List.flatMap_cons, List.append_assoc]

/-- **A content that can be shown** leaves the page free to ask again, with all its elements, and
marks the cells of its replies. -/
theorem onData_of_shown (hjson : lib.JsonDocumented) (hdoc : browser.Documented lib)
    (hrows : c.cellsArray.length = 16) {replies : List Reply} (h : Shown lib browser c replies) :
    (c.onData browser (contentOf lib replies)).client.isFinding = false ∧
      (∀ id ∈ c.page, id ∈ (c.onData browser (contentOf lib replies)).client.page) ∧
      ∀ x y, (c.onData browser (contentOf lib replies)).client.mark x y =
        Runs.lastWrite (goesTo browser x y) markOf (replies.map browser.result) (c.mark x y) := by
  obtain ⟨d, hd, -, -, -, hflag⟩ := onData_spec hjson hdoc c hrows replies
  refine ⟨?_, ?_, fun x y => ?_⟩
  · rcases hflag with ⟨-, hfree⟩ | ⟨hnot, -⟩
    · rw [hd]
      exact hfree
    · exact absurd h hnot
  · intro id hid
    have hall := (shown_iff.1 h).2
    rw [← hrows] at hall
    have hpage := page_showResults (c := c.printLine browser (js "Payload: " ++
      browser.toString (contentOf lib replies))) hall
    unfold onData
    simp only [lines_contentOf hjson hdoc.toString_eq h.1, mapM_parse hdoc]
    split
    · rename_i hthrown
      rw [hthrown, Ending.client] at hpage
      rw [Ending.client, hpage]
      exact List.mem_append_left _ (List.mem_append_left _ hid)
    · rename_i hreturned
      rw [hreturned, Ending.client] at hpage
      rw [Ending.client, hpage]
      exact List.mem_append_left _ (List.mem_append_left _ hid)
  · rw [mark_onData hjson hdoc c 0, shown, hrows, shownUntil_of_canShowAll (shown_iff.1 h).2]

/-! ## Runs -/

variable {events : List PageEvent}

/-- No cell is marked at first. -/
theorem mark_start (x y : ℕ) : start.mark x y = 0 := by
  unfold mark start
  simp only [List.getElem?_replicate]
  split
  · rfl
  · rename_i hrow
    split at hrow
    · rw [← Option.some.inj hrow]
    · exact absurd hrow.symm (Option.some_ne_none _)

/-- After a run each cell has the mark of the last reply shown there. -/
theorem mark_run (hjson : lib.JsonDocumented) (hdoc : browser.Documented lib)
    (hrun : Runs.exec (step lib browser) start events = some c) (x y : ℕ) :
    c.mark x y = Runs.lastWrite (goesTo browser x y) markOf
      (Runs.gathered (step lib browser) (shown lib browser) start events) 0 := by
  rw [← mark_start x y]
  exact Runs.last_write (fun _ _ _ _ _ hstep => mark_step hjson hdoc hstep x y) events c hrun

/-- What is shown are replies of Data packets that came. -/
theorem mem_shown_run (hrun : Runs.exec (step lib browser) start events = some c) {r : Result}
    (hr : r ∈ Runs.gathered (step lib browser) (shown lib browser) start events) :
    ∃ position replies, .data position replies ∈ events ∧ r ∈ replies.map browser.result := by
  obtain ⟨pre, e, post, m, rfl, -, hmem⟩ := Runs.exists_of_mem_gathered events c hrun hr
  cases e with
  | data position replies => exact ⟨position, replies, by simp, mem_of_mem_shownUntil hmem⟩
  | _ => exact absurd hmem List.not_mem_nil

/-- The page waits for an answer that will not come. -/
structure Blocked (c : Client) : Prop where
  waits : c.isFinding = true
  none : c.outstanding = []

/-- **A blocked page stays blocked**, and its map as it is. -/
theorem blocked_step_kept {e : PageEvent} (hc : Blocked c)
    (h : c.step lib browser e = some c') : Blocked c' ∧ c'.cellsArray = c.cellsArray := by
  have hposition : ∀ position, ¬ position < c.outstanding.length := by
    intro position
    rw [hc.none]
    exact Nat.not_lt_zero position
  cases e with
  | tick =>
    rw [← Option.some.inj h]
    rcases sendRequest_eq browser c with ⟨hsame, -⟩ | ⟨-, hfree, -⟩
    · rw [hsame]
      exact ⟨hc, rfl⟩
    · exact absurd (hc.waits.symm.trans hfree) (by decide)
  | registerTarget target name =>
    rw [← Option.some.inj h]
    exact ⟨⟨hc.waits, hc.none⟩, rfl⟩
  | data position replies => exact absurd (step_data.1 h).1 (hposition position)
  | timeout position => exact absurd (step_timeout.1 h).1 (hposition position)

/-- **A content that cannot be shown is the last thing that happens to the page.**  If all
contents before it could be shown, then after it the page has no Interest outstanding and never
sends another one, no Data packet and no timeout can come, and its map stays as it is, whatever
the user does. -/
theorem blocked_forever (hjson : lib.JsonDocumented) (hdoc : browser.Documented lib)
    {position : ℕ} {replies : List Reply} {later : List PageEvent}
    (hbefore : Runs.Along (step lib browser) (DataShown lib browser) start events)
    (hc : Runs.exec (step lib browser) start events = some c)
    (hnot : ¬ Shown lib browser c replies)
    (hrun : Runs.exec (step lib browser) c (.data position replies :: later) = some c') :
    c'.isFinding = true ∧ c'.outstanding = [] ∧ (∀ e ∈ later, ¬ e.EndsRequest) ∧
      ∀ m, c.step lib browser (.data position replies) = some m →
        c'.cellsArray = m.cellsArray := by
  rw [Runs.exec_cons, Option.bind_eq_some_iff] at hrun
  obtain ⟨m, hm, hrun⟩ := hrun
  obtain ⟨hwaits, hnone⟩ := blocked_step hjson hdoc (steady_along hjson hdoc hbefore hc).1 hnot hm
  have hkept : ∀ es m', Runs.exec (step lib browser) m es = some m' →
      Blocked m' ∧ m'.cellsArray = m.cellsArray ∧ ∀ e ∈ es, ¬ e.EndsRequest := by
    apply Runs.history
    · exact ⟨⟨hwaits, hnone⟩, rfl, fun e he => absurd he List.not_mem_nil⟩
    · intro es m₁ e m₂ _ ih hstep
      obtain ⟨hblocked, hcells, hends⟩ := ih
      obtain ⟨hblocked', hcells'⟩ := blocked_step_kept hblocked hstep
      refine ⟨hblocked', hcells'.trans hcells, fun f hf => ?_⟩
      rcases List.mem_append.1 hf with hf | hf
      · exact hends f hf
      · rw [List.mem_singleton.1 hf]
        have hposition : ∀ position, ¬ position < m₁.outstanding.length := by
          intro position
          rw [hblocked.none]
          exact Nat.not_lt_zero position
        cases e with
        | tick => exact not_false
        | registerTarget target name => exact not_false
        | data position replies => exact absurd (step_data.1 hstep).1 (hposition position)
        | timeout position => exact absurd (step_timeout.1 hstep).1 (hposition position)
  obtain ⟨hblocked, hcells, hends⟩ := hkept later c' hrun
  refine ⟨hblocked.waits, hblocked.none, hends, fun m' hm' => ?_⟩
  rw [hcells, Option.some.inj (hm.symm.trans hm')]

end

/-! ## Two runs -/

/-- A reply for a person comes to a page that asked for a car. -/
theorem blocked_forever_car : ∃ c c', Runs.exec (step reference referenceBrowser) start
      [.registerTarget (js "car") start.cd, .tick] = some c ∧
    Runs.exec (step reference referenceBrowser) c
      [.data 0 [personAt (txt "30321")], .tick] = some c' ∧ c'.outstanding = [] := by
  have hsome : (Runs.exec (step reference referenceBrowser) start
      [.registerTarget (js "car") start.cd, .tick]).map
        (fun c => (c.page, c.outstanding.length)) = some (indexHtml ++ [js "car"], 1) := by
    decide +kernel
  obtain ⟨c, hc, heq⟩ := Option.map_eq_some_iff.1 hsome
  obtain ⟨hpage, hlength⟩ := Prod.mk.inj heq
  obtain ⟨m, hm⟩ : ∃ m, c.step reference referenceBrowser (.data 0 [personAt (txt "30321")]) =
      some m := ⟨_, step_data.2 ⟨by omega, rfl⟩⟩
  have hrun : Runs.exec (step reference referenceBrowser) c
      [.data 0 [personAt (txt "30321")], .tick] = some (m.sendRequest referenceBrowser) := by
    rw [Runs.exec_cons, hm]
    rfl
  have hnot : ¬ Shown reference referenceBrowser c [personAt (txt "30321")] := by
    rintro ⟨-, hall⟩
    rw [hpage] at hall
    exact absurd (hall [] _ [] rfl).1 (by decide +kernel)
  have hbefore : Runs.Along (step reference referenceBrowser) (DataShown reference referenceBrowser)
      start [.registerTarget (js "car") start.cd, .tick] := by
    change Runs.Along _ _ start ([] ++ [PageEvent.registerTarget _ _] ++ [PageEvent.tick])
    rw [Runs.along_concat, Runs.along_concat]
    refine ⟨⟨Runs.along_nil _, fun _ _ _ _ h => ?_⟩, fun _ _ _ _ h => ?_⟩
    · exact absurd h (by simp)
    · exact absurd h (by simp)
  exact ⟨c, _, hc, hrun, (blocked_forever reference_json referenceBrowser_documented hbefore hc hnot
    hrun).2.1⟩

end Client

end Crowdsensing
