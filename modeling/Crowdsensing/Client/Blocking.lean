import Crowdsensing.Client.Manager
import Crowdsensing.Reference
import Crowdsensing.System.Run

/-!
# When the page blocks itself

The page asks again only once `isFinding` is cleared, and `onData` clears it in its last
line.  An exception before that line leaves the flag set with no Interest outstanding, and
nothing will clear it.

* `Client.NeverBlocked` — at most one Interest is outstanding, the flag is set exactly while
  one is, and a tick after its end asks again.
* `Client.Shown` — the content has a reply, and each reply finds an element for its target and
  names a location on the map.
* `Client.onData_spec` — `onData` clears the flag exactly if the content can be shown.
* `Client.never_blocks_iff` — **the page never blocks in exactly the runs in which every
  content can be shown.**
-/

namespace Crowdsensing

open Text

namespace Client

/-! ## Blocking -/

/-- The page is not blocked, after these events. -/
structure NeverBlocked (browser : Browser) (history : List PageEvent) (c : Client) : Prop where
  /-- At most one Interest is outstanding. -/
  one : c.outstanding.length ≤ 1
  /-- The page waits exactly while one is. -/
  waiting : c.isFinding = true ↔ c.outstanding ≠ []
  /-- A tick after a Data packet or a timeout asks again, if there is something to ask for. -/
  asks : ∀ e, history.getLast? = some e → e.EndsRequest → c.target ≠ [] →
    (c.sendRequest browser).outstanding = [c.cd]

/-- The page is not blocked in any state a run of these events goes through. -/
def NeverBlocks (lib : Externals) (browser : Browser) (events : List PageEvent) : Prop :=
  ∀ history rest, events = history ++ rest → ∀ c,
    Runs.exec (step lib browser) start history = some c → NeverBlocked browser history c

/-- The content can be shown: it has a reply, and each reply finds an element for its target
on the page, as the ones before it leave the page, and its location lies on the map. -/
def Shown (lib : Externals) (browser : Browser) (c : Client) (replies : List Reply) : Prop :=
  replies ≠ [] ∧ ∀ before r after, replies.map browser.result = before ++ r :: after →
    r.target ∈ c.page ++ browser.elementsOf (js "Payload: " ++
      browser.toString (contentOf lib replies)) ++ before.flatMap (idsShown browser) ++
      browser.elementsOf (statusLine r) ∧
    OnMap (browser.zorderText r.location)

theorem shown_iff {lib : Externals} {browser : Browser} {c : Client} {replies : List Reply} :
    Shown lib browser c replies ↔ replies ≠ [] ∧ CanShowAll browser (c.page ++
      browser.elementsOf (js "Payload: " ++ browser.toString (contentOf lib replies))) 16
      (replies.map browser.result) := by
  simp only [Shown, CanShowAll, CanShow, onMap_iff]

/-- If a Data packet comes in, its content can be shown. -/
def DataShown (lib : Externals) (browser : Browser) (_history : List PageEvent) (c : Client)
    (e : PageEvent) : Prop :=
  ∀ position replies, e = .data position replies → Shown lib browser c replies

/-! ## The content of an edge at the page -/

section

variable {lib : Externals} {browser : Browser}

/-- A reply is a line. -/
theorem isLine_encode (hjson : lib.JsonDocumented)
    (hbytes : ∀ s, browser.toString s = s.map fun b => UInt16.ofNat b.toNat) (r : Reply) :
    IsLine isBlank 13 10 (browser.toString (encode lib r)) := by
  obtain ⟨body, hdump, hbody⟩ := hjson.dump_object r.fields r.fields_plain
  have htext : browser.toString (encode lib r) =
      123 :: (body ++ [ch '}']).map fun b => UInt16.ofNat b.toNat := by
    rw [hbytes, encode, hdump]
    rfl
  have hchars : ∀ x ∈ browser.toString (encode lib r), 32 ≤ x.toNat := by
    intro x hx
    rw [htext, List.mem_cons] at hx
    rcases hx with rfl | hx
    · decide
    · obtain ⟨b, hb, rfl⟩ := List.mem_map.1 hx
      have hle : 32 ≤ b.toNat := by
        rcases List.mem_append.1 hb with hb | hb
        · exact UInt8.le_iff_toNat_le.1 (hbody b hb)
        · rw [List.mem_singleton.1 hb]
          decide
      rw [toNat_unit]
      exact hle
  refine ⟨fun h => absurd (hchars _ h) (by decide), fun h => absurd (hchars _ h) (by decide),
    ⟨_, _, htext, by decide⟩, ⟨125, ?_, by decide⟩⟩
  rw [htext, List.map_append, ← List.cons_append, List.getLast?_append]
  rfl

/-- The lines of a content are its replies. -/
theorem lines_contentOf (hjson : lib.JsonDocumented)
    (hbytes : ∀ s, browser.toString s = s.map fun b => UInt16.ofNat b.toNat)
    {replies : List Reply} (hne : replies ≠ []) :
    splitLines 13 10 (trim isBlank (browser.toString (contentOf lib replies))) =
      replies.map fun r => browser.toString (encode lib r) := by
  have hcontent : browser.toString (contentOf lib replies) =
      (replies.map fun r => browser.toString (encode lib r)).flatMap (· ++ [10]) := by
    rw [hbytes, contentOf, collected, List.map_flatMap, List.flatMap_map, List.flatMap_map]
    apply List.flatMap_congr
    intro r _
    rw [hbytes, List.map_append]
    rfl
  rw [hcontent]
  apply splitLines_trim_flatMap
  · simpa using hne
  · intro line hline
    obtain ⟨r, -, rfl⟩ := List.mem_map.1 hline
    exact isLine_encode hjson hbytes r
  · decide
  · decide

/-- The first loop of `onData` reads the replies. -/
theorem mapM_parse (hdoc : browser.Documented lib) (replies : List Reply) :
    (replies.map fun r => browser.toString (encode lib r)).mapM browser.parse =
      some (replies.map browser.result) := by
  induction replies with
  | nil => rfl
  | cons r replies ih =>
    rw [List.map_cons, List.mapM_cons, hdoc.parse_encode, ih]
    rfl

/-- Without a reply the content is empty, and `JSON.parse` throws. -/
theorem onData_nil (hdoc : browser.Documented lib) (c : Client) :
    c.onData browser (contentOf lib []) = .thrown c := by
  have hempty : browser.toString (contentOf lib []) = [] := by
    rw [hdoc.toString_eq]
    rfl
  unfold onData
  simp only [hempty, trim_nil, splitLines_nil, List.mapM_cons, hdoc.parse_nil]
  rfl

/-- **`onData` clears the flag exactly if the content can be shown**, and changes nothing else
that requests depend on. -/
theorem onData_spec (hjson : lib.JsonDocumented) (hdoc : browser.Documented lib) (c : Client)
    (hrows : c.cellsArray.length = 16) (replies : List Reply) :
    ∃ c', (c.onData browser (contentOf lib replies)).client = c' ∧
      c'.outstanding = c.outstanding ∧ c'.target = c.target ∧ c'.cellsArray.length = 16 ∧
      ((Shown lib browser c replies ∧ c'.isFinding = false) ∨
        (¬ Shown lib browser c replies ∧ c'.isFinding = c.isFinding)) := by
  by_cases hne : replies = []
  · subst hne
    rw [onData_nil hdoc]
    exact ⟨c, rfl, rfl, rfl, hrows, Or.inr ⟨fun h => h.1 rfl, rfl⟩⟩
  · have hprint := sameRequests_insert browser c
      (js "Payload: " ++ browser.toString (contentOf lib replies))
    have hloop := showResults_spec browser (replies.map browser.result)
      (c.printLine browser (js "Payload: " ++ browser.toString (contentOf lib replies)))
    have hprinted : (c.printLine browser (js "Payload: " ++
        browser.toString (contentOf lib replies))).cellsArray.length = 16 := hrows
    rw [hprinted] at hloop
    unfold onData
    simp only [lines_contentOf hjson hdoc.toString_eq hne, mapM_parse hdoc]
    rcases hloop with ⟨hall, c', hc', hsame⟩ | ⟨hall, c', hc', hsame⟩
    · have hkeep := hprint.trans hsame
      rw [hc']
      refine ⟨_, rfl, hkeep.outstanding, hkeep.target, hkeep.rows.trans hrows,
        Or.inl ⟨shown_iff.2 ⟨hne, hall⟩, rfl⟩⟩
    · have hkeep := hprint.trans hsame
      rw [hc']
      refine ⟨_, rfl, hkeep.outstanding, hkeep.target, hkeep.rows.trans hrows,
        Or.inr ⟨fun h => hall (shown_iff.1 h).2, hkeep.isFinding⟩⟩

end

/-! ## One event -/

section

variable {lib : Externals} {browser : Browser} {c c' : Client} {e : PageEvent}

/-- A page that is not blocked, with its map. -/
structure Steady (c : Client) : Prop where
  one : c.outstanding.length ≤ 1
  waiting : c.isFinding = true ↔ c.outstanding ≠ []
  rows : c.cellsArray.length = 16

/-- A page that does not wait and has nothing outstanding is steady. -/
theorem steady_of_settled (hfree : c.isFinding = false) (hnone : c.outstanding = [])
    (hrows : c.cellsArray.length = 16) : Steady c := by
  refine ⟨?_, ?_, hrows⟩
  · rw [hnone]
    exact Nat.zero_le 1
  · rw [hfree, hnone]
    exact iff_of_false Bool.false_ne_true fun h => h rfl

theorem steady_start : Steady start := steady_of_settled rfl rfl rfl

variable (browser) in
/-- A tick sends exactly if a target is registered and the page does not wait. -/
theorem sendRequest_eq (c : Client) :
    (c.sendRequest browser = c ∧ (c.target = [] ∨ c.isFinding = true)) ∨
      (c.target ≠ [] ∧ c.isFinding = false ∧ (c.sendRequest browser).isFinding = true ∧
        (c.sendRequest browser).outstanding = c.outstanding ++ [c.cd] ∧
        (c.sendRequest browser).cellsArray = c.cellsArray) := by
  unfold sendRequest
  by_cases htarget : c.target ≠ []
  · rw [if_pos htarget]
    cases hfinding : c.isFinding with
    | true => exact Or.inl ⟨if_neg (by simp), Or.inr rfl⟩
    | false =>
      rw [if_pos rfl]
      exact Or.inr ⟨htarget, rfl, rfl, rfl, rfl⟩
  · rw [if_neg htarget]
    exact Or.inl ⟨rfl, Or.inl (by simpa using htarget)⟩

/-- Where only one Interest is outstanding, its end leaves none. -/
theorem settle_outstanding {position : ℕ} (hone : c.outstanding.length ≤ 1)
    (hposition : position < c.outstanding.length) : (c.settle position).outstanding = [] := by
  apply List.eq_nil_of_length_eq_zero
  have hlength := List.length_eraseIdx_of_lt hposition
  change (c.outstanding.eraseIdx position).length = 0
  omega

/-- **An event leaves the page steady if its content can be shown**, and every Data packet and
timeout then leaves it free to ask. -/
theorem steady_step (hjson : lib.JsonDocumented) (hdoc : browser.Documented lib) (hc : Steady c)
    (hshown : ∀ position replies, e = .data position replies → Shown lib browser c replies)
    (hstep : c.step lib browser e = some c') :
    Steady c' ∧ (e.EndsRequest → c'.outstanding = []) := by
  cases e with
  | tick =>
    rw [← Option.some.inj hstep]
    refine ⟨?_, False.elim⟩
    rcases sendRequest_eq browser c with ⟨hsame, -⟩ | ⟨-, hfree, hset, hsent, hcells⟩
    · rw [hsame]
      exact hc
    · have hnone : c.outstanding = [] := by
        by_contra hne
        exact absurd (hc.waiting.2 hne) (by simp [hfree])
      refine ⟨?_, ?_, ?_⟩
      · rw [hsent, hnone]
        exact Nat.le_refl 1
      · rw [hsent]
        exact iff_of_true hset (by simp)
      · rw [hcells]
        exact hc.rows
  | registerTarget target name =>
    rw [← Option.some.inj hstep]
    exact ⟨⟨hc.one, hc.waiting, hc.rows⟩, False.elim⟩
  | data position replies =>
    obtain ⟨hposition, rfl⟩ := step_data.1 hstep
    obtain ⟨d, hd, houtstanding, -, hrows, hflag⟩ := onData_spec hjson hdoc (c.settle position)
      hc.rows replies
    rw [settle_outstanding hc.one hposition] at houtstanding
    have hfree : d.isFinding = false := by
      rcases hflag with ⟨-, hfree⟩ | ⟨hnot, -⟩
      · exact hfree
      · exact absurd (hshown position replies rfl) hnot
    rw [hd]
    exact ⟨steady_of_settled hfree houtstanding hrows, fun _ => houtstanding⟩
  | timeout position =>
    obtain ⟨hposition, rfl⟩ := step_timeout.1 hstep
    have hnone : ((c.settle position).onTimeout browser).outstanding = [] :=
      settle_outstanding hc.one hposition
    exact ⟨steady_of_settled rfl hnone hc.rows, fun _ => hnone⟩

/-- **A content that cannot be shown blocks the page.** -/
theorem blocked_step (hjson : lib.JsonDocumented) (hdoc : browser.Documented lib) (hc : Steady c)
    {position : ℕ} {replies : List Reply} (hnot : ¬ Shown lib browser c replies)
    (hstep : c.step lib browser (.data position replies) = some c') :
    c'.isFinding = true ∧ c'.outstanding = [] := by
  obtain ⟨hposition, rfl⟩ := step_data.1 hstep
  obtain ⟨d, hd, houtstanding, -, -, hflag⟩ := onData_spec hjson hdoc (c.settle position)
    hc.rows replies
  have hne : c.outstanding ≠ [] := List.ne_nil_of_length_pos (by omega)
  rw [hd]
  refine ⟨?_, houtstanding.trans (settle_outstanding hc.one hposition)⟩
  rcases hflag with ⟨hshown, -⟩ | ⟨-, hflag⟩
  · exact absurd hshown hnot
  · exact hflag.trans (hc.waiting.2 hne)

end

/-! ## Runs -/

section

variable {lib : Externals} {browser : Browser} {events : List PageEvent} {c : Client}

/-- In a run whose contents can all be shown the page is steady, and after a Data packet or a
timeout nothing is outstanding. -/
theorem steady_along (hjson : lib.JsonDocumented) (hdoc : browser.Documented lib)
    (hshown : Runs.Along (step lib browser) (DataShown lib browser) start events)
    (hrun : Runs.exec (step lib browser) start events = some c) :
    Steady c ∧ ∀ e, events.getLast? = some e → e.EndsRequest → c.outstanding = [] := by
  refine Runs.history_along (P := fun history (c : Client) => Steady c ∧
    ∀ e, history.getLast? = some e → e.EndsRequest → c.outstanding = [])
    ⟨steady_start, fun e he => absurd he nofun⟩ ?_ events c hshown hrun
  intro history c e c' _ hc he hstep
  obtain ⟨hsteady, hends⟩ := steady_step hjson hdoc hc.1 he hstep
  refine ⟨hsteady, fun e' he' => ?_⟩
  rw [List.getLast?_concat, Option.some.injEq] at he'
  rw [← he']
  exact hends

/-- A steady page is not blocked. -/
theorem Steady.neverBlocked (hc : Steady c)
    (hends : ∀ e, events.getLast? = some e → e.EndsRequest → c.outstanding = []) :
    NeverBlocked browser events c := by
  refine ⟨hc.one, hc.waiting, fun e he hend htarget => ?_⟩
  have hnone := hends e he hend
  have hfree : c.isFinding = false := by
    rw [← Bool.not_eq_true, hc.waiting]
    exact fun h => h hnone
  rcases sendRequest_eq browser c with ⟨-, hidle⟩ | ⟨-, -, -, hsent, -⟩
  · rcases hidle with hno | hbusy
    · exact absurd hno htarget
    · rw [hfree] at hbusy
      exact absurd hbusy Bool.false_ne_true
  · rw [hsent, hnone, List.nil_append]

/-- **The page never blocks in exactly the runs in which every content can be shown.** -/
theorem never_blocks_iff (hjson : lib.JsonDocumented) (hdoc : browser.Documented lib)
    (hrun : Runs.exec (step lib browser) start events = some c) :
    NeverBlocks lib browser events ↔
      Runs.Along (step lib browser) (DataShown lib browser) start events := by
  constructor
  · intro hnever
    -- a content that cannot be shown blocks the page it comes to
    refine Runs.along_of_step hrun fun history e rest c₁ c₂ hevents hc₁ hbefore hstep position
      replies he => ?_
    subst he
    by_contra hnot
    have hlast : Runs.exec (step lib browser) start (history ++ [.data position replies]) =
        some c₂ := Runs.exec_concat.2 ⟨c₁, hc₁, hstep⟩
    have hfree := hnever (history ++ [.data position replies]) rest
      (by rw [hevents, List.append_assoc, List.singleton_append]) c₂ hlast
    have hsteady := (steady_along hjson hdoc hbefore hc₁).1
    obtain ⟨hset, hnone⟩ := blocked_step hjson hdoc hsteady hnot hstep
    exact hfree.waiting.1 hset hnone
  · intro hshown history rest hevents c' hc'
    rw [hevents] at hshown
    obtain ⟨hsteady, hends⟩ := steady_along hjson hdoc hshown.of_append hc'
    exact hsteady.neverBlocked hends

end

/-! ## A browser -/

end Client

/-- A browser to run the page with: it does on plain replies and page texts what a browser
does. -/
def referenceBrowser : Browser where
  toString s := s.map fun b => UInt16.ofNat b.toNat
  parse text :=
    match readObject (text.map fun c => UInt8.ofNat c.toNat) with
    | .object fields =>
      let field name := (Json.object fields).get (txt name)
      some {
        isFound := match field "isFound" with
          | .bool value => value
          | _ => false
        target := (field "target").stringValue.map fun b => UInt16.ofNat b.toNat
        location := (field "location").stringValue.map fun b => UInt16.ofNat b.toNat
        time := (field "time").stringValue.map fun b => UInt16.ofNat b.toNat }
    | _ => none
  readText s := s.map fun b => UInt16.ofNat b.toNat
  stringify target := js "\x7b\"target\":\"" ++ target ++ js "\"\x7d"
  number location := location
  zorderText location :=
    let digits := location.foldl (fun n c => 10 * n + (c.toNat - 48)) 0
    (decimal (digits - 30000)).map fun b => UInt16.ofNat b.toNat
  elementsOf html :=
    if js "<p id=\"" <+: html then [(html.drop 7).takeWhile (· ≠ 34)] else []

theorem referenceBrowser_documented : referenceBrowser.Documented reference where
  toString_eq _ := rfl
  parse_nil := by decide +kernel
  parse_encode r := by
    have hbytes : ∀ s : Str, (s.map fun b => UInt16.ofNat b.toNat).map
        (fun c => UInt8.ofNat c.toNat) = s := by
      intro s
      rw [List.map_map]
      refine (List.map_congr_left fun b _ => ?_).trans (List.map_id s)
      rw [Function.comp_apply, toNat_unit, UInt8.ofNat_toNat, id]
    have hread : readObject (encode reference r) = .object r.fields :=
      readObject_writeObject r.fields_plain
    unfold referenceBrowser
    simp only [hbytes, hread]
    obtain ⟨isFound, target, location, time, sessionId⟩ := r
    rfl

namespace Client

/-! ## Three contents that block the page, and one that does not -/

/-- The reply of a worker that sees a person. -/
def personAt (location : Str) : Reply :=
  replyFor location (txt "person") (decimal 7) [txt "person"]

/-- A target is registered with the default name, the page asks, and Data comes in. -/
def oneAnswer (target : JsString) (replies : List Reply) : List PageEvent :=
  [.registerTarget target start.cd, .tick, .data 0 replies]

/-- A reply for the registered target is shown, and the page asks again. -/
theorem never_blocks_person :
    NeverBlocks reference referenceBrowser (oneAnswer (js "person") [personAt (txt "30321")]) := by
  have hsome : (Runs.exec (step reference referenceBrowser) start
      (oneAnswer (js "person") [personAt (txt "30321")])).isSome = true := by decide +kernel
  obtain ⟨c, hrun⟩ := Option.isSome_iff_exists.1 hsome
  refine (never_blocks_iff reference_json referenceBrowser_documented hrun).2 ?_
  change Runs.Along _ _ start ([] ++ [PageEvent.registerTarget _ _] ++ [PageEvent.tick] ++
    [PageEvent.data 0 [personAt (txt "30321")]])
  rw [Runs.along_concat, Runs.along_concat, Runs.along_concat]
  refine ⟨⟨⟨Runs.along_nil _, fun _ _ _ _ h => nomatch h⟩, fun _ _ _ _ h => nomatch h⟩, ?_⟩
  intro c hc position replies he
  obtain ⟨rfl, rfl⟩ := PageEvent.data.inj he
  have hpage : (Runs.exec (step reference referenceBrowser) start
      [.registerTarget (js "person") start.cd, .tick]).map Client.page =
        some (indexHtml ++ [js "person"]) := by decide +kernel
  obtain ⟨c₁, hc₁, hids⟩ := Option.map_eq_some_iff.1 hpage
  obtain rfl : c₁ = c := Option.some.inj (hc₁.symm.trans hc)
  refine shown_iff.2 ⟨List.cons_ne_nil _ _, canShowAll_cons.2 ⟨⟨?_, by decide +kernel⟩, ?_⟩⟩
  · rw [hids]
    exact List.mem_append_left _ (List.mem_append_left _ (by decide +kernel))
  · exact fun before r after h => absurd h (by simp)

/-- A flag that is set with nothing outstanding is not as it should be. -/
theorem not_neverBlocks {lib : Externals} {browser : Browser} {events : List PageEvent}
    (h : (Runs.exec (step lib browser) start events).map
      (fun c => (c.isFinding, c.outstanding)) = some (true, [])) :
    ¬ NeverBlocks lib browser events := by
  intro hnever
  obtain ⟨c, hc, heq⟩ := Option.map_eq_some_iff.1 h
  rw [Prod.mk.injEq] at heq
  exact (hnever events [] (List.append_nil _).symm c hc).waiting.1 heq.1 heq.2

/-- **The page blocks itself** when the content is empty, when it answers for a target that
was not registered, and when it names a location outside the map. -/
theorem client_blocks :
    ¬ NeverBlocks reference referenceBrowser (oneAnswer (js "person") []) ∧
      ¬ NeverBlocks reference referenceBrowser
        (oneAnswer (js "car") [personAt (txt "30321")]) ∧
      ¬ NeverBlocks reference referenceBrowser
        (oneAnswer (js "person") [personAt (txt "50000")]) := by
  refine ⟨?_, ?_, ?_⟩
  · apply not_neverBlocks
    decide +kernel
  · apply not_neverBlocks
    decide +kernel
  · apply not_neverBlocks
    decide +kernel

end Client

end Crowdsensing
