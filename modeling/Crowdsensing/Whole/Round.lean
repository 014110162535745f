import Crowdsensing.Edge.Accounting
import Crowdsensing.Modes.TwoModes
import Crowdsensing.Whole.Provenance
import Crowdsensing.Worker.Undisturbed

/-!
# A request and its answer

Between the request of a page and its answer only the workers it is about are asked, each as often
as the network repeats the sub-Interest, and their replies come in, one for each location, in any
order.

* `Round`, `Round.history` — such a request, with the workers at its locations, and what happens.
* `Round.collecting_tell` — one more reply is collected, or the last one answers the page.
* `Round.outcome` — **from every reachable state the request is answered**: the page shows the
  verdicts of the workers, and all is ready for the next request.
* `rounds_completed` — **any number of requests are answered one after another.**
-/

namespace Crowdsensing

open Text Networks

/-- What happens between a request and its answer. -/
inductive Turn
  /-- The worker at a location is asked, and sees these labels. -/
  | ask (location : Str) (labels : List Str) (frame : Mat) (version : ℕ)
  /-- The reply about these labels comes in at the edge. -/
  | tell (location : Str) (labels : List Str)

/-- The reply that comes in. -/
def Turn.told : Turn → Option (Str × List Str)
  | .ask _ _ _ _ => none
  | .tell location labels => some (location, labels)

namespace Deployment

/-- What the edge reads of a name that is registered on a page. -/
def textOf (D : Deployment) (name : JsString) : Str :=
  Producer.decodeURI (D.lib.toUri (D.interestOf name).name)

/-- A request that the edge takes, with a worker at each of its locations. -/
structure Round (D : Deployment) where
  /-- The page that asks, and the name that is registered on it. -/
  page : ℕ
  name : JsString
  /-- The version of the answer and the id of its session. -/
  version : ℕ
  session : UInt64
  /-- The locations it asks, and the target that is told of. -/
  locations : List Str
  target : Str
  /-- The worker at a location. -/
  place : Str → ℕ
  reaches : D.edgeName <+: (D.interestOf name).name
  prefixes : (D.interestOf name).canBePrefix = true
  accepted : Accepted (D.textOf name)
  asks : locationsOf (D.textOf name) = locations
  about : ∃ targets, targetsOf (D.textOf name) = target :: targets
  plain : ∀ b ∈ targetPart (D.textOf name), isPlain b = true
  legible : ∀ l ∈ locations, Legible l (functionPart (D.textOf name)) (targetPart (D.textOf name))
  placed : ∀ l ∈ locations, D.cdString (place l) = Producer.locationPath l
  rows : ∀ l ∈ locations, Client.rowOf D.browser (D.browser.readText l) < 16

namespace Round

variable {D : Deployment} (R : D.Round)

/-- The Interest of the page. -/
def request : Interest := D.interestOf R.name

/-- The sub-Interest for a location. -/
def sub (l : Str) : Interest :=
  subInterest D.lib (ch 'e') R.session
    (nameFor l (functionPart (D.textOf R.name)) (targetPart (D.textOf R.name)))

/-- What the worker at a location puts when it sees these labels. -/
def data (l : Str) (labels : List Str) : Data :=
  replyData D.lib R.session l R.target labels (R.sub l)

/-- What the worker at a location gets. -/
def arrival (l : Str) (labels : List Str) (frame : Mat) (version : ℕ) : Arrival where
  interest := R.sub l
  labels := labels
  frame := frame
  version := version

/-- What happens at a turn. -/
def event : Turn → Σ i : Party, i.Happening
  | .ask l labels frame version => ⟨.worker (R.place l), R.arrival l labels frame version⟩
  | .tell l labels => ⟨.edge, Event.data (R.sub l) (R.data l labels)⟩

/-- The replies that have come in, in order. -/
def replies (turns : List Turn) : List Reply :=
  (turns.filterMap Turn.told).map fun t =>
    replyFor t.1 R.target (decimal R.session.toNat) t.2

/-- The answer with these replies. -/
def answer (turns : List Turn) : Data :=
  (packetFor R.request R.version).setContent (Client.contentOf D.lib (R.replies turns))

/-- The page asks, the workers are asked and reply, and the answer reaches the page. -/
def history (turns : List Turn) : History :=
  [⟨.page R.page, PageInput.tick⟩, ⟨.edge, Event.interest R.request R.version R.session⟩] ++
    turns.map R.event ++ [⟨.page R.page, PageInput.data 0 (R.answer turns)⟩]

/-- Only the workers of the request are asked, a reply comes in after the worker was asked for it,
and one comes in for each location. -/
structure Proper (turns : List Turn) : Prop where
  asked : ∀ l labels frame version, .ask l labels frame version ∈ turns → l ∈ R.locations
  before : ∀ pre l labels post, turns = pre ++ .tell l labels :: post →
    ∃ frame version, .ask l labels frame version ∈ pre
  every : ((turns.filterMap Turn.told).map Prod.fst).Perm R.locations

/-- The page is free to ask, with the name of the request and an element for its target, and the
session id is not in use. -/
structure Ready (c : Config Message Party.State) : Prop where
  free : (c.states (.page R.page)).isFinding = false
  target : (c.states (.page R.page)).target ≠ []
  name : (c.states (.page R.page)).cd = R.name
  element : D.browser.readText R.target ∈ (c.states (.page R.page)).page
  unused : (c.states .edge).sessions.get R.session = none

/-! ## The edge -/

/-- The edge has collected the replies of these turns. -/
structure Collecting (p : Producer) (turns : List Turn) (q : Producer) : Prop where
  puts : q.face.puts = p.face.puts
  arrived : q.numberOfArrivalInterest = (R.replies turns).length
  issued : q.issuedInterest = R.locations.length
  session : q.sessions.get R.session = some {
    sessionId := R.session
    dataPtr := packetFor R.request R.version
    buffer := Client.contentOf D.lib (R.replies turns) }
  others : ∀ s ≠ R.session, q.sessions.get s = p.sessions.get s

/-- The edge has answered with the replies of these turns, and has forgotten the session. -/
structure Finished (p : Producer) (turns : List Turn) (q : Producer) : Prop where
  puts : q.face.puts = p.face.puts ++ [(R.session, R.answer turns)]
  session : q.sessions.get R.session = none
  others : ∀ s ≠ R.session, q.sessions.get s = p.sessions.get s

variable {R}

theorem replies_ask (turns : List Turn) (l : Str) (labels : List Str) (frame : Mat)
    (version : ℕ) : R.replies (turns ++ [.ask l labels frame version]) = R.replies turns := by
  simp [replies, Turn.told]

theorem replies_tell (turns : List Turn) (l : Str) (labels : List Str) :
    R.replies (turns ++ [.tell l labels]) =
      R.replies turns ++ [replyFor l R.target (decimal R.session.toNat) labels] := by
  simp [replies, Turn.told]

/-- In proper turns there is one reply for each location. -/
theorem Proper.length_replies {turns : List Turn} (h : R.Proper turns) :
    (R.replies turns).length = R.locations.length := by
  rw [← h.every.length_eq]
  simp [replies]

/-- A reply that comes in is about one of the locations. -/
theorem Proper.mem_locations {turns : List Turn} (h : R.Proper turns) {l : Str}
    {labels : List Str} (hmem : .tell l labels ∈ turns) : l ∈ R.locations := by
  refine h.every.subset (List.mem_map.2 ⟨(l, labels), ?_, rfl⟩)
  exact List.mem_filterMap.2 ⟨_, hmem, rfl⟩

section

variable {p q : Producer} {turns : List Turn}

/-- **The request opens its session**, and every location is asked. -/
theorem collecting_request (hmode : p.edgeMode = ch 'e')
    (hunused : p.sessions.get R.session = none) :
    ∃ q, p.step D.lib (.interest R.request R.version R.session) = some q ∧
      R.Collecting p [] q ∧ q.face.expressed = p.face.expressed ++ R.locations.map R.sub := by
  have hnames : Producer.convertInterestName (D.textOf R.name) [] = .ok (R.locations.map fun l =>
      nameFor l (functionPart (D.textOf R.name)) (targetPart (D.textOf R.name))) := by
    rw [Producer.convertInterestName_eq R.accepted, List.nil_append, R.asks]
  have hrequest : Producer.convertInterestName
      (Producer.decodeURI (D.lib.toUri R.request.name)) [] = _ := hnames
  have hstep : p.step D.lib (.interest R.request R.version R.session) = some
      { p.opened R.request R.version R.session R.locations.length with
        face := { p.face with expressed := p.face.expressed ++ R.locations.map R.sub } } := by
    rw [Producer.step, Producer.handleInterest, if_neg (by rw [hmode]; decide), if_pos hmode,
      Option.bind_some, Producer.onInterest_eq hrequest, hmode, List.length_map, List.map_map]
    rfl
  have hget : ∀ s, (p.opened R.request R.version R.session R.locations.length).sessions.get s =
      (p.sessions.add R.session (packetFor R.request R.version)).get s := fun _ => rfl
  refine ⟨_, hstep, ⟨rfl, rfl, rfl, ?_, fun s hs => ?_⟩, rfl⟩
  · rw [hget, SessionManager.add_get, if_pos rfl, hunused]
    rfl
  · rw [hget, SessionManager.add_get, if_neg hs]

theorem texts_tell (turns : List Turn) (l : Str) (labels : List Str) :
    (R.replies (turns ++ [.tell l labels])).map (encode D.lib) =
      (R.replies turns).map (encode D.lib) ++ [(R.data l labels).content] := by
  rw [replies_tell, List.map_append, List.map_singleton]
  rfl

/-- **One more reply is collected, or the last one answers the page.** -/
theorem collecting_tell (hD : D.Documented) (h : R.Collecting p turns q) (l : Str)
    (labels : List Str) :
    ∃ q', q.step D.lib (.data (R.sub l) (R.data l labels)) = some q' ∧
      q'.face.expressed = q.face.expressed ∧
      if (R.replies turns).length + 1 = R.locations.length then
        R.Finished p (turns ++ [.tell l labels]) q'
      else R.Collecting p (turns ++ [.tell l labels]) q' := by
  have hgathering : Producer.Gathering R.session (packetFor R.request R.version)
      R.locations.length p ((R.replies turns).map (encode D.lib)) q :=
    ⟨h.puts, by rw [List.length_map, h.arrived], h.issued, h.session, h.others⟩
  obtain ⟨q', hq', hexpressed, -, hnext⟩ := hgathering.collect
    (show Producer.sessionIdOf D.lib (R.data l labels).content = .ok (some R.session) from
      Producer.sessionIdOf_encode hD.json hD.cast rfl)
  rw [List.length_map, ← texts_tell] at hnext
  refine ⟨q', congrArg Except.toOption hq', hexpressed, ?_⟩
  split
  · rename_i hlast
    rw [if_pos hlast] at hnext
    exact ⟨hnext.puts, hnext.session, hnext.others⟩
  · rename_i hlast
    rw [if_neg hlast] at hnext
    obtain ⟨hputs, harrived, hissued, hsession, hothers⟩ := hnext
    rw [List.length_map] at harrived
    exact ⟨hputs, harrived, hissued, hsession, hothers⟩

end

/-! ## The workers -/

theorem fields {l : Str} (hl : l ∈ R.locations) :
    SubFields l (functionPart (D.textOf R.name)) (targetPart (D.textOf R.name)) := by
  apply subFields_of_mem
  rwa [R.asks]

/-- **A sub-Interest reaches the worker of its location.** -/
theorem reached (hlib : D.lib.UriDocumented) {l : Str} (hl : l ∈ R.locations) :
    D.lib.ofUri (D.cdString (R.place l)) <+: (R.sub l).name := by
  rw [R.placed l hl]
  exact locationPath_prefix hlib (fields hl) (R.legible l hl)

/-- **Asked, the worker of a location tells what it sees.** -/
theorem ask_answered (hlib : D.lib.UriDocumented) {l : Str} (hl : l ∈ R.locations) {w : Worker}
    (hw : w.cdString = D.cdString (R.place l)) (labels : List Str) (frame : Mat) (version : ℕ) :
    D.workerAct w (R.arrival l labels frame version) = some (w, [.data (R.data l labels)]) := by
  obtain ⟨targets, htargets⟩ := R.about
  have hfields := fields hl
  have hunescape : uriUnescape (targetPart (D.textOf R.name)) = targetPart (D.textOf R.name) :=
    uriUnescape_of_not_mem fun h => isPlain_ne_percent (R.plain _ h) rfl
  have hspace : ch ' ' ∉ uriUnescape (targetPart (D.textOf R.name)) := by
    rw [hunescape]
    exact hfields.space_target
  have hpieces : piecesOf (decoded (uriUnescape (targetPart (D.textOf R.name)))) =
      R.target :: targets := by
    rw [hunescape, decoded_of_plain R.plain]
    exact htargets
  have hreceive : w.receive D.lib (R.arrival l labels frame version) = .ok (w,
      [.data (w.edgeData D.lib (R.sub l) R.target (decimal R.session.toNat) labels)]) :=
    Worker.onInterest_received ((R.legible l hl).inverseAt hlib R.session) hspace hpieces w labels
      frame version
  have hdata : w.edgeData D.lib (R.sub l) R.target (decimal R.session.toNat) labels =
      R.data l labels := by
    rw [Worker.edgeData, Worker.reply, hw, R.placed l hl, location_of_path hfields.slash_location]
    rfl
  unfold workerAct
  rw [hw, if_pos (show _ <+: (R.arrival l labels frame version).interest.name from
    reached hlib hl), hreceive, hdata]
  rfl

/-! ## The turns -/

variable (R) in
/-- After the request and these turns. -/
structure During (c : Config Message Party.State) (turns : List Turn)
    (c' : Config Message Party.State) : Prop where
  pages : ∀ k, c'.states (.page k) =
    if k = R.page then (c.states (.page k)).sendRequest D.browser else c.states (.page k)
  cdString : ∀ k, (c'.states (.worker k)).cdString = D.cdString k
  expressed : ∀ l ∈ R.locations, R.sub l ∈ (c'.states .edge).face.expressed
  subs : ∀ l ∈ R.locations, .interest (R.sub l) ∈ c'.sent
  data : ∀ l labels frame version, .ask l labels frame version ∈ turns →
    .data (R.data l labels) ∈ c'.sent
  edge : if (R.replies turns).length < R.locations.length then
      R.Collecting (c.states .edge) turns (c'.states .edge)
    else R.Finished (c.states .edge) turns (c'.states .edge) ∧ .data (R.answer turns) ∈ c'.sent

section

variable {c c' : Config Message Party.State} {turns : List Turn} {l : Str} {labels : List Str}

/-- **A worker that is asked tells**, and nobody else notices. -/
theorem During.ask (hlib : D.lib.UriDocumented) (h : R.During c turns c') (hl : l ∈ R.locations)
    (labels : List Str) (frame : Mat) (version : ℕ) :
    ∃ c'', D.network.step c' (R.event (.ask l labels frame version)) = some c'' ∧
      R.During c (turns ++ [.ask l labels frame version]) c'' := by
  have hact : D.network.act (.worker (R.place l)) (c'.states (.worker (R.place l)))
      (R.arrival l labels frame version) =
        some (c'.states (.worker (R.place l)), [.data (R.data l labels)]) :=
    ask_answered hlib hl (h.cdString _) labels frame version
  have hneeds : ∀ m ∈ D.network.needs (.worker (R.place l)) (R.arrival l labels frame version),
      m ∈ c'.sent := by
    intro m hm
    rw [List.mem_singleton.1 hm]
    exact h.subs l hl
  refine ⟨_, Network.step_eq_some.2 ⟨hneeds, _, _, hact, rfl⟩, ?_⟩
  rw [Function.update_eq_self]
  refine ⟨h.pages, h.cdString, h.expressed, fun l' hl' => List.mem_append_left _ (h.subs l' hl'),
    fun l' labels' frame' version' hmem => ?_, ?_⟩
  · rcases List.mem_append.1 hmem with hmem | hmem
    · exact List.mem_append_left _ (h.data l' labels' frame' version' hmem)
    · obtain ⟨rfl, rfl, -, -⟩ := Turn.ask.inj (List.mem_singleton.1 hmem)
      exact List.mem_append_right _ (List.mem_singleton_self _)
  · have hsame : R.answer (turns ++ [.ask l labels frame version]) = R.answer turns := by
      rw [answer, replies_ask, answer]
    have hedge := h.edge
    rw [replies_ask, hsame]
    split
    · rename_i hlt
      rw [if_pos hlt] at hedge
      obtain ⟨hputs, harrived, hissued, hsession, hothers⟩ := hedge
      exact ⟨hputs, by rw [replies_ask, harrived], hissued, by rw [replies_ask, hsession], hothers⟩
    · rename_i hlt
      rw [if_neg hlt] at hedge
      obtain ⟨⟨hputs, hsession, hothers⟩, hsent⟩ := hedge
      exact ⟨⟨by rw [hsame, hputs], hsession, hothers⟩, List.mem_append_left _ hsent⟩

/-- **A reply comes in at the edge**, and the last one is answered. -/
theorem During.tell (hD : D.Documented) (h : R.During c turns c') (hl : l ∈ R.locations)
    {frame : Mat} {version : ℕ} (hasked : .ask l labels frame version ∈ turns)
    (hroom : (R.replies turns).length < R.locations.length) :
    ∃ c'', D.network.step c' (R.event (.tell l labels)) = some c'' ∧
      R.During c (turns ++ [.tell l labels]) c'' := by
  have hcollecting := h.edge
  rw [if_pos hroom] at hcollecting
  obtain ⟨q, hq, hexpressed, hnext⟩ := collecting_tell hD hcollecting l labels
  have hreceives : D.EdgeReceives (c'.states .edge) (.data (R.sub l) (R.data l labels)) :=
    ⟨h.expressed l hl, List.prefix_refl _⟩
  have hact : D.network.act .edge (c'.states .edge) (.data (R.sub l) (R.data l labels)) =
      some (q, (q.face.puts.drop (c'.states .edge).face.puts.length).map
        fun put => .data put.2) := by
    change D.edgeAct _ _ = _
    rw [edgeAct, if_pos hreceives, hq, Option.map_some, hexpressed, List.drop_length]
    rfl
  have hneeds : ∀ m ∈ D.network.needs .edge (.data (R.sub l) (R.data l labels)),
      m ∈ c'.sent := by
    intro m hm
    rw [List.mem_singleton.1 hm]
    exact h.data l labels frame version hasked
  have hlength : (R.replies (turns ++ [.tell l labels])).length =
      (R.replies turns).length + 1 := by
    rw [replies_tell, List.length_append, List.length_singleton]
  refine ⟨_, Network.step_eq_some.2 ⟨hneeds, _, _, hact, rfl⟩, fun k => ?_, fun k => ?_,
    fun l' hl' => ?_, fun l' hl' => List.mem_append_left _ (h.subs l' hl'),
    fun l' labels' frame' version' hmem => ?_, ?_⟩
  · rw [Network.states_update_other _ (by simp)]
    exact h.pages k
  · rw [Network.states_update_other _ (by simp)]
    exact h.cdString k
  · rw [Network.states_update_self, hexpressed]
    exact h.expressed l' hl'
  · rcases List.mem_append.1 hmem with hmem | hmem
    · exact List.mem_append_left _ (h.data l' labels' frame' version' hmem)
    · exact absurd (List.mem_singleton.1 hmem) (by simp)
  · rw [Network.states_update_self, hlength]
    by_cases hlast : (R.replies turns).length + 1 = R.locations.length
    · rw [if_pos hlast] at hnext
      rw [if_neg (by omega)]
      refine ⟨hnext, List.mem_append_right _ ?_⟩
      rw [hnext.puts, hcollecting.puts, List.drop_left]
      exact List.mem_singleton_self _
    · rw [if_neg hlast] at hnext
      rw [if_pos (by omega)]
      exact hnext

end

/-- **The turns lead to the last reply.** -/
theorem During.run (hD : D.Documented) {c c' : Config Message Party.State} {turns : List Turn}
    (hturns : R.Proper turns) (h : R.During c [] c') :
    ∃ c'', Runs.exec D.network.step c' (turns.map R.event) = some c'' ∧ R.During c turns c'' := by
  have hall : ∀ pre post, turns = pre ++ post → ∃ c'',
      Runs.exec D.network.step c' (pre.map R.event) = some c'' ∧ R.During c pre c'' := by
    intro pre
    induction pre using List.reverseRecOn with
    | nil => exact fun _ _ => ⟨c', rfl, h⟩
    | append_singleton pre turn ih =>
      intro post hpost
      rw [List.append_assoc, List.singleton_append] at hpost
      obtain ⟨m, hm, hduring⟩ := ih (turn :: post) hpost
      have hstep : ∃ c'', D.network.step m (R.event turn) = some c'' ∧
          R.During c (pre ++ [turn]) c'' := by
        cases turn with
        | ask l labels frame version =>
          have hl := hturns.asked l labels frame version (by simp [hpost])
          exact hduring.ask hD.uri hl labels frame version
        | tell l labels =>
          obtain ⟨frame, version, hasked⟩ := hturns.before pre l labels post hpost
          have hmem : .tell l labels ∈ turns := by simp [hpost]
          have hl := hturns.mem_locations hmem
          -- this reply is one of those that come in
          have hroom : (R.replies pre).length < R.locations.length := by
            rw [← hturns.length_replies, hpost]
            simp [replies, Turn.told]
          exact hduring.tell hD hl hasked hroom
      obtain ⟨c'', hc'', hnext⟩ := hstep
      refine ⟨c'', ?_, hnext⟩
      rw [List.map_append, List.map_singleton, Runs.exec_concat]
      exact ⟨m, hm, hc''⟩
  exact hall turns [] (List.append_nil turns).symm

end Round

/-! ## What every run keeps -/

/-- A page has at most one Interest outstanding, and none while it is free to ask. -/
structure Quiet (c : Client) : Prop where
  one : c.outstanding.length ≤ 1
  free : c.isFinding = false → c.outstanding = []
  rows : c.cellsArray.length = 16

/-- What the parties keep in any run. -/
structure Sound (D : Deployment) (c : Config Message Party.State) : Prop where
  edgeMode : (c.states .edge).edgeMode = ch 'e'
  cdString : ∀ k, (c.states (.worker k)).cdString = D.cdString k
  quiet : ∀ k, Quiet (c.states (.page k))

section

variable {D : Deployment}

theorem quiet_pageAct {c c' : Client} {input : PageInput} {out : List Message} (h : Quiet c)
    (hact : D.pageAct c input = some (c', out)) : Quiet c' := by
  cases input with
  | tick =>
    obtain ⟨rfl, -⟩ := Prod.mk.inj (Option.some.inj hact)
    rcases Client.sendRequest_eq D.browser c with ⟨hsame, -⟩ | ⟨-, hfree, hset, hsent, hcells⟩
    · rw [hsame]
      exact h
    · refine ⟨?_, fun hf => absurd (hset.symm.trans hf) (by decide), ?_⟩
      · rw [hsent, h.free hfree]
        exact Nat.le_refl 1
      · rw [hcells]
        exact h.rows
  | registerTarget target name =>
    obtain ⟨rfl, -⟩ := Prod.mk.inj (Option.some.inj hact)
    exact ⟨h.one, h.free, h.rows⟩
  | data position packet =>
    simp only [pageAct] at hact
    split at hact
    · exact absurd hact.symm (Option.some_ne_none _)
    · rename_i name hname
      rw [Option.ite_none_right_eq_some, Option.some.injEq, Prod.mk.injEq] at hact
      obtain ⟨-, rfl, -⟩ := hact
      have hnone := Client.settle_outstanding h.one (List.getElem?_eq_some_iff.1 hname).1
      have hsettled : ((c.settle position).onData D.browser packet.content).client.outstanding =
          [] := (Client.sameNames_onData D.browser _ _).2.2.trans hnone
      refine ⟨by rw [hsettled]; exact Nat.zero_le 1, fun _ => hsettled, ?_⟩
      exact (Client.rows_onData _ _).trans h.rows
  | timeout position =>
    simp only [pageAct] at hact
    rw [Option.ite_none_right_eq_some, Option.some.injEq, Prod.mk.injEq] at hact
    obtain ⟨hposition, rfl, -⟩ := hact
    have hnone : ((c.settle position).onTimeout D.browser).outstanding = [] :=
      Client.settle_outstanding h.one hposition
    exact ⟨by rw [hnone]; exact Nat.zero_le 1, fun _ => hnone, h.rows⟩

/-- **Every run keeps the parties sound.** -/
theorem sound {es : History} {c : Config Message Party.State}
    (hrun : Runs.exec D.network.step D.begin es = some c) : D.Sound c := by
  have hparty := Network.exec_party hrun
  refine ⟨?_, fun k => ?_, fun k => ?_⟩
  · refine Runs.history (P := fun _ (p : Producer) => p.edgeMode = ch 'e') rfl ?_ _ _
      (hparty .edge)
    intro _ p e p' _ hp hstep
    obtain ⟨⟨q, out⟩, hact, rfl⟩ := Option.map_eq_some_iff.1 hstep
    change D.edgeAct p e = some (q, out) at hact
    unfold edgeAct at hact
    rw [Option.ite_none_right_eq_some, Option.map_eq_some_iff] at hact
    obtain ⟨-, r, hr, heq⟩ := hact
    obtain ⟨rfl, -⟩ := Prod.mk.inj heq
    exact (Producer.edgeMode_step hr).trans hp
  · refine Runs.history (P := fun _ (w : Worker) => w.cdString = D.cdString k) rfl ?_ _ _
      (hparty (.worker k))
    intro _ w a w' _ hw hstep
    obtain ⟨⟨v, out⟩, hact, rfl⟩ := Option.map_eq_some_iff.1 hstep
    change D.workerAct w a = some (v, out) at hact
    unfold workerAct at hact
    rw [Option.ite_none_right_eq_some, Option.map_eq_some_iff] at hact
    obtain ⟨-, ⟨u, packets⟩, hok, heq⟩ := hact
    obtain ⟨rfl, -⟩ := Prod.mk.inj heq
    exact (Worker.cdString_of_receive (Producer.toOption_eq_some hok)).trans hw
  · refine Runs.history (P := fun _ (c : Client) => Quiet c) ?_ ?_ _ _ (hparty (.page k))
    · exact ⟨Nat.zero_le 1, fun _ => rfl, rfl⟩
    · intro _ c e c' _ hc hstep
      obtain ⟨⟨d, out⟩, hact, rfl⟩ := Option.map_eq_some_iff.1 hstep
      exact quiet_pageAct hc hact

end

/-! ## A round -/

namespace Round

variable {D : Deployment} {R : D.Round} {c : Config Message Party.State} {turns : List Turn}

variable (R) in
/-- What a round leaves: one more Data packet, no session, and a page that shows the replies and is
free to ask again. -/
structure Outcome (turns : List Turn) (c c' : Config Message Party.State) : Prop where
  puts : (c'.states .edge).face.puts =
    (c.states .edge).face.puts ++ [(R.session, R.answer turns)]
  sessions : ∀ s, (c'.states .edge).sessions.get s = (c.states .edge).sessions.get s
  others : ∀ k ≠ R.page, c'.states (.page k) = c.states (.page k)
  free : (c'.states (.page R.page)).isFinding = false
  target : (c'.states (.page R.page)).target = (c.states (.page R.page)).target
  name : (c'.states (.page R.page)).cd = (c.states (.page R.page)).cd
  elements : ∀ id ∈ (c.states (.page R.page)).page, id ∈ (c'.states (.page R.page)).page
  marks : ∀ x y, (c'.states (.page R.page)).mark x y =
    Runs.lastWrite (Client.goesTo D.browser x y) Client.markOf
      ((R.replies turns).map D.browser.result) ((c.states (.page R.page)).mark x y)

theorem locations_ne_nil (R : D.Round) : R.locations ≠ [] := by
  rw [← R.asks]
  exact List.splitOn_ne_nil _ _

/-- **The request of a free page reaches the edge**, which asks every location. -/
theorem during_request (hc : D.Sound c) (hready : R.Ready c) :
    ∃ c', Runs.exec D.network.step c [⟨.page R.page, PageInput.tick⟩,
        ⟨.edge, Event.interest R.request R.version R.session⟩] = some c' ∧ R.During c [] c' := by
  obtain ⟨p, hp⟩ : ∃ p, p = c.states (.page R.page) := ⟨_, rfl⟩
  have hsent : (p.sendRequest D.browser).outstanding = p.outstanding ++ [R.name] := by
    rcases Client.sendRequest_eq D.browser p with ⟨-, hno⟩ | ⟨-, -, -, hsent, -⟩
    · rcases hno with hno | hno
      · exact absurd hno (hp ▸ hready.target)
      · exact absurd (hno.symm.trans (hp ▸ hready.free)) (by decide)
    · rw [hsent, show p.cd = R.name from hp ▸ hready.name]
  have htick : D.network.act (.page R.page) p PageInput.tick =
      some (p.sendRequest D.browser, [.interest R.request]) := by
    change some (_, _) = _
    rw [hsent, List.drop_left]
    rfl
  obtain ⟨q, hq, hcollecting, hexpressed⟩ := collecting_request hc.edgeMode hready.unused
  have hasked : D.network.act .edge (c.states .edge)
      (Event.interest R.request R.version R.session) = some (q, (R.locations.map R.sub).map
        .interest ++ (q.face.puts.drop (c.states .edge).face.puts.length).map
          fun put => .data put.2) := by
    change D.edgeAct _ _ = _
    rw [edgeAct, if_pos (show D.EdgeReceives _ (.interest R.request _ _) from R.reaches), hq,
      Option.map_some, hexpressed, List.drop_left]
  -- the page asks
  obtain ⟨c₁, hc₁⟩ : ∃ c₁ : Config Message Party.State, c₁ = {
      states := Function.update c.states (.page R.page) (p.sendRequest D.browser)
      sent := c.sent ++ [.interest R.request] } := ⟨_, rfl⟩
  have hstep₁ : D.network.step c ⟨.page R.page, PageInput.tick⟩ = some c₁ := by
    rw [hp] at htick
    refine Network.step_eq_some.2 ⟨fun m hm => absurd hm List.not_mem_nil, _, _, htick, ?_⟩
    rw [hc₁, hp]
  have hedge : c₁.states .edge = c.states .edge := by
    rw [hc₁]
    exact Network.states_update_other _ (by simp) _ _
  -- the edge takes the request
  have hneeds : ∀ m ∈ D.network.needs .edge (Event.interest R.request R.version R.session),
      m ∈ c₁.sent := by
    intro m hm
    rw [List.mem_singleton.1 hm, hc₁]
    exact List.mem_append_right _ (List.mem_singleton_self _)
  rw [← hedge] at hasked
  have hrun : Runs.exec D.network.step c ([⟨.page R.page, PageInput.tick⟩] ++
      [⟨.edge, Event.interest R.request R.version R.session⟩]) = some _ :=
    Runs.exec_concat.2 ⟨c₁, by rw [Runs.exec_cons, hstep₁]; rfl,
      Network.step_eq_some.2 ⟨hneeds, _, _, hasked, rfl⟩⟩
  refine ⟨_, hrun, fun k => ?_, fun k => ?_, fun l hl => ?_, fun l hl => ?_,
    fun l labels frame version hmem => absurd hmem List.not_mem_nil, ?_⟩
  · rw [Network.states_update_other _ (by simp), hc₁]
    by_cases hk : k = R.page
    · rw [if_pos hk, hk, Network.states_update_self, hp]
    · rw [if_neg hk, Network.states_update_other _ (by simpa using hk)]
  · rw [Network.states_update_other _ (by simp), hc₁, Network.states_update_other _ (by simp)]
    exact hc.cdString k
  · rw [Network.states_update_self, hexpressed]
    exact List.mem_append_right _ (List.mem_map_of_mem hl)
  · refine List.mem_append_right _ (List.mem_append_left _ ?_)
    exact List.mem_map_of_mem (List.mem_map_of_mem hl)
  · have hroom : (R.replies []).length < R.locations.length :=
      List.length_pos_iff.2 R.locations_ne_nil
    rw [if_pos hroom, Network.states_update_self]
    exact hcollecting

/-- **The answer reaches the page**, which shows it. -/
theorem outcome_answer (hD : D.Documented) (hc : D.Sound c) (hready : R.Ready c)
    (hturns : R.Proper turns) {c' : Config Message Party.State} (h : R.During c turns c') :
    ∃ c'', D.network.step c' ⟨.page R.page, PageInput.data 0 (R.answer turns)⟩ = some c'' ∧
      R.Outcome turns c c'' := by
  have hedge := h.edge
  rw [if_neg (by rw [hturns.length_replies]; exact Nat.lt_irrefl _)] at hedge
  obtain ⟨hfinished, hsent⟩ := hedge
  obtain ⟨p, hp⟩ : ∃ p, p = c.states (.page R.page) := ⟨_, rfl⟩
  have hpage : c'.states (.page R.page) = p.sendRequest D.browser := by
    rw [h.pages, if_pos rfl, hp]
  have hquiet : Quiet p := hp ▸ hc.quiet R.page
  -- the page waits for the answer to this request
  obtain ⟨q, hq⟩ : ∃ q, q = p.sendRequest D.browser := ⟨_, rfl⟩
  obtain ⟨hsent', hcells, htarget, hname, helements⟩ : q.outstanding = [R.name] ∧
      q.cellsArray = p.cellsArray ∧ q.target = p.target ∧ q.cd = p.cd ∧
        ∀ id ∈ p.page, id ∈ q.page := by
    rcases Client.sendRequest_eq D.browser p with ⟨-, hno⟩ | ⟨htarget, hfree, -, hsent, hcells⟩
    · rcases hno with hno | hno
      · exact absurd hno (hp ▸ hready.target)
      · exact absurd (hno.symm.trans (hp ▸ hready.free)) (by decide)
    · obtain ⟨hsame, hsame'⟩ := registered_sendRequest D.browser p
      rw [hq]
      refine ⟨?_, hcells, hsame, hsame', fun id hid => ?_⟩
      · rw [hsent, hquiet.free hfree, show p.cd = R.name from hp ▸ hready.name]
        rfl
      · unfold Client.sendRequest
        rw [if_pos htarget, if_pos hfree]
        exact List.mem_append_left _ hid
  -- all the replies can be shown
  have hshown : Client.Shown D.lib D.browser (q.settle 0) (R.replies turns) := by
    refine Client.shown_iff.2 ⟨?_, Client.canShowAll_of_mem fun r hr => ?_⟩
    · rw [← List.length_pos_iff, hturns.length_replies]
      exact List.length_pos_iff.2 R.locations_ne_nil
    · obtain ⟨reply, hreply, rfl⟩ := List.mem_map.1 hr
      obtain ⟨⟨l, labels⟩, htold, rfl⟩ := List.mem_map.1 hreply
      have hl : l ∈ R.locations := hturns.every.subset (List.mem_map.2 ⟨_, htold, rfl⟩)
      refine ⟨List.mem_append_left _ (helements _ ?_), R.rows l hl⟩
      exact hp ▸ hready.element
  obtain ⟨hfree, hkept, hmarks⟩ := Client.onData_of_shown hD.json hD.browser (c := q.settle 0)
    (hcells ▸ hquiet.rows) hshown
  obtain ⟨htarget', hname', -⟩ := Client.sameNames_onData D.browser (q.settle 0)
    (R.answer turns).content
  have hsatisfied : (D.interestOf R.name).SatisfiedBy (R.answer turns).name := by
    unfold Interest.SatisfiedBy
    rw [if_pos R.prefixes]
    exact List.prefix_append _ _
  have hshows : D.pageAct q (.data 0 (R.answer turns)) =
      some (((q.settle 0).onData D.browser (R.answer turns).content).client, []) := by
    simp only [pageAct, hsent', List.getElem?_cons_zero]
    rw [if_pos hsatisfied]
  have hact : D.network.act (.page R.page) (c'.states (.page R.page))
      (PageInput.data 0 (R.answer turns)) =
        some (((q.settle 0).onData D.browser (R.answer turns).content).client, []) := by
    rw [hpage, ← hq]
    exact hshows
  have hneeds : ∀ m ∈ D.network.needs (.page R.page) (PageInput.data 0 (R.answer turns)),
      m ∈ c'.sent := by
    intro m hm
    rw [List.mem_singleton.1 hm]
    exact hsent
  refine ⟨_, Network.step_eq_some.2 ⟨hneeds, _, _, hact, rfl⟩, ?_, fun s => ?_, fun k hk => ?_,
    ?_, ?_, ?_, fun id hid => ?_, fun x y => ?_⟩
  · rw [Network.states_update_other _ (by simp)]
    exact hfinished.puts
  · rw [Network.states_update_other _ (by simp)]
    by_cases hs : s = R.session
    · rw [hs, hfinished.session, hready.unused]
    · exact hfinished.others s hs
  · rw [Network.states_update_other _ (by simpa using hk), h.pages, if_neg hk]
  · rw [Network.states_update_self]
    exact hfree
  · rw [Network.states_update_self, ← hp]
    exact htarget'.trans htarget
  · rw [Network.states_update_self, ← hp]
    exact hname'.trans hname
  · rw [Network.states_update_self]
    exact hkept id (helements id (hp ▸ hid))
  · rw [Network.states_update_self, ← hp]
    refine (hmarks x y).trans ?_
    have hsettled : (q.settle 0).cellsArray = p.cellsArray := hcells
    rw [Client.mark_of_cellsArray hsettled]

/-- **A request is answered, from every reachable state.** -/
theorem outcome (hD : D.Documented) (hc : D.Sound c) (hready : R.Ready c)
    (hturns : R.Proper turns) :
    ∃ c', Runs.exec D.network.step c (R.history turns) = some c' ∧ R.Outcome turns c c' := by
  obtain ⟨c₁, hc₁, hduring⟩ := during_request hc hready
  obtain ⟨c₂, hc₂, hduring⟩ := hduring.run hD hturns
  obtain ⟨c₃, hc₃, houtcome⟩ := outcome_answer hD hc hready hturns hduring
  refine ⟨c₃, Runs.exec_concat.2 ⟨c₂, ?_, hc₃⟩, houtcome⟩
  rw [Runs.exec_append, hc₁]
  exact hc₂

/-- What was ready for a request still is after another one. -/
theorem Outcome.ready {c' : Config Message Party.State} (h : R.Outcome turns c c') {S : D.Round}
    (hready : S.Ready c) : S.Ready c' := by
  have hunused : (c'.states .edge).sessions.get S.session = none :=
    (h.sessions _).trans hready.unused
  by_cases hpage : S.page = R.page
  · obtain ⟨-, htarget, hname, helement, -⟩ := hready
    rw [hpage] at htarget hname helement
    refine ⟨?_, ?_, ?_, ?_, hunused⟩ <;> rw [hpage]
    · exact h.free
    · exact h.target ▸ htarget
    · exact h.name.trans hname
    · exact h.elements _ helement
  · have hsame := h.others S.page hpage
    refine ⟨?_, ?_, ?_, ?_, hunused⟩ <;> rw [hsame]
    · exact hready.free
    · exact hready.target
    · exact hready.name
    · exact hready.element

end Round

/-! ## Any number of rounds -/

section

variable {D : Deployment}

/-- **Any number of requests are answered one after another, from every reachable state.**  If the
pages are free to ask and the session ids are not in use, then, in whatever order and however often
the workers are asked and in whatever order their replies come in, the edge answers every request
with one Data packet of the replies for all its locations, in the order they came in; each page is
free to ask again; and its map shows the last verdict for each cell. -/
theorem rounds_completed (hD : D.Documented) (rounds : List (D.Round × List Turn))
    {es : History} {c : Config Message Party.State}
    (hrun : Runs.exec D.network.step D.begin es = some c)
    (hproper : ∀ r ∈ rounds, r.1.Proper r.2) (hready : ∀ r ∈ rounds, r.1.Ready c) :
    ∃ c', Runs.exec D.network.step D.begin
        (es ++ rounds.flatMap fun r => r.1.history r.2) = some c' ∧
      (c'.states .edge).face.puts = (c.states .edge).face.puts ++
        rounds.map (fun r => (r.1.session, r.1.answer r.2)) ∧
      (∀ R : D.Round, R.Ready c → R.Ready c') ∧
      ∀ k x y, (c'.states (.page k)).mark x y =
        Runs.lastWrite (Client.goesTo D.browser x y) Client.markOf
          ((rounds.filter fun r => r.1.page = k).flatMap fun r =>
            (r.1.replies r.2).map D.browser.result) ((c.states (.page k)).mark x y) := by
  induction rounds generalizing es c with
  | nil =>
    refine ⟨c, ?_, (List.append_nil _).symm, fun _ h => h, fun _ _ _ => rfl⟩
    rwa [List.flatMap_nil, List.append_nil]
  | cons r rounds ih =>
    obtain ⟨R, turns⟩ := r
    obtain ⟨c₁, hc₁, houtcome⟩ := Round.outcome hD (sound hrun)
      (hready (R, turns) List.mem_cons_self) (hproper (R, turns) List.mem_cons_self)
    have hrun₁ : Runs.exec D.network.step D.begin (es ++ R.history turns) = some c₁ := by
      rw [Runs.exec_append, hrun]
      exact hc₁
    obtain ⟨c', hc', hputs, hkept, hmarks⟩ := ih hrun₁
      (fun r hr => hproper r (List.mem_cons_of_mem _ hr))
      fun r hr => houtcome.ready (hready r (List.mem_cons_of_mem _ hr))
    refine ⟨c', ?_, ?_, fun S hS => hkept S (houtcome.ready hS), fun k x y => ?_⟩
    · rwa [List.flatMap_cons, ← List.append_assoc]
    · rw [hputs, houtcome.puts, List.map_cons, List.append_assoc]
      rfl
    · rw [hmarks]
      by_cases hk : R.page = k
      · subst hk
        rw [houtcome.marks, List.filter_cons_of_pos (by simp), List.flatMap_cons,
          Runs.lastWrite_append]
      · rw [houtcome.others k (Ne.symm hk), List.filter_cons_of_neg (by simpa using hk)]

end

/-! ## Two rounds -/

/-- The page asks for a person at its first location. -/
def personRound (session : UInt64) : oneWorker.Round where
  page := 0
  name := personName
  version := 1
  session := session
  locations := [txt "30321"]
  target := txt "person"
  place _ := 0
  reaches := by decide +kernel
  prefixes := rfl
  accepted := by decide +kernel
  asks := by decide +kernel
  about := ⟨[], by decide +kernel⟩
  plain := by decide +kernel
  legible := by decide +kernel
  placed := by decide +kernel
  rows := by decide +kernel

/-- The worker is asked twice, and the first of its replies comes in. -/
def askedTwice (labels : List Str) : List Turn := [
  .ask (txt "30321") labels (Worker.onePixel 1) 1,
  .ask (txt "30321") [] (Worker.onePixel 1) 2,
  .tell (txt "30321") labels]

theorem proper_askedTwice (session : UInt64) (labels : List Str) :
    (personRound session).Proper (askedTwice labels) := by
  refine ⟨fun l seen frame version hmem => ?_, fun pre l seen post hpre => ?_, .refl _⟩
  · have hl : l = txt "30321" := by
      simp only [askedTwice, List.mem_cons, Turn.ask.injEq] at hmem
      rcases hmem with ⟨hl, -⟩ | ⟨hl, -⟩ | hmem
      · exact hl
      · exact hl
      · simp at hmem
    rw [hl]
    exact List.mem_singleton_self _
  · have hmem : .tell l seen ∈ askedTwice labels := by
      rw [hpre]
      exact List.mem_append_right _ List.mem_cons_self
    obtain ⟨rfl, rfl⟩ : l = txt "30321" ∧ seen = labels := by simpa [askedTwice] using hmem
    -- the worker was asked at the first turn
    cases pre with
    | nil => exact absurd (List.cons.inj hpre).1 (by simp)
    | cons turn pre =>
      rw [← (List.cons.inj hpre).1]
      exact ⟨_, _, List.mem_cons_self⟩

/-- A person is seen in the first round, and nobody in the second. -/
theorem rounds_completed_askedTwice : ∃ es c', Runs.exec oneWorker.network.step oneWorker.begin es =
      some c' ∧ (c'.states .edge).face.puts.length = 2 ∧ (c'.states (.page 0)).draw 5 6 =
        "notFound" := by
  have hsome : (Runs.exec oneWorker.network.step oneWorker.begin
      [⟨.page 0, PageInput.registerTarget (js "person") personName⟩]).isSome = true := rfl
  obtain ⟨c, hc⟩ := Option.isSome_iff_exists.1 hsome
  have hpage : c.states (.page 0) =
      Client.start.registerTarget referenceBrowser (js "person") personName := by
    rw [← Option.some.inj hc]
    rfl
  have hedge : c.states .edge = Producer.start (ch 'e') := by
    rw [← Option.some.inj hc]
    rfl
  have hready : ∀ session, (personRound session).Ready c := by
    intro session
    have htarget : (c.states (.page 0)).target ≠ [] := by
      rw [hpage]
      decide
    have helement : referenceBrowser.readText (txt "person") ∈ (c.states (.page 0)).page := by
      rw [hpage]
      decide +kernel
    exact ⟨congrArg Client.isFinding hpage, htarget, congrArg Client.cd hpage, helement,
      congrArg (fun p : Producer => p.sessions.get session) hedge⟩
  obtain ⟨c', hc', hputs, -, hmarks⟩ := rounds_completed documented_oneWorker
    [(personRound 7, askedTwice [txt "person"]), (personRound 8, askedTwice [])] hc
    (by
      intro r hr
      simp only [List.mem_cons, List.not_mem_nil, or_false] at hr
      rcases hr with rfl | rfl
      · exact proper_askedTwice _ _
      · exact proper_askedTwice _ _)
    (by
      intro r hr
      simp only [List.mem_cons, List.not_mem_nil, or_false] at hr
      rcases hr with rfl | rfl
      · exact hready _
      · exact hready _)
  have hmark : (c'.states (.page 0)).mark 5 6 = 2 := by
    rw [hmarks, hpage]
    decide +kernel
  refine ⟨_, c', hc', ?_, ?_⟩
  · rw [hputs, hedge]
    rfl
  · rw [Client.draw, hmark]
    rfl

end Deployment

end Crowdsensing
