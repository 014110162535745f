import Crowdsensing.Edge.Lifecycle

/-!
# Counting the replies of a request

`onData` and `adddata` decide with two counters whether a reply is the last one of
its session.  The edge has one pair of counters for all sessions: every client
Interest clears it, and every reply counts.

* `issued` — how many locations a client Interest asks.
* `Exact` — what the counters are for: a reply answers its session if and only if
  it is the last of its replies, and the answer carries all of them.
* `InTurn` — a reply for the newest session, or one that finds neither its own
  session nor the newest one alive.
* `counters_step` — what an event does to the counters.
* `aggregation_exact_in_turn` — **as long as every reply comes in turn, the counters
  are exact**.
* `aggregation_not_exact` — with two requests at once they need not be.
-/

namespace Crowdsensing

open Text

/-! ## What the counters are for -/

/-- The sub-Interests a client Interest is answered with: one for each location. -/
def issued (lib : Externals) (interest : Interest) : ℕ :=
  (locationsOf (Producer.decodeURI (lib.toUri interest.name))).length

/-- The next reply is the last one of a live session. -/
def IsLastReply (lib : Externals) (es : List Event) (p : Producer) (s : UInt64) : Prop :=
  p.sessions.get s ≠ none ∧ ∃ i version, .interest i version s ∈ es ∧
    (payloads lib s es).length + 1 = issued lib i

/-- A reply answers its session if and only if it is the last of its replies, and the
answer carries the replies of all locations. -/
def Exact (lib : Externals) (es : List Event) (p : Producer) (e : Event) : Prop :=
  ∀ s text, e.named lib = some (s, text) → ∀ p', p.step lib e = some p' →
    ((∃ data, p'.face.puts = p.face.puts ++ [(s, data)]) ↔ IsLastReply lib es p s) ∧
    ∀ data, p'.face.puts = p.face.puts ++ [(s, data)] → ∃ i version,
      .interest i version s ∈ es ∧ (payloads lib s (es ++ [e])).length = issued lib i ∧
      data = (packetFor i version).setContent (collected (payloads lib s (es ++ [e])))

/-- A reply names the newest session, or finds neither its own session nor the newest
one alive. -/
def InTurn (lib : Externals) (es : List Event) (p : Producer) (e : Event) : Prop :=
  ∀ s text, e.named lib = some (s, text) → ∀ c, (opened es).getLast? = some c →
    s = c ∨ (p.sessions.get s = none ∧ p.sessions.get c = none)

instance (lib : Externals) (es : List Event) (p : Producer) (e : Event) :
    Decidable (InTurn lib es p e) :=
  decidable_of_iff ((e.named lib).all fun r => (opened es).getLast?.all fun c =>
      r.1 = c ∨ (p.sessions.get r.1 = none ∧ p.sessions.get c = none)) <| by
    simp only [Option.all_eq_true, decide_eq_true_eq, InTurn, Prod.forall]

/-! ## One step -/

theorem issued_pos (lib : Externals) (i : Interest) : 0 < issued lib i := by
  unfold issued
  apply List.length_pos_iff.2
  exact List.splitOn_ne_nil _ _

namespace Producer

section

variable {lib : Externals} {p p' : Producer} {s : UInt64}

/-- **A client Interest clears the count and sets the number of its locations.** -/
theorem counters_handleInterest {i : Interest} {version : ℕ}
    (h : p.handleInterest lib i version s = some (.ok p')) :
    p'.numberOfArrivalInterest = 0 ∧ p'.issuedInterest = issued lib i := by
  obtain ⟨names, q, hnames, rfl, _, _, _, _, rfl⟩ := exists_of_handleInterest h
  refine ⟨rfl, ?_⟩
  change names.length = issued lib i
  rw [(convertInterestName_eq_ok hnames).2, List.nil_append, List.length_map, issued]

theorem counters_finish (p : Producer) (s : UInt64) :
    (p.finish s).numberOfArrivalInterest = p.numberOfArrivalInterest ∧
      (p.finish s).issuedInterest = p.issuedInterest := by
  unfold finish
  cases p.sessions.get s <;> exact ⟨rfl, rfl⟩

/-- **Only a client Interest and a reply that names a session move the counters.** -/
theorem counters_step {e : Event} (h : p.step lib e = some p') (hopen : e.opening = none)
    (hnamed : e.named lib = none) :
    p'.numberOfArrivalInterest = p.numberOfArrivalInterest ∧
      p'.issuedInterest = p.issuedInterest := by
  cases step_iff.1 h with
  | asked accepted => exact absurd hopen nofun
  | dropped payload unnamed => exact ⟨rfl, rfl⟩
  | replied named => exact absurd (hnamed.symm.trans named) nofun
  | expired armed => exact counters_finish _ _
  | called pending => exact counters_finish _ _

end

/-- The Data packets a reply makes the edge put: none, or the one of its session. -/
theorem puts_of_named {lib : Externals} {p p' : Producer} {e : Event} {s : UInt64} {text : Str}
    (he : e.named lib = some (s, text)) (h : p.step lib e = some p') :
    p'.face.puts = p.face.puts ++ (if p.numberOfArrivalInterest + 1 = p.issuedInterest then
      ((p.sessions.get s).map fun session =>
        (s, session.dataPtr.setContent (session.buffer ++ text ++ [ch '\n']))).toList else []) := by
  rw [step_of_named he, Option.some.injEq] at h
  rw [← h]
  by_cases hlast : p.numberOfArrivalInterest + 1 = p.issuedInterest
  · rw [if_pos hlast, if_pos hlast]
    have hget : (p.collect text s).sessions.get s = (p.sessions.get s).map fun session =>
        { session with buffer := session.buffer ++ text ++ [ch '\n'] } := by
      show (p.sessions.appendPayload s text).2.get s = _
      rw [SessionManager.appendPayload_get, if_pos rfl]
    have hputs := puts_finish (p.collect text s) s
    rw [hget, Option.map_map] at hputs
    exact hputs
  · rw [if_neg hlast, if_neg hlast]
    exact (List.append_nil _).symm

end Producer

/-- A session that is gone does not come back. -/
theorem SessionStep.session_none {lib : Externals} {s : UInt64} {e : Event} {v v' : View}
    (h : SessionStep lib s e v v') (hv : v.session = none) (hopen : e.opening ≠ some s) :
    v'.session = none := by
  cases h with
  | opened i version => exact absurd rfl hopen
  | received named =>
    rw [View.received, hv]
    rfl
  | completed named => exact View.answered_session _
  | expired armed => exact View.answered_session _
  | called pending => exact View.answered_session _
  | other about => exact hv

/-! ## Runs -/

/-- The counters count for the newest session, and no live session has all its
replies. -/
structure Counted (lib : Externals) (es : List Event) (p : Producer) : Prop where
  short : ∀ s i version, .interest i version s ∈ es → p.sessions.get s ≠ none →
    (payloads lib s es).length < issued lib i
  newest : ∀ c i version, (opened es).getLast? = some c → .interest i version c ∈ es →
    p.sessions.get c ≠ none → p.numberOfArrivalInterest = (payloads lib c es).length ∧
      p.issuedInterest = issued lib i

section

variable {lib : Externals} {mode : UInt8} {es : List Event} {p p' : Producer} {e : Event}

/-- A live session was opened. -/
theorem mem_opened_of_live {s : UInt64} (h : Tracked lib mode es s (p.view s))
    (hlive : p.sessions.get s ≠ none) : ∃ i version, OpenedBy es s i version ∧
      p.view s = View.live s (packetFor i version) (payloads lib s es) := by
  rcases h with ⟨-, hblank⟩ | ⟨i, version, hopen, hv | ⟨_, _, _, _, _, _, _, _, _, _, hdone⟩⟩
  · exact absurd (congrArg View.session hblank) hlive
  · exact ⟨i, version, hopen, hv⟩
  · exact absurd hdone.session hlive

/-- In turn, a reply that finds its session alive is for the newest one. -/
theorem newest_of_live {s : UInt64} {text : Str} (hturn : InTurn lib es p e)
    (he : e.named lib = some (s, text)) (hs : s ∈ opened es) (hlive : p.sessions.get s ≠ none) :
    (opened es).getLast? = some s := by
  have hne : opened es ≠ [] := List.ne_nil_of_mem hs
  have hlast := List.getLast?_eq_some_getLast hne
  rcases hturn s text he _ hlast with heq | ⟨hdead, -⟩
  · rw [hlast, ← heq]
  · exact absurd hdead hlive

/-- Only an Interest that opens a session adds to what was opened. -/
theorem mem_of_mem_concat {i : Interest} {version : ℕ} {s : UInt64} (hopen : e.opening ≠ some s)
    (h : .interest i version s ∈ es ++ [e]) : .interest i version s ∈ es := by
  rcases List.mem_append.1 h with h | h
  · exact h
  · rw [← List.mem_singleton.1 h] at hopen
    exact absurd rfl hopen

/-- A session that is alive after a step was so before, if the step did not open it. -/
theorem live_of_step {s : UInt64} (hstep : p.step lib e = some p') (hopen : e.opening ≠ some s)
    (hlive : p'.sessions.get s ≠ none) : p.sessions.get s ≠ none :=
  fun hc => hlive ((Producer.view_step hstep s).session_none hc hopen)

/-- A client Interest starts the count of its own session. -/
theorem counted_opening {i : Interest} {version : ℕ} {s : UInt64}
    (hstep : p.step lib (.interest i version s) = some p') (hnot : s ∉ opened es)
    (h : Counted lib es p) : Counted lib (es ++ [.interest i version s]) p' := by
  obtain ⟨harrival, hissued⟩ :=
    Producer.counters_handleInterest (Producer.handleInterest_of_step hstep)
  have hself : ∀ i' version', .interest i' version' s ∈ es ++ [Event.interest i version s] →
      i' = i := fun i' version' hmem => ((OpenedBy.opening hnot i version).unique _ _ hmem).1
  have hzero : (payloads lib s (es ++ [.interest i version s])).length = 0 := by
    rw [payloads_opening hnot rfl]
    rfl
  constructor
  · intro k i' version' hmem hlive
    by_cases hk : k = s
    · subst hk
      rw [hzero]
      exact issued_pos lib i'
    · have hopen : (Event.interest i version s).opening ≠ some k :=
        fun hc => hk (Option.some.inj hc).symm
      have hmem' := mem_of_mem_concat hopen hmem
      rw [payloads_concat (mem_opened.2 ⟨i', version', hmem'⟩), payloadFor_of_payload rfl,
        Option.toList_none, List.append_nil]
      exact h.short k i' version' hmem' (live_of_step hstep hopen hlive)
  · intro c i' version' hc hmem hlive
    have hcs : s = c := by
      rw [opened_concat] at hc
      simpa [Event.opening] using hc
    subst hcs
    rw [hzero, hself i' version' hmem]
    exact ⟨harrival, hissued⟩

/-- An event that brings nothing leaves the count as it is. -/
theorem counted_silent (hstep : p.step lib e = some p') (hopen : e.opening = none)
    (hnamed : e.named lib = none) (h : Counted lib es p) : Counted lib (es ++ [e]) p' := by
  have hopen' : ∀ s, e.opening ≠ some s := fun s hc => nomatch hopen.symm.trans hc
  have hpayload : ∀ s, e.payloadFor lib s = none := by
    intro s
    rw [Event.payloadFor, hnamed]
    rfl
  have hpayloads : ∀ s i version, .interest i version s ∈ es →
      payloads lib s (es ++ [e]) = payloads lib s es := by
    intro s i version hmem
    rw [payloads_concat (mem_opened.2 ⟨i, version, hmem⟩), hpayload, Option.toList_none,
      List.append_nil]
  obtain ⟨harrival, hissued⟩ := Producer.counters_step hstep hopen hnamed
  constructor
  · intro s i version hmem hlive
    have hmem' := mem_of_mem_concat (hopen' s) hmem
    rw [hpayloads s i version hmem']
    exact h.short s i version hmem' (live_of_step hstep (hopen' s) hlive)
  · intro c i version hc hmem hlive
    have hmem' := mem_of_mem_concat (hopen' c) hmem
    rw [hpayloads c i version hmem', harrival, hissued]
    rw [opened_concat, hopen, Option.toList_none, List.append_nil] at hc
    exact h.newest c i version hc hmem' (live_of_step hstep (hopen' c) hlive)

/-- A reply in turn is counted for its own session. -/
theorem counted_named {s : UInt64} {text : Str} (hstep : p.step lib e = some p')
    (hnamed : e.named lib = some (s, text)) (hturn : InTurn lib es p e)
    (h : Counted lib es p) : Counted lib (es ++ [e]) p' := by
  have hopen := opening_of_named hnamed
  have hopen' : ∀ s, e.opening ≠ some s := fun s hc => nomatch hopen.symm.trans hc
  have hother : ∀ k i version, k ≠ s → .interest i version k ∈ es →
      payloads lib k (es ++ [e]) = payloads lib k es := by
    intro k i version hk hmem
    rw [payloads_concat (mem_opened.2 ⟨i, version, hmem⟩), Event.payloadFor, hnamed,
      Option.bind_some, if_neg (Ne.symm hk), Option.toList_none, List.append_nil]
  have hself : ∀ i version, .interest i version s ∈ es →
      (payloads lib s (es ++ [e])).length = (payloads lib s es).length + 1 := by
    intro i version hmem
    rw [payloads_concat (mem_opened.2 ⟨i, version, hmem⟩), payloadFor_of_named hnamed,
      Option.toList_some, List.length_append, List.length_singleton]
  -- a session that the reply leaves alive was not complete, so the counters went on
  have hcount : ∀ i version, .interest i version s ∈ es → p'.sessions.get s ≠ none →
      p'.numberOfArrivalInterest = (payloads lib s (es ++ [e])).length ∧
        p'.issuedInterest = issued lib i ∧ (payloads lib s (es ++ [e])).length < issued lib i := by
    intro i version hmem hlive
    have hlive' := live_of_step hstep (hopen' s) hlive
    have hnewest := newest_of_live hturn hnamed (mem_opened.2 ⟨i, version, hmem⟩) hlive'
    obtain ⟨harrival, hissued⟩ := h.newest s i version hnewest hmem hlive'
    have hshort := h.short s i version hmem hlive'
    rw [Producer.step_of_named hnamed, Option.some.injEq] at hstep
    rw [hself i version hmem]
    by_cases hlast : p.numberOfArrivalInterest + 1 = p.issuedInterest
    · rw [if_pos hlast] at hstep
      have hgone : (((p.collect text s).finish s).view s).session = none := by
        rw [Producer.view_finish, if_pos rfl, View.answered_session]
      rw [← hstep] at hlive
      exact absurd hgone hlive
    · rw [if_neg hlast] at hstep
      rw [← hstep]
      refine ⟨congrArg (· + 1) harrival, hissued, ?_⟩
      omega
  constructor
  · intro k i version hmem hlive
    have hmem' := mem_of_mem_concat (hopen' k) hmem
    by_cases hk : k = s
    · subst hk
      exact (hcount i version hmem' hlive).2.2
    · rw [hother k i version hk hmem']
      exact h.short k i version hmem' (live_of_step hstep (hopen' k) hlive)
  · intro c i version hc hmem hlive
    have hmem' := mem_of_mem_concat (hopen' c) hmem
    rw [opened_concat, hopen, Option.toList_none, List.append_nil] at hc
    have hcs : s = c := by
      rcases hturn s text hnamed c hc with heq | ⟨-, hdead⟩
      · exact heq
      · exact absurd hdead (live_of_step hstep (hopen' c) hlive)
    subst hcs
    obtain ⟨harrival, hissued, -⟩ := hcount i version hmem' hlive
    exact ⟨harrival, hissued⟩

/-- **One step in turn keeps the counters right.** -/
theorem counted_step (hstep : p.step lib e = some p') (hfresh : (opened (es ++ [e])).Nodup)
    (hturn : InTurn lib es p e) (h : Counted lib es p) : Counted lib (es ++ [e]) p' := by
  cases Producer.step_iff.1 hstep with
  | @asked i version s _ accepted =>
    exact counted_opening hstep (not_mem_opened hfresh rfl) h
  | dropped payload unnamed =>
    exact counted_silent hstep (opening_of_payload payload)
      (Event.named_of_unnamed payload unnamed) h
  | replied named => exact counted_named hstep named hturn h
  | expired armed => exact counted_silent hstep rfl rfl h
  | called pending => exact counted_silent hstep rfl rfl h

/-- **Where the counters are right, a reply in turn is answered as it should be.** -/
theorem exact_of_counted (htracked : ∀ s, Tracked lib mode es s (p.view s))
    (hturn : InTurn lib es p e) (h : Counted lib es p) : Exact lib es p e := by
  intro s text hnamed p' hstep
  have hputs := Producer.puts_of_named hnamed hstep
  by_cases hlive : p.sessions.get s = none
  · have hsame : p'.face.puts = p.face.puts := by
      rw [hputs, hlive]
      simp
    refine ⟨iff_of_false ?_ fun hlast => hlast.1 hlive, ?_⟩
    · rintro ⟨data, hdata⟩
      exact absurd (hsame.symm.trans hdata) (by simp)
    · intro data hdata
      exact absurd (hsame.symm.trans hdata) (by simp)
  · obtain ⟨i, version, hopen, hview⟩ := mem_opened_of_live (htracked s) hlive
    obtain ⟨i₀, version₀, hmem⟩ := mem_opened.1 hopen.mem
    obtain ⟨rfl, rfl⟩ := hopen.unique i₀ version₀ hmem
    have hnewest := newest_of_live hturn hnamed hopen.mem hlive
    obtain ⟨harrival, hissued⟩ := h.newest s i₀ version₀ hnewest hmem hlive
    have hlast : IsLastReply lib es p s ↔ p.numberOfArrivalInterest + 1 = p.issuedInterest := by
      rw [harrival, hissued]
      constructor
      · rintro ⟨-, i', version', hmem', heq⟩
        obtain ⟨rfl, rfl⟩ := hopen.unique i' version' hmem'
        exact heq
      · intro heq
        exact ⟨hlive, i₀, version₀, hmem, heq⟩
    have hget : p.sessions.get s = some _ := congrArg View.session hview
    have hpayloads : payloads lib s (es ++ [e]) = payloads lib s es ++ [text] := by
      rw [payloads_concat hopen.mem, payloadFor_of_named hnamed, Option.toList_some]
    rw [hget] at hputs
    by_cases heq : p.numberOfArrivalInterest + 1 = p.issuedInterest
    · rw [if_pos heq] at hputs
      refine ⟨iff_of_true ⟨_, hputs⟩ (hlast.2 heq), fun data hdata => ?_⟩
      refine ⟨i₀, version₀, hmem, ?_, ?_⟩
      · rw [hpayloads, List.length_append, List.length_singleton]
        omega
      · rw [hdata] at hputs
        have hsame := List.append_cancel_left hputs
        simp only [Option.map_some, Option.toList_some, List.cons.injEq, Prod.mk.injEq,
          true_and, and_true] at hsame
        rw [hsame, hpayloads, collected_concat]
    · rw [if_neg heq, List.append_nil] at hputs
      refine ⟨iff_of_false ?_ fun hl => heq (hlast.1 hl), ?_⟩
      · rintro ⟨data, hdata⟩
        exact absurd (hputs.symm.trans hdata) (by simp)
      · intro data hdata
        exact absurd (hputs.symm.trans hdata) (by simp)

/-- **As long as every reply comes in turn, the counters are exact**: at every step
of the run a reply answers its session if and only if it is the last of its replies,
the answer carries them all, and no session with all its replies is left waiting. -/
theorem aggregation_exact_in_turn
    (hrun : Runs.exec (Producer.step lib) (Producer.start mode) es = some p)
    (hfresh : (opened es).Nodup)
    (hturn : Runs.Along (Producer.step lib) (InTurn lib) (Producer.start mode) es) :
    Runs.Along (Producer.step lib) (Exact lib) (Producer.start mode) es ∧
      ∀ s i version, .interest i version s ∈ es → p.sessions.get s ≠ none →
        (payloads lib s es).length < issued lib i := by
  have hcounted : ∀ es p, Runs.Along (Producer.step lib) (InTurn lib) (Producer.start mode) es →
      Runs.exec (Producer.step lib) (Producer.start mode) es = some p → (opened es).Nodup →
      Counted lib es p := by
    refine Runs.history_along ?_ ?_
    · intro _
      exact ⟨fun _ _ _ hmem => absurd hmem List.not_mem_nil,
        fun _ _ _ hc => absurd hc nofun⟩
    · intro es p e p' hrun ih hturn hstep hfresh
      exact counted_step hstep hfresh hturn (ih (opened_nodup_left hfresh))
  refine ⟨fun pre e post hes q hq => ?_, (hcounted es p hturn hrun hfresh).short⟩
  have hpre : Runs.Along (Producer.step lib) (InTurn lib) (Producer.start mode) pre := by
    rw [hes] at hturn
    exact hturn.of_append
  have hnodup : (opened pre).Nodup := by
    rw [hes] at hfresh
    exact opened_nodup_left hfresh
  exact exact_of_counted (tracked pre q hq hnodup) (hturn pre e post hes q hq)
    (hcounted pre q hpre hq hnodup)

end

/-- Where the sessions take turns, and a reply is late only when both are gone, the counters are
exact. -/
theorem aggregation_exact_staggered :
    ∃ p, Runs.exec (Producer.step reference) (Producer.start (ch 'e')) staggered = some p ∧
      Runs.Along (Producer.step reference) (Exact reference) (Producer.start (ch 'e')) staggered ∧
      ∀ s i version, .interest i version s ∈ staggered → p.sessions.get s ≠ none →
        (payloads reference s staggered).length < issued reference i := by
  have hsome : (Runs.exec (Producer.step reference) (Producer.start (ch 'e')) staggered).isSome
      = true := by decide +kernel
  obtain ⟨p, hp⟩ := Option.isSome_iff_exists.1 hsome
  have hturn : Runs.Along (Producer.step reference) (InTurn reference) (Producer.start (ch 'e'))
      staggered := by decide +kernel
  exact ⟨p, hp, aggregation_exact_in_turn hp (by decide +kernel) hturn⟩

/-! ## Two sessions at once -/

/-- A request for two locations, and while it waits one for a single location; then
the first reply to the first request. -/
def overlap : List Event := [
  .interest (clientInterest [txt "30321", txt "33212"] (txt "person")) 1 7,
  .interest (clientInterest [txt "30321"] (txt "car")) 2 8,
  .result (encode reference (replyFor (txt "30321") (txt "person") (txt "7") []))]

/-- **The first reply answers the first request, although another location was
asked**: it is counted for the second request, which has one location.  No session
id is drawn twice, and no location replies twice. -/
theorem aggregation_not_exact :
    (opened overlap).Nodup ∧
      (∀ s i version, .interest i version s ∈ overlap →
        (payloads reference s overlap).length ≤ issued reference i) ∧
      (Runs.exec (Producer.step reference) (Producer.start (ch 'e')) overlap).isSome = true ∧
      ¬ Runs.Along (Producer.step reference) (Exact reference) (Producer.start (ch 'e'))
        overlap := by
  refine ⟨by decide, ?_, by decide +kernel, fun hexact => ?_⟩
  · intro s i version hmem
    simp only [overlap, List.mem_cons, Event.interest.injEq, List.not_mem_nil, or_false,
      reduceCtorEq] at hmem
    rcases hmem with ⟨rfl, -, rfl⟩ | ⟨rfl, -, rfl⟩ <;> decide +kernel
  · have hsome : (Runs.exec (Producer.step reference) (Producer.start (ch 'e'))
        (overlap.take 2)).isSome = true := by decide +kernel
    obtain ⟨q, hq⟩ := Option.isSome_iff_exists.1 hsome
    have hcounters : (Runs.exec (Producer.step reference) (Producer.start (ch 'e'))
        (overlap.take 2)).map (fun q => (decide (q.numberOfArrivalInterest + 1 = q.issuedInterest),
          (q.sessions.get 7).isSome)) = some (true, true) := by decide +kernel
    rw [hq, Option.map_some, Option.some.injEq, Prod.mk.injEq, decide_eq_true_eq] at hcounters
    obtain ⟨session, hsession⟩ := Option.isSome_iff_exists.1 hcounters.2
    have hnamed : (overlap[2]).named reference =
        some (7, encode reference (replyFor (txt "30321") (txt "person") (txt "7") [])) := by
      decide +kernel
    obtain ⟨q', hstep⟩ : ∃ q', q.step reference overlap[2] = some q' :=
      ⟨_, Producer.step_of_named hnamed q⟩
    have hputs := Producer.puts_of_named hnamed hstep
    rw [if_pos hcounters.1, hsession] at hputs
    have hlast := ((hexact (overlap.take 2) overlap[2] [] rfl q hq) 7 _ hnamed _ hstep).1.1
      ⟨_, hputs⟩
    obtain ⟨-, i, version, hmem, hlength⟩ := hlast
    simp only [overlap, List.take_succ_cons, List.take_zero, List.mem_cons, Event.interest.injEq,
      List.not_mem_nil, or_false] at hmem
    rcases hmem with ⟨rfl, -, -⟩ | ⟨-, -, h⟩
    · exact absurd hlength (by decide +kernel)
    · exact absurd h (by decide)

end Crowdsensing
