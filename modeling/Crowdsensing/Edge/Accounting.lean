import Crowdsensing.Edge.Aggregation
import Crowdsensing.System.Tally

/-!
# What becomes of timers and sessions

A session id is drawn with a generator, and nothing keeps it from being drawn twice.  Here
no assumption is made about the ids.

* `View.held`, `SessionStep.armed` — a session that is held has one timer waiting for it, and
  one that is not has none.
* `SessionStep.timers`, `SessionStep.answers` — what one step makes of the timers and the
  Data packets of a session.
* `accounts` — **every timer ever armed is waiting, destroyed or called, and every client
  Interest has been answered, is held, or found its id in use.**
* `drained` — **without more requests the timers empty the session table**, in whatever order
  they expire and whatever replies come in between.
* `counters_since` — **the counters are a function of what came since the last client
  Interest**, so the reply that sends Data is told by its place in the run alone.
* `View.Carries`, `View.Carries.step` — the rule for what a session holds and what is put for it.
* `Producer.Gathering`, `Producer.Gathering.collect` — while only one request is answered, each
  reply is gathered for it, and the last one sends them all.
-/

namespace Crowdsensing

open Text

/-! ## One session -/

/-- The session whose timer calls back. -/
def Event.calling : Event → Option UInt64
  | .expiry s => some s
  | .aborted s => some s
  | _ => none

theorem calling_of_payload {e : Event} {text : Str} (h : e.payload = some text) :
    e.calling = none := by
  cases e with
  | expiry s => exact absurd h (by simp [Event.payload])
  | aborted s => exact absurd h (by simp [Event.payload])
  | _ => rfl

theorem calling_of_named {lib : Externals} {e : Event} {s : UInt64} {text : Str}
    (h : e.named lib = some (s, text)) : e.calling = none :=
  calling_of_payload (Event.of_named h).1

theorem calling_of_about {lib : Externals} {e : Event} {s : UInt64} (h : e.about lib ≠ some s) :
    e.calling ≠ some s := by
  cases e with
  | expiry k => exact h
  | aborted k => exact h
  | _ => simp [Event.calling]

/-- Whether the session is in the table. -/
def View.held (v : View) : ℕ := if v.session.isSome then 1 else 0

theorem View.held_answered (v : View) : v.answered.held = 0 := by
  rw [View.held, View.answered_session]
  rfl

theorem View.held_received (v : View) (payload : Str) : (v.received payload).held = v.held := by
  simp [View.held, View.received]

/-- A payload changes nothing about the timer. -/
theorem View.armed_received {v : View} (hv : v.waiting = v.held) (payload : Str) :
    (v.received payload).waiting = (v.received payload).held := by
  rw [View.held_received]
  exact hv

/-- What answering makes of a session with its timer. -/
theorem View.answered_spec {v : View} (hv : v.waiting = v.held) :
    v.answered.waiting = 0 ∧ v.answered.aborted = v.aborted + v.held ∧
      v.answered.puts.length = v.puts.length + v.held := by
  unfold View.answered View.held at *
  cases hs : v.session with
  | none =>
    rw [hs] at hv
    exact ⟨hv, rfl, rfl⟩
  | some session =>
    rw [hs] at hv
    simp [hv]

/-- A timer that expires finds its session. -/
theorem View.held_of_waiting {v : View} (hv : v.waiting = v.held) (harmed : 0 < v.waiting) :
    v.held = 1 := by
  unfold View.held at *
  split at hv
  · rw [if_pos ‹_›]
  · omega

/-- What an expired timer leaves. -/
theorem View.answered_fired {v : View} (hv : v.waiting = v.held) (harmed : 0 < v.waiting) :
    v.fired.answered.waiting = 0 ∧ v.fired.answered.aborted = v.aborted ∧
      v.fired.answered.puts.length = v.puts.length + 1 := by
  have hheld := View.held_of_waiting hv harmed
  have hwaiting : v.waiting = 1 := hv.trans hheld
  cases hs : v.session with
  | none =>
    rw [View.held, hs] at hheld
    exact absurd hheld (by simp)
  | some session => simp [View.answered, View.fired, hs, hwaiting]

section

variable {lib : Externals} {s : UInt64} {e : Event} {v v' : View}

/-- **A session that is held has one timer waiting, and another one has none.** -/
theorem SessionStep.armed (h : SessionStep lib s e v v') (hv : v.waiting = v.held) :
    v'.waiting = v'.held := by
  cases h with
  | opened i version =>
    unfold View.opened View.held at *
    cases hs : v.session with
    | none =>
      rw [hs] at hv
      simpa using hv
    | some session =>
      rw [hs] at hv
      simpa [hs] using hv
  | received named => exact View.armed_received hv _
  | completed named =>
    rw [View.held_answered, (View.answered_spec (View.armed_received hv _)).1]
  | expired armed => rw [View.held_answered, (View.answered_fired hv armed).1]
  | called pending =>
    have hcalled : v.called.waiting = v.called.held := hv
    rw [View.held_answered, (View.answered_spec hcalled).1]
  | other about => exact hv

/-- **No timer is lost in a step**: a request brings one, and a callback takes one. -/
theorem SessionStep.timers (h : SessionStep lib s e v v') (hv : v.waiting = v.held) :
    v'.waiting + v'.aborted + (if e.calling = some s then 1 else 0) =
      v.waiting + v.aborted + if e.opening = some s then 1 else 0 := by
  cases h with
  | opened i version =>
    unfold View.opened
    cases hs : v.session with
    | none => simp [Event.calling, Event.opening]; omega
    | some session => simp [Event.calling, Event.opening]; omega
  | received named =>
    rw [calling_of_named named, opening_of_named named]
    rfl
  | @completed _ _ text named =>
    obtain ⟨hwaiting, haborted, -⟩ := View.answered_spec (View.armed_received hv text)
    rw [calling_of_named named, opening_of_named named, hwaiting, haborted, View.held_received,
      ← hv]
    simp [View.received, Nat.add_comm]
  | expired armed =>
    obtain ⟨hwaiting, haborted, -⟩ := View.answered_fired hv armed
    have hone : v.waiting = 1 := hv.trans (View.held_of_waiting hv armed)
    simp [Event.calling, Event.opening, hwaiting, haborted, hone, Nat.add_comm]
  | called pending =>
    have hcalled : v.called.waiting = v.called.held := hv
    obtain ⟨hwaiting, haborted, -⟩ := View.answered_spec hcalled
    have hheld : v.called.held = v.held := rfl
    have hless : v.called.aborted = v.aborted - 1 := rfl
    simp only [Event.calling, Event.opening, hwaiting, haborted, hheld, hless, if_true,
      reduceCtorEq, if_false]
    omega
  | other about =>
    rw [if_neg (calling_of_about about), if_neg (opening_of_about about)]

/-- **A step gives a session one answer, if any, and only a request brings a session.** -/
theorem SessionStep.answers (h : SessionStep lib s e v v') (hv : v.waiting = v.held) :
    v'.puts.length + v'.held + (if e.opening = some s then v.held else 0) =
      v.puts.length + v.held + if e.opening = some s then 1 else 0 := by
  cases h with
  | opened i version =>
    unfold View.opened View.held
    cases hs : v.session with
    | none => simp [Event.opening]
    | some session => simp [Event.opening]
  | received named =>
    rw [opening_of_named named, View.held_received]
    rfl
  | @completed _ _ text named =>
    have hputs := (View.answered_spec (View.armed_received hv text)).2.2
    rw [opening_of_named named, View.held_answered, hputs, View.held_received]
    rfl
  | expired armed =>
    have hputs := (View.answered_fired hv armed).2.2
    have hone := View.held_of_waiting hv armed
    simp [Event.opening, View.held_answered, hputs, hone]
  | called pending =>
    have hcalled : v.called.waiting = v.called.held := hv
    have hputs := (View.answered_spec hcalled).2.2
    have hheld : v.called.held = v.held := rfl
    have hsame : v.called.puts = v.puts := rfl
    simp [Event.opening, View.held_answered, hputs, hheld, hsame]
  | other about => rw [if_neg (opening_of_about about), if_neg (opening_of_about about)]

end

/-! ## Runs -/

/-- The session ids of the callbacks, in order. -/
def called (es : List Event) : List UInt64 := es.filterMap Event.calling

/-- How many client Interests drew an id that was in use. -/
def reused (lib : Externals) (mode : UInt8) (s : UInt64) (es : List Event) : ℕ :=
  Runs.tally (Producer.step lib) (fun p e => if e.opening = some s then (p.view s).held else 0)
    (Producer.start mode) es

/-- A session id is counted among the values of events as often as events have it. -/
theorem tally_filterMap {lib : Externals} {mode : UInt8} {es : List Event} {p : Producer}
    (hrun : Runs.exec (Producer.step lib) (Producer.start mode) es = some p)
    (f : Event → Option UInt64) (s : UInt64) :
    Runs.tally (Producer.step lib) (fun _ e => if f e = some s then 1 else 0)
      (Producer.start mode) es = (es.filterMap f).count s := by
  have htally := Runs.tally_of_event (fun e => decide (f e = some s)) es p hrun
  simp only [decide_eq_true_eq] at htally
  rw [htally, List.count_filterMap]
  refine List.countP_congr fun e _ => ?_
  simp

section

variable {lib : Externals} {mode : UInt8} {es : List Event} {p : Producer}

/-- In every state the edge can reach, a session that is held has one timer waiting. -/
theorem armed_of_exec (hrun : Runs.exec (Producer.step lib) (Producer.start mode) es = some p)
    (s : UInt64) : (p.view s).waiting = (p.view s).held := by
  refine Runs.history (P := fun _ p => (Producer.view p s).waiting = (Producer.view p s).held)
    rfl ?_ es p hrun
  intro _ _ _ _ _ ih hstep
  exact (Producer.view_step hstep s).armed ih

/-- **Accounts of a run.**  The timers armed for a session id are waiting, destroyed or have
called back; and the client Interests that drew it were answered, are held, or found it in
use. -/
theorem accounts (hrun : Runs.exec (Producer.step lib) (Producer.start mode) es = some p)
    (s : UInt64) :
    p.timers.waiting.count s = (if (p.sessions.get s).isSome then 1 else 0) ∧
      p.timers.waiting.count s + p.timers.aborted.count s + (called es).count s =
        (opened es).count s ∧
      (putsFor s p.face.puts).length + (if (p.sessions.get s).isSome then 1 else 0) +
        reused lib mode s es = (opened es).count s := by
  have htimers := Runs.conserved
    (fun p => (Producer.view p s).waiting + (Producer.view p s).aborted)
    (fun _ e => if e.opening = some s then 1 else 0)
    (fun _ e => if e.calling = some s then 1 else 0)
    (fun es m e m' (hm : Runs.exec (Producer.step lib) (Producer.start mode) es = some m) hstep =>
      (Producer.view_step hstep s).timers (armed_of_exec hm s)) es p hrun
  have hanswers := Runs.conserved
    (fun p => (Producer.view p s).puts.length + (Producer.view p s).held)
    (fun _ e => if e.opening = some s then 1 else 0)
    (fun p e => if e.opening = some s then (Producer.view p s).held else 0)
    (fun es m e m' (hm : Runs.exec (Producer.step lib) (Producer.start mode) es = some m) hstep =>
      (Producer.view_step hstep s).answers (armed_of_exec hm s)) es p hrun
  rw [tally_filterMap hrun, tally_filterMap hrun] at htimers
  rw [tally_filterMap hrun] at hanswers
  refine ⟨armed_of_exec hrun s, htimers.trans (Nat.zero_add _), hanswers.trans (Nat.zero_add _)⟩

/-! ## The session table empties -/

/-- Without a client Interest no session is opened, and one that ends is answered. -/
theorem quiet_run (hrun : Runs.exec (Producer.step lib) (Producer.start mode) es = some p)
    {fs : List Event} {q : Producer} (hquiet : ∀ e ∈ fs, e.opening = none)
    (hexec : Runs.exec (Producer.step lib) p fs = some q) (s : UInt64) :
    (q.view s).waiting = (q.view s).held ∧
      (q.view s).puts.length + (q.view s).held = (p.view s).puts.length + (p.view s).held := by
  have halong : Runs.Along (Producer.step lib) (fun _ _ e => e.opening = none) p fs := by
    intro pre e post hfs _ _
    refine hquiet e ?_
    rw [hfs]
    exact List.mem_append_right _ (List.mem_cons_self ..)
  refine Runs.history_along (P := fun _ q =>
      (Producer.view q s).waiting = (Producer.view q s).held ∧
      (Producer.view q s).puts.length + (Producer.view q s).held =
        (p.view s).puts.length + (p.view s).held)
    ⟨armed_of_exec hrun s, rfl⟩ ?_ fs q halong hexec
  intro _ m e m' _ ih hopen hstep
  have hview := Producer.view_step hstep s
  have hanswers := hview.answers ih.1
  rw [if_neg (by rw [hopen]; simp), if_neg (by rw [hopen]; simp)] at hanswers
  exact ⟨hview.armed ih.1, hanswers.trans ih.2⟩

variable (lib) in
/-- A session with a timer waiting is answered when that expires. -/
theorem step_expiry_of_armed {s : UInt64} (harmed : ∀ k, (p.view k).waiting = (p.view k).held)
    (hs : s ∈ p.timers.waiting) : ∃ session q, p.sessions.get s = some session ∧
      p.step lib (.expiry s) = some q ∧ q.timers.waiting = p.timers.waiting.erase s ∧
      q.face.puts = p.face.puts ++ [(s, session.dataPtr.setContent session.buffer)] ∧
      ∀ k ≠ s, q.sessions.get k = p.sessions.get k := by
  have hpos : 0 < (p.view s).waiting := List.count_pos_iff.2 hs
  have hheld := View.held_of_waiting (harmed s) hpos
  cases hget : p.sessions.get s with
  | none =>
    have hzero : (p.view s).held = 0 := by
      rw [View.held, Producer.view, hget]
      rfl
    omega
  | some session =>
    have hgone : s ∉ p.timers.waiting.erase s := by
      rw [← List.count_eq_zero, List.count_erase_self]
      have hone : p.timers.waiting.count s = (p.view s).held := harmed s
      omega
    refine ⟨session, { p with timers := p.timers.fire s }.finish s, rfl, ?_, ?_, ?_, ?_⟩
    · rw [Producer.step_expiry, if_pos hs]
    · unfold Producer.finish
      simp only [hget, Producer.answer]
      exact congrArg Timers.waiting (if_neg hgone)
    · rw [Producer.puts_finish]
      simp only [hget]
      rfl
    · intro k hk
      unfold Producer.finish
      simp only [hget, Producer.answer, SessionManager.erase_get, if_neg hk]

/-- **The timers alone answer every session**, in whatever order they expire. -/
theorem exec_expiries {ss : List UInt64} (hperm : ss.Perm p.timers.waiting)
    (harmed : ∀ k, (p.view k).waiting = (p.view k).held) :
    ∃ q, Runs.exec (Producer.step lib) p (ss.map .expiry) = some q ∧ q.timers.waiting = [] ∧
      q.face.puts = p.face.puts ++ ss.filterMap fun s => (p.sessions.get s).map fun session =>
        (s, session.dataPtr.setContent session.buffer) := by
  induction ss generalizing p with
  | nil =>
    refine ⟨p, rfl, ?_, ?_⟩
    · exact hperm.symm.eq_nil
    · rw [List.filterMap_nil, List.append_nil]
  | cons s ss ih =>
    have hs : s ∈ p.timers.waiting := hperm.subset List.mem_cons_self
    obtain ⟨session, q, hget, hstep, hwaiting, hputs, hother⟩ :=
      step_expiry_of_armed lib harmed hs
    have hrest : ss.Perm q.timers.waiting := by
      rw [hwaiting]
      exact (List.cons_perm_iff_perm_erase.1 hperm).2
    have hnot : s ∉ ss := by
      rw [hrest.mem_iff, hwaiting, ← List.count_eq_zero, List.count_erase_self]
      have hpos : 0 < (p.view s).waiting := List.count_pos_iff.2 hs
      have hone : p.timers.waiting.count s = (p.view s).held := harmed s
      rw [hone, View.held_of_waiting (harmed s) hpos]
    obtain ⟨r, hr, hnone, hrputs⟩ := ih hrest fun k => (Producer.view_step hstep k).armed (harmed k)
    refine ⟨r, ?_, hnone, ?_⟩
    · rw [List.map_cons, Runs.exec_cons, hstep, Option.bind_some, hr]
    · have hsame : ∀ k ∈ ss, q.sessions.get k = p.sessions.get k := by
        intro k hk
        refine hother k ?_
        rintro rfl
        exact hnot hk
      rw [hrputs, hputs, List.append_assoc, List.filterMap_cons, hget,
        List.filterMap_congr fun k hk => by rw [hsame k hk]]
      rfl

/-- **Without more requests the timers empty the session table.**  Whatever replies and
callbacks come in between, once no timer waits no session is left, and each one that was held
has been answered with one Data packet.  And the timers can always expire, in any order; on
their own they answer every session with what it has. -/
theorem drained (hrun : Runs.exec (Producer.step lib) (Producer.start mode) es = some p) :
    (∀ (fs : List Event) q, (∀ e ∈ fs, e.opening = none) →
      Runs.exec (Producer.step lib) p fs = some q →
      q.timers.waiting = [] → ∀ s, q.sessions.get s = none ∧
        (putsFor s q.face.puts).length =
          (putsFor s p.face.puts).length + if (p.sessions.get s).isSome then 1 else 0) ∧
      ∀ ss : List UInt64, ss.Perm p.timers.waiting → ∃ q,
        Runs.exec (Producer.step lib) p (ss.map .expiry) = some q ∧ q.timers.waiting = [] ∧
        q.face.puts = p.face.puts ++ ss.filterMap fun s => (p.sessions.get s).map fun session =>
          (s, session.dataPtr.setContent session.buffer) := by
  constructor
  · intro fs q hquiet hexec hnone s
    obtain ⟨hwaiting, hputs⟩ := quiet_run hrun hquiet hexec s
    have hzero : (q.view s).held = 0 := by
      rw [← hwaiting]
      show q.timers.waiting.count s = 0
      rw [hnone]
      rfl
    refine ⟨?_, ?_⟩
    · rw [← Option.not_isSome_iff_eq_none]
      intro hsome
      have hone : (q.view s).held = 1 := if_pos hsome
      omega
    · rw [hzero, Nat.add_zero] at hputs
      exact hputs
  · exact fun ss hperm => exec_expiries hperm (armed_of_exec hrun)

end

/-! ## An id that is drawn twice -/

/-- A request for two locations; another one draws the same id while it waits, and its timer is
destroyed; the reply to it answers the session, and the destroyed timer calls back. -/
def sameId : List Event := [
  .interest (clientInterest [txt "30321", txt "33212"] (txt "person")) 1 7,
  .interest (clientInterest [txt "30321"] (txt "car")) 2 7,
  .result (encode reference (replyFor (txt "30321") (txt "car") (txt "7") [])),
  .aborted 7]

theorem exists_exec_sameId (n : ℕ) (hn : n ≤ 4) : ∃ p,
    Runs.exec (Producer.step reference) (Producer.start (ch 'e')) (sameId.take n) = some p := by
  apply Option.isSome_iff_exists.1
  interval_cases n <;> decide +kernel

/-- Of its two timers one has called back and one is to be called; one request was answered
and one found the id in use. -/
theorem accounts_sameId : ∃ p,
    Runs.exec (Producer.step reference) (Producer.start (ch 'e')) sameId = some p ∧
      p.timers.waiting.count 7 = (if (p.sessions.get 7).isSome then 1 else 0) ∧
      p.timers.waiting.count 7 + p.timers.aborted.count 7 + (called sameId).count 7 =
        (opened sameId).count 7 ∧
      (putsFor 7 p.face.puts).length + (if (p.sessions.get 7).isSome then 1 else 0) +
        reused reference (ch 'e') 7 sameId = (opened sameId).count 7 := by
  obtain ⟨p, hp⟩ := exists_exec_sameId 4 (Nat.le_refl 4)
  exact ⟨p, hp, accounts hp 7⟩

/-- Both requests wait for one timer; when it expires they are answered with one Data packet. -/
theorem drained_sameId : ∃ p q, Runs.exec (Producer.step reference) (Producer.start (ch 'e'))
      (sameId.take 2) = some p ∧
    Runs.exec (Producer.step reference) p ([7].map .expiry) = some q ∧ q.timers.waiting = [] ∧
    (∀ s, q.sessions.get s = none) ∧
    q.face.puts = p.face.puts ++ [7].filterMap fun s => (p.sessions.get s).map fun session =>
      (s, session.dataPtr.setContent session.buffer) := by
  obtain ⟨p, hp⟩ := exists_exec_sameId 2 (by decide)
  have hwaiting : (Runs.exec (Producer.step reference) (Producer.start (ch 'e'))
      (sameId.take 2)).map (fun p => p.timers.waiting) = some [7] := by decide +kernel
  rw [hp, Option.map_some, Option.some.injEq] at hwaiting
  obtain ⟨hempty, hexpire⟩ := drained hp
  obtain ⟨q, hq, hnone, hputs⟩ := hexpire [7] (by rw [hwaiting])
  exact ⟨p, q, hp, hq, hnone, fun s => (hempty _ q (by decide) hq hnone s).1, hputs⟩

/-! ## The counters -/

/-- How many of the events are replies that name a session. -/
def replies (lib : Externals) (es : List Event) : ℕ := es.countP fun e => (e.named lib).isSome

theorem replies_concat (lib : Externals) (es : List Event) (e : Event) :
    replies lib (es ++ [e]) = replies lib es + if (e.named lib).isSome then 1 else 0 := by
  rw [replies, List.countP_append, List.countP_singleton, replies]

/-- What the counters are after some replies to a request: they count up to the number of its
locations, and then go on from zero towards a number they do not reach. -/
def countersAfter (replied asked : ℕ) : ℕ × ℕ :=
  if replied < asked then (replied, asked) else (replied - asked, 0)

/-- One more reply is the last one counted on exactly if it completes the number. -/
theorem countersAfter_last (replied asked : ℕ) :
    (countersAfter replied asked).1 + 1 = (countersAfter replied asked).2 ↔
      replied + 1 = asked := by
  unfold countersAfter
  split
  · exact Iff.rfl
  · simp only
    omega

/-- What one more reply makes of the counters. -/
theorem countersAfter_succ (replied asked : ℕ) :
    countersAfter (replied + 1) asked = if replied + 1 = asked then (0, 0) else
      ((countersAfter replied asked).1 + 1, (countersAfter replied asked).2) := by
  unfold countersAfter
  by_cases hlast : replied + 1 = asked
  · rw [if_neg (by omega), if_pos hlast, hlast, Nat.sub_self]
  · rw [if_neg hlast]
    by_cases hlt : replied < asked
    · rw [if_pos hlt, if_pos (by omega)]
    · rw [if_neg hlt, if_neg (by omega), Nat.succ_sub (Nat.le_of_not_lt hlt)]

namespace Producer

/-- The two counters. -/
def counters (p : Producer) : ℕ × ℕ := (p.numberOfArrivalInterest, p.issuedInterest)

/-- What a reply does to the counters, whichever session it names. -/
theorem counters_of_named {lib : Externals} {p p' : Producer} {e : Event} {s : UInt64}
    {text : Str} (he : e.named lib = some (s, text)) (h : p.step lib e = some p') :
    p'.counters = if p.counters.1 + 1 = p.counters.2 then (0, 0) else
      (p.counters.1 + 1, p.counters.2) := by
  rw [step_of_named he, Option.some.injEq] at h
  rw [← h]
  by_cases hlast : p.numberOfArrivalInterest + 1 = p.issuedInterest
  · rw [if_pos hlast]
    exact (if_pos hlast).symm
  · rw [if_neg hlast]
    exact (if_neg hlast).symm

end Producer

section

variable {lib : Externals} {mode : UInt8} {es post : List Event} {i : Interest} {version : ℕ}
  {c : UInt64} {p : Producer}

/-- **The counters depend on the last client Interest and the number of replies since.** -/
theorem counters_since (hrun : Runs.exec (Producer.step lib) (Producer.start mode)
    (es ++ .interest i version c :: post) = some p) (hpost : ∀ e ∈ post, e.opening = none) :
    p.counters = countersAfter (replies lib post) (issued lib i) := by
  induction post using List.reverseRecOn generalizing p with
  | nil =>
    obtain ⟨q, -, hstep⟩ := Runs.exec_concat.1 hrun
    obtain ⟨harrival, hissued⟩ :=
      Producer.counters_handleInterest (Producer.handleInterest_of_step hstep)
    have hzero : replies lib [] = 0 := rfl
    rw [Producer.counters, harrival, hissued, hzero, countersAfter, if_pos (issued_pos lib i)]
  | append_singleton post e ih =>
    rw [← List.cons_append, ← List.append_assoc] at hrun
    obtain ⟨q, hq, hstep⟩ := Runs.exec_concat.1 hrun
    have hbefore := ih hq fun f hf => hpost f (List.mem_append_left _ hf)
    have hopen := hpost e (List.mem_append_right _ (List.mem_singleton_self e))
    rw [replies_concat]
    cases hnamed : e.named lib with
    | none =>
      obtain ⟨harrival, hissued⟩ := Producer.counters_step hstep hopen hnamed
      rw [Option.isSome_none, if_neg Bool.false_ne_true, Nat.add_zero, ← hbefore,
        Producer.counters, harrival, hissued]
      rfl
    | some reply =>
      rw [Producer.counters_of_named hnamed hstep, hbefore, Option.isSome_some, if_pos rfl,
        countersAfter_succ]
      exact if_congr (countersAfter_last _ _) rfl rfl

/-- **Which reply sends Data, and for whom.**  Since the last client Interest, which asked `n`
locations, it is the `n`-th reply and no other, whichever sessions the replies name; and it
sends what is held for the session it names itself. -/
theorem answered_by_place (hrun : Runs.exec (Producer.step lib) (Producer.start mode)
    (es ++ .interest i version c :: post) = some p) (hpost : ∀ e ∈ post, e.opening = none)
    {e : Event} {s : UInt64} {text : Str} (hnamed : e.named lib = some (s, text)) {p' : Producer}
    (hstep : p.step lib e = some p') :
    (p.numberOfArrivalInterest, p.issuedInterest) =
        countersAfter (replies lib post) (issued lib i) ∧
      p'.face.puts = p.face.puts ++ if replies lib post + 1 = issued lib i then
        ((p.sessions.get s).map fun session =>
          (s, session.dataPtr.setContent (session.buffer ++ text ++ [ch '\n']))).toList
      else [] := by
  have hcounters := counters_since hrun hpost
  refine ⟨hcounters, ?_⟩
  have hlast : p.numberOfArrivalInterest + 1 = p.issuedInterest ↔
      replies lib post + 1 = issued lib i := by
    have hafter := countersAfter_last (replies lib post) (issued lib i)
    rw [← hcounters] at hafter
    exact hafter
  rw [Producer.puts_of_named hnamed hstep]
  exact congrArg _ (if_congr hlast rfl rfl)

end

/-- In the run with the same id twice the reply answers, because the second request asked one
location. -/
theorem answered_by_place_sameId : ∃ p p',
    Runs.exec (Producer.step reference) (Producer.start (ch 'e')) (sameId.take 2) = some p ∧
      p.step reference sameId[2] = some p' ∧
      (p.numberOfArrivalInterest, p.issuedInterest) = countersAfter 0 1 ∧
      p'.face.puts = p.face.puts ++ ((p.sessions.get 7).map fun session =>
        (7, session.dataPtr.setContent (session.buffer ++ encode reference
          (replyFor (txt "30321") (txt "car") (txt "7") []) ++ [ch '\n']))).toList := by
  obtain ⟨p, hp⟩ := exists_exec_sameId 2 (by decide)
  have hnamed : (sameId[2]).named reference =
      some (7, encode reference (replyFor (txt "30321") (txt "car") (txt "7") [])) := by
    decide +kernel
  obtain ⟨p', hstep⟩ : ∃ p', p.step reference sameId[2] = some p' :=
    ⟨_, Producer.step_of_named hnamed p⟩
  have hone : issued reference (clientInterest [txt "30321"] (txt "car")) = 1 := by decide +kernel
  have hsplit : sameId.take 2 = sameId.take 1 ++
      .interest (clientInterest [txt "30321"] (txt "car")) 2 7 :: [] := rfl
  obtain ⟨hcounters, hputs⟩ := answered_by_place (hsplit ▸ hp) (by simp) hnamed hstep
  rw [hone] at hcounters hputs
  exact ⟨p, p', hp, hstep, hcounters, hputs⟩

/-! ## What a session carries -/

/-- The session has one property if it is held, and each Data packet that was put for it another. -/
structure View.Carries (H : Session → Prop) (A : Data → Prop) (v : View) : Prop where
  held : ∀ session, v.session = some session → H session
  put : ∀ packet ∈ v.puts, A packet

section

variable {lib : Externals} {s : UInt64} {e : Event} {v v' : View} {H H' : Session → Prop}
  {A A' : Data → Prop}

/-- An answer carries on what the session had. -/
theorem View.Carries.answered (h : v.Carries H A)
    (hanswer : ∀ session, H session → A (session.dataPtr.setContent session.buffer)) :
    v.answered.Carries H A := by
  unfold View.answered
  cases hv : v.session with
  | none => exact h
  | some session =>
    refine ⟨fun session' hs => absurd hs.symm (Option.some_ne_none _), fun packet hp => ?_⟩
    rcases List.mem_append.1 hp with hp | hp
    · exact h.put packet hp
    · rw [List.mem_singleton.1 hp]
      exact hanswer session (h.held session hv)

/-- **The rule for what a session carries**: it is enough to look at a session that is opened, at
one more reply, and at an answer. -/
theorem View.Carries.step (hstep : SessionStep lib s e v v') (h : v.Carries H A)
    (hheld : ∀ session, H session → H' session) (hput : ∀ packet, A packet → A' packet)
    (hopened : ∀ request version, e = .interest request version s →
      H' { sessionId := s, dataPtr := packetFor request version })
    (hreceived : ∀ session text, e.named lib = some (s, text) → H session →
      H' { session with buffer := session.buffer ++ text ++ [ch '\n'] })
    (hanswer : ∀ session, H' session → A' (session.dataPtr.setContent session.buffer)) :
    v'.Carries H' A' := by
  have hlater : v.Carries H' A' :=
    ⟨fun session hs => hheld session (h.held session hs),
      fun packet hp => hput packet (h.put packet hp)⟩
  have hreply : ∀ text, e.named lib = some (s, text) → (v.received text).Carries H' A' := by
    intro text hnamed
    refine ⟨fun session' hs => ?_, hlater.put⟩
    obtain ⟨session, hv, rfl⟩ := Option.map_eq_some_iff.1 hs
    exact hreceived session text hnamed (h.held session hv)
  cases hstep with
  | opened request version =>
    unfold View.opened
    cases hv : v.session with
    | some session =>
      exact ⟨fun session' hs => hlater.held session' (hv.trans hs), hlater.put⟩
    | none =>
      refine ⟨fun session hs => ?_, hlater.put⟩
      rw [← Option.some.inj hs]
      exact hopened request version rfl
  | received named => exact hreply _ named
  | completed named => exact (hreply _ named).answered hanswer
  | expired armed => exact View.Carries.answered (v := v.fired) ⟨hlater.held, hlater.put⟩ hanswer
  | called pending => exact View.Carries.answered (v := v.called) ⟨hlater.held, hlater.put⟩ hanswer
  | other about => exact hlater

end

/-! ## The replies of one request -/

namespace Producer

/-- Since `p`, the edge has gathered these texts for a session, and waits for `n` of them. -/
structure Gathering (s : UInt64) (packet : Data) (n : ℕ) (p : Producer) (texts : List Str)
    (q : Producer) : Prop where
  puts : q.face.puts = p.face.puts
  arrived : q.numberOfArrivalInterest = texts.length
  issued : q.issuedInterest = n
  session : q.sessions.get s =
    some { sessionId := s, dataPtr := packet, buffer := collected texts }
  others : ∀ k ≠ s, q.sessions.get k = p.sessions.get k

/-- Since `p`, the edge has answered a session with these texts, and has forgotten it. -/
structure Gathered (s : UInt64) (packet : Data) (p : Producer) (texts : List Str) (q : Producer) :
    Prop where
  puts : q.face.puts = p.face.puts ++ [(s, packet.setContent (collected texts))]
  session : q.sessions.get s = none
  others : ∀ k ≠ s, q.sessions.get k = p.sessions.get k

variable {s : UInt64} {packet : Data} {n : ℕ} {p q : Producer} {texts : List Str}

/-- **One more reply is gathered, or the last one answers the session.** -/
theorem Gathering.collect (h : Gathering s packet n p texts q) {lib : Externals} {text : Str}
    (hid : sessionIdOf lib text = .ok (some s)) :
    ∃ q', q.handleReply lib text = .ok q' ∧ q'.face.expressed = q.face.expressed ∧
      q'.face.fetches = q.face.fetches ∧
      if texts.length + 1 = n then Gathered s packet p (texts ++ [text]) q'
      else Gathering s packet n p (texts ++ [text]) q' := by
  have hcollected : (q.collect text s).sessions.get s =
      some { sessionId := s, dataPtr := packet, buffer := collected (texts ++ [text]) } := by
    change (q.sessions.appendPayload s text).2.get s = _
    rw [SessionManager.appendPayload_get, if_pos rfl, h.session, Option.map_some, collected_concat]
  have hothers : ∀ k ≠ s, (q.collect text s).sessions.get k = p.sessions.get k := by
    intro k hk
    change (q.sessions.appendPayload s text).2.get k = _
    rw [SessionManager.appendPayload_get, if_neg hk, h.others k hk]
  rw [handleReply_of_some hid, receive_eq, h.arrived, h.issued]
  refine ⟨_, rfl, ?_⟩
  by_cases hlast : texts.length + 1 = n
  · rw [if_pos hlast, if_pos hlast, finish, hcollected]
    refine ⟨rfl, rfl, ?_, if_pos rfl, fun k hk => ?_⟩
    · change q.face.puts ++ _ = _
      rw [h.puts]
    · exact (if_neg hk).trans (hothers k hk)
  · rw [if_neg hlast, if_neg hlast]
    refine ⟨rfl, rfl, h.puts, ?_, h.issued, hcollected, hothers⟩
    change q.numberOfArrivalInterest + 1 = _
    rw [h.arrived, List.length_append, List.length_singleton]

end Producer

end Crowdsensing
