import Crowdsensing.Edge.Aggregation
import Crowdsensing.Modes.Requests
import Crowdsensing.System.Deletion

/-!
# Replies to sessions that are gone

A reply may name a session that was answered, has timed out or was never opened.
`append_payload` then reports that the packet is discarded, but the reply is counted
like any other.

* `Producer.late` — a reply that names no session of the table.
* `Discarded` — such replies leave the edge as it is, and deleting them from the run
  changes no Data packet and no step at which one is put.
* `Producer.step_late` — what such a reply does: it moves the counters, and nothing
  else.
* `Producer.Idle` — no session is live, or the count is past its end; `trace_kept_of_idle`:
  **replies that come late to an idle edge can be deleted**, and `harmless_iff`: **only
  these can, whatever comes after them**.
* `discarded_iff` — **no run with a reply that comes late is left as it is.**
-/

namespace Crowdsensing

open Text

namespace Producer

/-- A reply names a session that the table does not hold. -/
def late (lib : Externals) (p : Producer) (e : Event) : Bool :=
  (e.named lib).any fun reply => (p.sessions.get reply.1).isNone

/-- The Data packets put between two states of the edge. -/
def putsBetween (p p' : Producer) : List (UInt64 × Data) :=
  p'.face.puts.drop p.face.puts.length

/-- No session is live, or the replies counted are not fewer than the ones expected, so
that no further reply completes the count. -/
def Idle (p : Producer) : Prop :=
  (∀ s, p.sessions.get s = none) ∨ p.issuedInterest ≤ p.numberOfArrivalInterest

end Producer

/-- The events of a run that are not replies that come late. -/
def onTime (lib : Externals) (mode : UInt8) (es : List Event) : List Event :=
  Runs.kept (Producer.step lib) (Producer.late lib) (Producer.start mode) es

/-- Without the replies that come late the other events put the same Data packets. -/
def SamePuts (lib : Externals) (mode : UInt8) (es : List Event) : Prop :=
  Runs.trace (Producer.step lib) Producer.putsBetween (Producer.start mode) (onTime lib mode es) =
    some (Runs.keptTrace (Producer.step lib) Producer.putsBetween (Producer.late lib)
      (Producer.start mode) es)

/-- A reply that comes late has no effect on the run. -/
structure Discarded (lib : Externals) (mode : UInt8) (es : List Event) : Prop where
  /-- It leaves the sessions, the counters, the timers and the packets put. -/
  unchanged : Runs.Along (Producer.step lib) (fun _ p e => p.late lib e = true →
    ∀ p', p.step lib e = some p' → p'.ledger = p.ledger) (Producer.start mode) es
  /-- It can be deleted. -/
  samePuts : SamePuts lib mode es

namespace Producer

section

variable {lib : Externals} {p p' q : Producer} {e : Event}

/-! ## What a late reply does -/

/-- **A reply that comes late moves the counters**, and nothing else. -/
theorem step_late (h : p.late lib e = true) :
    p.step lib e = some (if p.numberOfArrivalInterest + 1 = p.issuedInterest then p.clearCounters
      else { p with numberOfArrivalInterest := p.numberOfArrivalInterest + 1 }) := by
  obtain ⟨⟨s, text⟩, hnamed, hnone⟩ := (Option.any_eq_true _ _).1 h
  have hget : p.sessions.get s = none := Option.isNone_iff_eq_none.1 hnone
  have hcollect : p.collect text s =
      { p with numberOfArrivalInterest := p.numberOfArrivalInterest + 1 } := by
    rw [collect, SessionManager.appendPayload, hget]
  rw [step_of_named hnamed, hcollect, finish]
  simp only [hget]
  rfl

/-- The counters are not what they were. -/
theorem ledger_ne_of_late (h : p.late lib e = true) (hstep : p.step lib e = some p') :
    p'.ledger ≠ p.ledger := by
  rw [step_late h, Option.some.injEq] at hstep
  rw [← hstep]
  intro hledger
  have harrival := congrArg Ledger.numberOfArrivalInterest hledger
  have hissued := congrArg Ledger.issuedInterest hledger
  by_cases hlast : p.numberOfArrivalInterest + 1 = p.issuedInterest
  · rw [if_pos hlast] at hissued
    have hzero : 0 = p.issuedInterest := hissued
    omega
  · rw [if_neg hlast] at harrival
    have hsucc : p.numberOfArrivalInterest + 1 = p.numberOfArrivalInterest := harrival
    omega

/-! ## Edges that differ in their counters -/

/-- Two edges that are equal, or differ in counters that no reply completes. -/
def Alike (p q : Producer) : Prop :=
  p = q ∨ p.clearCounters = q.clearCounters ∧ p.Idle ∧ q.Idle

theorem Alike.clearCounters (h : Alike p q) : p.clearCounters = q.clearCounters := by
  rcases h with rfl | ⟨hsame, -, -⟩
  · rfl
  · exact hsame

theorem Alike.symm (h : Alike p q) : Alike q p := by
  rcases h with rfl | ⟨hsame, hp, hq⟩
  · exact Or.inl rfl
  · exact Or.inr ⟨hsame.symm, hq, hp⟩

theorem Alike.face (h : Alike p q) : p.face = q.face :=
  (congrArg Producer.face h.clearCounters :)

theorem Alike.sessions (h : Alike p q) : p.sessions = q.sessions :=
  (congrArg Producer.sessions h.clearCounters :)

theorem Alike.timers (h : Alike p q) : p.timers = q.timers :=
  (congrArg Producer.timers h.clearCounters :)

theorem Alike.right (h : Alike p q) (hp : p.Idle) : q.Idle := by
  rcases h with rfl | ⟨-, -, hq⟩
  · exact hp
  · exact hq

/-- A late reply leaves an idle edge idle. -/
theorem Alike.skipped (h : Alike p q) (hidle : p.Idle) (hlate : p.late lib e = true)
    (hstep : p.step lib e = some p') : Alike p' q := by
  have hq := h.right hidle
  rw [step_late hlate, Option.some.injEq] at hstep
  subst hstep
  refine Or.inr ⟨?_, ?_, hq⟩
  · rw [← h.clearCounters]
    split <;> rfl
  · rcases hidle with hdead | hpast
    · left
      split <;> exact hdead
    · rw [if_neg (by omega)]
      exact Or.inr (Nat.le_succ_of_le hpast)

/-- The timers do not count. -/
theorem Alike.setTimers (h : Alike p q) (t : Timers) :
    Alike { p with timers := t } { q with timers := t } := by
  rcases h with rfl | ⟨hsame, hp, hq⟩
  · exact Or.inl rfl
  · refine Or.inr ⟨?_, hp, hq⟩
    exact (congrArg (fun r : Producer => { r with timers := t }) hsame :)

theorem clearCounters_finish (p : Producer) (s : UInt64) :
    (p.finish s).clearCounters = p.clearCounters.finish s := by
  have hsessions : p.clearCounters.sessions = p.sessions := rfl
  unfold finish
  rw [hsessions]
  cases p.sessions.get s <;> rfl

theorem Idle.finish (h : p.Idle) (s : UInt64) : (p.finish s).Idle := by
  obtain ⟨harrival, hissued⟩ := counters_finish p s
  rcases h with hdead | hpast
  · left
    unfold Producer.finish
    rw [hdead s]
    exact hdead
  · right
    omega

theorem Alike.finish (h : Alike p q) (s : UInt64) : Alike (p.finish s) (q.finish s) := by
  rcases h with rfl | ⟨hsame, hp, hq⟩
  · exact Or.inl rfl
  · refine Or.inr ⟨?_, hp.finish s, hq.finish s⟩
    rw [clearCounters_finish, clearCounters_finish, hsame]

/-- A client Interest finds the counters of no account. -/
theorem step_interest_clearCounters (lib : Externals) (p : Producer) (i : Interest)
    (version : ℕ) (s : UInt64) :
    p.clearCounters.step lib (.interest i version s) = p.step lib (.interest i version s) := rfl

/-- A reply that names a session is taken in alike. -/
theorem Alike.named (h : Alike p q) {s : UInt64} {text : Str}
    (hnamed : e.named lib = some (s, text)) (hstep : p.step lib e = some p') :
    ∃ q', q.step lib e = some q' ∧ Alike p' q' := by
  rcases h with rfl | ⟨hsame, hp, hq⟩
  · exact ⟨p', hstep, Or.inl rfl⟩
  · have hsessions : p.sessions = q.sessions := (congrArg Producer.sessions hsame :)
    cases hlate : p.late lib e with
    | true =>
      have hlate' : q.late lib e = true := by
        rw [late, ← hsessions]
        exact hlate
      have hleft := Alike.skipped (Or.inr ⟨hsame, hp, hq⟩) hp hlate hstep
      refine ⟨_, step_late hlate', ?_⟩
      exact (Alike.skipped hleft.symm hq hlate' (step_late hlate')).symm
    | false =>
      have hlive : p.sessions.get s ≠ none := by
        intro hc
        simp [late, hnamed, hc] at hlate
      have hpast : p.issuedInterest ≤ p.numberOfArrivalInterest :=
        hp.resolve_left fun hdead => hlive (hdead s)
      have hpast' : q.issuedInterest ≤ q.numberOfArrivalInterest :=
        hq.resolve_left fun hdead => hlive (by rw [hsessions]; exact hdead s)
      rw [step_of_named hnamed, if_neg (by omega), Option.some.injEq] at hstep
      subst hstep
      refine ⟨q.collect text s, by rw [step_of_named hnamed, if_neg (by omega)],
        Or.inr ⟨?_, Or.inr (Nat.le_succ_of_le hpast), Or.inr (Nat.le_succ_of_le hpast')⟩⟩
      have hcollect := congrArg (fun r : Producer => (r.collect text s).clearCounters) hsame
      exact hcollect

/-- **Every event does the same to both.** -/
theorem Alike.step (h : Alike p q) (hstep : p.step lib e = some p') :
    ∃ q', q.step lib e = some q' ∧ Alike p' q' ∧ putsBetween q q' = putsBetween p p' := by
  suffices hsim : ∃ q', q.step lib e = some q' ∧ Alike p' q' by
    obtain ⟨q', hq', h'⟩ := hsim
    refine ⟨q', hq', h', ?_⟩
    rw [putsBetween, putsBetween, h.face, h'.face]
  cases step_iff.1 hstep with
  | asked accepted =>
    refine ⟨p', ?_, Or.inl rfl⟩
    rw [← step_interest_clearCounters, ← h.clearCounters]
    exact hstep
  | dropped payload unnamed => exact ⟨q, step_iff.2 (.dropped payload unnamed), h⟩
  | replied named => exact h.named named hstep
  | @expired s armed =>
    rw [h.timers] at armed ⊢
    exact ⟨_, step_iff.2 (.expired armed), (h.setTimers _).finish s⟩
  | @called s pending =>
    rw [h.timers] at pending ⊢
    exact ⟨_, step_iff.2 (.called pending), (h.setTimers _).finish s⟩

/-! ## Which late replies matter -/

theorem putsBetween_of_named {s : UInt64} {text : Str} (he : e.named lib = some (s, text))
    (hstep : p.step lib e = some p') :
    putsBetween p p' = if p.numberOfArrivalInterest + 1 = p.issuedInterest then
      ((p.sessions.get s).map fun session =>
        (s, session.dataPtr.setContent (session.buffer ++ text ++ [ch '\n']))).toList else [] := by
  rw [putsBetween, puts_of_named he hstep, List.drop_left]

/-- A reply that completes the count on one side only is seen at once. -/
theorem trace_ne_of_completes {s : UInt64} {text : Str} (he : e.named lib = some (s, text))
    (hlive : p.sessions.get s ≠ none) (hlast : p.numberOfArrivalInterest + 1 = p.issuedInterest)
    (hmore : q.numberOfArrivalInterest + 1 ≠ q.issuedInterest) :
    Runs.trace (step lib) putsBetween q [e] ≠ Runs.trace (step lib) putsBetween p [e] := by
  obtain ⟨session, hsession⟩ := Option.ne_none_iff_exists'.1 hlive
  obtain ⟨p', hp⟩ : ∃ p', p.step lib e = some p' := ⟨_, step_of_named he p⟩
  obtain ⟨q', hq⟩ : ∃ q', q.step lib e = some q' := ⟨_, step_of_named he q⟩
  intro htrace
  rw [Runs.trace, Runs.trace, hp, hq] at htrace
  simp only [Option.bind_some, Runs.trace, Option.map_some, Option.some.injEq, List.cons.injEq,
    and_true] at htrace
  rw [putsBetween_of_named he hp, putsBetween_of_named he hq, if_pos hlast, if_neg hmore,
    hsession] at htrace
  exact absurd htrace (by simp)

/-- A count that is ahead by one answers a live session one reply earlier. -/
theorem trace_ne_of_ahead {s : UInt64} {text : Str} (he : e.named lib = some (s, text)) (k : ℕ)
    (p : Producer) (session : Session) (hlive : p.sessions.get s = some session)
    (hcount : p.numberOfArrivalInterest + (k + 2) = p.issuedInterest) :
    Runs.trace (step lib) putsBetween
        { p with numberOfArrivalInterest := p.numberOfArrivalInterest + 1 }
        (List.replicate (k + 1) e) ≠
      Runs.trace (step lib) putsBetween p (List.replicate (k + 1) e) := by
  induction k generalizing p session with
  | zero =>
    have hlive' : p.sessions.get s ≠ none := by simp [hlive]
    exact (trace_ne_of_completes (q := p)
      (p := { p with numberOfArrivalInterest := p.numberOfArrivalInterest + 1 }) he hlive' hcount
      (by omega)).symm
  | succ k ih =>
    have hahead := step_of_named he
      { p with numberOfArrivalInterest := p.numberOfArrivalInterest + 1 }
    have hbehind := step_of_named he p
    rw [if_neg (by simp only; omega)] at hahead
    rw [if_neg (by omega)] at hbehind
    have hlive' : (p.collect text s).sessions.get s =
        some { session with buffer := session.buffer ++ text ++ [ch '\n'] } := by
      show (p.sessions.appendPayload s text).2.get s = _
      rw [SessionManager.appendPayload_get, if_pos rfl, hlive]
      rfl
    have hrest := ih (p.collect text s) _ hlive' (by
      show p.numberOfArrivalInterest + 1 + (k + 2) = p.issuedInterest
      omega)
    intro htrace
    rw [List.replicate_succ, Runs.trace, Runs.trace, hahead, hbehind] at htrace
    exact hrest (Option.map_injective List.cons_injective htrace)

/-- **The late replies that change no packet, whatever comes after them, are those that find
the edge idle.** -/
theorem harmless_iff (hjson : lib.JsonDocumented) (hcast : lib.CastDocumented)
    (hlate : p.late lib e = true) (hstep : p.step lib e = some p') :
    (∀ es, Runs.trace (step lib) putsBetween p' es = Runs.trace (step lib) putsBetween p es) ↔
      p.Idle := by
  constructor
  · intro hsame
    by_contra hidle
    rw [Idle, not_or, not_forall, not_le] at hidle
    obtain ⟨⟨s, hs⟩, hlt⟩ := hidle
    obtain ⟨session, hlive⟩ := Option.ne_none_iff_exists'.1 hs
    have hnamed : (Event.result (encode lib (replyFor [] [] (decimal s.toNat) []))).named lib =
        some (s, _) := Event.named_of_payload rfl (sessionIdOf_encode hjson hcast rfl)
    obtain ⟨k, hk⟩ := Nat.exists_eq_add_of_lt hlt
    rw [step_late hlate, Option.some.injEq] at hstep
    subst hstep
    cases k with
    | zero =>
      -- the late reply clears the count, so the next one does not complete it
      rw [if_pos (by omega)] at hsame
      exact trace_ne_of_completes hnamed hs (by omega) (by simp [clearCounters]) (hsame [_])
    | succ k =>
      rw [if_neg (by omega)] at hsame
      exact trace_ne_of_ahead hnamed k p session hlive (by omega) (hsame _)
  · intro hidle es
    have hsimulated : ∀ (s t : Producer) (e : Event) (s' : Producer), Alike s t →
        s.step lib e = some s' → ∃ t', t.step lib e = some t' ∧ Alike s' t' ∧
          putsBetween t t' = putsBetween s s' := fun _ _ _ _ h hs => h.step hs
    refine Runs.trace_congr (fun _ _ => Alike.symm) hsimulated es p' p ?_
    exact Alike.skipped (Or.inl rfl) hidle hlate hstep

end

end Producer

/-! ## Whole runs -/

section

variable {lib : Externals} {mode : UInt8} {es : List Event} {p : Producer}

/-- **Replies that come late to an idle edge can be deleted.** -/
theorem trace_kept_of_idle
    (hrun : Runs.exec (Producer.step lib) (Producer.start mode) es = some p)
    (hidle : Runs.Along (Producer.step lib) (fun _ p e => p.late lib e = true → p.Idle)
      (Producer.start mode) es) : SamePuts lib mode es := by
  refine Runs.trace_kept (R := Producer.Alike) (Q := fun p e => p.late lib e = true → p.Idle)
    ?_ ?_ es _ _ p (Or.inl rfl) hidle hrun
  · intro s t e s' h hidle hlate hstep
    exact h.skipped (hidle hlate) hlate hstep
  · intro s t e s' h _ hstep
    exact h.step hstep

/-- **What a late reply changes is the counters.**  A run is left as it is exactly if no reply
of it comes late; the packets put are also left if every late reply finds the edge idle. -/
theorem discarded_iff
    (hrun : Runs.exec (Producer.step lib) (Producer.start mode) es = some p) :
    (Discarded lib mode es ↔
      Runs.Along (Producer.step lib) (fun _ p e => p.late lib e = false) (Producer.start mode) es) ∧
    (Runs.Along (Producer.step lib) (fun _ p e => p.late lib e = true → p.Idle)
      (Producer.start mode) es → SamePuts lib mode es) ∧
    Runs.Along (Producer.step lib) (fun _ p e => p.late lib e = true →
      ∃ p', p.step lib e = some p' ∧ p'.sessions = p.sessions ∧ p'.timers = p.timers ∧
        p'.face = p.face) (Producer.start mode) es := by
  refine ⟨⟨fun h pre e post hes q hq => ?_, fun h => ⟨?_, ?_⟩⟩, trace_kept_of_idle hrun, ?_⟩
  · by_contra hlate
    rw [Bool.not_eq_false] at hlate
    have hstep := Producer.step_late hlate
    exact Producer.ledger_ne_of_late hlate hstep
      (h.unchanged pre e post hes q hq hlate _ hstep)
  · refine h.mono fun _ q e _ hnot hlate => ?_
    rw [hnot] at hlate
    exact absurd hlate nofun
  · refine trace_kept_of_idle hrun (h.mono fun _ q e _ hnot hlate => ?_)
    rw [hnot] at hlate
    exact absurd hlate nofun
  · intro pre e post hes q hq hlate
    refine ⟨_, Producer.step_late hlate, ?_⟩
    split <;> exact ⟨rfl, rfl, rfl⟩

end

/-- Up to the timer of session 7 nothing comes late in that run; and the late reply finds the edge
idle, so it can be deleted. -/
theorem discarded_iff_staggered :
    Discarded reference (ch 'e') (staggered.take 5) ∧ SamePuts reference (ch 'e') staggered := by
  have hsome : ∀ n ∈ [5, 7], (Runs.exec (Producer.step reference) (Producer.start (ch 'e'))
      (staggered.take n)).isSome = true := by decide +kernel
  have honTime : Runs.Along (Producer.step reference) (fun _ p e => p.late reference e = false)
      (Producer.start (ch 'e')) (staggered.take 5) := by decide +kernel
  have hidle : Runs.Along (Producer.step reference) (fun _ p e => p.late reference e = true →
      p.issuedInterest ≤ p.numberOfArrivalInterest) (Producer.start (ch 'e')) staggered := by
    decide +kernel
  obtain ⟨q, hq⟩ := Option.isSome_iff_exists.1 (hsome 5 (by decide))
  obtain ⟨p, hp⟩ := Option.isSome_iff_exists.1 (hsome 7 (by decide))
  exact ⟨(discarded_iff hq).1.2 honTime, (discarded_iff hp).2.1
    (hidle.mono fun _ _ _ _ h hlate => Or.inr (h hlate))⟩

/-- A request for two locations, a reply to session 9, which was never opened, and the first
reply to the request. -/
def strayReply : List Event := [
  .interest (clientInterest [txt "30321", txt "33212"] (txt "person")) 1 7,
  .result (encode reference (replyFor (txt "30321") (txt "person") (txt "9") [])),
  .result (encode reference (replyFor (txt "30321") (txt "person") (txt "7") []))]

/-- **A stray reply has session 7 answered one reply too early.**  Without it nothing is put in
this run. -/
theorem not_discarded :
    (Runs.exec (Producer.step reference) (Producer.start (ch 'e')) strayReply).isSome = true ∧
      ¬ SamePuts reference (ch 'e') strayReply ∧ ¬ Discarded reference (ch 'e') strayReply := by
  have hputs : ¬ SamePuts reference (ch 'e') strayReply := by
    unfold SamePuts
    decide +kernel
  exact ⟨by decide +kernel, hputs, fun h => hputs h.samePuts⟩

end Crowdsensing
