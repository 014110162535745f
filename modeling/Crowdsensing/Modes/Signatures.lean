import Crowdsensing.Edge.Aggregation
import Crowdsensing.Modes.Requests
import Crowdsensing.Worker.Answers

/-!
# Signatures of the packets

A packet is signed as it is when `sign` is called; what the setters change afterwards is not
covered.  The worker signs a packet right before it is put.  The edge signs the packet of a
session when the session is opened, and fills in the replies when it is put.

* `Data.SignedAsIs` — the signature covers the packet as it is.
* `NoReplyAnswered` — no session that has a reply is answered.
* `signed_step` — a step of the edge puts packets signed as they are exactly if it answers
  no session that has a reply.
* `signed_as_sent` — **the worker signs every packet as it is sent; the edge does so in
  exactly the runs that answer no session with a reply.**
-/

namespace Crowdsensing

open Text

/-- The signature is computed over the packet as it is.  What was signed is compared with what
the packet has: setting an empty content after `sign` leaves a packet that was signed empty
signed as it is. -/
def Data.SignedAsIs (data : Data) : Prop :=
  data.signature = some ⟨data.name, data.finalBlock, data.content⟩

instance (data : Data) : Decidable data.SignedAsIs := by
  unfold Data.SignedAsIs
  infer_instance

theorem Data.signedAsIs_sign (data : Data) : data.sign.SignedAsIs := rfl

/-- A packet that was signed empty is signed as it is until it is filled. -/
theorem Data.signedAsIs_setContent {data : Data} (h : data.SignedAsIs) (hempty : data.content = [])
    (content : Str) : (data.setContent content).SignedAsIs ↔ content = [] := by
  have hsignature : (data.setContent content).signature = some ⟨data.name, data.finalBlock, []⟩ :=
    h.trans (by rw [hempty])
  rw [SignedAsIs, hsignature]
  simp [setContent, eq_comm]

/-- No session that has a reply is answered: a reply does not complete a session, and a timer
runs out only on sessions without a reply. -/
def NoReplyAnswered (lib : Externals) (_history : List Event) (p : Producer) (e : Event) : Prop :=
  (∀ s text, e.named lib = some (s, text) → p.sessions.get s ≠ none →
    p.numberOfArrivalInterest + 1 ≠ p.issuedInterest) ∧
  ∀ s, e = .expiry s ∨ e = .aborted s → ∀ session, p.sessions.get s = some session →
    session.buffer = []

/-! ## The edge -/

/-- The packets of the sessions were signed empty. -/
def SignedEmpty (p : Producer) : Prop :=
  ∀ s session, p.sessions.get s = some session →
    session.dataPtr.SignedAsIs ∧ session.dataPtr.content = []

section

variable {lib : Externals} {p p' : Producer} {e : Event}

/-- **The packets of the sessions stay as they were signed**, whatever happens. -/
theorem signedEmpty_step (h : SignedEmpty p) (hstep : p.step lib e = some p') :
    SignedEmpty p' := by
  intro s session hs
  have hview := Producer.view_step hstep s
  have hbefore : ∀ session, (p.view s).session = some session →
      session.dataPtr.SignedAsIs ∧ session.dataPtr.content = [] := h s
  have hafter : (p'.view s).session = some session := hs
  -- what is in the table after the step has the packet of before, or is new
  have hreceived : ∀ text session, ((p.view s).received text).session = some session →
      session.dataPtr.SignedAsIs ∧ session.dataPtr.content = [] := by
    intro text session hsession
    obtain ⟨session', hsession', rfl⟩ := Option.map_eq_some_iff.1 hsession
    exact hbefore session' hsession'
  generalize p.view s = v at hview hbefore hreceived
  generalize p'.view s = v' at hview hafter
  cases hview with
  | opened i version =>
    unfold View.opened at hafter
    split at hafter
    · obtain rfl := Option.some.inj hafter
      exact ⟨rfl, rfl⟩
    · exact hbefore session hafter
  | received named => exact hreceived _ session hafter
  | completed named => exact absurd (hafter.symm.trans (View.answered_session _)) (by simp)
  | expired armed => exact absurd (hafter.symm.trans (View.answered_session _)) (by simp)
  | called pending => exact absurd (hafter.symm.trans (View.answered_session _)) (by simp)
  | other about => exact hbefore session hafter

/-- The one packet that may be put is signed as it is exactly if its session has no reply. -/
theorem signed_answer (h : SignedEmpty p) (s : UInt64) (buffer : Session → Str) :
    (∀ put ∈ ((p.sessions.get s).map fun session =>
        (s, session.dataPtr.setContent (buffer session))).toList, put.2.SignedAsIs) ↔
      ∀ session, p.sessions.get s = some session → buffer session = [] := by
  cases hs : p.sessions.get s with
  | none => simp
  | some session =>
    obtain ⟨hsigned, hempty⟩ := h s session hs
    simp [Data.signedAsIs_setContent hsigned hempty]

/-- A client Interest puts nothing. -/
theorem puts_handleInterest {interest : Interest} {version : ℕ} {s : UInt64}
    (h : p.handleInterest lib interest version s = some (.ok p')) :
    p'.face.puts = p.face.puts :=
  congrArg Ledger.puts (Producer.ledger_handleInterest rfl h).2

/-- **A step of the edge puts packets signed as they are exactly if it answers no session that
has a reply.** -/
theorem signed_step (h : SignedEmpty p) (history : List Event) (hstep : p.step lib e = some p') :
    ∃ new, p'.face.puts = p.face.puts ++ new ∧
      ((∀ put ∈ new, put.2.SignedAsIs) ↔ NoReplyAnswered lib history p e) := by
  have hevent : ∀ text, e.payload = some text → ∀ s, ¬ (e = .expiry s ∨ e = .aborted s) := by
    rintro text htext s (rfl | rfl)
    · exact absurd htext nofun
    · exact absurd htext nofun
  have htimer : ∀ (timers : Timers) (s : UInt64), e = .expiry s ∨ e = .aborted s →
      e.named lib = none →
      ∃ new, ({ p with timers := timers }.finish s).face.puts = p.face.puts ++ new ∧
        ((∀ put ∈ new, put.2.SignedAsIs) ↔ NoReplyAnswered lib history p e) := by
    intro timers s hevent hnone
    refine ⟨_, Producer.puts_finish _ s, ?_⟩
    rw [signed_answer (p := { p with timers := timers }) h s Session.buffer]
    have hsame : ∀ k, e = .expiry k ∨ e = .aborted k ↔ s = k := by
      rcases hevent with rfl | rfl <;> simp
    simp only [NoReplyAnswered, hnone, hsame]
    simp
  cases Producer.step_iff.1 hstep with
  | asked accepted =>
    exact ⟨[], by rw [puts_handleInterest accepted, List.append_nil],
      by simp [NoReplyAnswered, Event.named, Event.payload]⟩
  | dropped payload unnamed =>
    exact ⟨[], by rw [List.append_nil],
      by simp [NoReplyAnswered, Event.named_of_unnamed payload unnamed, hevent _ payload]⟩
  | @replied _ s text named =>
    refine ⟨_, Producer.puts_of_named named hstep, ?_⟩
    have hnot := hevent _ (Event.of_named named).1
    by_cases hlast : p.numberOfArrivalInterest + 1 = p.issuedInterest
    · rw [if_pos hlast, signed_answer h s fun session => session.buffer ++ text ++ [ch '\n']]
      simp [NoReplyAnswered, named, hnot, hlast, Option.eq_none_iff_forall_ne_some]
    · rw [if_neg hlast]
      simp [NoReplyAnswered, named, hnot, hlast]
  | expired armed => exact htimer _ _ (Or.inl rfl) rfl
  | called pending => exact htimer _ _ (Or.inr rfl) rfl

end

/-! ## The worker -/

/-- **The worker signs a packet right before it is put**, in any state and mode. -/
theorem Worker.signed_answers (lib : Externals) (w : Worker) (a : Arrival) :
    ∀ data, .data data ∈ w.answers lib a → data.SignedAsIs := by
  intro data hdata
  unfold Worker.answers at hdata
  cases hr : w.receive lib a with
  | error f =>
    rw [hr] at hdata
    exact absurd hdata List.not_mem_nil
  | ok r =>
    obtain ⟨v, packets⟩ := r
    rw [hr] at hdata
    -- whatever the mode, the one packet put is the result of `sign`
    have hsigned : ∀ data' : Data, packets = [.data data'.sign] → data.SignedAsIs := by
      rintro data' rfl
      rw [Packet.data.inj (List.mem_singleton.1 hdata)]
      exact Data.signedAsIs_sign data'
    have hprocess : ∀ u : Worker, u.processSegmentInterest lib a.interest = .ok (v, packets) →
        data.SignedAsIs := by
      intro u hu
      obtain ⟨_, _, data', -, -, -, -, hpackets⟩ := Worker.processSegmentInterest_eq_ok hu
      exact hsigned data' hpackets
    rcases Worker.onInterest_cases hr with ⟨-, hnone⟩ | ⟨-, -, data', hpackets⟩ | ⟨-, hcloud⟩
    · change Packet.data data ∈ packets at hdata
      rw [hnone] at hdata
      exact absurd hdata List.not_mem_nil
    · exact hsigned data' hpackets
    · rcases Worker.answerCloud_cases hcloud with ⟨_, -, hu⟩ | ⟨_, _, -, -, -, hu⟩
      · exact hprocess w hu
      · exact hprocess _ hu

/-! ## Both programs -/

/-- **The worker signs every packet as it is sent; the edge does so in exactly the runs that
answer no session with a reply.** -/
theorem signed_as_sent (lib : Externals) :
    (∀ mode es p, Runs.exec (Producer.step lib) (Producer.start mode) es = some p →
      ((∀ put ∈ p.face.puts, put.2.SignedAsIs) ↔
        Runs.Along (Producer.step lib) (NoReplyAnswered lib) (Producer.start mode) es)) ∧
    ∀ cd_str options arrivals, Runs.Along (Worker.step lib)
      (fun _ w a => ∀ data, .data data ∈ w.answers lib a → data.SignedAsIs)
      (Worker.start cd_str options) arrivals := by
  constructor
  · intro mode es p hrun
    have hstart : SignedEmpty (Producer.start mode) := fun s session h => absurd h (by
      simp [Producer.start, SessionManager.get])
    refine (Runs.history (P := fun es p => SignedEmpty p ∧
      ((∀ put ∈ p.face.puts, put.2.SignedAsIs) ↔
        Runs.Along (Producer.step lib) (NoReplyAnswered lib) (Producer.start mode) es))
      ⟨hstart, iff_of_true (by simp [Producer.start]) (Runs.along_nil _)⟩ ?_ es p hrun).2
    rintro es p e p' hrun ⟨hempty, hiff⟩ hstep
    obtain ⟨new, hnew, hsigned⟩ := signed_step hempty es hstep
    refine ⟨signedEmpty_step hempty hstep, ?_⟩
    rw [Runs.along_concat, ← hiff, hnew]
    simp only [List.mem_append, or_imp, forall_and, hsigned, hrun, Option.some.injEq,
      forall_eq']
  · intro cd_str options arrivals pre a post _ w _
    exact Worker.signed_answers lib w a

/-- A request whose timer runs out before any reply. -/
def noReply : List Event := [
  .interest (clientInterest [txt "30321"] (txt "person")) 1 7, .expiry 7]

/-- The packet of a session without a reply is signed as it is sent. -/
theorem signed_as_sent_noReply :
    ∃ p, Runs.exec (Producer.step reference) (Producer.start (ch 'e')) noReply = some p ∧
      ((∀ put ∈ p.face.puts, put.2.SignedAsIs) ↔ Runs.Along (Producer.step reference)
        (NoReplyAnswered reference) (Producer.start (ch 'e')) noReply) := by
  have hsome : (Runs.exec (Producer.step reference) (Producer.start (ch 'e')) noReply).isSome
      = true := by decide +kernel
  obtain ⟨p, hp⟩ := Option.isSome_iff_exists.1 hsome
  exact ⟨p, hp, (signed_as_sent reference).1 _ _ _ hp⟩

/-- A request for one location and the one reply to it. -/
def oneReply : List Event := [
  .interest (clientInterest [txt "30321"] (txt "person")) 1 7, replyTo "7"]

/-- **The packet of a session with a reply is not signed as it is sent**: the signature covers
the empty content it had when the session was opened. -/
theorem not_signed_as_sent :
    ∃ p, Runs.exec (Producer.step reference) (Producer.start (ch 'e')) oneReply = some p ∧
      ¬ ∀ put ∈ p.face.puts, put.2.SignedAsIs := by
  have hputs : (Runs.exec (Producer.step reference) (Producer.start (ch 'e')) oneReply).map
      (fun p => decide (∀ put ∈ p.face.puts, put.2.SignedAsIs)) = some false := by decide +kernel
  obtain ⟨p, hp, hfalse⟩ := Option.map_eq_some_iff.1 hputs
  exact ⟨p, hp, of_decide_eq_false hfalse⟩

end Crowdsensing
