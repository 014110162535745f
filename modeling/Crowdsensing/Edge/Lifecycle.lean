import Crowdsensing.Edge.OneSession
import Crowdsensing.Reference

/-!
# The life of a session

Over any run of the edge, with client Interests, replies, timers and the callbacks
of destroyed timers in any order, as long as no session id is drawn twice.

* `payloads` — the replies that named a session since it was opened, in order of
  arrival; `collected` — the text they make.
* `blank_step`, `live_step`, `done_step` — one step of a session that was never
  opened, is being collected for, or has been answered.
* `session_lifecycle` — **no loss, no duplicate, no mixing**: every client Interest
  is either live, with exactly its own replies in its buffer, or has been answered
  by exactly one Data packet, with exactly the replies that came before.
-/

namespace Crowdsensing

open Text

/-! ## Histories -/

namespace Event

/-- The session id an event opens a session with. -/
def opening : Event → Option UInt64
  | .interest _ _ s => some s
  | _ => none

/-- The payload an event brings for a session. -/
def payloadFor (lib : Externals) (s : UInt64) (e : Event) : Option Str :=
  (e.named lib).bind fun reply => if reply.1 = s then some reply.2 else none

end Event

/-- The session ids drawn for client Interests, in order. -/
def opened (es : List Event) : List UInt64 := es.filterMap Event.opening

/-- The events since a session was opened. -/
def sinceOpened (s : UInt64) (es : List Event) : List Event :=
  (es.dropWhile fun e => e.opening ≠ some s).tail

/-- The payloads of the replies that named a session since it was opened. -/
def payloads (lib : Externals) (s : UInt64) (es : List Event) : List Str :=
  (sinceOpened s es).filterMap (Event.payloadFor lib s)

/-- The text of a list of payloads: each with a line end behind it. -/
def collected (ps : List Str) : Str := ps.flatMap (· ++ [ch '\n'])

theorem collected_concat (ps : List Str) (p : Str) :
    collected (ps ++ [p]) = collected ps ++ p ++ [ch '\n'] := by
  simp [collected]

theorem length_collected (ps : List Str) :
    (collected ps).length = (ps.map fun p => p.length + 1).sum := by
  rw [collected, List.length_flatMap]
  simp

theorem opened_concat (es : List Event) (e : Event) :
    opened (es ++ [e]) = opened es ++ e.opening.toList := by
  rw [opened, opened, List.filterMap_append]
  cases h : e.opening <;> simp [h]

/-- If no session id is drawn twice in a run, none is in its beginning. -/
theorem opened_nodup_left {es fs : List Event} (h : (opened (es ++ fs)).Nodup) :
    (opened es).Nodup := by
  rw [opened, List.filterMap_append] at h
  exact (List.nodup_append.1 h).1

theorem not_mem_opened {es : List Event} {e : Event} {s : UInt64}
    (h : (opened (es ++ [e])).Nodup) (he : e.opening = some s) : s ∉ opened es := by
  rw [opened_concat, he] at h
  exact fun hs => (List.nodup_append.1 h).2.2 s hs s (List.mem_singleton_self s) rfl

theorem mem_opened {es : List Event} {s : UInt64} :
    s ∈ opened es ↔ ∃ i v, Event.interest i v s ∈ es := by
  rw [opened, List.mem_filterMap]
  constructor
  · rintro ⟨e, he, hs⟩
    cases e with
    | interest i v k =>
      obtain rfl : k = s := Option.some.inj hs
      exact ⟨i, v, he⟩
    | _ => exact absurd hs nofun
  · rintro ⟨i, v, h⟩
    exact ⟨_, h, rfl⟩

theorem sinceOpened_concat {es : List Event} {s : UInt64} (h : s ∈ opened es) (e : Event) :
    sinceOpened s (es ++ [e]) = sinceOpened s es ++ [e] := by
  have hne : es.dropWhile (fun e => e.opening ≠ some s) ≠ [] := by
    intro hnil
    obtain ⟨i, v, hmem⟩ := mem_opened.1 h
    have hall := List.dropWhile_eq_nil_iff.1 hnil _ hmem
    exact absurd hall (by simp [Event.opening])
  rw [sinceOpened, List.dropWhile_append, if_neg (by simpa using hne),
    List.tail_append_of_ne_nil hne]
  rfl

/-- A reply to a session that is open is one more payload. -/
theorem payloads_concat {lib : Externals} {es : List Event} {s : UInt64} (h : s ∈ opened es)
    (e : Event) : payloads lib s (es ++ [e]) = payloads lib s es ++ (e.payloadFor lib s).toList := by
  rw [payloads, sinceOpened_concat h, List.filterMap_append, payloads]
  cases hp : e.payloadFor lib s <;> simp [hp]

/-- A session starts without payloads. -/
theorem payloads_opening {lib : Externals} {es : List Event} {s : UInt64} (h : s ∉ opened es)
    {e : Event} (he : e.opening = some s) : payloads lib s (es ++ [e]) = [] := by
  have hall : ∀ f ∈ es, decide (f.opening ≠ some s) = true := by
    intro f hf
    refine decide_eq_true fun hc => h ?_
    exact List.mem_filterMap.2 ⟨f, hf, hc⟩
  rw [payloads, sinceOpened, List.dropWhile_append_of_pos hall]
  simp [he]

/-- What was collected before is the beginning of what is collected later. -/
theorem payloads_prefix (lib : Externals) (s : UInt64) (es fs : List Event) :
    payloads lib s es <+: payloads lib s (es ++ fs) := by
  refine List.IsPrefix.filterMap _ ?_
  rw [sinceOpened, sinceOpened, List.dropWhile_append]
  split
  · rename_i hnil
    rw [List.isEmpty_iff.1 hnil]
    exact List.nil_prefix
  · rename_i hne
    rw [List.tail_append_of_ne_nil (by simpa using hne)]
    exact List.prefix_append _ _

section

variable {lib : Externals} {s : UInt64} {e : Event}

theorem payloadFor_of_named {text : Str} (h : e.named lib = some (s, text)) :
    e.payloadFor lib s = some text := by
  rw [Event.payloadFor, h, Option.bind_some, if_pos rfl]

theorem payloadFor_of_payload (h : e.payload = none) : e.payloadFor lib s = none := by
  simp only [Event.payloadFor, Event.named, h]
  rfl

theorem opening_of_payload {text : Str} (h : e.payload = some text) : e.opening = none := by
  cases e with
  | interest i v k => exact absurd h nofun
  | _ => rfl

theorem opening_of_named {text : Str} (h : e.named lib = some (s, text)) : e.opening = none :=
  opening_of_payload (Event.of_named h).1

/-- An event about another session brings this one nothing. -/
theorem payloadFor_of_about (h : e.about lib ≠ some s) : e.payloadFor lib s = none := by
  have key : ∀ r : Option (UInt64 × Str), r.map Prod.fst ≠ some s →
      (r.bind fun reply => if reply.1 = s then some reply.2 else none) = none := by
    intro r hr
    cases r with
    | none => rfl
    | some r => exact if_neg fun hc => hr (congrArg some hc)
  cases e with
  | data i d => exact key _ h
  | result text => exact key _ h
  | _ => exact payloadFor_of_payload rfl

theorem opening_of_about (h : e.about lib ≠ some s) : e.opening ≠ some s := by
  cases e with
  | interest i v k => exact h
  | _ => exact nofun

end

/-! ## One step of a session -/

/-- A session with the payloads collected for it. -/
def View.live (s : UInt64) (packet : Data) (ps : List Str) : View :=
  ⟨some { sessionId := s, dataPtr := packet, buffer := collected ps }, 1, 0, []⟩

/-- A session that was answered with the given payloads. -/
structure View.Done (packet : Data) (ps : List Str) (v : View) : Prop where
  session : v.session = none
  waiting : v.waiting = 0
  puts : v.puts = [packet.setContent (collected ps)]

section

variable {lib : Externals} {s : UInt64} {e : Event} {packet : Data} {ps : List Str} {v v' : View}

/-- A session id that was never used can only be opened. -/
theorem blank_step (h : SessionStep lib s e View.blank v') :
    (v' = View.blank ∧ e.opening ≠ some s) ∨
      ∃ i version, e = .interest i version s ∧ v' = View.live s (packetFor i version) [] := by
  generalize hv : View.blank = v at h
  cases h with
  | opened i version =>
    subst hv
    exact Or.inr ⟨i, version, rfl, rfl⟩
  | received named =>
    subst hv
    exact Or.inl ⟨rfl, by rw [opening_of_named named]; exact nofun⟩
  | completed named =>
    subst hv
    exact Or.inl ⟨rfl, by rw [opening_of_named named]; exact nofun⟩
  | expired armed =>
    subst hv
    exact absurd armed (Nat.lt_irrefl 0)
  | called pending =>
    subst hv
    exact absurd pending (Nat.lt_irrefl 0)
  | other about => exact Or.inl ⟨rfl, opening_of_about about⟩

theorem received_live (text : Str) :
    (View.live s packet ps).received text = View.live s packet (ps ++ [text]) := by
  simp [View.received, View.live, collected_concat]

theorem answered_live : View.Done packet ps (View.live s packet ps).answered :=
  ⟨rfl, rfl, rfl⟩

/-- A live session takes in what the event brings for it, and may be answered. -/
theorem live_step (h : SessionStep lib s e (View.live s packet ps) v')
    (hopen : e.opening ≠ some s) :
    v' = View.live s packet (ps ++ (e.payloadFor lib s).toList) ∨
      View.Done packet (ps ++ (e.payloadFor lib s).toList) v' := by
  generalize hv : View.live s packet ps = v at h
  cases h with
  | opened i version => exact absurd rfl hopen
  | received named =>
    subst hv
    rw [payloadFor_of_named named]
    exact Or.inl (received_live _)
  | completed named =>
    subst hv
    rw [payloadFor_of_named named, received_live]
    exact Or.inr answered_live
  | expired armed =>
    subst hv
    rw [payloadFor_of_payload rfl, Option.toList_none, List.append_nil]
    exact Or.inr ⟨rfl, rfl, rfl⟩
  | called pending =>
    subst hv
    exact absurd pending (Nat.lt_irrefl 0)
  | other about =>
    rw [payloadFor_of_about about, Option.toList_none, List.append_nil]
    exact Or.inl hv.symm

/-- Nothing happens to a session that was answered. -/
theorem done_step (h : SessionStep lib s e v v') (hv : View.Done packet ps v)
    (hopen : e.opening ≠ some s) : View.Done packet ps v' := by
  have hanswered : ∀ w : View, View.Done packet ps w → View.Done packet ps w.answered := by
    intro w hw
    rw [View.answered, hw.session]
    exact hw
  have hreceived : ∀ text, View.Done packet ps (v.received text) := by
    intro text
    refine ⟨?_, hv.waiting, hv.puts⟩
    rw [View.received, hv.session]
    rfl
  cases h with
  | opened i version => exact absurd rfl hopen
  | received named => exact hreceived _
  | completed named => exact hanswered _ (hreceived _)
  | expired armed =>
    rw [hv.waiting] at armed
    exact absurd armed (Nat.lt_irrefl 0)
  | called pending => exact hanswered _ ⟨hv.session, hv.waiting, hv.puts⟩
  | other about => exact hv

end

/-! ## The life of a session -/

/-- The edge before anything happened. -/
def Producer.start (mode : UInt8) : Producer := { edgeMode := mode }

/-- The request is being collected for: its session is held with exactly the
payloads of its own replies, its timer waits, and nothing was put for it. -/
structure IsLive (lib : Externals) (es : List Event) (p : Producer) (interest : Interest)
    (version : ℕ) (s : UInt64) : Prop where
  session : p.sessions.get s = some {
    sessionId := s
    dataPtr := packetFor interest version
    buffer := collected (payloads lib s es) }
  armed : p.timers.waiting.count s = 1
  put : putsFor s p.face.puts = []

/-- The request was answered: its session is gone, and one Data packet was put for
it, at one event of the run, with the payloads of its own replies up to that event. -/
structure IsAnswered (lib : Externals) (mode : UInt8) (es : List Event) (p : Producer)
    (interest : Interest) (version : ℕ) (s : UInt64) : Prop where
  session : p.sessions.get s = none
  put : ∃ pre e post q q', es = pre ++ e :: post ∧
    Runs.exec (Producer.step lib) (Producer.start mode) pre = some q ∧ q.step lib e = some q' ∧
    putsFor s q.face.puts = [] ∧
    ∀ r ∈ [q', p], putsFor s r.face.puts =
      [(packetFor interest version).setContent (collected (payloads lib s (pre ++ [e])))]

section

variable {lib : Externals} {mode : UInt8}

/-- The one client Interest that opened a session. -/
structure OpenedBy (es : List Event) (s : UInt64) (i : Interest) (version : ℕ) : Prop where
  mem : s ∈ opened es
  unique : ∀ i' version', .interest i' version' s ∈ es → i' = i ∧ version' = version

/-- A session that is open is not opened again, if no session id is drawn twice. -/
theorem OpenedBy.concat {es : List Event} {e : Event} {s : UInt64} {i : Interest} {version : ℕ}
    (h : OpenedBy es s i version) (hfresh : (opened (es ++ [e])).Nodup) :
    e.opening ≠ some s ∧ OpenedBy (es ++ [e]) s i version := by
  have hopening : e.opening ≠ some s := fun hc => not_mem_opened hfresh hc h.mem
  refine ⟨hopening, ?_, fun i' version' hmem => ?_⟩
  · rw [opened_concat]
    exact List.mem_append_left _ h.mem
  · rcases List.mem_append.1 hmem with hmem | hmem
    · exact h.unique i' version' hmem
    · rw [← List.mem_singleton.1 hmem] at hopening
      exact absurd rfl hopening

theorem OpenedBy.opening {es : List Event} {s : UInt64} (h : s ∉ opened es) (i : Interest)
    (version : ℕ) : OpenedBy (es ++ [.interest i version s]) s i version := by
  refine ⟨?_, fun i' version' hmem => ?_⟩
  · rw [opened_concat]
    exact List.mem_append_right _ (List.mem_singleton_self s)
  · rcases List.mem_append.1 hmem with hmem | hmem
    · exact absurd (mem_opened.2 ⟨i', version', hmem⟩) h
    · have heq := List.mem_singleton.1 hmem
      simp only [Event.interest.injEq] at heq
      exact ⟨heq.1, heq.2.1⟩

/-- The event that answered a request, with the states around it. -/
def AnsweredAt (lib : Externals) (mode : UInt8) (es : List Event) (s : UInt64) (packet : Data)
    (v : View) : Prop :=
  ∃ pre e post q q', es = pre ++ e :: post ∧
    Runs.exec (Producer.step lib) (Producer.start mode) pre = some q ∧ q.step lib e = some q' ∧
    (q.view s).puts = [] ∧ View.Done packet (payloads lib s (pre ++ [e])) (q'.view s) ∧
    View.Done packet (payloads lib s (pre ++ [e])) v

/-- What a run leaves of a session: nothing if it was not opened, and otherwise what
was collected for it or what it was answered with. -/
def Tracked (lib : Externals) (mode : UInt8) (es : List Event) (s : UInt64) (v : View) : Prop :=
  (s ∉ opened es ∧ v = View.blank) ∨ ∃ i version, OpenedBy es s i version ∧
    (v = View.live s (packetFor i version) (payloads lib s es) ∨
      AnsweredAt lib mode es s (packetFor i version) v)

/-- **One step keeps track of a session.** -/
theorem tracked_step {es : List Event} {p p' : Producer} {e : Event} {s : UInt64}
    (hrun : Runs.exec (Producer.step lib) (Producer.start mode) es = some p)
    (hstep : p.step lib e = some p') (hfresh : (opened (es ++ [e])).Nodup)
    (h : Tracked lib mode es s (p.view s)) : Tracked lib mode (es ++ [e]) s (p'.view s) := by
  have hview := Producer.view_step hstep s
  rcases h with ⟨hnot, hblank⟩ | ⟨i, version, hopen, hlive | hdone⟩
  · rw [hblank] at hview
    rcases blank_step hview with ⟨hv, hopening⟩ | ⟨i, version, rfl, hv⟩
    · refine Or.inl ⟨?_, hv⟩
      rw [opened_concat, List.mem_append, Option.mem_toList]
      exact not_or.2 ⟨hnot, hopening⟩
    · refine Or.inr ⟨i, version, OpenedBy.opening hnot i version, Or.inl ?_⟩
      rw [hv, payloads_opening hnot rfl]
  · obtain ⟨hopening, hopen'⟩ := hopen.concat hfresh
    refine Or.inr ⟨i, version, hopen', ?_⟩
    rw [hlive] at hview
    rcases live_step hview hopening with hv | hv
    · exact Or.inl (by rw [hv, payloads_concat hopen.mem])
    · rw [← payloads_concat hopen.mem] at hv
      exact Or.inr ⟨es, e, [], p, p', rfl, hrun, hstep, by rw [hlive]; rfl, hv, hv⟩
  · obtain ⟨hopening, hopen'⟩ := hopen.concat hfresh
    refine Or.inr ⟨i, version, hopen', Or.inr ?_⟩
    obtain ⟨pre, f, post, q, q', rfl, hq, hq', hputs, hdone', hv⟩ := hdone
    refine ⟨pre, f, post ++ [e], q, q', ?_, hq, hq', hputs, hdone', done_step hview hv hopening⟩
    rw [List.append_assoc, List.cons_append]

/-- **Every run keeps track of every session.** -/
theorem tracked (es : List Event) (p : Producer)
    (hrun : Runs.exec (Producer.step lib) (Producer.start mode) es = some p)
    (hfresh : (opened es).Nodup) (s : UInt64) : Tracked lib mode es s (p.view s) := by
  refine Runs.history (P := fun es p => (opened es).Nodup → Tracked lib mode es s (p.view s))
    ?_ ?_ es p hrun hfresh
  · intro _
    exact Or.inl ⟨List.not_mem_nil, rfl⟩
  · intro es p e p' hrun ih hstep hfresh
    exact tracked_step hrun hstep hfresh (ih (opened_nodup_left hfresh))

/-- **No loss, no duplicate, no mixing.**  In every state the edge can reach, every
client Interest so far is either live or answered, and not both. -/
theorem session_lifecycle {es : List Event} {p : Producer}
    (hrun : Runs.exec (Producer.step lib) (Producer.start mode) es = some p)
    (hfresh : (opened es).Nodup) {interest : Interest} {version : ℕ} {s : UInt64}
    (hmem : .interest interest version s ∈ es) :
    Xor (IsLive lib es p interest version s)
      (IsAnswered lib mode es p interest version s) := by
  rcases tracked es p hrun hfresh s with ⟨hnot, -⟩ | ⟨i, v, hopen, hlive | hdone⟩
  · exact absurd (mem_opened.2 ⟨interest, version, hmem⟩) hnot
  · obtain ⟨rfl, rfl⟩ := hopen.unique interest version hmem
    have hsession := congrArg View.session hlive
    refine Or.inl ⟨⟨hsession, congrArg View.waiting hlive, congrArg View.puts hlive⟩, ?_⟩
    intro hans
    exact absurd (hsession.symm.trans hans.session) (by simp [View.live])
  · obtain ⟨rfl, rfl⟩ := hopen.unique interest version hmem
    obtain ⟨pre, e, post, q, q', hes, hq, hq', hputs, hdone', hv⟩ := hdone
    refine Or.inr ⟨⟨hv.session, pre, e, post, q, q', hes, hq, hq', hputs, ?_⟩, ?_⟩
    · intro r hr
      simp only [List.mem_cons, List.not_mem_nil, or_false] at hr
      rcases hr with rfl | rfl
      · exact hdone'.puts
      · exact hv.puts
    · intro hlive
      exact absurd (hlive.session.symm.trans hv.session) (by simp)

end

/-- A reply to a session. -/
def replyTo (session_id : String) : Event :=
  .result (encode reference (replyFor (txt "30321") (txt "person") (txt session_id) []))

/-- Session 7 waits for two replies, and has one when session 8 is opened and answered; then the
timer of session 7 expires, its second reply comes late, and the destroyed timer of session 8 calls
back. -/
def staggered : List Event := [
  .interest (clientInterest [txt "30321", txt "33212"] (txt "person")) 1 7,
  replyTo "7",
  .interest (clientInterest [txt "30321"] (txt "person")) 2 8,
  replyTo "8",
  .expiry 7,
  replyTo "7",
  .aborted 8]

/-- After these events each of the two sessions is live or answered, and not both. -/
def BothTracked (es : List Event) : Prop :=
  ∃ p, Runs.exec (Producer.step reference) (Producer.start (ch 'e')) es = some p ∧
    Xor (IsLive reference es p (clientInterest [txt "30321", txt "33212"] (txt "person")) 1 7)
      (IsAnswered reference (ch 'e') es p
        (clientInterest [txt "30321", txt "33212"] (txt "person")) 1 7) ∧
    Xor (IsLive reference es p (clientInterest [txt "30321"] (txt "person")) 2 8)
      (IsAnswered reference (ch 'e') es p (clientInterest [txt "30321"] (txt "person")) 2 8)

/-- So it is while both are live, and when both are answered. -/
theorem session_lifecycle_staggered :
    BothTracked (staggered.take 3) ∧ BothTracked (staggered.take 7) := by
  have htracked : ∀ n ∈ [3, 7], BothTracked (staggered.take n) := by
    intro n hn
    have hsome : ∀ n ∈ [3, 7], (Runs.exec (Producer.step reference) (Producer.start (ch 'e'))
        (staggered.take n)).isSome = true := by decide +kernel
    have hfresh : ∀ n ∈ [3, 7], (opened (staggered.take n)).Nodup := by decide +kernel
    have hmem : ∀ n ∈ [3, 7], staggered[0] ∈ staggered.take n ∧
        staggered[2] ∈ staggered.take n := by decide +kernel
    obtain ⟨p, hp⟩ := Option.isSome_iff_exists.1 (hsome n hn)
    exact ⟨p, hp, session_lifecycle hp (hfresh n hn) (hmem n hn).1,
      session_lifecycle hp (hfresh n hn) (hmem n hn).2⟩
  exact ⟨htracked 3 (by decide), htracked 7 (by decide)⟩

end Crowdsensing
