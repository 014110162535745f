import Crowdsensing.Edge.Producer
import Crowdsensing.System.Run

/-!
# The edge as one session sees it

What the edge holds for one session id: its entry in the session table, its timer,
and the Data packets put for it.

* `View` and `SessionStep` — **an abstract model of one session**: it is opened,
  receives payloads, and is answered by its last reply or its timer.
* `Producer.Moves` — the ways an event changes the edge, with `Producer.step_iff`.
* `Producer.view_step` — **the edge refines it**: whatever the event, every
  session id sees a step of that model, and an event about another session shows
  it nothing.
-/

namespace Crowdsensing

open Text

/-! ## Events and the sessions they are about -/

namespace Event

/-- The session id and the payload of a reply that is not discarded. -/
def named (lib : Externals) (e : Event) : Option (UInt64 × Str) :=
  match e.payload with
  | none => none
  | some text =>
    match Producer.sessionIdOf lib text with
    | .ok (some s) => some (s, text)
    | _ => none

theorem named_of_payload {lib : Externals} {e : Event} {text : Str} {s : UInt64}
    (he : e.payload = some text) (h : Producer.sessionIdOf lib text = .ok (some s)) :
    e.named lib = some (s, text) := by
  simp only [named, he, h]

theorem named_of_unnamed {lib : Externals} {e : Event} {text : Str} (he : e.payload = some text)
    (h : Producer.sessionIdOf lib text = .ok none) : e.named lib = none := by
  simp only [named, he, h]

theorem of_named {lib : Externals} {e : Event} {text : Str} {s : UInt64}
    (h : e.named lib = some (s, text)) :
    e.payload = some text ∧ Producer.sessionIdOf lib text = .ok (some s) := by
  unfold named at h
  split at h
  · exact absurd h nofun
  · rename_i payload hpayload
    split at h
    · rename_i id hid
      obtain ⟨rfl, rfl⟩ := Prod.mk.inj (Option.some.inj h)
      exact ⟨hpayload, hid⟩
    · exact absurd h nofun

/-- The session an event is about. -/
def about (lib : Externals) : Event → Option UInt64
  | .interest _ _ s => some s
  | .expiry s => some s
  | .aborted s => some s
  | .data i d => ((Event.data i d).named lib).map Prod.fst
  | .result text => ((Event.result text).named lib).map Prod.fst

theorem about_of_payload {lib : Externals} {e : Event} {text : Str} (he : e.payload = some text) :
    e.about lib = (e.named lib).map Prod.fst := by
  cases e with
  | data i d => rfl
  | result r => rfl
  | _ => exact absurd he nofun

end Event

/-- The Data packet a session is opened with. -/
def packetFor (interest : Interest) (version : ℕ) : Data :=
  Data.sign { name := interest.name ++ [.generic (txt "IoT"), .version version] }

/-! ## One session -/

/-- What the edge holds for one session id. -/
structure View where
  /-- Its entry in the session table. -/
  session : Option Session
  /-- Its waits that have not ended. -/
  waiting : ℕ
  /-- Its callbacks of destroyed timers that are still to be called. -/
  aborted : ℕ
  /-- The Data packets put for it. -/
  puts : List Data

namespace View

/-- A session id that was never used. -/
def blank : View := ⟨none, 0, 0, []⟩

/-- The session is opened; with an id in use only the new timer is destroyed. -/
def opened (v : View) (s : UInt64) (packet : Data) : View :=
  match v.session with
  | none => { v with session := some { sessionId := s, dataPtr := packet }, waiting := v.waiting + 1 }
  | some _ => { v with aborted := v.aborted + 1 }

/-- A payload arrives. -/
def received (v : View) (payload : Str) : View :=
  { v with session := v.session.map fun session =>
      { session with buffer := session.buffer ++ payload ++ [ch '\n'] } }

/-- The session is answered and forgotten, and its timer destroyed. -/
def answered (v : View) : View :=
  match v.session with
  | none => v
  | some session => {
      session := none
      waiting := v.waiting - 1
      aborted := v.aborted + min v.waiting 1
      puts := v.puts ++ [session.dataPtr.setContent session.buffer] }

/-- A wait ends. -/
def fired (v : View) : View := { v with waiting := v.waiting - 1 }

/-- The callback of a destroyed timer is called. -/
def called (v : View) : View := { v with aborted := v.aborted - 1 }

end View

/-- A session that was answered is gone. -/
theorem View.answered_session (v : View) : v.answered.session = none := by
  unfold View.answered
  cases hv : v.session with
  | none => exact hv
  | some session => rfl

/-- What an event may do to one session. -/
inductive SessionStep (lib : Externals) (s : UInt64) : Event → View → View → Prop
  /-- A client Interest opens the session. -/
  | opened {v : View} (interest : Interest) (version : ℕ) :
    SessionStep lib s (.interest interest version s) v (v.opened s (packetFor interest version))
  /-- A reply is collected. -/
  | received {v : View} {e : Event} {text : Str} (named : e.named lib = some (s, text)) :
    SessionStep lib s e v (v.received text)
  /-- A reply is collected and completes the session. -/
  | completed {v : View} {e : Event} {text : Str} (named : e.named lib = some (s, text)) :
    SessionStep lib s e v (v.received text).answered
  /-- The timer expires. -/
  | expired {v : View} (armed : 0 < v.waiting) : SessionStep lib s (.expiry s) v v.fired.answered
  /-- The callback of its destroyed timer is called. -/
  | called {v : View} (pending : 0 < v.aborted) : SessionStep lib s (.aborted s) v v.called.answered
  /-- The event is about another session, or none. -/
  | other {v : View} {e : Event} (about : e.about lib ≠ some s) : SessionStep lib s e v v

/-! ## The edge refines the model of one session -/

namespace Timers

theorem arm_waiting (t : Timers) (s k : UInt64) :
    (t.arm s).waiting.count k = t.waiting.count k + if k = s then 1 else 0 := by
  rw [arm, List.count_append, List.count_singleton]
  by_cases hk : k = s
  · rw [if_pos hk, if_pos (by simp [hk])]
  · rw [if_neg hk, if_neg (by simpa using Ne.symm hk)]

theorem count_erase_eq (l : List UInt64) (s k : UInt64) :
    (l.erase s).count k = if k = s then l.count s - 1 else l.count k := by
  by_cases hk : k = s
  · rw [if_pos hk, hk, List.count_erase_self]
  · rw [if_neg hk, List.count_erase_of_ne hk]

theorem destroy_waiting (t : Timers) (s k : UInt64) :
    (t.destroy s).waiting.count k =
      if k = s then t.waiting.count s - 1 else t.waiting.count k := by
  rw [destroy]
  by_cases hs : s ∈ t.waiting
  · rw [if_pos hs, count_erase_eq]
  · rw [if_neg hs]
    by_cases hk : k = s
    · rw [if_pos hk, hk, List.count_eq_zero.2 hs]
    · rw [if_neg hk]

theorem destroy_aborted (t : Timers) (s k : UInt64) :
    (t.destroy s).aborted.count k =
      t.aborted.count k + if k = s then min (t.waiting.count s) 1 else 0 := by
  rw [destroy]
  by_cases hs : s ∈ t.waiting
  · have hpos : 0 < t.waiting.count s := List.count_pos_iff.2 hs
    rw [if_pos hs, List.count_append, List.count_singleton]
    by_cases hk : k = s
    · rw [if_pos hk, if_pos (by simp [hk])]
      omega
    · rw [if_neg hk, if_neg (by simpa using Ne.symm hk)]
  · rw [if_neg hs, List.count_eq_zero.2 hs]
    simp

end Timers

/-- The Data packets in a log that were put for one session. -/
def putsFor (s : UInt64) (puts : List (UInt64 × Data)) : List Data :=
  puts.filterMap fun put => if put.1 = s then some put.2 else none

@[simp] theorem putsFor_append (s : UInt64) (puts puts' : List (UInt64 × Data)) :
    putsFor s (puts ++ puts') = putsFor s puts ++ putsFor s puts' := List.filterMap_append

theorem putsFor_singleton (s k : UInt64) (data : Data) :
    putsFor s [(k, data)] = if k = s then [data] else [] := by
  by_cases hk : k = s <;> simp [putsFor, hk]

namespace Producer

/-- What the edge holds for a session id. -/
def view (p : Producer) (s : UInt64) : View where
  session := p.sessions.get s
  waiting := p.timers.waiting.count s
  aborted := p.timers.aborted.count s
  puts := putsFor s p.face.puts

section

variable (p : Producer) (s k : UInt64)

theorem view_openSession (packet : Data) :
    (p.openSession s packet).view k = if k = s then (p.view s).opened s packet else p.view k := by
  unfold openSession view View.opened
  cases hs : p.sessions.get s with
  | none =>
    simp only [Option.isNone_none, if_true, SessionManager.add_get, Timers.arm_waiting, hs]
    by_cases hk : k = s
    · subst hk
      simp only [if_true]
      rfl
    · simp only [if_neg hk]
      rfl
  | some session =>
    simp only [Option.isNone_some, Bool.false_eq_true, if_false, SessionManager.add_get,
      Timers.destroy_waiting, Timers.destroy_aborted, Timers.arm_waiting, hs]
    by_cases hk : k = s
    · subst hk
      simp only [hs, Option.getD_some, Nat.add_sub_cancel, if_true]
      rw [Nat.min_eq_right (by omega)]
      rfl
    · simp only [if_neg hk, Nat.add_zero]
      rfl

theorem view_collect (payload : Str) :
    (p.collect payload s).view k = if k = s then (p.view s).received payload else p.view k := by
  unfold collect view View.received
  simp only [SessionManager.appendPayload_get]
  by_cases hk : k = s
  · subst hk
    simp only [if_true]
  · simp only [if_neg hk]

theorem view_finish :
    (p.finish s).view k = if k = s then (p.view s).answered else p.view k := by
  unfold finish View.answered
  cases hs : p.sessions.get s with
  | none =>
    have hview : (p.view s).session = none := hs
    simp only [hview]
    by_cases hk : k = s
    · rw [if_pos hk, hk]
    · rw [if_neg hk]
  | some session =>
    simp only [answer, view, hs, SessionManager.erase_get, Timers.destroy_waiting,
      Timers.destroy_aborted, putsFor_append, putsFor_singleton]
    by_cases hk : k = s
    · subst hk
      simp only [if_true]
    · simp only [if_neg hk, if_neg (Ne.symm hk), Nat.add_zero, List.append_nil]

theorem view_fire :
    { p with timers := p.timers.fire s }.view k = if k = s then (p.view s).fired else p.view k := by
  unfold view View.fired Timers.fire
  simp only [Timers.count_erase_eq]
  by_cases hk : k = s
  · subst hk
    simp only [if_true]
  · simp only [if_neg hk]

theorem view_call :
    { p with timers := p.timers.call s }.view k =
      if k = s then (p.view s).called else p.view k := by
  unfold view View.called Timers.call
  simp only [Timers.count_erase_eq]
  by_cases hk : k = s
  · subst hk
    simp only [if_true]
  · simp only [if_neg hk]

theorem view_clearCounters : p.clearCounters.view k = p.view k := rfl

end

/-- Asking the locations changes the Interests expressed, and nothing else. -/
theorem exists_of_foldl_express (lib : Externals) (s : UInt64) (names : List Str)
    (p : Producer) : ∃ expressed, names.foldl (express lib s) p =
      { p with face := { p.face with expressed := expressed } } := by
  induction names generalizing p with
  | nil => exact ⟨_, rfl⟩
  | cons name names ih =>
    obtain ⟨expressed, h⟩ := ih (p.express lib s name)
    exact ⟨expressed, h⟩

/-- **Asking for pictures changes the location asked last and the fetches begun**, and
nothing else. -/
theorem exists_of_foldlM_fetch {lib : Externals} {s : UInt64} {names : List Str}
    {p p' : Producer} (h : names.foldlM (fetch lib s) p = .ok p') : ∃ location_name fetches,
      p' = { p with
        locationName := location_name
        face := { p.face with fetches := fetches } } := by
  induction names generalizing p with
  | nil =>
    rw [← Except.ok.inj h]
    exact ⟨_, _, rfl⟩
  | cons name names ih =>
    obtain ⟨q, hq, h⟩ := bind_eq_ok.1 h
    obtain ⟨m_location_name, -, hq⟩ := bind_eq_ok.1 hq
    obtain ⟨location, -, hq⟩ := bind_eq_ok.1 hq
    obtain ⟨target, -, hq⟩ := bind_eq_ok.1 hq
    obtain ⟨location_name, fetches, rfl⟩ := ih h
    rw [← Except.ok.inj hq]
    exact ⟨_, _, rfl⟩

/-- What a request that is accepted leaves. -/
theorem acceptInterest_eq_ok {lib : Externals} {p : Producer} {interest : Interest} {version : ℕ}
    {s : UInt64} {q : Producer} {names : List Str}
    (h : p.acceptInterest lib interest version s = .ok (q, names)) :
    convertInterestName (decodeURI (lib.toUri interest.name)) [] = .ok names ∧
      q = { p with numberOfArrivalInterest := 0, issuedInterest := names.length }.openSession s
        (packetFor interest version) := by
  obtain ⟨names', hnames, h⟩ := bind_eq_ok.1 h
  obtain ⟨hq, rfl⟩ := Prod.mk.inj (Except.ok.inj h)
  exact ⟨hnames, hq.symm⟩

/-- **Either way to ask opens the session and sets the counters**, and beside them touches
what the edge keeps of the request and what it has sent. -/
theorem exists_of_handleInterest {lib : Externals} {p p' : Producer} {interest : Interest}
    {version : ℕ} {s : UInt64} (h : p.handleInterest lib interest version s = some (.ok p')) :
    ∃ names q, convertInterestName (decodeURI (lib.toUri interest.name)) [] = .ok names ∧
      q = { p with numberOfArrivalInterest := 0, issuedInterest := names.length }.openSession s
        (packetFor interest version) ∧
      ∃ target_name location_name expressed fetches, p' = { q with
        targetName := target_name
        locationName := location_name
        face := { q.face with expressed := expressed, fetches := fetches } } := by
  unfold handleInterest at h
  split at h
  · have h := Option.some.inj h
    obtain ⟨targets, -, h⟩ := bind_eq_ok.1 h
    obtain ⟨⟨q, names⟩, hq, h⟩ := bind_eq_ok.1 h
    obtain ⟨hnames, rfl⟩ := acceptInterest_eq_ok hq
    obtain ⟨_, _, rfl⟩ := exists_of_foldlM_fetch h
    exact ⟨names, _, hnames, rfl, _, _, _, _, rfl⟩
  · split at h
    · have h := Option.some.inj h
      obtain ⟨⟨q, names⟩, hq, h⟩ := bind_eq_ok.1 h
      obtain ⟨hnames, rfl⟩ := acceptInterest_eq_ok hq
      obtain ⟨_, hexpress⟩ := exists_of_foldl_express lib s names _
      rw [← Except.ok.inj h, hexpress]
      exact ⟨names, _, hnames, rfl, _, _, _, _, rfl⟩
    · exact absurd h (by simp)

/-- **Either way to ask opens the session.** -/
theorem view_handleInterest {lib : Externals} {p p' : Producer} {interest : Interest}
    {version : ℕ} {s : UInt64}
    (h : p.handleInterest lib interest version s = some (.ok p')) (k : UInt64) :
    p'.view k = if k = s then (p.view s).opened s (packetFor interest version) else p.view k := by
  obtain ⟨names, q, -, hq, _, _, _, _, rfl⟩ := exists_of_handleInterest h
  change q.view k = _
  rw [hq, view_openSession]
  rfl

theorem toOption_eq_some {α : Type} {x : Except Fault α} {a : α} (h : x.toOption = some a) :
    x = .ok a := by
  cases x with
  | ok b => exact congrArg _ (Option.some.inj h)
  | error f => exact absurd h (by simp [Except.toOption])

/-! ## What an event does -/

/-- The ways an event changes the edge. -/
inductive Moves (lib : Externals) (p : Producer) : Event → Producer → Prop
  /-- A client Interest is accepted. -/
  | asked {interest : Interest} {version : ℕ} {s : UInt64} {p' : Producer}
    (accepted : p.handleInterest lib interest version s = some (.ok p')) :
    Moves lib p (.interest interest version s) p'
  /-- A reply without a session id is discarded. -/
  | dropped {e : Event} {text : Str} (payload : e.payload = some text)
    (unnamed : sessionIdOf lib text = .ok none) : Moves lib p e p
  /-- A reply is collected, and may be the last one counted on. -/
  | replied {e : Event} {s : UInt64} {text : Str} (named : e.named lib = some (s, text)) :
    Moves lib p e (if p.numberOfArrivalInterest + 1 = p.issuedInterest then
      ((p.collect text s).finish s).clearCounters else p.collect text s)
  /-- The timer of a session expires. -/
  | expired {s : UInt64} (armed : s ∈ p.timers.waiting) :
    Moves lib p (.expiry s) ({ p with timers := p.timers.fire s }.finish s)
  /-- The callback of a destroyed timer is called. -/
  | called {s : UInt64} (pending : s ∈ p.timers.aborted) :
    Moves lib p (.aborted s) ({ p with timers := p.timers.call s }.finish s)

section

variable {lib : Externals} {p p' : Producer} {e : Event} {s : UInt64} {text : Str}

theorem step_of_payload (he : e.payload = some text) (p : Producer) :
    p.step lib e = (p.handleReply lib text).toOption := by
  cases e with
  | data i d => rw [← Option.some.inj he]; rfl
  | result r => rw [← Option.some.inj he]; rfl
  | _ => exact absurd he nofun

/-- A reply that names a session is collected, whatever else the edge holds. -/
theorem step_of_named (he : e.named lib = some (s, text)) (p : Producer) :
    p.step lib e = some (if p.numberOfArrivalInterest + 1 = p.issuedInterest then
      ((p.collect text s).finish s).clearCounters else p.collect text s) := by
  obtain ⟨hpayload, hid⟩ := Event.of_named he
  rw [step_of_payload hpayload, handleReply_of_some hid, receive_eq]
  rfl

/-- A client Interest is handled by the mode of the edge. -/
theorem handleInterest_of_step {i : Interest} {version : ℕ}
    (h : p.step lib (.interest i version s) = some p') :
    p.handleInterest lib i version s = some (.ok p') := by
  obtain ⟨x, hx, hok⟩ := Option.bind_eq_some_iff.1 h
  rwa [toOption_eq_some hok] at hx

/-- **What an event does to the edge.** -/
theorem step_iff : p.step lib e = some p' ↔ Moves lib p e p' := by
  constructor
  · intro h
    have hreply : ∀ text, e.payload = some text → Moves lib p e p' := by
      intro text htext
      rw [step_of_payload htext] at h
      obtain ⟨id, hid, -⟩ := bind_eq_ok.1 (toOption_eq_some h)
      cases id with
      | none =>
        rw [handleReply_of_none hid] at h
        rw [← Option.some.inj h]
        exact .dropped htext hid
      | some s =>
        rw [handleReply_of_some hid, receive_eq] at h
        rw [← Option.some.inj h]
        exact .replied (Event.named_of_payload htext hid)
    cases e with
    | interest i version s => exact .asked (handleInterest_of_step h)
    | data i d => exact hreply _ rfl
    | result text => exact hreply _ rfl
    | expiry s =>
      rw [step_expiry, Option.ite_none_right_eq_some, Option.some.injEq] at h
      rw [← h.2]
      exact .expired h.1
    | aborted s =>
      rw [step_aborted, Option.ite_none_right_eq_some, Option.some.injEq] at h
      rw [← h.2]
      exact .called h.1
  · intro h
    cases h with
    | asked accepted =>
      rw [step, accepted]
      rfl
    | dropped payload unnamed =>
      rw [step_of_payload payload, handleReply_of_none unnamed]
      rfl
    | replied named => exact step_of_named named p
    | expired armed => rw [step_expiry, if_pos armed]
    | called pending => rw [step_aborted, if_pos pending]

/-- A reply is one step of the session it names. -/
theorem view_replied (named : e.named lib = some (s, text)) (k : UInt64) :
    SessionStep lib k e (p.view k)
      ((if p.numberOfArrivalInterest + 1 = p.issuedInterest then
        ((p.collect text s).finish s).clearCounters else p.collect text s).view k) := by
  by_cases hk : k = s
  · subst hk
    split
    · rw [view_clearCounters, view_finish, if_pos rfl, view_collect, if_pos rfl]
      exact SessionStep.completed named
    · rw [view_collect, if_pos rfl]
      exact SessionStep.received named
  · have hother : SessionStep lib k e (p.view k) (p.view k) := by
      apply SessionStep.other
      rw [Event.about_of_payload (Event.of_named named).1, named]
      exact fun hc => hk (Option.some.inj hc).symm
    split
    · rw [view_clearCounters, view_finish, if_neg hk, view_collect, if_neg hk]
      exact hother
    · rw [view_collect, if_neg hk]
      exact hother

/-- **The edge refines the model of one session**, for every session id. -/
theorem view_step (h : p.step lib e = some p') (k : UInt64) :
    SessionStep lib k e (p.view k) (p'.view k) := by
  cases step_iff.1 h with
  | @asked i version s _ accepted =>
    rw [view_handleInterest accepted k]
    by_cases hk : k = s
    · subst hk
      rw [if_pos rfl]
      exact SessionStep.opened i version
    · rw [if_neg hk]
      exact SessionStep.other fun hc => hk (Option.some.inj hc).symm
  | dropped payload unnamed =>
    apply SessionStep.other
    rw [Event.about_of_payload payload, Event.named_of_unnamed payload unnamed]
    exact nofun
  | replied named => exact view_replied named k
  | @expired s armed =>
    rw [view_finish, view_fire, view_fire]
    by_cases hk : k = s
    · subst hk
      rw [if_pos rfl, if_pos rfl]
      exact SessionStep.expired (List.count_pos_iff.2 armed)
    · rw [if_neg hk, if_neg hk]
      exact SessionStep.other fun hc => hk (Option.some.inj hc).symm
  | @called s pending =>
    rw [view_finish, view_call, view_call]
    by_cases hk : k = s
    · subst hk
      rw [if_pos rfl, if_pos rfl]
      exact SessionStep.called (List.count_pos_iff.2 pending)
    · rw [if_neg hk, if_neg hk]
      exact SessionStep.other fun hc => hk (Option.some.inj hc).symm

end

end Producer

end Crowdsensing
