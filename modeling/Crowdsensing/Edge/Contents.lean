import Crowdsensing.Edge.OneSession
import Crowdsensing.Reference

/-!
# Contents a reply may have

The content of a worker's Data is any byte string.  `onData` parses it as JSON and looks
for a session id: a content without one is discarded, and the text of one is converted to a
number outside any `try` block.  The last reply of a session makes the answer to the client, and
the face throws if that is too large, which nothing catches.

* `NamesSession`, `IsReply` — a content whose session id is a decimal number that fits into 64
  bits.
* `Producer.Withstands` — `onData` returns, and leaves the edge as it is where the content
  is no such reply.
* `Producer.receiveWith_ne` — a reply that is taken in never leaves the edge as it was.
* `Producer.Puts` — the face takes the answer that a reply completes.
* `Producer.withstands_iff` — **exactly the contents without a session id, and the replies whose
  answer is taken, do no harm**, whatever the state and the face.
-/

namespace Crowdsensing

open Text

/-- The session id that a content names, as a JSON value. -/
def sessionField (lib : Externals) (content : Str) : Json :=
  (lib.parse content).get (txt "session_id")

/-- The session id that a content names is a string that holds this number in decimal. -/
def NamesSession (lib : Externals) (content : Str) (session_id : UInt64) : Prop :=
  ∃ s, sessionField lib content = .string s ∧ IsDecimal64 s ∧
    UInt64.ofNat (decimalValue s) = session_id

/-- A JSON object whose session id is a string that holds a decimal 64-bit number. -/
def IsReply (lib : Externals) (content : Str) : Prop :=
  ∃ s, sessionField lib content = .string s ∧ IsDecimal64 s

namespace Producer

/-- `onData` returns, and a content that is no reply leaves the edge as it is; the face takes
these packets. -/
def Withstands (takes : Data → Bool) (lib : Externals) (p : Producer) (interest : Interest)
    (data : Data) : Prop :=
  ∃ p', p.onDataWith takes lib interest data = .ok p' ∧ (¬ IsReply lib data.content → p' = p)

/-- If this reply is the last one counted on, and its session is held, the face takes the answer
that it completes. -/
def Puts (takes : Data → Bool) (p : Producer) (payload : Str) (session_id : UInt64) : Prop :=
  p.numberOfArrivalInterest + 1 = p.issuedInterest →
    ∀ session, p.sessions.get session_id = some session →
      takes (session.dataPtr.setContent (session.buffer ++ payload ++ [ch '\n'])) = true

section

variable {takes : Data → Bool} {lib : Externals} {content : Str}

/-! ## The ways through the validation -/

theorem sessionIdOf_eq (lib : Externals) (content : Str) :
    sessionIdOf lib content = if (sessionField lib content).isNull then .ok none
      else match lib.lexicalCast (sessionField lib content).stringValue with
        | some session_id => .ok (some session_id)
        | none => .error .badLexicalCast := rfl

/-- A session id that is not null is converted, or the exception leaves `onData`. -/
theorem handleReplyWith_of_not_null (h : (sessionField lib content).isNull = false)
    (p : Producer) : p.handleReplyWith takes lib content =
      match lib.lexicalCast (sessionField lib content).stringValue with
      | some session_id => p.receiveWith takes content session_id
      | none => .error .badLexicalCast := by
  rw [handleReplyWith, sessionIdOf_eq, h]
  cases lib.lexicalCast (sessionField lib content).stringValue <;> rfl

/-- **A reply is taken in exactly if its answer is taken**, where it makes one. -/
theorem receiveWith_isOk (p : Producer) (payload : Str) (s : UInt64) :
    (∃ p', p.receiveWith takes payload s = .ok p') ↔ Puts takes p payload s := by
  have hpending : (p.collect payload s).pending s = (p.sessions.get s).map fun session =>
      session.dataPtr.setContent (session.buffer ++ payload ++ [ch '\n']) := by
    rw [pending, collect, SessionManager.appendPayload_get, if_pos rfl, Option.map_map]
    rfl
  rw [receiveWith_eq, hpending, Puts]
  by_cases hlast : p.numberOfArrivalInterest + 1 = p.issuedInterest
  · rw [if_pos hlast, forall_prop_of_true hlast]
    constructor
    · rintro ⟨p', hok⟩ session hsession
      rw [hsession] at hok
      split at hok
      · rename_i htakes
        exact htakes _ rfl
      · exact absurd hok (by simp)
    · intro htakes
      refine ⟨_, if_pos fun packet hpacket => ?_⟩
      obtain ⟨session, hsession, rfl⟩ := Option.map_eq_some_iff.1 hpacket
      exact htakes session hsession
  · rw [if_neg hlast]
    exact iff_of_true ⟨_, rfl⟩ fun h => absurd h hlast

/-- **A reply that is taken in is counted**, so it does not leave the edge as it was. -/
theorem receiveWith_ne {p p' : Producer} {payload : Str} {s : UInt64}
    (h : p.receiveWith takes payload s = .ok p') : p' ≠ p := by
  rw [receiveWith_eq] at h
  rintro rfl
  by_cases hlast : p'.numberOfArrivalInterest + 1 = p'.issuedInterest
  · rw [if_pos hlast] at h
    split at h
    · have hissued : 0 = p'.issuedInterest := congrArg issuedInterest (Except.ok.inj h)
      omega
    · exact absurd h nofun
  · rw [if_neg hlast, Except.ok.injEq] at h
    have harrival : p'.numberOfArrivalInterest + 1 = p'.numberOfArrivalInterest :=
      congrArg numberOfArrivalInterest h
    omega

/-- What `onData` does with a reply. -/
theorem handleReplyWith_of_namesSession (hcast : lib.CastDocumented) {s : UInt64}
    (h : NamesSession lib content s) (p : Producer) :
    p.handleReplyWith takes lib content = p.receiveWith takes content s := by
  obtain ⟨t, ht, hnumber, rfl⟩ := h
  rw [handleReplyWith_of_not_null (by rw [ht]; rfl)]
  simp only [ht, Json.stringValue, hcast t hnumber]

/-- **No content does harm that names no session, or is a reply whose answer is taken, and every
other one does**, in every state of the edge. -/
theorem withstands_iff (hcast : lib.CastDocumented) (takes : Data → Bool) (p : Producer)
    (interest : Interest) (data : Data) : Withstands takes lib p interest data ↔
      (sessionField lib data.content).isNull = true ∨
        ∃ s, NamesSession lib data.content s ∧ Puts takes p data.content s := by
  constructor
  · rintro ⟨p', hok, hsame⟩
    change p.handleReplyWith takes lib data.content = .ok p' at hok
    cases hnull : (sessionField lib data.content).isNull with
    | true => exact Or.inl rfl
    | false =>
      refine Or.inr ?_
      by_cases hreply : IsReply lib data.content
      · obtain ⟨t, ht, hnumber⟩ := hreply
        have hnames : NamesSession lib data.content (UInt64.ofNat (decimalValue t)) :=
          ⟨t, ht, hnumber, rfl⟩
        rw [handleReplyWith_of_namesSession hcast hnames] at hok
        exact ⟨_, hnames, (receiveWith_isOk _ _ _).1 ⟨p', hok⟩⟩
      · -- what the cast accepts is counted, and what it does not accept leaves the handler
        obtain rfl := hsame hreply
        rw [handleReplyWith_of_not_null hnull] at hok
        split at hok
        · exact absurd rfl (receiveWith_ne hok)
        · exact absurd hok nofun
  · rintro (hnull | ⟨s, hnames, hputs⟩)
    · refine ⟨p, handleReplyWith_of_none ?_ takes p, fun _ => rfl⟩
      rw [sessionIdOf_eq, if_pos hnull]
    · obtain ⟨p', hok⟩ := (receiveWith_isOk p data.content s).2 hputs
      rw [← handleReplyWith_of_namesSession hcast hnames] at hok
      obtain ⟨t, ht, hnumber, -⟩ := hnames
      exact ⟨p', hok, fun hnot => absurd ⟨t, ht, hnumber⟩ hnot⟩

end

/-- A face that refuses every content that no packet has room for. -/
def roomyFace (packet : Data) : Bool := decide (packet.content.length ≤ 8800)

/-- A Data packet whose content is an object with one field, the session id. -/
def packetNaming (session_id : Json) : Data where
  name := []
  content := reference.dump (.object [(txt "session_id", session_id)])

/-- The session id of such a content is read back. -/
theorem sessionField_packetNaming {session_id : Json} (h : session_id.IsPlain) :
    sessionField reference (packetNaming session_id).content = session_id := by
  refine (reference_json.parse_dump [(txt "session_id", session_id)] ?_ ?_ _).trans ?_
  · simpa using h
  · simp
  · simp [Json.get]

/-- An edge that waits for the last reply to session 7, with this collected. -/
def waitingForSeven (buffer : Str) : Producer where
  edgeMode := ch 'e'
  issuedInterest := 1
  sessions := (({} : SessionManager).add 7 { name := [] }).appendPayload 7 buffer |>.2

theorem get_waitingForSeven (buffer : Str) : (waitingForSeven buffer).sessions.get 7 = some {
    sessionId := 7
    dataPtr := { name := [] }
    buffer := buffer ++ [ch '\n'] } := rfl

theorem namesSession_seven : NamesSession reference (packetNaming (.string (txt "7"))).content 7 :=
  ⟨txt "7", sessionField_packetNaming trivial, isDecimal64_decimal 7, rfl⟩

/-- An empty content is discarded, and the reply to session 7 is taken in and answers it. -/
theorem withstands_iff_seven :
    Withstands roomyFace reference (waitingForSeven []) { name := [] } { name := [] } ∧
      Withstands roomyFace reference (waitingForSeven []) { name := [] }
        (packetNaming (.string (txt "7"))) := by
  constructor
  · exact (withstands_iff reference_cast roomyFace _ _ _).2 (Or.inl (by decide))
  · refine (withstands_iff reference_cast roomyFace _ _ _).2
      (Or.inr ⟨7, namesSession_seven, fun _ session hsession => ?_⟩)
    rw [get_waitingForSeven, Option.some.injEq] at hsession
    rw [← hsession]
    decide +kernel

/-- A session id that the cast does not take makes `onData` throw. -/
theorem not_withstands_of_cast (session_id : Json) (hplain : session_id.IsPlain)
    (hnull : session_id.isNull = false)
    (hcast : Reference.lexicalCast session_id.stringValue = none) (p : Producer) :
    p.onDataWith roomyFace reference { name := [] } (packetNaming session_id) =
        .error .badLexicalCast ∧
      ¬ Withstands roomyFace reference p { name := [] } (packetNaming session_id) := by
  have hfield := sessionField_packetNaming hplain
  have hthrows : p.onDataWith roomyFace reference { name := [] } (packetNaming session_id) =
      .error .badLexicalCast := by
    show p.handleReplyWith roomyFace reference (packetNaming session_id).content = _
    rw [handleReplyWith_of_not_null (by rw [hfield]; exact hnull), hfield]
    show (match Reference.lexicalCast session_id.stringValue with
      | some session_id => _
      | none => _) = _
    rw [hcast]
  refine ⟨hthrows, ?_⟩
  rintro ⟨p', hok, -⟩
  exact absurd (hthrows.symm.trans hok) nofun

/-- A reply whose answer is too large makes `onData` throw. -/
theorem not_withstands_of_length {buffer : Str} (h : 8800 ≤ buffer.length) :
    ¬ Withstands roomyFace reference (waitingForSeven buffer) { name := [] }
      (packetNaming (.string (txt "7"))) := by
  rintro ⟨p', hok, -⟩
  change (waitingForSeven buffer).handleReplyWith roomyFace reference _ = _ at hok
  rw [handleReplyWith_of_namesSession reference_cast namesSession_seven] at hok
  have htaken := (receiveWith_isOk _ _ _).1 ⟨p', hok⟩ rfl _ (get_waitingForSeven buffer)
  have hle := of_decide_eq_true htaken
  simp only [Data.setContent, List.length_append, List.length_singleton] at hle
  omega

/-- **A session id that is not a string, is no number, or does not fit into 64 bits makes
`onData` throw**, and so does a reply that completes an answer too large for a packet. -/
theorem not_withstands :
    ¬ Withstands roomyFace reference (waitingForSeven []) { name := [] }
        (packetNaming (.bool true)) ∧
      ¬ Withstands roomyFace reference (waitingForSeven []) { name := [] }
        (packetNaming (.string (txt "seven"))) ∧
      ¬ Withstands roomyFace reference (waitingForSeven []) { name := [] }
        (packetNaming (.string (txt "18446744073709551616"))) ∧
      ¬ Withstands roomyFace reference (waitingForSeven (List.replicate 9000 (ch 'x')))
        { name := [] } (packetNaming (.string (txt "7"))) :=
  ⟨(not_withstands_of_cast (.bool true) trivial rfl (by decide) _).2,
    (not_withstands_of_cast (.string (txt "seven")) trivial rfl (by decide) _).2,
    (not_withstands_of_cast (.string (txt "18446744073709551616")) trivial rfl (by decide) _).2,
    not_withstands_of_length (by rw [List.length_replicate]; decide)⟩

end Producer

end Crowdsensing
