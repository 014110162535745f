import Crowdsensing.Client.Blocking

/-!
# The replies of a session at the page

The edge writes the replies of a session one after another, each with a line feed behind
it; the page trims the content and splits it at line ends of three kinds.

* `SessionManager.appendAll_get` — the buffer of a session holds the payloads appended to
  it, in order, whatever was appended to others.
* `Client.replies_recovered` — **the page splits the content into exactly the replies the
  edge appended**, for replies with any text in their fields.
-/

namespace Crowdsensing

open Text

namespace SessionManager

/-- `append_payload` called for one session after another. -/
def appendAll (m : SessionManager) (appends : List (UInt64 × Str)) : SessionManager :=
  appends.foldl (fun m a => (m.appendPayload a.1 a.2).2) m

/-- What was appended to one session. -/
def appendedTo {α : Type} (key : UInt64) (appends : List (UInt64 × α)) : List α :=
  appends.filterMap fun a => if a.1 = key then some a.2 else none

theorem appendedTo_map {α β : Type} (f : α → β) (key : UInt64) (appends : List (UInt64 × α)) :
    appendedTo key (appends.map fun a => (a.1, f a.2)) = (appendedTo key appends).map f := by
  induction appends with
  | nil => rfl
  | cons a appends ih =>
    simp only [appendedTo, List.map_cons, List.filterMap_cons] at ih ⊢
    by_cases ha : a.1 = key <;> simp [ha, ih]

/-- **The buffer of a session holds the payloads appended to it**, in order. -/
theorem appendAll_get (appends : List (UInt64 × Str)) (m : SessionManager) (key : UInt64) :
    (m.appendAll appends).get key = (m.get key).map fun session =>
      { session with buffer := session.buffer ++ collected (appendedTo key appends) } := by
  induction appends generalizing m with
  | nil => cases h : m.get key <;> simp [appendAll, appendedTo, collected, h]
  | cons a appends ih =>
    have hstep : (m.appendAll (a :: appends)).get key = _ := ih (m.appendPayload a.1 a.2).2
    rw [hstep, appendPayload_get]
    by_cases ha : key = a.1
    · subst ha
      cases m.get a.1 <;> simp [appendedTo, collected]
    · simp [appendedTo, if_neg ha, if_neg (Ne.symm ha)]

end SessionManager

/-- A session is opened, and replies are appended to it and to others. -/
def Producer.collectReplies (lib : Externals) (p : Producer) (key : UInt64) (packet : Data)
    (appends : List (UInt64 × Reply)) : Producer :=
  { p with
    sessions := (p.sessions.add key packet).appendAll
      (appends.map fun a => (a.1, encode lib a.2)) }

namespace Client

/-- **The page splits the content into exactly the replies the edge appended.**  A session is
opened, replies are appended to it in any order, and in between to other sessions; the Data
packet that `send_data` puts for it is split into its replies, each byte for byte. -/
theorem replies_recovered {lib : Externals} {browser : Browser} (hjson : lib.JsonDocumented)
    (hbytes : ∀ s, browser.toString s = s.map fun b => UInt16.ofNat b.toNat) (p : Producer)
    (key : UInt64) (packet : Data) (hnew : p.sessions.get key = none)
    (appends : List (UInt64 × Reply)) (hne : SessionManager.appendedTo key appends ≠ [])
    (error : Bool) :
    ∃ p' data,
      (p.collectReplies lib key packet appends).sendData error key = .ok p' ∧
      p'.face.puts = p.face.puts ++ [(key, data)] ∧
      splitLines 13 10 (trim isBlank (browser.toString data.content)) =
        (SessionManager.appendedTo key appends).map fun r =>
          (encode lib r).map fun b => UInt16.ofNat b.toNat := by
  have hget : (p.collectReplies lib key packet appends).sessions.get key = some {
      sessionId := key
      dataPtr := packet
      buffer := contentOf lib (SessionManager.appendedTo key appends) } := by
    unfold Producer.collectReplies
    rw [SessionManager.appendAll_get, SessionManager.add_get, if_pos rfl, hnew,
      SessionManager.appendedTo_map]
    rfl
  refine ⟨_, packet.setContent (contentOf lib (SessionManager.appendedTo key appends)),
    Producer.sendData_eq _ _ _, ?_, ?_⟩
  · unfold Producer.finish
    simp only [hget]
    rfl
  · refine (lines_contentOf hjson hbytes hne).trans ?_
    exact List.map_congr_left fun r _ => hbytes _

/-- Two replies to session 7, and one to session 8 between them; the target of the first has
a line end in it. -/
theorem replies_recovered_two :
    let first := replyFor (txt "30321") (txt "traffic\nlight") (txt "7") []
    let other := replyFor (txt "30321") (txt "person") (txt "8") []
    let second := replyFor (txt "33212") (txt " \"person\" ") (txt "7") [txt "person"]
    ∃ p' data,
      ((Producer.start (ch 'e')).collectReplies reference 7 { name := [] }
        [(7, first), (8, other), (7, second)]).sendData false 7 = .ok p' ∧
      p'.face.puts = [(7, data)] ∧
      splitLines 13 10 (trim isBlank (referenceBrowser.toString data.content)) =
        [first, second].map fun r =>
          (encode reference r).map fun b => UInt16.ofNat b.toNat :=
  replies_recovered reference_json (fun _ => rfl) (Producer.start (ch 'e')) 7 { name := [] } rfl
    [(7, replyFor (txt "30321") (txt "traffic\nlight") (txt "7") []),
      (8, replyFor (txt "30321") (txt "person") (txt "8") []),
      (7, replyFor (txt "33212") (txt " \"person\" ") (txt "7") [txt "person"])]
    (by decide) false

end Client

end Crowdsensing
