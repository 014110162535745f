import Crowdsensing.Edge.SessionManager
import Crowdsensing.Encoder
import Crowdsensing.Naming.Parsers

/-!
# The edge

`edge/src/producer.cpp` and `edge/src/execute.cpp`: a client Interest opens a
session, arms its timer and asks every location; a reply is appended to the
session it names and may complete it; a timer completes it as it is.

* `Producer.onInterest`, `Producer.onInterestCloud` — the two ways to ask.
* `Producer.onData`, `Producer.adddata` — the two ways a reply comes in, one
  handler.
* `Producer.sendData` — answers the client and forgets the session, with
  `sendData_eq`.
* `Producer.sendDataWith`, `Producer.onDataWith` — the same with a face that does not take
  every packet, with `sendDataWith_eq`.
* `Event`, `Producer.step` — whole handler calls as the steps of a machine.

`Face::put` throws for a packet that is too large for the network.  `sendData`, and all that is
built on it, has a face that takes every packet; what the handlers do with one that does not is
said by the functions whose names end in `With`.

The two counters are of type `uint64_t` in the source.  A sub-Interest is counted
once and a reply once, so they stay far below 2⁶⁴ and are natural numbers here.
-/

namespace Crowdsensing

open Text

/-! ## What the edge holds -/

/-- The waits the timer service knows, each with the session id bound to its
callback.  A timer that is destroyed while it waits has its callback called with
`operation_aborted`. -/
structure Timers where
  /-- Waits that have not ended. -/
  waiting : List UInt64 := []
  /-- Callbacks of destroyed timers, still to be called. -/
  aborted : List UInt64 := []
  deriving DecidableEq, Repr

namespace Timers

/-- `async_wait` on a new timer. -/
def arm (t : Timers) (s : UInt64) : Timers := { t with waiting := t.waiting ++ [s] }

/-- A wait ends because its time is over. -/
def fire (t : Timers) (s : UInt64) : Timers := { t with waiting := t.waiting.erase s }

/-- The callback of a destroyed timer is called. -/
def call (t : Timers) (s : UInt64) : Timers := { t with aborted := t.aborted.erase s }

/-- The destructor of a timer. -/
def destroy (t : Timers) (s : UInt64) : Timers :=
  if s ∈ t.waiting then { waiting := t.waiting.erase s, aborted := t.aborted ++ [s] } else t

end Timers

/-- `Executor`: what the edge remembers of a fetch in cloud mode. -/
structure Executor where
  fetcherName : Str
  locationName : Str
  targetName : Str
  sessionId : Str
  deriving DecidableEq, Repr

/-- What went out through `m_ndn_face`.  A Data packet stands with the session
`send_data` was called for. -/
structure Face where
  puts : List (UInt64 × Data) := []
  expressed : List Interest := []
  fetches : List (Interest × Executor) := []
  deriving DecidableEq, Repr

/-- `Producer`. -/
structure Producer where
  edgeMode : UInt8
  targetName : List Str := []
  locationName : List Str := []
  numberOfArrivalInterest : ℕ := 0
  issuedInterest : ℕ := 0
  sessions : SessionManager := {}
  timers : Timers := {}
  face : Face := {}

namespace Producer

/-! ## Client Interests -/

/-- The session of a new request and its timer.  A session id that is in use keeps
its session, and the new timer is destroyed with the handler. -/
def openSession (p : Producer) (session_id : UInt64) (data_packet : Data) : Producer :=
  let armed := p.timers.arm session_id
  { p with
    sessions := p.sessions.add session_id data_packet
    timers := if (p.sessions.get session_id).isNone then armed else armed.destroy session_id }

/-- What both `onInterest` functions do before they ask the locations: clear the
counters, rewrite the name, count the sub-Interests and open the session. -/
def acceptInterest (lib : Externals) (p : Producer) (interest : Interest) (version : ℕ)
    (session_id : UInt64) : Except Fault (Producer × List Str) := do
  let p := { p with numberOfArrivalInterest := 0, issuedInterest := 0 }
  let data_name := interest.name ++ [.generic (txt "IoT"), .version version]
  let interest_name := decodeURI (lib.toUri interest.name)
  let reinvoked_name ← convertInterestName interest_name []
  let p := { p with issuedInterest := reinvoked_name.length }
  let data_packet := Data.sign { name := data_name }
  return (p.openSession session_id data_packet, reinvoked_name)

/-- The sub-Interest for a rewritten name. -/
def reInterest (lib : Externals) (reinvoked_name : Str) (session_id : UInt64) : Interest where
  name := lib.ofUri (subInterestName reinvoked_name session_id)
  canBePrefix := true
  mustBeFresh := true

/-- `expressInterest`, with the mode of the edge as the parameter. -/
def express (lib : Externals) (session_id : UInt64) (p : Producer) (reinvoked_name : Str) :
    Producer :=
  let re_interest := { reInterest lib reinvoked_name session_id with
    applicationParameters := some [p.edgeMode] }
  { p with face := { p.face with expressed := p.face.expressed ++ [re_interest] } }

/-- `Producer::onInterest`, for edge mode. -/
def onInterest (lib : Externals) (p : Producer) (interest : Interest) (version : ℕ)
    (session_id : UInt64) : Except Fault Producer := do
  let (p, reinvoked_name) ← p.acceptInterest lib interest version session_id
  return reinvoked_name.foldl (express lib session_id) p

/-- `SegmentFetcher::start`, with the executor that waits for the frame. -/
def fetch (lib : Externals) (session_id : UInt64) (p : Producer) (reinvoked_name : Str) :
    Except Fault Producer := do
  let re_interest := reInterest lib reinvoked_name session_id
  let m_location_name ← extractLocname (subInterestName reinvoked_name session_id)
  let location ← front m_location_name
  let target ← front p.targetName
  let executor : Executor := {
    fetcherName := lib.toUri re_interest.name
    locationName := location
    targetName := target
    sessionId := decimal session_id.toNat }
  return { p with
    locationName := m_location_name
    face := { p.face with fetches := p.face.fetches ++ [(re_interest, executor)] } }

/-- `Producer::onInterest_Cloud`, for cloud mode. -/
def onInterestCloud (lib : Externals) (p : Producer) (interest : Interest) (version : ℕ)
    (session_id : UInt64) : Except Fault Producer := do
  let m_target_name ← extractTargets (decodeURI (lib.toUri interest.name))
  let p := { p with targetName := m_target_name }
  let (p, reinvoked_name) ← p.acceptInterest lib interest version session_id
  reinvoked_name.foldlM (fetch lib session_id) p

/-- The handler `Producer::run` installs for client Interests: none for any other
mode. -/
def handleInterest (lib : Externals) (p : Producer) (interest : Interest) (version : ℕ)
    (session_id : UInt64) : Option (Except Fault Producer) :=
  if p.edgeMode = ch 'c' then some (p.onInterestCloud lib interest version session_id)
  else if p.edgeMode = ch 'e' then some (p.onInterest lib interest version session_id)
  else none

/-! ## Replies -/

/-- The client's Data packet goes out with the buffer of its session, and the
session goes with its timer. -/
def answer (p : Producer) (session_id : UInt64) (session : Session) : Producer :=
  { p with
    face := { p.face with
      puts := p.face.puts ++ [(session_id, session.dataPtr.setContent session.buffer)] }
    sessions := p.sessions.erase session_id
    timers := p.timers.destroy session_id }

/-- `Producer::send_data`, with a face that takes these packets.  `error` is not looked at; a
session that is not there makes `buffer` throw `std::out_of_range`, which is caught, and what
`put` throws is not. -/
def sendDataWith (takes : Data → Bool) (p : Producer) (_error : Bool) (session_id : UInt64) :
    Except Fault Producer :=
  match p.sessions.buffer session_id with
  | none => .ok p
  | some buffer =>
    match p.sessions.dataPacket session_id with
    | none => .error .nullPointer
    | some data_packet =>
      let data_packet := data_packet.setContent buffer
      if takes data_packet then
        .ok { p with
          face := { p.face with puts := p.face.puts ++ [(session_id, data_packet)] }
          sessions := p.sessions.erase session_id
          timers := p.timers.destroy session_id }
      else .error .oversizedPacket

/-- `Producer::send_data`, with a face that takes every packet. -/
def sendData (p : Producer) (error : Bool) (session_id : UInt64) : Except Fault Producer :=
  p.sendDataWith (fun _ => true) error session_id

/-- The session id a reply names: `none` for a reply without one, which is
discarded. -/
def sessionIdOf (lib : Externals) (payload : Str) : Except Fault (Option UInt64) :=
  let obj := (lib.parse payload).get (txt "session_id")
  if obj.isNull then .ok none
  else
    match lib.lexicalCast obj.stringValue with
    | some session_id => .ok (some session_id)
    | none => .error .badLexicalCast

/-- What `onData` and `adddata` do with a payload once its session id is known. -/
def receiveWith (takes : Data → Bool) (p : Producer) (payload : Str) (session_id : UInt64) :
    Except Fault Producer := do
  let (_status, sessions) := p.sessions.appendPayload session_id payload
  let p := { p with
    sessions := sessions
    numberOfArrivalInterest := p.numberOfArrivalInterest + 1 }
  if p.numberOfArrivalInterest = p.issuedInterest then
    let p ← p.sendDataWith takes false session_id
    return { p with numberOfArrivalInterest := 0, issuedInterest := 0 }
  else
    return p

/-- The common text of `onData` and `adddata`. -/
def handleReplyWith (takes : Data → Bool) (lib : Externals) (p : Producer) (payload : Str) :
    Except Fault Producer := do
  match ← sessionIdOf lib payload with
  | none => return p
  | some session_id => p.receiveWith takes payload session_id

/-- `Producer::onData`, with a face that takes these packets. -/
def onDataWith (takes : Data → Bool) (lib : Externals) (p : Producer) (_interest : Interest)
    (data : Data) : Except Fault Producer :=
  p.handleReplyWith takes lib data.content

/-- A payload whose session id is known, with a face that takes every packet. -/
def receive (p : Producer) (payload : Str) (session_id : UInt64) : Except Fault Producer :=
  p.receiveWith (fun _ => true) payload session_id

/-- A payload, with a face that takes every packet. -/
def handleReply (lib : Externals) (p : Producer) (payload : Str) : Except Fault Producer :=
  p.handleReplyWith (fun _ => true) lib payload

/-- `Producer::onData`, with a face that takes every packet. -/
def onData (lib : Externals) (p : Producer) (_interest : Interest) (data : Data) :
    Except Fault Producer :=
  p.handleReply lib data.content

/-- `Producer::adddata`, with a face that takes every packet. -/
def adddata (lib : Externals) (p : Producer) (result : Str) : Except Fault Producer :=
  p.handleReply lib result

end Producer

/-- The reply an executor builds from the labels found on its frame. -/
def Executor.reply (e : Executor) (detection_result : List Str) : Reply :=
  replyFor e.locationName e.targetName e.sessionId detection_result

/-- A vector of bytes as a matrix of one column. -/
def Mat.ofBytes (bytes : Str) : Mat where
  rows := bytes.length
  cols := 1
  channels := 1
  data := bytes
  data_length := by rw [Nat.mul_one, Nat.mul_one]

/-- `Executor::afterFetchComplete`, up to the text it passes to `adddata`. -/
def Executor.afterFetchComplete (lib : Externals) (detect : Mat → List Str) (e : Executor)
    (data : Str) : Except Fault Str :=
  match lib.reshape (Mat.ofBytes data) 3 480 with
  | none => .error .cvException
  | some raw => .ok (encode lib (e.reply (detect raw)))

/-! ## Whole handler calls as steps -/

/-- What can happen to the edge. -/
inductive Event
  /-- A client Interest, with the version and the session id drawn for it. -/
  | interest (interest : Interest) (version : ℕ) (sessionId : UInt64)
  /-- A Data packet for a sub-Interest. -/
  | data (interest : Interest) (data : Data)
  /-- A result in cloud mode. -/
  | result (text : Str)
  /-- A timer expires. -/
  | expiry (sessionId : UInt64)
  /-- The callback of a destroyed timer is called. -/
  | aborted (sessionId : UInt64)
  deriving DecidableEq, Repr

/-- The payload an event brings. -/
def Event.payload : Event → Option Str
  | .data _ packet => some packet.content
  | .result text => some text
  | _ => none

/-- One event: `none` if it cannot happen or the handler does not return. -/
def Producer.step (lib : Externals) (p : Producer) : Event → Option Producer
  | .interest interest version session_id =>
    (p.handleInterest lib interest version session_id).bind Except.toOption
  | .data interest data => (p.onData lib interest data).toOption
  | .result text => (p.adddata lib text).toOption
  | .expiry session_id =>
    if session_id ∈ p.timers.waiting then
      ({ p with timers := p.timers.fire session_id }.sendData false session_id).toOption
    else none
  | .aborted session_id =>
    if session_id ∈ p.timers.aborted then
      ({ p with timers := p.timers.call session_id }.sendData true session_id).toOption
    else none

/-! ## What the handlers come to -/

namespace Producer

/-- What `send_data` leaves. -/
def finish (p : Producer) (session_id : UInt64) : Producer :=
  match p.sessions.get session_id with
  | none => p
  | some session => p.answer session_id session

/-- A payload in its session's buffer, and counted. -/
def collect (p : Producer) (payload : Str) (session_id : UInt64) : Producer :=
  { p with
    sessions := (p.sessions.appendPayload session_id payload).2
    numberOfArrivalInterest := p.numberOfArrivalInterest + 1 }

/-- Both counters at zero. -/
def clearCounters (p : Producer) : Producer :=
  { p with numberOfArrivalInterest := 0, issuedInterest := 0 }

/-- The packet that `send_data` would put. -/
def pending (p : Producer) (session_id : UInt64) : Option Data :=
  (p.sessions.get session_id).map fun session => session.dataPtr.setContent session.buffer

/-- **`send_data` returns if the packet is taken**, or there is none. -/
theorem sendDataWith_eq (takes : Data → Bool) (p : Producer) (error : Bool) (s : UInt64) :
    p.sendDataWith takes error s = if ∀ packet ∈ p.pending s, takes packet = true then
      .ok (p.finish s) else .error .oversizedPacket := by
  rw [sendDataWith, SessionManager.buffer_eq, SessionManager.dataPacket_eq, finish, pending]
  cases p.sessions.get s with
  | none => exact (if_pos (by simp)).symm
  | some session => exact if_congr (by simp) rfl rfl

/-- **With a face that takes every packet `send_data` always returns.** -/
theorem sendData_eq (p : Producer) (error : Bool) (s : UInt64) :
    p.sendData error s = .ok (p.finish s) := by
  rw [sendData, sendDataWith_eq, if_pos fun _ _ => rfl]

/-- The Data packet of a session that is answered. -/
theorem puts_finish (p : Producer) (s : UInt64) :
    (p.finish s).face.puts = p.face.puts ++ ((p.sessions.get s).map fun session =>
      (s, session.dataPtr.setContent session.buffer)).toList := by
  unfold finish
  cases p.sessions.get s with
  | none => exact (List.append_nil _).symm
  | some session => rfl

/-- **A reply that names a session is collected, and answers that session if it is
the last one counted on.** -/
theorem receiveWith_eq (takes : Data → Bool) (p : Producer) (payload : Str) (s : UInt64) :
    p.receiveWith takes payload s = if p.numberOfArrivalInterest + 1 = p.issuedInterest then
      (if ∀ packet ∈ (p.collect payload s).pending s, takes packet = true then
        .ok ((p.collect payload s).finish s).clearCounters else .error .oversizedPacket)
      else .ok (p.collect payload s) := by
  have hcollect : p.receiveWith takes payload s =
      if p.numberOfArrivalInterest + 1 = p.issuedInterest then
        (p.collect payload s).sendDataWith takes false s >>= fun q => .ok q.clearCounters
      else .ok (p.collect payload s) := rfl
  rw [hcollect, sendDataWith_eq]
  refine if_congr Iff.rfl ?_ rfl
  split <;> rfl

theorem receive_eq (p : Producer) (payload : Str) (s : UInt64) :
    p.receive payload s = .ok (if p.numberOfArrivalInterest + 1 = p.issuedInterest then
      ((p.collect payload s).finish s).clearCounters else p.collect payload s) := by
  rw [receive, receiveWith_eq, if_pos fun _ _ => rfl]
  split <;> rfl

/-- An exception of the validation leaves the handler. -/
theorem handleReply_of_error {lib : Externals} {payload : Str} {f : Fault}
    (h : sessionIdOf lib payload = .error f) (p : Producer) :
    p.handleReply lib payload = .error f := by
  rw [handleReply, handleReplyWith, h]
  rfl

/-- A reply without a session id is discarded. -/
theorem handleReplyWith_of_none {lib : Externals} {payload : Str}
    (h : sessionIdOf lib payload = .ok none) (takes : Data → Bool) (p : Producer) :
    p.handleReplyWith takes lib payload = .ok p := by
  rw [handleReplyWith, h]
  rfl

theorem handleReply_of_none {lib : Externals} {payload : Str}
    (h : sessionIdOf lib payload = .ok none) (p : Producer) : p.handleReply lib payload = .ok p :=
  handleReplyWith_of_none h _ p

theorem handleReplyWith_of_some {lib : Externals} {payload : Str} {s : UInt64}
    (h : sessionIdOf lib payload = .ok (some s)) (takes : Data → Bool) (p : Producer) :
    p.handleReplyWith takes lib payload = p.receiveWith takes payload s := by
  rw [handleReplyWith, h]
  rfl

theorem handleReply_of_some {lib : Externals} {payload : Str} {s : UInt64}
    (h : sessionIdOf lib payload = .ok (some s)) (p : Producer) :
    p.handleReply lib payload = p.receive payload s := handleReplyWith_of_some h _ p

/-- **A reply names the session whose id it was built with.** -/
theorem sessionIdOf_encode {lib : Externals} (hjson : lib.JsonDocumented)
    (hcast : lib.CastDocumented) {r : Reply} {d : UInt64} (hr : r.sessionId = decimal d.toNat) :
    sessionIdOf lib (encode lib r) = .ok (some d) := by
  have hget : (lib.parse (encode lib r)).get (txt "session_id") = .string (decimal d.toNat) := by
    rw [get_encode hjson, ← hr]
    rfl
  rw [sessionIdOf, hget]
  simp [Json.isNull, Json.stringValue, hcast.lexicalCast_decimal]

theorem step_expiry (lib : Externals) (p : Producer) (s : UInt64) :
    p.step lib (.expiry s) = if s ∈ p.timers.waiting then
      some ({ p with timers := p.timers.fire s }.finish s) else none := by
  rw [step, sendData_eq]
  rfl

theorem step_aborted (lib : Externals) (p : Producer) (s : UInt64) :
    p.step lib (.aborted s) = if s ∈ p.timers.aborted then
      some ({ p with timers := p.timers.call s }.finish s) else none := by
  rw [step, sendData_eq]
  rfl

/-- The two ways a reply comes in are one. -/
theorem onData_eq_adddata (lib : Externals) (p : Producer) (interest : Interest) (data : Data) :
    p.onData lib interest data = p.adddata lib data.content := rfl

end Producer

end Crowdsensing
