import Crowdsensing.Client.Map
import Crowdsensing.Modes.Requests
import Crowdsensing.System.Network
import Crowdsensing.Worker.Fetch

/-!
# Pages, the edge and the workers

Any number of browser pages, the edge in edge mode and any number of workers, on one network.
An Interest reaches those that have registered a prefix of its name; a Data packet reaches those
that have an Interest outstanding that it satisfies.

* `Party`, `Deployment.network` — the parties and the machine they make.
* `Deployment.Requested`, `Deployment.Asked`, `Deployment.Told`, `Deployment.Answered` — **the
  chain of a verdict**: a page asked, then the edge asked a worker for it, then the worker told
  what its detector saw, then the edge passed that on.

A handler that does not return takes its program out of the network.  It has sent nothing by
then, so the runs without that event are all that the other programs see.
-/

namespace Crowdsensing

open Text Networks

/-- Who takes part. -/
inductive Party
  | page (k : ℕ)
  | edge
  | worker (k : ℕ)
  deriving DecidableEq

/-- What is sent. -/
inductive Message
  | interest (interest : Interest)
  | data (packet : Data)
  deriving DecidableEq

/-- What can happen to a page: a Data packet or a timeout ends one of its Interests. -/
inductive PageInput
  | tick
  | registerTarget (target name : JsString)
  | data (position : ℕ) (packet : Data)
  | timeout (position : ℕ)

/-- What a party holds. -/
@[reducible] def Party.State : Party → Type
  | .page _ => Client
  | .edge => Producer
  | .worker _ => Worker

/-- What can happen to it. -/
@[reducible] def Party.Happening : Party → Type
  | .page _ => PageInput
  | .edge => Event
  | .worker _ => Arrival

/-- What happened on the network. -/
abbrev History := List (Σ i : Party, i.Happening)

/-- The programs as they are deployed. -/
structure Deployment where
  lib : Externals
  browser : Browser
  /-- The Interest `sendInterest` makes of a name. -/
  interestOf : JsString → Interest
  /-- The prefix each worker is started with. -/
  cdString : ℕ → Str
  options : ℕ → Options

namespace Deployment

variable (D : Deployment)

/-- The prefix the edge registers. -/
def edgeName : Name := D.lib.ofUri (txt "/icn2020/edge")

/-! ## What the parties do -/

/-- A page: what becomes outstanding is sent. -/
def pageAct (c : Client) : PageInput → Option (Client × List Message)
  | .tick =>
    let c' := c.sendRequest D.browser
    some (c', (c'.outstanding.drop c.outstanding.length).map (.interest ∘ D.interestOf))
  | .registerTarget target name => some (c.registerTarget D.browser target name, [])
  | .data position packet =>
    match c.outstanding[position]? with
    | none => none
    | some name =>
      if (D.interestOf name).SatisfiedBy packet.name then
        some (((c.settle position).onData D.browser packet.content).client, [])
      else none
  | .timeout position =>
    if position < c.outstanding.length then some ((c.settle position).onTimeout D.browser, [])
    else none

/-- What reaches the edge.  Only an executor brings a result, and one is made for each fetch. -/
def EdgeReceives (p : Producer) : Event → Prop
  | .interest interest _ _ => D.edgeName <+: interest.name
  | .data interest packet => interest ∈ p.face.expressed ∧ interest.SatisfiedBy packet.name
  | .result _ => p.face.fetches ≠ []
  | _ => True

instance (p : Producer) (e : Event) : Decidable (D.EdgeReceives p e) := by
  cases e <;> (unfold EdgeReceives; infer_instance)

/-- The edge: what is expressed or put is sent. -/
def edgeAct (p : Producer) (e : Event) : Option (Producer × List Message) :=
  if D.EdgeReceives p e then
    (p.step D.lib e).map fun p' =>
      (p', (p'.face.expressed.drop p.face.expressed.length).map .interest ++
        (p'.face.puts.drop p.face.puts.length).map fun put => .data put.2)
  else none

/-- A worker: what is put is sent. -/
def workerAct (w : Worker) (a : Arrival) : Option (Worker × List Message) :=
  if D.lib.ofUri w.cdString <+: a.interest.name then
    (w.receive D.lib a).toOption.map fun r => (r.1, (dataOf r.2).map .data)
  else none

/-- The parties on the network. -/
def network : Network Party Message Party.State Party.Happening where
  act
    | .page _ => D.pageAct
    | .edge => D.edgeAct
    | .worker _ => D.workerAct
  needs
    | .page _, .data _ packet => [.data packet]
    | .page _, _ => []
    | .edge, .interest interest _ _ => [.interest interest]
    | .edge, .data _ packet => [.data packet]
    | .edge, _ => []
    | .worker _, a => [.interest a.interest]

/-- Before anything happened; the edge is in edge mode. -/
def begin : Config Message Party.State where
  states
    | .page _ => Client.start
    | .edge => Producer.start (ch 'e')
    | .worker k => Worker.start (D.cdString k) (D.options k)

/-! ## The chain of a verdict -/

/-- A page after what happened to it. -/
def pageAfter (k : ℕ) (es : History) : Option Client :=
  Runs.exec (D.network.partyStep (.page k)) Client.start (Network.eventsOf (.page k) es)

/-- A page has sent this Interest: it has gone out at a tick. -/
def Requested (interest : Interest) : History → Prop :=
  Once fun pre e => ∃ k c c' out, e = ⟨.page k, PageInput.tick⟩ ∧ D.pageAfter k pre = some c ∧
    D.pageAct c .tick = some (c', out) ∧ Message.interest interest ∈ out

/-- The edge has opened a session for a request, and asked with this Interest for it. -/
def Asked (s : UInt64) (interest : Interest) : History → Prop :=
  Once fun pre e => ∃ request version names, e = ⟨.edge, Event.interest request version s⟩ ∧
    D.Requested request pre ∧
    Producer.convertInterestName (Producer.decodeURI (D.lib.toUri request.name)) [] = .ok names ∧
    ∃ name ∈ names, interest = subInterest D.lib (ch 'e') s name

/-- A worker has told what its detector saw, asked for a session. -/
def Told (s : UInt64) (r : Reply) : History → Prop :=
  Once fun pre e => ∃ k a target targets, e = ⟨.worker k, a⟩ ∧ D.Asked s a.interest pre ∧
    D.lib.ofUri (D.cdString k) <+: a.interest.name ∧
    Worker.extractTargets (Worker.decodeURI (D.lib.toUri a.interest.name)) =
      .ok (target :: targets) ∧
    r = (Worker.start (D.cdString k) (D.options k)).reply target (decimal s.toNat) a.labels

/-- The edge has opened a session for a request and named its Data packet so. -/
def Opened (s : UInt64) (name : Name) : History → Prop :=
  Once fun pre e => ∃ request version, e = ⟨.edge, Event.interest request version s⟩ ∧
    D.edgeName <+: request.name ∧ D.Requested request pre ∧
    name = request.name ++ [.generic (txt "IoT"), .version version]

/-- The packet passes on replies that workers have told for the session, and nothing else. -/
def Answered (s : UInt64) (packet : Data) (es : History) : Prop :=
  D.Opened s packet.name es ∧ ∃ replies, packet.content = Client.contentOf D.lib replies ∧
    ∀ r ∈ replies, D.Told s r es

/-- The session is of a request, and has collected replies that workers have told for it. -/
def Collected (s : UInt64) (session : Session) (es : History) : Prop :=
  D.Opened s session.dataPtr.name es ∧ ∃ replies,
    session.buffer = Client.contentOf D.lib replies ∧ ∀ r ∈ replies, D.Told s r es

variable {D} {s : UInt64} {es : History}

theorem Collected.later {session : Session} (h : D.Collected s session es) (fs : History) :
    D.Collected s session (es ++ fs) := by
  obtain ⟨hopened, replies, hbuffer, htold⟩ := h
  exact ⟨hopened.later fs, replies, hbuffer, fun r hr => (htold r hr).later fs⟩

theorem Answered.later {packet : Data} (h : D.Answered s packet es) (fs : History) :
    D.Answered s packet (es ++ fs) := by
  obtain ⟨hopened, replies, hcontent, htold⟩ := h
  exact ⟨hopened.later fs, replies, hcontent, fun r hr => (htold r hr).later fs⟩

/-- One more reply. -/
theorem Collected.received {session : Session} (h : D.Collected s session es) {r : Reply}
    (hr : D.Told s r es) : D.Collected s { session with
      buffer := session.buffer ++ encode D.lib r ++ [ch '\n'] } es := by
  obtain ⟨hopened, replies, hbuffer, htold⟩ := h
  refine ⟨hopened, replies ++ [r], ?_, fun r' hr' => ?_⟩
  · change session.buffer ++ encode D.lib r ++ [ch '\n'] = _
    rw [hbuffer, Client.contentOf, Client.contentOf, List.map_append, List.map_singleton,
      collected_concat]
  · rcases List.mem_append.1 hr' with hr' | hr'
    · exact htold r' hr'
    · rwa [List.mem_singleton.1 hr']

end Deployment

end Crowdsensing
