import Crowdsensing.Edge.OneSession
import Crowdsensing.Naming.Decode
import Crowdsensing.Worker.Worker

/-!
# From a request to the replies

What the edge sends for a request in either mode, and what comes back for it.

* `Producer.onInterest_eq` — in edge mode one Interest goes out for each location.
* `Producer.onInterestCloud_eq` — in cloud mode one picture is fetched for each
  location, and an executor with the fields of the reply waits for it.
* `Worker.onInterest_received` — what the worker replies to an Interest of the first
  kind.
-/

namespace Crowdsensing

open Text

/-- What both ways to ask leave before the locations are asked. -/
def Producer.opened (p : Producer) (interest : Interest) (version : ℕ) (d : UInt64) (n : ℕ) :
    Producer :=
  { p with numberOfArrivalInterest := 0, issuedInterest := n }.openSession d
    (packetFor interest version)

/-- The sub-Interest in edge mode, with the mode as its parameter. -/
def subInterest (lib : Externals) (mode : UInt8) (d : UInt64) (name : Str) : Interest :=
  { Producer.reInterest lib name d with applicationParameters := some [mode] }

/-- The executor for a location. -/
def executorFor (lib : Externals) (d : UInt64) (f t target l : Str) : Executor where
  fetcherName := lib.toUri (Producer.reInterest lib (nameFor l f t) d).name
  locationName := l
  targetName := target
  sessionId := decimal d.toNat

/-- A name lies under the prefix that the worker of a location registers. -/
def LiesUnder (l name : Str) : Prop := Producer.locationPath l ++ txt "/" <+: name

/-- The name for a location begins with its path. -/
theorem liesUnder_nameFor (l f t : Str) : LiesUnder l (nameFor l f t) := by
  refine ⟨f ++ txt "/#a:[" ++ l ++ txt "] " ++ t, ?_⟩
  simp only [Producer.locationPath, join, nameFor, List.append_assoc]

/-- What the answers to the clients depend on: the counters, the sessions, the timers, and
the Data packets put. -/
structure Ledger where
  numberOfArrivalInterest : ℕ
  issuedInterest : ℕ
  sessions : SessionManager
  timers : Timers
  puts : List (UInt64 × Data)

namespace Producer

/-- The ledger of an edge. -/
def ledger (p : Producer) : Ledger where
  numberOfArrivalInterest := p.numberOfArrivalInterest
  issuedInterest := p.issuedInterest
  sessions := p.sessions
  timers := p.timers
  puts := p.face.puts

section

variable {lib : Externals} {p : Producer} {interest : Interest} {version : ℕ} {d : UInt64}

/-- The names of a request are taken over, and the session is opened. -/
theorem acceptInterest_eq {names : List Str}
    (h : convertInterestName (decodeURI (lib.toUri interest.name)) [] = .ok names) :
    p.acceptInterest lib interest version d =
      .ok (p.opened interest version d names.length, names) := by
  have hnames : p.acceptInterest lib interest version d =
      convertInterestName (decodeURI (lib.toUri interest.name)) [] >>= fun names =>
        .ok (p.opened interest version d names.length, names) := rfl
  rw [hnames, h, ok_bind]

theorem foldl_express (names : List Str) (p : Producer) :
    names.foldl (express lib d) p = { p with
      face := { p.face with
        expressed := p.face.expressed ++ names.map (subInterest lib p.edgeMode d) } } := by
  induction names generalizing p with
  | nil => simp
  | cons name names ih =>
    rw [List.foldl_cons, ih]
    simp [express, subInterest]

/-- **In edge mode one Interest goes out for each rewritten name.** -/
theorem onInterest_eq {names : List Str}
    (h : convertInterestName (decodeURI (lib.toUri interest.name)) [] = .ok names) :
    p.onInterest lib interest version d = .ok { p.opened interest version d names.length with
      face := { p.face with
        expressed := p.face.expressed ++ names.map (subInterest lib p.edgeMode d) } } := by
  unfold onInterest
  rw [acceptInterest_eq h, ok_bind]
  simp only [foldl_express]
  rfl

/-- One fetch, for a location of the request. -/
theorem fetch_eq {s l target : Str} {targets : List Str} (hl : l ∈ locationsOf s)
    (htarget : p.targetName = target :: targets) :
    p.fetch lib d (nameFor l (functionPart s) (targetPart s)) = .ok { p with
      locationName := [l]
      face := { p.face with
        fetches := p.face.fetches ++ [(reInterest lib (nameFor l (functionPart s) (targetPart s)) d,
          executorFor lib d (functionPart s) (targetPart s) target l)] } } := by
  have hfields := subFields_of_mem hl
  unfold fetch
  rw [extractLocname_subInterestName (accepted_nameFor hfields), locationsOf_nameFor hfields,
    htarget]
  rfl

theorem foldlM_fetch {s target : Str} {targets : List Str} (ls : List Str) (p : Producer)
    (hls : ∀ l ∈ ls, l ∈ locationsOf s) (htarget : p.targetName = target :: targets) :
    ∃ p', (ls.map fun l => nameFor l (functionPart s) (targetPart s)).foldlM (fetch lib d) p =
        .ok p' ∧ p'.ledger = p.ledger ∧
      p'.face.fetches = p.face.fetches ++ ls.map fun l =>
        (reInterest lib (nameFor l (functionPart s) (targetPart s)) d,
          executorFor lib d (functionPart s) (targetPart s) target l) := by
  induction ls generalizing p with
  | nil => exact ⟨p, rfl, rfl, (List.append_nil _).symm⟩
  | cons l ls ih =>
    have hfetch : p.fetch lib d (nameFor l (functionPart s) (targetPart s)) = _ :=
      fetch_eq (hls l List.mem_cons_self) htarget
    obtain ⟨p', hp', hledger, hfetches⟩ := ih { p with
      locationName := [l]
      face := { p.face with
        fetches := p.face.fetches ++ [(reInterest lib (nameFor l (functionPart s) (targetPart s)) d,
          executorFor lib d (functionPart s) (targetPart s) target l)] } }
      (fun l' hl' => hls l' (List.mem_cons_of_mem _ hl')) htarget
    refine ⟨p', ?_, hledger, ?_⟩
    · rw [List.map_cons, List.foldlM_cons, hfetch]
      exact hp'
    · rw [hfetches, List.map_cons, List.append_assoc]
      rfl

variable (p version d) in
/-- **In cloud mode one picture is fetched for each location**, and its executor has the
first target of the request. -/
theorem onInterestCloud_eq {s target : Str} {targets : List Str}
    (hs : decodeURI (lib.toUri interest.name) = s) (haccepted : Accepted s)
    (htargets : targetsOf s = target :: targets) :
    ∃ p', p.onInterestCloud lib interest version d = .ok p' ∧
      p'.ledger = (p.opened interest version d (locationsOf s).length).ledger ∧
      p'.face.fetches = p.face.fetches ++ (locationsOf s).map fun l =>
        (reInterest lib (nameFor l (functionPart s) (targetPart s)) d,
          executorFor lib d (functionPart s) (targetPart s) target l) := by
  have hnames : convertInterestName (decodeURI (lib.toUri interest.name)) [] =
      .ok ((locationsOf s).map fun l => nameFor l (functionPart s) (targetPart s)) := by
    rw [hs]
    exact convertInterestName_eq haccepted []
  have hcloud : p.onInterestCloud lib interest version d =
      extractTargets (decodeURI (lib.toUri interest.name)) >>= fun ts =>
        acceptInterest lib { p with targetName := ts } interest version d >>= fun r =>
          r.2.foldlM (fetch lib d) r.1 := rfl
  obtain ⟨p', hp', hledger, hfetches⟩ := foldlM_fetch (locationsOf s)
    ({ p with targetName := targetsOf s }.opened interest version d (locationsOf s).length)
    (fun l hl => hl) htargets
  refine ⟨p', ?_, hledger, hfetches⟩
  rw [hcloud, hs, extractTargets_eq, ok_bind, acceptInterest_eq hnames, ok_bind, List.length_map]
  exact hp'

/-- **A client Interest leaves the ledger of the session it opens**, in either mode. -/
theorem ledger_handleInterest {p' : Producer} {s : Str}
    (hs : decodeURI (lib.toUri interest.name) = s)
    (h : p.handleInterest lib interest version d = some (.ok p')) :
    Accepted s ∧ p'.ledger = (p.opened interest version d (locationsOf s).length).ledger := by
  have haccepted : ∀ {p q : Producer} {names : List Str},
      p.acceptInterest lib interest version d = .ok (q, names) → Accepted s := by
    intro p q names hq
    have hnames := (acceptInterest_eq_ok hq).1
    rw [hs] at hnames
    exact (convertInterestName_eq_ok hnames).1
  unfold handleInterest at h
  split at h
  · have hcloud := Option.some.inj h
    have hok := hcloud
    obtain ⟨_, -, hok⟩ := bind_eq_ok.1 hok
    obtain ⟨⟨q, names⟩, hq, -⟩ := bind_eq_ok.1 hok
    obtain ⟨target, targets, htargets⟩ := List.exists_cons_of_ne_nil
      (List.splitOn_ne_nil (ch ',') (keyText (targetPart s)))
    obtain ⟨q', hq', hledger, -⟩ := onInterestCloud_eq p version d hs (haccepted hq) htargets
    rw [hq'] at hcloud
    rw [← Except.ok.inj hcloud]
    exact ⟨haccepted hq, hledger⟩
  · split at h
    · have hedge := Option.some.inj h
      obtain ⟨⟨q, names⟩, hq, -⟩ := bind_eq_ok.1 hedge
      have hnames := convertInterestName_eq (haccepted hq) []
      rw [← hs] at hnames
      rw [onInterest_eq hnames, hs] at hedge
      rw [← Except.ok.inj hedge, List.nil_append, List.length_map]
      exact ⟨haccepted hq, rfl⟩
    · exact absurd h (by simp)

/-! ## The mode -/

theorem edgeMode_finish (p : Producer) (s : UInt64) : (p.finish s).edgeMode = p.edgeMode := by
  unfold finish
  cases p.sessions.get s <;> rfl

theorem edgeMode_handleInterest {p' : Producer}
    (h : p.handleInterest lib interest version d = some (.ok p')) :
    p'.edgeMode = p.edgeMode := by
  obtain ⟨names, q, -, rfl, _, _, _, _, rfl⟩ := exists_of_handleInterest h
  rfl

/-- **No event changes the mode of the edge.** -/
theorem edgeMode_step {p' : Producer} {e : Event} (h : p.step lib e = some p') :
    p'.edgeMode = p.edgeMode := by
  cases step_iff.1 h with
  | asked accepted => exact edgeMode_handleInterest accepted
  | dropped payload unnamed => rfl
  | replied named =>
    split
    · exact edgeMode_finish _ _
    · rfl
  | expired armed => exact edgeMode_finish _ _
  | called pending => exact edgeMode_finish _ _

theorem edgeMode_exec {p' : Producer} {es : List Event}
    (h : Runs.exec (step lib) p es = some p') : p'.edgeMode = p.edgeMode := by
  refine Runs.history (P := fun _ q => q.edgeMode = p.edgeMode) rfl ?_ es p' h
  intro _ q e q' _ hq hstep
  rw [edgeMode_step hstep, hq]

end

end Producer

/-- **What the worker replies in edge mode** to a sub-Interest: the targets of the name, as
they are after one more escaping and decoding, are told by the labels. -/
theorem Worker.onInterest_received {lib : Externals} {l f t : Str} {d : UInt64}
    (hlib : lib.InverseAt (subComponents l f t d)) (hspace : ch ' ' ∉ uriUnescape t) {target : Str}
    {targets : List Str} (htargets : piecesOf (decoded (uriUnescape t)) = target :: targets)
    (w : Worker) (labels : List Str) (frame : Mat) (version : ℕ) :
    w.onInterest lib (subInterest lib (ch 'e') d (nameFor l f t)) labels frame version =
      .ok (w, [.data (w.edgeData lib (subInterest lib (ch 'e') d (nameFor l f t)) target
        (decimal d.toNat) labels)]) := by
  apply Worker.onInterest_edge rfl
  · rw [← htargets]
    exact extractTargets_received hlib hspace
  · exact extractSessionID_received hlib

end Crowdsensing
