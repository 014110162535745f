import Crowdsensing.Reference
import Crowdsensing.System.Run
import Crowdsensing.Worker.Worker

/-!
# Answers to segment Interests

The worker keeps the segments of the last picture only, under the versioned prefix of
the request that captured it.  Any number of requesters may ask for segments of
pictures captured for them.

* `Worker.AnswersExactly` — a segment Interest is answered with the packet it asks
  for, and with a Nack where the store does not have it.
* `Worker.Stored` — the store has the packet a segment Interest asks for.
* `Worker.numbered_step` — the packets of the store are numbered under its prefix,
  whatever comes in.
* `Worker.segment_answers` — **the answers are right in exactly the runs in which the
  store always has the packet asked for.**
-/

namespace Crowdsensing

open Text

/-- An Interest that comes in, with what the detector returns if it is asked and the
version drawn if a picture is captured. -/
structure Arrival where
  interest : Interest
  labels : List Str := []
  frame : Mat
  version : ℕ

/-- A segment is asked for in cloud mode. -/
def Arrival.IsSegmentRequest (a : Arrival) : Prop :=
  Worker.modeOf a.interest = txt "c" ∧ ∃ k, a.interest.name.getLast? = some (.segment k)

namespace Worker

/-- The handler on an arrival. -/
def receive (lib : Externals) (w : Worker) (a : Arrival) : Except Fault (Worker × List Packet) :=
  w.onInterest lib a.interest a.labels a.frame a.version

/-- One arrival: `none` if the handler does not return. -/
def step (lib : Externals) (w : Worker) (a : Arrival) : Option Worker :=
  (w.receive lib a).toOption.map Prod.fst

/-- What is put on the face for an arrival. -/
def answers (lib : Externals) (w : Worker) (a : Arrival) : List Packet :=
  match w.receive lib a with
  | .ok r => r.2
  | .error _ => []

/-- The store has a packet of that name. -/
def Provides (w : Worker) (name : Name) : Prop := ∃ d ∈ w.store, d.name = name

/-- A segment Interest is answered with Data of its own name, and with a Nack where the
store cannot provide that. -/
def AnswersExactly (lib : Externals) (_history : List Arrival) (w : Worker) (a : Arrival) : Prop :=
  a.IsSegmentRequest →
    (∀ data, .data data ∈ w.answers lib a → data.name = a.interest.name) ∧
      (¬ w.Provides a.interest.name → w.answers lib a = [.nack a.interest])

/-- The store has the packet that a segment Interest asks for. -/
def Stored (_history : List Arrival) (w : Worker) (a : Arrival) : Prop :=
  a.IsSegmentRequest → w.Provides a.interest.name

/-- The packets of the store are numbered under its prefix. -/
def Numbered (w : Worker) : Prop :=
  ∀ k d, w.store[k]? = some d → d.name = w.versionedPrefix ++ [.segment k]

section

variable {lib : Externals} {w w' : Worker} {packets : List Packet}

theorem capture_numbered (w : Worker) (name : Name) (version : ℕ) (data_vector : Str) :
    (w.capture name version data_vector).Numbered := by
  intro k d hd
  unfold capture at hd ⊢
  rw [populateStore_store _ rfl] at hd
  rw [(getElem?_map_range hd).2]
  rfl

theorem processSegmentInterest_numbered {interest : Interest} (hw : w.Numbered)
    (h : w.processSegmentInterest lib interest = .ok (w', packets)) : w'.Numbered := by
  obtain ⟨_, k, _, _, _, _, rfl, -⟩ := processSegmentInterest_eq_ok h
  intro j d hd
  obtain ⟨e, he, rfl | rfl⟩ := of_getElem?_signed hd
  · exact hw j e he
  · exact hw j _ he

/-- **The packets of the store stay numbered under its prefix**, whatever comes in. -/
theorem numbered_step {a : Arrival} (hw : w.Numbered) (h : w.step lib a = some w') :
    w'.Numbered := by
  obtain ⟨⟨v, packets⟩, hv, rfl⟩ := Option.map_eq_some_iff.1 h
  have hok : w.onInterest lib a.interest a.labels a.frame a.version = .ok (v, packets) := by
    cases hr : w.receive lib a with
    | ok r =>
      rw [hr] at hv
      exact hr.trans (congrArg _ (Option.some.inj hv))
    | error f =>
      rw [hr] at hv
      exact absurd hv nofun
  rcases onInterest_cases hok with ⟨rfl, -⟩ | ⟨-, rfl, -⟩ | ⟨-, hcloud⟩
  · exact hw
  · exact hw
  · rcases answerCloud_cases hcloud with ⟨k, -, hp⟩ | ⟨last, raw, -, -, -, hp⟩
    · exact processSegmentInterest_numbered hw hp
    · exact processSegmentInterest_numbered (capture_numbered _ _ _ _) hp

variable (lib w) in
/-- A segment Interest in cloud mode is answered from the store as it is, if at all. -/
theorem answers_of_segment {a : Arrival} (ha : a.IsSegmentRequest) :
    w.answers lib a = [] ∨ ∃ first k data, w.store.head? = some first ∧
      w.findPacket lib a.interest first = some k ∧ w.store[k]? = some data ∧
      w.answers lib a = [.data data.sign] := by
  obtain ⟨hmode, k₀, hlast⟩ := ha
  unfold answers
  cases hr : w.receive lib a with
  | error f => exact Or.inl rfl
  | ok r =>
    obtain ⟨v, packets⟩ := r
    rcases onInterest_cases hr with ⟨-, rfl⟩ | ⟨hedge, -⟩ | ⟨-, hcloud⟩
    · exact Or.inl rfl
    · rw [hmode] at hedge
      exact absurd hedge (by decide)
    · rcases answerCloud_cases hcloud with ⟨k, -, hp⟩ | ⟨last, raw, hget, hsegment, -, -⟩
      · obtain ⟨first, k, data, hhead, hfind, hdata, -, rfl⟩ := processSegmentInterest_eq_ok hp
        exact Or.inr ⟨first, k, data, hhead, hfind, hdata, rfl⟩
      · rw [hlast] at hget
        rw [← Option.some.inj hget] at hsegment
        exact absurd hsegment nofun

/-- **Where the store is numbered, an answer is right exactly if the store has the packet
asked for.** -/
theorem answersExactly_iff {history : List Arrival} {a : Arrival} (hw : w.Numbered) :
    w.AnswersExactly lib history a ↔ w.Stored history a := by
  refine forall_congr' fun ha => ?_
  have hanswers := answers_of_segment lib w ha
  constructor
  · rintro ⟨-, hnack⟩
    by_contra hnot
    have hput := hnack hnot
    rcases hanswers with hnone | ⟨_, _, _, _, _, _, hdata⟩
    · exact absurd (hnone.symm.trans hput) nofun
    · exact absurd (hdata.symm.trans hput) nofun
  · intro hstored
    refine ⟨fun data hdata => ?_, fun hnot => absurd hstored hnot⟩
    rcases hanswers with hnone | ⟨first, k, d, -, hfind, hd, hput⟩
    · rw [hnone] at hdata
      exact absurd hdata List.not_mem_nil
    · rw [hput, List.mem_singleton, Packet.data.injEq] at hdata
      obtain ⟨e, he, hname⟩ := hstored
      obtain ⟨j, hj⟩ := List.getElem?_of_mem he
      have hej := hw j e hj
      have hjlt : j < w.store.length := (List.getElem?_eq_some_iff.1 hj).1
      -- the name asked for is the one of the packet in place `j`, so that one is found
      rw [hname] at hej
      have hfound : w.findPacket lib a.interest first = some j := by
        unfold findPacket
        rw [hej, List.getLast?_concat]
        simp only [List.length_append, List.length_singleton, if_true, if_pos hjlt]
      rw [hfound, Option.some.injEq] at hfind
      subst hfind
      rw [hd] at hj
      rw [hdata, Data.sign_name, Option.some.inj hj, hname]

end

/-- Every run keeps the store numbered. -/
theorem numbered {lib : Externals} (cd_str : Str) (options : Options) (arrivals : List Arrival)
    (w : Worker) (h : Runs.exec (step lib) (start cd_str options) arrivals = some w) :
    w.Numbered := by
  refine Runs.history (P := fun _ (w : Worker) => w.Numbered) ?_ ?_ arrivals w h
  · intro k d hd
    exact absurd hd nofun
  · intro _ _ _ _ _ hw hstep
    exact numbered_step hw hstep

/-- **The answers are right in exactly the runs in which the store always has the packet
asked for.** -/
theorem segment_answers (lib : Externals) (cd_str : Str) (options : Options)
    (arrivals : List Arrival) :
    Runs.Along (step lib) (AnswersExactly lib) (start cd_str options) arrivals ↔
      Runs.Along (step lib) Stored (start cd_str options) arrivals := by
  apply Runs.along_congr
  intro es w a hrun _
  exact answersExactly_iff (numbered cd_str options es w hrun)

/-! ## Two requesters -/

/-- A sub-Interest name of session `d` for the location 3, as the edge builds it. -/
def sessionName (d : UInt64) : Name :=
  reference.ofUri (subInterestName (txt "/3/#f:detect/#a:[3] #a:[person]") d)

/-- A picture of one byte. -/
def onePixel (b : UInt8) : Mat := ⟨1, 1, 1, [b], rfl⟩

/-- Session 7 and session 8 have a picture captured, then session 7 asks for the first
segment of its own. -/
def staleSegment : List Arrival := [
  { interest := { name := sessionName 7, canBePrefix := true }, frame := onePixel 1, version := 1 },
  { interest := { name := sessionName 8, canBePrefix := true }, frame := onePixel 2, version := 2 },
  { interest := { name := sessionName 7 ++ [.version 1, .segment 0] }, frame := onePixel 3,
    version := 3 }]

/-- Session 7 asks for a second segment of a picture that has one. -/
def missingSegment : List Arrival := [
  { interest := { name := sessionName 7, canBePrefix := true }, frame := onePixel 1, version := 1 },
  { interest := { name := sessionName 7 ++ [.version 1, .segment 1] }, frame := onePixel 3,
    version := 3 }]

/-- The name of the Data of an answer: `none` for a Nack. -/
def nameOfData : Packet → Option Name
  | .data d => some d.name
  | .nack _ => none

/-- **Session 7 is answered with Data of session 8 in the first run, and not at all in the
second**, where a Nack is due. -/
theorem segment_answers_wrong :
    ¬ Runs.Along (step reference) (AnswersExactly reference) (start (txt "/3") {}) staleSegment ∧
      ¬ Runs.Along (step reference) (AnswersExactly reference) (start (txt "/3") {})
        missingSegment := by
  constructor
  · intro h
    have hputs : (Runs.exec (step reference) (start (txt "/3") {}) (staleSegment.take 2)).map
        (fun w => (w.answers reference staleSegment[2]).map nameOfData) =
        some [some (sessionName 8 ++ [.version 2, .segment 0])] := by decide +kernel
    obtain ⟨w, hw, hnames⟩ := Option.map_eq_some_iff.1 hputs
    have hanswer := (h (staleSegment.take 2) staleSegment[2] [] rfl w hw ⟨by decide, 0, rfl⟩).1
    obtain ⟨packet, hpacket, hname⟩ := List.mem_map.1 (hnames ▸ List.mem_singleton_self _)
    cases packet with
    | nack i => exact absurd hname.symm (Option.some_ne_none _)
    | data d =>
      have heq := (hanswer d hpacket).symm.trans (Option.some.inj hname)
      exact absurd heq (by decide +kernel)
  · intro h
    have hputs : (Runs.exec (step reference) (start (txt "/3") {}) (missingSegment.take 1)).map
        (fun w => (w.answers reference missingSegment[1],
          w.store.map Data.name)) =
        some ([], [sessionName 7 ++ [.version 1, .segment 0]]) := by decide +kernel
    obtain ⟨w, hw, hnone⟩ := Option.map_eq_some_iff.1 hputs
    rw [Prod.mk.injEq] at hnone
    have hanswer := (h (missingSegment.take 1) missingSegment[1] [] rfl w hw
      ⟨by decide, 1, rfl⟩).2
    refine absurd (hnone.1.symm.trans (hanswer ?_)) (List.cons_ne_nil _ _).symm
    rintro ⟨d, hd, hname⟩
    have hmem := List.mem_map_of_mem (f := Data.name) hd
    rw [hnone.2, List.mem_singleton, hname] at hmem
    exact absurd hmem (by decide +kernel)

end Worker

end Crowdsensing
