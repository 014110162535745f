import Crowdsensing.Modes.Frames
import Crowdsensing.Modes.Requests
import Crowdsensing.System.Deletion
import Crowdsensing.Worker.Crashes
import Crowdsensing.Worker.Fetch
import Crowdsensing.Worker.NoTarget

/-!
# What disturbs what in the worker

One worker answers Interests of both modes, in any order, out of one store.

* `Arrival.captures` — an Interest that has a new picture taken: the only kind that replaces
  the store.
* `Worker.modes_independent` — **the modes do not disturb each other**: the Interests of one
  mode get the answers they would get alone.
* `Worker.Serves` — the store is a picture under a prefix, kept by every arrival that captures
  none (`serves_step`).
* `Worker.undisturbed_fetch` — **a fetch that no capture falls into gets the picture** its
  first Interest had taken, whatever else the worker answers meanwhile.
-/

namespace Crowdsensing

open Text

/-- The mode is the one given. -/
def Arrival.hasMode (mode : Str) (a : Arrival) : Bool := Worker.modeOf a.interest == mode

/-- A picture is taken: in cloud mode, for any name that does not ask for a segment. -/
def Arrival.captures (a : Arrival) : Bool :=
  Worker.modeOf a.interest == txt "c" && !(a.interest.name.getLast?.any Component.isSegment)

namespace Worker

section

variable {lib : Externals} {w w' v : Worker} {a : Arrival} {packets : List Packet}

theorem capture_cdString (w : Worker) (name : Name) (version : ℕ) (data_vector : Str) :
    (w.capture name version data_vector).cdString = w.cdString := by
  change (w.setVersion name version).cdString = w.cdString
  unfold setVersion
  split <;> rfl

/-- **Outside cloud mode an Interest leaves the worker as it is**, and what it is answered
depends on the id of the worker alone. -/
theorem receive_of_not_cloud (hroot : lib.UriRooted) (hmode : modeOf a.interest ≠ txt "c")
    (w : Worker) : ∃ packets, ∀ v : Worker, v.cdString = w.cdString →
      v.receive lib a = .ok (v, packets) := by
  obtain ⟨target, targets, -, htargets⟩ := extractTargets_decoded hroot a.interest.name
  by_cases hedge : modeOf a.interest = txt "e"
  · refine ⟨[.data (w.edgeData lib a.interest target
      (afterLast (ch '/') (decodeURI (lib.toUri a.interest.name))) a.labels)], fun v hv => ?_⟩
    refine (onInterest_edge hedge htargets (extractSessionID_eq _)).trans ?_
    rw [edgeData, edgeData, reply, reply, hv]
  · refine ⟨[], fun v _ => ?_⟩
    unfold receive onInterest
    rw [htargets, extractSessionID_eq, ok_bind, ok_bind, if_neg (by simp), if_neg hedge,
      if_neg hmode]
    rfl

/-- The id of the worker is never written. -/
theorem cdString_of_receive (h : w.receive lib a = .ok (w', packets)) :
    w'.cdString = w.cdString := by
  rcases onInterest_cases h with ⟨rfl, -⟩ | ⟨-, rfl, -⟩ | ⟨-, hcloud⟩
  · rfl
  · rfl
  · rcases answerCloud_cases hcloud with ⟨_, -, hp⟩ | ⟨_, raw, -, -, -, hp⟩
    · obtain ⟨_, _, _, -, -, -, rfl, -⟩ := processSegmentInterest_eq_ok hp
      rfl
    · obtain ⟨_, _, _, -, -, -, rfl, -⟩ := processSegmentInterest_eq_ok hp
      exact capture_cdString w a.interest.name a.version raw.data

/-- One arrival, with what it is answered. -/
def respond (lib : Externals) (s : Worker × List Packet) (a : Arrival) :
    Option (Worker × List Packet) :=
  (s.1.receive lib a).toOption

/-- The answers of a worker to the arrivals of a run, one by one: `none` if some handler does not
return. -/
def answersAlong (lib : Externals) (w : Worker) (arrivals : List Arrival) :
    Option (List (List Packet)) :=
  Runs.trace (respond lib) (fun _ s => s.2) (w, []) arrivals

theorem respond_eq_some {s t : Worker × List Packet} :
    respond lib s a = some t ↔ s.1.receive lib a = .ok t := by
  unfold respond
  cases s.1.receive lib a <;> simp [Except.toOption]

/-- **The modes do not disturb each other.**  Of all the Interests a worker answers, those of any
one mode get the answers they would get without the others. -/
theorem modes_independent (hroot : lib.UriRooted) (mode : Str) (w : Worker)
    {arrivals : List Arrival} {answered : List (List Packet)}
    (h : w.answersAlong lib arrivals = some answered) :
    w.answersAlong lib (arrivals.filter (Arrival.hasMode mode)) =
      some (((arrivals.zip answered).filter fun p => p.1.hasMode mode).map Prod.snd) := by
  -- cloud mode sees the whole worker, any other mode its id only
  let R (s t : Worker × List Packet) : Prop :=
    if mode = txt "c" then s.1 = t.1 else s.1.cdString = t.1.cdString
  refine Runs.trace_filter (R := R) ?_ ?_ arrivals (w, []) (w, []) answered ?_ h
  · intro s t a s' hR hmode hstep
    rw [respond_eq_some] at hstep
    have hother : modeOf a.interest ≠ mode := by simpa [Arrival.hasMode] using hmode
    by_cases hcloud : mode = txt "c"
    · obtain ⟨packets, hpackets⟩ := receive_of_not_cloud hroot (hcloud ▸ hother) s.1
      rw [hpackets s.1 rfl] at hstep
      rw [← Except.ok.inj hstep]
      exact hR
    · simp only [R, if_neg hcloud] at hR ⊢
      rw [cdString_of_receive hstep, hR]
  · intro s t a s' hR hmode hstep
    rw [respond_eq_some] at hstep
    have hsame : modeOf a.interest = mode := by simpa [Arrival.hasMode] using hmode
    by_cases hcloud : mode = txt "c"
    · simp only [R, if_pos hcloud] at hR ⊢
      refine ⟨s', ?_, rfl, rfl⟩
      rw [respond_eq_some, ← hR]
      exact hstep
    · simp only [R, if_neg hcloud] at hR ⊢
      obtain ⟨packets, hpackets⟩ := receive_of_not_cloud hroot (hsame ▸ hcloud) s.1
      rw [hpackets s.1 rfl, Except.ok.injEq] at hstep
      refine ⟨(t.1, packets), respond_eq_some.2 (hpackets t.1 hR.symm), ?_, ?_⟩
      · rw [← hstep]
        exact hR
      · rw [← hstep]
  · simp only [R, ite_self]

/-! ## A fetch -/

/-- The packet with the given number of a picture, as it goes out. -/
def packetOf (max : ℕ) (versioned : Name) (bytes : Str) (k : ℕ) : Data :=
  (storedPacket max versioned bytes k).sign

/-- The store is the packets of a picture under a prefix, signed or not. -/
structure Serves (max : ℕ) (versioned : Name) (bytes : Str) (w : Worker) : Prop where
  versionedPrefix : w.versionedPrefix = versioned
  store : w.store.map Data.sign =
    (List.range (segmentCount max bytes)).map (packetOf max versioned bytes)

section

variable {max : ℕ} {versioned : Name} {bytes : Str}

/-- Signing a packet where it is stored changes nothing once all are signed. -/
theorem map_sign_modify (store : List Data) (k : ℕ) :
    (store.modify k Data.sign).map Data.sign = store.map Data.sign := by
  apply List.ext_getElem?
  intro j
  rw [List.getElem?_map, List.getElem?_map, List.getElem?_modify]
  cases store[j]? with
  | none => rfl
  | some d => by_cases hk : k = j <;> simp [hk, Data.sign]

theorem Serves.length (h : w.Serves max versioned bytes) :
    w.store.length = segmentCount max bytes := by
  simpa using congrArg List.length h.store

/-- An answer from the store is a packet of the picture, and leaves the picture there. -/
theorem Serves.answer (h : w.Serves max versioned bytes) {interest : Interest}
    (hok : w.processSegmentInterest lib interest = .ok (w', packets)) :
    w'.Serves max versioned bytes ∧ ∃ first k, w.store.head? = some first ∧
      w.findPacket lib interest first = some k ∧
      packets = [.data (packetOf max versioned bytes k)] := by
  obtain ⟨first, k, data, hfirst, hfind, hdata, rfl, rfl⟩ := processSegmentInterest_eq_ok hok
  refine ⟨⟨h.versionedPrefix, (map_sign_modify _ _).trans h.store⟩, first, k, hfirst, hfind, ?_⟩
  have hsigned : (w.store.map Data.sign)[k]? = some data.sign := by
    rw [List.getElem?_map, hdata, Option.map_some]
  rw [h.store] at hsigned
  rw [(getElem?_map_range hsigned).2]

/-- **A segment of the picture is answered with that segment.** -/
theorem Serves.segment (hroot : lib.UriRooted) (h : w.Serves max versioned bytes) {k : ℕ}
    (hk : k < segmentCount max bytes) (hmode : modeOf a.interest = txt "c")
    (hname : a.interest.name = versioned ++ [.segment k]) :
    ∃ w', w.receive lib a = .ok (w', [.data (packetOf max versioned bytes k)]) ∧
      w'.Serves max versioned bytes := by
  have hlength := h.length
  obtain ⟨first, rest, hstore⟩ := List.exists_cons_of_ne_nil
    (List.ne_nil_of_length_pos (by omega : 0 < w.store.length))
  have hfind : ∀ first, w.findPacket lib a.interest first = some k := by
    intro first
    unfold findPacket
    rw [hname, List.getLast?_concat, h.versionedPrefix]
    simp [hlength, hk]
  obtain ⟨⟨w', packets⟩, hok⟩ := processSegmentInterest_of_findPacket hstore (hfind first)
  obtain ⟨hserves, first', k', -, hfind', rfl⟩ := h.answer hok
  rw [hfind first', Option.some.injEq] at hfind'
  refine ⟨w', ?_, hserves⟩
  rw [receive_of_cloud hroot hmode, answerCloud, hname, back_eq_ok List.getLast?_concat, ok_bind,
    if_pos (show (Component.segment k).isSegment = true from rfl), hok, hfind']

/-- **The first Interest of a fetch** has the picture captured and is answered with its first
packet. -/
theorem receive_discovery (hroot : lib.UriRooted) (hreshape : lib.ReshapeDocumented)
    (hmatch : lib.MatchDocumented) (w : Worker) (hmode : modeOf a.interest = txt "c")
    (hname : Unversioned a.interest.name) (hmay : a.interest.canBePrefix = true)
    (hframe : a.frame.Flattens) :
    ∃ w', w.receive lib a = .ok (w', [.data (packetOf w.options.maxSegmentSize
        (a.interest.name ++ [.version a.version]) a.frame.data 0)]) ∧
      w'.Serves w.options.maxSegmentSize (a.interest.name ++ [.version a.version])
        a.frame.data := by
  obtain ⟨c, hlast⟩ := hname
  obtain ⟨raw, hraw, hbytes⟩ := reshape_flat hreshape hframe
  have hset : w.setVersion a.interest.name a.version = { w with
      namePrefix := a.interest.name
      versionedPrefix := a.interest.name ++ [.version a.version] } := by
    unfold setVersion
    rw [hlast]
  have hserves : (w.capture a.interest.name a.version raw.data).Serves w.options.maxSegmentSize
      (a.interest.name ++ [.version a.version]) a.frame.data := by
    unfold capture
    rw [hset, hbytes]
    refine ⟨rfl, ?_⟩
    rw [populateStore_store _ rfl, List.map_map]
    rfl
  obtain ⟨first, rest, hstore⟩ := List.exists_cons_of_ne_nil
    (capture_store_ne_nil w a.interest.name a.version raw.data)
  have hfind : ∀ first, (w.capture a.interest.name a.version raw.data).store.head? = some first →
      (w.capture a.interest.name a.version raw.data).findPacket lib a.interest first = some 0 := by
    intro first hfirst
    have hprefixed := capture_numbered w a.interest.name a.version raw.data 0 first
      (by rw [← hfirst, List.head?_eq_getElem?])
    have hsat : a.interest.SatisfiedBy first.name := by
      rw [hprefixed]
      exact satisfiedBy_of_prefix hmay (prefix_capture _ _ _ _) 0
    unfold findPacket
    rw [hlast]
    exact if_pos ((hmatch _ _).2 hsat)
  obtain ⟨⟨w', packets⟩, hok⟩ :=
    processSegmentInterest_of_findPacket hstore (hfind first (by rw [hstore]; rfl))
  obtain ⟨hserves', first', k, hfirst', hfind', rfl⟩ := hserves.answer hok
  rw [hfind first' hfirst', Option.some.injEq] at hfind'
  refine ⟨w', ?_, hserves'⟩
  rw [receive_of_cloud hroot hmode, answerCloud, back_eq_ok hlast, ok_bind,
    if_neg (by simp [Component.isSegment]), hraw, hfind']
  exact hok

end

end

/-! ## Both modes at one worker -/

/-- A picture is captured and its segment fetched, with a request in edge mode between the
two. -/
def mixedModes : List Arrival := [
  { interest := { name := sessionName 7, canBePrefix := true }, frame := onePixel 1, version := 1 },
  { interest := edgeRequest [txt "3", txt "#f:detect", txt "#a:[3] #a:[person]", txt "8"],
    labels := [txt "person"], frame := onePixel 2, version := 2 },
  { interest := { name := sessionName 7 ++ [.version 1, .segment 0] }, frame := onePixel 3,
    version := 3 }]

/-- The fetch gets the answers it gets without the request. -/
theorem modes_independent_mixedModes : ∃ answered,
    (start (txt "/3") {}).answersAlong reference mixedModes = some answered ∧
      (start (txt "/3") {}).answersAlong reference [mixedModes[0], mixedModes[2]] =
        some [answered[0]?.getD [], answered[2]?.getD []] := by
  have hsome : ((start (txt "/3") {}).answersAlong reference mixedModes).map List.length =
      some 3 := by decide +kernel
  obtain ⟨answered, h, hlength⟩ := Option.map_eq_some_iff.1 hsome
  refine ⟨answered, h, ?_⟩
  have halone := modes_independent reference_rooted (txt "c") (start (txt "/3") {}) h
  match answered, hlength with
  | [_, _, _], _ => exact halone

/-- A picture of a camera is asked for. -/
def cameraRequest : Arrival where
  interest := { name := sessionName 7, canBePrefix := true }
  frame := blackFrame 480 640 3
  version := 1

end Worker

end Crowdsensing
