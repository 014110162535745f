import Crowdsensing.Edge.Accounting
import Crowdsensing.Modes.Signatures
import Crowdsensing.Whole.Pictures
import Crowdsensing.Worker.Undisturbed

/-!
# Every request can be answered with pictures

In cloud mode the edge begins a fetch for each location of a request.  Nothing that has happened
before, not even a fetch that was given up, keeps it from being answered.

* `Cloud.fetchMoves` — a fetch from the first Interest to the last segment.
* `Cloud.fetching_all` — **at a worker that is running a fetch gets the picture that is taken for
  it.**
* `Studio.Shot`, `Studio.Request` — a request, and the pictures that are taken for its locations.
* `Studio.Serving.shoot` — one more picture is fetched and judged, or the last one answers the
  request.
* `Studio.request_served` — **from every reachable state each request can be answered with the
  verdicts on its pictures**, fetched in any order.
-/

namespace Crowdsensing

open Text

/-! ## One fetch -/

namespace Cloud

/-- The first Interest of a fetch. -/
def firstInterest (name : Name) : Interest where
  name := name
  canBePrefix := true
  mustBeFresh := true

/-- A fetch begins, and the first packet of its picture comes in. -/
def firstMoves (max i : ℕ) (name : Name) (frame : Mat) (version : ℕ) : List Move := [
  .discover i name,
  .arrive (firstInterest name) frame version,
  .first i (Worker.packetOf max (name ++ [.version version]) frame.data 0)]

/-- A segment is asked for and comes in. -/
def segmentMoves (max i : ℕ) (name : Name) (frame : Mat) (version k : ℕ) : List Move := [
  .request i k,
  .arrive (segmentInterest (name ++ [.version version]) k) frame (version + 1),
  .segment i k (Worker.packetOf max (name ++ [.version version]) frame.data k)]

/-- A fetch from the first Interest to the last segment. -/
def fetchMoves (max i : ℕ) (name : Name) (frame : Mat) (version : ℕ) : List Move :=
  firstMoves max i name frame version ++
    (List.range (Worker.segmentCount max frame.data - 1)).flatMap fun k =>
      segmentMoves max i name frame version (k + 1)

/-- The worker has taken a picture, and fetch `i` has the first `n` segments of it. -/
structure Fetching (max i : ℕ) (name : Name) (bytes : Str) (version : ℕ) (q : Cloud) (n : ℕ)
    (q' : Cloud) : Prop where
  serves : ∃ w, q'.worker = some w ∧ w.Serves max (name ++ [.version version]) bytes
  fetcher : ∃ fetcher, q'.fetchers i = some fetcher ∧
    fetcher.version = some (name ++ [.version version]) ∧
    ∀ k, fetcher.received k =
      if k < n then some (Worker.packetOf max (name ++ [.version version]) bytes k) else none
  others : ∀ j ≠ i, q'.fetchers j = q.fetchers j
  captures : q'.captures = q.captures ++ [⟨name ++ [.version version], version, bytes⟩]

section

variable {lib : Externals} {max i n version : ℕ} {name : Name} {frame : Mat} {q q' : Cloud}

theorem setFetcher_fetchers (q : Cloud) (i j : ℕ) (fetcher : Fetcher) :
    (q.setFetcher i fetcher).fetchers j = if j = i then some fetcher else q.fetchers j := rfl

/-- An Interest that was sent reaches a worker that answers it. -/
theorem step_arrive {w w' : Worker} {interest : Interest} {packets : List Packet}
    (hsent : interest ∈ q.sent) (hfresh : ∀ c ∈ q.captures, c.version ≠ version)
    (hw : q.worker = some w)
    (hok : w.onInterest lib interest [] frame version = .ok (w', packets)) :
    q.step lib (.arrive interest frame version) = some { q with
      worker := some w'
      put := q.put ++ dataOf packets
      captures := q.captured interest frame version } := by
  simp only [step]
  rw [if_pos ⟨hsent, hfresh⟩, hw]
  simp only [hok]

/-- The first packet tells a fetch its version. -/
theorem step_first (fetcher : Fetcher) {packet : Data} {versioned : Name} {k : ℕ}
    (hfetcher : q.fetchers i = some fetcher) (hput : packet ∈ q.put)
    (hnone : fetcher.version = none) (hsatisfied : fetcher.discovery.SatisfiedBy packet.name)
    (hname : packet.name = versioned ++ [.segment k]) :
    q.step lib (.first i packet) = some (q.setFetcher i { fetcher with
      version := some versioned
      received := fun j => if j = k then some packet else none }) := by
  simp only [step, hfetcher]
  rw [if_pos ⟨hput, hnone, hsatisfied⟩, hname]
  simp only [List.getLast?_concat, List.dropLast_concat]

/-- **A fetch begins**: the worker takes the picture and answers with its first packet. -/
theorem fetching_first (i : ℕ) (frame : Mat) (hroot : lib.UriRooted)
    (hreshape : lib.ReshapeDocumented) (hmatch : lib.MatchDocumented) (hname : Unversioned name)
    (hframe : frame.Flattens) {w : Worker} (hw : q.worker = some w)
    (hmax : w.options.maxSegmentSize = max) (hnone : q.fetchers i = none)
    (hnew : ∀ c ∈ q.captures, c.version < version) :
    ∃ q', Runs.exec (step lib) q (firstMoves max i name frame version) = some q' ∧
      Fetching max i name frame.data version q 1 q' := by
  obtain ⟨packet, hpacket⟩ : ∃ packet,
      packet = Worker.packetOf max (name ++ [.version version]) frame.data 0 := ⟨_, rfl⟩
  obtain ⟨w', hok, hserves⟩ : ∃ w',
      w.onInterest lib (firstInterest name) [] frame version = .ok (w', [.data packet]) ∧
        w'.Serves max (name ++ [.version version]) frame.data := by
    rw [hpacket, ← hmax]
    exact Worker.receive_discovery hroot hreshape hmatch w
      (a := { interest := firstInterest name, frame := frame, version := version }) rfl hname rfl
      hframe
  -- the first Interest is sent
  obtain ⟨q₁, hq₁⟩ : ∃ q₁ : Cloud, q₁ = { q with sent := q.sent ++ [firstInterest name] }.setFetcher
      i { discovery := firstInterest name } := ⟨_, rfl⟩
  have hdiscover : q.step lib (.discover i name) = some q₁ := by
    rw [hq₁]
    exact if_pos ⟨hname, by rw [hnone]; rfl⟩
  -- it has the picture taken
  obtain ⟨q₂, hq₂⟩ : ∃ q₂ : Cloud, q₂ = { q₁ with
      worker := some w'
      put := q₁.put ++ [packet]
      captures := q₁.captured (firstInterest name) frame version } := ⟨_, rfl⟩
  have harrive : q₁.step lib (.arrive (firstInterest name) frame version) = some q₂ := by
    rw [hq₂]
    refine step_arrive ?_ ?_ (w := w) ?_ hok
    · rw [hq₁]
      exact List.mem_append_right _ (List.mem_singleton_self _)
    · rw [hq₁]
      exact fun c hc => (hnew c hc).ne
    · rw [hq₁]
      exact hw
  -- and its packet tells the version
  obtain ⟨fetcher, hfetcher⟩ : ∃ fetcher : Fetcher, fetcher = {
      discovery := firstInterest name
      version := some (name ++ [.version version])
      received := fun j => if j = 0 then some packet else none } := ⟨_, rfl⟩
  have hfirst : q₂.step lib (.first i packet) = some (q₂.setFetcher i fetcher) := by
    rw [hfetcher]
    refine step_first { discovery := firstInterest name } ?_ ?_ rfl ?_ ?_
    · rw [hq₂, hq₁]
      exact if_pos rfl
    · rw [hq₂]
      exact List.mem_append_right _ (List.mem_singleton_self _)
    · rw [hpacket]
      exact Worker.satisfiedBy_of_prefix rfl (List.prefix_append _ _) 0
    · rw [hpacket]
      rfl
  have hrun : Runs.exec (step lib) q (firstMoves max i name frame version) =
      some (q₂.setFetcher i fetcher) := by
    rw [firstMoves, ← hpacket, Runs.exec_cons, hdiscover, Option.bind_some, Runs.exec_cons, harrive,
      Option.bind_some, Runs.exec_cons, hfirst]
    rfl
  refine ⟨_, hrun, ⟨w', by rw [hq₂]; rfl, hserves⟩, ⟨fetcher, if_pos rfl, by rw [hfetcher],
    fun k => ?_⟩, fun j hj => ?_, ?_⟩
  · rw [hfetcher, hpacket]
    simp only [Nat.lt_one_iff]
    split
    · rename_i hk
      rw [hk]
    · rfl
  · rw [setFetcher_fetchers, if_neg hj, hq₂, hq₁]
    exact if_neg hj
  · rw [hq₂, hq₁]
    exact if_pos hname

/-- **One more segment comes in.** -/
theorem fetching_segment (hroot : lib.UriRooted) {q' : Cloud}
    (h : Fetching max i name frame.data version q n q')
    (hn : n < Worker.segmentCount max frame.data) (hnew : ∀ c ∈ q.captures, c.version < version) :
    ∃ q'', Runs.exec (step lib) q' (segmentMoves max i name frame version n) = some q'' ∧
      Fetching max i name frame.data version q (n + 1) q'' := by
  obtain ⟨w, hw, hserves⟩ := h.serves
  obtain ⟨fetcher, hfetcher, hversion, hreceived⟩ := h.fetcher
  obtain ⟨versioned, hversioned⟩ : ∃ versioned, versioned = name ++ [.version version] := ⟨_, rfl⟩
  obtain ⟨packet, hpacket⟩ : ∃ packet, packet = Worker.packetOf max versioned frame.data n :=
    ⟨_, rfl⟩
  rw [← hversioned] at hserves hversion hreceived
  obtain ⟨w', hok, hserves'⟩ : ∃ w', w.onInterest lib (segmentInterest versioned n) [] frame
      (version + 1) = .ok (w', [.data packet]) ∧ w'.Serves max versioned frame.data := by
    rw [hpacket]
    exact hserves.segment hroot hn (a := {
      interest := segmentInterest versioned n, frame := frame, version := version + 1 }) rfl rfl
  -- it is asked for
  obtain ⟨q₁, hq₁⟩ : ∃ q₁ : Cloud, q₁ = { q' with
      sent := q'.sent ++ [segmentInterest versioned n] } := ⟨_, rfl⟩
  have hrequest : q'.step lib (.request i n) = some q₁ := by
    simp only [step, hfetcher, Option.bind_some, hversion]
    rw [hq₁]
  -- the worker answers
  obtain ⟨q₂, hq₂⟩ : ∃ q₂ : Cloud, q₂ = { q₁ with
      worker := some w'
      put := q₁.put ++ [packet]
      captures := q₁.captured (segmentInterest versioned n) frame (version + 1) } := ⟨_, rfl⟩
  have harrive : q₁.step lib (.arrive (segmentInterest versioned n) frame (version + 1)) =
      some q₂ := by
    rw [hq₂]
    refine step_arrive ?_ (fun c hc => ?_) (w := w) ?_ hok
    · rw [hq₁]
      exact List.mem_append_right _ (List.mem_singleton_self _)
    · rw [hq₁, h.captures] at hc
      rcases List.mem_append.1 hc with hc | hc
      · exact (Nat.lt_succ_of_lt (hnew c hc)).ne
      · rw [List.mem_singleton.1 hc]
        exact (Nat.lt_succ_self version).ne
    · rw [hq₁]
      exact hw
  have hcaptures : q₂.captures = q'.captures := by
    rw [hq₂, hq₁]
    refine if_neg ?_
    rintro ⟨c, hc⟩
    rw [segmentInterest, List.getLast?_concat] at hc
    exact absurd (Option.some.inj hc) (by simp)
  -- and the segment is accepted
  obtain ⟨fetcher', hfetcher'⟩ : ∃ fetcher' : Fetcher, fetcher' = { fetcher with
      received := fun j => if j = n then (fetcher.received n).or (some packet)
        else fetcher.received j } := ⟨_, rfl⟩
  have hsegment : q₂.step lib (.segment i n packet) = some (q₂.setFetcher i fetcher') := by
    have hi : q₂.fetchers i = some fetcher := by
      rw [hq₂, hq₁]
      exact hfetcher
    have hput : packet ∈ q₂.put := by
      rw [hq₂]
      exact List.mem_append_right _ (List.mem_singleton_self _)
    have hsent : segmentInterest versioned n ∈ q₂.sent := by
      rw [hq₂, hq₁]
      exact List.mem_append_right _ (List.mem_singleton_self _)
    have hsatisfied : (segmentInterest versioned n).SatisfiedBy packet.name := by
      rw [hpacket]
      rfl
    simp only [step, hi, hversion]
    rw [if_pos ⟨hput, hsent, hsatisfied⟩, hfetcher', hversion]
  have hrun : Runs.exec (step lib) q' (segmentMoves max i name frame version n) =
      some (q₂.setFetcher i fetcher') := by
    rw [segmentMoves, ← hversioned, ← hpacket, Runs.exec_cons, hrequest, Option.bind_some,
      Runs.exec_cons, harrive, Option.bind_some, Runs.exec_cons, hsegment]
    rfl
  refine ⟨_, hrun, ⟨w', by rw [hq₂]; rfl, hversioned ▸ hserves'⟩, ⟨fetcher', if_pos rfl, ?_,
    fun k => ?_⟩, fun j hj => ?_, ?_⟩
  · rw [hfetcher', ← hversioned]
    exact hversion
  · rw [hfetcher', ← hversioned]
    by_cases hk : k = n
    · rw [hk, if_pos (Nat.lt_succ_self n), ← hpacket]
      simp only [if_pos, hreceived, Nat.lt_irrefl, if_false, Option.none_or]
    · simp only [if_neg hk, hreceived]
      exact if_congr (by omega) rfl rfl
  · rw [setFetcher_fetchers, if_neg hj, hq₂, hq₁]
    exact h.others j hj
  · exact hcaptures.trans h.captures

/-- **At a worker that is running a fetch gets the picture that is taken for it**, segment by
segment. -/
theorem fetching_all (i : ℕ) (frame : Mat) (hroot : lib.UriRooted)
    (hreshape : lib.ReshapeDocumented) (hmatch : lib.MatchDocumented) (hname : Unversioned name)
    (hframe : frame.Flattens) {w : Worker} (hw : q.worker = some w)
    (hmax : w.options.maxSegmentSize = max) (hnone : q.fetchers i = none)
    (hnew : ∀ c ∈ q.captures, c.version < version) :
    ∃ q', Runs.exec (step lib) q (fetchMoves max i name frame version) = some q' ∧
      Fetching max i name frame.data version q (Worker.segmentCount max frame.data) q' := by
  obtain ⟨q₁, hq₁, hfirst⟩ :=
    fetching_first i frame hroot hreshape hmatch hname hframe hw hmax hnone hnew
  have hpos : 0 < Worker.segmentCount max frame.data :=
    Worker.segmentCount_pos (hmax ▸ w.options.maxSegmentSize_pos) frame.data
  have hall : ∀ m ≤ Worker.segmentCount max frame.data - 1, ∃ q', Runs.exec (step lib) q₁
      ((List.range m).flatMap fun k => segmentMoves max i name frame version (k + 1)) = some q' ∧
        Fetching max i name frame.data version q (m + 1) q' := by
    intro m
    induction m with
    | zero => exact fun _ => ⟨q₁, rfl, hfirst⟩
    | succ m ih =>
      intro hm
      obtain ⟨q', hq', hfetching⟩ := ih (by omega)
      obtain ⟨q'', hq'', hnext⟩ := fetching_segment hroot hfetching (by omega) hnew
      refine ⟨q'', ?_, hnext⟩
      rw [List.range_succ, List.flatMap_append, List.flatMap_singleton, Runs.exec_append, hq']
      exact hq''
  obtain ⟨q', hq', hfetching⟩ := hall _ (Nat.le_refl _)
  refine ⟨q', ?_, ?_⟩
  · rw [fetchMoves, Runs.exec_append, hq₁]
    exact hq'
  · rwa [Nat.sub_add_cancel hpos] at hfetching

/-- A fetch that has all the segments is complete, and has the bytes of the picture. -/
theorem Fetching.complete (hmax : 0 < max)
    (h : Fetching max i name frame.data version q (Worker.segmentCount max frame.data) q') :
    ∃ fetcher, q'.fetchers i = some fetcher ∧
      fetcher.Complete (Worker.segmentCount max frame.data - 1) 0 ∧
      fetcher.bytes (Worker.segmentCount max frame.data - 1) = frame.data := by
  obtain ⟨fetcher, hfetcher, -, hreceived⟩ := h.fetcher
  have hpos := Worker.segmentCount_pos hmax frame.data
  refine ⟨fetcher, hfetcher, ⟨?_, fun k hk => ?_⟩, ?_⟩
  · rw [hreceived, if_pos hpos]
    rfl
  · rw [hreceived, if_pos (by omega)]
    rfl
  · rw [Fetcher.bytes, Nat.sub_add_cancel hpos]
    refine Eq.trans (List.flatMap_congr fun k hk => ?_)
      (Worker.flatMap_storedPacket hmax (name ++ [.version version]) frame.data)
    rw [hreceived, if_pos (List.mem_range.1 hk)]
    rfl

/-- Only the fetch itself begins. -/
theorem discover_mem {max j : ℕ} {name' : Name}
    (h : .discover j name' ∈ fetchMoves max i name frame version) : j = i ∧ name' = name := by
  simpa [fetchMoves, firstMoves, segmentMoves] using h

theorem consistent_exec {options : Options} (hreshape : lib.ReshapeDocumented)
    (h : Consistent options q) {moves : List Move}
    (hrun : Runs.exec (step lib) q moves = some q') : Consistent options q' :=
  Runs.history (P := fun _ (q : Cloud) => Consistent options q) h
    (fun _ _ _ _ _ ih hstep => consistent_step hreshape ih hstep) moves q' hrun

end

end Cloud

/-! ## A request -/

namespace Studio

/-- What is relied on of the libraries. -/
structure Documented (D : Studio) : Prop where
  uri : D.lib.UriDocumented
  rooted : D.lib.UriRooted
  json : D.lib.JsonDocumented
  cast : D.lib.CastDocumented
  reshape : D.lib.ReshapeDocumented
  matchesData : D.lib.MatchDocumented

/-- A picture that is taken for a location, with the version it gets. -/
structure Shot where
  /-- The place of the location in the request. -/
  position : ℕ
  frame : Mat
  version : ℕ

/-- A request that the edge takes, with a worker at each of its locations. -/
structure Request (D : Studio) where
  interest : Interest
  /-- The version of the answer and the id of its session. -/
  version : ℕ
  session : UInt64
  /-- The locations it asks, and the target that is told of. -/
  locations : List Str
  target : Str
  /-- The worker at a location. -/
  place : Str → ℕ
  accepted : Accepted (D.textOf interest)
  asks : locationsOf (D.textOf interest) = locations
  about : ∃ targets, targetsOf (D.textOf interest) = target :: targets
  legible : ∀ l ∈ locations,
    Legible l (functionPart (D.textOf interest)) (targetPart (D.textOf interest))
  placed : ∀ l ∈ locations, D.cdString (place l) = Producer.locationPath l

/-- What happens to one worker and the fetches from it happens to the whole. -/
theorem exec_cloud {D : Studio} {k : ℕ} {moves : List Move} {x : Premises} {q : Cloud}
    (hrouted : ∀ move ∈ moves, D.Routed x k move)
    (hrun : Runs.exec (Cloud.step D.lib) (x.clouds k) moves = some q) :
    Runs.exec D.step x (moves.map (.cloud k)) =
      some { x with clouds := Function.update x.clouds k q } := by
  induction moves generalizing x with
  | nil =>
    rw [← Option.some.inj hrun, Function.update_eq_self]
    rfl
  | cons move moves ih =>
    rw [Runs.exec_cons, Option.bind_eq_some_iff] at hrun
    obtain ⟨q₁, hq₁, hrun⟩ := hrun
    obtain ⟨x₁, hx₁⟩ : ∃ x₁ : Premises,
      x₁ = { x with clouds := Function.update x.clouds k q₁ } := ⟨_, rfl⟩
    have hstep : D.step x (.cloud k move) = some x₁ := by
      simp only [step]
      rw [if_pos (hrouted move List.mem_cons_self), hq₁, hx₁]
      rfl
    have hself : x₁.clouds k = q₁ := by
      rw [hx₁]
      exact Function.update_self k q₁ x.clouds
    have hrouted₁ : ∀ move ∈ moves, D.Routed x₁ k move := by
      intro move hmem
      have hsame : D.Routed x₁ k move ↔ D.Routed x k move := by
        rw [hx₁]
        cases move <;> exact Iff.rfl
      exact hsame.2 (hrouted move (List.mem_cons_of_mem _ hmem))
    rw [← hself] at hrun
    rw [List.map_cons, Runs.exec_cons, hstep, Option.bind_some, ih hrouted₁ hrun, hx₁]
    simp only [Function.update_idem]

namespace Request

variable {D : Studio} (R : D.Request)

/-- The location of a picture. -/
def location (shot : Shot) : Str := R.locations.getD shot.position []

/-- The name of the picture of a location. -/
def pictureName (l : Str) : Name :=
  pictureNameFor D.lib l (functionPart (D.textOf R.interest)) (targetPart (D.textOf R.interest))
    R.session

/-- The fetch that the edge begins for a location. -/
def fetch (l : Str) : Interest × Executor :=
  (Producer.reInterest D.lib (nameFor l (functionPart (D.textOf R.interest))
      (targetPart (D.textOf R.interest))) R.session,
    executorFor D.lib R.session (functionPart (D.textOf R.interest))
      (targetPart (D.textOf R.interest)) R.target l)

/-- The size of the segments at the worker of a picture. -/
def segmentSize (shot : Shot) : ℕ := (D.options (R.place (R.location shot))).maxSegmentSize

/-- A picture is fetched and judged; the fetches of the request are numbered from `base`. -/
def events (base : ℕ) (shot : Shot) : List Scene :=
  (Cloud.fetchMoves (R.segmentSize shot) (base + shot.position) (R.pictureName (R.location shot))
    shot.frame shot.version).map (.cloud (R.place (R.location shot))) ++
    [.complete (R.place (R.location shot)) (base + shot.position)
      (Worker.segmentCount (R.segmentSize shot) shot.frame.data - 1) 0]

/-- The edge is asked, and fetches these pictures. -/
def history (base : ℕ) (shots : List Shot) : List Scene :=
  .interest R.interest R.version R.session :: shots.flatMap (R.events base)

/-- The verdict on a picture. -/
def text (shot : Shot) : Str :=
  encode D.lib (replyFor (R.location shot) R.target (decimal R.session.toNat) (D.detect shot.frame))

/-- The answer with the verdicts on these pictures. -/
def answer (shots : List Shot) : Data :=
  (packetFor R.interest R.version).setContent (collected (shots.map R.text))

/-- One picture for each location, with pixels and of the shape the edge assumes, each newer than
the one before. -/
structure Proper (shots : List Shot) : Prop where
  every : (shots.map Shot.position).Perm (List.range R.locations.length)
  pixels : ∀ shot ∈ shots, shot.frame.data ≠ []
  rows : ∀ shot ∈ shots, shot.frame.rows = 480
  channels : ∀ shot ∈ shots, shot.frame.channels = 3
  newer : (shots.map Shot.version).Pairwise (· < ·)

/-- The session id is not in use, the workers of the locations are running, and no picture is newer
than these. -/
structure Ready (shots : List Shot) (x : Premises) : Prop where
  unused : x.edge.sessions.get R.session = none
  running : ∀ l ∈ R.locations, (x.clouds (R.place l)).worker.isSome = true
  newer : ∀ k, ∀ c ∈ (x.clouds k).captures, ∀ shot ∈ shots, c.version < shot.version

/-- These pictures of the request have been fetched and judged. -/
structure Serving (x : Premises) (shots : List Shot) (x' : Premises) : Prop where
  edge : if shots.length < R.locations.length then
      Producer.Gathering R.session (packetFor R.interest R.version) R.locations.length x.edge
        (shots.map R.text) x'.edge
    else Producer.Gathered R.session (packetFor R.interest R.version) x.edge (shots.map R.text)
      x'.edge
  fetches : x'.edge.face.fetches = x.edge.face.fetches ++ R.locations.map R.fetch
  unfetched : ∀ j, j ∉ shots.map Shot.position →
    (∀ k, (x'.clouds k).fetchers (x.edge.face.fetches.length + j) = none) ∧
      x.edge.face.fetches.length + j ∉ x'.completed
  consistent : ∀ k, Consistent (D.options k) (x'.clouds k)
  running : ∀ k, (x.clouds k).worker.isSome = true → (x'.clouds k).worker.isSome = true
  captures : ∀ k, ∀ c ∈ (x'.clouds k).captures,
    c ∈ (x.clouds k).captures ∨ ∃ shot ∈ shots, c.version = shot.version

variable {R}

section

variable {es : List Scene} {x x' : Premises} {shots : List Shot}

theorem fields {l : Str} (hl : l ∈ R.locations) :
    SubFields l (functionPart (D.textOf R.interest)) (targetPart (D.textOf R.interest)) := by
  apply subFields_of_mem
  rwa [R.asks]

/-- The name of a picture begins with the name of the worker of its location. -/
theorem reached (hlib : D.lib.UriDocumented) {l : Str} (hl : l ∈ R.locations) :
    D.lib.ofUri (D.cdString (R.place l)) <+: R.pictureName l := by
  rw [R.placed l hl]
  exact locationPath_prefix hlib (fields hl) (R.legible l hl)

theorem unversioned (hlib : D.lib.UriDocumented) {l : Str} (hl : l ∈ R.locations) :
    Unversioned (R.pictureName l) := by
  rw [pictureName, pictureNameFor_eq hlib (R.legible l hl) (fields hl)]
  exact ⟨_, by rw [List.getLast?_append]; rfl⟩

/-- **The request opens its session, and a fetch begins for each location.** -/
theorem serving_request (h : D.Sound es x) (hunused : x.edge.sessions.get R.session = none) :
    ∃ x', D.step x (.interest R.interest R.version R.session) = some x' ∧
      R.Serving x [] x' := by
  obtain ⟨targets, htargets⟩ := R.about
  obtain ⟨p, hp, hledger, hfetches⟩ := Producer.onInterestCloud_eq x.edge R.version R.session
    (show Producer.decodeURI (D.lib.toUri R.interest.name) = D.textOf R.interest from rfl)
    R.accepted htargets
  rw [R.asks] at hledger hfetches
  have hstep : x.edge.step D.lib (.interest R.interest R.version R.session) = some p := by
    rw [Producer.step, Producer.handleInterest, if_pos h.edgeMode, Option.bind_some, hp]
    rfl
  have hsessions : p.sessions = x.edge.sessions.add R.session (packetFor R.interest R.version) :=
    congrArg Ledger.sessions hledger
  have hroom : ([] : List Shot).length < R.locations.length := by
    rw [← R.asks]
    exact List.length_pos_iff.2 (List.splitOn_ne_nil _ _)
  have hscene : D.step x (.interest R.interest R.version R.session) =
      some { x with edge := p } := by
    change (x.edge.step D.lib _).map _ = _
    rw [hstep]
    rfl
  refine ⟨_, hscene, ?_, hfetches, fun j _ => ⟨fun k => ?_, fun hj => ?_⟩, h.consistent,
    fun _ hw => hw, fun _ _ hc => Or.inl hc⟩
  · rw [if_pos hroom]
    refine ⟨congrArg Ledger.puts hledger, congrArg Ledger.numberOfArrivalInterest hledger,
      congrArg Ledger.issuedInterest hledger, ?_, fun s hs => ?_⟩
    · rw [hsessions, SessionManager.add_get, if_pos rfl, hunused]
      rfl
    · rw [hsessions, SessionManager.add_get, if_neg hs]
  · -- no fetch had that number
    refine Option.eq_none_iff_forall_ne_some.2 fun fetcher hf => ?_
    obtain ⟨fetch, hfetch, -⟩ := h.fetchers k _ fetcher hf
    have hlt := (List.getElem?_eq_some_iff.1 hfetch).1
    omega
  · have hlt := h.completed _ hj
    omega

/-- **One more picture is fetched and judged, or the last one answers the request.** -/
theorem Serving.shoot (hD : D.Documented) (h : R.Serving x shots x') {shot : Shot}
    (hposition : shot.position < R.locations.length)
    (hnew : shot.position ∉ shots.map Shot.position)
    (hroom : shots.length < R.locations.length)
    (hrunning : (x.clouds (R.place (R.location shot))).worker.isSome = true)
    (hpixels : shot.frame.data ≠ []) (hrows : shot.frame.rows = 480)
    (hchannels : shot.frame.channels = 3)
    (hnewer : ∀ c ∈ (x'.clouds (R.place (R.location shot))).captures, c.version < shot.version) :
    ∃ x'', Runs.exec D.step x' (R.events x.edge.face.fetches.length shot) = some x'' ∧
      R.Serving x (shots ++ [shot]) x'' := by
  obtain ⟨l, hl⟩ : ∃ l, l = R.location shot := ⟨_, rfl⟩
  obtain ⟨i, hi⟩ : ∃ i, i = x.edge.face.fetches.length + shot.position := ⟨_, rfl⟩
  obtain ⟨k, hk⟩ : ∃ k, k = R.place l := ⟨_, rfl⟩
  have hlocation : R.locations[shot.position]? = some l := by
    rw [hl, location, List.getD_eq_getElem _ _ hposition]
    exact List.getElem?_eq_getElem hposition
  have hmem : l ∈ R.locations := List.mem_of_getElem? hlocation
  have hfetch : x'.edge.face.fetches[i]? = some (R.fetch l) := by
    rw [h.fetches, hi, List.getElem?_append_right (Nat.le_add_right _ _), Nat.add_sub_cancel_left,
      List.getElem?_map, hlocation]
    rfl
  obtain ⟨hnone, hcompleted⟩ := h.unfetched shot.position hnew
  rw [← hi] at hcompleted
  -- the picture is fetched
  obtain ⟨w, hw⟩ := Option.isSome_iff_exists.1 (h.running k (hk ▸ hl ▸ hrunning))
  have hmax : w.options.maxSegmentSize = R.segmentSize shot := by
    rw [((h.consistent k).store w hw).options_eq, segmentSize, ← hl, ← hk]
  obtain ⟨q, hq, hfetching⟩ := Cloud.fetching_all i shot.frame hD.rooted hD.reshape hD.matchesData
    (unversioned hD.uri hmem) (Or.inl hpixels) hw hmax (hi ▸ hnone k) (hk ▸ hl ▸ hnewer)
  obtain ⟨x₁, hx₁⟩ : ∃ x₁ : Premises,
    x₁ = { x' with clouds := Function.update x'.clouds k q } := ⟨_, rfl⟩
  have hself : x₁.clouds k = q := by
    rw [hx₁]
    exact Function.update_self k q x'.clouds
  have hother : ∀ k' ≠ k, x₁.clouds k' = x'.clouds k' := by
    intro k' hk'
    rw [hx₁]
    exact Function.update_of_ne hk' q x'.clouds
  have hrouted : ∀ move ∈ Cloud.fetchMoves (R.segmentSize shot) i (R.pictureName l) shot.frame
      shot.version, D.Routed x' k move := by
    intro move hmove
    cases move with
    | discover j name =>
      obtain ⟨rfl, rfl⟩ := Cloud.discover_mem hmove
      refine ⟨?_, hk ▸ reached hD.uri hmem⟩
      rw [hfetch]
      rfl
    | _ => trivial
  have hfetched := exec_cloud hrouted hq
  rw [← hx₁] at hfetched
  -- the executor judges it
  have hoptions : 0 < R.segmentSize shot := (D.options _).maxSegmentSize_pos
  obtain ⟨fetcher, hfetcher, hcomplete, hbytes⟩ := hfetching.complete hoptions
  have htext : (R.fetch l).2.afterFetchComplete D.lib D.detect shot.frame.data =
      .ok (R.text shot) := by
    rw [Executor.afterFetchComplete_eq,
      Executor.rebuild_of_shape hD.reshape hpixels hrows hchannels, text, ← hl]
    rfl
  -- and the edge gathers the verdict
  have hgathering := h.edge
  rw [if_pos hroom] at hgathering
  obtain ⟨p, hp, -, hfetches, hnext⟩ := hgathering.collect
    (Producer.sessionIdOf_encode hD.json hD.cast rfl :
      Producer.sessionIdOf D.lib (R.text shot) = .ok (some R.session))
  rw [List.length_map] at hnext
  have hjudged : D.step x₁ (.complete k i
      (Worker.segmentCount (R.segmentSize shot) shot.frame.data - 1) 0) =
        some { x₁ with edge := p, completed := i :: x₁.completed } := by
    have hi₁ : (x₁.clouds k).fetchers i = some fetcher := hself ▸ hfetcher
    have hfetch₁ : x₁.edge.face.fetches[i]? = some (R.fetch l) := by
      rw [hx₁]
      exact hfetch
    have hcompleted₁ : i ∉ x₁.completed := by
      rw [hx₁]
      exact hcompleted
    have hp₁ : x₁.edge.step D.lib (.result (R.text shot)) = some p := by
      rw [hx₁]
      exact congrArg Except.toOption hp
    simp only [step, hi₁, hfetch₁]
    rw [if_pos ⟨hcompleted₁, hcomplete⟩, hbytes]
    simp only [htext, hp₁]
    rfl
  have hrun : Runs.exec D.step x' (R.events x.edge.face.fetches.length shot) =
      some { x₁ with edge := p, completed := i :: x₁.completed } := by
    rw [events, ← hl, ← hk, ← hi]
    exact Runs.exec_concat.2 ⟨x₁, hfetched, hjudged⟩
  have hlength : (shots ++ [shot]).length = shots.length + 1 := List.length_append
  refine ⟨_, hrun, ?_, ?_, fun j hj => ?_, fun k' => ?_, fun k' hw' => ?_, fun k' c hc => ?_⟩
  · rw [hlength, List.map_append, List.map_singleton]
    by_cases hlast : shots.length + 1 = R.locations.length
    · rw [if_pos hlast] at hnext
      rw [if_neg (by omega)]
      exact hnext
    · rw [if_neg hlast] at hnext
      rw [if_pos (by omega)]
      exact hnext
  · exact hfetches.trans h.fetches
  · rw [List.map_append, List.map_singleton, List.mem_append, List.mem_singleton] at hj
    obtain ⟨hnone', hcompleted'⟩ := h.unfetched j fun hmem => hj (Or.inl hmem)
    have hne : x.edge.face.fetches.length + j ≠ i := by
      rw [hi]
      exact fun heq => hj (Or.inr (Nat.add_left_cancel heq))
    refine ⟨fun k' => ?_, fun hmem => ?_⟩
    · by_cases hk' : k' = k
      · rw [hk']
        change (x₁.clouds k).fetchers _ = none
        rw [hself, hfetching.others _ hne]
        exact hnone' k
      · exact (congrArg (fun c : Cloud => c.fetchers _) (hother k' hk')).trans (hnone' k')
    · rcases List.mem_cons.1 hmem with hmem | hmem
      · exact hne hmem
      · rw [hx₁] at hmem
        exact hcompleted' hmem
  · by_cases hk' : k' = k
    · rw [hk']
      change Consistent _ (x₁.clouds k)
      rw [hself]
      exact Cloud.consistent_exec hD.reshape (h.consistent k) hq
    · change Consistent _ (x₁.clouds k')
      rw [hother k' hk']
      exact h.consistent k'
  · by_cases hk' : k' = k
    · obtain ⟨w', hserving, -⟩ := hfetching.serves
      rw [hk']
      change (x₁.clouds k).worker.isSome = true
      rw [hself, hserving]
      rfl
    · change (x₁.clouds k').worker.isSome = true
      rw [hother k' hk']
      exact h.running k' hw'
  · have hold : c ∈ (x'.clouds k').captures → c ∈ (x.clouds k').captures ∨
        ∃ shot' ∈ shots ++ [shot], c.version = shot'.version := by
      intro hc
      rcases h.captures k' c hc with hc | ⟨shot', hmem', hversion⟩
      · exact Or.inl hc
      · exact Or.inr ⟨shot', List.mem_append_left _ hmem', hversion⟩
    change c ∈ (x₁.clouds k').captures at hc
    by_cases hk' : k' = k
    · rw [hk', hself, hfetching.captures] at hc
      rcases List.mem_append.1 hc with hc | hc
      · exact hold (hk' ▸ hc)
      · refine Or.inr ⟨shot, List.mem_append_right _ (List.mem_singleton_self _), ?_⟩
        rw [List.mem_singleton.1 hc]
    · rw [hother k' hk'] at hc
      exact hold hc

/-- **The pictures are fetched and judged one after another**, in the order they are given. -/
theorem Serving.run (hD : D.Documented) (hshots : R.Proper shots) (hready : R.Ready shots x)
    (h : R.Serving x [] x') :
    ∃ x'', Runs.exec D.step x' (shots.flatMap (R.events x.edge.face.fetches.length)) = some x'' ∧
      R.Serving x shots x'' := by
  have hall : ∀ pre post, shots = pre ++ post → ∃ x'',
      Runs.exec D.step x' (pre.flatMap (R.events x.edge.face.fetches.length)) = some x'' ∧
        R.Serving x pre x'' := by
    intro pre
    induction pre using List.reverseRecOn with
    | nil => exact fun _ _ => ⟨x', rfl, h⟩
    | append_singleton pre shot ih =>
      intro post hpost
      rw [List.append_assoc, List.singleton_append] at hpost
      obtain ⟨m, hm, hserving⟩ := ih (shot :: post) hpost
      have hmem : shot ∈ shots := by simp [hpost]
      have hposition : shot.position < R.locations.length :=
        List.mem_range.1 (hshots.every.subset (List.mem_map_of_mem hmem))
      have hnodup : (shots.map Shot.position).Nodup :=
        hshots.every.nodup_iff.2 List.nodup_range
      have hcount : shots.length = R.locations.length := by
        simpa using hshots.every.length_eq
      have hnewer := hshots.newer
      rw [hpost, List.map_append, List.map_cons] at hnodup hnewer
      have hnew : shot.position ∉ pre.map Shot.position := fun hold =>
        (List.disjoint_of_nodup_append hnodup) hold List.mem_cons_self
      have hroom : pre.length < R.locations.length := by
        rw [← hcount, hpost, List.length_append, List.length_cons]
        omega
      have hlocation : R.location shot ∈ R.locations := by
        rw [location, List.getD_eq_getElem _ _ hposition]
        exact List.getElem_mem hposition
      obtain ⟨x'', hx'', hnext⟩ := hserving.shoot hD hposition hnew hroom
        (hready.running _ hlocation) (hshots.pixels shot hmem) (hshots.rows shot hmem)
        (hshots.channels shot hmem)
        (fun c hc => by
          rcases hserving.captures _ c hc with hc | ⟨shot', hmem', hversion⟩
          · exact hready.newer _ c hc shot hmem
          · rw [hversion]
            exact (List.pairwise_append.1 hnewer).2.2 _ (List.mem_map_of_mem hmem') _
              List.mem_cons_self)
      refine ⟨x'', ?_, hnext⟩
      rw [List.flatMap_append, List.flatMap_singleton, Runs.exec_append, hm]
      exact hx''
  exact hall shots [] (List.append_nil shots).symm

end

end Request

variable {D : Studio}

/-- **Every request can be answered with the verdicts on its pictures.**  Whatever has happened
before, and whichever fetches have been given up: if the session id is not in use and the workers
at the locations are running, the pictures can be fetched in any order, and the edge puts one Data
packet with the verdict of its detector on each of them; then the session is forgotten, the others
are as they were, and the workers are still running. -/
theorem request_served (hD : D.Documented) {es : List Scene} {x : Premises}
    (hrun : Runs.exec D.step D.start es = some x) (hlocates : ∀ e ∈ es, D.Locates e)
    (R : D.Request) {shots : List Shot} (hshots : R.Proper shots) (hready : R.Ready shots x) :
    ∃ x', Runs.exec D.step D.start (es ++ R.history x.edge.face.fetches.length shots) = some x' ∧
      x'.edge.face.puts = x.edge.face.puts ++ [(R.session, R.answer shots)] ∧
      (∀ s, x'.edge.sessions.get s = x.edge.sessions.get s) ∧
      ∀ k, (x.clouds k).worker.isSome = true → (x'.clouds k).worker.isSome = true := by
  have hsound := sound_run hD.uri hD.json hD.cast hD.reshape hlocates hrun
  obtain ⟨x₁, hx₁, hserving⟩ := Request.serving_request hsound hready.unused
  obtain ⟨x', hx', hserved⟩ := hserving.run hD hshots hready
  have hcount : shots.length = R.locations.length := by
    simpa using hshots.every.length_eq
  have hgathered := hserved.edge
  rw [if_neg (by omega)] at hgathered
  refine ⟨x', ?_, hgathered.puts, fun s => ?_, hserved.running⟩
  · rw [Runs.exec_append, hrun, Option.bind_some, Request.history, Runs.exec_cons, hx₁]
    exact hx'
  · by_cases hs : s = R.session
    · rw [hs, hgathered.session, hready.unused]
    · exact hgathered.others s hs

/-! ## A fetch that was given up -/

/-- The picture of a person is asked for a second time. -/
def secondRequest : oneCamera.Request where
  interest := cameraRequest
  version := 2
  session := 8
  locations := [txt "3"]
  target := txt "person"
  place _ := 0
  accepted := by decide +kernel
  asks := by decide +kernel
  about := ⟨[], by decide +kernel⟩
  legible := by decide +kernel
  placed := by decide +kernel

/-- The picture that is taken. -/
def secondShot : Shot where
  position := 0
  frame := blackFrame 480 1 3
  version := 2

/-- The second request is answered, though the fetch for the first one never begins. -/
theorem request_served_secondRequest : ∃ x', Runs.exec oneCamera.step oneCamera.start
    (.interest cameraRequest 1 7 :: secondRequest.history 1 [secondShot]) = some x' ∧
      x'.edge.face.puts = [(8, secondRequest.answer [secondShot])] := by
  have hsome : (Runs.exec oneCamera.step oneCamera.start
      [.interest cameraRequest 1 7]).map (fun x => (x.edge.face.fetches.length,
        x.edge.face.puts.length, (x.edge.sessions.get 8).isNone)) = some (1, 0, true) := by
    decide +kernel
  obtain ⟨x, hx, heq⟩ := Option.map_eq_some_iff.1 hsome
  simp only [Prod.mk.injEq, Option.isNone_iff_eq_none, List.length_eq_zero_iff] at heq
  obtain ⟨hlength, hputs, hunused⟩ := heq
  have hclouds : x.clouds = oneCamera.start.clouds := by
    obtain ⟨x₁, hx₁, hnil⟩ := Option.bind_eq_some_iff.1 hx
    simp only [step] at hx₁
    obtain ⟨p, -, rfl⟩ := Option.map_eq_some_iff.1 hx₁
    rw [← Option.some.inj hnil]
  have hready : secondRequest.Ready [secondShot] x := by
    refine ⟨hunused, fun l _ => ?_, fun k c hc => ?_⟩
    · rw [hclouds]
      rfl
    · rw [hclouds] at hc
      exact absurd hc List.not_mem_nil
  have hproper : secondRequest.Proper [secondShot] :=
    ⟨.refl _, fun shot hshot => by
        rw [List.mem_singleton.1 hshot]
        exact blackFrame_data_ne_nil (by decide),
      fun shot hshot => by rw [List.mem_singleton.1 hshot]; rfl,
      fun shot hshot => by rw [List.mem_singleton.1 hshot]; rfl, List.pairwise_singleton _ _⟩
  have hlocates : ∀ e ∈ [Scene.interest cameraRequest 1 7], oneCamera.Locates e := by
    intro e he
    rw [List.mem_singleton.1 he]
    change ∀ l ∈ locationsOf (oneCamera.textOf cameraRequest), Legible l
      (functionPart (oneCamera.textOf cameraRequest)) (targetPart (oneCamera.textOf cameraRequest))
    decide +kernel
  obtain ⟨x', hx', hanswer, -⟩ := request_served
    ⟨reference_uri, reference_rooted, reference_json, reference_cast, reference_reshape,
      reference_match⟩ hx hlocates secondRequest hproper hready
  rw [hlength] at hx'
  refine ⟨x', hx', ?_⟩
  rw [hanswer, hputs]
  rfl

end Studio

end Crowdsensing
