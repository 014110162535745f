import Crowdsensing.Reference
import Crowdsensing.Worker.Answers

/-!
# Fetching a picture

In cloud mode the edge fetches a picture segment by segment: a first Interest with an
unversioned name, whose first Data tells the version, and then one Interest for each
segment of that version.  Any number of fetchers share one worker, and the network may
lose, repeat, delay and reorder what is sent.

* `Cloud`, `Cloud.step` — the worker, the fetchers and the packets under way as one
  machine; a Data packet reaches a fetcher only if its name satisfies the Interest.
* `Consistent` — **every packet ever put is a segment of the one picture its version
  was captured with**, kept by every step (`consistent_step`).
* `no_torn_frame` — a fetcher that has all the segments has that picture.
-/

namespace Crowdsensing

open Text

/-! ## The machine -/

/-- A picture the worker captured: under which prefix, with which version, and its
bytes. -/
structure Capture where
  versioned : Name
  version : ℕ
  bytes : Str
  deriving DecidableEq

/-- `SegmentFetcher`: its first Interest, the prefix of the version it learned, and the
segments it accepted. -/
structure Fetcher where
  discovery : Interest
  version : Option Name := none
  received : ℕ → Option Data := fun _ => none

/-- The worker, the fetchers, and all that was ever sent.  The pictures captured are kept
to speak about; nothing reads them. -/
structure Cloud where
  /-- `none` once a handler did not return. -/
  worker : Option Worker
  sent : List Interest := []
  put : List Data := []
  captures : List Capture := []
  fetchers : ℕ → Option Fetcher := fun _ => none

/-- What can happen. -/
inductive Move
  /-- A fetcher starts with an unversioned name. -/
  | discover (fetcher : ℕ) (name : Name)
  /-- An Interest reaches the worker; the picture and the version are those it takes if it
  captures one. -/
  | arrive (interest : Interest) (frame : Mat) (version : ℕ)
  /-- The first Data reaches a fetcher. -/
  | first (fetcher : ℕ) (data : Data)
  /-- A fetcher asks for a segment of its version. -/
  | request (fetcher : ℕ) (segment : ℕ)
  /-- A segment reaches a fetcher. -/
  | segment (fetcher : ℕ) (segment : ℕ) (data : Data)

/-- A name without version and segment. -/
def Unversioned (name : Name) : Prop := ∃ c, name.getLast? = some (.generic c)

instance (name : Name) : Decidable (Unversioned name) :=
  match h : name.getLast? with
  | some (.generic c) => isTrue ⟨c, h⟩
  | some (.version _) => isFalse fun ⟨_, hc⟩ => nomatch h.symm.trans hc
  | some (.segment _) => isFalse fun ⟨_, hc⟩ => nomatch h.symm.trans hc
  | none => isFalse fun ⟨_, hc⟩ => nomatch h.symm.trans hc

/-- The Data packets among what the worker put. -/
def dataOf (packets : List Packet) : List Data :=
  packets.filterMap fun packet =>
    match packet with
    | .data d => some d
    | .nack _ => none

/-- The Interest for a segment. -/
def segmentInterest (versioned : Name) (segment : ℕ) : Interest where
  name := versioned ++ [.segment segment]

namespace Cloud

/-- Write one fetcher. -/
def setFetcher (q : Cloud) (f : ℕ) (fetcher : Fetcher) : Cloud :=
  { q with fetchers := fun g => if g = f then some fetcher else q.fetchers g }

/-- The captures after an Interest has reached the worker. -/
def captured (q : Cloud) (interest : Interest) (frame : Mat) (version : ℕ) : List Capture :=
  if Unversioned interest.name then
    q.captures ++ [⟨interest.name ++ [.version version], version, frame.data⟩]
  else q.captures

/-- One move: `none` if it cannot happen. -/
def step (lib : Externals) (q : Cloud) : Move → Option Cloud
  | .discover f name =>
    if Unversioned name ∧ (q.fetchers f).isNone = true then
      let discovery : Interest := { name := name, canBePrefix := true, mustBeFresh := true }
      some ({ q with sent := q.sent ++ [discovery] }.setFetcher f { discovery := discovery })
    else none
  | .arrive interest frame version =>
    if interest ∈ q.sent ∧ ∀ c ∈ q.captures, c.version ≠ version then
      match q.worker with
      | none => none
      | some w =>
        let captures := q.captured interest frame version
        match w.onInterest lib interest [] frame version with
        | .ok (w', packets) =>
          some { q with
            worker := some w', put := q.put ++ dataOf packets, captures := captures }
        | .error _ => some { q with worker := none, captures := captures }
    else none
  | .first f data =>
    match q.fetchers f with
    | none => none
    | some fetcher =>
      if data ∈ q.put ∧ fetcher.version = none ∧ fetcher.discovery.SatisfiedBy data.name then
        match data.name.getLast? with
        | some (.segment k) => some (q.setFetcher f { fetcher with
            version := some data.name.dropLast
            received := fun j => if j = k then some data else none })
        | _ => none
      else none
  | .request f k =>
    match (q.fetchers f).bind Fetcher.version with
    | none => none
    | some versioned => some { q with sent := q.sent ++ [segmentInterest versioned k] }
  | .segment f k data =>
    match q.fetchers f with
    | none => none
    | some fetcher =>
      match fetcher.version with
      | none => none
      | some versioned =>
        if data ∈ q.put ∧ segmentInterest versioned k ∈ q.sent ∧
            (segmentInterest versioned k).SatisfiedBy data.name then
          some (q.setFetcher f { fetcher with
            received := fun j => if j = k then (fetcher.received k).or (some data)
              else fetcher.received j })
        else none

/-- The worker before anything was sent. -/
def start (cd_str : Str) (options : Options) : Cloud where
  worker := some (Worker.start cd_str options)

end Cloud

/-! ## The invariant -/

/-- A packet is the segment with the given number of a picture, signed or not. -/
structure Capture.Segment (options : Options) (c : Capture) (k : ℕ) (d : Data) : Prop where
  lt : k < Worker.segmentCount options.maxSegmentSize c.bytes
  name : d.name = c.versioned ++ [.segment k]
  content : d.content = chunk options.maxSegmentSize k c.bytes
  finalBlock : d.finalBlock =
    some (.segment (Worker.segmentCount options.maxSegmentSize c.bytes - 1))

/-- The store of a worker holds the segments of a picture, each in its place. -/
structure Holds (options : Options) (captures : List Capture) (w : Worker) : Prop where
  options_eq : w.options = options
  segments : w.store = [] ∨ ∃ c ∈ captures, ∀ k d, w.store[k]? = some d → c.Segment options k d

/-- What every run keeps. -/
structure Consistent (options : Options) (q : Cloud) : Prop where
  /-- Every packet ever put is a segment of a captured picture. -/
  put : ∀ d ∈ q.put, ∃ c ∈ q.captures, ∃ k, c.Segment options k d
  /-- So is what the worker holds. -/
  store : ∀ w, q.worker = some w → Holds options q.captures w
  /-- A picture's prefix ends in its version. -/
  versioned : ∀ c ∈ q.captures, c.versioned.getLast? = some (.version c.version)
  /-- No version is drawn twice. -/
  unique : ∀ c ∈ q.captures, ∀ c' ∈ q.captures, c.version = c'.version → c = c'
  /-- Only unversioned names and segments are asked for, in cloud mode. -/
  sent : ∀ i ∈ q.sent, i.applicationParameters = none ∧
    (Unversioned i.name ∨ ∃ k, i.name.getLast? = some (.segment k))
  /-- A fetcher holds packets of its own version, each in its place. -/
  fetched : ∀ f fetcher, q.fetchers f = some fetcher → ∀ k d, fetcher.received k = some d →
    d ∈ q.put ∧ ∃ versioned, fetcher.version = some versioned ∧
      d.name = versioned ++ [.segment k]

/-- The version of a picture tells the picture. -/
theorem Consistent.eq_of_versioned {options : Options} {q : Cloud} (h : Consistent options q)
    {c c' : Capture} (hc : c ∈ q.captures) (hc' : c' ∈ q.captures)
    (heq : c.versioned = c'.versioned) : c = c' := by
  refine h.unique c hc c' hc' ?_
  have hlast := h.versioned c hc
  rw [heq, h.versioned c' hc', Option.some.injEq, Component.version.injEq] at hlast
  exact hlast.symm

theorem consistent_start (cd_str : Str) (options : Options) :
    Consistent options (Cloud.start cd_str options) where
  put := nofun
  store w hw := by
    rw [← Option.some.inj hw]
    exact ⟨rfl, Or.inl rfl⟩
  versioned := nofun
  unique := nofun
  sent := nofun
  fetched := nofun

/-! ## The worker -/

section

variable {options : Options} {captures captures' : List Capture} {w w' : Worker}
  {packets : List Packet} {interest : Interest} {lib : Externals}

theorem Capture.Segment.sign {c : Capture} {k : ℕ} {d : Data} (h : c.Segment options k d) :
    c.Segment options k d.sign :=
  ⟨h.lt, h.name, h.content, h.finalBlock⟩

theorem Holds.mono (h : Holds options captures w) (hsub : captures ⊆ captures') :
    Holds options captures' w :=
  ⟨h.options_eq, h.segments.imp_right fun ⟨c, hc, hseg⟩ => ⟨c, hsub hc, hseg⟩⟩

/-- Pictures are never forgotten. -/
theorem captures_subset_captured (q : Cloud) (interest : Interest) (frame : Mat) (version : ℕ) :
    q.captures ⊆ q.captured interest frame version := by
  intro c hc
  unfold Cloud.captured
  split
  · exact List.mem_append_left _ hc
  · exact hc

/-- A picture just captured fills the store with its segments. -/
theorem capture_holds (hw : w.options = options) {name : Name} (hname : Unversioned name)
    (version : ℕ) (bytes : Str) (hmem : ⟨name ++ [.version version], version, bytes⟩ ∈ captures) :
    Holds options captures (w.capture name version bytes) := by
  obtain ⟨c, hlast⟩ := hname
  have hset : w.setVersion name version =
      { w with namePrefix := name, versionedPrefix := name ++ [.version version] } := by
    unfold Worker.setVersion
    rw [hlast]
  refine ⟨?_, Or.inr ⟨_, hmem, fun k d hd => ?_⟩⟩
  · unfold Worker.capture
    rw [hset]
    exact hw
  · unfold Worker.capture at hd
    rw [Worker.populateStore_store _ rfl, hset] at hd
    obtain ⟨hlt, rfl⟩ := getElem?_map_range hd
    change k < Worker.segmentCount w.options.maxSegmentSize bytes at hlt
    rw [hw] at hlt
    have hpacket : ∀ max, max = options.maxSegmentSize → Capture.Segment options
        ⟨name ++ [.version version], version, bytes⟩ k
        (Worker.storedPacket max (name ++ [.version version]) bytes k) := by
      rintro _ rfl
      exact ⟨hlt, rfl, rfl, rfl⟩
    exact hpacket _ (congrArg Options.maxSegmentSize hw)

/-- An answer in cloud mode is a segment of the picture in the store. -/
theorem processSegmentInterest_holds (hw : Holds options captures w)
    (h : w.processSegmentInterest lib interest = .ok (w', packets)) :
    Holds options captures w' ∧
      ∀ d ∈ dataOf packets, ∃ c ∈ captures, ∃ k, c.Segment options k d := by
  obtain ⟨_, k, data, _, _, hdata, rfl, rfl⟩ := Worker.processSegmentInterest_eq_ok h
  rcases hw.segments with hnil | ⟨c, hc, hseg⟩
  · rw [hnil] at hdata
    exact absurd hdata nofun
  · refine ⟨⟨hw.options_eq, Or.inr ⟨c, hc, fun j d hd => ?_⟩⟩, fun d hd => ?_⟩
    · obtain ⟨e, he, rfl | rfl⟩ := Worker.of_getElem?_signed hd
      · exact (hseg j e he).sign
      · exact hseg j _ he
    · obtain rfl : d = data.sign := by simpa [dataOf] using hd
      exact ⟨c, hc, k, (hseg k data hdata).sign⟩

/-- **Whatever reaches the worker, it answers with segments of captured pictures.** -/
theorem onInterest_holds (hlib : lib.ReshapeDocumented) {q : Cloud} {frame : Mat} {version : ℕ}
    (hw : Holds options q.captures w) (hparam : interest.applicationParameters = none)
    (hname : Unversioned interest.name ∨ ∃ k, interest.name.getLast? = some (.segment k))
    (h : w.onInterest lib interest [] frame version = .ok (w', packets)) :
    Holds options (q.captured interest frame version) w' ∧
      ∀ d ∈ dataOf packets, ∃ c ∈ q.captured interest frame version, ∃ k,
        c.Segment options k d := by
  have hsub := captures_subset_captured q interest frame version
  rcases Worker.onInterest_cases h with ⟨rfl, rfl⟩ | ⟨hmode, -⟩ | ⟨-, hcloud⟩
  · exact ⟨hw.mono hsub, fun d hd => absurd hd List.not_mem_nil⟩
  · unfold Worker.modeOf at hmode
    rw [hparam] at hmode
    exact absurd hmode (by decide)
  · rcases Worker.answerCloud_cases hcloud with ⟨k, -, hp⟩ | ⟨last, raw, hget, hseg, hraw, hp⟩
    · exact processSegmentInterest_holds (hw.mono hsub) hp
    · have hunversioned : Unversioned interest.name := by
        refine hname.resolve_right ?_
        rintro ⟨k, hk⟩
        rw [hget, Option.some.injEq] at hk
        rw [hk] at hseg
        exact absurd hseg nofun
      have hbytes := (hlib.reshape_eq_some _ _ _ _ hraw).1
      have hmem : ⟨interest.name ++ [.version version], version, raw.data⟩ ∈
          q.captured interest frame version := by
        unfold Cloud.captured
        rw [if_pos hunversioned, hbytes]
        exact List.mem_append_right _ (List.mem_singleton_self _)
      exact processSegmentInterest_holds
        (capture_holds hw.options_eq hunversioned version raw.data hmem) hp

end

/-! ## Runs -/

section

variable {options : Options} {lib : Externals} {q q' : Cloud}

/-- A fetcher is rewritten: the others keep what they have. -/
theorem Consistent.setFetcher (h : Consistent options q) {f : ℕ} {fetcher : Fetcher}
    (hf : ∀ k d, fetcher.received k = some d → d ∈ q.put ∧
      ∃ versioned, fetcher.version = some versioned ∧ d.name = versioned ++ [.segment k]) :
    Consistent options (q.setFetcher f fetcher) := by
  refine ⟨h.put, h.store, h.versioned, h.unique, h.sent, fun g fetcher' hg => ?_⟩
  unfold Cloud.setFetcher at hg
  simp only at hg
  split at hg
  · rw [← Option.some.inj hg]
    exact hf
  · exact h.fetched g fetcher' hg

/-- More Interests are under way. -/
theorem Consistent.send (h : Consistent options q) {i : Interest}
    (hparam : i.applicationParameters = none)
    (hname : Unversioned i.name ∨ ∃ k, i.name.getLast? = some (.segment k)) :
    Consistent options { q with sent := q.sent ++ [i] } := by
  refine ⟨h.put, h.store, h.versioned, h.unique, fun j hj => ?_, h.fetched⟩
  rcases List.mem_append.1 hj with hj | hj
  · exact h.sent j hj
  · rw [List.mem_singleton.1 hj]
    exact ⟨hparam, hname⟩

/-- The captures stay well-formed when an Interest arrives. -/
theorem captured_wf (h : Consistent options q) (interest : Interest) (frame : Mat) {version : ℕ}
    (hfresh : ∀ c ∈ q.captures, c.version ≠ version) :
    (∀ c ∈ q.captured interest frame version, c.versioned.getLast? = some (.version c.version)) ∧
      ∀ c ∈ q.captured interest frame version, ∀ c' ∈ q.captured interest frame version,
        c.version = c'.version → c = c' := by
  unfold Cloud.captured
  split
  · constructor
    · intro c hc
      rcases List.mem_append.1 hc with hc | hc
      · exact h.versioned c hc
      · rw [List.mem_singleton.1 hc]
        exact List.getLast?_concat
    · intro c hc c' hc' heq
      rcases List.mem_append.1 hc with hc | hc <;> rcases List.mem_append.1 hc' with hc' | hc'
      · exact h.unique c hc c' hc' heq
      · rw [List.mem_singleton.1 hc'] at heq
        exact absurd heq (hfresh c hc)
      · rw [List.mem_singleton.1 hc] at heq
        exact absurd heq.symm (hfresh c' hc')
      · rw [List.mem_singleton.1 hc, List.mem_singleton.1 hc']
  · exact ⟨h.versioned, h.unique⟩

/-- **An Interest that arrives** leaves the packets true to their pictures: those put before
and, by `onInterest_holds`, those put for it. -/
theorem consistent_arrive (hlib : lib.ReshapeDocumented) (h : Consistent options q)
    {interest : Interest} {frame : Mat} {version : ℕ}
    (hstep : q.step lib (.arrive interest frame version) = some q') : Consistent options q' := by
  simp only [Cloud.step] at hstep
  split at hstep
  · rename_i hguard
    obtain ⟨hsent, hfresh⟩ := hguard
    obtain ⟨hparam, hname⟩ := h.sent interest hsent
    obtain ⟨hversioned, hunique⟩ := captured_wf h interest frame hfresh
    have hsub := captures_subset_captured q interest frame version
    have hput : ∀ d ∈ q.put, ∃ c ∈ q.captured interest frame version, ∃ k,
        c.Segment options k d := by
      intro d hd
      obtain ⟨c, hc, k, hk⟩ := h.put d hd
      exact ⟨c, hsub hc, k, hk⟩
    cases hw : q.worker with
    | none =>
      rw [hw] at hstep
      exact absurd hstep nofun
    | some w =>
      rw [hw] at hstep
      cases hr : w.onInterest lib interest [] frame version with
      | error f =>
        simp only [hr, Option.some.injEq] at hstep
        rw [← hstep]
        exact ⟨hput, nofun, hversioned, hunique, h.sent, h.fetched⟩
      | ok r =>
        obtain ⟨w', packets⟩ := r
        simp only [hr, Option.some.injEq] at hstep
        obtain ⟨hholds, hdata⟩ := onInterest_holds hlib (h.store w hw) hparam hname hr
        rw [← hstep]
        refine ⟨fun d hd => ?_, fun v hv => ?_, hversioned, hunique, h.sent,
          fun f fetcher hf k d hd => ?_⟩
        · rcases List.mem_append.1 hd with hd | hd
          · exact hput d hd
          · exact hdata d hd
        · rw [← Option.some.inj hv]
          exact hholds
        · obtain ⟨hmem, hname⟩ := h.fetched f fetcher hf k d hd
          exact ⟨List.mem_append_left _ hmem, hname⟩
  · exact absurd hstep nofun

/-- A segment that reaches a fetcher is one of its version, in its place. -/
theorem consistent_segment (h : Consistent options q) {f k : ℕ} {data : Data}
    (hstep : q.step lib (.segment f k data) = some q') : Consistent options q' := by
  simp only [Cloud.step] at hstep
  split at hstep
  · exact absurd hstep nofun
  · rename_i fetcher hfetcher
    split at hstep
    · exact absurd hstep nofun
    · rename_i versioned hversion
      split at hstep
      · rename_i hguard
        rw [← Option.some.inj hstep]
        refine h.setFetcher fun j d hd => ?_
        have hold := h.fetched f fetcher hfetcher j d
        simp only at hd
        split at hd
        · rename_i hj
          cases hk : fetcher.received k with
          | some e =>
            rw [hk, Option.some_or] at hd
            exact hold (by rw [hj, hk, hd])
          | none =>
            rw [hk, Option.none_or] at hd
            rw [← Option.some.inj hd, hj]
            refine ⟨hguard.1, versioned, hversion, ?_⟩
            exact hguard.2.2.symm
        · exact hold hd
      · exact absurd hstep nofun

/-- **Every move keeps the packets true to their pictures.** -/
theorem consistent_step (hlib : lib.ReshapeDocumented) (h : Consistent options q) {m : Move}
    (hstep : q.step lib m = some q') : Consistent options q' := by
  cases m with
  | discover f name =>
    simp only [Cloud.step] at hstep
    split at hstep
    · rename_i hname
      rw [← Option.some.inj hstep]
      exact (h.send rfl (Or.inl hname.1)).setFetcher nofun
    · exact absurd hstep nofun
  | arrive interest frame version => exact consistent_arrive hlib h hstep
  | first f data =>
    simp only [Cloud.step] at hstep
    split at hstep
    · exact absurd hstep nofun
    · split at hstep
      · rename_i hguard
        split at hstep
        · rename_i k hlast
          rw [← Option.some.inj hstep]
          refine h.setFetcher fun j d hd => ?_
          simp only at hd
          split at hd
          · rename_i hj
            rw [← Option.some.inj hd, hj]
            refine ⟨hguard.1, _, rfl, ?_⟩
            exact (List.dropLast_append_getLast? _ hlast).symm
          · exact absurd hd nofun
        · exact absurd hstep nofun
      · exact absurd hstep nofun
  | request f k =>
    simp only [Cloud.step] at hstep
    split at hstep
    · exact absurd hstep nofun
    · rw [← Option.some.inj hstep]
      exact h.send rfl (Or.inr ⟨k, List.getLast?_concat⟩)
  | segment f k data => exact consistent_segment h hstep

/-- **No torn frame.**  A fetcher that has accepted the segments 0 to FinalBlockId of its
version holds, one after another, the bytes of the one picture that was captured with
that version. -/
theorem no_torn_frame (hlib : lib.ReshapeDocumented) {cd_str : Str} {moves : List Move}
    (hrun : Runs.exec (Cloud.step lib) (Cloud.start cd_str options) moves = some q) {f : ℕ}
    {fetcher : Fetcher} (hf : q.fetchers f = some fetcher) {versioned : Name}
    (hversion : fetcher.version = some versioned) {n : ℕ}
    (hfinal : ∃ k d, fetcher.received k = some d ∧ d.finalBlock = some (.segment n))
    (hall : ∀ k ≤ n, fetcher.received k ≠ none) :
    ∃ c ∈ q.captures, c.versioned = versioned ∧
      (∀ c' ∈ q.captures, c'.versioned = versioned → c' = c) ∧
      ((List.range (n + 1)).flatMap fun k =>
        ((fetcher.received k).map Data.content).getD []) = c.bytes := by
  have h : Consistent options q := by
    refine Runs.history (P := fun _ (q : Cloud) => Consistent options q)
      (consistent_start cd_str options) ?_ moves q hrun
    intro _ _ _ _ _ h hstep
    exact consistent_step hlib h hstep
  -- every accepted packet is a segment of the picture of its version
  have hsegment : ∀ k d, fetcher.received k = some d →
      ∃ c ∈ q.captures, c.versioned = versioned ∧ c.Segment options k d := by
    intro k d hd
    obtain ⟨hput, versioned', hversion', hname⟩ := h.fetched f fetcher hf k d hd
    obtain ⟨c, hc, j, hseg⟩ := h.put d hput
    rw [hversion, Option.some.injEq] at hversion'
    subst hversion'
    rw [hseg.name] at hname
    obtain ⟨hv, hk⟩ := List.append_inj' hname rfl
    obtain rfl := Component.segment.inj (List.singleton_inj.1 hk)
    exact ⟨c, hc, hv, hseg⟩
  obtain ⟨k₀, d₀, hd₀, hn⟩ := hfinal
  obtain ⟨c, hc, hv, hseg₀⟩ := hsegment k₀ d₀ hd₀
  refine ⟨c, hc, hv, fun c' hc' hv' => h.eq_of_versioned hc' hc (hv'.trans hv.symm), ?_⟩
  have hcount : n + 1 = Worker.segmentCount options.maxSegmentSize c.bytes := by
    rw [hseg₀.finalBlock, Option.some.injEq, Component.segment.injEq] at hn
    have hpos := Worker.segmentCount_pos options.maxSegmentSize_pos c.bytes
    omega
  have hcontent : ∀ k ∈ List.range (n + 1), ((fetcher.received k).map Data.content).getD [] =
      (Worker.storedPacket options.maxSegmentSize c.versioned c.bytes k).content := by
    intro k hk
    obtain ⟨d, hd⟩ := Option.ne_none_iff_exists'.1
      (hall k (Nat.le_of_lt_succ (List.mem_range.1 hk)))
    obtain ⟨c', hc', hv', hseg⟩ := hsegment k d hd
    obtain rfl := h.eq_of_versioned hc' hc (hv'.trans hv.symm)
    rw [hd, Option.map_some, Option.getD_some]
    exact hseg.content
  rw [List.flatMap_congr hcontent, hcount]
  exact Worker.flatMap_storedPacket options.maxSegmentSize_pos c.versioned c.bytes

end

/-! ## Two fetchers at once -/

/-- Two bytes a segment. -/
def twoBytes : Options := { maxSegmentSize := 2 }

/-- The pictures of the two fetchers, three bytes and so two segments each. -/
def threePixels (f : ℕ) : Mat := ⟨1, 3, 1, if f = 0 then [1, 2, 3] else [4, 5, 6], by
  split <;> rfl⟩

/-- The name the edge fetches a picture with; both fetchers use the same. -/
def pictureName : Name :=
  reference.ofUri (subInterestName (txt "/3/#f:detect/#a:[3] #a:[person]") 7)

/-- The packets of a fetcher's picture as the worker puts them. -/
def picturePacket (f k : ℕ) : Data :=
  (Worker.storedPacket 2 (pictureName ++ [.version f]) (threePixels f).data k).sign

/-- The second fetcher's discovery replaces the picture in the store while the second segment
of the first fetcher's picture is under way; asked for that segment once more, the worker puts
the one it now holds, which the first fetcher does not take. -/
def fetchBoth : List Move := [
  .discover 0 pictureName,
  .arrive { name := pictureName, canBePrefix := true, mustBeFresh := true } (threePixels 0) 0,
  .first 0 (picturePacket 0 0),
  .request 0 1,
  .arrive (segmentInterest (pictureName ++ [.version 0]) 1) (threePixels 0) 2,
  .discover 1 pictureName,
  .arrive { name := pictureName, canBePrefix := true, mustBeFresh := true } (threePixels 1) 1,
  .first 1 (picturePacket 1 0),
  .arrive (segmentInterest (pictureName ++ [.version 0]) 1) (threePixels 0) 2,
  .segment 0 1 (picturePacket 0 1),
  .request 1 1,
  .segment 1 1 (picturePacket 1 1)]

/-- Each fetcher holds its own picture. -/
theorem no_torn_frame_fetchBoth : ∃ q,
    Runs.exec (Cloud.step reference) (Cloud.start (txt "/3") twoBytes) fetchBoth = some q ∧
      ∀ f < 2, ∃ fetcher, q.fetchers f = some fetcher ∧ ∃ c ∈ q.captures,
        c.versioned = pictureName ++ [.version f] ∧
        (∀ c' ∈ q.captures, c'.versioned = pictureName ++ [.version f] → c' = c) ∧
        ((List.range (1 + 1)).flatMap fun k =>
          ((fetcher.received k).map Data.content).getD []) = c.bytes := by
  have hstate : ∀ f < 2, ((Runs.exec (Cloud.step reference) (Cloud.start (txt "/3") twoBytes)
      fetchBoth).bind fun q => q.fetchers f).any (fun fetcher =>
        fetcher.version = some (pictureName ++ [.version f]) ∧
          fetcher.received 0 = some (picturePacket f 0) ∧
          fetcher.received 1 = some (picturePacket f 1)) = true := by decide +kernel
  have hfinal : ∀ f < 2, (picturePacket f 0).finalBlock = some (.segment 1) := by decide +kernel
  have hrun : (Runs.exec (Cloud.step reference) (Cloud.start (txt "/3") twoBytes)
      fetchBoth).isSome = true := by decide +kernel
  obtain ⟨q, hrun⟩ := Option.isSome_iff_exists.1 hrun
  refine ⟨q, hrun, fun f hf => ?_⟩
  obtain ⟨fetcher, hfetcher, heq⟩ := (Option.any_eq_true _ _).1 (hstate f hf)
  rw [hrun, Option.bind_some] at hfetcher
  obtain ⟨hversion, hzero, hone⟩ := of_decide_eq_true heq
  refine ⟨fetcher, hfetcher, no_torn_frame reference_reshape hrun hfetcher hversion
    ⟨0, _, hzero, hfinal f hf⟩ fun k hk => ?_⟩
  obtain rfl | rfl : k = 0 ∨ k = 1 := by omega
  · simp [hzero]
  · simp [hone]

end Crowdsensing
