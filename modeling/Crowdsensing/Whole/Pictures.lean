import Crowdsensing.Modes.Frames
import Crowdsensing.Modes.Targets
import Crowdsensing.Whole.Provenance

/-!
# No verdict on a stray picture

The edge in cloud mode and any number of workers: the edge fetches a picture for each location of a
request, each worker takes pictures and serves the one it took last, and any number of fetches run
at once, on a network that may lose, delay, repeat and reorder packets.

* `Studio`, `Studio.step` — the edge, and each worker with the fetches from it.
* `Studio.Wanted`, `Studio.Pictured`, `Studio.Judged` — the chain of a verdict: a client asked, then
  a worker took a picture for the Interest of that session and location, then the edge judged it.
* `eq_of_name_prefix` — the names the edge fetches with begin no other such name.
* `Studio.sound_step` — every event keeps the chain.
* `Studio.no_stray_picture` — **every line of a Data packet of the edge is the verdict on a picture
  that a worker took for that very session and location**, each of another fetch.
-/

namespace Crowdsensing

open Text Networks

/-! ## The names of the fetches -/

/-- The name of the picture of a location, for a session. -/
def pictureNameFor (lib : Externals) (l f t : Str) (s : UInt64) : Name :=
  (Producer.reInterest lib (nameFor l f t) s).name

/-- A name the edge fetches with, which can be read. -/
def IsPictureName (lib : Externals) (name : Name) : Prop :=
  ∃ l f t s, Legible l f t ∧ SubFields l f t ∧ name = pictureNameFor lib l f t s

section

variable {lib : Externals} {l f t : Str} {s : UInt64}

theorem pictureNameFor_eq (hlib : lib.UriDocumented) (hlegible : Legible l f t)
    (h : SubFields l f t) : pictureNameFor lib l f t s = (l.map fun c => .generic [c]) ++
      [.generic (uriValue f), .generic (uriUnescape (keywordFor l t)),
        .generic (decimal s.toNat)] := by
  refine (hlegible.ofUri_subInterestName hlib h s).trans ?_
  rw [addressOf, List.append_assoc]
  rfl

/-- A list that is told apart by its last but one element begins no longer list of that kind. -/
theorem eq_of_prefix_of_key {α : Type} {S K : α → Prop} {as bs : List α} {x y z x' y' z' : α}
    (hbs : ∀ b ∈ bs, S b) (hy : ¬ S y) (hz : ¬ K z) (hy' : K y')
    (h : as ++ [x, y, z] <+: bs ++ [x', y', z']) : as ++ [x, y, z] = bs ++ [x', y', z'] := by
  have hle := h.length_le
  simp only [List.length_append, List.length_cons, List.length_nil] at hle
  have hat : ∀ i, (as ++ [x, y, z])[as.length + i]? = [x, y, z][i]? := by
    intro i
    rw [List.getElem?_append_right (by omega), Nat.add_sub_cancel_left]
  obtain ⟨rest, hrest⟩ := h
  have hsame : ∀ i < 3, (bs ++ [x', y', z'])[as.length + i]? = [x, y, z][i]? := by
    intro i hi
    rw [← hrest, List.getElem?_append_left (by simp; omega), hat]
  have hlength : as.length = bs.length := by
    by_contra hne
    rcases Nat.lt_or_ge (as.length + 1) bs.length with hlt | hge
    · have hmem := hsame 1 (by omega)
      rw [List.getElem?_append_left hlt] at hmem
      exact hy (hbs y (List.mem_of_getElem? hmem))
    · have hkey := hsame 2 (by omega)
      have hone : as.length + 2 - bs.length = 1 := by omega
      rw [List.getElem?_append_right (by omega), hone] at hkey
      exact hz (Option.some.inj hkey ▸ hy')
  have heq := congrArg List.length hrest
  simp only [List.length_append, List.length_cons, List.length_nil] at heq
  rw [← hrest, List.eq_nil_of_length_eq_zero (by omega : rest.length = 0), List.append_nil]

/-- **The names the edge fetches with begin no other such name.** -/
theorem eq_of_name_prefix (hlib : lib.UriDocumented) {name name' : Name}
    (h : IsPictureName lib name) (h' : IsPictureName lib name') (hp : name <+: name') :
    name = name' := by
  obtain ⟨l, f, t, s, hlegible, hfields, rfl⟩ := h
  obtain ⟨l', f', t', s', hlegible', hfields', rfl⟩ := h'
  have hkey : ∀ l t : Str, ∃ rest, uriUnescape (keywordFor l t) = ch '#' :: ch 'a' :: rest := by
    intro l t
    have hcons : keywordFor l t = ch '#' :: ch 'a' :: (txt ":[" ++ l ++ txt "] " ++ t) := by
      simp only [keywordFor, List.append_assoc]
      rfl
    refine ⟨uriUnescape (txt ":[" ++ l ++ txt "] " ++ t), ?_⟩
    rw [hcons, uriUnescape, scan_cons_of_ne (by decide), scan_cons_of_ne (by decide)]
    rfl
  rw [pictureNameFor_eq hlib hlegible hfields, pictureNameFor_eq hlib hlegible' hfields'] at hp ⊢
  refine eq_of_prefix_of_key (S := fun c => ∃ p : Str, c = Component.generic p ∧ p.length = 1)
    (K := fun c => ∃ p : Str, c = Component.generic p ∧ ch '#' ∈ p) ?_ ?_ ?_ ?_ hp
  · intro c hc
    obtain ⟨b, -, rfl⟩ := List.mem_map.1 hc
    exact ⟨_, rfl, rfl⟩
  · rintro ⟨p, hp, hlength⟩
    obtain ⟨rest, hrest⟩ := hkey l t
    rw [← Component.generic.inj hp, hrest] at hlength
    simp at hlength
  · rintro ⟨p, hp, hmem⟩
    rw [← Component.generic.inj hp] at hmem
    exact not_mem_decimal (by decide) _ hmem
  · obtain ⟨rest, hrest⟩ := hkey l' t'
    exact ⟨_, rfl, by rw [hrest]; exact List.mem_cons_self⟩

end

/-! ## A worker and the fetches from it -/

namespace Fetcher

/-- All segments have been accepted: segment `j` tells that segment `n` is the last. -/
def Complete (fetcher : Fetcher) (n j : ℕ) : Prop :=
  (fetcher.received j).bind Data.finalBlock = some (.segment n) ∧
    ∀ k ≤ n, (fetcher.received k).isSome = true

instance (fetcher : Fetcher) (n j : ℕ) : Decidable (fetcher.Complete n j) := by
  unfold Complete
  infer_instance

/-- The contents of the segments, one after another. -/
def bytes (fetcher : Fetcher) (n : ℕ) : Str :=
  (List.range (n + 1)).flatMap fun k => ((fetcher.received k).map Data.content).getD []

end Fetcher

section

variable {lib : Externals} {options : Options} {q q' : Cloud} {m : Move}

/-- **What a complete fetch has are the bytes of the one picture of its version.** -/
theorem Consistent.bytes_eq (h : Consistent options q) {i n j : ℕ} {fetcher : Fetcher}
    (hi : q.fetchers i = some fetcher) (hcomplete : fetcher.Complete n j) :
    ∃ c ∈ q.captures, fetcher.version = some c.versioned ∧ fetcher.bytes n = c.bytes := by
  obtain ⟨hfinal, hall⟩ := hcomplete
  obtain ⟨d, hd, hlast⟩ := Option.bind_eq_some_iff.1 hfinal
  obtain ⟨-, versioned, hversion, -⟩ := h.fetched i fetcher hi j d hd
  -- every accepted packet is a segment of the picture of that version
  have hsegment : ∀ k e, fetcher.received k = some e →
      ∃ c ∈ q.captures, c.versioned = versioned ∧ c.Segment options k e := by
    intro k e he
    obtain ⟨hput, versioned', hversion', hname⟩ := h.fetched i fetcher hi k e he
    obtain ⟨c, hc, k', hsegment⟩ := h.put e hput
    rw [hversion, Option.some.injEq] at hversion'
    rw [hsegment.name, ← hversion'] at hname
    obtain ⟨hv, hk⟩ := List.append_inj' hname rfl
    obtain rfl := Component.segment.inj (List.singleton_inj.1 hk)
    exact ⟨c, hc, hv, hsegment⟩
  obtain ⟨c, hc, hv, hfirst⟩ := hsegment j d hd
  refine ⟨c, hc, hv ▸ hversion, ?_⟩
  have hcount : n + 1 = Worker.segmentCount options.maxSegmentSize c.bytes := by
    rw [hfirst.finalBlock, Option.some.injEq, Component.segment.injEq] at hlast
    have hpos := Worker.segmentCount_pos options.maxSegmentSize_pos c.bytes
    omega
  have hcontent : ∀ k ∈ List.range (n + 1), ((fetcher.received k).map Data.content).getD [] =
      (Worker.storedPacket options.maxSegmentSize c.versioned c.bytes k).content := by
    intro k hk
    obtain ⟨e, he⟩ := Option.isSome_iff_exists.1
      (hall k (Nat.le_of_lt_succ (List.mem_range.1 hk)))
    obtain ⟨c', hc', hv', hsegment⟩ := hsegment k e he
    obtain rfl := h.eq_of_versioned hc' hc (hv'.trans hv.symm)
    rw [he, Option.map_some, Option.getD_some]
    exact hsegment.content
  rw [Fetcher.bytes, List.flatMap_congr hcontent, hcount]
  exact Worker.flatMap_storedPacket options.maxSegmentSize_pos c.versioned c.bytes

/-- What a move does. -/
inductive CloudStep (q : Cloud) : Move → Cloud → Prop
  /-- A fetch begins. -/
  | discovered (i : ℕ) (name : Name) (discovery : Interest) (named : discovery.name = name) :
    CloudStep q (.discover i name)
      ({ q with sent := q.sent ++ [discovery] }.setFetcher i { discovery := discovery })
  /-- The worker takes in an Interest that was sent. -/
  | arrived {interest : Interest} {frame : Mat} {version : ℕ} (sent : interest ∈ q.sent)
    (worker : Option Worker) (put : List Data) :
    CloudStep q (.arrive interest frame version) { q with
      worker := worker
      put := put
      captures := q.captured interest frame version }
  /-- The first packet tells a fetcher its version. -/
  | learned {i k : ℕ} {data : Data} {fetcher : Fetcher} (fetching : q.fetchers i = some fetcher)
    (satisfied : fetcher.discovery.SatisfiedBy data.name)
    (last : data.name.getLast? = some (.segment k)) (received : ℕ → Option Data) :
    CloudStep q (.first i data) (q.setFetcher i { fetcher with
      version := some data.name.dropLast
      received := received })
  /-- A segment is asked for. -/
  | requested (i k : ℕ) (versioned : Name) :
    CloudStep q (.request i k) { q with sent := q.sent ++ [segmentInterest versioned k] }
  /-- A segment is accepted. -/
  | accepted {i k : ℕ} {data : Data} {fetcher : Fetcher} (fetching : q.fetchers i = some fetcher)
    (received : ℕ → Option Data) :
    CloudStep q (.segment i k data) (q.setFetcher i { fetcher with received := received })

theorem cloudStep_of_step (h : q.step lib m = some q') : CloudStep q m q' := by
  cases m with
  | discover i name =>
    simp only [Cloud.step] at h
    rw [Option.ite_none_right_eq_some, Option.some.injEq] at h
    rw [← h.2]
    exact .discovered i name _ rfl
  | arrive interest frame version =>
    simp only [Cloud.step] at h
    rw [Option.ite_none_right_eq_some] at h
    obtain ⟨⟨hsent, -⟩, h⟩ := h
    split at h
    · exact absurd h.symm (Option.some_ne_none _)
    · split at h
      · rw [← Option.some.inj h]
        exact .arrived hsent _ _
      · rw [← Option.some.inj h]
        exact .arrived hsent _ _
  | first i data =>
    simp only [Cloud.step] at h
    split at h
    · exact absurd h.symm (Option.some_ne_none _)
    · rename_i fetcher hfetcher
      rw [Option.ite_none_right_eq_some] at h
      obtain ⟨⟨-, -, hsatisfied⟩, h⟩ := h
      split at h
      · rename_i k hlast
        rw [← Option.some.inj h]
        exact .learned hfetcher hsatisfied hlast _
      · exact absurd h.symm (Option.some_ne_none _)
  | request i k =>
    simp only [Cloud.step] at h
    split at h
    · exact absurd h.symm (Option.some_ne_none _)
    · rw [← Option.some.inj h]
      exact .requested i k _
  | segment i k data =>
    simp only [Cloud.step] at h
    split at h
    · exact absurd h.symm (Option.some_ne_none _)
    · rename_i fetcher hfetcher
      split at h
      · exact absurd h.symm (Option.some_ne_none _)
      · rw [Option.ite_none_right_eq_some, Option.some.injEq] at h
        rw [← h.2]
        exact .accepted hfetcher _

/-- Only the names of fetches that begin and of segments are sent. -/
theorem CloudStep.sent (h : CloudStep q m q') {interest : Interest} (hsent : interest ∈ q'.sent)
    (hname : Unversioned interest.name) :
    interest ∈ q.sent ∨ ∃ i, m = .discover i interest.name := by
  cases h with
  | discovered i name discovery named =>
    rcases List.mem_append.1 hsent with hsent | hsent
    · exact Or.inl hsent
    · rw [List.mem_singleton.1 hsent, named]
      exact Or.inr ⟨i, rfl⟩
  | arrived => exact Or.inl hsent
  | learned => exact Or.inl hsent
  | requested i k versioned =>
    rcases List.mem_append.1 hsent with hsent | hsent
    · exact Or.inl hsent
    · obtain ⟨c, hc⟩ := hname
      rw [List.mem_singleton.1 hsent, segmentInterest, List.getLast?_concat] at hc
      exact absurd (Option.some.inj hc) (by simp)
  | accepted => exact Or.inl hsent

/-- A picture is taken for an Interest that was sent. -/
theorem CloudStep.captures (h : CloudStep q m q') {c : Capture} (hc : c ∈ q'.captures) :
    c ∈ q.captures ∨ ∃ interest frame version, m = .arrive interest frame version ∧
      interest ∈ q.sent ∧ Unversioned interest.name ∧
      c = ⟨interest.name ++ [.version version], version, frame.data⟩ := by
  cases h with
  | discovered => exact Or.inl hc
  | @arrived interest frame version sent =>
    change c ∈ q.captured interest frame version at hc
    unfold Cloud.captured at hc
    split at hc
    · rename_i hname
      rcases List.mem_append.1 hc with hc | hc
      · exact Or.inl hc
      · exact Or.inr ⟨interest, frame, version, rfl, sent, hname, List.mem_singleton.1 hc⟩
    · exact Or.inl hc
  | learned => exact Or.inl hc
  | requested => exact Or.inl hc
  | accepted => exact Or.inl hc

/-- A fetcher keeps its first Interest, and its version is one of a packet that satisfies it. -/
theorem CloudStep.fetchers (h : CloudStep q m q') {i : ℕ} {fetcher' : Fetcher}
    (hi : q'.fetchers i = some fetcher') :
    (m = .discover i fetcher'.discovery.name ∧ fetcher'.version = none) ∨
      ∃ fetcher, q.fetchers i = some fetcher ∧ fetcher'.discovery = fetcher.discovery ∧
        (fetcher'.version = fetcher.version ∨ ∃ versioned k, fetcher'.version = some versioned ∧
          fetcher.discovery.SatisfiedBy (versioned ++ [.segment k])) := by
  have hset : ∀ {q : Cloud} {j : ℕ} {f : Fetcher}, (q.setFetcher j f).fetchers i = some fetcher' →
      (i = j ∧ fetcher' = f) ∨ q.fetchers i = some fetcher' := by
    intro q j f hf
    unfold Cloud.setFetcher at hf
    simp only at hf
    split at hf
    · rename_i hij
      exact Or.inl ⟨hij, (Option.some.inj hf).symm⟩
    · exact Or.inr hf
  cases h with
  | discovered j name discovery named =>
    rcases hset hi with ⟨rfl, rfl⟩ | hold
    · rw [← named]
      exact Or.inl ⟨rfl, rfl⟩
    · exact Or.inr ⟨fetcher', hold, rfl, Or.inl rfl⟩
  | arrived => exact Or.inr ⟨fetcher', hi, rfl, Or.inl rfl⟩
  | @learned j k data fetcher fetching satisfied last =>
    rcases hset hi with ⟨rfl, rfl⟩ | hold
    · refine Or.inr ⟨fetcher, fetching, rfl, Or.inr ⟨_, k, rfl, ?_⟩⟩
      rwa [List.dropLast_append_getLast? _ last]
    · exact Or.inr ⟨fetcher', hold, rfl, Or.inl rfl⟩
  | requested => exact Or.inr ⟨fetcher', hi, rfl, Or.inl rfl⟩
  | @accepted j k data fetcher fetching =>
    rcases hset hi with ⟨rfl, rfl⟩ | hold
    · exact Or.inr ⟨fetcher, fetching, rfl, Or.inl rfl⟩
    · exact Or.inr ⟨fetcher', hold, rfl, Or.inl rfl⟩

end

/-! ## The replies of a session -/

/-- The lines of a content come with different numbers, and each has a property with its own. -/
def EachOnce (P : ℕ → Str → Prop) (content : Str) : Prop :=
  ∃ lines : List (ℕ × Str), content = collected (lines.map Prod.snd) ∧
    (lines.map Prod.fst).Nodup ∧ ∀ line ∈ lines, P line.1 line.2

section

variable {P Q : ℕ → Str → Prop}

theorem eachOnce_nil : EachOnce P [] :=
  ⟨[], rfl, List.nodup_nil, fun _ hline => absurd hline List.not_mem_nil⟩

theorem EachOnce.imp {content : Str} (h : EachOnce P content)
    (hPQ : ∀ i text, P i text → Q i text) : EachOnce Q content := by
  obtain ⟨lines, hcontent, hnodup, hall⟩ := h
  exact ⟨lines, hcontent, hnodup, fun line hline => hPQ _ _ (hall line hline)⟩

/-- One more line, with a new number. -/
theorem EachOnce.concat {content : Str} (h : EachOnce P content)
    (hPQ : ∀ i text, P i text → Q i text) {i : ℕ} {text : Str} (hi : Q i text)
    (hnew : ∀ text, ¬ P i text) : EachOnce Q (content ++ text ++ [ch '\n']) := by
  obtain ⟨lines, rfl, hnodup, hall⟩ := h
  refine ⟨lines ++ [(i, text)], ?_, ?_, fun line hline => ?_⟩
  · rw [List.map_append, List.map_singleton, collected_concat]
  · rw [List.map_append, List.map_singleton, List.nodup_append]
    refine ⟨hnodup, List.nodup_singleton i, fun j hj k hk hjk => ?_⟩
    obtain ⟨line, hline, rfl⟩ := List.mem_map.1 hj
    have hline' := hall line hline
    rw [hjk, List.mem_singleton.1 hk] at hline'
    exact hnew line.2 hline'
  · rcases List.mem_append.1 hline with hline | hline
    · exact hPQ _ _ (hall line hline)
    · rw [List.mem_singleton.1 hline]
      exact hi

end

/-! ## The edge and the workers -/

/-- The programs as they are deployed, with the detector of the edge. -/
structure Studio where
  lib : Externals
  detect : Mat → List Str
  /-- The prefix each worker is started with. -/
  cdString : ℕ → Str
  options : ℕ → Options

/-- The edge, and each worker with the fetches from it; each fetch has the number it has at the
edge. -/
structure Premises where
  edge : Producer
  clouds : ℕ → Cloud
  /-- The fetches whose executors have been called. -/
  completed : List ℕ := []

/-- What can happen. -/
inductive Scene
  | interest (interest : Interest) (version : ℕ) (sessionId : UInt64)
  | expiry (sessionId : UInt64)
  | aborted (sessionId : UInt64)
  /-- Something happens to a worker or to a fetch from it. -/
  | cloud (worker : ℕ) (move : Move)
  /-- The executor of a fetch is called: segment `j` told that segment `n` is the last. -/
  | complete (worker fetch n j : ℕ)

namespace Studio

variable (D : Studio)

/-- A fetch begins as the edge began it, and its first Interest reaches a worker of its name. -/
def Routed (x : Premises) (k : ℕ) : Move → Prop
  | .discover i name => (x.edge.face.fetches[i]?).map (fun fetch => fetch.1.name) = some name ∧
    D.lib.ofUri (D.cdString k) <+: name
  | _ => True

instance (x : Premises) (k : ℕ) (move : Move) : Decidable (D.Routed x k move) := by
  cases move <;> (unfold Routed; infer_instance)

/-- One event: `none` if it cannot happen or a handler of the edge does not return. -/
def step (x : Premises) : Scene → Option Premises
  | .interest interest version s =>
    (x.edge.step D.lib (.interest interest version s)).map fun p => { x with edge := p }
  | .expiry s => (x.edge.step D.lib (.expiry s)).map fun p => { x with edge := p }
  | .aborted s => (x.edge.step D.lib (.aborted s)).map fun p => { x with edge := p }
  | .cloud k move =>
    if D.Routed x k move then
      ((x.clouds k).step D.lib move).map fun q =>
        { x with clouds := Function.update x.clouds k q }
    else none
  | .complete k i n j =>
    match (x.clouds k).fetchers i, x.edge.face.fetches[i]? with
    | some fetcher, some (_, executor) =>
      if i ∉ x.completed ∧ fetcher.Complete n j then
        match executor.afterFetchComplete D.lib D.detect (fetcher.bytes n) with
        | .error _ => none
        | .ok text => (x.edge.step D.lib (.result text)).map fun p =>
          { x with edge := p, completed := i :: x.completed }
      else none
    | _, _ => none

/-- Before anything happened; the edge is in cloud mode. -/
def start : Premises where
  edge := Producer.start (ch 'c')
  clouds k := Cloud.start (D.cdString k) (D.options k)

/-! ## The chain of a verdict -/

/-- What the edge reads of the name of a request. -/
def textOf (request : Interest) : Str := Producer.decodeURI (D.lib.toUri request.name)

/-- A client has asked for a target at a location, and the edge fetches with this name for it. -/
def Wanted (s : UInt64) (target l : Str) (name : Name) : List Scene → Prop :=
  Once fun _ e => ∃ request version targets, e = .interest request version s ∧
    targetsOf (D.textOf request) = target :: targets ∧ l ∈ locationsOf (D.textOf request) ∧
    name = pictureNameFor D.lib l (functionPart (D.textOf request))
      (targetPart (D.textOf request)) s

/-- A worker of that name has taken a picture for an Interest with it. -/
def Pictured (k : ℕ) (name : Name) (frame : Mat) (version : ℕ) : List Scene → Prop :=
  Once fun pre e => ∃ interest, e = .cloud k (.arrive interest frame version) ∧
    interest.name = name ∧ D.lib.ofUri (D.cdString k) <+: name ∧
    ∃ s target l, D.Wanted s target l name pre

/-- Fetch `i` was complete, and the edge has judged the picture that a worker had taken for the
session. -/
def Judged (s : UInt64) (i : ℕ) (text : Str) : List Scene → Prop :=
  Once fun pre e => ∃ k n j, e = .complete k i n j ∧ ∃ target l name frame version raw,
    D.Wanted s target l name pre ∧ D.Pictured k name frame version pre ∧
    Executor.rebuild D.lib frame.data = some raw ∧
    text = encode D.lib (replyFor l target (decimal s.toNat) (D.detect raw))

/-- A request, the names for which can be read. -/
def Locates : Scene → Prop
  | .interest request _ _ => ∀ l ∈ locationsOf (D.textOf request),
    Legible l (functionPart (D.textOf request)) (targetPart (D.textOf request))
  | _ => True

/-! ## What every run keeps -/

variable {D}

/-- A fetch is one for a session and a location that a client has asked for. -/
def IsFetch (D : Studio) (es : List Scene) (fetch : Interest × Executor) : Prop :=
  ∃ s target l, D.Wanted s target l fetch.1.name es ∧ fetch.2.locationName = l ∧
    fetch.2.targetName = target ∧ fetch.2.sessionId = decimal s.toNat

/-- What every run keeps. -/
structure Sound (D : Studio) (es : List Scene) (x : Premises) : Prop where
  edgeMode : x.edge.edgeMode = ch 'c'
  consistent : ∀ k, Consistent (D.options k) (x.clouds k)
  fetches : ∀ (i : ℕ) fetch, x.edge.face.fetches[i]? = some fetch → D.IsFetch es fetch
  completed : ∀ i ∈ x.completed, i < x.edge.face.fetches.length
  /-- Workers are asked with the names of fetches. -/
  sent : ∀ k, ∀ interest ∈ (x.clouds k).sent, Unversioned interest.name →
    D.lib.ofUri (D.cdString k) <+: interest.name ∧
      ∃ (i : ℕ) (fetch : Interest × Executor), x.edge.face.fetches[i]? = some fetch ∧
        fetch.1.name = interest.name
  /-- A fetcher has the name of its fetch, and its version is one of a name that extends it. -/
  fetchers : ∀ k i fetcher, (x.clouds k).fetchers i = some fetcher →
    ∃ fetch, x.edge.face.fetches[i]? = some fetch ∧ fetcher.discovery.name = fetch.1.name ∧
      ∀ versioned, fetcher.version = some versioned →
        ∃ j, fetch.1.name <+: versioned ++ [.segment j]
  /-- A picture was taken for a fetch. -/
  captures : ∀ k, ∀ c ∈ (x.clouds k).captures, ∃ name frame,
    D.Pictured k name frame c.version es ∧ c.versioned = name ++ [.version c.version] ∧
      c.bytes = frame.data
  views : ∀ s, (x.edge.view s).Carries
    (fun session => EachOnce (fun i text => i ∈ x.completed ∧ D.Judged s i text es) session.buffer)
    fun packet => EachOnce (fun i text => i ∈ x.completed ∧ D.Judged s i text es) packet.content

section

variable {es : List Scene} {x x' : Premises} {p p' : Producer}

theorem Sound.later (h : D.Sound es x) (fs : List Scene) : D.Sound (es ++ fs) x := by
  have hlines : ∀ s content,
      EachOnce (fun i text => i ∈ x.completed ∧ D.Judged s i text es) content →
      EachOnce (fun i text => i ∈ x.completed ∧ D.Judged s i text (es ++ fs)) content :=
    fun s content hlines => hlines.imp fun i text hi => ⟨hi.1, hi.2.later fs⟩
  refine ⟨h.edgeMode, h.consistent, fun i fetch hfetch => ?_, h.completed, h.sent, h.fetchers,
    fun k c hc => ?_, fun s => ⟨fun session hs => hlines s _ ((h.views s).held session hs),
      fun packet hp => hlines s _ ((h.views s).put packet hp)⟩⟩
  · obtain ⟨s, target, l, hwanted, hfields⟩ := h.fetches i fetch hfetch
    exact ⟨s, target, l, hwanted.later fs, hfields⟩
  · obtain ⟨name, frame, hpictured, hrest⟩ := h.captures k c hc
    exact ⟨name, frame, hpictured.later fs, hrest⟩

/-- In cloud mode the edge begins fetches for the locations of a request, and no others. -/
theorem fetches_step (hmode : p.edgeMode = ch 'c') {e : Event} (h : p.step D.lib e = some p') :
    ∃ new, p'.face.fetches = p.face.fetches ++ new ∧ ∀ fetch ∈ new, ∃ request version s target
      targets l, e = .interest request version s ∧
        targetsOf (D.textOf request) = target :: targets ∧ l ∈ locationsOf (D.textOf request) ∧
        fetch = (Producer.reInterest D.lib (nameFor l (functionPart (D.textOf request))
            (targetPart (D.textOf request))) s,
          executorFor D.lib s (functionPart (D.textOf request)) (targetPart (D.textOf request))
            target l) := by
  have hsame : ∀ q : Producer, q.face.fetches = p.face.fetches → ∃ new,
      q.face.fetches = p.face.fetches ++ new ∧ ∀ fetch ∈ new, ∃ request version s target
      targets l, e = .interest request version s ∧
        targetsOf (D.textOf request) = target :: targets ∧ l ∈ locationsOf (D.textOf request) ∧
        fetch = (Producer.reInterest D.lib (nameFor l (functionPart (D.textOf request))
            (targetPart (D.textOf request))) s,
          executorFor D.lib s (functionPart (D.textOf request)) (targetPart (D.textOf request))
            target l) := fun q hq =>
    ⟨[], by rw [hq, List.append_nil], fun fetch hfetch => absurd hfetch List.not_mem_nil⟩
  cases Producer.step_iff.1 h with
  | @asked request version s _ accepted =>
    obtain ⟨hok, -⟩ := Producer.ledger_handleInterest rfl accepted
    obtain ⟨target, targets, htargets⟩ := List.exists_cons_of_ne_nil
      (List.splitOn_ne_nil (ch ',') (keyText (targetPart (D.textOf request))))
    refine ⟨_, fetches_of_step hmode rfl hok htargets h, fun fetch hfetch => ?_⟩
    obtain ⟨l, hl, rfl⟩ := List.mem_map.1 hfetch
    exact ⟨request, version, s, target, targets, l, rfl, htargets, hl, rfl⟩
  | dropped payload unnamed => exact hsame _ rfl
  | @replied _ s text named =>
    apply hsame
    split
    · exact (Deployment.face_finish (p.collect text s) s).2
    · rfl
  | @expired s armed =>
    exact hsame _ (Deployment.face_finish { p with timers := p.timers.fire s } s).2
  | @called s pending =>
    exact hsame _ (Deployment.face_finish { p with timers := p.timers.call s } s).2

/-- **An event at the edge keeps the chain**, if the reply it brings is the verdict of a fetch that
had not been judged. -/
theorem sound_edge (h : D.Sound es x) {scene : Scene} {e : Event}
    (hstep : x.edge.step D.lib e = some p')
    (hasked : ∀ request version s, e = .interest request version s →
      scene = .interest request version s)
    {completed : List ℕ} (hkeeps : ∀ i ∈ x.completed, i ∈ completed)
    (hcompleted : ∀ i ∈ completed, i < x.edge.face.fetches.length)
    (hnamed : ∀ s text, e.named D.lib = some (s, text) →
      ∃ i ∈ completed, i ∉ x.completed ∧ D.Judged s i text (es ++ [scene])) :
    D.Sound (es ++ [scene]) { x with edge := p', completed := completed } := by
  obtain ⟨new, hfetches, hnew⟩ := fetches_step h.edgeMode hstep
  have hlater := h.later [scene]
  have hkept : ∀ (i : ℕ) fetch, x.edge.face.fetches[i]? = some fetch →
      p'.face.fetches[i]? = some fetch := by
    intro i fetch hfetch
    rw [hfetches, List.getElem?_append_left (List.getElem?_eq_some_iff.1 hfetch).1, hfetch]
  refine ⟨(Producer.edgeMode_step hstep).trans h.edgeMode, h.consistent, fun i fetch hfetch => ?_,
    fun i hi => ?_, fun k interest hsent hname => ?_, fun k i fetcher hi => ?_, hlater.captures,
    fun s => View.Carries.step (Producer.view_step hstep s) (hlater.views s)
      (fun session hs => hs.imp fun i text hi => ⟨hkeeps i hi.1, hi.2⟩)
      (fun packet hp => hp.imp fun i text hi => ⟨hkeeps i hi.1, hi.2⟩)
      (fun _ _ _ => eachOnce_nil) (fun session text htext hs => ?_) fun _ hs => hs⟩
  · change p'.face.fetches[i]? = some fetch at hfetch
    rw [hfetches] at hfetch
    rcases List.mem_append.1 (List.mem_of_getElem? hfetch) with hold | hold
    · obtain ⟨j, hj⟩ := List.getElem?_of_mem hold
      exact hlater.fetches j fetch hj
    · obtain ⟨request, version, s, target, targets, l, he, htargets, hl, rfl⟩ := hnew fetch hold
      refine ⟨s, target, l, once_last ⟨request, version, targets, ?_, htargets, hl, rfl⟩, rfl, rfl,
        rfl⟩
      exact hasked request version s he
  · change i < p'.face.fetches.length
    rw [hfetches, List.length_append]
    exact Nat.lt_add_right _ (hcompleted i hi)
  · obtain ⟨hreached, i, fetch, hfetch, heq⟩ := h.sent k interest hsent hname
    exact ⟨hreached, i, fetch, hkept i fetch hfetch, heq⟩
  · obtain ⟨fetch, hfetch, hrest⟩ := h.fetchers k i fetcher hi
    exact ⟨fetch, hkept i fetch hfetch, hrest⟩
  · obtain ⟨i, hi, hnew, hjudged⟩ := hnamed s text htext
    exact hs.concat (fun i text hold => ⟨hkeeps i hold.1, hold.2⟩) ⟨hi, hjudged⟩
      fun text hold => hnew hold.1

/-- **A move at a worker or a fetch keeps the chain.** -/
theorem sound_cloud (hreshape : D.lib.ReshapeDocumented) (h : D.Sound es x) {k : ℕ} {move : Move}
    (hrouted : D.Routed x k move) {q : Cloud} (hstep : (x.clouds k).step D.lib move = some q) :
    D.Sound (es ++ [.cloud k move]) { x with clouds := Function.update x.clouds k q } := by
  have hmove := cloudStep_of_step hstep
  have hlater := h.later [.cloud k move]
  have hother : ∀ k' ≠ k, ({ x with clouds := Function.update x.clouds k q } : Premises).clouds k' =
      x.clouds k' := fun k' hk => Function.update_of_ne hk q x.clouds
  have hself : ({ x with clouds := Function.update x.clouds k q } : Premises).clouds k = q :=
    Function.update_self k q x.clouds
  have hdiscover : ∀ i name, move = .discover i name → D.lib.ofUri (D.cdString k) <+: name ∧
      ∃ fetch, x.edge.face.fetches[i]? = some fetch ∧ fetch.1.name = name := by
    rintro i name rfl
    obtain ⟨hfetch, hreached⟩ := hrouted
    obtain ⟨fetch, hfetch, hname⟩ := Option.map_eq_some_iff.1 hfetch
    exact ⟨hreached, fetch, hfetch, hname⟩
  refine ⟨h.edgeMode, fun k' => ?_, hlater.fetches, h.completed,
    fun k' interest hsent hname => ?_, fun k' i fetcher hi => ?_, fun k' c hc => ?_,
    hlater.views⟩ <;> by_cases hk : k' = k
  · rw [hk, hself]
    exact consistent_step hreshape (h.consistent k) hstep
  · rw [hother k' hk]
    exact h.consistent k'
  · rw [hk, hself] at hsent
    rw [hk]
    rcases hmove.sent hsent hname with hold | ⟨i, rfl⟩
    · exact h.sent k interest hold hname
    · obtain ⟨hreached, fetch, hfetch, heq⟩ := hdiscover i interest.name rfl
      exact ⟨hreached, i, fetch, hfetch, heq⟩
  · rw [hother k' hk] at hsent
    exact h.sent k' interest hsent hname
  · rw [hk, hself] at hi
    rcases hmove.fetchers hi with ⟨rfl, hnone⟩ | ⟨old, hold, hdiscovery, hversion⟩
    · obtain ⟨-, fetch, hfetch, heq⟩ := hdiscover i _ rfl
      refine ⟨fetch, hfetch, heq.symm, fun versioned hsome => ?_⟩
      exact absurd (hsome.symm.trans hnone) (Option.some_ne_none _)
    · obtain ⟨fetch, hfetch, heq, hprefix⟩ := h.fetchers k i old hold
      refine ⟨fetch, hfetch, (congrArg _ hdiscovery).trans heq, fun versioned hsome => ?_⟩
      rcases hversion with hsame | ⟨new, j, hnew, hsatisfied⟩
      · exact hprefix versioned (hsame ▸ hsome)
      · obtain rfl := Option.some.inj (hnew.symm.trans hsome)
        rw [← heq]
        exact ⟨j, Deployment.prefix_of_satisfied hsatisfied⟩
  · rw [hother k' hk] at hi
    exact h.fetchers k' i fetcher hi
  · rw [hk, hself] at hc
    rw [hk]
    rcases hmove.captures hc with hold | ⟨interest, frame, version, rfl, hsent, hname, rfl⟩
    · exact hlater.captures k c hold
    · obtain ⟨hreached, i, fetch, hfetch, heq⟩ := h.sent k interest hsent hname
      obtain ⟨s, target, l, hwanted, -⟩ := h.fetches i fetch hfetch
      refine ⟨interest.name, frame, once_last ⟨interest, rfl, rfl, hreached, s, target, l, ?_⟩, rfl,
        rfl⟩
      rwa [← heq]
  · rw [hother k' hk] at hc
    exact hlater.captures k' c hc

/-- The names that are wanted are names of pictures. -/
theorem Wanted.isPictureName {s : UInt64} {target l : Str} {name : Name}
    (h : D.Wanted s target l name es) (hlocates : ∀ e ∈ es, D.Locates e) :
    IsPictureName D.lib name := by
  obtain ⟨e, he, pre, request, version, targets, rfl, -, hl, rfl⟩ := h.exists_mem
  exact ⟨l, _, _, s, hlocates _ he l hl, subFields_of_mem hl, rfl⟩

theorem Pictured.isPictureName {k : ℕ} {name : Name} {frame : Mat} {version : ℕ}
    (h : D.Pictured k name frame version es) (hlocates : ∀ e ∈ es, D.Locates e) :
    IsPictureName D.lib name := by
  obtain ⟨pre, e, post, rfl, interest, -, -, -, s, target, l, hwanted⟩ := h
  exact Wanted.isPictureName hwanted fun e he => hlocates e (List.mem_append_left _ he)

/-- A name of a picture that begins the name of a packet begins what comes before the version. -/
theorem prefix_of_isPictureName (hlib : D.lib.UriDocumented) {name name' : Name}
    (h : IsPictureName D.lib name) {v j : ℕ} (hp : name <+: name' ++ [.version v] ++ [.segment j]) :
    name <+: name' := by
  obtain ⟨l, f, t, s, hlegible, hfields, rfl⟩ := h
  have hlast : (pictureNameFor D.lib l f t s).getLast? = some (.generic (decimal s.toNat)) := by
    rw [pictureNameFor_eq hlib hlegible hfields, List.getLast?_append]
    rfl
  rcases List.prefix_concat_iff.1 hp with heq | hp
  · rw [heq, List.getLast?_concat] at hlast
    exact absurd (Option.some.inj hlast) (by simp)
  · rcases List.prefix_concat_iff.1 hp with heq | hp
    · rw [heq, List.getLast?_concat] at hlast
      exact absurd (Option.some.inj hlast) (by simp)
    · exact hp

/-- **The executor of a complete fetch judges the picture that was taken for it.** -/
theorem judged_of_complete (hlib : D.lib.UriDocumented) (hjson : D.lib.JsonDocumented)
    (hcast : D.lib.CastDocumented) (h : D.Sound es x) (hlocates : ∀ e ∈ es, D.Locates e)
    {k i n j : ℕ} {fetcher : Fetcher} {fetch : Interest × Executor}
    (hi : (x.clouds k).fetchers i = some fetcher)
    (hfetch : x.edge.face.fetches[i]? = some fetch) (hcomplete : fetcher.Complete n j) {text : Str}
    (htext : fetch.2.afterFetchComplete D.lib D.detect (fetcher.bytes n) = .ok text) {s : UInt64}
    (hnamed : (Event.result text).named D.lib = some (s, text)) :
    D.Judged s i text (es ++ [.complete k i n j]) := by
  obtain ⟨s', target, l, hwanted, hlocation, htarget, hid⟩ := h.fetches i fetch hfetch
  obtain ⟨c, hc, hversion, hbytes⟩ := (h.consistent k).bytes_eq hi hcomplete
  obtain ⟨name, frame, hpictured, hversioned, hframe⟩ := h.captures k c hc
  obtain ⟨fetch', hfetch', -, hprefix⟩ := h.fetchers k i fetcher hi
  obtain rfl := Option.some.inj (hfetch.symm.trans hfetch')
  -- the picture was taken for this fetch
  have hname : fetch.1.name = name := by
    obtain ⟨j', hp⟩ := hprefix _ hversion
    rw [hversioned] at hp
    have hpicture := Wanted.isPictureName hwanted hlocates
    exact eq_of_name_prefix hlib hpicture (Pictured.isPictureName hpictured hlocates)
      (prefix_of_isPictureName hlib hpicture hp)
  rw [Executor.afterFetchComplete_eq, hbytes, hframe] at htext
  cases hraw : Executor.rebuild D.lib frame.data with
  | none =>
    rw [hraw] at htext
    exact absurd htext (by simp)
  | some raw =>
    rw [hraw] at htext
    have hreply : text = encode D.lib (fetch.2.reply (D.detect raw)) := (Except.ok.inj htext).symm
    obtain ⟨-, hsession⟩ := Event.of_named hnamed
    rw [hreply, Producer.sessionIdOf_encode hjson hcast hid, Except.ok.injEq,
      Option.some.injEq] at hsession
    subst hsession
    refine once_last ⟨k, n, j, rfl, target, l, name, frame, c.version, raw, hname ▸ hwanted,
      hpictured, hraw, ?_⟩
    rw [hreply, Executor.reply, hlocation, htarget, hid]

/-- An event that brings no reply names no session. -/
theorem named_of_payload {e : Event} (he : e.payload = none) {s : UInt64} {text : Str} :
    e.named D.lib ≠ some (s, text) := by
  intro hnamed
  have hpayload := (Event.of_named hnamed).1
  rw [he] at hpayload
  exact absurd hpayload.symm (Option.some_ne_none _)

/-- **Every event keeps the chain.** -/
theorem sound_step (hlib : D.lib.UriDocumented) (hjson : D.lib.JsonDocumented)
    (hcast : D.lib.CastDocumented) (hreshape : D.lib.ReshapeDocumented) (h : D.Sound es x)
    (hlocates : ∀ e ∈ es, D.Locates e) {scene : Scene} (hstep : D.step x scene = some x') :
    D.Sound (es ++ [scene]) x' := by
  cases scene with
  | interest request version s =>
    obtain ⟨p, hp, rfl⟩ := Option.map_eq_some_iff.1 hstep
    refine sound_edge h hp (fun request' version' s' he => ?_) (fun _ hi => hi) h.completed
      fun s' text hnamed => ?_
    · obtain ⟨rfl, rfl, rfl⟩ := Event.interest.inj he
      rfl
    · exact absurd hnamed (named_of_payload rfl)
  | expiry s =>
    obtain ⟨p, hp, rfl⟩ := Option.map_eq_some_iff.1 hstep
    exact sound_edge h hp (fun _ _ _ he => Event.noConfusion he) (fun _ hi => hi) h.completed
      fun _ _ hnamed => absurd hnamed (named_of_payload rfl)
  | aborted s =>
    obtain ⟨p, hp, rfl⟩ := Option.map_eq_some_iff.1 hstep
    exact sound_edge h hp (fun _ _ _ he => Event.noConfusion he) (fun _ hi => hi) h.completed
      fun _ _ hnamed => absurd hnamed (named_of_payload rfl)
  | cloud k move =>
    simp only [step] at hstep
    rw [Option.ite_none_right_eq_some] at hstep
    obtain ⟨hrouted, hstep⟩ := hstep
    obtain ⟨q, hq, rfl⟩ := Option.map_eq_some_iff.1 hstep
    exact sound_cloud hreshape h hrouted hq
  | complete k i n j =>
    simp only [step] at hstep
    split at hstep
    · rename_i fetcher interest executor hi hfetch
      rw [Option.ite_none_right_eq_some] at hstep
      obtain ⟨⟨hnew, hcomplete⟩, hstep⟩ := hstep
      split at hstep
      · exact absurd hstep.symm (Option.some_ne_none _)
      · rename_i text htext
        obtain ⟨p, hp, rfl⟩ := Option.map_eq_some_iff.1 hstep
        refine sound_edge h hp (fun _ _ _ he => Event.noConfusion he)
          (fun _ hi => List.mem_cons_of_mem _ hi) (fun i' hi' => ?_) fun s text' hnamed => ?_
        · rcases List.mem_cons.1 hi' with rfl | hi'
          · exact (List.getElem?_eq_some_iff.1 hfetch).1
          · exact h.completed i' hi'
        · obtain rfl := Option.some.inj (Event.of_named hnamed).1
          exact ⟨i, List.mem_cons_self, hnew,
            judged_of_complete hlib hjson hcast h hlocates hi hfetch hcomplete htext hnamed⟩
    · exact absurd hstep.symm (Option.some_ne_none _)

theorem sound_start : D.Sound [] D.start where
  edgeMode := rfl
  consistent k := consistent_start (D.cdString k) (D.options k)
  fetches _ _ hfetch := absurd hfetch.symm (Option.some_ne_none _)
  completed _ hi := absurd hi List.not_mem_nil
  sent _ _ hsent := absurd hsent List.not_mem_nil
  fetchers _ _ _ hi := absurd hi.symm (Option.some_ne_none _)
  captures _ _ hc := absurd hc List.not_mem_nil
  views _ := {
    held := fun _ hs => absurd hs.symm (Option.some_ne_none _)
    put := fun _ hp => absurd hp List.not_mem_nil }

/-- **Every run keeps the chain.** -/
theorem sound_run (hlib : D.lib.UriDocumented) (hjson : D.lib.JsonDocumented)
    (hcast : D.lib.CastDocumented) (hreshape : D.lib.ReshapeDocumented)
    (hlocates : ∀ e ∈ es, D.Locates e) (hrun : Runs.exec D.step D.start es = some x) :
    D.Sound es x := by
  refine Runs.history (P := fun es x => (∀ e ∈ es, D.Locates e) → D.Sound es x)
    (fun _ => sound_start) (fun es x e x' _ ih hstep hlocates => ?_) es x hrun hlocates
  have hbefore : ∀ e ∈ es, D.Locates e := fun e he => hlocates e (List.mem_append_left _ he)
  exact sound_step hlib hjson hcast hreshape (ih hbefore) hbefore hstep

/-- **No verdict on a stray picture, and none twice.**  Whatever the order of the requests, the
fetches and the timers, and whatever the network does to the packets of the fetches, each line of a
Data packet that the edge puts for a session is what its detector says about a picture that a worker
had taken, for the Interest of that very session and of a location that a request of the session
names; and no two of its lines are of one fetch. -/
theorem no_stray_picture (hlib : D.lib.UriDocumented) (hjson : D.lib.JsonDocumented)
    (hcast : D.lib.CastDocumented) (hreshape : D.lib.ReshapeDocumented)
    (hrun : Runs.exec D.step D.start es = some x) (hlocates : ∀ e ∈ es, D.Locates e) {s : UInt64}
    {packet : Data} (hput : (s, packet) ∈ x.edge.face.puts) :
    ∃ lines : List (ℕ × Str), packet.content = collected (lines.map Prod.snd) ∧
      (lines.map Prod.fst).Nodup ∧ ∀ line ∈ lines, D.Judged s line.1 line.2 es := by
  obtain ⟨lines, hcontent, hnodup, hall⟩ :=
    ((sound_run hlib hjson hcast hreshape hlocates hrun).views s).put packet
      (Deployment.mem_putsFor.2 hput)
  exact ⟨lines, hcontent, hnodup, fun line hline => (hall line hline).2⟩

end

/-! ## One picture -/

/-- One worker with a narrow camera, and a detector that sees a person. -/
def oneCamera : Studio where
  lib := reference
  detect _ := [txt "person"]
  cdString _ := txt "/3"
  options := Deployment.oneWorker.options

/-- A request for a person there. -/
def cameraRequest : Interest where
  name := reference.ofUri (txt "/icn2020/edge/#f:detect/#a:[3] #a:[person]")
  canBePrefix := true
  mustBeFresh := true

/-- The picture, as the worker puts it. -/
def cameraPacket : Data :=
  (Worker.storedPacket 8000 (pictureName ++ [.version 1]) (blackFrame 480 1 3).data 0).sign

/-- The edge fetches a picture and judges it. -/
def onePicture : List Scene := [
  .interest cameraRequest 1 7,
  .cloud 0 (.discover 0 pictureName),
  .cloud 0 (.arrive { name := pictureName, canBePrefix := true, mustBeFresh := true }
    (blackFrame 480 1 3) 1),
  .cloud 0 (.first 0 cameraPacket),
  .complete 0 0 0 0]

theorem exists_exec_onePicture : ∃ x packet, Runs.exec oneCamera.step oneCamera.start onePicture =
    some x ∧ (7, packet) ∈ x.edge.face.puts ∧ packet.content ≠ [] := by
  have hsome : ((Runs.exec oneCamera.step oneCamera.start onePicture).map fun x =>
      x.edge.face.puts.map fun put => (put.1, put.2.content.isEmpty)) = some [(7, false)] := by
    decide +kernel
  obtain ⟨x, hx, heq⟩ := Option.map_eq_some_iff.1 hsome
  obtain ⟨⟨s, packet⟩, hput, hone⟩ := List.mem_map.1
    (show (7, false) ∈ x.edge.face.puts.map fun put => (put.1, put.2.content.isEmpty) by
      rw [heq]
      exact List.mem_singleton_self _)
  obtain ⟨rfl, hcontent⟩ := Prod.mk.inj hone
  exact ⟨x, packet, hx, hput, List.isEmpty_eq_false_iff.1 hcontent⟩

/-- The verdict of that run is on the picture that was taken. -/
theorem no_stray_picture_onePicture : ∃ i text, oneCamera.Judged 7 i text onePicture := by
  obtain ⟨x, packet, hrun, hput, hcontent⟩ := exists_exec_onePicture
  have hlocates : ∀ e ∈ onePicture, oneCamera.Locates e := by
    have hrequest : oneCamera.Locates (.interest cameraRequest 1 7) := by
      change ∀ l ∈ locationsOf (oneCamera.textOf cameraRequest),
        Legible l (functionPart (oneCamera.textOf cameraRequest))
          (targetPart (oneCamera.textOf cameraRequest))
      decide +kernel
    unfold onePicture
    simp only [List.forall_mem_cons]
    exact ⟨hrequest, trivial, trivial, trivial, trivial, fun e he => absurd he List.not_mem_nil⟩
  obtain ⟨lines, hlines, -, hjudged⟩ := no_stray_picture reference_uri reference_json
    reference_cast reference_reshape hrun hlocates hput
  cases lines with
  | nil => exact absurd hlines hcontent
  | cons line lines => exact ⟨line.1, line.2, hjudged line List.mem_cons_self⟩

end Studio

end Crowdsensing
