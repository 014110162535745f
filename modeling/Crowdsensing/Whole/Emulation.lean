import Crowdsensing.Whole.Fetches

/-!
# Workers in emulation mode

A worker that is started in emulation mode has no camera: its detector tells ten names of
`coco.names`, drawn anew for each request, and its picture is small and black.

* `EmulateObjectDetection.ofFile`, `EmulateObjectDetection.detect` — the detector, which shuffles
  its names in place.
* `EmulateObjectDetection.Sees` — what one detector sees, call after call.
* `Deployment.person_never_found` — **in edge mode no emulating worker finds a person**, and what
  is found is a name of its file.
* `Studio.emulated_silent` — **in cloud mode no picture of an emulating worker is judged**, and all
  the edge puts is empty.
-/

namespace Crowdsensing

open Text Networks

/-! ## The detector -/

/-- The lines `std::getline` reads of a file, one after another. -/
def getlines (file : Str) : List Str :=
  let pieces := file.splitOn (ch '\n')
  if pieces.getLast? = some [] then pieces.dropLast else pieces

/-- `EmulateObjectDetection`. -/
structure EmulateObjectDetection where
  classes : List Str

namespace EmulateObjectDetection

/-- The constructor, with what is in `coco.names`. -/
def ofFile (file : Str) : EmulateObjectDetection where
  classes := (getlines file).filter fun line => line ≠ txt "person"

/-- `EmulateObjectDetection::detect`, with what `std::shuffle` makes of the classes: `none` if it
cannot make that of them, and if there are no ten names to copy. -/
def detect (e : EmulateObjectDetection) (shuffled : List Str) :
    Option (EmulateObjectDetection × List Str) :=
  if shuffled.Perm e.classes ∧ 10 ≤ shuffled.length then
    some ({ classes := shuffled }, shuffled.take 10)
  else none

/-- The labels of these arrivals are what one detector sees: it is called for each in edge mode. -/
inductive Sees : EmulateObjectDetection → List Arrival → Prop
  | nil (e : EmulateObjectDetection) : Sees e []
  | detected {e e' : EmulateObjectDetection} {a : Arrival} {arrivals : List Arrival}
    (shuffled : List Str) (mode : Worker.modeOf a.interest = txt "e")
    (seen : e.detect shuffled = some (e', a.labels)) (rest : Sees e' arrivals) :
    Sees e (a :: arrivals)
  | other {e : EmulateObjectDetection} {a : Arrival} {arrivals : List Arrival}
    (mode : Worker.modeOf a.interest ≠ txt "e") (rest : Sees e arrivals) : Sees e (a :: arrivals)

variable {e e' : EmulateObjectDetection} {labels : List Str}

/-- **A call keeps the names**, and tells ten of them, each line at most once. -/
theorem detect_eq_some {shuffled : List Str} (h : e.detect shuffled = some (e', labels)) :
    e'.classes.Perm e.classes ∧ labels.length = 10 ∧ labels.Subperm e.classes := by
  unfold detect at h
  rw [Option.ite_none_right_eq_some, Option.some.injEq, Prod.mk.injEq] at h
  obtain ⟨⟨hperm, hten⟩, rfl, rfl⟩ := h
  refine ⟨hperm, ?_, (List.take_sublist 10 shuffled).subperm.trans hperm.subperm⟩
  rw [List.length_take]
  omega

/-- **So does every call**: the names are those of the beginning. -/
theorem Sees.told {arrivals : List Arrival} (h : e.Sees arrivals) {a : Arrival}
    (ha : a ∈ arrivals) (hmode : Worker.modeOf a.interest = txt "e") :
    a.labels.length = 10 ∧ a.labels.Subperm e.classes := by
  induction h with
  | nil => exact absurd ha List.not_mem_nil
  | detected shuffled mode seen rest ih =>
    obtain ⟨hperm, hten, hsubperm⟩ := detect_eq_some seen
    rcases List.mem_cons.1 ha with rfl | ha
    · exact ⟨hten, hsubperm⟩
    · obtain ⟨hlength, hrest⟩ := ih ha
      exact ⟨hlength, hrest.trans hperm.subperm⟩
  | other mode rest ih =>
    rcases List.mem_cons.1 ha with rfl | ha
    · exact absurd hmode mode
    · exact ih ha

theorem mem_ofFile {file name : Str} :
    name ∈ (ofFile file).classes ↔ name ∈ getlines file ∧ name ≠ txt "person" := by
  rw [ofFile, List.mem_filter, decide_eq_true_iff]

end EmulateObjectDetection

/-! ## In edge mode -/

namespace Deployment

variable {D : Deployment} {es : History} {c : Config Message Party.State}

/-- Every worker has an emulated detector, with these files. -/
def Emulates (file : ℕ → Str) (es : History) : Prop :=
  ∀ k, (EmulateObjectDetection.ofFile (file k)).Sees (Network.eventsOf (.worker k) es)

/-- What an emulating worker tells. -/
theorem Told.emulated {file : ℕ → Str} (hemulates : Emulates file es) {s : UInt64} {r : Reply}
    (h : D.Told s r es) (hfound : r.isFound = true) :
    r.target ≠ txt "person" ∧ ∃ k, r.target ∈ getlines (file k) := by
  obtain ⟨e, he, pre, k, a, target, targets, rfl, hasked, -, -, rfl⟩ := h.exists_mem
  obtain ⟨_, -, _, _, _, _, -, -, -, name, -, hname⟩ := hasked.exists_mem
  have hmode : Worker.modeOf a.interest = txt "e" := by
    rw [hname]
    rfl
  have hseen := ((hemulates k).told (Network.mem_eventsOf.2 he) hmode).2
  have htarget : target ∈ a.labels := of_decide_eq_true hfound
  obtain ⟨hline, hperson⟩ := EmulateObjectDetection.mem_ofFile.1 (hseen.subset htarget)
  exact ⟨hperson, k, hline⟩

/-- **No emulating worker finds a person.**  If all workers are in emulation mode, then, whatever
the order of events and whatever the network does, each reply in a Data packet of the edge that
says a target was found is about another name of the file of some worker, and so is the verdict
behind each cell of a map that is marked as found. -/
theorem person_never_found (hD : D.Documented) (hapart : D.Apart)
    (hrun : Runs.exec D.network.step D.begin es = some c)
    (hregisters : ∀ e ∈ es, D.RegistersRequest e) {file : ℕ → Str} (hemulates : Emulates file es) :
    (∀ s packet, (s, packet) ∈ (c.states .edge).face.puts → ∃ replies,
      packet.content = Client.contentOf D.lib replies ∧ ∀ r ∈ replies, r.isFound = true →
        r.target ≠ txt "person" ∧ ∃ k, r.target ∈ getlines (file k)) ∧
    ∀ k x y, (c.states (.page k)).mark x y = 1 → ∃ s r, D.Told s r es ∧
      Client.cellOf D.browser (D.browser.result r) = (x, y) ∧ r.isFound = true ∧
        r.target ≠ txt "person" ∧ ∃ k, r.target ∈ getlines (file k) := by
  have hfair := (fair hD hapart hrun hregisters).1
  constructor
  · intro s packet hput
    obtain ⟨-, replies, hcontent, htold⟩ := EdgeFair.puts (hfair .edge) s packet hput
    exact ⟨replies, hcontent, fun r hr => Told.emulated hemulates (htold r hr)⟩
  · intro k x y hmark
    obtain ⟨events, halone, hbrings⟩ := PageFair.alone (hfair (.page k))
    have hlast := Client.mark_run hD.json hD.browser halone x y
    rcases Runs.lastWrite_cases (Client.goesTo D.browser x y) Client.markOf
      (Runs.gathered (Client.step D.lib D.browser) (Client.shown D.lib D.browser) Client.start
        events) 0 with hnone | ⟨result, hresult, hgoes, hvalue⟩
    · exact absurd (hmark.symm.trans (hlast.trans hnone)) (by decide)
    · obtain ⟨s, r, htold, rfl⟩ := told_of_shown halone hbrings hresult
      have hfound : r.isFound = true := by
        have hone : (if r.isFound then 1 else 2) = 1 :=
          (hlast.trans hvalue).symm.trans hmark
        by_contra hno
        rw [if_neg hno] at hone
        exact absurd hone (by decide)
      exact ⟨s, r, htold, of_decide_eq_true hgoes, hfound, Told.emulated hemulates htold hfound⟩

/-! ## A car is found -/

/-- A few lines of `coco.names`. -/
def fewNames : Str :=
  txt "person\nbicycle\ncar\nmotorbike\naeroplane\nbus\ntrain\ntruck\nboat\nbench\nbird\n"

/-- The name of a request for a car. -/
def carName : JsString := js "/icn2020/edge/#f:detect/#a:[30321] #a:[car]"

/-- The sub-Interest for it. -/
def carSub : Interest :=
  subInterest reference (ch 'e') 7 (txt "/3/0/3/2/1/#f:detect/#a:[30321] #a:[car]")

/-- What the worker gets; the names are told in the order they stand in the file. -/
def carArrival : Arrival where
  interest := carSub
  labels := (EmulateObjectDetection.ofFile fewNames).classes.take 10
  frame := EmulateObjectDetection.returnMat
  version := 1

/-- A page asks for a car, and the worker draws it. -/
def carRound : History := [
  ⟨.page 0, PageInput.registerTarget (js "car") carName⟩,
  ⟨.page 0, PageInput.tick⟩,
  ⟨.edge, Event.interest (oneWorker.interestOf carName) 1 7⟩,
  ⟨.worker 0, carArrival⟩,
  ⟨.edge, Event.data carSub ((Worker.start (oneWorker.cdString 0) (oneWorker.options 0)).edgeData
    reference carSub (txt "car") (decimal 7) carArrival.labels)⟩,
  ⟨.page 0, PageInput.data 0 ((packetFor (oneWorker.interestOf carName) 1).setContent
    (Client.contentOf reference [replyFor (txt "30321") (txt "car") (txt "7") [txt "car"]]))⟩]

theorem emulates_carRound : Emulates (fun _ => fewNames) carRound := by
  intro k
  by_cases hk : k = 0
  · have hone : Network.eventsOf (.worker 0) carRound = [carArrival] := rfl
    rw [hk, hone]
    exact .detected (EmulateObjectDetection.ofFile fewNames).classes rfl
      (if_pos ⟨.refl _, by decide +kernel⟩) (.nil _)
  · have hnone : Network.eventsOf (.worker k) carRound = [] := by
      refine List.eq_nil_iff_forall_not_mem.2 fun a ha => hk ?_
      have hmem : k = 0 ∧ a = carArrival := by
        simpa [carRound] using Network.mem_eventsOf.1 ha
      exact hmem.1
    rw [hnone]
    exact .nil _

/-- The mark of that round is not about a person. -/
theorem person_never_found_carRound : ∃ c, Runs.exec oneWorker.network.step oneWorker.begin
    carRound = some c ∧ ∃ s r, oneWorker.Told s r carRound ∧ r.isFound = true ∧
      r.target ≠ txt "person" := by
  have hsome : (Runs.exec oneWorker.network.step oneWorker.begin carRound).map (fun c =>
      (c.states (.page 0)).mark 5 6) = some 1 := by decide +kernel
  obtain ⟨c, hrun, hmark⟩ := Option.map_eq_some_iff.1 hsome
  have hregisters : ∀ e ∈ carRound, oneWorker.RegistersRequest e := by
    have hname : oneWorker.IsRequest (oneWorker.interestOf carName) := by
      constructor
      · decide +kernel
      · decide +kernel
    unfold carRound
    simp only [List.forall_mem_cons]
    exact ⟨hname, trivial, trivial, trivial, trivial, trivial,
      fun e he => absurd he List.not_mem_nil⟩
  obtain ⟨s, r, htold, -, hfound, hperson, -⟩ := (person_never_found documented_oneWorker
    apart_oneWorker hrun hregisters emulates_carRound).2 0 5 6 hmark
  exact ⟨c, hrun, s, r, htold, hfound, hperson⟩

end Deployment

/-! ## In cloud mode -/

/-- The edge cannot rebuild the picture of an emulated detector. -/
theorem rebuild_returnMat {lib : Externals} (hreshape : lib.ReshapeDocumented) :
    Executor.rebuild lib EmulateObjectDetection.returnMat.data = none := by
  refine Option.eq_none_iff_forall_ne_some.2 fun raw hraw => ?_
  have hsome : (lib.reshape (Mat.ofBytes EmulateObjectDetection.returnMat.data) 3 480).isSome =
      true := Option.isSome_iff_exists.2 ⟨raw, hraw⟩
  rw [hreshape.reshape_isSome _ _ _ (by decide) (by decide) (by decide)] at hsome
  exact absurd hsome (by decide)

namespace Studio

variable {D : Studio} {es : List Scene} {x : Premises}

/-- Every picture is that of an emulated detector. -/
def Emulated (es : List Scene) : Prop :=
  ∀ k interest frame version, .cloud k (.arrive interest frame version) ∈ es →
    frame = EmulateObjectDetection.returnMat

/-- Only pictures of emulated detectors have been taken, and the edge has heard of none. -/
structure Silent (D : Studio) (x : Premises) : Prop where
  consistent : ∀ k, Consistent (D.options k) (x.clouds k)
  captures : ∀ k, ∀ c ∈ (x.clouds k).captures, c.bytes = EmulateObjectDetection.returnMat.data
  views : ∀ s, (x.edge.view s).Carries (fun session => session.buffer = [])
    fun packet => packet.content = []

/-- An event that brings the edge no reply leaves it silent. -/
theorem Silent.edge (h : D.Silent x) {e : Event} (he : e.payload = none) {p : Producer}
    (hstep : x.edge.step D.lib e = some p) : D.Silent { x with edge := p } :=
  ⟨h.consistent, h.captures, fun s => View.Carries.step (Producer.view_step hstep s) (h.views s)
    (fun _ hs => hs) (fun _ hp => hp) (fun _ _ _ => rfl)
    (fun _ _ hnamed _ => absurd hnamed (named_of_payload he)) fun _ hs => hs⟩

/-- **An executor whose fetch completes throws**: its bytes are those of an emulated picture. -/
theorem Silent.not_complete (hreshape : D.lib.ReshapeDocumented) (h : D.Silent x) {k i n j : ℕ}
    {x' : Premises} : D.step x (.complete k i n j) ≠ some x' := by
  intro hstep
  simp only [step] at hstep
  split at hstep
  · rename_i fetcher interest executor hi hfetch
    rw [Option.ite_none_right_eq_some] at hstep
    obtain ⟨⟨-, hcomplete⟩, hstep⟩ := hstep
    obtain ⟨c, hc, -, hbytes⟩ := (h.consistent k).bytes_eq hi hcomplete
    rw [hbytes, h.captures k c hc, Executor.afterFetchComplete_eq,
      rebuild_returnMat hreshape] at hstep
    exact absurd hstep.symm (Option.some_ne_none _)
  · exact absurd hstep.symm (Option.some_ne_none _)

/-- **Every event leaves the edge silent**, if a picture it has taken is emulated. -/
theorem silent_step (hreshape : D.lib.ReshapeDocumented) (h : D.Silent x) {scene : Scene}
    (hscene : ∀ k interest frame version, scene = .cloud k (.arrive interest frame version) →
      frame = EmulateObjectDetection.returnMat) {x' : Premises}
    (hstep : D.step x scene = some x') : D.Silent x' := by
  cases scene with
  | interest request version s =>
    obtain ⟨p, hp, rfl⟩ := Option.map_eq_some_iff.1 hstep
    exact h.edge rfl hp
  | expiry s =>
    obtain ⟨p, hp, rfl⟩ := Option.map_eq_some_iff.1 hstep
    exact h.edge rfl hp
  | aborted s =>
    obtain ⟨p, hp, rfl⟩ := Option.map_eq_some_iff.1 hstep
    exact h.edge rfl hp
  | cloud k move =>
    simp only [step] at hstep
    rw [Option.ite_none_right_eq_some] at hstep
    obtain ⟨-, hstep⟩ := hstep
    obtain ⟨q, hq, rfl⟩ := Option.map_eq_some_iff.1 hstep
    have hcaptures : ∀ c ∈ q.captures, c.bytes = EmulateObjectDetection.returnMat.data := by
      intro c hc
      rcases (cloudStep_of_step hq).captures hc with hold |
        ⟨interest, frame, version, rfl, -, -, rfl⟩
      · exact h.captures k c hold
      · rw [hscene k interest frame version rfl]
    exact ⟨(Function.forall_update_iff x.clouds fun k' q => Consistent (D.options k') q).2
        ⟨consistent_step hreshape (h.consistent k) hq, fun k' _ => h.consistent k'⟩,
      (Function.forall_update_iff x.clouds fun _ q => ∀ c ∈ q.captures,
        c.bytes = EmulateObjectDetection.returnMat.data).2 ⟨hcaptures, fun k' _ => h.captures k'⟩,
      h.views⟩
  | complete k i n j => exact absurd hstep (h.not_complete hreshape)

/-- **No picture of an emulating worker is judged.**  If all workers are in emulation mode and the
edge in cloud mode, then in every run all the Data packets that the edge puts are empty: the
executor of a fetch that completes throws, and only the timers answer. -/
theorem emulated_silent (hreshape : D.lib.ReshapeDocumented)
    (hrun : Runs.exec D.step D.start es = some x) (hemulated : Emulated es) {s : UInt64}
    {packet : Data} (hput : (s, packet) ∈ x.edge.face.puts) : packet.content = [] := by
  have hsilent : D.Silent x := by
    refine Runs.history (P := fun es x => Emulated es → D.Silent x) (fun _ => ?_)
      (fun es x scene x' _ ih hstep hemulated => ?_) es x hrun hemulated
    · exact ⟨fun k => consistent_start (D.cdString k) (D.options k),
        fun _ _ hc => absurd hc List.not_mem_nil, fun _ => {
          held := fun _ hs => absurd hs.symm (Option.some_ne_none _)
          put := fun _ hp => absurd hp List.not_mem_nil }⟩
    · refine silent_step hreshape (ih fun k interest frame version hmem =>
        hemulated k interest frame version (List.mem_append_left _ hmem)) ?_ hstep
      rintro k interest frame version rfl
      exact hemulated k interest frame version
        (List.mem_append_right _ (List.mem_singleton_self _))
  exact (hsilent.views s).put packet (Deployment.mem_putsFor.2 hput)

/-! ## A picture that is not judged -/

/-- A fetch gets the picture of an emulating worker, and the timer answers. -/
def blackPicture : List Scene := [
  .interest cameraRequest 1 7,
  .cloud 0 (.discover 0 pictureName),
  .cloud 0 (.arrive (Cloud.firstInterest pictureName) EmulateObjectDetection.returnMat 1),
  .cloud 0 (.first 0 (Worker.storedPacket 8000 (pictureName ++ [.version 1])
    EmulateObjectDetection.returnMat.data 0).sign),
  .expiry 7]

/-- The answer is empty. -/
theorem emulated_silent_blackPicture : ∃ x packet,
    Runs.exec oneCamera.step oneCamera.start blackPicture = some x ∧
      (7, packet) ∈ x.edge.face.puts ∧ packet.content = [] := by
  have hsome : ((Runs.exec oneCamera.step oneCamera.start blackPicture).map fun x =>
      x.edge.face.puts.map Prod.fst) = some [7] := by decide +kernel
  obtain ⟨x, hrun, heq⟩ := Option.map_eq_some_iff.1 hsome
  obtain ⟨⟨s, packet⟩, hput, rfl⟩ := List.mem_map.1
    (show (7 : UInt64) ∈ x.edge.face.puts.map Prod.fst by rw [heq]; exact List.mem_singleton_self _)
  have hemulated : Emulated blackPicture := by
    intro k interest frame version hmem
    obtain ⟨-, -, hframe, -⟩ : k = 0 ∧ interest = Cloud.firstInterest pictureName ∧
        frame = EmulateObjectDetection.returnMat ∧ version = 1 := by
      simpa [blackPicture] using hmem
    exact hframe
  exact ⟨x, packet, hrun, hput, emulated_silent reference_reshape hrun hemulated hput⟩

end Studio

end Crowdsensing
