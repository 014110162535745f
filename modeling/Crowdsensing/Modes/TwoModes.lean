import Crowdsensing.Modes.Requests
import Crowdsensing.Reference

/-!
# The two modes

In edge mode a worker looks at its own picture and replies with what it reads off the
name of the sub-Interest; in cloud mode the edge looks at the picture it fetched and
builds the reply from what it read off the names itself.

* `EdgeAnswer`, `CloudAnswer` — the reply to one sub-Interest in either mode.
* `edgeAnswer_iff`, `cloudAnswer_text` — **both modes write the same text.**
* `ledger_handleReply` — edges with the same ledger keep the same ledger when the same
  reply comes in, whatever else they hold.
* `modes_agree` — **a request has the same outcome in both modes**, for every order of
  the replies.
-/

namespace Crowdsensing

open Text

/-! ## Replies in either mode -/

/-- What the worker registered for the location puts for a sub-Interest, when it sees these
labels. -/
def EdgeAnswer (lib : Externals) (l : Str) (sub : Interest) (labels : List Str) (data : Data) :
    Prop :=
  ∃ (w : Worker) (frame : Mat) (version : ℕ), w.cdString = Producer.locationPath l ∧
    w.onInterest lib sub labels frame version = .ok (w, [.data data])

/-- What an executor passes on for a picture it was given, when the detector finds these
labels on it. -/
def CloudAnswer (lib : Externals) (e : Executor) (labels : List Str) (text : Str) : Prop :=
  ∃ (detect : Mat → List Str) (bytes : Str) (raw : Mat),
    lib.reshape (Mat.ofBytes bytes) 3 480 = some raw ∧ detect raw = labels ∧
      e.afterFetchComplete lib detect bytes = .ok text

/-- The reply for a location, in either mode. -/
def replyText (lib : Externals) (d : UInt64) (l target : Str) (labels : List Str) : Str :=
  encode lib (replyFor l target (decimal d.toNat) labels)

/-- The Data packet with that reply, for a sub-Interest. -/
def replyData (lib : Externals) (d : UInt64) (l target : Str) (labels : List Str)
    (sub : Interest) : Data :=
  (Data.setContent { name := sub.name } (replyText lib d l target labels)).sign

/-- The two replies for one location of a request, when the same labels are seen there. -/
def AnswersAlike (lib : Externals) (ls : List Str) (subs : List Interest)
    (fetches : List (Interest × Executor)) (data : Data) (text : Str) : Prop :=
  ∃ (i : ℕ) (l : Str) (sub : Interest) (fetch : Interest × Executor) (labels : List Str),
    ls[i]? = some l ∧ subs[i]? = some sub ∧ fetches[i]? = some fetch ∧
    EdgeAnswer lib l sub labels data ∧ CloudAnswer lib fetch.2 labels text

/-- A request has the same outcome in both modes: as many locations are asked, each with a name
that lies under the prefix of its worker, which replies; each executor has a text for every
picture that has a shape; the two texts for the same labels are one; and the replies leave the
same ledger in whatever order they come. -/
def ModesAgree (lib : Externals) (p q : Producer) (interest : Interest) (version : ℕ)
    (d : UInt64) (ls : List Str) : Prop :=
  ∃ p' q' subs fetches,
    p.onInterest lib interest version d = .ok p' ∧
    q.onInterestCloud lib interest version d = .ok q' ∧
    p'.face.expressed = p.face.expressed ++ subs ∧ q'.face.fetches = q.face.fetches ++ fetches ∧
    subs.length = ls.length ∧ fetches.length = ls.length ∧
    (∀ (i : ℕ) (l : Str) (sub : Interest) (labels : List Str), ls[i]? = some l →
      subs[i]? = some sub → (∃ name, LiesUnder l name ∧ sub = subInterest lib p.edgeMode d name) ∧
        ∃ data, EdgeAnswer lib l sub labels data) ∧
    (∀ (i : ℕ) (fetch : Interest × Executor) (detect : Mat → List Str) (bytes : Str) (raw : Mat),
      fetches[i]? = some fetch → lib.reshape (Mat.ofBytes bytes) 3 480 = some raw →
        ∃ text, fetch.2.afterFetchComplete lib detect bytes = .ok text ∧
          CloudAnswer lib fetch.2 (detect raw) text) ∧
    (∀ data text, AnswersAlike lib ls subs fetches data text → data.content = text) ∧
    ∀ answers : List (Interest × Data × Str),
      (∀ a ∈ answers, AnswersAlike lib ls subs fetches a.2.1 a.2.2) →
        (answers.foldlM (fun (r : Producer) a => r.onData lib a.1 a.2.1) p').map Producer.ledger =
          (answers.foldlM (fun (r : Producer) a => r.adddata lib a.2.2) q').map Producer.ledger

section

variable {lib : Externals} {s l target text : Str} {d : UInt64} {labels : List Str} {data : Data}

/-- The worker's name for itself is the location. -/
theorem location_of_path (h : ch '/' ∉ l) :
    replaceAll (txt "/") [] (Producer.locationPath l) = l := by
  have hpath : Producer.locationPath l = txt "/" ++ (txt "/").intercalate (l.map fun c => [c]) :=
    rfl
  have hfilter : ∀ l : Str, ch '/' ∉ l →
      ((txt "/").intercalate (l.map fun c => [c])).filter (· ≠ ch '/') = l := by
    intro l
    induction l with
    | nil => exact fun _ => rfl
    | cons c l ih =>
      intro hnot
      rw [List.mem_cons, not_or] at hnot
      have hc : [c].filter (· ≠ ch '/') = [c] := by
        rw [List.filter_cons_of_pos (by simpa using Ne.symm hnot.1), List.filter_nil]
      cases l with
      | nil => simpa using hc
      | cons c' l =>
        have htail := ih hnot.2
        rw [List.map_cons] at htail
        rw [List.map_cons, List.map_cons, List.intercalate_cons_cons, List.filter_append,
          List.filter_append, hc, htail]
        rfl
  rw [hpath, show txt "/" = [ch '/'] from rfl, replaceAll_singleton_nil, List.filter_append]
  exact hfilter l h

/-- **What the worker of a location replies** to a sub-Interest that it reads a target off:
its own location, that target, and the session id. -/
theorem edgeAnswer_received {l' f t : Str} (hlib : lib.InverseAt (subComponents l' f t d))
    (hl : ch '/' ∉ l) (hspace : ch ' ' ∉ uriUnescape t) {targets : List Str}
    (htargets : piecesOf (decoded (uriUnescape t)) = target :: targets) :
    EdgeAnswer lib l (subInterest lib (ch 'e') d (nameFor l' f t)) labels data ↔
      data = replyData lib d l target labels (subInterest lib (ch 'e') d (nameFor l' f t)) := by
  have hreply : ∀ (w : Worker) (sub : Interest), w.cdString = Producer.locationPath l →
      w.edgeData lib sub target (decimal d.toNat) labels =
        replyData lib d l target labels sub := by
    intro w sub hw
    rw [Worker.edgeData, Worker.reply, hw, location_of_path hl]
    rfl
  constructor
  · rintro ⟨w, frame, version, hw, hok⟩
    rw [Worker.onInterest_received hlib hspace htargets] at hok
    obtain ⟨-, hdata⟩ := Prod.mk.inj (Except.ok.inj hok)
    rw [← hreply w _ hw]
    exact (Packet.data.inj (List.singleton_inj.1 hdata)).symm
  · rintro rfl
    refine ⟨{ cdString := Producer.locationPath l }, ⟨0, 0, 0, [], rfl⟩, 0, rfl, ?_⟩
    rw [Worker.onInterest_received hlib hspace htargets, hreply _ _ rfl]

/-- The target and the session id of the reply are those the edge has, if the target comes
through as it is. -/
theorem edgeAnswer_iff (hl : l ∈ locationsOf s)
    (hlib : lib.InverseAt (subComponents l (functionPart s) (targetPart s) d))
    (hplain : ∀ b ∈ targetPart s, isPlain b = true) {targets : List Str}
    (htargets : targetsOf s = target :: targets) :
    EdgeAnswer lib l (subInterest lib (ch 'e') d (nameFor l (functionPart s) (targetPart s)))
        labels data ↔
      data = replyData lib d l target labels
        (subInterest lib (ch 'e') d (nameFor l (functionPart s) (targetPart s))) := by
  have hfields := subFields_of_mem hl
  have hunescape : uriUnescape (targetPart s) = targetPart s :=
    uriUnescape_of_not_mem fun h => isPlain_ne_percent (hplain _ h) rfl
  have hspace : ch ' ' ∉ uriUnescape (targetPart s) := by
    rw [hunescape]
    exact hfields.space_target
  have hpieces : piecesOf (decoded (uriUnescape (targetPart s))) = target :: targets := by
    rw [hunescape, decoded_of_plain hplain]
    exact htargets
  exact edgeAnswer_received hlib hfields.slash_location hspace hpieces

/-- **What the executor passes on.** -/
theorem cloudAnswer_text {f t : Str} (h : CloudAnswer lib (executorFor lib d f t target l) labels
    text) : text = replyText lib d l target labels := by
  obtain ⟨detect, bytes, raw, hraw, rfl, hok⟩ := h
  unfold Executor.afterFetchComplete at hok
  rw [hraw] at hok
  exact (Except.ok.inj hok).symm

/-- The executor has a text for every picture that has a shape. -/
theorem exists_cloudAnswer (e : Executor) (detect : Mat → List Str) {bytes : Str} {raw : Mat}
    (hraw : lib.reshape (Mat.ofBytes bytes) 3 480 = some raw) :
    ∃ text, e.afterFetchComplete lib detect bytes = .ok text ∧
      CloudAnswer lib e (detect raw) text := by
  have hok : e.afterFetchComplete lib detect bytes = .ok (encode lib (e.reply (detect raw))) := by
    unfold Executor.afterFetchComplete
    rw [hraw]
  exact ⟨_, hok, detect, bytes, raw, hraw, rfl, hok⟩

end

/-! ## The same replies, the same ledger -/

namespace Producer

section

variable {lib : Externals} {p q : Producer}

/-- Edges with the same ledger differ in what they asked for. -/
theorem eq_of_ledger (h : p.ledger = q.ledger) : q = { p with
    edgeMode := q.edgeMode
    targetName := q.targetName
    locationName := q.locationName
    face := { p.face with expressed := q.face.expressed, fetches := q.face.fetches } } := by
  obtain ⟨mode, targets, locations, arrival, issued, sessions, timers, puts, expressed, fetches⟩ := q
  unfold ledger at h
  simp only [Ledger.mk.injEq] at h
  obtain ⟨rfl, rfl, rfl, rfl, rfl⟩ := h
  rfl

theorem ledger_opened (h : p.ledger = q.ledger) (interest : Interest) (version : ℕ) (d : UInt64)
    (n : ℕ) : (p.opened interest version d n).ledger = (q.opened interest version d n).ledger := by
  rw [eq_of_ledger h]
  rfl

theorem ledger_finish (h : p.ledger = q.ledger) (s : UInt64) :
    (p.finish s).ledger = (q.finish s).ledger := by
  rw [eq_of_ledger h]
  unfold finish
  cases p.sessions.get s <;> rfl

variable (lib) in
/-- **The same reply leaves the same ledger.** -/
theorem ledger_handleReply (h : p.ledger = q.ledger) (text : Str) :
    (p.handleReply lib text).map ledger = (q.handleReply lib text).map ledger := by
  cases hs : sessionIdOf lib text with
  | error f =>
    rw [handleReply_of_error hs p, handleReply_of_error hs q]
  | ok id =>
    cases id with
    | none =>
      rw [handleReply_of_none hs, handleReply_of_none hs]
      exact congrArg Except.ok h
    | some s =>
      have hcollect : (p.collect text s).ledger = (q.collect text s).ledger := by
        rw [eq_of_ledger h]
        rfl
      have hcount : p.numberOfArrivalInterest = q.numberOfArrivalInterest :=
        congrArg Ledger.numberOfArrivalInterest h
      have hissued : p.issuedInterest = q.issuedInterest := congrArg Ledger.issuedInterest h
      have hfinish : ((p.collect text s).finish s).clearCounters.ledger =
          ((q.collect text s).finish s).clearCounters.ledger := by
        have hledger := ledger_finish hcollect s
        exact congrArg (fun r : Ledger =>
          { r with numberOfArrivalInterest := 0, issuedInterest := 0 }) hledger
      rw [handleReply_of_some hs, handleReply_of_some hs, receive_eq, receive_eq, hcount, hissued]
      split
      · exact congrArg Except.ok hfinish
      · exact congrArg Except.ok hcollect

/-- The same replies, in the same order, leave the same ledger. -/
theorem ledger_foldlM {answers : List (Interest × Data × Str)}
    (halike : ∀ a ∈ answers, a.2.1.content = a.2.2) (h : p.ledger = q.ledger) :
    (answers.foldlM (fun (r : Producer) a => r.onData lib a.1 a.2.1) p).map ledger =
      (answers.foldlM (fun (r : Producer) a => r.adddata lib a.2.2) q).map ledger := by
  induction answers generalizing p q with
  | nil => exact congrArg Except.ok h
  | cons a answers ih =>
    have hstep := ledger_handleReply lib h a.2.1.content
    have hfirst : p.onData lib a.1 a.2.1 = p.handleReply lib a.2.1.content :=
      onData_eq_adddata lib p a.1 a.2.1
    have hsecond : q.adddata lib a.2.2 = q.handleReply lib a.2.1.content := by
      rw [halike a List.mem_cons_self]
      rfl
    rw [List.foldlM_cons, List.foldlM_cons, hfirst, hsecond]
    cases hp : p.handleReply lib a.2.1.content with
    | error f =>
      cases hq : q.handleReply lib a.2.1.content with
      | error f' =>
        rw [hp, hq] at hstep
        exact congrArg Except.error (Except.error.inj hstep)
      | ok q' =>
        rw [hp, hq] at hstep
        exact absurd hstep nofun
    | ok p' =>
      cases hq : q.handleReply lib a.2.1.content with
      | error f' =>
        rw [hp, hq] at hstep
        exact absurd hstep nofun
      | ok q' =>
        rw [hp, hq] at hstep
        exact ih (fun b hb => halike b (List.mem_cons_of_mem _ hb)) (Except.ok.inj hstep)

end

end Producer

/-! ## The two modes -/

/-- **Both modes give the same answer.**  For a request the edge takes, with a target of bytes
that come through and sub-Interests on whose names reading and writing are inverse, each location
has one reply in either mode, the two have the same text, and the replies leave the same counters,
sessions and Data packets put, in whatever order they come. -/
theorem modes_agree {lib : Externals} {p q : Producer} (hmode : p.edgeMode = ch 'e')
    (hledger : p.ledger = q.ledger) {interest : Interest} {s : Str}
    (hs : Producer.decodeURI (lib.toUri interest.name) = s) (haccepted : Accepted s)
    (hplain : ∀ b ∈ targetPart s, isPlain b = true) (version : ℕ) (d : UInt64)
    (hlib : ∀ l ∈ locationsOf s,
      lib.InverseAt (subComponents l (functionPart s) (targetPart s) d)) :
    ModesAgree lib p q interest version d (locationsOf s) := by
  obtain ⟨target, targets, htargets⟩ := List.exists_cons_of_ne_nil
    (List.splitOn_ne_nil (ch ',') (keyText (targetPart s)))
  have hnames : Producer.convertInterestName (Producer.decodeURI (lib.toUri interest.name)) [] =
      .ok ((locationsOf s).map fun l => nameFor l (functionPart s) (targetPart s)) := by
    rw [hs]
    exact Producer.convertInterestName_eq haccepted []
  obtain ⟨q', hq', hqledger, hfetches⟩ := Producer.onInterestCloud_eq q version d hs haccepted
    htargets
  -- the reply for a location in either mode
  have halike : ∀ data text, AnswersAlike lib (locationsOf s)
      (((locationsOf s).map fun l => nameFor l (functionPart s) (targetPart s)).map
        (subInterest lib p.edgeMode d))
      ((locationsOf s).map fun l =>
        (Producer.reInterest lib (nameFor l (functionPart s) (targetPart s)) d,
          executorFor lib d (functionPart s) (targetPart s) target l)) data text →
      data.content = text := by
    rintro data text ⟨i, l, sub, fetch, labels, hl, hsub, hfetch, hedge, hcloud⟩
    rw [List.map_map, List.getElem?_map, hl, Option.map_some, Option.some.injEq] at hsub
    rw [List.getElem?_map, hl, Option.map_some, Option.some.injEq] at hfetch
    have hmem := List.mem_of_getElem? hl
    rw [← hsub, Function.comp_apply, hmode,
      edgeAnswer_iff hmem (hlib l hmem) hplain htargets] at hedge
    rw [← hfetch] at hcloud
    rw [hedge, cloudAnswer_text hcloud]
    rfl
  refine ⟨_, q', _, _, Producer.onInterest_eq hnames, hq', rfl, hfetches, by simp, by simp, ?_,
    fun _ fetch detect _ _ _ hraw => exists_cloudAnswer fetch.2 detect hraw, halike, ?_⟩
  · intro i l sub labels hl hsub
    rw [List.map_map, List.getElem?_map, hl, Option.map_some, Option.some.injEq] at hsub
    have hmem := List.mem_of_getElem? hl
    rw [← hsub, Function.comp_apply]
    refine ⟨⟨_, liesUnder_nameFor l _ _, rfl⟩, ?_⟩
    rw [hmode]
    exact ⟨_, (edgeAnswer_iff hmem (hlib l hmem) hplain htargets).2 rfl⟩
  · intro answers hanswers
    apply Producer.ledger_foldlM
    · exact fun a ha => halike _ _ (hanswers a ha)
    · have hopened := Producer.ledger_opened hledger interest version d (locationsOf s).length
      rw [hqledger, ← hopened, List.length_map]
      rfl

/-- The request of the client's page has the same outcome in both modes. -/
theorem modes_agree_person : ModesAgree reference { edgeMode := ch 'e' } { edgeMode := ch 'c' }
    (clientInterest pageLocations (txt "person")) 1 7 pageLocations := by
  have hname : Producer.decodeURI (reference.toUri
      (clientInterest pageLocations (txt "person")).name) =
        txt "/icn2020/edge/#f:detect/#a:[30321,33212] #a:[person]" := by decide +kernel
  have hlocations : locationsOf (txt "/icn2020/edge/#f:detect/#a:[30321,33212] #a:[person]") =
      pageLocations := by decide
  have hlegible : ∀ l ∈ pageLocations, Legible l (txt "#f:detect") (txt "#a:[person]") := by
    decide +kernel
  have hledger : Producer.ledger { edgeMode := ch 'e' } =
      Producer.ledger { edgeMode := ch 'c' } := rfl
  have hagree : ModesAgree reference { edgeMode := ch 'e' } { edgeMode := ch 'c' }
      (clientInterest pageLocations (txt "person")) 1 7 (locationsOf _) :=
    modes_agree rfl hledger hname (by decide) (by decide +kernel) 1 7 fun l hl =>
      (hlegible l (hlocations ▸ hl)).inverseAt reference_uri 7
  rwa [hlocations] at hagree

end Crowdsensing
