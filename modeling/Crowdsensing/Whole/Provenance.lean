import Crowdsensing.Edge.Accounting
import Crowdsensing.Whole.Parties
import Crowdsensing.Worker.NoTarget

/-!
# No verdict comes from nowhere

Whatever the order of events, and whatever the network loses, delays, repeats or reorders, what
the edge answers and what a page shows goes back to a worker.

* `Deployment.PageFair`, `Deployment.EdgeFair` — what the parties keep.
* `Deployment.Promised` — what holds of everything that is sent.
* `Deployment.edge_next`, `Deployment.worker_next`, `Deployment.page_next` — each party keeps its
  part, as long as what it takes in was promised.
* `Deployment.no_phantom` — **every Data packet the edge puts passes on replies that workers told
  for its session**.
* `Deployment.page_refined` — **a page on the network is a page by itself** to which such replies
  come.
* `Deployment.mark_told` — **every mark on the map of a page is the verdict of a worker** at that
  cell.
-/

namespace Crowdsensing

open Text Networks

/-! ## Names -/

section

variable {lib : Externals} {l f t : Str} {s : UInt64}

/-- **The name the edge asks a worker with begins with the prefix of the worker at that
location.** -/
theorem locationPath_prefix (hlib : lib.UriDocumented) (h : SubFields l f t)
    (hlegible : Legible l f t) :
    lib.ofUri (Producer.locationPath l) <+: lib.ofUri (subInterestName (nameFor l f t) s) := by
  obtain ⟨⟨hl, hperiod, -⟩, -⟩ := (legible_iff h).1 hlegible
  have hpath : Producer.locationPath l = (l.map fun c => [c]).flatMap (ch '/' :: ·) :=
    cons_intercalate (by simpa using hl)
  have hpart : ∀ p ∈ l.map fun c => [c], IsUriPart p := fun p hp =>
    hlegible p (by simp only [pathOf, charPieces, if_neg hl, List.mem_append, hp, true_or])
  have haddress : (l.map fun c => [c]).map (fun p => Component.generic (uriValue p)) <+:
      addressOf l f t := by
    rw [← map_pathOf hl hperiod, pathOf, charPieces, if_neg hl, List.map_append]
    exact List.prefix_append _ _
  rw [hpath, (hlib.ofUri_flatMap _ (by simpa using hl) hpart).2,
    hlegible.ofUri_subInterestName hlib h s]
  exact haddress.trans (List.prefix_append _ _)

end

namespace Deployment

variable {D : Deployment}

/-! ## What is relied on -/

/-- What is relied on of the libraries. -/
structure Documented (D : Deployment) : Prop where
  uri : D.lib.UriDocumented
  rooted : D.lib.UriRooted
  json : D.lib.JsonDocumented
  cast : D.lib.CastDocumented
  browser : D.browser.Documented D.lib

/-- The prefixes of the workers and of the edge lie apart. -/
def Apart (D : Deployment) : Prop :=
  ∀ k, ¬ D.lib.ofUri (D.cdString k) <+: D.edgeName ∧ ¬ D.edgeName <+: D.lib.ofUri (D.cdString k)

/-- A request for the edge, the names for which can be read. -/
def IsRequest (D : Deployment) (interest : Interest) : Prop :=
  D.edgeName <+: interest.name ∧
    ∀ l ∈ locationsOf (Producer.decodeURI (D.lib.toUri interest.name)),
      Legible l (functionPart (Producer.decodeURI (D.lib.toUri interest.name)))
        (targetPart (Producer.decodeURI (D.lib.toUri interest.name)))

/-- What is registered on a page is a request for the edge. -/
def RegistersRequest (D : Deployment) : (Σ i : Party, i.Happening) → Prop
  | ⟨.page _, .registerTarget _ name⟩ => D.IsRequest (D.interestOf name)
  | _ => True

/-- A sub-Interest for a location. -/
def IsSub (D : Deployment) (s : UInt64) (interest : Interest) : Prop :=
  ∃ l f t, Legible l f t ∧ SubFields l f t ∧ interest = subInterest D.lib (ch 'e') s (nameFor l f t)

section

variable {s : UInt64} {interest : Interest}

theorem edgeName_eq (hlib : D.lib.UriDocumented) :
    D.edgeName = [.generic (txt "icn2020"), .generic (txt "edge")] :=
  (hlib.ofUri_flatMap [txt "icn2020", txt "edge"] (by decide) (by decide +kernel)).2

/-- The name of a sub-Interest begins with one character of its location. -/
theorem head?_sub (hlib : D.lib.UriDocumented) (h : D.IsSub s interest) :
    ∃ c, interest.name.head? = some (.generic c) ∧ c.length = 1 := by
  obtain ⟨l, f, t, hlegible, hfields, rfl⟩ := h
  have hname := hlegible.ofUri_subInterestName hlib hfields s
  obtain ⟨b, l', rfl⟩ := List.exists_cons_of_ne_nil ((legible_iff hfields).1 hlegible).1.1
  exact ⟨[b], congrArg List.head? hname, rfl⟩

/-- **A sub-Interest is none for the edge**, nor does a Data packet of the edge satisfy it. -/
theorem not_edge_sub (hlib : D.lib.UriDocumented) (h : D.IsSub s interest) {name : Name}
    (hname : interest.name <+: name) : ¬ D.edgeName <+: name := by
  obtain ⟨c, hhead, hlength⟩ := head?_sub hlib h
  intro hedge
  rw [edgeName_eq hlib] at hedge
  obtain ⟨rest, rfl⟩ := hedge
  obtain ⟨tail, htail⟩ := hname
  cases hn : interest.name with
  | nil =>
    rw [hn] at hhead
    exact absurd hhead.symm (Option.some_ne_none _)
  | cons first name =>
    rw [hn] at hhead htail
    rw [List.cons_append, List.cons_append, List.cons.injEq] at htail
    rw [List.head?_cons, Option.some.injEq, htail.1, Component.generic.injEq] at hhead
    rw [← hhead] at hlength
    exact absurd hlength (by decide)

/-- A Data packet that satisfies an Interest has its name as a prefix. -/
theorem prefix_of_satisfied {name : Name} (h : interest.SatisfiedBy name) :
    interest.name <+: name := by
  unfold Interest.SatisfiedBy at h
  split at h
  · exact h
  · rw [h]

end

/-! ## What is kept and promised -/

/-- The edge keeps the chain in its sessions and in what it puts. -/
structure EdgeFair (D : Deployment) (es : History) (p : Producer) : Prop where
  edgeMode : p.edgeMode = ch 'e'
  fetches : p.face.fetches = []
  expressed : ∀ i ∈ p.face.expressed, ∃ s, D.IsSub s i
  session : ∀ s session, p.sessions.get s = some session → D.Collected s session es
  puts : ∀ s packet, (s, packet) ∈ p.face.puts → D.Answered s packet es

/-- What comes to a page, with the replies in the Data packets. -/
inductive Brings (D : Deployment) (es : History) : PageEvent → PageInput → Prop
  | tick : Brings D es .tick .tick
  | registerTarget (target name : JsString) :
    Brings D es (.registerTarget target name) (.registerTarget target name)
  | timeout (position : ℕ) : Brings D es (.timeout position) (.timeout position)
  | data (position : ℕ) {replies : List Reply} {packet : Data} {s : UInt64}
    (content : packet.content = Client.contentOf D.lib replies)
    (opened : D.Opened s packet.name es) (told : ∀ r ∈ replies, D.Told s r es) :
    Brings D es (.data position replies) (.data position packet)

/-- A page does with what comes what it does by itself. -/
structure PageFair (D : Deployment) (k : ℕ) (es : History) (c : Client) : Prop where
  after : D.pageAfter k es = some c
  asks : c.target ≠ [] → D.IsRequest (D.interestOf c.cd)
  outstanding : ∀ name ∈ c.outstanding, D.IsRequest (D.interestOf name)
  alone : ∃ events, Runs.exec (Client.step D.lib D.browser) Client.start events = some c ∧
    List.Forall₂ (D.Brings es) events (Network.eventsOf (.page k) es)

/-- What a party keeps. -/
def Fair (D : Deployment) (es : History) : ∀ i : Party, i.State → Prop
  | .page k => D.PageFair k es
  | .edge => D.EdgeFair es
  | .worker k => fun w => w.cdString = D.cdString k

/-- What holds of everything that is sent. -/
def Promised (D : Deployment) (es : History) : Message → Prop
  | .interest interest => (D.Requested interest es ∧ D.IsRequest interest) ∨
      ∃ s, D.Asked s interest es ∧ D.IsSub s interest
  | .data packet => (∃ s, D.Answered s packet es) ∨
      ∃ s r interest, D.Told s r es ∧ packet.content = encode D.lib r ∧
        r.sessionId = decimal s.toNat ∧ D.IsSub s interest ∧ packet.name = interest.name

theorem Brings.later {es : History} {e : PageEvent} {input : PageInput} (h : D.Brings es e input)
    (fs : History) : D.Brings (es ++ fs) e input := by
  cases h with
  | tick => exact .tick
  | registerTarget target name => exact .registerTarget target name
  | timeout position => exact .timeout position
  | data position content opened told =>
    exact .data position content (opened.later fs) fun r hr => (told r hr).later fs

theorem EdgeFair.later {es : History} {p : Producer} (h : D.EdgeFair es p) (fs : History) :
    D.EdgeFair (es ++ fs) p :=
  ⟨h.edgeMode, h.fetches, h.expressed, fun s session hs => (h.session s session hs).later fs,
    fun s packet hput => (h.puts s packet hput).later fs⟩

theorem Promised.later {es : History} {m : Message} (h : D.Promised es m) (fs : History) :
    D.Promised (es ++ fs) m := by
  cases m with
  | interest interest =>
    rcases h with ⟨hrequested, hrequest⟩ | ⟨s, hasked, hsub⟩
    · exact Or.inl ⟨hrequested.later fs, hrequest⟩
    · exact Or.inr ⟨s, hasked.later fs, hsub⟩
  | data packet =>
    rcases h with ⟨s, hanswered⟩ | ⟨s, r, interest, htold, hrest⟩
    · exact Or.inl ⟨s, hanswered.later fs⟩
    · exact Or.inr ⟨s, r, interest, htold.later fs, hrest⟩

/-- An event of another party does no harm. -/
theorem Fair.other {es : History} {e : Σ i : Party, i.Happening} {i : Party} {state : i.State}
    (he : e.1 ≠ i) (h : D.Fair es i state) : D.Fair (es ++ [e]) i state := by
  cases i with
  | page k =>
    have hsame : Network.eventsOf (.page k) (es ++ [e]) = Network.eventsOf (.page k) es := by
      rw [Network.eventsOf_append, Network.eventsOf_other he, List.append_nil]
    obtain ⟨hafter, hasks, houtstanding, events, hrun, hbrings⟩ := h
    refine ⟨?_, hasks, houtstanding, events, hrun, ?_⟩
    · rw [pageAfter, hsame]
      exact hafter
    rw [hsame]
    exact hbrings.imp fun _ _ hone => hone.later [e]
  | edge => exact EdgeFair.later h [e]
  | worker k => exact h

/-! ## The edge -/

section

variable {es : History} {p p' : Producer} {e : Event} {s : UInt64}

theorem face_finish (p : Producer) (s : UInt64) :
    (p.finish s).face.expressed = p.face.expressed ∧
      (p.finish s).face.fetches = p.face.fetches := by
  unfold Producer.finish
  cases p.sessions.get s <;> exact ⟨rfl, rfl⟩

/-- In edge mode nothing is fetched, and what is expressed are the sub-Interests of a request. -/
theorem expressed_step {lib : Externals} (hmode : p.edgeMode = ch 'e')
    (h : p.step lib e = some p') : p'.face.fetches = p.face.fetches ∧
      ∃ new, p'.face.expressed = p.face.expressed ++ new ∧ ∀ i ∈ new, ∃ request version s names,
        e = .interest request version s ∧
        Producer.convertInterestName (Producer.decodeURI (lib.toUri request.name)) [] =
          .ok names ∧
        ∃ name ∈ names, i = subInterest lib (ch 'e') s name := by
  have hsame : ∀ q : Producer, q.face.fetches = p.face.fetches ∧
      q.face.expressed = p.face.expressed → q.face.fetches = p.face.fetches ∧
      ∃ new, q.face.expressed = p.face.expressed ++ new ∧ ∀ i ∈ new, ∃ request version s names,
        e = .interest request version s ∧
        Producer.convertInterestName (Producer.decodeURI (lib.toUri request.name)) [] =
          .ok names ∧
        ∃ name ∈ names, i = subInterest lib (ch 'e') s name := by
    rintro q ⟨hfetches, hexpressed⟩
    exact ⟨hfetches, [], by simp [hexpressed], fun i hi => absurd hi List.not_mem_nil⟩
  cases Producer.step_iff.1 h with
  | @asked request version s _ accepted =>
    unfold Producer.handleInterest at accepted
    rw [hmode, if_neg (by decide), if_pos rfl, Option.some.injEq] at accepted
    have hok := accepted
    obtain ⟨⟨q, names⟩, hq, -⟩ := bind_eq_ok.1 hok
    obtain ⟨hnames, -⟩ := Producer.acceptInterest_eq_ok hq
    rw [Producer.onInterest_eq hnames, Except.ok.injEq] at accepted
    rw [← accepted]
    refine ⟨rfl, names.map (subInterest lib (ch 'e') s), by rw [hmode], fun i hi => ?_⟩
    obtain ⟨name, hname, rfl⟩ := List.mem_map.1 hi
    exact ⟨request, version, s, names, rfl, hnames, name, hname, rfl⟩
  | dropped payload unnamed => exact hsame _ ⟨rfl, rfl⟩
  | @replied _ s text named =>
    apply hsame
    split
    · obtain ⟨hexpressed, hfetches⟩ := face_finish (p.collect text s) s
      exact ⟨hfetches, hexpressed⟩
    · exact ⟨rfl, rfl⟩
  | @expired s armed =>
    obtain ⟨hexpressed, hfetches⟩ := face_finish { p with timers := p.timers.fire s } s
    exact hsame _ ⟨hfetches, hexpressed⟩
  | @called s pending =>
    obtain ⟨hexpressed, hfetches⟩ := face_finish { p with timers := p.timers.call s } s
    exact hsame _ ⟨hfetches, hexpressed⟩

theorem mem_putsFor {packet : Data} {puts : List (UInt64 × Data)} :
    packet ∈ putsFor s puts ↔ (s, packet) ∈ puts := by
  unfold putsFor
  rw [List.mem_filterMap]
  constructor
  · rintro ⟨⟨k, d⟩, hmem, hd⟩
    by_cases hk : k = s
    · rw [if_pos hk, Option.some.injEq] at hd
      rw [← hk, ← hd]
      exact hmem
    · rw [if_neg hk] at hd
      exact absurd hd.symm (Option.some_ne_none _)
  · intro hmem
    exact ⟨(s, packet), hmem, if_pos rfl⟩

/-- What is sent to the edge as a request, a page has sent. -/
theorem requested_of_promised (hD : D.Documented) {request : Interest}
    (h : D.Promised es (.interest request)) (hname : D.edgeName <+: request.name) :
    D.Requested request es ∧ D.IsRequest request := by
  rcases h with hrequested | ⟨s, -, hsub⟩
  · exact hrequested
  · exact absurd hname (not_edge_sub hD.uri hsub (List.prefix_refl _))

/-- A reply that names a session, a worker has told for it. -/
theorem told_of_named (hD : D.Documented) (h : D.EdgeFair es p) (hreceives : D.EdgeReceives p e)
    (hneeds : ∀ m ∈ D.network.needs .edge e, D.Promised es m) {text : Str}
    (hnamed : e.named D.lib = some (s, text)) :
    ∃ r, text = encode D.lib r ∧ D.Told s r es := by
  obtain ⟨hpayload, hid⟩ := Event.of_named hnamed
  cases e with
  | interest request version k => exact absurd hpayload.symm (Option.some_ne_none _)
  | expiry k => exact absurd hpayload.symm (Option.some_ne_none _)
  | aborted k => exact absurd hpayload.symm (Option.some_ne_none _)
  | result t => exact absurd h.fetches hreceives
  | data i packet =>
    obtain ⟨hexpressed, hsatisfied⟩ := hreceives
    obtain ⟨k, hsub⟩ := h.expressed i hexpressed
    obtain rfl := Option.some.inj hpayload
    rcases hneeds (.data packet) (List.mem_singleton_self _) with
      ⟨_, hopened, -⟩ | ⟨k', r, _, htold, hcontent, hr, -, -⟩
    · -- a packet of the edge satisfies no sub-Interest
      obtain ⟨_, _, _, request, version, -, hedge, -, hname⟩ := hopened.exists_mem
      have hprefix := prefix_of_satisfied hsatisfied
      refine absurd ?_ (not_edge_sub hD.uri hsub hprefix)
      rw [hname]
      exact hedge.trans (List.prefix_append _ _)
    · rw [hcontent, Producer.sessionIdOf_encode hD.json hD.cast hr, Except.ok.injEq,
        Option.some.injEq] at hid
      rw [hcontent, ← hid]
      exact ⟨r, rfl, htold⟩

/-- A request becomes sub-Interests for its locations. -/
theorem isSub_of_mem {request : Interest} (h : D.IsRequest request) {names : List Str}
    (hnames : Producer.convertInterestName (Producer.decodeURI (D.lib.toUri request.name)) [] =
      .ok names) {name : Str} (hname : name ∈ names) (s : UInt64) :
    D.IsSub s (subInterest D.lib (ch 'e') s name) := by
  have hlist := (Producer.convertInterestName_eq_ok hnames).2
  rw [hlist, List.nil_append] at hname
  obtain ⟨l, hl, rfl⟩ := List.mem_map.1 hname
  exact ⟨l, _, _, h.2 l hl, subFields_of_mem hl, rfl⟩

/-- **The edge keeps its part**: it sends sub-Interests of requests and replies of workers. -/
theorem edge_next (hD : D.Documented) (h : D.EdgeFair es p)
    (hneeds : ∀ m ∈ D.network.needs .edge e, D.Promised es m) {out : List Message}
    (hact : D.edgeAct p e = some (p', out)) :
    D.EdgeFair (es ++ [⟨.edge, e⟩]) p' ∧ ∀ m ∈ out, D.Promised (es ++ [⟨.edge, e⟩]) m := by
  unfold edgeAct at hact
  rw [Option.ite_none_right_eq_some, Option.map_eq_some_iff] at hact
  obtain ⟨hreceives, q, hstep, heq⟩ := hact
  obtain ⟨rfl, rfl⟩ := Prod.mk.inj heq
  have hrequest : ∀ request version s, e = .interest request version s →
      D.Requested request es ∧ D.IsRequest request := by
    rintro request version s rfl
    exact requested_of_promised hD (hneeds _ (List.mem_singleton_self _)) hreceives
  have hviews : ∀ s, (q.view s).Carries (fun session => D.Collected s session (es ++ [⟨.edge, e⟩]))
      fun packet => D.Answered s packet (es ++ [⟨.edge, e⟩]) := by
    intro s
    refine View.Carries.step (Producer.view_step hstep s) ⟨h.session s,
      fun packet hp => h.puts s packet (mem_putsFor.1 hp)⟩ (fun session hs => hs.later _)
      (fun packet hp => hp.later _) (fun request version he => ?_)
      (fun session text hnamed hs => ?_) fun session hs => hs
    · obtain ⟨hrequested, hisRequest⟩ := hrequest request version s he
      exact ⟨once_last ⟨request, version, he ▸ rfl, hisRequest.1, hrequested, rfl⟩, [], rfl,
        fun r hr => absurd hr List.not_mem_nil⟩
    · obtain ⟨r, rfl, hr⟩ := told_of_named hD h hreceives hneeds hnamed
      exact (hs.later _).received (hr.later _)
  obtain ⟨hfetches, new, hexpressed, hnew⟩ := expressed_step h.edgeMode hstep
  have hsubs : ∀ i ∈ new, ∃ s, D.Asked s i (es ++ [⟨.edge, e⟩]) ∧ D.IsSub s i := by
    intro i hi
    obtain ⟨request, version, s, names, rfl, hnames, name, hname, rfl⟩ := hnew i hi
    obtain ⟨hrequested, hisRequest⟩ := hrequest request version s rfl
    exact ⟨s, once_last ⟨request, version, names, rfl, hrequested, hnames, name, hname, rfl⟩,
      isSub_of_mem hisRequest hnames hname s⟩
  refine ⟨⟨?_, hfetches.trans h.fetches, ?_, fun s => (hviews s).held,
    fun s packet hp => (hviews s).put packet (mem_putsFor.2 hp)⟩, ?_⟩
  · rw [Producer.edgeMode_step hstep, h.edgeMode]
  · intro i hi
    rw [hexpressed] at hi
    rcases List.mem_append.1 hi with hi | hi
    · exact h.expressed i hi
    · obtain ⟨s, -, hsub⟩ := hsubs i hi
      exact ⟨s, hsub⟩
  · intro m hm
    rcases List.mem_append.1 hm with hm | hm
    · rw [hexpressed, List.drop_left] at hm
      obtain ⟨i, hi, rfl⟩ := List.mem_map.1 hm
      exact Or.inr (hsubs i hi)
    · obtain ⟨⟨s, packet⟩, hput, rfl⟩ := List.mem_map.1 hm
      exact Or.inl ⟨s, (hviews s).put packet (mem_putsFor.2 (List.mem_of_mem_drop hput))⟩

end

/-! ## A worker -/

/-- **A worker keeps its part**: asked for a session, it tells what its detector saw. -/
theorem worker_next (hD : D.Documented) (hapart : D.Apart) {es : History} {k : ℕ} {w w' : Worker}
    {a : Arrival} (hw : w.cdString = D.cdString k)
    (hneeds : ∀ m ∈ D.network.needs (.worker k) a, D.Promised es m) {out : List Message}
    (hact : D.workerAct w a = some (w', out)) :
    w'.cdString = D.cdString k ∧ ∀ m ∈ out, D.Promised (es ++ [⟨.worker k, a⟩]) m := by
  unfold workerAct at hact
  rw [Option.ite_none_right_eq_some, Option.map_eq_some_iff, hw] at hact
  obtain ⟨hreached, ⟨v, packets⟩, hok, heq⟩ := hact
  obtain ⟨rfl, rfl⟩ := Prod.mk.inj heq
  rcases hneeds (.interest a.interest) (List.mem_singleton_self _) with
    ⟨-, hedge, -⟩ | ⟨s, hasked, hsub⟩
  · -- a request of a page is for the edge
    rcases List.prefix_or_prefix_of_prefix hreached hedge with hp | hp
    · exact absurd hp (hapart k).1
    · exact absurd hp (hapart k).2
  · have hsession : Worker.extractSessionID (Worker.decodeURI (D.lib.toUri a.interest.name)) =
        .ok (decimal s.toNat) := by
      obtain ⟨l, f, t, hlegible, hfields, heq⟩ := hsub
      rw [heq]
      exact extractSessionID_received (hlegible.inverseAt hD.uri s)
    have hmode : Worker.modeOf a.interest = txt "e" := by
      obtain ⟨l, f, t, -, -, heq⟩ := hsub
      rw [heq]
      rfl
    obtain ⟨target, targets, htargets, -⟩ :=
      Worker.onInterest_replies hD.rooted hmode w a.labels a.frame a.version
    have hreply : w.receive D.lib a = .ok (w, [.data (w.edgeData D.lib a.interest target
        (decimal s.toNat) a.labels)]) := Worker.onInterest_edge hmode htargets hsession
    rw [hreply, Except.toOption, Option.some.injEq, Prod.mk.injEq] at hok
    obtain ⟨rfl, rfl⟩ := hok
    refine ⟨hw, fun m hm => ?_⟩
    obtain rfl : m = .data (w.edgeData D.lib a.interest target (decimal s.toNat) a.labels) := by
      simpa [dataOf] using hm
    refine Or.inr ⟨s, w.reply target (decimal s.toNat) a.labels, a.interest, ?_, rfl, rfl, hsub,
      rfl⟩
    refine once_last ⟨k, a, target, targets, rfl, hasked, hreached, htargets, ?_⟩
    exact congrArg (fun cd => replyFor (replaceAll (txt "/") [] cd) target (decimal s.toNat)
      a.labels) hw

/-! ## A page -/

section

variable {es : History} {k : ℕ} {c c' : Client} {out : List Message}

theorem pageAfter_concat {input : PageInput} (h : D.pageAfter k es = some c)
    (hact : D.pageAct c input = some (c', out)) :
    D.pageAfter k (es ++ [⟨.page k, input⟩]) = some c' := by
  rw [pageAfter, Network.eventsOf_append, Network.eventsOf_self, Runs.exec_concat]
  exact ⟨c, h, congrArg (Option.map Prod.fst) hact⟩

theorem registered_sendRequest (browser : Browser) (c : Client) :
    (c.sendRequest browser).target = c.target ∧ (c.sendRequest browser).cd = c.cd := by
  unfold Client.sendRequest
  split
  · split <;> exact ⟨rfl, rfl⟩
  · exact ⟨rfl, rfl⟩

/-- A page goes on as it does by itself. -/
theorem PageFair.next (h : D.PageFair k es c) {input : PageInput} {e : PageEvent}
    (hact : D.pageAct c input = some (c', out)) (hstep : c.step D.lib D.browser e = some c')
    (hbrings : D.Brings (es ++ [⟨.page k, input⟩]) e input)
    (hasks : c'.target ≠ [] → D.IsRequest (D.interestOf c'.cd))
    (houtstanding : ∀ name ∈ c'.outstanding, D.IsRequest (D.interestOf name)) :
    D.PageFair k (es ++ [⟨.page k, input⟩]) c' := by
  obtain ⟨events, hrun, hall⟩ := h.alone
  have hinputs : Network.eventsOf (.page k) (es ++ [⟨.page k, input⟩]) =
      Network.eventsOf (.page k) es ++ [input] := by
    rw [Network.eventsOf_append, Network.eventsOf_self]
  refine ⟨pageAfter_concat h.after hact, hasks, houtstanding, events ++ [e],
    Runs.exec_concat.2 ⟨c, hrun, hstep⟩, ?_⟩
  rw [hinputs]
  exact List.rel_append (hall.imp fun _ _ hone => hone.later _) (.cons hbrings .nil)

/-- **A page keeps its part**: it sends what is registered on it, and what it gets are replies of
workers. -/
theorem page_next (hD : D.Documented) (h : D.PageFair k es c) {input : PageInput}
    (hregisters : D.RegistersRequest ⟨.page k, input⟩)
    (hneeds : ∀ m ∈ D.network.needs (.page k) input, D.Promised es m)
    (hact : D.pageAct c input = some (c', out)) :
    D.PageFair k (es ++ [⟨.page k, input⟩]) c' ∧
      ∀ m ∈ out, D.Promised (es ++ [⟨.page k, input⟩]) m := by
  cases input with
  | tick =>
    obtain ⟨rfl, rfl⟩ := Prod.mk.inj (Option.some.inj hact)
    obtain ⟨htarget, hcd⟩ := registered_sendRequest D.browser c
    rcases Client.sendRequest_eq D.browser c with ⟨hsame, -⟩ | ⟨hset, -, -, hsent, -⟩
    · refine ⟨h.next hact (e := .tick) rfl .tick ?_ ?_, fun m hm => ?_⟩
      · rw [htarget, hcd]
        exact h.asks
      · rw [hsame]
        exact h.outstanding
      · rw [hsame, List.drop_length] at hm
        exact absurd hm List.not_mem_nil
    · refine ⟨h.next hact (e := .tick) rfl .tick ?_ ?_, fun m hm => ?_⟩
      · rw [htarget, hcd]
        exact h.asks
      · rw [hsent]
        intro name hname
        rcases List.mem_append.1 hname with hname | hname
        · exact h.outstanding name hname
        · rw [List.mem_singleton.1 hname]
          exact h.asks hset
      · have hm' := hm
        rw [hsent, List.drop_left, List.map_singleton, List.mem_singleton] at hm'
        obtain rfl : m = .interest (D.interestOf c.cd) := hm'
        exact Or.inl ⟨once_last ⟨k, c, _, _, rfl, h.after, hact, hm⟩, h.asks hset⟩
  | registerTarget target name =>
    obtain ⟨rfl, rfl⟩ := Prod.mk.inj (Option.some.inj hact)
    refine ⟨h.next hact (e := .registerTarget target name) rfl (.registerTarget target name)
      (fun _ => hregisters) h.outstanding,
      fun m hm => absurd hm List.not_mem_nil⟩
  | data position packet =>
    have hdata := hact
    simp only [pageAct] at hact
    split at hact
    · exact absurd hact.symm (Option.some_ne_none _)
    · rename_i name hname
      rw [Option.ite_none_right_eq_some, Option.some.injEq, Prod.mk.injEq] at hact
      obtain ⟨hsatisfied, rfl, rfl⟩ := hact
      have hedge := (h.outstanding name (List.mem_of_getElem? hname)).1
      have hprefix := hedge.trans (prefix_of_satisfied hsatisfied)
      obtain ⟨htarget, hcd, houtstanding⟩ := Client.sameNames_onData D.browser
        (c.settle position) packet.content
      rcases hneeds (.data packet) (List.mem_singleton_self _) with
        ⟨s, hopened, replies, hcontent, htold⟩ | ⟨s, _, i, -, -, -, hsub, hi⟩
      · have hstep : c.step D.lib D.browser (.data position replies) = some _ :=
          Client.step_data.2 ⟨(List.getElem?_eq_some_iff.1 hname).1, rfl⟩
        rw [← hcontent] at hstep
        refine ⟨h.next hdata hstep (.data position hcontent (hopened.later _)
          fun r hr => (htold r hr).later _) ?_ ?_, fun m hm => absurd hm List.not_mem_nil⟩
        · rw [htarget, hcd]
          exact h.asks
        · rw [houtstanding]
          exact fun name' hname' => h.outstanding name' (List.mem_of_mem_eraseIdx hname')
      · -- a packet of a worker satisfies no request for the edge
        exact absurd hprefix (not_edge_sub hD.uri hsub (by rw [hi]))
  | timeout position =>
    have htimeout := hact
    simp only [pageAct] at hact
    rw [Option.ite_none_right_eq_some, Option.some.injEq, Prod.mk.injEq] at hact
    obtain ⟨hposition, rfl, rfl⟩ := hact
    refine ⟨h.next htimeout (Client.step_timeout.2 ⟨hposition, rfl⟩) (.timeout position) h.asks
      fun name' hname' => h.outstanding name' (List.mem_of_mem_eraseIdx hname'),
      fun m hm => absurd hm List.not_mem_nil⟩

end

/-! ## Runs -/

section

variable {es : History} {c : Config Message Party.State}

/-- **Every run keeps the chain.** -/
theorem fair (hD : D.Documented) (hapart : D.Apart)
    (hrun : Runs.exec D.network.step D.begin es = some c)
    (hregisters : ∀ e ∈ es, D.RegistersRequest e) :
    (∀ i, D.Fair es i (c.states i)) ∧ ∀ m ∈ c.sent, D.Promised es m := by
  refine Network.guaranteed (n := D.network) (A := D.RegistersRequest) (I := D.Fair)
    (P := D.Promised) ?_ ?_ ?_ ?_ ?_ es c hrun hregisters
  · intro i
    cases i with
    | page k =>
      exact ⟨rfl, fun h => absurd rfl h, fun name hname => absurd hname List.not_mem_nil,
        [], rfl, .nil⟩
    | edge =>
      exact ⟨rfl, rfl, fun i hi => absurd hi List.not_mem_nil,
        fun s session hs => absurd hs.symm (Option.some_ne_none _),
        fun s packet hp => absurd hp List.not_mem_nil⟩
    | worker k => exact rfl
  · exact fun m hm => absurd hm List.not_mem_nil
  · exact fun es e i s he hs => hs.other he
  · exact fun es e m hm => hm.later [e]
  · intro es i s e s' out hregisters hfair hneeds hact
    cases i with
    | page k => exact page_next hD hfair hregisters hneeds hact
    | edge => exact edge_next hD hfair hneeds hact
    | worker k => exact worker_next hD hapart hfair hneeds hact

/-- **No Data packet of the edge comes from nowhere.**  Whatever the pages, the edge and the
workers do in whatever order, and whatever the network does to what is sent, a packet the edge
puts for a session is named for a request that a page has sent, and holds, each in its line, replies
that workers told when the edge asked them for that session, and nothing else. -/
theorem no_phantom (hD : D.Documented) (hapart : D.Apart)
    (hrun : Runs.exec D.network.step D.begin es = some c)
    (hregisters : ∀ e ∈ es, D.RegistersRequest e) {s : UInt64} {packet : Data}
    (hput : (s, packet) ∈ (c.states .edge).face.puts) : D.Answered s packet es :=
  EdgeFair.puts ((fair hD hapart hrun hregisters).1 .edge) s packet hput

/-- **A page on the network is a page by itself**, to which Data packets come with replies that
workers have told for a session of the edge. -/
theorem page_refined (hD : D.Documented) (hapart : D.Apart)
    (hrun : Runs.exec D.network.step D.begin es = some c)
    (hregisters : ∀ e ∈ es, D.RegistersRequest e) (k : ℕ) :
    ∃ events, Runs.exec (Client.step D.lib D.browser) Client.start events =
        some (c.states (.page k)) ∧
      List.Forall₂ (D.Brings es) events (Network.eventsOf (.page k) es) :=
  PageFair.alone ((fair hD hapart hrun hregisters).1 (.page k))

/-- What is related to all of a list has a partner in it for each. -/
theorem exists_of_mem_forall₂ {α β : Type} {R : α → β → Prop} {as : List α} {bs : List β}
    (h : List.Forall₂ R as bs) {a : α} (ha : a ∈ as) : ∃ b ∈ bs, R a b := by
  induction h with
  | nil => exact absurd ha List.not_mem_nil
  | cons hR _ ih =>
    rcases List.mem_cons.1 ha with rfl | ha
    · exact ⟨_, List.mem_cons_self, hR⟩
    · obtain ⟨b, hb, hab⟩ := ih ha
      exact ⟨b, List.mem_cons_of_mem _ hb, hab⟩

/-- **What a page shows, a worker has told.** -/
theorem told_of_shown {events : List PageEvent} {d : Client} {inputs : List PageInput}
    (halone : Runs.exec (Client.step D.lib D.browser) Client.start events = some d)
    (hbrings : List.Forall₂ (D.Brings es) events inputs) {result : Result}
    (hresult : result ∈ Runs.gathered (Client.step D.lib D.browser) (Client.shown D.lib D.browser)
      Client.start events) : ∃ s r, D.Told s r es ∧ result = D.browser.result r := by
  obtain ⟨position, replies, hevent, hmem⟩ := Client.mem_shown_run halone hresult
  obtain ⟨r, hr, rfl⟩ := List.mem_map.1 hmem
  obtain ⟨input, -, hone⟩ := exists_of_mem_forall₂ hbrings hevent
  cases hone with
  | @data _ _ packet s content opened told => exact ⟨s, r, told r hr, rfl⟩

/-- **Every mark on a map is the verdict of a worker.**  If a cell of a page is marked, then a
worker, asked by the edge for a session, has told a reply whose location is that cell, and the
mark says whether its detector saw the target. -/
theorem mark_told (hD : D.Documented) (hapart : D.Apart)
    (hrun : Runs.exec D.network.step D.begin es = some c)
    (hregisters : ∀ e ∈ es, D.RegistersRequest e) {k x y : ℕ}
    (hmark : (c.states (.page k)).mark x y ≠ 0) :
    ∃ s r, D.Told s r es ∧ Client.cellOf D.browser (D.browser.result r) = (x, y) ∧
      (c.states (.page k)).mark x y = if r.isFound then 1 else 2 := by
  obtain ⟨events, halone, hbrings⟩ :=
    PageFair.alone ((fair hD hapart hrun hregisters).1 (.page k))
  have hlast := Client.mark_run hD.json hD.browser halone x y
  rcases Runs.lastWrite_cases (Client.goesTo D.browser x y) Client.markOf
    (Runs.gathered (Client.step D.lib D.browser) (Client.shown D.lib D.browser) Client.start events)
    0 with hnone | ⟨result, hresult, hgoes, hvalue⟩
  · exact absurd (hlast.trans hnone) hmark
  · obtain ⟨s, r, htold, rfl⟩ := told_of_shown halone hbrings hresult
    exact ⟨s, r, htold, of_decide_eq_true hgoes, hlast.trans hvalue⟩

end

/-! ## One round -/

/-- One worker, at the first location of the page. -/
def oneWorker : Deployment where
  lib := reference
  browser := referenceBrowser
  interestOf name := {
    name := reference.ofUri (name.map fun c => UInt8.ofNat c.toNat)
    canBePrefix := true
    mustBeFresh := true }
  cdString _ := txt "/3/0/3/2/1"
  options _ := {}

/-- The name of a request for a person there. -/
def personName : JsString := js "/icn2020/edge/#f:detect/#a:[30321] #a:[person]"

/-- The sub-Interest for it. -/
def personSub : Interest :=
  subInterest reference (ch 'e') 7 (txt "/3/0/3/2/1/#f:detect/#a:[30321] #a:[person]")

/-- What the worker puts if it sees a person. -/
def personData : Data :=
  (Worker.start (txt "/3/0/3/2/1") {}).edgeData reference personSub (txt "person") (decimal 7)
    [txt "person"]

/-- What the edge puts then. -/
def personAnswer : Data :=
  (packetFor (oneWorker.interestOf personName) 1).setContent
    (Client.contentOf reference [Client.personAt (txt "30321")])

/-- A page asks, the edge asks the worker, and the verdict comes back. -/
def oneRound : History := [
  ⟨.page 0, PageInput.registerTarget (js "person") personName⟩,
  ⟨.page 0, PageInput.tick⟩,
  ⟨.edge, Event.interest (oneWorker.interestOf personName) 1 7⟩,
  ⟨.worker 0, { interest := personSub, labels := [txt "person"], frame := Worker.onePixel 1,
                version := 1 }⟩,
  ⟨.edge, Event.data personSub personData⟩,
  ⟨.page 0, PageInput.data 0 personAnswer⟩]

theorem documented_oneWorker : oneWorker.Documented :=
  ⟨reference_uri, reference_rooted, reference_json, reference_cast, referenceBrowser_documented⟩

theorem apart_oneWorker : oneWorker.Apart := by
  intro k
  change ¬ reference.ofUri (txt "/3/0/3/2/1") <+: oneWorker.edgeName ∧
    ¬ oneWorker.edgeName <+: reference.ofUri (txt "/3/0/3/2/1")
  decide +kernel

theorem registers_oneRound : ∀ e ∈ oneRound, oneWorker.RegistersRequest e := by
  have hname : oneWorker.IsRequest (oneWorker.interestOf personName) := by
    constructor
    · decide +kernel
    · decide +kernel
  unfold oneRound
  simp only [List.forall_mem_cons]
  exact ⟨hname, trivial, trivial, trivial, trivial, trivial, fun e he => absurd he List.not_mem_nil⟩

theorem exists_exec_oneRound : ∃ c, Runs.exec oneWorker.network.step oneWorker.begin oneRound =
      some c ∧ (c.states .edge).face.puts = [(7, personAnswer)] ∧
        (c.states (.page 0)).mark 5 6 = 1 := by
  have hsome : (Runs.exec oneWorker.network.step oneWorker.begin oneRound).map (fun c =>
      ((c.states .edge).face.puts, (c.states (.page 0)).mark 5 6)) =
        some ([(7, personAnswer)], 1) := by decide +kernel
  obtain ⟨c, hc, heq⟩ := Option.map_eq_some_iff.1 hsome
  exact ⟨c, hc, Prod.mk.inj heq⟩

/-- The answer of that round is the reply of the worker. -/
theorem no_phantom_oneRound : oneWorker.Answered 7 personAnswer oneRound := by
  obtain ⟨c, hrun, hputs, -⟩ := exists_exec_oneRound
  refine no_phantom documented_oneWorker apart_oneWorker hrun registers_oneRound ?_
  rw [hputs]
  exact List.mem_singleton_self _

/-- The page of that round has gone through three events. -/
theorem page_refined_oneRound : ∃ c events, Runs.exec oneWorker.network.step oneWorker.begin
    oneRound = some c ∧ events.length = 3 ∧
      Runs.exec (Client.step reference referenceBrowser) Client.start events =
        some (c.states (.page 0)) := by
  obtain ⟨c, hrun, -⟩ := exists_exec_oneRound
  obtain ⟨events, halone, hbrings⟩ :=
    page_refined documented_oneWorker apart_oneWorker hrun registers_oneRound 0
  refine ⟨c, events, hrun, ?_, halone⟩
  rw [hbrings.length_eq]
  decide +kernel

/-- The mark of that round is the verdict of the worker. -/
theorem mark_told_oneRound : ∃ s r, oneWorker.Told s r oneRound ∧ r.isFound = true := by
  obtain ⟨c, hrun, -, hmark⟩ := exists_exec_oneRound
  obtain ⟨s, r, htold, -, hvalue⟩ := mark_told (k := 0) (x := 5) (y := 6) documented_oneWorker
    apart_oneWorker hrun registers_oneRound (by rw [hmark]; decide)
  refine ⟨s, r, htold, ?_⟩
  rw [hmark] at hvalue
  cases hfound : r.isFound with
  | true => rfl
  | false =>
    rw [hfound] at hvalue
    exact absurd hvalue (by decide)

end Deployment

end Crowdsensing
