import Crowdsensing.Edge.Aggregation
import Crowdsensing.Modes.Format
import Crowdsensing.Modes.TwoModes
import Crowdsensing.Modes.Verdict
import Crowdsensing.System.Tally

/-!
# Requests for several targets

The list of targets is carried through the rewriting and split again in both programs, and
both look at its first entry only.

* `AllVerdicts` — the replies tell of every location and every target whether it was found.
* `Complete` — the replies are those to the sub-Interests of a request, and none is missing.
* `taken`, `collects_taken` — **the replies a session collects are those that come while it is
  held.**
* `locationsOf_fields`, `targetPart_fields` — what the edge reads off a request.
* `reply_text` — the text of a reply, in either mode: it is about the first target.
* `allVerdicts_iff` — what replies about one target tell.
* `every_target_iff` — **every pair has its verdict exactly if one plain target is asked for at
  locations that come through, and each location's reply comes in time.**
-/

namespace Crowdsensing

open Text

/-! ## What is asked of the replies -/

/-- The text is the verdict on a target at a location where these labels are seen. -/
def IsVerdict (lib : Externals) (l t : Str) (labels : List Str) (text : Str) : Prop :=
  (lib.parse text).get (txt "location") = .string l ∧
    (lib.parse text).get (txt "target") = .string t ∧
    (lib.parse text).get (txt "isFound") = .bool (decide (t ∈ labels))

/-- Among the replies there is a verdict for every location and every target. -/
def AllVerdicts (lib : Externals) (ls ts : List Str) (detection_result : ℕ → List Str)
    (replies : List Str) : Prop :=
  ∀ i l, ls[i]? = some l → ∀ t ∈ ts, ∃ text ∈ replies, IsVerdict lib l t (detection_result i) text

/-- The sub-Interest with this name goes out, and to the worker of the location. -/
def Delivered (lib : Externals) (d : UInt64) (l name : Str) : Prop :=
  lib.acceptsUri (subInterestName name d) = true ∧ LiesUnder l name

/-- A reply to the sub-Interest for a location, which gets to its worker: in cloud mode what the
executor passes on, and in edge mode what the worker puts.  The edge was `q` before the client's
Interest and is `q'` after it. -/
def RepliesTo (lib : Externals) (q q' : Producer) (interest : Interest) (d : UInt64)
    (ls : List Str) (detection_result : ℕ → List Str) (i : ℕ) (text : Str) : Prop :=
  ∃ l names name, ls[i]? = some l ∧
    Producer.convertInterestName (Producer.decodeURI (lib.toUri interest.name)) [] = .ok names ∧
    names[i]? = some name ∧ Delivered lib d l name ∧
    if q.edgeMode = ch 'c' then
      ∃ fetch, (q'.face.fetches.drop q.face.fetches.length)[i]? = some fetch ∧
        CloudAnswer lib fetch.2 (detection_result i) text
    else
      ∃ sub data, (q'.face.expressed.drop q.face.expressed.length)[i]? = some sub ∧
        EdgeAnswer lib l sub (detection_result i) data ∧ data.content = text

/-- The replies are those to the sub-Interests of a request, and every sub-Interest has
been answered. -/
structure Complete (lib : Externals) (q q' : Producer) (interest : Interest) (d : UInt64)
    (ls : List Str) (detection_result : ℕ → List Str) (replies : List Str) : Prop where
  only : ∀ text ∈ replies, ∃ i, RepliesTo lib q q' interest d ls detection_result i text
  every : ∀ i < ls.length, ∃ text ∈ replies,
    RepliesTo lib q q' interest d ls detection_result i text

/-- One target is asked for, however often, and all its bytes come through. -/
def OnePlainTarget (ts : List Str) : Prop :=
  ∃ t, (∀ t' ∈ ts, t' = t) ∧ ∀ b ∈ t, isPlain b = true

/-- A location comes through: its worker can be asked, and in cloud mode the edge reads it as it
is. -/
def ComesThrough (mode : UInt8) (l : Str) : Prop :=
  ch '.' ∉ l ∧ if mode = ch 'c' then ∀ b ∈ l, isPlain b = true else l <+: decoded l

/-- A reply to the sub-Interest for a location comes while the session is held. -/
def InTime (lib : Externals) (mode : UInt8) (q q' : Producer) (interest : Interest) (d : UInt64)
    (ls : List Str) (detection_result : ℕ → List Str) (es : List Event) (i : ℕ) : Prop :=
  ∃ pre e post p text, es = pre ++ e :: post ∧
    Runs.exec (Producer.step lib) (Producer.start mode) pre = some p ∧
    p.sessions.get d ≠ none ∧ e.payloadFor lib d = some text ∧
    RepliesTo lib q q' interest d ls detection_result i text

/-! ## What a session collects -/

/-- The reply that an event brings for a session that is held. -/
def takenAt (lib : Externals) (d : UInt64) (p : Producer) (e : Event) : List Str :=
  if (p.sessions.get d).isSome then (e.payloadFor lib d).toList else []

/-- The replies that come for a session while it is held. -/
def taken (lib : Externals) (mode : UInt8) (d : UInt64) (es : List Event) : List Str :=
  Runs.gathered (Producer.step lib) (takenAt lib d) (Producer.start mode) es

/-- The replies collected for a session: its buffer holds them, or the Data packet put for it. -/
def Collects (p : Producer) (d : UInt64) (replies : List Str) : Prop :=
  (∀ session, p.sessions.get d = some session → session.buffer = collected replies) ∧
    ∀ packet, (d, packet) ∈ p.face.puts → packet.content = collected replies

section

variable {lib : Externals} {mode : UInt8} {d : UInt64} {es : List Event} {p : Producer}

/-- A session that has taken in these replies: not opened yet, held, or answered. -/
def Took (lib : Externals) (es : List Event) (d : UInt64) (replies : List Str) (v : View) :
    Prop :=
  (v = View.blank ∧ replies = []) ∨ d ∈ opened es ∧
    (∀ text ∈ replies, text ∈ payloads lib d es) ∧
    ∃ packet, v = View.live d packet replies ∨ View.Done packet replies v

/-- **One step of a session takes in what comes while it is held.** -/
theorem took_step {e : Event} {p' : Producer} (hstep : p.step lib e = some p')
    (hfresh : (opened (es ++ [e])).Nodup) {replies : List Str}
    (h : Took lib es d replies (p.view d)) :
    Took lib (es ++ [e]) d (replies ++ takenAt lib d p e) (p'.view d) := by
  have hview := Producer.view_step hstep d
  rcases h with ⟨hblank, rfl⟩ | ⟨hmem, hpayloads, packet, hv⟩
  · have hnone : p.sessions.get d = none := congrArg View.session hblank
    rw [takenAt, hnone]
    rw [hblank] at hview
    rcases blank_step hview with ⟨hv, -⟩ | ⟨i, version, rfl, hv⟩
    · exact Or.inl ⟨hv, rfl⟩
    · exact Or.inr ⟨mem_opened.2 ⟨i, version, by simp⟩, fun text htext => absurd htext
        List.not_mem_nil, _, Or.inl hv⟩
  · have hopening : e.opening ≠ some d := fun hc => not_mem_opened hfresh hc hmem
    have hmem' : d ∈ opened (es ++ [e]) := by
      rw [opened_concat]
      exact List.mem_append_left _ hmem
    have hall : ∀ text ∈ replies ++ takenAt lib d p e, text ∈ payloads lib d (es ++ [e]) := by
      intro text htext
      rw [payloads_concat hmem]
      refine List.mem_append.2 ((List.mem_append.1 htext).imp (hpayloads text) fun htaken => ?_)
      rw [takenAt] at htaken
      split at htaken
      · exact htaken
      · exact absurd htaken List.not_mem_nil
    refine Or.inr ⟨hmem', hall, packet, ?_⟩
    rcases hv with hlive | hdone
    · have hget : (p.sessions.get d).isSome = true := by
        rw [show p.sessions.get d = _ from congrArg View.session hlive]
        rfl
      rw [takenAt, if_pos hget]
      rw [hlive] at hview
      exact live_step hview hopening
    · have hnone : p.sessions.get d = none := hdone.session
      rw [takenAt, hnone, if_neg (by simp), List.append_nil]
      exact Or.inr (done_step hview hdone hopening)

/-- **The replies a session collects are those that come while it is held**, and each is one that
names it. -/
theorem collects_taken (hrun : Runs.exec (Producer.step lib) (Producer.start mode) es = some p)
    (hfresh : (opened es).Nodup) : Collects p d (taken lib mode d es) ∧
      ∀ text ∈ taken lib mode d es, text ∈ payloads lib d es := by
  have htook : Took lib es d (taken lib mode d es) (p.view d) := by
    refine Runs.history (P := fun es p => (opened es).Nodup →
      Took lib es d (taken lib mode d es) (p.view d)) (fun _ => Or.inl ⟨rfl, rfl⟩) ?_ es p hrun
      hfresh
    intro es p e p' hrun ih hstep hfresh
    rw [taken, Runs.gathered_concat hrun]
    exact took_step hstep hfresh (ih (opened_nodup_left hfresh))
  have hputs : ∀ {packet : Data}, (d, packet) ∈ p.face.puts → packet ∈ (p.view d).puts := by
    intro packet hput
    exact List.mem_filterMap.2 ⟨(d, packet), hput, if_pos rfl⟩
  rcases htook with ⟨hblank, hnil⟩ | ⟨-, hpayloads, packet, hlive | hdone⟩
  · rw [hnil]
    refine ⟨⟨fun session hs => ?_, fun packet hput => ?_⟩, fun _ h => absurd h List.not_mem_nil⟩
    · exact absurd ((congrArg View.session hblank).symm.trans hs).symm (Option.some_ne_none _)
    · have hmem := hputs hput
      rw [hblank] at hmem
      exact absurd hmem List.not_mem_nil
  · refine ⟨⟨fun session hs => ?_, fun packet hput => ?_⟩, hpayloads⟩
    · rw [← Option.some.inj ((congrArg View.session hlive).symm.trans hs)]
    · have hmem := hputs hput
      rw [hlive] at hmem
      exact absurd hmem List.not_mem_nil
  · refine ⟨⟨fun session hs => ?_, fun packet hput => ?_⟩, hpayloads⟩
    · exact absurd (hs.symm.trans hdone.session) (Option.some_ne_none _)
    · have hmem := hputs hput
      rw [hdone.puts] at hmem
      rw [List.mem_singleton.1 hmem]
      rfl

/-- A reply comes in time if and only if it is taken in. -/
theorem inTime_iff (hrun : Runs.exec (Producer.step lib) (Producer.start mode) es = some p)
    {q q' : Producer} {interest : Interest} {ls : List Str} {detection_result : ℕ → List Str}
    {i : ℕ} : InTime lib mode q q' interest d ls detection_result es i ↔
      ∃ text ∈ taken lib mode d es, RepliesTo lib q q' interest d ls detection_result i text := by
  constructor
  · rintro ⟨pre, e, post, p, text, rfl, hpre, hheld, hpayload, hreply⟩
    refine ⟨text, Runs.mem_gathered hpre ?_, hreply⟩
    rw [takenAt, if_pos (Option.isSome_iff_ne_none.2 hheld), hpayload]
    exact List.mem_singleton_self _
  · rintro ⟨text, htext, hreply⟩
    obtain ⟨pre, e, post, p', hes, hpre, hmem⟩ := Runs.exists_of_mem_gathered _ p hrun htext
    rw [takenAt] at hmem
    split at hmem
    · rename_i hheld
      exact ⟨pre, e, post, p', text, hes, hpre, Option.isSome_iff_ne_none.1 hheld,
        Option.mem_toList.1 hmem, hreply⟩
    · exact absurd hmem List.not_mem_nil

end

/-! ## The request at the edge -/

/-- The values of a key are what was written between its brackets. -/
theorem piecesOf_key {xs : List Str} (hne : xs ≠ [])
    (h : ∀ x ∈ xs, ∀ c ∈ txt ",:[]", c ∉ x) :
    piecesOf (txt "#a:[" ++ (txt ",").intercalate xs ++ txt "]") = xs := by
  have hnot : ∀ c ∈ txt ":[]", c ∉ (txt ",").intercalate xs := by
    intro c hc hmem
    rcases mem_of_mem_intercalate hmem with hcomma | ⟨x, hx, hb⟩
    · rw [List.mem_singleton.1 hcomma] at hc
      exact absurd hc (by decide)
    · exact h x hx c (List.mem_cons_of_mem _ hc) hb
  rw [piecesOf, keyText_key (hnot _ (by decide)) (hnot _ (by decide)) (hnot _ (by decide))]
  exact List.splitOn_intercalate (ch ',') (fun x hx => h x hx _ (by decide)) hne

theorem decoded_intercalate (xs : List Str) :
    decoded ((txt ",").intercalate xs) = (txt ",").intercalate (xs.map decoded) := by
  have hcomma : decoded (txt ",") = txt "," := by decide
  induction xs with
  | nil => rfl
  | cons x xs ih =>
    cases xs with
    | nil => simp
    | cons y xs =>
      rw [List.map_cons] at ih
      rw [List.map_cons, List.map_cons, List.intercalate_cons_cons, List.intercalate_cons_cons,
        decoded_append, decoded_append, hcomma, ih]

/-- A key with fields as its values. -/
def fieldKey (xs : List Str) : Str := txt "#a:[" ++ (txt ",").intercalate xs ++ txt "]"

theorem decoded_fieldKey (xs : List Str) : decoded (fieldKey xs) = fieldKey (xs.map decoded) := by
  have hopen : decoded (txt "#a:[") = txt "#a:[" := by decide
  have hclose : decoded (txt "]") = txt "]" := by decide
  rw [fieldKey, decoded_append, decoded_append, hopen, hclose, decoded_intercalate, fieldKey]

/-- Decoding brings no separator into a field. -/
theorem IsField.not_mem_decoded {x : Str} (h : IsField x) {c : UInt8} (hc : c ∈ txt " ,:[]") :
    c ∉ decoded x := by
  have hc' : c ∈ txt " /,:[]" ∧ c ≠ ch '%' ∧ isAlnum c = false := by
    revert c
    decide +kernel
  exact Crowdsensing.not_mem_decoded hc'.2.1 hc'.2.2 fun hmem => h.no_separator c hmem hc'.1

theorem IsField.decoded_ne_nil {x : Str} (h : IsField x) : decoded x ≠ [] := by
  have hle := length_le_decoded x
  have hpos := List.length_pos_iff.2 h.ne_nil
  exact List.length_pos_iff.1 (by omega)

section

variable {front f : Str} {ls ts : List Str}

/-- Fields and their key have no space. -/
theorem space_not_mem_fieldKey {xs : List Str} (h : ∀ x ∈ xs, IsField x) :
    ch ' ' ∉ decoded (fieldKey xs) ∧ ch ' ' ∉ fieldKey xs := by
  have hnot : ch ' ' ∉ fieldKey xs := by
    simp only [fieldKey, List.mem_append, not_or]
    refine ⟨⟨by decide, fun hmem => ?_⟩, by decide⟩
    rcases mem_of_mem_intercalate hmem with hcomma | ⟨x, hx, hb⟩
    · exact absurd (List.mem_singleton.1 hcomma) (by decide)
    · exact (h x hx).no_separator _ hb (by decide)
  exact ⟨not_mem_decoded (by decide) (by decide) hnot, hnot⟩

/-- The values of a decoded key are the decoded fields. -/
theorem piecesOf_decoded_fieldKey {xs : List Str} (hne : xs ≠ []) (h : ∀ x ∈ xs, IsField x) :
    piecesOf (decoded (fieldKey xs)) = xs.map decoded := by
  rw [decoded_fieldKey]
  refine piecesOf_key (by simpa using hne) ?_
  intro y hy c hc
  obtain ⟨x, hx, rfl⟩ := List.mem_map.1 hy
  exact (h x hx).not_mem_decoded (List.mem_cons_of_mem _ hc)

theorem decoded_requestKeyword_fields (ls ts : List Str) :
    decoded (requestKeyword ls (join ts ",")) =
      decoded (fieldKey ls) ++ ch ' ' :: decoded (fieldKey ts) := by
  rw [← decoded_append_space]
  refine congrArg decoded ?_
  simp only [requestKeyword, fieldKey, join, List.append_assoc]
  rfl

/-- The decoded text of a request. -/
def requestText (front f : Str) (ls ts : List Str) : Str :=
  front ++ ch '/' :: decoded f ++ ch '/' :: decoded (requestKeyword ls (join ts ","))

theorem keywordPart_requestText (front f : Str) (ls ts : List Str) :
    keywordPart (requestText front f ls ts) =
      decoded (fieldKey ls) ++ ch ' ' :: decoded (fieldKey ts) := by
  rw [keywordPart, requestText, afterLast_append (slash_not_mem_decoded _),
    decoded_requestKeyword_fields]

theorem accepted_requestText (front f : Str) (ls ts : List Str) :
    Accepted (requestText front f ls ts) := by
  constructor
  · simp [requestText]
  · simp [keywordPart_requestText]

/-- **The target the edge passes on** is the decoded key with all the targets. -/
theorem targetPart_fields (hts : ∀ t ∈ ts, IsField t) :
    targetPart (requestText front f ls ts) = decoded (fieldKey ts) := by
  rw [targetPart, keywordPart_requestText, afterLast_append (space_not_mem_fieldKey hts).1]

/-- **The locations the edge reads** are the decoded locations. -/
theorem locationsOf_fields (hne : ls ≠ []) (hls : ∀ l ∈ ls, IsField l)
    (hts : ∀ t ∈ ts, IsField t) :
    locationsOf (requestText front f ls ts) = ls.map decoded := by
  rw [locationsOf, locationKeyPart, keywordPart_requestText,
    beforeLast_append (space_not_mem_fieldKey hts).1,
    afterLast_of_not_mem (space_not_mem_fieldKey hls).1, piecesOf_decoded_fieldKey hne hls]

theorem targetsOf_fields (hne : ts ≠ []) (hts : ∀ t ∈ ts, IsField t) :
    targetsOf (requestText front f ls ts) = ts.map decoded := by
  rw [targetsOf, targetPart_fields hts, piecesOf_decoded_fieldKey hne hts]

end

/-! ## The replies -/

/-- The location that a reply names: read off a name in cloud mode, and the worker's own in
edge mode. -/
def shownLocation (mode : UInt8) (l : Str) : Str := if mode = ch 'c' then decoded l else l

section

variable {lib : Externals} {q q' : Producer} {interest : Interest} {version : ℕ} {d : UInt64}
  {front f t : Str} {ls ts replies : List Str} {detection_result : ℕ → List Str}

/-- What a client Interest leaves in cloud mode. -/
theorem fetches_of_step (hmode : q.edgeMode = ch 'c') {s target : Str} {targets : List Str}
    (hs : Producer.decodeURI (lib.toUri interest.name) = s) (haccepted : Accepted s)
    (htargets : targetsOf s = target :: targets)
    (hstep : q.step lib (.interest interest version d) = some q') :
    q'.face.fetches = q.face.fetches ++ (locationsOf s).map fun l =>
      (Producer.reInterest lib (nameFor l (functionPart s) (targetPart s)) d,
        executorFor lib d (functionPart s) (targetPart s) target l) := by
  obtain ⟨p', hp', -, hfetches⟩ := Producer.onInterestCloud_eq q version d hs haccepted htargets
  rw [Producer.step, Producer.handleInterest, if_pos hmode, Option.bind_some, hp',
    Except.toOption, Option.some.injEq] at hstep
  rw [← hstep, hfetches]

/-- What a client Interest leaves in edge mode. -/
theorem expressed_of_step (hmode : q.edgeMode ≠ ch 'c') {s : Str}
    (hs : Producer.decodeURI (lib.toUri interest.name) = s) (haccepted : Accepted s)
    (hstep : q.step lib (.interest interest version d) = some q') :
    q.edgeMode = ch 'e' ∧ q'.face.expressed = q.face.expressed ++ (locationsOf s).map fun l =>
      subInterest lib (ch 'e') d (nameFor l (functionPart s) (targetPart s)) := by
  have hnames := Producer.convertInterestName_eq haccepted []
  rw [← hs] at hnames
  rw [Producer.step, Producer.handleInterest, if_neg hmode] at hstep
  split at hstep
  · rename_i hedge
    rw [Option.bind_some, Producer.onInterest_eq hnames, Except.toOption,
      Option.some.injEq] at hstep
    refine ⟨hedge, ?_⟩
    rw [← hstep, hs, hedge]
    simp
  · exact absurd hstep.symm (Option.some_ne_none _)

section

variable (hs : Producer.decodeURI (lib.toUri interest.name) =
    requestText front (marked f) ls (t :: ts))
  (hls : ∀ l ∈ ls, IsField l) (hne : ls ≠ []) (hts : ∀ t' ∈ t :: ts, IsField t')

/-- The name that a location of a request is asked with. -/
def askedName (front f : Str) (ls ts : List Str) (l : Str) : Str :=
  nameFor (decoded l) (functionPart (requestText front f ls ts))
    (targetPart (requestText front f ls ts))

include hs hls hne hts

/-- The name for a location, in its place. -/
theorem eq_askedName {names : List Str} (hnames : Producer.convertInterestName
    (Producer.decodeURI (lib.toUri interest.name)) [] = .ok names) {i : ℕ} {l name : Str}
    (hl : ls[i]? = some l) (hname : names[i]? = some name) :
    name = askedName front (marked f) ls (t :: ts) l := by
  rw [hs, Producer.convertInterestName_eq (accepted_requestText front (marked f) ls (t :: ts)),
    List.nil_append, locationsOf_fields hne hls hts, Except.ok.injEq] at hnames
  rw [← hnames, List.map_map, List.getElem?_map, hl, Option.map_some, Option.some.injEq] at hname
  exact hname.symm

/-- **What a worker replies** to the sub-Interest for its location, if that gets to it. -/
theorem repliesTo_edge_iff (hlib : lib.UriDocumented) (hmode : q.edgeMode ≠ ch 'c')
    (hstep : q.step lib (.interest interest version d) = some q') {i : ℕ} {text : Str} :
    RepliesTo lib q q' interest d ls detection_result i text ↔
      ∃ l, ls[i]? = some l ∧ Delivered lib d l (askedName front (marked f) ls (t :: ts) l) ∧
        text = replyText lib d l (decoded t) (detection_result i) := by
  have haccepted := accepted_requestText front (marked f) ls (t :: ts)
  have hlocations : locationsOf (requestText front (marked f) ls (t :: ts)) = ls.map decoded :=
    locationsOf_fields hne hls hts
  have htarget : targetPart (requestText front (marked f) ls (t :: ts)) =
      decoded (fieldKey (t :: ts)) := targetPart_fields hts
  have hspace : ch ' ' ∉ uriUnescape (targetPart (requestText front (marked f) ls (t :: ts))) := by
    rw [htarget, uriUnescape_decoded]
    exact (space_not_mem_fieldKey hts).2
  have hpieces : piecesOf (decoded (uriUnescape
      (targetPart (requestText front (marked f) ls (t :: ts))))) =
        decoded t :: ts.map decoded := by
    rw [htarget, uriUnescape_decoded]
    exact piecesOf_decoded_fieldKey (List.cons_ne_nil t ts) hts
  -- a sub-Interest that gets to its worker has one reply
  have hreceived : ∀ l, ls[i]? = some l →
      Delivered lib d l (askedName front (marked f) ls (t :: ts) l) →
      ((q'.face.expressed.drop q.face.expressed.length)[i]? =
          some (subInterest lib (ch 'e') d (askedName front (marked f) ls (t :: ts) l)) ∧
        ∀ data, EdgeAnswer lib l
          (subInterest lib (ch 'e') d (askedName front (marked f) ls (t :: ts) l))
          (detection_result i) data ↔ data = replyData lib d l (decoded t) (detection_result i)
            (subInterest lib (ch 'e') d (askedName front (marked f) ls (t :: ts) l))) := by
    intro l hl hdelivered
    have hmem := List.mem_of_getElem? hl
    have hl' : decoded l ∈ locationsOf (requestText front (marked f) ls (t :: ts)) := by
      rw [hlocations]
      exact List.mem_map_of_mem hmem
    have hdecoded := (hls l hmem).decoded_ne_nil
    have hperiod : ch '.' ∉ decoded l := by
      refine period_not_mem_of_acceptsUri hlib (subFields_of_mem hl') hdecoded ?_ hdelivered.1
      rw [requestText, (parts_decoded front (marked f) _).1]
      exact (isUriPart_decoded f).ne_nil
    have hslash : ch '/' ∉ l := fun hc => (hls l hmem).no_separator _ hc (by decide)
    obtain ⟨-, hexpressed⟩ := expressed_of_step hmode hs haccepted hstep
    refine ⟨?_, fun data => edgeAnswer_received ((legible_decoded hl' hdecoded hperiod).inverseAt
      hlib d) hslash hspace hpieces⟩
    rw [hexpressed, List.drop_left, hlocations, List.map_map, List.getElem?_map, hl]
    rfl
  constructor
  · rintro ⟨l, names, name, hl, hnames, hname, hdelivered, hreply⟩
    obtain rfl := eq_askedName hs hls hne hts hnames hl hname
    rw [if_neg hmode] at hreply
    obtain ⟨sub, data, hsub, hanswer, rfl⟩ := hreply
    obtain ⟨hsent, hiff⟩ := hreceived l hl hdelivered
    obtain rfl := Option.some.inj (hsent.symm.trans hsub)
    exact ⟨l, hl, hdelivered, by rw [(hiff data).1 hanswer]; rfl⟩
  · rintro ⟨l, hl, hdelivered, rfl⟩
    obtain ⟨hsent, hiff⟩ := hreceived l hl hdelivered
    refine ⟨l, _, _, hl, by rw [hs]; exact Producer.convertInterestName_eq haccepted [], ?_,
      hdelivered, ?_⟩
    · rw [List.nil_append, hlocations, List.map_map, List.getElem?_map, hl]
      rfl
    · rw [if_neg hmode]
      exact ⟨_, _, hsent, (hiff _).2 rfl, rfl⟩

/-- **A reply is about the first target of the request**, in either mode, and its sub-Interest got
to the worker. -/
theorem reply_text (hlib : lib.UriDocumented)
    (hstep : q.step lib (.interest interest version d) = some q') {i : ℕ} {text : Str}
    (h : RepliesTo lib q q' interest d ls detection_result i text) : ∃ l, ls[i]? = some l ∧
      Delivered lib d l (askedName front (marked f) ls (t :: ts) l) ∧
      text = replyText lib d (shownLocation q.edgeMode l) (decoded t) (detection_result i) := by
  by_cases hmode : q.edgeMode = ch 'c'
  · obtain ⟨l, names, name, hl, hnames, hname, hdelivered, h⟩ := h
    obtain rfl := eq_askedName hs hls hne hts hnames hl hname
    rw [if_pos hmode] at h
    obtain ⟨fetch, hfetch, hanswer⟩ := h
    have htargets : targetsOf (requestText front (marked f) ls (t :: ts)) =
        decoded t :: ts.map decoded := targetsOf_fields (List.cons_ne_nil t ts) hts
    rw [fetches_of_step hmode hs (accepted_requestText front (marked f) ls (t :: ts)) htargets
        hstep, List.drop_left, locationsOf_fields hne hls hts, List.map_map, List.getElem?_map, hl,
      Option.map_some, Option.some.injEq] at hfetch
    rw [← hfetch] at hanswer
    refine ⟨l, hl, hdelivered, ?_⟩
    rw [shownLocation, if_pos hmode]
    exact cloudAnswer_text hanswer
  · obtain ⟨l, hl, hdelivered, htext⟩ :=
      (repliesTo_edge_iff hs hls hne hts hlib hmode hstep).1 h
    refine ⟨l, hl, hdelivered, ?_⟩
    rw [shownLocation, if_neg hmode]
    exact htext

end

/-- A path that begins with the path of a text begins with its characters. -/
theorem prefix_of_path {l m rest : Str} (hle : l.length ≤ m.length)
    (h : l.flatMap (fun c => [ch '/', c]) <+: m.flatMap (fun c => [ch '/', c]) ++ rest) :
    l <+: m := by
  induction l generalizing m with
  | nil => exact List.nil_prefix
  | cons c l ih =>
    cases m with
    | nil => exact absurd hle (Nat.not_succ_le_zero _)
    | cons c' m =>
      simp only [List.flatMap_cons, List.cons_append, List.nil_append, List.cons_prefix_cons] at h
      obtain ⟨-, rfl, h⟩ := h
      exact List.cons_prefix_cons.2 ⟨rfl, ih (Nat.le_of_succ_le_succ hle) h⟩

/-- **A location whose sub-Interest gets to its worker** has no period, and is the beginning of
what the edge reads for it. -/
theorem prefix_of_delivered (hlib : lib.UriDocumented) {l f' t' : Str} (hfield : IsField l)
    (h : SubFields (decoded l) f' t') (hf : f' ≠ [])
    (hdelivered : Delivered lib d l (nameFor (decoded l) f' t')) :
    ch '.' ∉ l ∧ l <+: decoded l := by
  have hperiod := period_not_mem_of_acceptsUri hlib h hfield.decoded_ne_nil hf hdelivered.1
  refine ⟨fun hmem => hperiod (List.mem_flatMap.2 ⟨_, hmem, by decide⟩), ?_⟩
  have hpath : ∀ m : Str, m ≠ [] → Producer.locationPath m = m.flatMap fun c => [ch '/', c] := by
    intro m hm
    refine (cons_intercalate (by simpa using hm)).trans ?_
    rw [List.flatMap_map]
    rfl
  have hunder : Producer.locationPath l ++ txt "/" <+:
      Producer.locationPath (decoded l) ++ (txt "/" ++ f' ++ txt "/#a:[" ++ decoded l ++ txt "] " ++
        t') := by
    have hname : nameFor (decoded l) f' t' = Producer.locationPath (decoded l) ++
        (txt "/" ++ f' ++ txt "/#a:[" ++ decoded l ++ txt "] " ++ t') := by
      simp only [Producer.locationPath, join, nameFor, List.append_assoc]
    rw [← hname]
    exact hdelivered.2
  rw [hpath l hfield.ne_nil, hpath _ hfield.decoded_ne_nil] at hunder
  exact prefix_of_path (length_le_decoded l) ((List.prefix_append _ _).trans hunder)

/-! ## What the replies tell -/

/-- What a reply tells. -/
theorem isVerdict_replyText (hjson : lib.JsonDocumented) {l l' t t' : Str}
    {labels labels' : List Str} :
    IsVerdict lib l t labels (replyText lib d l' t' labels') ↔
      l' = l ∧ t' = t ∧ decide (t' ∈ labels') = decide (t ∈ labels) := by
  have hget := get_encode hjson (replyFor l' t' (decimal d.toNat) labels')
  have hlocation : (lib.parse (replyText lib d l' t' labels')).get (txt "location") =
      .string l' := hget _
  have htarget : (lib.parse (replyText lib d l' t' labels')).get (txt "target") =
      .string t' := hget _
  have hfound : (lib.parse (replyText lib d l' t' labels')).get (txt "isFound") =
      .bool (decide (t' ∈ labels')) := hget _
  rw [IsVerdict, hlocation, htarget, hfound, Json.string.injEq, Json.string.injEq, Json.bool.injEq]

/-- **If every text of a list is a decoded text of the list, all of them are plain**: one that
is not would come from a shorter one that is not. -/
theorem plain_of_decoded {ls : List Str} (h : ∀ l ∈ ls, ∃ l' ∈ ls, decoded l' = l) :
    ∀ l ∈ ls, ∀ b ∈ l, isPlain b = true := by
  have hlength : ∀ n, ∀ l ∈ ls, l.length = n → ∀ b ∈ l, isPlain b = true := by
    intro n
    induction n using Nat.strong_induction_on with
    | _ n ih =>
      intro l hl hn
      obtain ⟨l', hl', rfl⟩ := h l hl
      by_cases hplain : ∀ b ∈ l', isPlain b = true
      · rwa [decoded_of_plain hplain]
      · have hlt := length_lt_decoded hplain
        exact absurd (ih l'.length (by omega) l' hl' rfl) hplain
  exact fun l hl => hlength _ l hl rfl

/-- **What replies about one target tell.** -/
theorem allVerdicts_iff (hjson : lib.JsonDocumented) {mode : UInt8} (hne : ls ≠ [])
    (htexts : ∀ text ∈ replies, ∃ (i : ℕ) (l : Str), ls[i]? = some l ∧
      text = replyText lib d (shownLocation mode l) (decoded t) (detection_result i)) :
    AllVerdicts lib ls (t :: ts) detection_result replies ↔
      OnePlainTarget (t :: ts) ∧ (mode = ch 'c' → ∀ l ∈ ls, ∀ b ∈ l, isPlain b = true) ∧
        ∀ (i : ℕ) (l : Str), ls[i]? = some l →
          replyText lib d (shownLocation mode l) (decoded t) (detection_result i) ∈ replies := by
  constructor
  · intro h
    -- whatever the verdict, it was built for the first target and a location of the list
    have hbuilt : ∀ (i : ℕ) (l : Str), ls[i]? = some l → ∀ t' ∈ t :: ts, decoded t = t' ∧
        ∃ l' ∈ ls, shownLocation mode l' = l ∧
          replyText lib d l (decoded t) (detection_result i) ∈ replies := by
      intro i l hl t' ht'
      obtain ⟨text, htext, hverdict⟩ := h i l hl t' ht'
      obtain ⟨j, l', hl', rfl⟩ := htexts text htext
      obtain ⟨hlocation, htarget, hfound⟩ := (isVerdict_replyText hjson).1 hverdict
      refine ⟨htarget, l', List.mem_of_getElem? hl', hlocation, ?_⟩
      rw [← htarget] at hfound
      rw [hlocation] at htext
      rwa [replyText, replyFor, ← hfound]
    obtain ⟨l, ls', rfl⟩ := List.exists_cons_of_ne_nil hne
    have hfirst : ∀ t' ∈ t :: ts, decoded t = t' := fun t' ht' => (hbuilt 0 l rfl t' ht').1
    have hplain := (decoded_eq_self_iff t).1 (hfirst t List.mem_cons_self)
    have hlocations : mode = ch 'c' → ∀ l' ∈ l :: ls', ∀ b ∈ l', isPlain b = true := by
      intro hmode
      refine plain_of_decoded fun l' hl' => ?_
      obtain ⟨i, hi⟩ := List.getElem?_of_mem hl'
      obtain ⟨-, l'', hl'', hshown, -⟩ := hbuilt i l' hi t List.mem_cons_self
      rw [shownLocation, if_pos hmode] at hshown
      exact ⟨l'', hl'', hshown⟩
    refine ⟨⟨t, fun t' ht' => ?_, hplain⟩, hlocations, fun i l' hl' => ?_⟩
    · rw [← hfirst t' ht', decoded_of_plain hplain]
    · obtain ⟨-, _, -, -, htext⟩ := hbuilt i l' hl' t List.mem_cons_self
      rw [shownLocation]
      split
      · rename_i hmode
        rwa [decoded_of_plain (hlocations hmode l' (List.mem_of_getElem? hl'))]
      · exact htext
  · rintro ⟨⟨t', hall, hplain⟩, hlocations, hevery⟩ i l hl t'' ht''
    obtain rfl := hall t List.mem_cons_self
    refine ⟨_, hevery i l hl, (isVerdict_replyText hjson).2 ?_⟩
    rw [hall t'' ht'', decoded_of_plain hplain, shownLocation]
    refine ⟨?_, rfl, rfl⟩
    split
    · rename_i hmode
      exact decoded_of_plain (hlocations hmode l (List.mem_of_getElem? hl))
    · rfl

/-! ## Whole runs -/

/-- **Every pair of a location and a target has its verdict exactly if one plain target is asked
for, the locations come through, and a reply for each comes while the session is held**: in any run
in which the sub-Interests of the request are answered and no other reply names its session.  The
replies looked at are those the session collects. -/
theorem every_target_iff (hlib : lib.UriDocumented) (hjson : lib.JsonDocumented) {mode : UInt8}
    (pre post : List Event) {p : Producer} {routable : List Str}
    (hrun : Runs.exec (Producer.step lib) (Producer.start mode)
      (pre ++ .interest interest version d :: post) = some p)
    (hfresh : (opened (pre ++ .interest interest version d :: post)).Nodup)
    (hname : interest.name = requestName routable f ls (join ts ","))
    (hls : ls ≠ []) (hts : ts ≠ []) (hlocation : ∀ l ∈ ls, IsField l)
    (htarget : ∀ t ∈ ts, IsField t)
    (hq : Runs.exec (Producer.step lib) (Producer.start mode) pre = some q)
    (hq' : q.step lib (.interest interest version d) = some q')
    (hreplies : Complete lib q q' interest d ls detection_result
      (payloads lib d (pre ++ .interest interest version d :: post))) :
    Collects p d (taken lib mode d (pre ++ .interest interest version d :: post)) ∧
    (AllVerdicts lib ls ts detection_result
        (taken lib mode d (pre ++ .interest interest version d :: post)) ↔
      OnePlainTarget ts ∧ (∀ l ∈ ls, ComesThrough mode l) ∧
        ∀ i < ls.length, InTime lib mode q q' interest d ls detection_result
          (pre ++ .interest interest version d :: post) i) := by
  obtain ⟨t, ts, rfl⟩ := List.exists_cons_of_ne_nil hts
  obtain ⟨front, huri⟩ := decodeURI_requestName hlib routable f ls (join (t :: ts) ",")
  have hs : Producer.decodeURI (lib.toUri interest.name) =
      requestText front (marked f) ls (t :: ts) := by
    rw [hname, huri]
    rfl
  have hmode : q.edgeMode = mode := Producer.edgeMode_exec hq
  obtain ⟨hcollects, hnamed⟩ := collects_taken (d := d) hrun hfresh
  have htext : ∀ {i : ℕ} {text : Str},
      RepliesTo lib q q' interest d ls detection_result i text → ∃ l, ls[i]? = some l ∧
        Delivered lib d l (askedName front (marked f) ls (t :: ts) l) ∧
        text = replyText lib d (shownLocation mode l) (decoded t) (detection_result i) := by
    intro i text hi
    rw [← hmode]
    exact reply_text hs hlocation hls htarget hlib hq' hi
  -- as every sub-Interest is answered, each has got to its worker
  have hthrough : ∀ l ∈ ls, ch '.' ∉ l ∧ l <+: decoded l := by
    intro l hl
    obtain ⟨i, hi⟩ := List.getElem?_of_mem hl
    obtain ⟨text, -, hreply⟩ := hreplies.every i (List.getElem?_eq_some_iff.1 hi).1
    obtain ⟨l', hl', hdelivered, -⟩ := htext hreply
    obtain rfl := Option.some.inj (hl'.symm.trans hi)
    refine prefix_of_delivered hlib (hlocation l' hl) (subFields_of_mem ?_) ?_ hdelivered
    · rw [locationsOf_fields hls hlocation htarget]
      exact List.mem_map_of_mem hl
    · rw [requestText, (parts_decoded front (marked f) _).1]
      exact (isUriPart_decoded f).ne_nil
  have hintime : (∀ i < ls.length, InTime lib mode q q' interest d ls detection_result
        (pre ++ .interest interest version d :: post) i) ↔ ∀ (i : ℕ) (l : Str), ls[i]? = some l →
      replyText lib d (shownLocation mode l) (decoded t) (detection_result i) ∈
        taken lib mode d (pre ++ .interest interest version d :: post) := by
    constructor
    · intro h i l hl
      obtain ⟨text, htaken, hreply⟩ := (inTime_iff hrun).1 (h i (List.getElem?_eq_some_iff.1 hl).1)
      obtain ⟨l', hl', -, rfl⟩ := htext hreply
      obtain rfl := Option.some.inj (hl'.symm.trans hl)
      exact htaken
    · intro h i hi
      obtain ⟨text, -, hreply⟩ := hreplies.every i hi
      obtain ⟨l, hl, -, rfl⟩ := htext hreply
      exact (inTime_iff hrun).2 ⟨_, h i l hl, hreply⟩
  -- each reply that is collected was built for the first target
  have hbuilt : ∀ text ∈ taken lib mode d (pre ++ .interest interest version d :: post),
      ∃ (i : ℕ) (l : Str), ls[i]? = some l ∧
        text = replyText lib d (shownLocation mode l) (decoded t) (detection_result i) := by
    intro text hmem
    obtain ⟨i, hi⟩ := hreplies.only text (hnamed text hmem)
    obtain ⟨l, hl, -, heq⟩ := htext hi
    exact ⟨i, l, hl, heq⟩
  refine ⟨hcollects, (allVerdicts_iff hjson hls hbuilt).trans ?_⟩
  rw [hintime]
  refine and_congr_right fun _ => and_congr_left fun _ => ⟨fun h l hl => ⟨(hthrough l hl).1, ?_⟩,
    fun h hcloud l hl => ?_⟩
  · split
    · rename_i hcloud
      exact h hcloud l hl
    · exact (hthrough l hl).2
  · have hl' := (h l hl).2
    rwa [if_pos hcloud] at hl'

end

/-! ## One target and two, and a reply too late -/

/-- A reply of the worker of each location, about a person seen with a car. -/
def repliesFrom (ls : List Str) : List Event :=
  ls.map fun l => .data { name := [] } {
    name := []
    content := replyText reference 7 l (txt "person") [txt "person", txt "car"] }

/-- The replies of all workers are those to the request, and none is missing. -/
theorem complete_repliesFrom {ls ts : List Str} {targets : String} {q' : Producer} (hne : ls ≠ [])
    (htargets : txt targets = join (txt "person" :: ts) ",")
    (hls : ∀ l ∈ ls, IsField l) (hts : ∀ t ∈ txt "person" :: ts, IsField t)
    (hplain : ∀ l ∈ ls, ch '.' ∉ l ∧ ∀ b ∈ l, isPlain b = true)
    (hstep : (Producer.start (ch 'e')).step reference
      (.interest (clientInterest ls (txt targets)) 1 7) = some q') :
    Complete reference (Producer.start (ch 'e')) q' (clientInterest ls (txt targets)) 7 ls
      (fun _ => [txt "person", txt "car"])
      (ls.map fun l => replyText reference 7 l (txt "person") [txt "person", txt "car"]) := by
  obtain ⟨front, huri⟩ := decodeURI_requestName reference_uri [txt "icn2020", txt "edge"]
    (txt "#f:detect") ls (join (txt "person" :: ts) ",")
  have hs : Producer.decodeURI (reference.toUri (clientInterest ls (txt targets)).name) =
      requestText front (marked (txt "#f:detect")) ls (txt "person" :: ts) := by
    rw [clientInterest, htargets, huri]
    rfl
  have hperson : decoded (txt "person") = txt "person" := by decide
  have hreply : ∀ i l, ls[i]? = some l → RepliesTo reference (Producer.start (ch 'e')) q'
      (clientInterest ls (txt targets)) 7 ls (fun _ => [txt "person", txt "car"]) i
      (replyText reference 7 l (txt "person") [txt "person", txt "car"]) := by
    intro i l hi
    have hl := List.mem_of_getElem? hi
    have hdecoded : decoded l = l := decoded_of_plain (hplain l hl).2
    refine (repliesTo_edge_iff hs hls hne hts reference_uri (by decide) hstep).2 ?_
    refine ⟨l, hi, ⟨?_, ?_⟩, by rw [hperson]⟩
    · refine (legible_decoded (l := decoded l) ?_ (hls l hl).decoded_ne_nil ?_).acceptsUri
        reference_uri 7
      · rw [← requestText, locationsOf_fields hne hls hts]
        exact List.mem_map_of_mem hl
      · rw [hdecoded]
        exact (hplain l hl).1
    · rw [askedName, hdecoded]
      exact liesUnder_nameFor l _ _
  constructor
  · intro text htext
    obtain ⟨l, hl, rfl⟩ := List.mem_map.1 htext
    obtain ⟨i, hi⟩ := List.getElem?_of_mem hl
    exact ⟨i, hreply i l hi⟩
  · intro i hi
    exact ⟨_, List.mem_map_of_mem (List.getElem_mem hi), hreply i _ (List.getElem?_eq_getElem hi)⟩

/-- A request for one target at two locations, each answered in time. -/
theorem every_target_iff_person :
    AllVerdicts reference [txt "30321", txt "33212"] [txt "person"]
      (fun _ => [txt "person", txt "car"]) (taken reference (ch 'e') 7
        (.interest (clientInterest [txt "30321", txt "33212"] (txt "person")) 1 7 ::
          repliesFrom [txt "30321", txt "33212"])) := by
  have hsome : (Runs.exec (Producer.step reference) (Producer.start (ch 'e'))
      (.interest (clientInterest [txt "30321", txt "33212"] (txt "person")) 1 7 ::
        repliesFrom [txt "30321", txt "33212"])).isSome = true := by decide +kernel
  obtain ⟨p, hp⟩ := Option.isSome_iff_exists.1 hsome
  obtain ⟨q', hq', -⟩ := Option.bind_eq_some_iff.1 hp
  have hls : ∀ l ∈ [txt "30321", txt "33212"], IsField l := by decide +kernel
  have hts : ∀ t ∈ [txt "person"], IsField t := by decide +kernel
  have hplain : ∀ l ∈ [txt "30321", txt "33212"], ch '.' ∉ l ∧ ∀ b ∈ l, isPlain b = true := by
    decide +kernel
  have hcomplete := complete_repliesFrom (by simp) rfl hls hts hplain hq'
  have hpayloads : payloads reference 7
      ([] ++ .interest (clientInterest [txt "30321", txt "33212"] (txt "person")) 1 7 ::
        repliesFrom [txt "30321", txt "33212"]) = [txt "30321", txt "33212"].map fun l =>
          replyText reference 7 l (txt "person") [txt "person", txt "car"] := by decide +kernel
  have htaken : taken reference (ch 'e') 7
      ([] ++ .interest (clientInterest [txt "30321", txt "33212"] (txt "person")) 1 7 ::
        repliesFrom [txt "30321", txt "33212"]) = [txt "30321", txt "33212"].map fun l =>
          replyText reference 7 l (txt "person") [txt "person", txt "car"] := by decide +kernel
  refine (every_target_iff reference_uri reference_json [] (repliesFrom [txt "30321", txt "33212"])
    hp (by decide) rfl (by simp) (by simp) hls hts rfl hq' (hpayloads ▸ hcomplete)).2.2 ?_
  refine ⟨⟨txt "person", by simp, by decide +kernel⟩, fun l hl => ⟨(hplain l hl).1, ?_⟩,
    fun i hi => (inTime_iff hp).2 ?_⟩
  · rw [if_neg (by decide), decoded_of_plain (hplain l hl).2]
  · rw [← List.nil_append (_ :: _), htaken]
    exact hcomplete.every i hi

/-- Every sub-Interest of the first request is answered, and yet a verdict is not among the
replies that its session collects. -/
def VerdictMissing (interest : Interest) (ls ts : List Str) (es : List Event) : Prop :=
  ∃ q' p, (Producer.start (ch 'e')).step reference (.interest interest 1 7) = some q' ∧
    Runs.exec (Producer.step reference) (Producer.start (ch 'e'))
      (.interest interest 1 7 :: es) = some p ∧
    Complete reference (Producer.start (ch 'e')) q' interest 7 ls
      (fun _ => [txt "person", txt "car"])
      (payloads reference 7 (.interest interest 1 7 :: es)) ∧
    ¬ AllVerdicts reference ls ts (fun _ => [txt "person", txt "car"])
      (taken reference (ch 'e') 7 (.interest interest 1 7 :: es))

/-- One reply tells of one pair. -/
theorem verdictMissing_of_taken {ls ts : List Str} {targets : String} {es : List Event}
    (htargets : txt targets = join (txt "person" :: ts) ",")
    (hls : ∀ l ∈ ls, IsField l) (hts : ∀ t ∈ txt "person" :: ts, IsField t)
    (hplain : ∀ l ∈ ls, ch '.' ∉ l ∧ ∀ b ∈ l, isPlain b = true)
    (hsome : (Runs.exec (Producer.step reference) (Producer.start (ch 'e'))
      (.interest (clientInterest ls (txt targets)) 1 7 :: es)).isSome = true)
    (hpayloads : payloads reference 7 (.interest (clientInterest ls (txt targets)) 1 7 :: es) =
      ls.map fun l => replyText reference 7 l (txt "person") [txt "person", txt "car"])
    (htaken : taken reference (ch 'e') 7 (.interest (clientInterest ls (txt targets)) 1 7 :: es) =
      [replyText reference 7 (txt "30321") (txt "person") [txt "person", txt "car"]])
    {i : ℕ} {l t : Str} (hl : ls[i]? = some l) (ht : t ∈ txt "person" :: ts)
    (hother : txt "30321" ≠ l ∨ txt "person" ≠ t) :
    VerdictMissing (clientInterest ls (txt targets)) ls (txt "person" :: ts) es := by
  obtain ⟨p, hp⟩ := Option.isSome_iff_exists.1 hsome
  obtain ⟨q', hq', -⟩ := Option.bind_eq_some_iff.1 hp
  refine ⟨q', p, hq', hp, ?_, ?_⟩
  · rw [hpayloads]
    exact complete_repliesFrom (List.ne_nil_of_mem (List.mem_of_getElem? hl)) htargets hls hts
      hplain hq'
  · rw [htaken]
    intro h
    obtain ⟨text, htext, hverdict⟩ := h i l hl t ht
    rw [List.mem_singleton.1 htext] at hverdict
    obtain ⟨hlocation, htarget, -⟩ := (isVerdict_replyText reference_json).1 hverdict
    exact hother.elim (fun h => h hlocation) fun h => h htarget

/-- **A request for a person and a car has no verdict on the car**; and a request at two
locations has one verdict only if a request at one location comes before the replies: the edge
then waits for one reply, and discards the other. -/
theorem target_dropped :
    VerdictMissing (clientInterest [txt "30321"] (txt "person,car")) [txt "30321"]
        [txt "person", txt "car"] (repliesFrom [txt "30321"]) ∧
      VerdictMissing (clientInterest [txt "30321", txt "33212"] (txt "person"))
        [txt "30321", txt "33212"] [txt "person"]
        (.interest (clientInterest [txt "30321"] (txt "car")) 2 8 ::
          repliesFrom [txt "30321", txt "33212"]) := by
  constructor
  · exact verdictMissing_of_taken rfl (by decide +kernel) (by decide +kernel) (by decide +kernel)
      (by decide +kernel) (by decide +kernel) (by decide +kernel) (i := 0) (t := txt "car") rfl
      (by simp) (Or.inr (by decide))
  · exact verdictMissing_of_taken rfl (by decide +kernel) (by decide +kernel) (by decide +kernel)
      (by decide +kernel) (by decide +kernel) (by decide +kernel) (i := 1) (l := txt "33212") rfl
      List.mem_cons_self (Or.inl (by decide))

end Crowdsensing
