import Crowdsensing.Modes.Requests
import Crowdsensing.Reference

/-!
# The verdict on a label

A client asks for a label at some locations; the edge rewrites the name, the workers
read the label back and look it up among the labels they see.  On the way the label is
escaped, decoded, split and put together again, twice.

* `Answered` — every location is asked once, and its worker tells whether the label
  is among the labels it sees.
* `received_label` — the label a worker reads: what stands after the last space of the
  label asked for, with the bytes that do not come through left escaped.
* `answered_iff` — **a request is answered exactly if its label consists of bytes that
  come through, and has no space.**
-/

namespace Crowdsensing

open Text

/-! ## Requests for a label -/

/-- A list of locations as a client writes them. -/
structure Locations (ls : List Str) : Prop where
  ne_nil : ls ≠ []
  location_ne_nil : ∀ l ∈ ls, l ≠ []
  alnum : ∀ l ∈ ls, ∀ b ∈ l, isAlnum b = true

/-- A label without the separators of a request. -/
structure IsLabel (t : Str) : Prop where
  slash : ch '/' ∉ t
  comma : ch ',' ∉ t
  colon : ch ':' ∉ t
  opening : ch '[' ∉ t
  closing : ch ']' ∉ t

instance (t : Str) : Decidable (IsLabel t) :=
  decidable_of_iff (ch '/' ∉ t ∧ ch ',' ∉ t ∧ ch ':' ∉ t ∧ ch '[' ∉ t ∧ ch ']' ∉ t)
    ⟨fun ⟨a, b, c, d, e⟩ => ⟨a, b, c, d, e⟩, fun ⟨a, b, c, d, e⟩ => ⟨a, b, c, d, e⟩⟩

/-- The reply says of the target whether it is among the labels. -/
def TellsVerdict (lib : Externals) (t : Str) (labels : List Str) (reply : Data) : Prop :=
  (lib.parse reply.content).get (txt "target") = .string t ∧
    (lib.parse reply.content).get (txt "isFound") = .bool (decide (t ∈ labels))

/-- The request is answered right: the edge sends one sub-Interest for each location, its
name is accepted and begins with the path the worker of the location is registered under, and
that worker replies with the verdict on the target. -/
def Answered (lib : Externals) (p : Producer) (interest : Interest) (version : ℕ) (d : UInt64)
    (ls : List Str) (t : Str) (detection_result : ℕ → List Str) : Prop :=
  ∃ names p', Producer.convertInterestName (Producer.decodeURI (lib.toUri interest.name)) [] =
      .ok names ∧
    p.onInterest lib interest version d = .ok p' ∧
    p'.face.expressed = p.face.expressed ++ names.map (subInterest lib p.edgeMode d) ∧
    names.length = ls.length ∧
    ∀ i l name, ls[i]? = some l → names[i]? = some name →
      lib.acceptsUri (subInterestName name d) = true ∧ LiesUnder l name ∧
      ∀ (w : Worker) (frame : Mat) (v : ℕ), w.cdString = Producer.locationPath l →
        ∃ reply, w.onInterest lib (subInterest lib p.edgeMode d name) (detection_result i)
            frame v = .ok (w, [.data reply]) ∧
          TellsVerdict lib t (detection_result i) reply

/-- A label that comes through. -/
def IsPlainLabel (t : Str) : Prop := ∀ b ∈ t, isPlain b = true ∧ b ≠ ch ' '

instance (t : Str) : Decidable (IsPlainLabel t) := by
  unfold IsPlainLabel
  infer_instance

/-! ## The request at the edge -/

section

variable {lib : Externals} {routable : List Str} {f t : Str} {ls : List Str}

/-- The keyword of a request after decoding: only the label can change. -/
theorem decoded_requestKeyword (hls : Locations ls) (t : Str) :
    decoded (requestKeyword ls t) =
      txt "#a:[" ++ (txt ",").intercalate ls ++ txt "]" ++ ch ' ' ::
        (txt "#a:[" ++ decoded t ++ txt "]") := by
  have hplain : ∀ b ∈ (txt ",").intercalate ls, isPlain b = true := by
    intro b hb
    rcases mem_of_mem_intercalate hb with hc | ⟨l, hl, hb⟩
    · rw [List.mem_singleton.1 hc]
      decide
    · exact isPlain_of_isAlnum (hls.alnum l hl b hb)
  have hopen : decoded (txt "#a:[") = txt "#a:[" := by decide
  have hmiddle : decoded (txt "] #a:[") = txt "] #a:[" := by decide
  have hclose : decoded (txt "]") = txt "]" := by decide
  unfold requestKeyword
  simp only [decoded_append, hopen, hmiddle, hclose, decoded_of_plain hplain, List.append_assoc]
  rfl

/-- The decoded name of a request: what comes before, the function and the keyword. -/
theorem decodeURI_requestName (hlib : lib.UriDocumented) (routable : List Str) (f : Str)
    (ls : List Str) (t : Str) : ∃ front,
    Producer.decodeURI (lib.toUri (requestName routable f ls t)) =
      front ++ ch '/' :: decoded (marked f) ++ ch '/' :: decoded (requestKeyword ls t) := by
  have hname := decodeURI_toUri hlib (routable ++ [f, requestKeyword ls t]) (by simp)
  have hkeyword : marked (requestKeyword ls t) = requestKeyword ls t :=
    if_neg fun hperiods =>
      absurd (hperiods (ch '#') (by simp [requestKeyword, txt, ch])) (by decide)
  refine ⟨routable.flatMap fun c => ch '/' :: decoded (marked c), hname.trans ?_⟩
  simp [hkeyword]

/-- The edge takes the request. -/
theorem accepted_request (front f t : Str) (hls : Locations ls) :
    Accepted (front ++ ch '/' :: decoded f ++ ch '/' :: decoded (requestKeyword ls t)) := by
  constructor
  · simp
  · rw [keywordPart, afterLast_append (slash_not_mem_decoded _), decoded_requestKeyword hls]
    simp

/-- The target the edge passes on: the last word of the keyword. -/
theorem targetPart_request {front : Str} :
    targetPart (front ++ ch '/' :: decoded f ++ ch '/' :: decoded (requestKeyword ls t)) =
      decoded (afterLast (ch ' ') (requestKeyword ls t)) := by
  rw [targetPart, keywordPart, afterLast_append (slash_not_mem_decoded _),
    afterLast_space_decoded]

/-- Without a space in the label the edge finds the locations. -/
theorem locationsOf_request (front f : Str) (hls : Locations ls) (hspace : ch ' ' ∉ t) :
    locationsOf (front ++ ch '/' :: decoded f ++ ch '/' :: decoded (requestKeyword ls t)) = ls := by
  have hlist : ∀ b ∈ (txt ",").intercalate ls, b = ch ',' ∨ isAlnum b = true := by
    intro b hb
    rcases mem_of_mem_intercalate hb with hc | ⟨l, hl, hb⟩
    · exact Or.inl (List.mem_singleton.1 hc)
    · exact Or.inr (hls.alnum l hl b hb)
  have hnot : ∀ c : UInt8, c ≠ ch ',' → isAlnum c = false → c ∉ (txt ",").intercalate ls := by
    intro c hc halnum hmem
    rcases hlist c hmem with heq | ha
    · exact hc heq
    · rw [halnum] at ha
      exact absurd ha (by decide)
  have hkey : ch ' ' ∉ txt "#a:[" ++ (txt ",").intercalate ls ++ txt "]" := by
    simp only [List.mem_append, not_or]
    exact ⟨⟨by decide, hnot _ (by decide) (by decide)⟩, by decide⟩
  have htoken : ch ' ' ∉ txt "#a:[" ++ decoded t ++ txt "]" := by
    simp only [List.mem_append, not_or]
    exact ⟨⟨by decide, not_mem_decoded (by decide) (by decide) hspace⟩, by decide⟩
  have hcomma : ∀ l ∈ ls, ch ',' ∉ l := by
    intro l hl hmem
    have ha := hls.alnum l hl _ hmem
    exact absurd ha (by decide)
  rw [locationsOf, locationKeyPart, keywordPart, afterLast_append (slash_not_mem_decoded _),
    decoded_requestKeyword hls, beforeLast_append htoken, afterLast_of_not_mem hkey, piecesOf,
    keyText_key (hnot _ (by decide) (by decide)) (hnot _ (by decide) (by decide))
      (hnot _ (by decide) (by decide))]
  exact List.splitOn_intercalate (ch ',') hcomma hls.ne_nil

/-! ## The label at the worker -/

/-- The last word of the keyword holds the last word of the label. -/
theorem piecesOf_lastWord (ht : IsLabel t) :
    piecesOf (decoded (afterLast (ch ' ') (requestKeyword ls t))) =
      [decoded (afterLast (ch ' ') t)] := by
  have hnot : ∀ c : UInt8, c ≠ ch '%' → isAlnum c = false → c ∉ t →
      c ∉ decoded (afterLast (ch ' ') t) := fun c hc halnum h =>
    not_mem_decoded hc halnum fun hmem => h (mem_of_mem_afterLast hmem)
  have hcolon := hnot (ch ':') (by decide) (by decide) ht.colon
  have hopening := hnot (ch '[') (by decide) (by decide) ht.opening
  have hclosing := hnot (ch ']') (by decide) (by decide) ht.closing
  have hclose : decoded (txt "]") = txt "]" := by decide
  have hopen : decoded (txt "#a:[") = txt "#a:[" := by decide
  rw [piecesOf]
  suffices htext : keyText (decoded (afterLast (ch ' ') (requestKeyword ls t))) =
      decoded (afterLast (ch ' ') t) by
    rw [htext]
    exact List.splitOn_eq_singleton (hnot (ch ',') (by decide) (by decide) ht.comma)
  by_cases hspace : ch ' ' ∈ t
  · have hword : ch ' ' ∉ afterLast (ch ' ') t ++ txt "]" := by
      simp only [List.mem_append, not_or]
      exact ⟨not_mem_afterLast _ _, by decide⟩
    have hkeyword : requestKeyword ls t = (txt "#a:[" ++ (txt ",").intercalate ls ++
        txt "] #a:[" ++ beforeLast (ch ' ') t) ++ ch ' ' :: (afterLast (ch ' ') t ++ txt "]") := by
      conv_lhs => rw [requestKeyword, ← beforeLast_append_afterLast hspace]
      simp only [List.append_assoc, List.cons_append]
    have hend : ch ':' ∉ decoded (afterLast (ch ' ') t) ++ txt "]" := by
      simp only [List.mem_append, not_or]
      exact ⟨hcolon, by decide⟩
    rw [hkeyword, afterLast_append hword, decoded_append, hclose, keyText,
      afterLast_of_not_mem hend, List.filter_append, filter_brackets hopening hclosing,
      show (txt "]").filter (fun c => c ≠ ch '[' ∧ c ≠ ch ']') = [] by decide, List.append_nil]
  · have hword : ch ' ' ∉ txt "#a:[" ++ t ++ txt "]" := by
      simp only [List.mem_append, not_or]
      exact ⟨⟨by decide, hspace⟩, by decide⟩
    have hkeyword : requestKeyword ls t = (txt "#a:[" ++ (txt ",").intercalate ls ++ txt "]") ++
        ch ' ' :: (txt "#a:[" ++ t ++ txt "]") := by
      simp only [requestKeyword, List.append_assoc]
      rfl
    rw [hkeyword, afterLast_append hword, decoded_append, decoded_append, hopen, hclose]
    rw [afterLast_of_not_mem hspace] at hcolon hopening hclosing ⊢
    exact keyText_key hcolon hopening hclosing

/-- A reply tells the verdict on the target it was built for. -/
theorem tellsVerdict_edgeData (hjson : lib.JsonDocumented) (w : Worker) (interest : Interest)
    (target session_id : Str) (labels : List Str) :
    TellsVerdict lib target labels (w.edgeData lib interest target session_id labels) := by
  have hget := get_encode hjson (w.reply target session_id labels)
  exact ⟨hget (txt "target"), hget (txt "isFound")⟩

/-- **The label a worker reads** is the last word of the label asked for, after it was
escaped and decoded. -/
theorem received_label (hlib : lib.UriDocumented) (ht : IsLabel t) {front l : Str}
    (hl : l ∈ locationsOf
      (front ++ ch '/' :: decoded (marked f) ++ ch '/' :: decoded (requestKeyword ls t)))
    (hne : l ≠ []) (hperiod : ch '.' ∉ l) (w : Worker) (d : UInt64) (labels : List Str)
    (frame : Mat) (version : ℕ) :
    let s := front ++ ch '/' :: decoded (marked f) ++ ch '/' :: decoded (requestKeyword ls t)
    let sub := subInterest lib (ch 'e') d (nameFor l (functionPart s) (targetPart s))
    w.onInterest lib sub labels frame version = .ok (w, [.data (w.edgeData lib sub
      (decoded (afterLast (ch ' ') t)) (decimal d.toNat) labels)]) := by
  intro s sub
  have hunescape : uriUnescape (targetPart s) = afterLast (ch ' ') (requestKeyword ls t) := by
    rw [targetPart_request, uriUnescape_decoded]
  have hspace : ch ' ' ∉ uriUnescape (targetPart s) := by
    rw [hunescape]
    exact not_mem_afterLast _ _
  have htargets : piecesOf (decoded (uriUnescape (targetPart s))) =
      [decoded (afterLast (ch ' ') t)] := by
    rw [hunescape]
    exact piecesOf_lastWord ht
  have hread := (legible_decoded hl hne hperiod).inverseAt hlib d
  exact Worker.onInterest_received hread hspace htargets w labels frame version

/-- A name that begins with the path of a location is not one for the empty location. -/
theorem ne_nil_of_path_prefix {l l' f t : Str} (hl : l ≠ []) (hslash : ch '/' ∉ l)
    (h : LiesUnder l (nameFor l' f t)) : l' ≠ [] := by
  rintro rfl
  unfold LiesUnder at h
  obtain ⟨c, l, rfl⟩ := List.exists_cons_of_ne_nil hl
  have hc : c = ch '/' := by
    have hpath : Producer.locationPath (c :: l) ++ txt "/" =
        ch '/' :: c :: ((Producer.locationPath (c :: l) ++ txt "/").drop 2) := by
      cases l with
      | nil => rfl
      | cons c' l => rfl
    rw [hpath] at h
    exact (List.cons_prefix_cons.1 (List.cons_prefix_cons.1 h).2).1
  exact hslash (hc ▸ List.mem_cons_self)

end

/-! ## Which labels are answered -/

section

variable {lib : Externals} {routable : List Str} {f t : Str} {ls : List Str} {p : Producer}
  {interest : Interest} {version : ℕ} {d : UInt64} {detection_result : ℕ → List Str}

/-- A label comes through as a whole only if all its bytes do. -/
theorem isPlainLabel_iff (t : Str) :
    decoded (afterLast (ch ' ') t) = t ↔ IsPlainLabel t := by
  constructor
  · intro h
    have hspace : ch ' ' ∉ t := by
      rw [← h]
      exact not_mem_decoded (by decide) (by decide) (not_mem_afterLast _ _)
    rw [afterLast_of_not_mem hspace, decoded_eq_self_iff] at h
    exact fun b hb => ⟨h b hb, fun hc => hspace (hc ▸ hb)⟩
  · intro h
    have hspace : ch ' ' ∉ t := fun hmem => (h _ hmem).2 rfl
    rw [afterLast_of_not_mem hspace, decoded_of_plain fun b hb => (h b hb).1]

/-- A request that is answered right asks for a plain label. -/
theorem plain_of_answered (hlib : lib.UriDocumented) (hjson : lib.JsonDocumented)
    (hmode : p.edgeMode = ch 'e') (hls : Locations ls) (ht : IsLabel t)
    (hname : interest.name = requestName routable f ls t)
    (h : Answered lib p interest version d ls t detection_result) : IsPlainLabel t := by
  obtain ⟨names, p', hnames, -, -, hlength, hall⟩ := h
  obtain ⟨front, hs⟩ := decodeURI_requestName hlib routable f ls t
  rw [hname, hs, Producer.convertInterestName_eq (accepted_request front (marked f) t hls),
    List.nil_append, Except.ok.injEq] at hnames
  -- the first location is asked with the first name
  obtain ⟨l, ls', rfl⟩ := List.exists_cons_of_ne_nil hls.ne_nil
  have hpos : 0 < names.length := by
    rw [hlength]
    exact Nat.succ_pos _
  obtain ⟨name, hfirst⟩ : ∃ name, names[0]? = some name := ⟨_, List.getElem?_eq_getElem hpos⟩
  obtain ⟨haccepts, hpath, hreply⟩ := hall 0 l name rfl hfirst
  have hmem := List.mem_of_getElem? hfirst
  rw [← hnames, List.mem_map] at hmem
  obtain ⟨l', hl', hname'⟩ := hmem
  have hne : l' ≠ [] := by
    rw [← hname'] at hpath
    apply ne_nil_of_path_prefix (hls.location_ne_nil l List.mem_cons_self) ?_ hpath
    exact fun hslash => absurd (hls.alnum l List.mem_cons_self _ hslash) (by decide)
  have hperiod : ch '.' ∉ l' := by
    rw [← hname'] at haccepts
    refine period_not_mem_of_acceptsUri hlib (subFields_of_mem hl') hne ?_ haccepts
    rw [(parts_decoded front (marked f) _).1]
    exact (isUriPart_decoded f).ne_nil
  -- what its worker replies says which label it read
  obtain ⟨reply, hok, htarget, -⟩ := hreply { cdString := Producer.locationPath l }
    ⟨0, 0, 0, [], rfl⟩ 0 rfl
  rw [hmode, ← hname', received_label hlib ht hl' hne hperiod] at hok
  obtain ⟨-, hdata⟩ := Prod.mk.inj (Except.ok.inj hok)
  obtain rfl := Packet.data.inj (List.singleton_inj.1 hdata)
  rw [(tellsVerdict_edgeData hjson _ _ _ _ _).1, Json.string.injEq] at htarget
  exact (isPlainLabel_iff t).1 htarget

/-- A request for a plain label is answered right. -/
theorem answered_of_plain (hlib : lib.UriDocumented) (hjson : lib.JsonDocumented)
    (hmode : p.edgeMode = ch 'e') (hls : Locations ls) (ht : IsLabel t)
    (hname : interest.name = requestName routable f ls t) (hplain : IsPlainLabel t) :
    Answered lib p interest version d ls t detection_result := by
  have hspace : ch ' ' ∉ t := fun hmem => (hplain _ hmem).2 rfl
  obtain ⟨front, hs⟩ := decodeURI_requestName hlib routable f ls t
  have hlocations := locationsOf_request front (marked f) hls hspace
  have hnames := Producer.convertInterestName_eq (accepted_request front (marked f) t hls) []
  rw [hlocations, List.nil_append, ← hs, ← hname] at hnames
  refine ⟨_, _, hnames, Producer.onInterest_eq hnames, rfl, List.length_map .., ?_⟩
  intro i l name hl hn
  rw [List.getElem?_map, hl, Option.map_some, Option.some.injEq] at hn
  subst hn
  have hmem := List.mem_of_getElem? hl
  have hne := hls.location_ne_nil l hmem
  have hperiod : ch '.' ∉ l := fun h => absurd (hls.alnum l hmem _ h) (by decide)
  rw [hname, hs]
  have hl' : l ∈ locationsOf (front ++ ch '/' :: decoded (marked f) ++ ch '/' ::
      decoded (requestKeyword ls t)) := by
    rw [hlocations]
    exact hmem
  refine ⟨(legible_decoded hl' hne hperiod).acceptsUri hlib d, ?_, fun w frame v _ => ?_⟩
  · exact liesUnder_nameFor l _ _
  · rw [hmode]
    have hreply := received_label hlib ht hl' hne hperiod w d (detection_result i) frame v
    rw [(isPlainLabel_iff t).2 hplain] at hreply
    exact ⟨_, hreply, tellsVerdict_edgeData hjson _ _ _ _ _⟩

/-- **A request for a label is answered right exactly if the label is plain**: letters,
digits, `-._~` and `#'()*`, at any locations and whatever the workers see. -/
theorem answered_iff (hlib : lib.UriDocumented) (hjson : lib.JsonDocumented)
    (hmode : p.edgeMode = ch 'e') (hls : Locations ls) (ht : IsLabel t)
    (hname : interest.name = requestName routable f ls t) (version : ℕ) (d : UInt64)
    (detection_result : ℕ → List Str) :
    Answered lib p interest version d ls t detection_result ↔ IsPlainLabel t :=
  ⟨plain_of_answered hlib hjson hmode hls ht hname,
    answered_of_plain hlib hjson hmode hls ht hname⟩

end

/-! ## Two labels of the detector -/

theorem locations_pageLocations : Locations pageLocations where
  ne_nil := by decide
  location_ne_nil := by decide
  alnum := by decide +kernel

/-- A label of one word is answered at both locations. -/
theorem answered_iff_person : Answered reference { edgeMode := ch 'e' }
    (clientInterest pageLocations (txt "person")) 1 7 pageLocations (txt "person")
    fun _ => [txt "car", txt "person"] :=
  (answered_iff reference_uri reference_json rfl locations_pageLocations (by decide) rfl 1 7 _).2
    (by decide +kernel)

/-- **A label of two words is not answered**, nor is one with a byte that `decodeURI` leaves
escaped. -/
theorem label_not_answered :
    ¬ Answered reference { edgeMode := ch 'e' }
        (clientInterest pageLocations (txt "traffic light")) 1 7 pageLocations
        (txt "traffic light") (fun _ => [txt "traffic light"]) ∧
      ¬ Answered reference { edgeMode := ch 'e' }
        (clientInterest pageLocations (txt "cat&dog")) 1 7 pageLocations
        (txt "cat&dog") (fun _ => [txt "cat&dog"]) := by
  constructor
  · intro h
    have hplain := plain_of_answered reference_uri reference_json rfl locations_pageLocations
      (by decide) rfl h
    exact (hplain (ch ' ') (by decide)).2 rfl
  · intro h
    have hplain := plain_of_answered reference_uri reference_json rfl locations_pageLocations
      (by decide) rfl h
    exact absurd (hplain (ch '&') (by decide)).1 (by decide)

end Crowdsensing
