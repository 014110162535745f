import Crowdsensing.Modes.Requests
import Crowdsensing.Reference

/-!
# Names that are not requests

Any Interest under the prefix of the edge reaches its handler, whatever its name.  The
parsers take the last token off the last component and then look for another one, without
asking whether there is one.

* `FollowsFormat` — a name as the client writes it.
* `Checks` — a handler does not fail on an empty vector, and does nothing for a name in
  another format.
* `accepted_iff_space` — the names the parsers take are those whose last component has a
  space.
* `handler_accepted`, `handler_not_accepted` — what a handler does with the two kinds.
* `checks_iff` — **the handlers check exactly the names that need no check**.
-/

namespace Crowdsensing

open Text

/-! ## The format -/

/-- A location or a target as it stands in a request. -/
structure IsField (x : Str) : Prop where
  ne_nil : x ≠ []
  no_separator : ∀ b ∈ x, b ∉ txt " /,:[]"

instance (x : Str) : Decidable (IsField x) :=
  decidable_of_iff (x ≠ [] ∧ ∀ b ∈ x, b ∉ txt " /,:[]") ⟨fun ⟨a, b⟩ => ⟨a, b⟩, fun ⟨a, b⟩ => ⟨a, b⟩⟩

/-- The name of a request `/icn2020/edge/.../<f>/#a:[l,...] #a:[t,...]`. -/
def FollowsFormat (name : Name) : Prop :=
  ∃ more f ls ts, name = requestName (txt "icn2020" :: txt "edge" :: more) f ls (join ts ",") ∧
    ls ≠ [] ∧ ts ≠ [] ∧ (∀ l ∈ ls, IsField l) ∧ ∀ t ∈ ts, IsField t

/-- The call does not fail on an empty vector, and a name that does not follow the format
creates no session and sends nothing. -/
def Checks (p : Producer) (name : Name) (result : Except Fault Producer) : Prop :=
  result ≠ .error .emptyVector ∧
    (¬ FollowsFormat name → ∀ p', result = .ok p' → p'.sessions = p.sessions ∧ p'.face = p.face)

/-- The two handlers for client Interests. -/
def handlers (lib : Externals) (p : Producer) (interest : Interest) (version : ℕ)
    (session_id : UInt64) : List (Except Fault Producer) :=
  [p.onInterest lib interest version session_id, p.onInterestCloud lib interest version session_id]

section

variable {lib : Externals} {p : Producer} {interest : Interest} {version : ℕ} {d : UInt64}

/-! ## Names the parsers take -/

theorem space_mem_decoded {c : Str} : ch ' ' ∈ decoded c ↔ ch ' ' ∈ c := by
  constructor
  · intro h
    by_contra hnot
    exact not_mem_decoded (by decide) (by decide) hnot h
  · intro h
    exact List.mem_flatMap.2 ⟨ch ' ', h, by decide⟩

/-- The decoded text of a name ends in its decoded last component. -/
theorem decodeURI_last (hlast : lib.UriLast) (name : Name) {c : Str} (hc : ∃ b ∈ c, b ≠ ch '.') :
    ∃ front, Producer.decodeURI (lib.toUri (name ++ [.generic c])) =
      front ++ ch '/' :: decoded c := by
  obtain ⟨front, huri⟩ := hlast name c hc
  have hcomponent : Producer.decodeURI (uriEscape c) = decoded c := by
    have hslash := decodeURI_flatMap [c]
    simp only [List.flatMap_cons, List.flatMap_nil, List.append_nil] at hslash
    exact (List.cons.inj ((decodeURI_append_slash [] (uriEscape c)).symm.trans hslash)).2
  refine ⟨Producer.decodeURI front, ?_⟩
  rw [huri, decodeURI_append_slash, hcomponent]

/-- **The parsers take exactly the names whose last component has a space.** -/
theorem accepted_iff_space (hlast : lib.UriLast) (name : Name) {c : Str}
    (hc : ∃ b ∈ c, b ≠ ch '.') :
    Accepted (Producer.decodeURI (lib.toUri (name ++ [.generic c]))) ↔ ch ' ' ∈ c := by
  obtain ⟨front, hs⟩ := decodeURI_last hlast name hc
  rw [hs, Accepted, keywordPart, afterLast_append (slash_not_mem_decoded c), space_mem_decoded]
  simp

/-- The parsers take a request. -/
theorem accepted_of_followsFormat (hlast : lib.UriLast) {name : Name} (h : FollowsFormat name) :
    Accepted (Producer.decodeURI (lib.toUri name)) := by
  obtain ⟨more, f, ls, ts, rfl, -⟩ := h
  have hname : requestName (txt "icn2020" :: txt "edge" :: more) f ls (join ts ",") =
      ((txt "icn2020" :: txt "edge" :: more) ++ [f]).map .generic ++
        [.generic (requestKeyword ls (join ts ","))] := by
    simp [requestName]
  rw [hname, accepted_iff_space hlast]
  · simp [requestKeyword, txt, ch]
  · exact ⟨ch '#', by simp [requestKeyword, txt, ch], by decide⟩

/-! ## The handlers -/

/-- For a name the parsers take, either handler opens a session and asks the locations. -/
theorem handler_accepted (h : Accepted (Producer.decodeURI (lib.toUri interest.name)))
    {result : Except Fault Producer} (hresult : result ∈ handlers lib p interest version d) :
    ∃ p', result = .ok p' ∧ p'.face ≠ p.face := by
  have hlocations : locationsOf (Producer.decodeURI (lib.toUri interest.name)) ≠ [] :=
    List.splitOn_ne_nil _ _
  simp only [handlers, List.mem_cons, List.not_mem_nil, or_false] at hresult
  rcases hresult with rfl | rfl
  · refine ⟨_, Producer.onInterest_eq (Producer.convertInterestName_eq h []), fun hface => ?_⟩
    have hexpressed := congrArg (fun face => face.expressed.length) hface
    simp [hlocations] at hexpressed
  · obtain ⟨target, targets, htargets⟩ := List.exists_cons_of_ne_nil
      (List.splitOn_ne_nil (ch ',')
        (keyText (targetPart (Producer.decodeURI (lib.toUri interest.name)))))
    obtain ⟨p', hok, -, hfetches⟩ := Producer.onInterestCloud_eq p version d rfl h htargets
    refine ⟨p', hok, fun hface => ?_⟩
    have hlength := congrArg List.length hfetches
    simp [hface, hlocations] at hlength

/-- For any other name, either handler runs into `back()` on an empty vector. -/
theorem handler_not_accepted (h : ¬ Accepted (Producer.decodeURI (lib.toUri interest.name)))
    {result : Except Fault Producer} (hresult : result ∈ handlers lib p interest version d) :
    result = .error .emptyVector := by
  have hconvert := Producer.convertInterestName_of_not_accepted h []
  simp only [handlers, List.mem_cons, List.not_mem_nil, or_false] at hresult
  rcases hresult with rfl | rfl
  · simp [Producer.onInterest, Producer.acceptInterest, hconvert]
  · simp [Producer.onInterestCloud, Producer.acceptInterest, Producer.extractTargets_eq, hconvert]

/-- **A handler does what it should for a name exactly if the name follows the format**, and
it does not fail exactly if the parsers take the name. -/
theorem checks_iff (hlast : lib.UriLast) (p : Producer) (interest : Interest) (version : ℕ)
    (d : UInt64) : ∀ result ∈ handlers lib p interest version d,
      (Checks p interest.name result ↔ FollowsFormat interest.name) ∧
        (result ≠ .error .emptyVector ↔
          Accepted (Producer.decodeURI (lib.toUri interest.name))) := by
  intro result hresult
  by_cases haccepted : Accepted (Producer.decodeURI (lib.toUri interest.name))
  · obtain ⟨p', rfl, hface⟩ := handler_accepted haccepted hresult
    refine ⟨⟨fun h => ?_, fun hformat => ⟨nofun, fun hnot => absurd hformat hnot⟩⟩,
      iff_of_true nofun haccepted⟩
    by_contra hnot
    exact hface (h.2 hnot p' rfl).2
  · obtain rfl := handler_not_accepted haccepted hresult
    refine ⟨iff_of_false (fun h => h.1 rfl) fun hformat => ?_,
      iff_of_false (fun h => h rfl) haccepted⟩
    exact haccepted (accepted_of_followsFormat hlast hformat)

end

/-- The request of the client's page follows the format, and either handler takes it. -/
theorem checks_iff_page :
    Checks { edgeMode := ch 'e' } (clientInterest pageLocations (txt "person")).name
        (Producer.onInterest reference { edgeMode := ch 'e' }
          (clientInterest pageLocations (txt "person")) 1 7) ∧
      Checks { edgeMode := ch 'e' } (clientInterest pageLocations (txt "person")).name
        (Producer.onInterestCloud reference { edgeMode := ch 'e' }
          (clientInterest pageLocations (txt "person")) 1 7) := by
  have hformat : FollowsFormat (clientInterest pageLocations (txt "person")).name := by
    refine ⟨[], txt "#f:detect", pageLocations, [txt "person"], rfl, by decide, by decide, ?_, ?_⟩
    · decide +kernel
    · decide +kernel
  have hchecks := checks_iff reference_last { edgeMode := ch 'e' }
    (clientInterest pageLocations (txt "person")) 1 7
  exact ⟨(hchecks _ (by simp [handlers])).1.2 hformat, (hchecks _ (by simp [handlers])).1.2 hformat⟩

/-! ## Two names under the prefix -/

/-- A name with one component after the prefix. -/
def nameWith (c : String) : Name := [.generic (txt "icn2020"), .generic (txt "edge"), .generic (txt c)]

/-- A request has two components after the prefix. -/
theorem not_followsFormat_nameWith (c : String) : ¬ FollowsFormat (nameWith c) := by
  rintro ⟨more, f, ls, ts, hname, -⟩
  have hlength := congrArg List.length hname
  simp [nameWith, requestName] at hlength

/-- **A name without a space in its last component makes both handlers fail, and a name with one
opens a session**, though neither is a request. -/
theorem not_checks :
    (∀ result ∈ handlers reference { edgeMode := ch 'e' } { name := nameWith "hello" } 1 7,
      result = .error .emptyVector ∧ ¬ Checks { edgeMode := ch 'e' } (nameWith "hello") result) ∧
    ∀ result ∈ handlers reference { edgeMode := ch 'e' } { name := nameWith "hello world" } 1 7,
      ¬ Checks { edgeMode := ch 'e' } (nameWith "hello world") result := by
  constructor
  · intro result hresult
    have hnot : ¬ Accepted (Producer.decodeURI
        (reference.toUri ({ name := nameWith "hello" } : Interest).name)) := by decide +kernel
    have hfails := handler_not_accepted hnot hresult
    exact ⟨hfails, fun h => h.1 hfails⟩
  · intro result hresult h
    have haccepted : Accepted (Producer.decodeURI
        (reference.toUri ({ name := nameWith "hello world" } : Interest).name)) := by decide +kernel
    obtain ⟨p', hok, hface⟩ := handler_accepted haccepted hresult
    exact hface (h.2 (not_followsFormat_nameWith _) p' hok).2

end Crowdsensing
