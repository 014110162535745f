import Crowdsensing.Modes.Requests
import Crowdsensing.Reference

/-!
# What a rewritten name addresses

The names `convertInterestName` writes, for any request it takes.

* `rewritten_fixed` — **a rewritten name is rewritten to itself**, so an edge that receives
  one asks for it unchanged.
* `addressed_iff` — **exactly the requests that `ndn::Name` can read have every sub-Interest
  address a location**: a list of locations that is empty, or has a leading, a trailing or a
  doubled comma, makes a name that begins with a doubled slash and is counted like the others,
  and a location with a period or an equals sign makes a name that is refused.
-/

namespace Crowdsensing

open Text

theorem functionPart_nameFor {l f t : Str} (h : SubFields l f t) :
    functionPart (nameFor l f t) = f := by
  rw [functionPart, nameFor_eq, beforeLast_append h.slash_keyword]
  exact afterLast_append h.slash_function

namespace Producer

/-! ## Rewritten names are fixed -/

/-- A rewritten name is rewritten to itself. -/
theorem convertInterestName_nameFor {l f t : Str} (h : SubFields l f t) (names : List Str) :
    convertInterestName (nameFor l f t) names = .ok (names ++ [nameFor l f t]) := by
  rw [convertInterestName_eq (accepted_nameFor h), locationsOf_nameFor h, functionPart_nameFor h,
    targetPart_nameFor h]
  rfl

end Producer

/-- **Rewritten names are fixed points.**  `convertInterestName` takes exactly the texts with a
slash and a space after the last one; and whatever it writes for one of them it takes again
and writes back, alone.  So a second edge that receives a rewritten name asks for just that
name. -/
theorem rewritten_fixed (s : Str) (interest_name_list : List Str) :
    ((∃ names, Producer.convertInterestName s interest_name_list = .ok names) ↔
        ch '/' ∈ s ∧ ch ' ' ∈ keywordPart s) ∧
      ∀ names, Producer.convertInterestName s [] = .ok names → ∀ n ∈ names,
        (∀ list, Producer.convertInterestName n list = .ok (list ++ [n])) ∧
        ∀ (lib : Externals) (interest : Interest),
          Producer.decodeURI (lib.toUri interest.name) = n →
          ∀ (p : Producer) (version : ℕ) (session_id : UInt64),
            ∃ q, p.onInterest lib interest version session_id = .ok q ∧ q.issuedInterest = 1 ∧
              q.face.expressed = p.face.expressed ++ [subInterest lib p.edgeMode session_id n] := by
  refine ⟨⟨fun ⟨names, h⟩ => (Producer.convertInterestName_eq_ok h).1, fun h => ⟨_,
    Producer.convertInterestName_eq h _⟩⟩, fun names h n hn => ?_⟩
  obtain ⟨-, rfl⟩ := Producer.convertInterestName_eq_ok h
  rw [List.nil_append] at hn
  obtain ⟨l, hl, rfl⟩ := List.mem_map.1 hn
  have hfixed := Producer.convertInterestName_nameFor (subFields_of_mem hl)
  refine ⟨hfixed, fun lib interest hname p version session_id => ?_⟩
  have hnames := hfixed []
  rw [List.nil_append, ← hname] at hnames
  refine ⟨_, Producer.onInterest_eq hnames, rfl, ?_⟩
  rw [hname]
  rfl

/-- A request that is not in the documented format: an empty location, brackets and colons in
odd places, no function. -/
theorem rewritten_fixed_odd :
    Producer.convertInterestName (txt "/a:[1,]2, x:y:[t") [] = .ok [
        txt "/1//#a:[1] x:y:[t", txt "/2//#a:[2] x:y:[t", txt "///#a:[] x:y:[t"] ∧
      Producer.convertInterestName (txt "///#a:[] x:y:[t") [] = .ok [txt "///#a:[] x:y:[t"] := by
  have hnames : Producer.convertInterestName (txt "/a:[1,]2, x:y:[t") [] = .ok [
      txt "/1//#a:[1] x:y:[t", txt "/2//#a:[2] x:y:[t", txt "///#a:[] x:y:[t"] := by decide
  exact ⟨hnames, ((rewritten_fixed (txt "/a:[1,]2, x:y:[t") []).2 _ hnames _ (by decide)).1 []⟩

/-! ## Requests with a field that cannot be read -/

/-- A list written with commas has no empty entry. -/
structure IsFilledList (text : Str) : Prop where
  ne_nil : text ≠ []
  no_leading : ¬ txt "," <+: text
  no_trailing : ¬ txt "," <:+ text
  no_doubled : ¬ txt ",," <:+: text

instance (text : Str) : Decidable (IsFilledList text) :=
  decidable_of_iff (text ≠ [] ∧ ¬ txt "," <+: text ∧ ¬ txt "," <:+ text ∧ ¬ txt ",," <:+: text)
    ⟨fun ⟨h₁, h₂, h₃, h₄⟩ => ⟨h₁, h₂, h₃, h₄⟩, fun h => ⟨h.1, h.2, h.3, h.4⟩⟩

/-- **Which lists of locations have no empty entry.** -/
theorem nil_not_mem_locationsOf (s : Str) :
    [] ∉ locationsOf s ↔ IsFilledList (keyText (locationKeyPart s)) := by
  rw [locationsOf, piecesOf, nil_not_mem_splitOn]
  constructor
  · rintro ⟨hnil, hleading, htrailing, hdoubled⟩
    exact ⟨hnil, hleading, htrailing, hdoubled⟩
  · rintro ⟨hnil, hleading, htrailing, hdoubled⟩
    exact ⟨hnil, hleading, htrailing, hdoubled⟩

/-- Every name that is written for a request addresses one of its locations, and as many are
counted as the request has locations. -/
structure Addressed (lib : Externals) (s : Str) (names : List Str) : Prop where
  /-- A name is components, none of them empty, with a slash in front of each. -/
  filled : ∀ n ∈ names, ∃ cs : List Str, cs ≠ [] ∧ (∀ c ∈ cs, c ≠ [] ∧ ch '/' ∉ c) ∧
    n = cs.flatMap (ch '/' :: ·)
  no_doubled : ∀ n ∈ names, ¬ txt "//" <:+: n
  /-- The names are accepted, alone and with a session id behind them. -/
  accepted : ∀ n ∈ names, lib.acceptsUri n = true ∧
    ∀ d : UInt64, lib.acceptsUri (subInterestName n d) = true
  /-- They are read as addresses, -/
  read : names.map lib.ofUri =
    (locationsOf s).map fun l => addressOf l (functionPart s) (targetPart s)
  /-- also with the session id behind them. -/
  read_sub : ∀ d : UInt64, (names.map fun n => (Producer.reInterest lib n d).name) =
    (locationsOf s).map fun l =>
      addressOf l (functionPart s) (targetPart s) ++ [.generic (decimal d.toNat)]
  count : names.length = ((locationsOf s).filter (· ≠ [])).length

section

variable {lib : Externals} {s l f t : Str}

/-- **If every name can be read, every name addresses its location.** -/
theorem addressed_of_legible (hlib : lib.UriDocumented)
    (h : ∀ l ∈ locationsOf s, Legible l (functionPart s) (targetPart s)) : Addressed lib s
      ((locationsOf s).map fun l => nameFor l (functionPart s) (targetPart s)) := by
  have hfields : ∀ l ∈ locationsOf s, SubFields l (functionPart s) (targetPart s) :=
    fun l hl => subFields_of_mem hl
  have hne : ∀ l ∈ locationsOf s, l ≠ [] := fun l hl =>
    ((legible_iff (hfields l hl)).1 (h l hl)).1.1
  have hfilled : ∀ n ∈ (locationsOf s).map (fun l => nameFor l (functionPart s) (targetPart s)),
      ∃ cs : List Str, cs ≠ [] ∧ (∀ c ∈ cs, c ≠ [] ∧ ch '/' ∉ c) ∧
        n = cs.flatMap (ch '/' :: ·) := by
    intro n hn
    obtain ⟨l, hl, rfl⟩ := List.mem_map.1 hn
    exact ⟨pathOf l (functionPart s) (targetPart s), by simp [pathOf],
      fun p hp => ⟨(h l hl p hp).ne_nil, (h l hl p hp).slash⟩, nameFor_eq_flatMap _ _ _⟩
  refine ⟨hfilled, fun n hn => ?_, fun n hn => ?_, ?_, fun d => ?_, ?_⟩
  · obtain ⟨cs, -, hcs, rfl⟩ := hfilled n hn
    exact not_doubled_flatMap_cons hcs
  · obtain ⟨l, hl, rfl⟩ := List.mem_map.1 hn
    exact ⟨((h l hl).ofUri_nameFor hlib (hfields l hl)).1, (h l hl).acceptsUri hlib⟩
  · rw [List.map_map]
    exact List.map_congr_left fun l hl => ((h l hl).ofUri_nameFor hlib (hfields l hl)).2
  · rw [List.map_map]
    exact List.map_congr_left fun l hl => (h l hl).ofUri_subInterestName hlib (hfields l hl) d
  · rw [List.length_map, List.filter_eq_self.2 fun l hl => decide_eq_true (hne l hl)]

/-- A name without a function has a doubled slash. -/
theorem doubled_nameFor_nil (l t : Str) : txt "//" <:+: nameFor l [] t := by
  refine ⟨(charPieces l).flatMap (ch '/' :: ·), keywordFor l t, ?_⟩
  rw [nameFor_eq]
  simp [show txt "//" = [ch '/', ch '/'] from rfl]

/-- An empty field leaves a name without an address, or one too many. -/
theorem filled_of_addressed (h : Addressed lib s
    ((locationsOf s).map fun l => nameFor l (functionPart s) (targetPart s))) :
    functionPart s ≠ [] ∧ [] ∉ locationsOf s := by
  constructor
  · intro hf
    obtain ⟨l, ls, hcons⟩ := List.exists_cons_of_ne_nil
      (List.splitOn_ne_nil (ch ',') (keyText (locationKeyPart s)))
    have hl : l ∈ locationsOf s := by
      rw [locationsOf, piecesOf, hcons]
      exact List.mem_cons_self
    have hdoubled := doubled_nameFor_nil l (targetPart s)
    rw [← hf] at hdoubled
    exact h.no_doubled _ (List.mem_map.2 ⟨l, hl, rfl⟩) hdoubled
  · intro hnil
    have hcount := h.count
    rw [List.length_map] at hcount
    have hall := List.length_filter_eq_length_iff.1 hcount.symm [] hnil
    exact absurd hall (by simp)

/-- **If every name addresses its location, every name can be read**: one with a period as a
part is refused, and one with a type in it is read as another name. -/
theorem legible_of_addressed (hlib : lib.UriDocumented) (h : Addressed lib s
    ((locationsOf s).map fun l => nameFor l (functionPart s) (targetPart s))) :
    ∀ l ∈ locationsOf s, Legible l (functionPart s) (targetPart s) := by
  obtain ⟨hf, hnil⟩ := filled_of_addressed h
  intro l hl
  have hfields := subFields_of_mem hl
  have hne : l ≠ [] := fun hc => hnil (hc ▸ hl)
  have hname := List.mem_map_of_mem (f := fun l => nameFor l (functionPart s) (targetPart s)) hl
  obtain ⟨haccepted, hsub⟩ := h.accepted _ hname
  have hperiod : ch '.' ∉ l := period_not_mem_of_acceptsUri hlib hfields hne hf (hsub 0)
  have hread : lib.ofUri (nameFor l (functionPart s) (targetPart s)) =
      addressOf l (functionPart s) (targetPart s) := by
    have hall := h.read
    rw [List.map_map] at hall
    exact List.map_inj_left.1 hall l hl
  have hfilled := filled_pathOf hfields hne hf
  rw [nameFor_eq_flatMap] at haccepted hread
  intro p hp
  refine ⟨(hfilled p hp).2, fun hequals => ?_, fun hperiods => Nat.le_of_not_lt fun hshort => ?_⟩
  · refine hlib.typed _ hfilled ⟨p, hp, hequals⟩ haccepted ?_
    rw [hread, map_pathOf hne hperiod]
  · rw [hlib.refused _ hfilled ⟨p, hp, hperiods, hshort⟩] at haccepted
    exact absurd haccepted Bool.false_ne_true

/-- Every request has a location, if only an empty one. -/
theorem locationsOf_ne_nil (s : Str) : locationsOf s ≠ [] := List.splitOn_ne_nil _ _

/-- **When all names can be read.** -/
theorem legible_locations_iff : (∀ l ∈ locationsOf s, Legible l (functionPart s) (targetPart s)) ↔
    IsFilledList (keyText (locationKeyPart s)) ∧
      (∀ l ∈ locationsOf s, ch '.' ∉ l ∧ ch '=' ∉ l) ∧
      IsUriPart (functionPart s) ∧ ch '=' ∉ targetPart s := by
  rw [← nil_not_mem_locationsOf]
  constructor
  · intro h
    have hparts := fun l hl => (legible_iff (subFields_of_mem hl)).1 (h l hl)
    obtain ⟨l, hl⟩ := List.exists_mem_of_ne_nil _ (locationsOf_ne_nil s)
    exact ⟨fun hnil => (hparts [] hnil).1.1 rfl, fun l hl => (hparts l hl).1.2, (hparts l hl).2⟩
  · rintro ⟨hnil, hlocations, hrest⟩ l hl
    exact (legible_iff (subFields_of_mem hl)).2
      ⟨⟨fun hc => hnil (hc ▸ hl), hlocations l hl⟩, hrest⟩

/-- The function of a name that is written component by component is its last component but
one. -/
theorem isUriPart_functionPart {cs : List Str} (h : ∀ c ∈ cs, c ≠ [] ∧ ch '/' ∉ c) :
    IsUriPart (functionPart (cs.flatMap (ch '/' :: ·))) ↔
      ∃ f ∈ cs.dropLast.getLast?, IsUriPart f := by
  have hnil : ¬ IsUriPart [] := fun hpart => hpart.ne_nil rfl
  rcases List.eq_nil_or_concat' cs with rfl | ⟨cs, k, rfl⟩
  · simpa [functionPart, beforeLast, afterLast] using hnil
  have hk := (h k (by simp)).2
  have hbefore : beforeLast (ch '/') ((cs ++ [k]).flatMap (ch '/' :: ·)) =
      cs.flatMap (ch '/' :: ·) := by
    rw [List.flatMap_append, List.flatMap_singleton]
    exact beforeLast_append hk
  rw [functionPart, hbefore, List.dropLast_concat]
  rcases List.eq_nil_or_concat' cs with rfl | ⟨cs, f, rfl⟩
  · simpa [afterLast] using hnil
  have hf := h f (by simp)
  rw [List.flatMap_append, List.flatMap_singleton, afterLast_append hf.2]
  simp

end

/-- **Exactly the requests that `ndn::Name` can read have every sub-Interest address a
location.**  For every interest name of filled components that `convertInterestName` takes, the
number of names becomes `m_issued_interest`; and each name addresses a location, with as many
names as locations, if and only if the list of locations has no empty entry, no period and no
equals sign, the function is a component that can be read, and the target has no equals sign. -/
theorem addressed_iff {lib : Externals} (hlib : lib.UriDocumented) {cs : List Str}
    (hcs : ∀ c ∈ cs, c ≠ [] ∧ ch '/' ∉ c) {names : List Str}
    (h : Producer.convertInterestName (cs.flatMap (ch '/' :: ·)) [] = .ok names) :
    (∀ (p : Producer) (interest : Interest) (version : ℕ) (session_id : UInt64),
        Producer.decodeURI (lib.toUri interest.name) = cs.flatMap (ch '/' :: ·) →
        ∃ q, p.acceptInterest lib interest version session_id = .ok (q, names) ∧
          q.issuedInterest = names.length) ∧
      (Addressed lib (cs.flatMap (ch '/' :: ·)) names ↔
        IsFilledList (keyText (locationKeyPart (cs.flatMap (ch '/' :: ·)))) ∧
        (∀ l ∈ locationsOf (cs.flatMap (ch '/' :: ·)), ch '.' ∉ l ∧ ch '=' ∉ l) ∧
        (∃ f ∈ cs.dropLast.getLast?, IsUriPart f) ∧
        ch '=' ∉ targetPart (cs.flatMap (ch '/' :: ·))) := by
  refine ⟨fun p interest version session_id hname => ?_, ?_⟩
  · rw [← hname] at h
    exact ⟨_, Producer.acceptInterest_eq h, rfl⟩
  · obtain ⟨-, rfl⟩ := Producer.convertInterestName_eq_ok h
    rw [List.nil_append, ← isUriPart_functionPart hcs, ← legible_locations_iff]
    exact ⟨legible_of_addressed hlib, addressed_of_legible hlib⟩

/-- The request of the client's page. -/
theorem addressed_iff_page :
    Addressed reference (txt "/icn2020/edge/#f:detect/#a:[30321,33212] #a:[person]") [
      txt "/3/0/3/2/1/#f:detect/#a:[30321] #a:[person]",
      txt "/3/3/2/1/2/#f:detect/#a:[33212] #a:[person]"] := by
  have hcs : ∀ c ∈ [txt "icn2020", txt "edge", txt "#f:detect",
      txt "#a:[30321,33212] #a:[person]"], c ≠ [] ∧ ch '/' ∉ c := by decide
  exact (addressed_iff reference_uri hcs (by decide)).2.2
    ⟨by decide, by decide, ⟨txt "#f:detect", rfl, by decide +kernel⟩, by decide⟩

/-- **What cannot be read is not noticed**: an empty list, a comma too many, a name that has no
function component, a location with a period and one with an equals sign. -/
theorem empty_field_not_addressed :
    (Producer.convertInterestName (txt "/icn2020/edge/#f:detect/#a:[] #a:[person]") [] =
        .ok [txt "//#f:detect/#a:[] #a:[person]"] ∧
      ¬ Addressed reference (txt "/icn2020/edge/#f:detect/#a:[] #a:[person]")
        [txt "//#f:detect/#a:[] #a:[person]"]) ∧
    (Producer.convertInterestName (txt "/icn2020/edge/#f:detect/#a:[30321,] #a:[person]") [] =
        .ok [txt "/3/0/3/2/1/#f:detect/#a:[30321] #a:[person]",
          txt "//#f:detect/#a:[] #a:[person]"] ∧
      ¬ Addressed reference (txt "/icn2020/edge/#f:detect/#a:[30321,] #a:[person]")
        [txt "/3/0/3/2/1/#f:detect/#a:[30321] #a:[person]",
          txt "//#f:detect/#a:[] #a:[person]"]) ∧
    (Producer.convertInterestName (txt "/#a:[30321] #a:[person]") [] =
        .ok [txt "/3/0/3/2/1//#a:[30321] #a:[person]"] ∧
      ¬ Addressed reference (txt "/#a:[30321] #a:[person]")
        [txt "/3/0/3/2/1//#a:[30321] #a:[person]"]) ∧
    (Producer.convertInterestName (txt "/icn2020/edge/#f:detect/#a:[3.5] #a:[person]") [] =
        .ok [txt "/3/./5/#f:detect/#a:[3.5] #a:[person]"] ∧
      ¬ Addressed reference (txt "/icn2020/edge/#f:detect/#a:[3.5] #a:[person]")
        [txt "/3/./5/#f:detect/#a:[3.5] #a:[person]"]) ∧
    (Producer.convertInterestName (txt "/icn2020/edge/#f:detect/#a:[3=5] #a:[person]") [] =
        .ok [txt "/3/=/5/#f:detect/#a:[3=5] #a:[person]"] ∧
      ¬ Addressed reference (txt "/icn2020/edge/#f:detect/#a:[3=5] #a:[person]")
        [txt "/3/=/5/#f:detect/#a:[3=5] #a:[person]"]) := by
  refine ⟨⟨by decide, fun h => ?_⟩, ⟨by decide, fun h => ?_⟩, ⟨by decide, fun h => ?_⟩,
    ⟨by decide, fun h => ?_⟩, by decide, fun h => ?_⟩
  · exact h.no_doubled _ (List.mem_singleton_self _) (by decide)
  · exact h.no_doubled (txt "//#f:detect/#a:[] #a:[person]") (by simp) (by decide)
  · exact h.no_doubled _ (List.mem_singleton_self _) (by decide)
  · exact absurd (h.accepted _ (List.mem_singleton_self _)).1 (by decide +kernel)
  · exact absurd (h.accepted _ (List.mem_singleton_self _)).1 (by decide +kernel)

end Crowdsensing
