import Crowdsensing.Naming.Parsers

/-!
# Rewritten names and their readers

`convertInterestName` writes one sub-Interest name for each location of a
request; `onInterest` adds the session id, and five parsers in two programs read
the result.

* `subInterestName` — the name on the wire, with `split_subInterestName` as its
  list of components: one for each character of the location, the function, the
  keyword and the session id.
* `parsers_agree` — **every reader finds what was written**, for every request
  the rewriting takes.
* `subInterestNames_do_not_collide` — **no name is a prefix of another**: a name
  is a prefix of a second one only if the two are the same, so the reply to one
  sub-Interest never satisfies another.
-/

namespace Crowdsensing

open Text

/-- The keyword component of a sub-Interest name. -/
def keywordFor (l t : Str) : Str := txt "#a:[" ++ l ++ txt "] " ++ t

/-- The components a location becomes: its characters, or one empty component. -/
def charPieces (l : Str) : List Str := if l = [] then [[]] else l.map fun c => [c]

/-! ## The fields of a rewritten name -/

/-- The fields of a rewritten name hold none of the separators that were used to
find them. -/
structure SubFields (l f t : Str) : Prop where
  slash_location : ch '/' ∉ l
  space_location : ch ' ' ∉ l
  colon_location : ch ':' ∉ l
  comma_location : ch ',' ∉ l
  open_location : ch '[' ∉ l
  close_location : ch ']' ∉ l
  slash_function : ch '/' ∉ f
  slash_target : ch '/' ∉ t
  space_target : ch ' ' ∉ t

theorem mem_of_mem_piecesOf {key l : Str} {b : UInt8} (hl : l ∈ piecesOf key) (hb : b ∈ l) :
    b ∈ key ∧ b ≠ ch ':' ∧ b ≠ ch '[' ∧ b ≠ ch ']' := by
  have htext := List.mem_filter.1 (mem_of_mem_splitOn hl hb)
  obtain ⟨hmem, hbr⟩ := htext
  simp only [decide_eq_true_eq] at hbr
  exact ⟨mem_of_mem_afterLast hmem, fun hc => not_mem_afterLast _ _ (hc ▸ hmem), hbr⟩

/-- What a request supplies for a sub-Interest name. -/
theorem subFields_of_mem {s l : Str} (hl : l ∈ locationsOf s) :
    SubFields l (functionPart s) (targetPart s) := by
  have hkey : ∀ b ∈ l, b ∈ locationKeyPart s ∧ b ≠ ch ':' ∧ b ≠ ch '[' ∧ b ≠ ch ']' :=
    fun b hb => mem_of_mem_piecesOf hl hb
  have hslash : ∀ b ∈ locationKeyPart s, b ≠ ch '/' := by
    rintro b hb rfl
    exact not_mem_afterLast _ _ (mem_of_mem_beforeLast (mem_of_mem_afterLast hb))
  refine ⟨fun h => hslash _ (hkey _ h).1 rfl, fun h => not_mem_afterLast _ _ (hkey _ h).1,
    fun h => (hkey _ h).2.1 rfl, not_mem_of_mem_splitOn hl, fun h => (hkey _ h).2.2.1 rfl,
    fun h => (hkey _ h).2.2.2 rfl, not_mem_afterLast _ _, ?_, not_mem_afterLast _ _⟩
  exact fun h => not_mem_afterLast _ _ (mem_of_mem_afterLast h)

theorem nameFor_eq (l f t : Str) :
    nameFor l f t = (charPieces l).flatMap (ch '/' :: ·) ++ ch '/' :: f ++ ch '/' ::
      keywordFor l t := by
  have hchars : txt "/" ++ (txt "/").intercalate (l.map fun c => [c])
      = (charPieces l).flatMap (ch '/' :: ·) := by
    rw [charPieces]
    by_cases hl : l = []
    · subst hl
      rfl
    · rw [if_neg hl]
      exact cons_intercalate (by simpa using hl)
  rw [nameFor, hchars]
  simp only [keywordFor, List.append_assoc]
  rfl

section Fields

variable {l f t : Str}

theorem SubFields.slash_keyword (h : SubFields l f t) : ch '/' ∉ keywordFor l t := by
  simp only [keywordFor, List.mem_append, not_or]
  exact ⟨⟨⟨by decide, h.slash_location⟩, by decide⟩, h.slash_target⟩

theorem keywordPart_nameFor (h : SubFields l f t) :
    keywordPart (nameFor l f t) = keywordFor l t := by
  rw [nameFor_eq]
  exact afterLast_append h.slash_keyword

theorem targetPart_nameFor (h : SubFields l f t) : targetPart (nameFor l f t) = t := by
  rw [targetPart, keywordPart_nameFor h,
    show keywordFor l t = (txt "#a:[" ++ l ++ txt "]") ++ ch ' ' :: t by
      simp only [keywordFor, List.append_assoc]; rfl]
  exact afterLast_append h.space_target

theorem locationKeyPart_nameFor (h : SubFields l f t) :
    locationKeyPart (nameFor l f t) = txt "#a:[" ++ l ++ txt "]" := by
  have hsp : ch ' ' ∉ txt "#a:[" ++ l ++ txt "]" := by
    simp only [List.mem_append, not_or]
    exact ⟨⟨by decide, h.space_location⟩, by decide⟩
  rw [locationKeyPart, keywordPart_nameFor h,
    show keywordFor l t = (txt "#a:[" ++ l ++ txt "]") ++ ch ' ' :: t by
      simp only [keywordFor, List.append_assoc]; rfl,
    beforeLast_append h.space_target, afterLast_of_not_mem hsp]

/-- Without brackets nothing is removed. -/
theorem filter_brackets {u : Str} (hopen : ch '[' ∉ u) (hclose : ch ']' ∉ u) :
    u.filter (fun c => c ≠ ch '[' ∧ c ≠ ch ']') = u := by
  refine List.filter_eq_self.2 fun b hb => ?_
  simp only [decide_eq_true_eq]
  exact ⟨fun hc => hopen (hc ▸ hb), fun hc => hclose (hc ▸ hb)⟩

/-- The text of a key is what is written between its brackets. -/
theorem keyText_key {u : Str} (hcolon : ch ':' ∉ u) (hopen : ch '[' ∉ u) (hclose : ch ']' ∉ u) :
    keyText (txt "#a:[" ++ u ++ txt "]") = u := by
  have hnot : ch ':' ∉ txt "[" ++ u ++ txt "]" := by
    simp only [List.mem_append, not_or]
    exact ⟨⟨by decide, hcolon⟩, by decide⟩
  rw [keyText, show txt "#a:[" ++ u ++ txt "]" = txt "#a" ++ ch ':' :: (txt "[" ++ u ++ txt "]")
      by simp only [List.append_assoc]; rfl, afterLast_append hnot]
  simp only [List.filter_append, filter_brackets hopen hclose]
  rw [show (txt "[").filter (fun c => c ≠ ch '[' ∧ c ≠ ch ']') = [] by decide,
    show (txt "]").filter (fun c => c ≠ ch '[' ∧ c ≠ ch ']') = [] by decide,
    List.nil_append, List.append_nil]

/-- The key written for one location holds exactly that location. -/
theorem piecesOf_locationKey (h : SubFields l f t) :
    piecesOf (txt "#a:[" ++ l ++ txt "]") = [l] := by
  rw [piecesOf, keyText_key h.colon_location h.open_location h.close_location,
    List.splitOn_eq_singleton h.comma_location]

theorem accepted_nameFor (h : SubFields l f t) : Accepted (nameFor l f t) := by
  refine ⟨?_, ?_⟩
  · rw [nameFor_eq]
    simp
  · rw [keywordPart_nameFor h, keywordFor]
    simp only [List.mem_append]
    exact Or.inl (Or.inr (by decide))

theorem locationsOf_nameFor (h : SubFields l f t) : locationsOf (nameFor l f t) = [l] := by
  rw [locationsOf, locationKeyPart_nameFor h, piecesOf_locationKey h]

theorem targetsOf_nameFor (h : SubFields l f t) : targetsOf (nameFor l f t) = piecesOf t := by
  rw [targetsOf, targetPart_nameFor h]

end Fields

/-! ## The readers of a name with its session id -/

theorem slash_not_mem_decimal (n : ℕ) : ch '/' ∉ decimal n := not_mem_decimal (by decide) n

theorem mem_subInterestName (name : Str) (d : UInt64) : ch '/' ∈ subInterestName name d := by
  rw [subInterestName]
  exact List.mem_append_left _ (List.mem_append_right _ (by decide))

theorem subInterestName_eq (name : Str) (d : UInt64) :
    subInterestName name d = name ++ ch '/' :: decimal d.toNat := by
  rw [subInterestName, List.append_assoc]
  rfl

/-- The session id is read off the last component. -/
theorem extractSessionID_subInterestName (name : Str) (d : UInt64) :
    Worker.extractSessionID (subInterestName name d) = .ok (decimal d.toNat) := by
  rw [Worker.extractSessionID, split, back_eq_ok (getLast?_splitOn _ _), subInterestName_eq,
    afterLast_append (slash_not_mem_decimal _)]

/-- The worker reads the targets of the name before the session id. -/
theorem extractTargets_subInterestName (name : Str) (d : UInt64) :
    Worker.extractTargets (subInterestName name d) = .ok (targetsOf name) := by
  rw [Worker.extractTargets, split, popBack_eq_ok (List.splitOn_ne_nil _ _), ok_bind,
    dropLast_splitOn (mem_subInterestName name d), subInterestName_eq,
    beforeLast_append (slash_not_mem_decimal _), back_eq_ok (getLast?_splitOn _ _), ok_bind,
    lastKeyValues_eq]
  rfl

/-- The edge reads the locations of the name before the session id. -/
theorem extractLocname_subInterestName {name : Str} (h : Accepted name) (d : UInt64) :
    Producer.extractLocname (subInterestName name d) = .ok (locationsOf name) := by
  have hkey := targetAndLocations_eq h.2
  rw [keywordPart] at hkey
  rw [Producer.extractLocname, split, popBack_eq_ok (List.splitOn_ne_nil _ _), ok_bind,
    dropLast_splitOn (mem_subInterestName name d), subInterestName_eq,
    beforeLast_append (slash_not_mem_decimal _), back_eq_ok (getLast?_splitOn _ _), ok_bind,
    popBack_eq_ok (List.splitOn_ne_nil _ _), ok_bind, dropLast_splitOn h.1,
    back_eq_ok (getLast?_splitOn _ _), ok_bind, popBack_eq_ok (List.splitOn_ne_nil _ _), ok_bind,
    hkey]
  rfl

/-- **Every reader finds what was written.**  On every name with a slash and a
space after the last one, the rewriting appends one name for each location, in
order; and behind any session id the edge reads back that one location, the
worker the targets of the request and the session id. -/
theorem parsers_agree {s : Str} (hslash : ch '/' ∈ s) (hspace : ch ' ' ∈ keywordPart s)
    (interest_name_list : List Str) :
    Producer.convertInterestName s interest_name_list =
        .ok (interest_name_list ++
          (locationsOf s).map fun l => nameFor l (functionPart s) (targetPart s)) ∧
      ∃ targets, Producer.extractTargets s = .ok targets ∧
        ∀ l ∈ locationsOf s, ∀ d : UInt64,
          let n := subInterestName (nameFor l (functionPart s) (targetPart s)) d
          Producer.extractLocname n = .ok [l] ∧ Worker.extractTargets n = .ok targets ∧
            Worker.extractSessionID n = .ok (decimal d.toNat) := by
  refine ⟨Producer.convertInterestName_eq ⟨hslash, hspace⟩ _, targetsOf s,
    Producer.extractTargets_eq s, fun l hl d => ?_⟩
  have hfields := subFields_of_mem hl
  refine ⟨?_, ?_, extractSessionID_subInterestName _ d⟩
  · rw [extractLocname_subInterestName (accepted_nameFor hfields) d, locationsOf_nameFor hfields]
  · rw [extractTargets_subInterestName, targetsOf_nameFor hfields]
    rfl

/-- The request of the client's page: two locations, one target. -/
theorem parsers_agree_default :
    let s := txt "/icn2020/edge/#f:detect/#a:[30321,33212] #a:[person]"
    Producer.convertInterestName s [] = .ok [
        txt "/3/0/3/2/1/#f:detect/#a:[30321] #a:[person]",
        txt "/3/3/2/1/2/#f:detect/#a:[33212] #a:[person]"] ∧
      ∃ targets, Producer.extractTargets s = .ok targets ∧
        ∀ l ∈ locationsOf s, ∀ d : UInt64,
          let n := subInterestName (nameFor l (functionPart s) (targetPart s)) d
          Producer.extractLocname n = .ok [l] ∧ Worker.extractTargets n = .ok targets ∧
            Worker.extractSessionID n = .ok (decimal d.toNat) := by
  have h := parsers_agree (s := txt "/icn2020/edge/#f:detect/#a:[30321,33212] #a:[person]")
    (by decide) (by decide) []
  refine ⟨h.1.trans (congrArg Except.ok ?_), h.2⟩
  decide

/-! ## Names do not collide -/

/-- The components of a sub-Interest name: one for each character of the location, the
function, the keyword and the session id. -/
def subComponents (l f t : Str) (d : UInt64) : List Str :=
  charPieces l ++ [f, keywordFor l t, decimal d.toNat]

theorem subInterestName_eq_flatMap (l f t : Str) (d : UInt64) :
    subInterestName (nameFor l f t) d = (subComponents l f t d).flatMap (ch '/' :: ·) := by
  rw [subInterestName_eq, nameFor_eq, subComponents]
  simp

theorem slash_not_mem_subComponents {l f t : Str} (h : SubFields l f t) (d : UInt64) :
    ∀ p ∈ subComponents l f t d, ch '/' ∉ p := by
  intro p hp
  rcases List.mem_append.1 hp with hp | hp
  · rw [charPieces] at hp
    split at hp
    · rw [List.mem_singleton.1 hp]
      exact List.not_mem_nil
    · obtain ⟨c, hc, rfl⟩ := List.mem_map.1 hp
      exact fun hs => h.slash_location (List.mem_singleton.1 hs ▸ hc)
  · simp only [List.mem_cons, List.not_mem_nil, or_false] at hp
    rcases hp with rfl | rfl | rfl
    · exact h.slash_function
    · exact h.slash_keyword
    · exact slash_not_mem_decimal _

theorem split_subInterestName {l f t : Str} (h : SubFields l f t) (d : UInt64) :
    split (subInterestName (nameFor l f t) d) '/' =
      [] :: (charPieces l ++ [f, keywordFor l t, decimal d.toNat]) := by
  rw [split, subInterestName_eq_flatMap]
  exact splitOn_flatMap_cons _ (slash_not_mem_subComponents h d)

theorem length_charPieces_le {l p : Str} (hp : p ∈ charPieces l) : p.length ≤ 1 := by
  rw [charPieces] at hp
  split at hp
  · rw [List.mem_singleton.1 hp]
    simp
  · obtain ⟨c, -, rfl⟩ := List.mem_map.1 hp
    simp

theorem lt_length_keywordFor (l t : Str) : 1 < (keywordFor l t).length := by
  have h : (txt "#a:[").length = 4 := by decide
  simp only [keywordFor, List.length_append, h]
  omega

theorem keywordFor_ne_decimal (l t : Str) (n : ℕ) : keywordFor l t ≠ decimal n := by
  intro h
  have hmem : ch '#' ∈ decimal n := by
    rw [← h, keywordFor]
    simp only [List.mem_append]
    exact Or.inl (Or.inl (Or.inl (by decide)))
  exact not_mem_decimal (by decide) n hmem

theorem keywordFor_inj {l l' t t' : Str} (hl : ch ']' ∉ l) (hl' : ch ']' ∉ l')
    (h : keywordFor l t = keywordFor l' t') : l = l' ∧ t = t' := by
  simp only [keywordFor, List.append_assoc, List.append_cancel_left_eq] at h
  have hcut : ∀ x y : Str, x ++ (txt "] " ++ y) = x ++ ch ']' :: (ch ' ' :: y) := fun _ _ => rfl
  rw [hcut, hcut] at h
  rcases List.append_eq_append_iff.1 h with ⟨a, ha, hb⟩ | ⟨a, ha, hb⟩
  · cases a with
    | nil =>
      simp only [List.append_nil] at ha
      simp only [List.nil_append, List.cons.injEq, true_and] at hb
      exact ⟨ha.symm, hb⟩
    | cons c a =>
      obtain ⟨rfl, -⟩ := List.cons.inj hb
      exact absurd (by rw [ha]; simp) hl'
  · cases a with
    | nil =>
      simp only [List.append_nil] at ha
      simp only [List.nil_append, List.cons.injEq, true_and] at hb
      exact ⟨ha, hb.symm⟩
    | cons c a =>
      obtain ⟨rfl, -⟩ := List.cons.inj hb
      exact absurd (by rw [ha]; simp) hl

/-- The components of a name determine how many of them belong to the location:
only the keyword is longer than a character and no number. -/
theorem length_charPieces_of_prefix {l l' f f' t t' : Str} {d d' : UInt64}
    (h : charPieces l ++ [f, keywordFor l t, decimal d.toNat] <+:
      charPieces l' ++ [f', keywordFor l' t', decimal d'.toNat]) :
    (charPieces l).length = (charPieces l').length := by
  set n := (charPieces l).length with hn
  set n' := (charPieces l').length with hn'
  have hlen : n ≤ n' := by
    have := h.length_le
    simp only [List.length_append, List.length_cons, List.length_nil] at this
    omega
  obtain ⟨u, hu⟩ := h
  have hkey : (charPieces l' ++ [f', keywordFor l' t', decimal d'.toNat])[n + 1]?
      = some (keywordFor l t) := by
    rw [← hu, List.append_assoc, List.getElem?_append_right (by omega), ← hn,
      Nat.add_sub_cancel_left]
    rfl
  have hid : (charPieces l' ++ [f', keywordFor l' t', decimal d'.toNat])[n + 2]?
      = some (decimal d.toNat) := by
    rw [← hu, List.append_assoc, List.getElem?_append_right (by omega), ← hn,
      Nat.add_sub_cancel_left]
    rfl
  rcases Nat.lt_or_ge n n' with hlt | hge
  · exfalso
    rcases Nat.lt_or_ge (n + 1) n' with hlt' | hge'
    · rw [List.getElem?_append_left hlt'] at hkey
      have := length_charPieces_le (List.mem_of_getElem? hkey)
      have := lt_length_keywordFor l t
      omega
    · have heq : n + 2 - n' = 1 := by omega
      rw [List.getElem?_append_right (by omega), ← hn', heq] at hid
      exact keywordFor_ne_decimal l' t' d.toNat (Option.some.inj hid)
  · omega

/-- A name whose components begin a second name's components is that name. -/
theorem eq_of_prefix {l l' f f' t t' : Str} (h : SubFields l f t) (h' : SubFields l' f' t')
    {d d' : UInt64} (hp : split (subInterestName (nameFor l f t) d) '/' <+:
      split (subInterestName (nameFor l' f' t') d') '/') :
    d = d' ∧ l = l' ∧ f = f' ∧ t = t' := by
  rw [split_subInterestName h, split_subInterestName h', List.cons_prefix_cons] at hp
  have hlen := length_charPieces_of_prefix hp.2
  have heq := hp.2.eq_of_length (by simp [hlen])
  obtain ⟨-, htail⟩ := List.append_inj heq hlen
  simp only [List.cons.injEq, and_true] at htail
  obtain ⟨hf, hk, hd⟩ := htail
  obtain ⟨hl, ht⟩ := keywordFor_inj h.close_location h'.close_location hk
  exact ⟨UInt64.toNat_inj.1 (decimal_injective hd), hl, hf, ht⟩

/-- The NDN name whose components are the pieces of a text. -/
def piecesName (uri : Str) : Name := (split uri '/').map .generic

/-- **No name is a prefix of another.**  Of the sub-Interest names of any two
requests, with any session ids, one begins another only if session id, location,
function and target are the same.  So a Data packet that carries the name of one
sub-Interest satisfies no other, although all of them may be extended. -/
theorem subInterestNames_do_not_collide {s s' : Str} {names names' : List Str}
    (hs : Producer.convertInterestName s [] = .ok names)
    (hs' : Producer.convertInterestName s' [] = .ok names') {i i' : ℕ} {n n' : Str}
    (hn : names[i]? = some n) (hn' : names'[i']? = some n') (d d' : UInt64) :
    let same := d = d' ∧ (locationsOf s)[i]? = (locationsOf s')[i']? ∧
      functionPart s = functionPart s' ∧ targetPart s = targetPart s' ∧ n = n'
    (split (subInterestName n d) '/' <+: split (subInterestName n' d') '/' → same) ∧
      ∀ interest : Interest, interest.name = piecesName (subInterestName n d) →
        interest.SatisfiedBy (piecesName (subInterestName n' d')) → same := by
  obtain ⟨-, rfl⟩ := Producer.convertInterestName_eq_ok hs
  obtain ⟨-, rfl⟩ := Producer.convertInterestName_eq_ok hs'
  rw [List.nil_append, List.getElem?_map, Option.map_eq_some_iff] at hn hn'
  obtain ⟨l, hl, rfl⟩ := hn
  obtain ⟨l', hl', rfl⟩ := hn'
  have key : split (subInterestName (nameFor l (functionPart s) (targetPart s)) d) '/' <+:
      split (subInterestName (nameFor l' (functionPart s') (targetPart s')) d') '/' →
      d = d' ∧ (locationsOf s)[i]? = (locationsOf s')[i']? ∧
        functionPart s = functionPart s' ∧ targetPart s = targetPart s' ∧
        nameFor l (functionPart s) (targetPart s) = nameFor l' (functionPart s') (targetPart s') := by
    intro hp
    obtain ⟨hd, hll, hf, ht⟩ := eq_of_prefix (subFields_of_mem (List.mem_of_getElem? hl))
      (subFields_of_mem (List.mem_of_getElem? hl')) hp
    exact ⟨hd, by rw [hl, hl', hll], hf, ht, by rw [hll, hf, ht]⟩
  refine ⟨key, fun interest hname hsat => key ?_⟩
  have hinj : Function.Injective Component.generic := fun a b h => Component.generic.inj h
  rw [Interest.SatisfiedBy, hname] at hsat
  split at hsat
  · obtain ⟨p, hp, hmap⟩ := List.prefix_map_iff.1 hsat
    rw [List.map_injective_iff.2 hinj hmap]
    exact hp
  · rw [List.map_injective_iff.2 hinj hsat]

/-- Two sessions of the default request: the first location's name for session 7
begins no name of the second location for session 8. -/
theorem subInterestNames_do_not_collide_default :
    ¬ split (subInterestName (txt "/3/0/3/2/1/#f:detect/#a:[30321] #a:[person]") 7) '/' <+:
      split (subInterestName (txt "/3/3/2/1/2/#f:detect/#a:[33212] #a:[person]") 8) '/' := by
  intro hp
  have hs : Producer.convertInterestName
      (txt "/icn2020/edge/#f:detect/#a:[30321,33212] #a:[person]") [] = .ok [
        txt "/3/0/3/2/1/#f:detect/#a:[30321] #a:[person]",
        txt "/3/3/2/1/2/#f:detect/#a:[33212] #a:[person]"] := by decide
  have hfirst : [txt "/3/0/3/2/1/#f:detect/#a:[30321] #a:[person]",
      txt "/3/3/2/1/2/#f:detect/#a:[33212] #a:[person]"][0]? = some _ := rfl
  have hsecond : [txt "/3/0/3/2/1/#f:detect/#a:[30321] #a:[person]",
      txt "/3/3/2/1/2/#f:detect/#a:[33212] #a:[person]"][1]? = some _ := rfl
  have hsame := (subInterestNames_do_not_collide hs hs hfirst hsecond 7 8).1 hp
  exact absurd hsame.1 (by decide)

end Crowdsensing
