import Crowdsensing.Naming.Agreement

/-!
# Names as the programs see them

A name reaches a parser as `decodeURI(name.toUri())`: `toUri` escapes every byte that
is not unreserved, and `decodeURI` undoes the escapes of ten bytes.  What is left
escaped stays escaped for the parsers.

* `decodeURI_eq_scan` — the ten replacement passes are one scan.
* `decoded` — what the two functions make of the bytes of a component, with
  `decoded_eq_self_iff`: **exactly the plain texts come through unchanged**.
* `extractTargets_received` — what the worker reads as the targets of a sub-Interest
  the edge named.
-/

namespace Crowdsensing

open Text

/-! ## One scan -/

/-- The bytes whose escapes `decodeURI` replaces, in the order of its passes. -/
def decodedBytes : Str := txt "#:,[] '()*"

/-- The escape of a byte, with the byte. -/
def escapeOf (b : UInt8) : UInt8 × UInt8 × UInt8 := (hexHigh b, hexLow b, b)

/-- The escapes `decodeURI` knows. -/
def uriTable : EscapeTable UInt8 :=
  EscapeTable.insertAll (fun _ _ => none) (decodedBytes.map escapeOf)

/-- The ten escapes do not get in each other's way. -/
theorem isEscapeList_uri :
    IsEscapeList (ch '%') (fun b => isAlnum b = true) (decodedBytes.map escapeOf) where
  mark_not_digit := by decide
  digits p hp := by
    obtain ⟨b, -, rfl⟩ := List.mem_map.1 hp
    exact ⟨isAlnum_hexHigh b, isAlnum_hexLow b⟩
  letter p hp := by
    have hletter : ∀ b ∈ decodedBytes, b ≠ ch '%' ∧ isAlnum b = false := by decide +kernel
    obtain ⟨b, hb, rfl⟩ := List.mem_map.1 hp
    refine ⟨(hletter b hb).1, fun halnum => ?_⟩
    exact absurd ((hletter b hb).2.symm.trans halnum) Bool.false_ne_true
  keys := by decide

/-- The pass for an escape. -/
def passOf (p : UInt8 × UInt8 × UInt8) : Str × Str := ([ch '%', p.1, p.2.1], [p.2.2])

theorem replacePasses_passOf (escapes : List (UInt8 × UInt8 × UInt8)) (u : Str) :
    replacePasses (escapes.map passOf) u = replaceEscapes (ch '%') escapes u := by
  unfold replacePasses replaceEscapes
  rw [List.foldl_map]
  rfl

/-- **The passes of `decodeURI` are one scan.** -/
theorem decodeURI_eq_scan (uri : Str) : Producer.decodeURI uri = scan (ch '%') uriTable uri := by
  have hpasses : Producer.decodeURI uri =
      replacePasses ((decodedBytes.map escapeOf).map passOf) uri := rfl
  rw [hpasses, replacePasses_passOf, isEscapeList_uri.replaceEscapes_eq]
  rfl

/-- No escape has a byte that is not a letter or a digit. -/
theorem uriTable_eq_none {x y : UInt8} (h : isAlnum x = false ∨ isAlnum y = false) :
    uriTable x y = none := by
  refine EscapeTable.insertAll_eq_none rfl fun p hp => ?_
  obtain ⟨b, -, rfl⟩ := List.mem_map.1 hp
  rintro ⟨rfl, rfl⟩
  rcases h with h | h
  · exact absurd ((isAlnum_hexHigh b).symm.trans h) nofun
  · exact absurd ((isAlnum_hexLow b).symm.trans h) nofun

/-- A slash cuts a URI into parts that are decoded each on its own. -/
theorem decodeURI_append_slash (a b : Str) :
    Producer.decodeURI (a ++ ch '/' :: b) =
      Producer.decodeURI a ++ ch '/' :: Producer.decodeURI b := by
  simp only [decodeURI_eq_scan]
  exact scan_append_cons (by decide) (fun _ => uriTable_eq_none (Or.inl (by decide)))
    (fun _ => uriTable_eq_none (Or.inr (by decide))) a b

/-- The two programs decode alike. -/
theorem decodeURI_eq (uri : Str) : Worker.decodeURI uri = Producer.decodeURI uri := rfl

/-! ## A component after escaping and decoding -/

/-- A byte that comes through: unreserved, or one of the ten. -/
def isPlain (b : UInt8) : Bool := isUnreserved b || decide (b ∈ decodedBytes)

/-- What a byte of a component becomes. -/
def decodedByte (b : UInt8) : Str :=
  if isPlain b then [b] else [ch '%', hexHigh b, hexLow b]

/-- What a component becomes. -/
def decoded (c : Str) : Str := c.flatMap decodedByte

/-- The escape of a byte tells the byte. -/
theorem escape_injective {b c : UInt8} (hhigh : hexHigh b = hexHigh c)
    (hlow : hexLow b = hexLow c) : b = c := by
  have hb := hexTable_hexDigits b
  rw [hhigh, hlow, hexTable_hexDigits c, Option.some.injEq] at hb
  exact hb.symm

theorem insertAll_escapeOf (T : EscapeTable UInt8) (bytes : Str) (b : UInt8) :
    T.insertAll (bytes.map escapeOf) (hexHigh b) (hexLow b) =
      if b ∈ bytes then some b else T (hexHigh b) (hexLow b) := by
  induction bytes generalizing T with
  | nil => rfl
  | cons c bytes ih =>
    have hstep : T.insertAll ((c :: bytes).map escapeOf) =
        (T.insert (hexHigh c) (hexLow c) c).insertAll (bytes.map escapeOf) := rfl
    rw [hstep, ih]
    by_cases hc : b = c
    · subst hc
      rw [EscapeTable.insert_self, ite_self, if_pos List.mem_cons_self]
    · rw [EscapeTable.insert_of_ne fun h => hc (escape_injective h.1 h.2)]
      simp only [List.mem_cons, hc, false_or]

theorem scanLetter_eq (b : UInt8) :
    scanLetter (ch '%') isUnreserved hexHigh hexLow uriTable b = decodedByte b := by
  have hlookup : uriTable (hexHigh b) (hexLow b) = if b ∈ decodedBytes then some b else none :=
    insertAll_escapeOf _ _ _
  unfold scanLetter decodedByte isPlain
  by_cases hkeep : isUnreserved b = true
  · simp [hkeep]
  · by_cases hb : b ∈ decodedBytes
    · simp [hkeep, hlookup, hb]
    · simp [hkeep, hlookup, hb]

/-- **`decodeURI` acts on a URI component by component.** -/
theorem decodeURI_flatMap (cs : List Str) :
    Producer.decodeURI (cs.flatMap fun c => ch '/' :: uriEscape c) =
      cs.flatMap fun c => ch '/' :: decoded c := by
  rw [decodeURI_eq_scan]
  induction cs with
  | nil => rfl
  | cons c cs ih =>
    rw [List.flatMap_cons, List.flatMap_cons, List.cons_append, List.cons_append,
      scan_cons_of_ne (by decide), uriEscape, scan_escape_append
        (fun _ h => isUnreserved_ne_percent h)
        (fun x => ne_of_isAlnum (isAlnum_hexHigh x) (by decide))
        (fun x => ne_of_isAlnum (isAlnum_hexLow x) (by decide)), ih, funext scanLetter_eq]
    rfl

/-- The decoded URI of a name. -/
theorem decodeURI_toUri {lib : Externals} (hlib : lib.UriDocumented) (cs : List Str)
    (hne : cs ≠ []) : Producer.decodeURI (lib.toUri (cs.map .generic)) =
      cs.flatMap fun c => ch '/' :: decoded (marked c) := by
  have hmarked := decodeURI_flatMap (cs.map marked)
  rw [List.flatMap_map, List.flatMap_map] at hmarked
  rw [hlib.toUri_generic cs hne, hmarked]

/-! ## What a decoded component holds -/

theorem decoded_append (a b : Str) : decoded (a ++ b) = decoded a ++ decoded b :=
  List.flatMap_append

theorem decoded_cons (b : UInt8) (s : Str) : decoded (b :: s) = decodedByte b ++ decoded s :=
  List.flatMap_cons

theorem decoded_of_plain {s : Str} (h : ∀ b ∈ s, isPlain b = true) : decoded s = s := by
  induction s with
  | nil => rfl
  | cons b s ih =>
    rw [decoded_cons, ih fun c hc => h c (List.mem_cons_of_mem _ hc), decodedByte,
      if_pos (h b List.mem_cons_self)]
    rfl

theorem length_le_decoded (s : Str) : s.length ≤ (decoded s).length := by
  induction s with
  | nil => exact Nat.le_refl 0
  | cons b s ih =>
    rw [decoded_cons, List.length_append, List.length_cons, decodedByte]
    split
    · rw [List.length_singleton]
      omega
    · simp only [List.length_cons]
      omega

/-- A text that does not come through gets longer. -/
theorem length_lt_decoded {s : Str} (h : ¬ ∀ b ∈ s, isPlain b = true) :
    s.length < (decoded s).length := by
  induction s with
  | nil => exact absurd (fun b hb => absurd hb List.not_mem_nil) h
  | cons b s ih =>
    have hle := length_le_decoded s
    rw [decoded_cons, List.length_append, List.length_cons, decodedByte]
    split
    · rename_i hb
      have hlt := ih fun hs => h (by simpa [hb] using hs)
      rw [List.length_singleton]
      omega
    · simp only [List.length_cons]
      omega

/-- **Exactly the plain texts come through unchanged.** -/
theorem decoded_eq_self_iff (s : Str) : decoded s = s ↔ ∀ b ∈ s, isPlain b = true := by
  refine ⟨fun h => ?_, decoded_of_plain⟩
  by_contra hnot
  have hlt := length_lt_decoded hnot
  rw [h] at hlt
  exact absurd hlt (Nat.lt_irrefl _)

theorem mem_decoded {x : UInt8} {s : Str} (h : x ∈ decoded s) :
    x ∈ s ∨ x = ch '%' ∨ isAlnum x = true := by
  obtain ⟨b, hb, hx⟩ := List.mem_flatMap.1 h
  rw [decodedByte] at hx
  split at hx
  · rw [List.mem_singleton.1 hx]
    exact Or.inl hb
  · simp only [List.mem_cons, List.not_mem_nil, or_false] at hx
    rcases hx with rfl | rfl | rfl
    · exact Or.inr (Or.inl rfl)
    · exact Or.inr (Or.inr (isAlnum_hexHigh b))
    · exact Or.inr (Or.inr (isAlnum_hexLow b))

/-- Decoding brings in no separator. -/
theorem not_mem_decoded {x : UInt8} {s : Str} (hx : x ≠ ch '%') (halnum : isAlnum x = false)
    (h : x ∉ s) : x ∉ decoded s := by
  intro hmem
  rcases mem_decoded hmem with hs | hp | ha
  · exact h hs
  · exact hx hp
  · rw [halnum] at ha
    exact absurd ha (by decide)

/-- A byte that does not come through stays escaped. -/
theorem not_mem_decoded_of_not_plain {x : UInt8} (hplain : isPlain x = false) (hx : x ≠ ch '%')
    (s : Str) : x ∉ decoded s := by
  have halnum : isAlnum x = false := by
    rw [← Bool.not_eq_true]
    intro ha
    rw [isPlain, isUnreserved, ha] at hplain
    exact absurd hplain (by simp)
  intro h
  obtain ⟨b, -, hb⟩ := List.mem_flatMap.1 h
  rw [decodedByte] at hb
  split at hb
  · rename_i hb'
    rw [← List.mem_singleton.1 hb, hplain] at hb'
    exact absurd hb' Bool.false_ne_true
  · simp only [List.mem_cons, List.not_mem_nil, or_false] at hb
    rcases hb with hb | hb | hb
    · exact hx hb
    · exact ne_of_isAlnum (isAlnum_hexHigh b) halnum hb.symm
    · exact ne_of_isAlnum (isAlnum_hexLow b) halnum hb.symm

/-- A slash inside a component stays escaped. -/
theorem slash_not_mem_decoded (s : Str) : ch '/' ∉ decoded s :=
  not_mem_decoded_of_not_plain (by decide) (by decide) s

/-- Reading a decoded component as a URI component gives its bytes. -/
theorem uriUnescape_decoded (s : Str) : uriUnescape (decoded s) = s := by
  refine uriUnescape_flatMap fun b _ => ?_
  rw [decodedByte]
  by_cases hb : isPlain b = true
  · refine Or.inl ⟨if_pos hb, ?_⟩
    rintro rfl
    exact absurd hb (by decide)
  · exact Or.inr (if_neg hb)

theorem isPlain_ne_percent {b : UInt8} (h : isPlain b = true) : b ≠ ch '%' := by
  rintro rfl
  exact absurd h (by decide)

theorem isPlain_of_isAlnum {b : UInt8} (h : isAlnum b = true) : isPlain b = true := by
  unfold isPlain isUnreserved
  rw [h]
  rfl

/-- A space cuts a text into parts that are read each on its own. -/
theorem uriUnescape_append_space (a b : Str) :
    uriUnescape (a ++ ch ' ' :: b) = uriUnescape a ++ ch ' ' :: uriUnescape b := by
  refine scan_append_cons (by decide) (fun _ => rfl) (fun d => ?_) a b
  have hspace : hexValue (ch ' ') = none := by decide
  unfold hexTable
  rw [hspace]
  cases hexValue d <;> rfl

theorem decoded_append_space (a b : Str) :
    decoded (a ++ ch ' ' :: b) = decoded a ++ ch ' ' :: decoded b := by
  rw [decoded_append, decoded_cons]
  rfl

/-- The last piece of a decoded text. -/
theorem afterLast_space_decoded (s : Str) :
    afterLast (ch ' ') (decoded s) = decoded (afterLast (ch ' ') s) := by
  have hnot : ∀ {u : Str}, ch ' ' ∉ u → ch ' ' ∉ decoded u := fun h =>
    not_mem_decoded (by decide) (by decide) h
  by_cases h : ch ' ' ∈ s
  · obtain ⟨a, b, hs, hb⟩ : ∃ a b, s = a ++ ch ' ' :: b ∧ ch ' ' ∉ b :=
      ⟨_, _, (beforeLast_append_afterLast h).symm, not_mem_afterLast _ s⟩
    rw [hs, decoded_append_space, afterLast_append (hnot hb), afterLast_append hb]
  · rw [afterLast_of_not_mem h, afterLast_of_not_mem (hnot h)]

/-! ## Names that can be read -/

/-- The parts of a rewritten name, without the session id. -/
def pathOf (l f t : Str) : List Str := charPieces l ++ [f, keywordFor l t]

/-- What `ndn::Name` should read a rewritten name as: the characters of the location, the
function and the keyword. -/
def addressOf (l f t : Str) : Name :=
  (l.map fun c => .generic [c]) ++ [.generic (uriValue f), .generic (uriUnescape (keywordFor l t))]

/-- All parts of a rewritten name are read as components of ordinary bytes. -/
def Legible (l f t : Str) : Prop := ∀ p ∈ pathOf l f t, IsUriPart p

instance (l f t : Str) : Decidable (Legible l f t) := by
  unfold Legible
  infer_instance

/-- What a component becomes can be read. -/
theorem isUriPart_decoded (c : Str) : IsUriPart (decoded (marked c)) where
  slash := slash_not_mem_decoded _
  equals := not_mem_decoded_of_not_plain (by decide) (by decide) _
  periods := by
    rw [uriUnescape_decoded, marked]
    split
    · intro _
      rw [List.length_append]
      exact Nat.le_add_right 3 _
    · rename_i hperiods
      exact fun h => absurd h hperiods

/-- A single character can be read, with three exceptions. -/
theorem isUriPart_singleton {c : UInt8} :
    IsUriPart [c] ↔ c ≠ ch '/' ∧ c ≠ ch '=' ∧ c ≠ ch '.' := by
  have hchar : uriUnescape [c] = [c] := rfl
  constructor
  · intro h
    refine ⟨fun hc => h.slash (hc ▸ List.mem_singleton_self c),
      fun hc => h.equals (hc ▸ List.mem_singleton_self c), fun hc => ?_⟩
    have hthree := h.periods (by
      rw [hchar]
      exact fun b hb => (List.mem_singleton.1 hb).trans hc)
    rw [hchar, List.length_singleton] at hthree
    exact absurd hthree (by decide)
  · rintro ⟨hslash, hequals, hperiod⟩
    refine ⟨fun h => hslash (List.mem_singleton.1 h).symm,
      fun h => hequals (List.mem_singleton.1 h).symm, fun h => ?_⟩
    rw [hchar] at h
    exact absurd (h c (List.mem_singleton_self c)) hperiod

theorem isUriPart_of_isAlnum {s : Str} (hne : s ≠ []) (h : ∀ b ∈ s, isAlnum b = true) :
    IsUriPart s where
  slash hmem := absurd (h _ hmem) (by decide)
  equals hmem := absurd (h _ hmem) (by decide)
  periods hperiods := by
    rw [uriUnescape_of_not_mem fun hmem => absurd (h _ hmem) (by decide)] at hperiods
    obtain ⟨b, s, rfl⟩ := List.exists_cons_of_ne_nil hne
    have hb := h b List.mem_cons_self
    rw [hperiods b List.mem_cons_self] at hb
    exact absurd hb (by decide)

section

variable {l f t : Str}

/-- The keyword begins with `#a:[`. -/
theorem not_isPeriods_keywordFor (l t : Str) : ¬ IsPeriods (uriUnescape (keywordFor l t)) := by
  have hread : ∀ s : Str, uriUnescape (ch '#' :: s) = ch '#' :: uriUnescape s :=
    fun s => scan_cons_of_ne (by decide) s
  rw [show keywordFor l t = ch '#' :: (txt "a:[" ++ l ++ txt "] " ++ t) from rfl, hread]
  exact fun hperiods => absurd (hperiods _ List.mem_cons_self) (by decide)

theorem keywordFor_ne_nil (l t : Str) : keywordFor l t ≠ [] :=
  List.ne_nil_of_length_pos (Nat.zero_lt_of_lt (lt_length_keywordFor l t))

theorem isUriPart_keywordFor (h : SubFields l f t) :
    IsUriPart (keywordFor l t) ↔ ch '=' ∉ l ∧ ch '=' ∉ t := by
  have hequals : ch '=' ∈ keywordFor l t ↔ ch '=' ∈ l ∨ ch '=' ∈ t := by
    have hopen : ch '=' ∉ txt "#a:[" := by decide
    have hclose : ch '=' ∉ txt "] " := by decide
    simp only [keywordFor, List.mem_append, hopen, hclose, false_or, or_false]
  rw [← not_or, ← hequals]
  exact ⟨fun hpart => hpart.equals, fun hnot =>
    ⟨h.slash_keyword, hnot, fun hp => absurd hp (not_isPeriods_keywordFor l t)⟩⟩

theorem nameFor_eq_flatMap (l f t : Str) :
    nameFor l f t = (pathOf l f t).flatMap (ch '/' :: ·) := by
  rw [nameFor_eq, pathOf]
  simp

theorem subComponents_eq (l f t : Str) (d : UInt64) :
    subComponents l f t d = pathOf l f t ++ [decimal d.toNat] := by
  simp [subComponents, pathOf]

theorem filled_pathOf (h : SubFields l f t) (hl : l ≠ []) (hf : f ≠ []) :
    ∀ p ∈ pathOf l f t, p ≠ [] ∧ ch '/' ∉ p := by
  intro p hp
  rw [pathOf, charPieces, if_neg hl, List.mem_append, List.mem_map] at hp
  rcases hp with ⟨b, hb, rfl⟩ | hp
  · exact ⟨List.cons_ne_nil b [], fun hs => h.slash_location (List.mem_singleton.1 hs ▸ hb)⟩
  · simp only [List.mem_cons, List.not_mem_nil, or_false] at hp
    rcases hp with rfl | rfl
    · exact ⟨hf, h.slash_function⟩
    · exact ⟨keywordFor_ne_nil l t, h.slash_keyword⟩

/-- The values of the parts are the address, unless a character is read as a period. -/
theorem map_pathOf (hl : l ≠ []) (hperiod : ch '.' ∉ l) :
    (pathOf l f t).map (fun p => .generic (uriValue p)) = addressOf l f t := by
  have hchar : ∀ c ∈ l, uriValue [c] = [c] := by
    intro c hc
    have hread : uriUnescape [c] = [c] := rfl
    have hother : ¬ IsPeriods [c] := fun h => hperiod (h c (List.mem_singleton_self c) ▸ hc)
    rw [uriValue, hread, if_neg hother]
  have hkeyword : uriValue (keywordFor l t) = uriUnescape (keywordFor l t) := by
    rw [uriValue, if_neg (not_isPeriods_keywordFor l t)]
  rw [pathOf, addressOf, charPieces, if_neg hl, List.map_append, List.map_map]
  simp only [List.map_cons, List.map_nil, hkeyword]
  refine congrArg (· ++ _) (List.map_congr_left fun c hc => ?_)
  exact congrArg Component.generic (hchar c hc)

/-- **Which names can be read.** -/
theorem legible_iff (h : SubFields l f t) : Legible l f t ↔
    (l ≠ [] ∧ ch '.' ∉ l ∧ ch '=' ∉ l) ∧ IsUriPart f ∧ ch '=' ∉ t := by
  constructor
  · intro hlegible
    have hl : l ≠ [] := by
      rintro rfl
      exact (hlegible [] (by simp [pathOf, charPieces])).ne_nil rfl
    have hchar : ∀ c ∈ l, IsUriPart [c] :=
      fun c hc => hlegible [c] (by simp [pathOf, charPieces, hl, hc])
    obtain ⟨hequals, htarget⟩ := (isUriPart_keywordFor h).1 (hlegible _ (by simp [pathOf]))
    exact ⟨⟨hl, fun hc => (isUriPart_singleton.1 (hchar _ hc)).2.2 rfl, hequals⟩,
      hlegible f (by simp [pathOf]), htarget⟩
  · rintro ⟨⟨hl, hperiod, hequals⟩, hf, htarget⟩ p hp
    rw [pathOf, charPieces, if_neg hl, List.mem_append, List.mem_map] at hp
    rcases hp with ⟨c, hc, rfl⟩ | hp
    · exact isUriPart_singleton.2 ⟨fun h' => h.slash_location (h' ▸ hc),
        fun h' => hequals (h' ▸ hc), fun h' => hperiod (h' ▸ hc)⟩
    · simp only [List.mem_cons, List.not_mem_nil, or_false] at hp
      rcases hp with rfl | rfl
      · exact hf
      · exact (isUriPart_keywordFor h).2 ⟨hequals, htarget⟩

/-- With the session id behind it, it can be read as well. -/
theorem Legible.subComponents (h : Legible l f t) (d : UInt64) :
    ∀ p ∈ subComponents l f t d, IsUriPart p := by
  intro p hp
  rw [subComponents_eq] at hp
  rcases List.mem_append.1 hp with hp | hp
  · exact h p hp
  · rw [List.mem_singleton.1 hp]
    exact isUriPart_of_isAlnum (decimal_ne_nil _) fun b hb => isAlnum_of_mem_decimal hb

/-- **A sub-Interest whose name can be read is written back as it was.** -/
theorem Legible.inverseAt {lib : Externals} (h : Legible l f t) (hlib : lib.UriDocumented)
    (d : UInt64) : lib.InverseAt (Crowdsensing.subComponents l f t d) :=
  hlib.inverseAt (by simp [Crowdsensing.subComponents]) (h.subComponents d)

/-- Its name is accepted. -/
theorem Legible.acceptsUri {lib : Externals} (h : Legible l f t) (hlib : lib.UriDocumented)
    (d : UInt64) : lib.acceptsUri (subInterestName (nameFor l f t) d) = true := by
  rw [subInterestName_eq_flatMap]
  exact (hlib.ofUri_flatMap _ (by simp [Crowdsensing.subComponents]) (h.subComponents d)).1

/-- **It is read component by component**, -/
theorem Legible.ofUri_nameFor {lib : Externals} (h : Legible l f t) (hlib : lib.UriDocumented)
    (hfields : SubFields l f t) : lib.acceptsUri (nameFor l f t) = true ∧
      lib.ofUri (nameFor l f t) = addressOf l f t := by
  obtain ⟨⟨hl, hperiod, -⟩, -⟩ := (legible_iff hfields).1 h
  rw [nameFor_eq_flatMap, ← map_pathOf hl hperiod]
  exact hlib.ofUri_flatMap _ (by simp [pathOf]) h

/-- also with the session id behind it. -/
theorem Legible.ofUri_subInterestName {lib : Externals} (h : Legible l f t)
    (hlib : lib.UriDocumented) (hfields : SubFields l f t) (d : UInt64) :
    lib.ofUri (subInterestName (nameFor l f t) d) =
      addressOf l f t ++ [.generic (decimal d.toNat)] := by
  obtain ⟨⟨hl, hperiod, -⟩, -⟩ := (legible_iff hfields).1 h
  have hid : uriValue (decimal d.toNat) = decimal d.toNat := by
    obtain ⟨b, rest, hcons⟩ := List.exists_cons_of_ne_nil (decimal_ne_nil d.toNat)
    have hb : b ≠ ch '.' := by
      rintro rfl
      exact not_mem_decimal (by decide) d.toNat (hcons ▸ List.mem_cons_self)
    rw [uriValue, uriUnescape_of_not_mem (not_mem_decimal (by decide) _), hcons,
      if_neg fun hperiods => hb (hperiods b List.mem_cons_self)]
  have hread := (hlib.ofUri_flatMap _ (by simp [Crowdsensing.subComponents])
    (h.subComponents d)).2
  rw [subInterestName_eq_flatMap, hread, subComponents_eq, List.map_append,
    map_pathOf hl hperiod, List.map_singleton, hid]

/-- **A name that is accepted has no period in its location.** -/
theorem period_not_mem_of_acceptsUri {lib : Externals} (hlib : lib.UriDocumented)
    (h : SubFields l f t) (hl : l ≠ []) (hf : f ≠ []) {d : UInt64}
    (haccepts : lib.acceptsUri (subInterestName (nameFor l f t) d) = true) : ch '.' ∉ l := by
  intro hperiod
  have hfilled : ∀ p ∈ subComponents l f t d, p ≠ [] ∧ ch '/' ∉ p := by
    intro p hp
    rw [subComponents_eq] at hp
    rcases List.mem_append.1 hp with hp | hp
    · exact filled_pathOf h hl hf p hp
    · rw [List.mem_singleton.1 hp]
      exact ⟨decimal_ne_nil _, slash_not_mem_decimal _⟩
  have hchar : uriUnescape [ch '.'] = [ch '.'] := rfl
  have hrefused := hlib.refused _ hfilled ⟨[ch '.'],
    by simp [subComponents, charPieces, hl, hperiod], by rw [hchar]; exact fun b hb => List.mem_singleton.1 hb, by rw [hchar]; decide⟩
  rw [← subInterestName_eq_flatMap, haccepts] at hrefused
  exact absurd hrefused.symm Bool.false_ne_true

/-- The names for a request can be read, if its function can and no type is in its keyword. -/
theorem legible_of_mem {s : Str} (hl : l ∈ locationsOf s) (hne : l ≠ []) (hperiod : ch '.' ∉ l)
    (hf : IsUriPart (functionPart s)) (hequals : ch '=' ∉ keywordPart s) :
    Legible l (functionPart s) (targetPart s) := by
  have hkey : ∀ b ∈ l, b ∈ keywordPart s := fun b hb =>
    mem_of_mem_beforeLast (mem_of_mem_afterLast (mem_of_mem_piecesOf hl hb).1)
  refine (legible_iff (subFields_of_mem hl)).2 ⟨⟨hne, hperiod, fun h => hequals (hkey _ h)⟩, hf, ?_⟩
  exact fun h => hequals (mem_of_mem_afterLast h)

end

/-- The function and the keyword of a text that ends in them. -/
theorem parts_decoded (front f k : Str) :
    functionPart (front ++ ch '/' :: decoded f ++ ch '/' :: decoded k) = decoded f ∧
      keywordPart (front ++ ch '/' :: decoded f ++ ch '/' :: decoded k) = decoded k := by
  refine ⟨?_, afterLast_append (slash_not_mem_decoded k)⟩
  rw [functionPart, beforeLast_append (slash_not_mem_decoded k),
    afterLast_append (slash_not_mem_decoded f)]

/-- **The names for a request that was written by `toUri` can be read**, at locations without
periods. -/
theorem legible_decoded {front f k l : Str}
    (hl : l ∈ locationsOf (front ++ ch '/' :: decoded (marked f) ++ ch '/' :: decoded k))
    (hne : l ≠ []) (hperiod : ch '.' ∉ l) :
    Legible l (functionPart (front ++ ch '/' :: decoded (marked f) ++ ch '/' :: decoded k))
      (targetPart (front ++ ch '/' :: decoded (marked f) ++ ch '/' :: decoded k)) := by
  obtain ⟨hfunction, hkeyword⟩ := parts_decoded front (marked f) k
  refine legible_of_mem hl hne hperiod ?_ ?_
  · rw [hfunction]
    exact isUriPart_decoded f
  · rw [hkeyword]
    exact not_mem_decoded_of_not_plain (by decide) (by decide) k

/-! ## A sub-Interest at the worker -/

section

variable {lib : Externals} {l f t : Str} {d : UInt64}

/-- The name of a sub-Interest as the worker sees it, with the keyword and the session
id in their places. -/
theorem decodeURI_received (hlib : lib.InverseAt (subComponents l f t d)) : ∃ front,
    Worker.decodeURI (lib.toUri (lib.ofUri (subInterestName (nameFor l f t) d))) =
      front ++ ch '/' :: decoded (uriUnescape (keywordFor l t)) ++ ch '/' :: decimal d.toNat := by
  have hid : decoded (uriUnescape (decimal d.toNat)) = decimal d.toNat := by
    rw [uriUnescape_of_not_mem fun hp => absurd (isAlnum_of_mem_decimal hp) (by decide),
      decoded_of_plain fun b hb => isPlain_of_isAlnum (isAlnum_of_mem_decimal hb)]
  have hname := decodeURI_flatMap ((subComponents l f t d).map uriUnescape)
  rw [List.flatMap_map, List.flatMap_map] at hname
  rw [subInterestName_eq_flatMap, hlib, decodeURI_eq, hname]
  refine ⟨(charPieces l ++ [f]).flatMap (fun c => ch '/' :: decoded (uriUnescape c)), ?_⟩
  simp [subComponents, hid]

/-- The worker reads the session id off the name it receives. -/
theorem extractSessionID_received (hlib : lib.InverseAt (subComponents l f t d)) :
    Worker.extractSessionID (Worker.decodeURI (lib.toUri (lib.ofUri
      (subInterestName (nameFor l f t) d)))) = .ok (decimal d.toNat) := by
  obtain ⟨front, hname⟩ := decodeURI_received hlib
  rw [hname, Worker.extractSessionID, split, back_eq_ok (getLast?_splitOn _ _),
    afterLast_append (slash_not_mem_decimal _)]

/-- **What the worker reads as the targets**: the pieces of the target as it is after one
more escaping and decoding. -/
theorem extractTargets_received (hlib : lib.InverseAt (subComponents l f t d))
    (hspace : ch ' ' ∉ uriUnescape t) : Worker.extractTargets (Worker.decodeURI (lib.toUri
      (lib.ofUri (subInterestName (nameFor l f t) d)))) =
        .ok (piecesOf (decoded (uriUnescape t))) := by
  obtain ⟨front, hname⟩ := decodeURI_received hlib
  have hslash : ch '/' ∉ decoded (uriUnescape (keywordFor l t)) := slash_not_mem_decoded _
  have hkeyword : keywordFor l t = (txt "#a:[" ++ l ++ txt "]") ++ ch ' ' :: t := by
    simp only [keywordFor, List.append_assoc]
    rfl
  have hmem : ch '/' ∈ front ++ ch '/' :: decoded (uriUnescape (keywordFor l t)) ++
      ch '/' :: decimal d.toNat := by simp
  rw [hname, Worker.extractTargets, split, popBack_eq_ok (List.splitOn_ne_nil _ _), ok_bind,
    dropLast_splitOn hmem, beforeLast_append (slash_not_mem_decimal _),
    back_eq_ok (getLast?_splitOn _ _), ok_bind, afterLast_append hslash, lastKeyValues_eq,
    hkeyword, uriUnescape_append_space, decoded_append_space,
    afterLast_append (not_mem_decoded (by decide) (by decide) hspace)]

end

end Crowdsensing
