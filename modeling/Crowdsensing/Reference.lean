import Crowdsensing.Externals

/-!
# Reference libraries

Library functions the programs can be run with: they do on names, replies and
pictures of the kind the programs exchange what ndn-cxx, json11, boost and OpenCV
do, and keep to what is documented of them.

* `reference` — the functions.
* `reference_uri`, `reference_rooted`, `reference_last`, `reference_match`,
  `reference_reshape`, `reference_json`, `reference_dump`, `reference_cast` — they satisfy
  what the results about the programs rely on.
-/

namespace Crowdsensing

open Text

namespace Reference

/-- The text of one name component. -/
def componentText : Component → Str
  | .generic value => uriEscape (marked value)
  | .version number => txt "v=" ++ decimal number
  | .segment number => txt "seg=" ++ decimal number

/-- The URI of a name. -/
def toUri (name : Name) : Str :=
  if name = [] then txt "/" else name.flatMap fun c => ch '/' :: componentText c

/-- The name of a URI without typed components. -/
def ofUri (uri : Str) : Name :=
  if uri = txt "/" then []
  else (uri.splitOn (ch '/')).tail.map fun p => .generic (uriValue p)

/-- All parts of a URI can be read. -/
def acceptsUri (uri : Str) : Bool :=
  uri = txt "/" || (uri.splitOn (ch '/')).tail.all fun p => IsUriPart p

/-- The text of a JSON value. -/
def dump : Json → Str
  | .object fields => writeObject fields
  | value => writeValue value

/-- The number a decimal text stands for, if it fits into 64 bits. -/
def lexicalCast (s : Str) : Option UInt64 :=
  let number := s.foldl (fun n b => 10 * n + (b.toNat - 48)) 0
  if s ≠ [] ∧ s.all isDigit ∧ number < 2 ^ 64 then some (UInt64.ofNat number) else none

/-- The same elements with other channels and rows. -/
def reshape (m : Mat) (channels rows : ℕ) : Option Mat :=
  if h : 0 < channels ∧ 0 < rows ∧ rows * channels ∣ m.data.length ∧
      (m.data = [] → m.rows = rows) then
    some {
      rows := rows
      cols := m.data.length / (rows * channels)
      channels := channels
      data := m.data
      data_length := by
        rw [Nat.mul_right_comm, Nat.mul_div_cancel' h.2.2.1] }
  else none

end Reference

/-- Library functions to run the programs with. -/
def reference : Externals where
  toUri := Reference.toUri
  ofUri := Reference.ofUri
  acceptsUri := Reference.acceptsUri
  matchesData := fun interest data => decide (interest.SatisfiedBy data.name)
  parse := readObject
  dump := Reference.dump
  lexicalCast := Reference.lexicalCast
  reshape := Reference.reshape

/-- The parts of a URI. -/
theorem splitOn_uri {ps : List Str} (hne : ps ≠ []) (h : ∀ p ∈ ps, p ≠ [] ∧ ch '/' ∉ p) :
    ps.flatMap (ch '/' :: ·) ≠ txt "/" ∧
      ((ps.flatMap (ch '/' :: ·)).splitOn (ch '/')).tail = ps := by
  have hsplit : (ps.flatMap (ch '/' :: ·)).splitOn (ch '/') = [] :: ps :=
    splitOn_flatMap_cons _ fun p hp => (h p hp).2
  refine ⟨fun hroot => ?_, by rw [hsplit, List.tail_cons]⟩
  obtain ⟨p, ps, rfl⟩ := List.exists_cons_of_ne_nil hne
  have hcons : ch '/' :: (p ++ ps.flatMap (ch '/' :: ·)) = [ch '/'] := by
    rw [← List.cons_append, ← List.flatMap_cons]
    exact hroot
  rw [List.cons.injEq, List.append_eq_nil_iff] at hcons
  exact (h p List.mem_cons_self).1 hcons.2.1

/-- Which URIs are accepted. -/
theorem reference_acceptsUri {ps : List Str} (hne : ps ≠ [])
    (h : ∀ p ∈ ps, p ≠ [] ∧ ch '/' ∉ p) :
    reference.acceptsUri (ps.flatMap (ch '/' :: ·)) = true ↔ ∀ p ∈ ps, IsUriPart p := by
  obtain ⟨hroot, hparts⟩ := splitOn_uri hne h
  show Reference.acceptsUri _ = true ↔ _
  rw [Reference.acceptsUri, hparts]
  simp [hroot]

theorem reference_uri : reference.UriDocumented where
  toUri_generic cs hne := by
    show Reference.toUri _ = _
    rw [Reference.toUri, if_neg (by simpa using hne), List.flatMap_map]
    rfl
  ofUri_flatMap ps hne h := by
    have hfilled : ∀ p ∈ ps, p ≠ [] ∧ ch '/' ∉ p := fun p hp => ⟨(h p hp).ne_nil, (h p hp).slash⟩
    obtain ⟨hroot, hparts⟩ := splitOn_uri hne hfilled
    refine ⟨(reference_acceptsUri hne hfilled).2 h, ?_⟩
    show Reference.ofUri _ = _
    rw [Reference.ofUri, if_neg hroot, hparts]
  refused ps h hshort := by
    obtain ⟨p, hp, hperiods, hlength⟩ := hshort
    rw [Bool.eq_false_iff, ne_eq, reference_acceptsUri (List.ne_nil_of_mem hp) h]
    exact fun hall => absurd ((hall p hp).periods hperiods) (Nat.not_le.2 hlength)
  typed ps h htyped haccepts := by
    obtain ⟨p, hp, hequals⟩ := htyped
    rw [reference_acceptsUri (List.ne_nil_of_mem hp) h] at haccepts
    exact absurd hequals (haccepts p hp).equals

theorem reference_cast : reference.CastDocumented := by
  rintro s ⟨hne, hdigits, hlt⟩
  exact if_pos ⟨hne, List.all_eq_true.2 hdigits, hlt⟩

theorem reference_rooted : reference.UriRooted := by
  intro name
  cases name with
  | nil => exact ⟨[], rfl⟩
  | cons c name => exact ⟨_, rfl⟩

theorem reference_last : reference.UriLast := by
  rintro name c ⟨b, hb, hperiod⟩
  have hmarked : marked c = c := if_neg fun hperiods => hperiod (hperiods b hb)
  refine ⟨name.flatMap fun c => ch '/' :: Reference.componentText c, ?_⟩
  show Reference.toUri _ = _
  rw [Reference.toUri, if_neg (by simp), List.flatMap_append]
  simp [Reference.componentText, hmarked]

theorem reference_match : reference.MatchDocumented := fun _ _ => decide_eq_true_iff

theorem reference_reshape : reference.ReshapeDocumented where
  reshape_eq_some m channels rows m' h := by
    change Reference.reshape m channels rows = some m' at h
    unfold Reference.reshape at h
    split at h
    · rw [← Option.some.inj h]
      exact ⟨rfl, rfl, rfl⟩
    · exact absurd h nofun
  reshape_isSome m channels rows hne hc hr := by
    change (Reference.reshape m channels rows).isSome = true ↔ _
    unfold Reference.reshape
    split
    · rename_i h
      exact iff_of_true rfl h.2.2.1
    · rename_i h
      exact iff_of_false (by simp) fun hd => h ⟨hc, hr, hd, fun hnil => absurd hnil hne⟩
  reshape_empty m channels rows hnil hc hr := by
    change (Reference.reshape m channels rows).isSome = true ↔ _
    unfold Reference.reshape
    split
    · rename_i h
      exact iff_of_true rfl (h.2.2.2 hnil)
    · rename_i h
      refine iff_of_false (by simp) fun hrows => h ⟨hc, hr, ?_, fun _ => hrows⟩
      rw [hnil]
      exact Nat.dvd_zero _

theorem jsonByte_of_isAlnum {b : UInt8} (h : isAlnum b = true ∨ b = ch '_') :
    jsonByte b = [b] := by
  have hall : ∀ b : UInt8, isAlnum b = true ∨ b = ch '_' → jsonByte b = [b] := by decide +kernel
  exact hall b h

theorem reference_dump : reference.DumpDocumented where
  dump_fields fields h _ := by
    have hvalue : ∀ f ∈ fields, writeField f =
        reference.dump (.string f.1) ++ txt ": " ++ reference.dump f.2 := by
      intro f hf
      have hplain := h f hf
      cases hf2 : f.2 with
      | string value =>
        rw [writeField, hf2]
        rfl
      | bool value =>
        rw [writeField, hf2]
        rfl
      | _ =>
        rw [hf2] at hplain
        exact absurd hplain not_false
    show writeObject fields = _
    rw [writeObject, writeFields, List.map_congr_left hvalue]
  dump_bool b := by cases b <;> rfl
  dump_string s h := by
    have hbytes : s.flatMap jsonByte = s := by
      induction s with
      | nil => rfl
      | cons b s ih =>
        rw [List.flatMap_cons, jsonByte_of_isAlnum (h b List.mem_cons_self),
          ih fun c hc => h c (List.mem_cons_of_mem _ hc)]
        rfl
    show 34 :: writeString s = _
    rw [writeString, hbytes]
    rfl

theorem reference_json : reference.JsonDocumented where
  dump_object fields h := ⟨writeFields fields, rfl, fun _ hb => le_of_mem_writeFields h hb⟩
  parse_dump fields h _ key := by
    show (readObject (writeObject fields)).get key = _
    rw [readObject_writeObject h]

end Crowdsensing
