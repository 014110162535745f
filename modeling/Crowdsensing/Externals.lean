import Crowdsensing.Text.Json

/-!
# Packets and the libraries the programs call

The vocabulary the two programs share: NDN names, Interests and Data packets as
far as the programs read them, the ways a handler can fail, and the functions the
programs call in ndn-cxx, json11, boost and OpenCV.

The library functions are fields of `Externals`, so every result about the
programs holds for all of them; what a result relies on is a hypothesis of its
own: `Externals.UriDocumented`, `Externals.UriRooted`, `Externals.UriLast`,
`Externals.ReshapeDocumented`, `Externals.JsonDocumented`, `Externals.DumpDocumented`,
`Externals.CastDocumented`, `Externals.MatchDocumented`.
-/

namespace Crowdsensing

open Text

/-! ## Names and packets -/

/-- One component of an NDN name: ordinary bytes, a version or a segment number. -/
inductive Component
  | generic (value : Str)
  | version (number : ℕ)
  | segment (number : ℕ)
  deriving DecidableEq, Repr

/-- `ndn::Name`. -/
abbrev Name := List Component

namespace Component

/-- `ndn::Name::Component::isSegment`. -/
def isSegment : Component → Bool
  | .segment _ => true
  | _ => false

end Component

/-- `ndn::Interest`, with the fields the programs set or read. -/
structure Interest where
  name : Name
  canBePrefix : Bool := false
  mustBeFresh : Bool := false
  applicationParameters : Option Str := none
  deriving DecidableEq, Repr

/-- A Data name satisfies an Interest if it is the Interest's name, or extends it
where the Interest allows that. -/
def Interest.SatisfiedBy (interest : Interest) (name : Name) : Prop :=
  if interest.canBePrefix then interest.name <+: name else interest.name = name

instance (interest : Interest) (name : Name) : Decidable (interest.SatisfiedBy name) := by
  unfold Interest.SatisfiedBy
  infer_instance

/-- What a signature is computed over: the name, the FinalBlockId and the content. -/
structure Signature where
  name : Name
  finalBlock : Option Component
  content : Str
  deriving DecidableEq, Repr

/-- `ndn::Data`.  The signature is the one of the last `sign`; the setters leave it
as it is. -/
structure Data where
  name : Name
  content : Str := []
  finalBlock : Option Component := none
  signature : Option Signature := none
  deriving DecidableEq, Repr

namespace Data

/-- `ndn::Data::setContent`. -/
def setContent (data : Data) (content : Str) : Data := { data with content := content }

/-- `ndn::Data::setFinalBlock`. -/
def setFinalBlock (data : Data) (block : Component) : Data :=
  { data with finalBlock := some block }

/-- `ndn::KeyChain::sign`. -/
def sign (data : Data) : Data :=
  { data with signature := some ⟨data.name, data.finalBlock, data.content⟩ }

@[simp] theorem setFinalBlock_content (data : Data) (b : Component) :
    (data.setFinalBlock b).content = data.content := rfl

@[simp] theorem sign_name (data : Data) : data.sign.name = data.name := rfl

end Data

/-! ## Failures -/

/-- The ways a handler ends other than by returning. -/
inductive Fault
  /-- `back()`, `pop_back()` or an index into an empty vector. -/
  | emptyVector
  /-- A null pointer is dereferenced. -/
  | nullPointer
  /-- `BOOST_ASSERT` fails. -/
  | assertion
  /-- `boost::bad_lexical_cast` leaves the handler. -/
  | badLexicalCast
  /-- `cv::Exception` leaves the handler. -/
  | cvException
  /-- `ndn::Face::OversizedPacketError` leaves the handler. -/
  | oversizedPacket
  deriving DecidableEq, Repr

@[simp] theorem ok_bind {α β : Type} (a : α) (f : α → Except Fault β) :
    (Except.ok a >>= f) = f a := rfl

@[simp] theorem error_bind {α β : Type} (e : Fault) (f : α → Except Fault β) :
    (Except.error e >>= f) = Except.error e := rfl

theorem bind_eq_ok {α β : Type} {x : Except Fault α} {f : α → Except Fault β} {b : β} :
    (x >>= f) = .ok b ↔ ∃ a, x = .ok a ∧ f a = .ok b := by
  cases x <;> simp

/-- `std::vector::back`. -/
def back {α : Type} (v : List α) : Except Fault α :=
  match v.getLast? with
  | some x => .ok x
  | none => .error .emptyVector

/-- The element of a vector at index 0. -/
def front {α : Type} (v : List α) : Except Fault α :=
  match v with
  | x :: _ => .ok x
  | [] => .error .emptyVector

/-- `std::vector::pop_back`. -/
def popBack {α : Type} (v : List α) : Except Fault (List α) :=
  match v with
  | [] => .error .emptyVector
  | _ :: _ => .ok v.dropLast

theorem back_eq_ok {α : Type} {v : List α} {x : α} (h : v.getLast? = some x) :
    back v = .ok x := by
  rw [back, h]

theorem popBack_eq_ok {α : Type} {v : List α} (h : v ≠ []) : popBack v = .ok v.dropLast := by
  cases v with
  | nil => exact absurd rfl h
  | cons x v => rfl

/-! ## Pictures -/

/-- An 8-bit `cv::Mat`: its elements row by row, the channels of a pixel together. -/
structure Mat where
  rows : ℕ
  cols : ℕ
  channels : ℕ
  data : Str
  /-- Every pixel has all its channels. -/
  data_length : data.length = rows * cols * channels

/-! ## URIs -/

/-- A text of periods only; the empty one is one. -/
def IsPeriods (s : Str) : Prop := ∀ b ∈ s, b = ch '.'

instance (s : Str) : Decidable (IsPeriods s) := by
  unfold IsPeriods
  infer_instance

/-- Three more periods stand before periods only where a component is written. -/
def marked (c : Str) : Str := if IsPeriods c then txt "..." ++ c else c

/-- A part of a URI that is read as a component of ordinary bytes.  Less than three periods are
refused, and before a `=` stands a type. -/
structure IsUriPart (p : Str) : Prop where
  slash : ch '/' ∉ p
  equals : ch '=' ∉ p
  periods : IsPeriods (uriUnescape p) → 3 ≤ (uriUnescape p).length

instance (p : Str) : Decidable (IsUriPart p) :=
  decidable_of_iff (ch '/' ∉ p ∧ ch '=' ∉ p ∧ (IsPeriods (uriUnescape p) →
    3 ≤ (uriUnescape p).length)) ⟨fun ⟨a, b, c⟩ => ⟨a, b, c⟩, fun ⟨a, b, c⟩ => ⟨a, b, c⟩⟩

/-- The bytes it is read as. -/
def uriValue (p : Str) : Str :=
  if IsPeriods (uriUnescape p) then (uriUnescape p).drop 3 else uriUnescape p

/-! ## The libraries -/

/-- The library functions the programs call. -/
structure Externals where
  /-- `ndn::Name::toUri`. -/
  toUri : Name → Str
  /-- The constructor `ndn::Name(uri)`. -/
  ofUri : Str → Name
  /-- Whether that constructor returns.  Where it throws the handlers of the model go on, so what
  is about a name that was read asks for it. -/
  acceptsUri : Str → Bool
  /-- `ndn::Interest::matchesData`. -/
  matchesData : Interest → Data → Bool
  /-- `json11::Json::parse`: null for a text that is not JSON. -/
  parse : Str → Json
  /-- `json11::Json::dump`. -/
  dump : Json → Str
  /-- `boost::lexical_cast<uint64_t>`: `none` where it throws. -/
  lexicalCast : Str → Option UInt64
  /-- `cv::Mat::reshape(channels, rows)`: `none` where it throws. -/
  reshape : Mat → ℕ → ℕ → Option Mat

/-- What the programs rely on of the URI functions of `ndn::Name`, as documented: every
byte other than a letter, a digit and `-._~` is percent-escaped, periods only are marked, and
reading a URI undoes that.  A URI that begins with `//` holds an authority and is left out. -/
structure Externals.UriDocumented (lib : Externals) : Prop where
  /-- A name is written component by component. -/
  toUri_generic : ∀ cs : List Str, cs ≠ [] →
    lib.toUri (cs.map .generic) = cs.flatMap fun c => ch '/' :: uriEscape (marked c)
  /-- A URI is read component by component. -/
  ofUri_flatMap : ∀ ps : List Str, ps ≠ [] → (∀ p ∈ ps, IsUriPart p) →
    lib.acceptsUri (ps.flatMap (ch '/' :: ·)) = true ∧
      lib.ofUri (ps.flatMap (ch '/' :: ·)) = ps.map fun p => .generic (uriValue p)
  /-- One or two periods are refused. -/
  refused : ∀ ps : List Str, (∀ p ∈ ps, p ≠ [] ∧ ch '/' ∉ p) →
    (∃ p ∈ ps, IsPeriods (uriUnescape p) ∧ (uriUnescape p).length < 3) →
      lib.acceptsUri (ps.flatMap (ch '/' :: ·)) = false
  /-- A part with a type is not read as ordinary bytes. -/
  typed : ∀ ps : List Str, (∀ p ∈ ps, p ≠ [] ∧ ch '/' ∉ p) → (∃ p ∈ ps, ch '=' ∈ p) →
    lib.acceptsUri (ps.flatMap (ch '/' :: ·)) = true →
      lib.ofUri (ps.flatMap (ch '/' :: ·)) ≠ ps.map fun p => .generic (uriValue p)

/-- Reading a URI of these parts and writing the name again restores it, up to the escapes. -/
def Externals.InverseAt (lib : Externals) (ps : List Str) : Prop :=
  lib.toUri (lib.ofUri (ps.flatMap (ch '/' :: ·))) =
    ps.flatMap fun p => ch '/' :: uriEscape (uriUnescape p)

/-- The documented behaviour of `cv::Mat::reshape`: it keeps the elements in order
and fails exactly when they cannot be shared out evenly.  A matrix without elements keeps its
rows. -/
structure Externals.ReshapeDocumented (lib : Externals) : Prop where
  /-- What a successful call returns. -/
  reshape_eq_some : ∀ m channels rows m', lib.reshape m channels rows = some m' →
    m'.data = m.data ∧ m'.channels = channels ∧ m'.rows = rows
  /-- When a call succeeds. -/
  reshape_isSome : ∀ m channels rows, m.data ≠ [] → 0 < channels → 0 < rows →
    ((lib.reshape m channels rows).isSome = true ↔ rows * channels ∣ m.data.length)
  /-- When a call on an empty matrix succeeds. -/
  reshape_empty : ∀ m channels rows, m.data = [] → 0 < channels → 0 < rows →
    ((lib.reshape m channels rows).isSome = true ↔ m.rows = rows)

/-- The documented behaviour of json11 on objects whose fields are strings and
booleans: the text stands between braces, holds no control byte, and is read back
field by field. -/
structure Externals.JsonDocumented (lib : Externals) : Prop where
  /-- The text of an object. -/
  dump_object : ∀ fields, (∀ f ∈ fields, Json.IsPlain f.2) → ∃ body : Str,
    lib.dump (.object fields) = ch '{' :: body ++ [ch '}'] ∧ ∀ b ∈ body, 32 ≤ b
  /-- Its fields are read back. -/
  parse_dump : ∀ fields, (∀ f ∈ fields, Json.IsPlain f.2) → (fields.map Prod.fst).Nodup →
    ∀ key, (lib.parse (lib.dump (.object fields))).get key = (Json.object fields).get key

/-- The documented layout of the texts json11 writes. -/
structure Externals.DumpDocumented (lib : Externals) : Prop where
  /-- The fields of an object, whose keys are sorted, stand between braces. -/
  dump_fields : ∀ fields, (∀ f ∈ fields, Json.IsPlain f.2) →
    (fields.map Prod.fst).Pairwise (· < ·) → lib.dump (.object fields) =
      ch '{' :: (txt ", ").intercalate (fields.map fun f =>
        lib.dump (.string f.1) ++ txt ": " ++ lib.dump f.2) ++ [ch '}']
  dump_bool : ∀ b, lib.dump (.bool b) = if b = true then txt "true" else txt "false"
  /-- A string stands between quotes, and a string of letters, digits and low lines as it is. -/
  dump_string : ∀ s : Str, (∀ b ∈ s, isAlnum b = true ∨ b = ch '_') →
    lib.dump (.string s) = 34 :: s ++ [34]

/-- A decimal number that fits into 64 bits. -/
structure IsDecimal64 (s : Str) : Prop where
  ne_nil : s ≠ []
  digits : ∀ b ∈ s, isDigit b = true
  lt : decimalValue s < 2 ^ 64

/-- The documented behaviour of `boost::lexical_cast<uint64_t>` on decimal numbers that fit
into 64 bits.  What it does with other texts is left open. -/
def Externals.CastDocumented (lib : Externals) : Prop :=
  ∀ s, IsDecimal64 s → lib.lexicalCast s = some (UInt64.ofNat (decimalValue s))

/-- The text of a name begins with a slash, whatever its components. -/
def Externals.UriRooted (lib : Externals) : Prop :=
  ∀ name, ∃ rest, lib.toUri name = ch '/' :: rest

/-- The text of a name ends in the text of its last component, whatever stands before it.  A
component of periods only is written in another way. -/
def Externals.UriLast (lib : Externals) : Prop :=
  ∀ name c, (∃ b ∈ c, b ≠ ch '.') → ∃ front,
    lib.toUri (name ++ [.generic c]) = front ++ ch '/' :: uriEscape c

/-- The documented behaviour of `matchesData`, for names that hold no digest of a packet. -/
def Externals.MatchDocumented (lib : Externals) : Prop :=
  ∀ interest data, lib.matchesData interest data = true ↔ interest.SatisfiedBy data.name

theorem isDecimal64_decimal (d : UInt64) : IsDecimal64 (decimal d.toNat) where
  ne_nil := decimal_ne_nil _
  digits := fun _ hb => isDigit_of_mem_decimal hb
  lt := by
    rw [decimalValue_decimal]
    exact d.toNat_lt

/-! ## Writing and reading URIs -/

/-- A part of a URI is not empty. -/
theorem IsUriPart.ne_nil {p : Str} (h : IsUriPart p) : p ≠ [] := by
  rintro rfl
  have hthree : 3 ≤ ([] : Str).length := h.periods fun b hb => absurd hb List.not_mem_nil
  exact absurd hthree (by decide)

/-- The value of a part, marked again, is what the part says. -/
theorem marked_uriValue {p : Str} (h : IsUriPart p) : marked (uriValue p) = uriUnescape p := by
  unfold uriValue
  by_cases hperiods : IsPeriods (uriUnescape p)
  · have hrest : IsPeriods ((uriUnescape p).drop 3) :=
      fun b hb => hperiods b (List.mem_of_mem_drop hb)
    have hfirst : (uriUnescape p).take 3 = List.replicate 3 (ch '.') := by
      refine List.eq_replicate_iff.2 ⟨?_, fun b hb => hperiods b (List.mem_of_mem_take hb)⟩
      exact List.length_take_of_le (h.periods hperiods)
    have hthree : txt "..." = List.replicate 3 (ch '.') := by decide
    rw [if_pos hperiods, marked, if_pos hrest, hthree, ← hfirst, List.take_append_drop]
  · rw [if_neg hperiods, marked, if_neg hperiods]

/-- **Reading a URI and writing the name again restores it**, up to the escapes. -/
theorem Externals.UriDocumented.inverseAt {lib : Externals} (hlib : lib.UriDocumented)
    {ps : List Str} (hne : ps ≠ []) (h : ∀ p ∈ ps, IsUriPart p) : lib.InverseAt ps := by
  have hwritten := hlib.toUri_generic (ps.map uriValue) (by simpa using hne)
  rw [List.map_map, List.flatMap_map] at hwritten
  rw [Externals.InverseAt, (hlib.ofUri_flatMap ps hne h).2]
  refine hwritten.trans ?_
  rw [List.flatMap_def, List.flatMap_def]
  refine congrArg List.flatten (List.map_congr_left fun p hp => ?_)
  rw [marked_uriValue (h p hp)]

/-- A session id is read back from its decimal text. -/
theorem Externals.CastDocumented.lexicalCast_decimal {lib : Externals} (hlib : lib.CastDocumented)
    (d : UInt64) : lib.lexicalCast (decimal d.toNat) = some d := by
  rw [hlib _ (isDecimal64_decimal d), decimalValue_decimal, UInt64.ofNat_toNat]

end Crowdsensing
