import Crowdsensing.Externals

/-!
# Replies

The reply to a sub-Interest: what `Encoder::encode` writes for a location, in the
worker and, in cloud mode, in the edge.  `edge/src/encode.cpp` and
`worker/src/encode.cpp` are the same, and so are the lines around their calls that
look the target up in the labels of the detector.
-/

namespace Crowdsensing

open Text

/-- What a reply says. -/
structure Reply where
  isFound : Bool
  target : Str
  location : Str
  time : Str
  sessionId : Str
  deriving DecidableEq, Repr

namespace Reply

/-- The fields of a reply, in the order of their names, as `json11` keeps them. -/
def fields (r : Reply) : List (Str × Json) :=
  [(txt "isFound", .bool r.isFound), (txt "location", .string r.location),
    (txt "session_id", .string r.sessionId), (txt "target", .string r.target),
    (txt "time", .string r.time)]

theorem fields_plain (r : Reply) : ∀ f ∈ r.fields, Json.IsPlain f.2 := by
  intro f hf
  simp only [fields, List.mem_cons, List.not_mem_nil, or_false] at hf
  rcases hf with rfl | rfl | rfl | rfl | rfl <;> trivial

theorem fields_nodup (r : Reply) : (r.fields.map Prod.fst).Nodup := by
  show [txt "isFound", txt "location", txt "session_id", txt "target", txt "time"].Nodup
  decide

/-- The keys of a reply are sorted. -/
theorem fields_sorted (r : Reply) : (r.fields.map Prod.fst).Pairwise (· < ·) := by
  show [txt "isFound", txt "location", txt "session_id", txt "target", txt "time"].Pairwise (· < ·)
  decide

end Reply

/-- The record `Encoder::encode` is called with, for the labels a detector found:
`std::find` looks the target up, and the time is left empty. -/
def replyFor (location target session_id : Str) (detection_result : List Str) : Reply where
  isFound := decide (target ∈ detection_result)
  target := target
  location := location
  time := []
  sessionId := session_id

/-- `Encoder::encode`. -/
def encode (lib : Externals) (r : Reply) : Str := lib.dump (.object r.fields)

/-- The fields of a reply are read back from its text. -/
theorem get_encode {lib : Externals} (hlib : lib.JsonDocumented) (r : Reply) (key : Str) :
    (lib.parse (encode lib r)).get key = (Json.object r.fields).get key :=
  hlib.parse_dump r.fields r.fields_plain r.fields_nodup key

/-- The text of a reply. -/
theorem encode_eq {lib : Externals} (hdump : lib.DumpDocumented) (r : Reply) : encode lib r =
    ch '{' :: (34 :: txt "isFound" ++ [34] ++ txt ": " ++ lib.dump (.bool r.isFound) ++ txt ", " ++
      (34 :: txt "location" ++ [34] ++ txt ": " ++ lib.dump (.string r.location) ++ txt ", " ++
      (34 :: txt "session_id" ++ [34] ++ txt ": " ++ lib.dump (.string r.sessionId) ++ txt ", " ++
      (34 :: txt "target" ++ [34] ++ txt ": " ++ lib.dump (.string r.target) ++ txt ", " ++
      (34 :: txt "time" ++ [34] ++ txt ": " ++ lib.dump (.string r.time)))))) ++ [ch '}'] := by
  have hbytes : ∀ key ∈ [txt "isFound", txt "location", txt "session_id", txt "target", txt "time"],
      (key.all fun b => isAlnum b || b == ch '_') = true := by decide
  have hkey : ∀ key ∈ [txt "isFound", txt "location", txt "session_id", txt "target", txt "time"],
      lib.dump (.string key) = 34 :: key ++ [34] := by
    intro key hmem
    refine hdump.dump_string key fun b hb => ?_
    simpa using List.all_eq_true.1 (hbytes key hmem) b hb
  have hisFound := hkey (txt "isFound") (by decide)
  have hlocation := hkey (txt "location") (by decide)
  have hsession := hkey (txt "session_id") (by decide)
  have htarget := hkey (txt "target") (by decide)
  have htime := hkey (txt "time") (by decide)
  rw [encode, hdump.dump_fields _ r.fields_plain r.fields_sorted]
  simp only [Reply.fields, List.map_cons, List.map_nil, List.intercalate_cons_cons,
    List.intercalate_singleton, hisFound, hlocation, hsession, htarget, htime]

end Crowdsensing
