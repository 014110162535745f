import Crowdsensing.Externals

/-!
# The name parsers

The hand-written parsers of `edge/src/producer.cpp` and `worker/src/worker.cpp`
for names such as `/icn2020/edge/#f:detect/#a:[30321,33212] #a:[person]`:
`convertInterestName` with its two companions on the edge, the two parsers of the
worker, and `decodeURI`, which both programs run first.

A text is handled as the bytes of the `std::string`.  Every `back()` and
`pop_back()` of the source is a step that can fail.  The list indices are of type
`unsigned int` in the source; a name comes out of one packet, so its pieces are
never counted past 2³².
-/

namespace Crowdsensing

open Text

/-! ## Pieces the parsers share -/

/-- `boost::algorithm::split` at one separator. -/
def split (s : Str) (separator : Char) : List Str := s.splitOn (ch separator)

/-- `boost::algorithm::join`. -/
def join (parts : List Str) (separator : String) : Str := (txt separator).intercalate parts

/-- The two `replace_all` calls that delete the brackets. -/
def removeBrackets (s : Str) : Str :=
  replaceAll (txt "]") [] (replaceAll (txt "[") [] s)

/-- The values of a key such as `#a:[30321,33212]`: what follows the last colon,
freed of brackets and split at the commas. -/
def keyValues (key : Str) : Except Fault (List Str) := do
  let key_list := split key ':'
  let value ← back key_list
  return split (removeBrackets value) ','

/-- The values of the last key of a keyword component. -/
def lastKeyValues (keyword : Str) : Except Fault (List Str) := do
  let key_list := split keyword ' '
  let material ← back key_list
  keyValues material

/-- The last token of a keyword component, and the values of the key before it. -/
def targetAndLocations (keyword : Str) : Except Fault (Str × List Str) := do
  let key_list := split keyword ' '
  let target ← back key_list
  let key_list ← popBack key_list
  let location_key ← back key_list
  let location_list ← keyValues location_key
  return (target, location_list)

/-- The successive `replace_all` passes of a `decodeURI`, in order. -/
def replacePasses (passes : List (Str × Str)) (uri : Str) : Str :=
  passes.foldl (fun replaced_string pass => replaceAll pass.1 pass.2 replaced_string) uri

/-- The keyword component of a client's request: the locations, a space and the
target. -/
def requestKeyword (locations : List Str) (target : Str) : Str :=
  txt "#a:[" ++ (txt ",").intercalate locations ++ txt "] #a:[" ++ target ++ txt "]"

/-- The name of a client's request, in the format of the client's page. -/
def requestName (routable : List Str) (function_name : Str) (locations : List Str)
    (target : Str) : Name :=
  (routable ++ [function_name, requestKeyword locations target]).map .generic

/-- The Interest of the client's page, for any locations and target. -/
def clientInterest (locations : List Str) (target : Str) : Interest where
  name := requestName [txt "icn2020", txt "edge"] (txt "#f:detect") locations target
  mustBeFresh := true

/-- The two locations of the client's page. -/
def pageLocations : List Str := [txt "30321", txt "33212"]

/-- `reinvoked_name[j] + "/" + std::to_string(session_id)`. -/
def subInterestName (name : Str) (session_id : UInt64) : Str :=
  name ++ txt "/" ++ decimal session_id.toNat

/-! ## The edge -/

namespace Producer

/-- `"/" + join(tmp, "/")`, where `tmp` lists the characters of the location. -/
def locationPath (location : Str) : Str :=
  txt "/" ++ join (location.map fun c => [c]) "/"

/-- The sub-Interest name for one location. -/
def subName (location_name location function_name target : Str) : Str :=
  location_name ++ txt "/" ++ function_name ++ txt "/" ++ txt "#a:[" ++ location ++ txt "] "
    ++ target

/-- `Producer::convertInterestName`: the names for the locations of a request are
appended to `interest_name_list`. -/
def convertInterestName (interest_name : Str) (interest_name_list : List Str) :
    Except Fault (List Str) := do
  let token_list := split interest_name '/'
  let keyword ← back token_list
  let token_list ← popBack token_list
  let function_name ← back token_list
  let _routable_prefix ← popBack token_list
  let (target, location_list) ← targetAndLocations keyword
  let location_name_list := location_list.map locationPath
  return interest_name_list ++ List.zipWith (fun location_name location =>
    subName location_name location function_name target) location_name_list location_list

/-- `Producer::ExtractTargets`: the target is in the last component. -/
def extractTargets (interest_name : Str) : Except Fault (List Str) := do
  let token_list := split interest_name '/'
  let keyword ← back token_list
  lastKeyValues keyword

/-- `Producer::ExtractLocname`: the locations of a sub-Interest name, whose last
component is the session id. -/
def extractLocname (interest_name : Str) : Except Fault (List Str) := do
  let token_list := split interest_name '/'
  let token_list ← popBack token_list
  let keyword ← back token_list
  let token_list ← popBack token_list
  let _function_name ← back token_list
  let _routable_prefix ← popBack token_list
  let (_target, loc_list) ← targetAndLocations keyword
  return loc_list

/-- `Producer::decodeURI`. -/
def decodeURI (uri : Str) : Str :=
  replacePasses [(txt "%23", txt "#"), (txt "%3A", txt ":"), (txt "%2C", txt ","),
    (txt "%5B", txt "["), (txt "%5D", txt "]"), (txt "%20", txt " "), (txt "%27", txt "'"),
    (txt "%28", txt "("), (txt "%29", txt ")"), (txt "%2A", txt "*")] uri

end Producer

/-! ## The worker -/

namespace Worker

/-- `Worker::ExtractSessionID`: the last component. -/
def extractSessionID (interest_name : Str) : Except Fault Str := do
  let token_list := split interest_name '/'
  back token_list

/-- `Worker::ExtractTargets`: the target is in the component before the session
id. -/
def extractTargets (interest_name : Str) : Except Fault (List Str) := do
  let token_list := split interest_name '/'
  let token_list ← popBack token_list
  let keyword ← back token_list
  lastKeyValues keyword

/-- `Worker::decodeURI`. -/
def decodeURI (uri : Str) : Str :=
  replacePasses [(txt "%23", txt "#"), (txt "%3A", txt ":"), (txt "%2C", txt ","),
    (txt "%5B", txt "["), (txt "%5D", txt "]"), (txt "%20", txt " "), (txt "%27", txt "'"),
    (txt "%28", txt "("), (txt "%29", txt ")"), (txt "%2A", txt "*")] uri

end Worker

/-! ## What the parsers compute -/

/-- The component before the last. -/
def functionPart (s : Str) : Str := afterLast (ch '/') (beforeLast (ch '/') s)

/-- The last component. -/
def keywordPart (s : Str) : Str := afterLast (ch '/') s

/-- The last space-separated token of the last component. -/
def targetPart (s : Str) : Str := afterLast (ch ' ') (keywordPart s)

/-- The token before the target. -/
def locationKeyPart (s : Str) : Str := afterLast (ch ' ') (beforeLast (ch ' ') (keywordPart s))

/-- A key's text after its last colon, with all brackets removed. -/
def keyText (key : Str) : Str :=
  (afterLast (ch ':') key).filter fun c => c ≠ ch '[' ∧ c ≠ ch ']'

/-- The comma-separated pieces of the text of a key. -/
def piecesOf (key : Str) : List Str := (keyText key).splitOn (ch ',')

/-- The locations a request names. -/
def locationsOf (s : Str) : List Str := piecesOf (locationKeyPart s)

/-- The targets a request names. -/
def targetsOf (s : Str) : List Str := piecesOf (targetPart s)

/-- A request the parsers take: a name with a slash whose last component has a
space. -/
def Accepted (s : Str) : Prop := ch '/' ∈ s ∧ ch ' ' ∈ keywordPart s

instance (s : Str) : Decidable (Accepted s) := by
  unfold Accepted
  infer_instance

/-- The sub-Interest name for the location `l`, the function `f` and the target
`t`. -/
def nameFor (l f t : Str) : Str :=
  txt "/" ++ (txt "/").intercalate (l.map fun c => [c]) ++ txt "/" ++ f ++ txt "/#a:[" ++ l
    ++ txt "] " ++ t

theorem removeBrackets_eq (s : Str) :
    removeBrackets s = s.filter fun c => c ≠ ch '[' ∧ c ≠ ch ']' := by
  rw [removeBrackets, show txt "[" = [ch '['] from rfl, show txt "]" = [ch ']'] from rfl,
    replaceAll_singleton_nil, replaceAll_singleton_nil, List.filter_filter]
  refine List.filter_congr fun c _ => ?_
  rw [Bool.and_comm, Bool.decide_and]

theorem keyValues_eq (key : Str) : keyValues key = .ok (piecesOf key) := by
  rw [keyValues, split, back_eq_ok (getLast?_splitOn _ _), ok_bind, removeBrackets_eq]
  rfl

theorem lastKeyValues_eq (keyword : Str) :
    lastKeyValues keyword = .ok (piecesOf (afterLast (ch ' ') keyword)) := by
  rw [lastKeyValues, split, back_eq_ok (getLast?_splitOn _ _), ok_bind, keyValues_eq]

theorem targetAndLocations_eq {keyword : Str} (h : ch ' ' ∈ keyword) :
    targetAndLocations keyword = .ok (afterLast (ch ' ') keyword,
      piecesOf (afterLast (ch ' ') (beforeLast (ch ' ') keyword))) := by
  rw [targetAndLocations, split, back_eq_ok (getLast?_splitOn _ _), ok_bind,
    popBack_eq_ok (List.splitOn_ne_nil _ _), ok_bind, dropLast_splitOn h,
    back_eq_ok (getLast?_splitOn _ _), ok_bind, keyValues_eq]
  rfl

/-- Without a space there is no token before the last one. -/
theorem targetAndLocations_of_not_mem {keyword : Str} (h : ch ' ' ∉ keyword) :
    targetAndLocations keyword = .error .emptyVector := by
  rw [targetAndLocations, split, back_eq_ok (getLast?_splitOn _ _), ok_bind,
    popBack_eq_ok (List.splitOn_ne_nil _ _), ok_bind, dropLast_splitOn_of_not_mem h]
  rfl

namespace Producer

theorem subName_eq (l f t : Str) : subName (locationPath l) l f t = nameFor l f t := by
  simp only [subName, locationPath, join, nameFor, List.append_assoc]
  rfl

/-- **What `convertInterestName` appends.** -/
theorem convertInterestName_eq {s : Str} (h : Accepted s) (names : List Str) :
    convertInterestName s names =
      .ok (names ++ (locationsOf s).map fun l => nameFor l (functionPart s) (targetPart s)) := by
  rw [convertInterestName, split, back_eq_ok (getLast?_splitOn _ _), ok_bind,
    popBack_eq_ok (List.splitOn_ne_nil _ _), ok_bind, dropLast_splitOn h.1,
    back_eq_ok (getLast?_splitOn _ _), ok_bind, popBack_eq_ok (List.splitOn_ne_nil _ _), ok_bind]
  have hkey := targetAndLocations_eq h.2
  rw [keywordPart] at hkey
  rw [hkey, ok_bind]
  simp only [List.zipWith_map_left, List.zipWith_self, subName_eq]
  rfl

/-- Every other text runs into `back()` on an empty vector. -/
theorem convertInterestName_of_not_accepted {s : Str} (h : ¬ Accepted s) (names : List Str) :
    convertInterestName s names = .error .emptyVector := by
  rw [convertInterestName, split, back_eq_ok (getLast?_splitOn _ _), ok_bind,
    popBack_eq_ok (List.splitOn_ne_nil _ _), ok_bind]
  by_cases hs : ch '/' ∈ s
  · have hkey : ch ' ' ∉ afterLast (ch '/') s := fun hc => h ⟨hs, hc⟩
    rw [dropLast_splitOn hs, back_eq_ok (getLast?_splitOn _ _), ok_bind,
      popBack_eq_ok (List.splitOn_ne_nil _ _), ok_bind,
      targetAndLocations_of_not_mem hkey]
    rfl
  · rw [dropLast_splitOn_of_not_mem hs]
    rfl

/-- `convertInterestName` returns exactly on the accepted requests. -/
theorem convertInterestName_eq_ok {s : Str} {names names' : List Str}
    (h : convertInterestName s names = .ok names') : Accepted s ∧
      names' = names ++ (locationsOf s).map fun l => nameFor l (functionPart s) (targetPart s) := by
  by_cases hs : Accepted s
  · rw [convertInterestName_eq hs, Except.ok.injEq] at h
    exact ⟨hs, h.symm⟩
  · rw [convertInterestName_of_not_accepted hs] at h
    exact absurd h (by simp)

theorem extractTargets_eq (s : Str) : extractTargets s = .ok (targetsOf s) := by
  rw [extractTargets, split, back_eq_ok (getLast?_splitOn _ _), ok_bind, lastKeyValues_eq]
  rfl

end Producer

end Crowdsensing
