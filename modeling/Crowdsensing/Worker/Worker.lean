import Crowdsensing.Encoder
import Crowdsensing.Naming.Parsers
import Crowdsensing.Text.Chunk

/-!
# The worker

`worker/src/worker.cpp`: in edge mode the worker looks for the target in its own
picture and replies with the verdict; in cloud mode it captures a picture, cuts it
into segments under a new version, and serves the segments.

* `Worker.populateStore` — the segments of a picture, with `populateStore_store`:
  one packet for each chunk.
* `Worker.processSegmentInterest` — the answer in cloud mode, with
  `processSegmentInterest_eq_ok`.
* `Worker.onInterest` — the handler.

The counter of the loop over the segments is of type `int` in the source.  It counts
packets that are all held in memory, so it is a natural number here.
-/

namespace Crowdsensing

open Text

/-! ## What the worker holds and sends -/

/-- `Worker::Options`, the segment size. -/
structure Options where
  maxSegmentSize : ℕ := 8000
  /-- A segment holds something. -/
  maxSegmentSize_pos : 0 < maxSegmentSize := by decide

/-- `Worker`. -/
structure Worker where
  cdString : Str
  options : Options := {}
  namePrefix : Name := []
  versionedPrefix : Name := []
  store : List Data := []

/-- What the worker puts on its face. -/
inductive Packet
  | data (packet : Data)
  | nack (interest : Interest)
  deriving DecidableEq, Repr

namespace Worker

/-! ## Segments -/

/-- `std::copy` to the beginning of a buffer that is long enough. -/
def copyInto (source buffer : Str) : Str := source ++ buffer.drop source.length

/-- `std::vector::resize`. -/
def resize (buffer : Str) (size : ℕ) : Str :=
  buffer.take size ++ List.replicate (size - buffer.length) 0

/-- The loop of `populateStore`.  The source has no bound on the number of rounds;
`populateLoop_eq` shows that the one given here is never reached. -/
def populateLoop (max : ℕ) (versioned : Name) (data_vector : Str) :
    ℕ → ℕ → Str → List Data → List Data
  | 0, _, _, store => store
  | rounds + 1, i, buffer, store =>
    if max * i < data_vector.length then
      let buffer :=
        if max * (i + 1) < data_vector.length then
          copyInto ((data_vector.drop (max * i)).take max) buffer
        else
          copyInto (data_vector.drop (max * i)) (resize buffer (data_vector.length - max * i))
      let store :=
        if 0 < buffer.length then
          store ++ [{ name := versioned ++ [.segment store.length], content := buffer }]
        else store
      populateLoop max versioned data_vector rounds (i + 1) buffer store
    else store

/-- One round of that loop: the counter, the buffer and the store behind it, and `none`
where the condition is false. -/
def populateRound (max : ℕ) (versioned : Name) (data_vector : Str) :
    ℕ × Str × List Data → Option (ℕ × Str × List Data)
  | (i, buffer, store) =>
    if max * i < data_vector.length then
      let buffer :=
        if max * (i + 1) < data_vector.length then
          copyInto ((data_vector.drop (max * i)).take max) buffer
        else
          copyInto (data_vector.drop (max * i)) (resize buffer (data_vector.length - max * i))
      let store :=
        if 0 < buffer.length then
          store ++ [{ name := versioned ++ [.segment store.length], content := buffer }]
        else store
      some (i + 1, buffer, store)
    else none

/-- `Worker::populateStore`. -/
def populateStore (w : Worker) (data_vector : Str) : Worker :=
  let max := w.options.maxSegmentSize
  let store := populateLoop max w.versionedPrefix data_vector (data_vector.length + 1) 0
    (List.replicate max 0) w.store
  let store :=
    if store = [] then [{ name := w.versionedPrefix ++ [.segment 0] }] else store
  { w with store := store.map fun data => data.setFinalBlock (.segment (store.length - 1)) }

/-! ## Answers in cloud mode -/

/-- The packet of the store that answers an Interest; `none` is the null pointer. -/
def findPacket (lib : Externals) (w : Worker) (interest : Interest) (first : Data) :
    Option ℕ :=
  match interest.name.getLast? with
  | some (.segment segmentNo) =>
    if interest.name.length = w.versionedPrefix.length + 1 then
      if segmentNo < w.store.length then some segmentNo else none
    else if lib.matchesData interest first then some 0 else none
  | _ => if lib.matchesData interest first then some 0 else none

/-- `m_key_chain.sign (*data)`: the packet is signed where it is stored. -/
def signPacket (store : List Data) : Option ℕ → Except Fault (List Data)
  | none => .error .nullPointer
  | some position => .ok (store.modify position Data.sign)

/-- `Worker::processSegmentInterest`.  The pointer is compared with null after the
packet behind it was signed. -/
def processSegmentInterest (lib : Externals) (w : Worker) (interest : Interest) :
    Except Fault (Worker × List Packet) :=
  match w.store with
  | [] => .error .assertion
  | first :: _ => do
    let data := w.findPacket lib interest first
    let store ← signPacket w.store data
    let w := { w with store := store }
    match data.bind fun position => store[position]? with
    | some data => return (w, [.data data])
    | none => return (w, [.nack interest])

/-- The prefixes for the pictures asked with a name: a version is appended unless the
name ends in one. -/
def setVersion (w : Worker) (name : Name) (version : ℕ) : Worker :=
  match name.getLast? with
  | some (.version _) => { w with namePrefix := name.dropLast, versionedPrefix := name }
  | _ => { w with namePrefix := name, versionedPrefix := name ++ [.version version] }

/-- A new picture: new prefixes, and a store with its segments. -/
def capture (w : Worker) (name : Name) (version : ℕ) (data_vector : Str) : Worker :=
  { w.setVersion name version with store := [] }.populateStore data_vector

/-! ## The handler -/

/-- The mode an Interest asks for: its parameter, or cloud mode without one. -/
def modeOf (interest : Interest) : Str := interest.applicationParameters.getD (txt "c")

/-- The reply in edge mode. -/
def reply (w : Worker) (target_name session_id : Str) (detection_result : List Str) : Reply :=
  replyFor (replaceAll (txt "/") [] w.cdString) target_name session_id detection_result

/-- Edge mode: the reply to the target among the labels the detector finds. -/
def answerEdge (lib : Externals) (w : Worker) (interest : Interest)
    (target_name : List Str) (session_id : Str) (detection_result : List Str) :
    Except Fault (Worker × List Packet) := do
  let target ← front target_name
  let result_str := encode lib (w.reply target session_id detection_result)
  let data : Data := { name := interest.name }
  return (w, [.data (data.setContent result_str).sign])

/-- Cloud mode: a segment is served from the store; any other name captures a picture,
with the version drawn for it. -/
def answerCloud (lib : Externals) (w : Worker) (interest : Interest) (frame : Mat)
    (version : ℕ) : Except Fault (Worker × List Packet) := do
  let last ← back interest.name
  if last.isSegment then w.processSegmentInterest lib interest
  else
    match lib.reshape frame 1 1 with
    | none => .error .cvException
    | some raw => (w.capture interest.name version raw.data).processSegmentInterest lib interest

/-- `Worker::onInterest`, with what the detector returns if it is asked: the labels it
finds, or the picture it takes. -/
def onInterest (lib : Externals) (w : Worker) (interest : Interest)
    (detection_result : List Str) (frame : Mat) (version : ℕ) :
    Except Fault (Worker × List Packet) := do
  let edge_mode := modeOf interest
  let target_name ← extractTargets (decodeURI (lib.toUri interest.name))
  let session_id ← extractSessionID (decodeURI (lib.toUri interest.name))
  if target_name.length = 0 then return (w, [])
  else if edge_mode = txt "e" then
    w.answerEdge lib interest target_name session_id detection_result
  else if edge_mode = txt "c" then w.answerCloud lib interest frame version
  else return (w, [])

/-- The worker before anything happened. -/
def start (cd_str : Str) (options : Options) : Worker where
  cdString := cd_str
  options := options

/-! ## What the segments are -/

theorem resize_length (buffer : Str) (size : ℕ) : (resize buffer size).length = size := by
  rw [resize, List.length_append, List.length_take, List.length_replicate]
  omega

/-- A text that fills the buffer replaces it. -/
theorem copyInto_of_length {source buffer : Str} (h : buffer.length = source.length) :
    copyInto source buffer = source := by
  rw [copyInto, List.drop_of_length_le (Nat.le_of_eq h), List.append_nil]

/-- The packet for one chunk of a picture. -/
def segmentPacket (max : ℕ) (versioned : Name) (data_vector : Str) (k : ℕ) : Data where
  name := versioned ++ [.segment k]
  content := chunk max k data_vector

/-- The loop is its rounds. -/
theorem populateLoop_succ (max : ℕ) (versioned : Name) (data_vector : Str) (rounds i : ℕ)
    (buffer : Str) (store : List Data) :
    populateLoop max versioned data_vector (rounds + 1) i buffer store =
      match populateRound max versioned data_vector (i, buffer, store) with
      | some (i, buffer, store) => populateLoop max versioned data_vector rounds i buffer store
      | none => store := by
  rw [populateLoop, populateRound]
  split <;> rfl

/-- **A round with something left appends the packet for the next chunk**; the buffer is of
full length, or this was the last round. -/
theorem populateRound_eq {max : ℕ} (versioned : Name) {data_vector : Str} {i : ℕ}
    {buffer : Str} {store : List Data} (hi : store.length = i) (hfull : buffer.length = max)
    (hmax : 0 < max) (hlt : max * i < data_vector.length) :
    populateRound max versioned data_vector (i, buffer, store) =
        some (i + 1, chunk max i data_vector,
          store ++ [segmentPacket max versioned data_vector i]) ∧
      ((chunk max i data_vector).length = max ∨ data_vector.length ≤ max * (i + 1)) := by
  have hmul : max * (i + 1) = max * i + max := Nat.mul_add_one max i
  have hchunk : (if max * (i + 1) < data_vector.length then
      copyInto ((data_vector.drop (max * i)).take max) buffer
    else
      copyInto (data_vector.drop (max * i)) (resize buffer (data_vector.length - max * i)))
        = chunk max i data_vector := by
    by_cases hmore : max * (i + 1) < data_vector.length
    · rw [if_pos hmore]
      refine copyInto_of_length ?_
      rw [hfull]
      exact (length_chunk (Nat.le_of_lt hmore)).symm
    · rw [if_neg hmore, chunk_eq_drop (Nat.le_of_not_lt hmore)]
      refine copyInto_of_length ?_
      rw [resize_length, List.length_drop]
  have hlength : (chunk max i data_vector).length = min max (data_vector.length - max * i) := by
    rw [chunk, List.length_take, List.length_drop]
  have hpos : 0 < (chunk max i data_vector).length := by omega
  refine ⟨?_, by omega⟩
  rw [populateRound, if_pos hlt, hchunk]
  simp only [if_pos hpos, hi]
  rfl

/-- **The loop appends one packet for each chunk that is left.** -/
theorem populateLoop_eq {max : ℕ} (hmax : 0 < max) (versioned : Name) (data_vector : Str)
    (rounds i : ℕ) (buffer : Str) (store : List Data) (hi : store.length = i)
    (hbuffer : buffer.length = max ∨ data_vector.length ≤ max * i)
    (hrounds : chunkCount max data_vector - i < rounds) :
    populateLoop max versioned data_vector rounds i buffer store =
      store ++ (List.range' i (chunkCount max data_vector - i)).map
        (segmentPacket max versioned data_vector) := by
  induction rounds generalizing i buffer store with
  | zero => exact absurd hrounds (Nat.not_lt_zero _)
  | succ rounds ih =>
    rw [populateLoop_succ]
    by_cases hlt : max * i < data_vector.length
    · have hcount : i < chunkCount max data_vector := (lt_chunkCount hmax _).2 hlt
      have hfull : buffer.length = max := hbuffer.resolve_right (by omega)
      obtain ⟨hround, hnext⟩ := populateRound_eq versioned hi hfull hmax hlt
      rw [hround]
      simp only
      rw [ih (i + 1) _ _ (by rw [List.length_append, hi]; rfl) hnext (by omega),
        List.append_assoc, show chunkCount max data_vector - i =
          chunkCount max data_vector - (i + 1) + 1 by omega, List.range'_succ]
      rfl
    · have hcount : ¬ i < chunkCount max data_vector := fun hc => hlt ((lt_chunkCount hmax _).1 hc)
      rw [populateRound, if_neg hlt, Nat.sub_eq_zero_of_le (Nat.le_of_not_lt hcount)]
      simp

/-- How many packets a picture takes: one for each chunk, and one for an empty
picture. -/
def segmentCount (max : ℕ) (data_vector : Str) : ℕ :=
  if data_vector = [] then 1 else chunkCount max data_vector

theorem segmentCount_pos {max : ℕ} (hmax : 0 < max) (data_vector : Str) :
    0 < segmentCount max data_vector := by
  unfold segmentCount
  split
  · exact Nat.one_pos
  · rename_i h
    exact chunkCount_pos hmax h

/-- The packet with the given number for a picture, as it is put in the store. -/
def storedPacket (max : ℕ) (versioned : Name) (data_vector : Str) (k : ℕ) : Data :=
  (segmentPacket max versioned data_vector k).setFinalBlock
    (.segment (segmentCount max data_vector - 1))

/-- **The store holds one packet for each chunk of the picture**, in order, and every
packet says which is the last. -/
theorem populateStore_store (w : Worker) (hw : w.store = []) (data_vector : Str) :
    (w.populateStore data_vector).store =
      (List.range (segmentCount w.options.maxSegmentSize data_vector)).map
        (storedPacket w.options.maxSegmentSize w.versionedPrefix data_vector) := by
  have hmax := w.options.maxSegmentSize_pos
  have hle := chunkCount_le_length hmax data_vector
  have hloop := populateLoop_eq hmax w.versionedPrefix data_vector (data_vector.length + 1) 0
    (List.replicate w.options.maxSegmentSize 0) w.store (by rw [hw]; rfl)
    (Or.inl List.length_replicate) (by omega)
  rw [hw, List.nil_append, Nat.sub_zero, ← List.range_eq_range'] at hloop
  simp only [populateStore, hw, hloop]
  by_cases hnil : data_vector = []
  · subst hnil
    rw [chunkCount_nil hmax]
    simp [storedPacket, segmentPacket, segmentCount, chunk, List.range_succ]
  · have hcount := chunkCount_pos hmax hnil
    have hne : (List.range (chunkCount w.options.maxSegmentSize data_vector)).map
        (segmentPacket w.options.maxSegmentSize w.versionedPrefix data_vector) ≠ [] := by
      simp only [ne_eq, List.map_eq_nil_iff, List.range_eq_nil]
      omega
    simp only [if_neg hne, segmentCount, if_neg hnil, List.map_map, List.length_map,
      List.length_range]
    refine List.map_congr_left fun k _ => ?_
    rw [Function.comp_apply, storedPacket, segmentCount, if_neg hnil]

/-- **The packets of a picture, one after another, are the picture.** -/
theorem flatMap_storedPacket {max : ℕ} (hmax : 0 < max) (versioned : Name) (data_vector : Str) :
    ((List.range (segmentCount max data_vector)).flatMap fun k =>
      (storedPacket max versioned data_vector k).content) = data_vector := by
  unfold segmentCount
  split
  · rename_i h
    rw [h]
    simp [storedPacket, segmentPacket, chunk]
  · exact flatMap_chunk hmax data_vector

/-! ## What the handler comes to -/

/-- A store with one packet signed where it is holds the packets of before, signed or not. -/
theorem of_getElem?_signed {store : List Data} {k j : ℕ} {d : Data}
    (h : (store.modify k Data.sign)[j]? = some d) :
    ∃ e, store[j]? = some e ∧ (d = e.sign ∨ d = e) := by
  rw [List.getElem?_modify, Option.map_eq_map, Option.map_eq_some_iff] at h
  obtain ⟨e, he, rfl⟩ := h
  refine ⟨e, he, ?_⟩
  split
  · exact Or.inl rfl
  · exact Or.inr rfl

section

variable {lib : Externals} {w w' : Worker} {interest : Interest} {labels : List Str} {frame : Mat}
  {version : ℕ} {packets : List Packet}

theorem findPacket_lt {first : Data} {k : ℕ} (hne : w.store ≠ [])
    (h : w.findPacket lib interest first = some k) : k < w.store.length := by
  have hpos : 0 < w.store.length := List.length_pos_iff.2 hne
  have hfirst : (if lib.matchesData interest first then some 0 else none) = some k →
      k < w.store.length := by
    intro h
    split at h
    · rw [← Option.some.inj h]
      exact hpos
    · exact absurd h nofun
  unfold findPacket at h
  split at h
  · split at h
    · split at h
      · rw [← Option.some.inj h]
        assumption
      · exact absurd h nofun
    · exact hfirst h
  · exact hfirst h

/-- **An answer in cloud mode is a packet of the store, signed where it is**; a Nack is
never sent. -/
theorem processSegmentInterest_eq_ok
    (h : w.processSegmentInterest lib interest = .ok (w', packets)) :
    ∃ first k data, w.store.head? = some first ∧ w.findPacket lib interest first = some k ∧
      w.store[k]? = some data ∧ w' = { w with store := w.store.modify k Data.sign } ∧
      packets = [.data data.sign] := by
  unfold processSegmentInterest at h
  split at h
  · exact absurd h nofun
  · rename_i first rest hstore
    have hne : w.store ≠ [] := by rw [hstore]; exact List.cons_ne_nil _ _
    cases hfind : w.findPacket lib interest first with
    | none =>
      rw [hfind] at h
      exact absurd h nofun
    | some k =>
      have hlt := findPacket_lt hne hfind
      have hget : w.store[k]? = some w.store[k] := List.getElem?_eq_getElem hlt
      simp only [hfind, signPacket, ok_bind, Option.bind_some, List.getElem?_modify_eq, hget] at h
      obtain ⟨rfl, rfl⟩ := Prod.mk.inj (Except.ok.inj h)
      exact ⟨first, k, w.store[k], by rw [hstore]; rfl, hfind, hget, rfl, rfl⟩

/-- What the handler does when it returns: nothing, a reply in edge mode, or an answer in
cloud mode. -/
theorem onInterest_cases
    (h : w.onInterest lib interest labels frame version = .ok (w', packets)) :
    (w' = w ∧ packets = []) ∨
      (modeOf interest = txt "e" ∧ w' = w ∧ ∃ data : Data, packets = [.data data.sign]) ∨
      (modeOf interest = txt "c" ∧ w.answerCloud lib interest frame version = .ok (w', packets)) := by
  unfold onInterest at h
  obtain ⟨target_name, -, h⟩ := bind_eq_ok.1 h
  obtain ⟨session_id, -, h⟩ := bind_eq_ok.1 h
  split at h
  · obtain ⟨rfl, rfl⟩ := Prod.mk.inj (Except.ok.inj h)
    exact Or.inl ⟨rfl, rfl⟩
  · split at h
    · rename_i hmode
      obtain ⟨target, -, h⟩ := bind_eq_ok.1 h
      obtain ⟨rfl, rfl⟩ := Prod.mk.inj (Except.ok.inj h)
      exact Or.inr (Or.inl ⟨hmode, rfl, _, rfl⟩)
    · split at h
      · rename_i hmode
        exact Or.inr (Or.inr ⟨hmode, h⟩)
      · obtain ⟨rfl, rfl⟩ := Prod.mk.inj (Except.ok.inj h)
        exact Or.inl ⟨rfl, rfl⟩

/-- The Data packet in edge mode: the reply under the name of the Interest. -/
def edgeData (lib : Externals) (w : Worker) (interest : Interest) (target session_id : Str)
    (labels : List Str) : Data :=
  (Data.setContent { name := interest.name }
    (encode lib (w.reply target session_id labels))).sign

/-- **In edge mode the worker replies to the first target of the name.** -/
theorem onInterest_edge (hmode : modeOf interest = txt "e") {target session_id : Str}
    {targets : List Str}
    (htargets : extractTargets (decodeURI (lib.toUri interest.name)) = .ok (target :: targets))
    (hid : extractSessionID (decodeURI (lib.toUri interest.name)) = .ok session_id) :
    w.onInterest lib interest labels frame version =
      .ok (w, [.data (w.edgeData lib interest target session_id labels)]) := by
  unfold onInterest
  rw [htargets, hid, ok_bind, ok_bind, if_neg (by simp), if_pos hmode]
  rfl

/-- The two kinds of answer in cloud mode. -/
theorem answerCloud_cases (h : w.answerCloud lib interest frame version = .ok (w', packets)) :
    (∃ k, interest.name.getLast? = some (.segment k) ∧
        w.processSegmentInterest lib interest = .ok (w', packets)) ∨
      ∃ last raw, interest.name.getLast? = some last ∧ last.isSegment = false ∧
        lib.reshape frame 1 1 = some raw ∧
        (w.capture interest.name version raw.data).processSegmentInterest lib interest =
          .ok (w', packets) := by
  unfold answerCloud at h
  obtain ⟨last, hlast, h⟩ := bind_eq_ok.1 h
  have hget : interest.name.getLast? = some last := by
    unfold back at hlast
    split at hlast
    · rename_i hsome
      rw [hsome, Except.ok.inj hlast]
    · exact absurd hlast nofun
  split at h
  · rename_i hsegment
    cases last with
    | segment k => exact Or.inl ⟨k, hget, h⟩
    | _ => exact absurd hsegment nofun
  · rename_i hsegment
    split at h
    · exact absurd h nofun
    · rename_i raw hraw
      exact Or.inr ⟨last, raw, hget, by simpa using hsegment, hraw, h⟩

end

end Worker

end Crowdsensing
