import Crowdsensing.System.Loop
import Crowdsensing.Worker.Worker
import Mathlib.Algebra.Order.Floor.Div

/-!
# Segments of a picture

What `populateStore` leaves in an empty store, for any bytes and any segment size.

* `Worker.Segmented` — the store is the bytes, cut into numbered packets of one length.
* `Worker.populateRound_ends` — **the loop ends**, by the condition it tests.
* `Worker.populateStore_segmented` — **segmentation is lossless and regular.**
-/

namespace Crowdsensing

open Text

namespace Worker

/-- The packets are the bytes, cut into segments of a length under a prefix. -/
structure Segmented (size : ℕ) (versioned : Name) (data_vector : Str) (store : List Data) :
    Prop where
  /-- As many packets as it takes, and at least one. -/
  count : store.length = max 1 (data_vector.length ⌈/⌉ size)
  /-- Their contents, one after another, are the bytes. -/
  lossless : store.flatMap Data.content = data_vector
  /-- Every packet but the last is full. -/
  full : ∀ k d, store[k]? = some d → k + 1 < store.length → d.content.length = size
  /-- The last one holds something, if there is anything to hold. -/
  last : ∀ d, store.getLast? = some d → data_vector ≠ [] →
    1 ≤ d.content.length ∧ d.content.length ≤ size
  /-- The one packet for no bytes is empty. -/
  empty : ∀ d, store.getLast? = some d → data_vector = [] → d.content = []
  /-- The packets are numbered. -/
  name : ∀ k d, store[k]? = some d → d.name = versioned ++ [.segment k]
  /-- Every packet says which is the last. -/
  finalBlock : ∀ d ∈ store, d.finalBlock = some (.segment (store.length - 1))

/-! ## The loop ends -/

/-- **The loop ends**: each round lowers what is left, and when nothing is left the store
holds one packet for each chunk. -/
theorem populateRound_ends {max : ℕ} (hmax : 0 < max) (versioned : Name) (data_vector : Str) :
    ∃ i buffer, Loops.Ends (populateRound max versioned data_vector)
      (0, List.replicate max 0, [])
      (i, buffer, (List.range (chunkCount max data_vector)).map
        (segmentPacket max versioned data_vector)) := by
  have hlower : ∀ s s', populateRound max versioned data_vector s = some s' →
      data_vector.length - s'.1 < data_vector.length - s.1 := by
    rintro ⟨i, buffer, store⟩ s' hs
    rw [populateRound] at hs
    split at hs
    · rename_i hlt
      have hle : i ≤ max * i := Nat.le_mul_of_pos_left i hmax
      rw [← Option.some.inj hs]
      simp only
      omega
    · exact absurd hs (by simp)
  obtain ⟨⟨i, buffer, store⟩, hends⟩ := Loops.exists_ends hlower (0, List.replicate max 0, [])
  -- the invariant: so many rounds, so many packets
  have hinv := hends.invariant (P := fun s =>
      s.1 ≤ chunkCount max data_vector ∧
        (s.2.1.length = max ∨ data_vector.length ≤ max * s.1) ∧
        s.2.2 = (List.range s.1).map (segmentPacket max versioned data_vector)) ?_ ?_
  · obtain ⟨⟨hle, -, hstore⟩, hnone⟩ := hinv
    simp only at hle hstore
    have hge : ¬ i < chunkCount max data_vector := by
      intro hlt
      rw [populateRound, if_pos ((lt_chunkCount hmax _).1 hlt)] at hnone
      exact absurd hnone (by simp)
    rw [hstore, Nat.le_antisymm hle (Nat.le_of_not_lt hge)] at hends
    exact ⟨_, buffer, hends⟩
  · rintro ⟨i, buffer, store⟩ s' ⟨hle, hbuffer, hstore⟩ hs
    simp only at hle hbuffer hstore
    by_cases hlt : max * i < data_vector.length
    · have hlength : store.length = i := by simp [hstore]
      obtain ⟨hround, hnext⟩ := populateRound_eq versioned hlength
        (hbuffer.resolve_right (by omega)) hmax hlt
      rw [hround] at hs
      rw [← Option.some.inj hs]
      refine ⟨(lt_chunkCount hmax _).2 hlt, hnext, ?_⟩
      simp [hstore, List.range_succ]
    · rw [populateRound, if_neg hlt] at hs
      exact absurd hs (by simp)
  · exact ⟨Nat.zero_le _, Or.inl List.length_replicate, rfl⟩

/-! ## What the loop leaves -/

theorem segmentCount_eq {size : ℕ} (hsize : 0 < size) (data_vector : Str) :
    segmentCount size data_vector = max 1 (data_vector.length ⌈/⌉ size) := by
  by_cases hnil : data_vector = []
  · simp [segmentCount, hnil]
  · have hpos : 0 < chunkCount size data_vector := chunkCount_pos hsize hnil
    rw [segmentCount, if_neg hnil]
    exact (Nat.max_eq_right hpos).symm

/-- The packets of `populateStore` are the bytes, cut into segments. -/
theorem segmented_storedPacket {size : ℕ} (hsize : 0 < size) (versioned : Name)
    (data_vector : Str) :
    Segmented size versioned data_vector ((List.range (segmentCount size data_vector)).map
      (storedPacket size versioned data_vector)) := by
  have hlast : ∀ d, ((List.range (segmentCount size data_vector)).map
      (storedPacket size versioned data_vector)).getLast? = some d →
        d = storedPacket size versioned data_vector (segmentCount size data_vector - 1) := by
    intro d hd
    rw [List.getLast?_eq_getElem?] at hd
    simpa using (getElem?_map_range hd).2
  have hnonempty : data_vector ≠ [] →
      segmentCount size data_vector = chunkCount size data_vector := fun h => if_neg h
  refine ⟨?_, ?_, ?_, ?_, ?_, ?_, ?_⟩
  · simpa using segmentCount_eq hsize data_vector
  · rw [List.flatMap_map]
    exact flatMap_storedPacket hsize versioned data_vector
  · intro k d hd hk
    obtain ⟨-, rfl⟩ := getElem?_map_range hd
    rw [List.length_map, List.length_range] at hk
    have hne : data_vector ≠ [] := by
      rintro rfl
      simp [segmentCount] at hk
    rw [hnonempty hne, lt_chunkCount hsize] at hk
    exact length_chunk (Nat.le_of_lt hk)
  · intro d hd hne
    obtain rfl := hlast d hd
    have hpos := chunkCount_pos hsize hne
    have hlt := (lt_chunkCount hsize data_vector).1 (Nat.sub_one_lt_of_lt hpos)
    have hlength : (storedPacket size versioned data_vector
        (segmentCount size data_vector - 1)).content.length =
          min size (data_vector.length - size * (chunkCount size data_vector - 1)) := by
      rw [hnonempty hne]
      exact List.length_take.trans (by rw [List.length_drop])
    omega
  · intro d hd hnil
    obtain rfl := hlast d hd
    simp [storedPacket, segmentPacket, chunk, hnil]
  · intro k d hd
    obtain ⟨-, rfl⟩ := getElem?_map_range hd
    rfl
  · intro d hd
    obtain ⟨k, -, rfl⟩ := List.mem_map.1 hd
    rw [List.length_map, List.length_range]
    rfl

/-- **Segmentation is lossless and regular**, for any bytes and any segment size: the loop
ends, more rounds than it takes change nothing, and the store holds the bytes, cut into
numbered packets of one length. -/
theorem populateStore_segmented (w : Worker) (hw : w.store = []) (data_vector : Str) :
    (∃ i buffer store, Loops.Ends
        (populateRound w.options.maxSegmentSize w.versionedPrefix data_vector)
        (0, List.replicate w.options.maxSegmentSize 0, w.store) (i, buffer, store) ∧
      ∀ rounds, data_vector.length < rounds →
        populateLoop w.options.maxSegmentSize w.versionedPrefix data_vector rounds 0
          (List.replicate w.options.maxSegmentSize 0) w.store = store) ∧
      Segmented w.options.maxSegmentSize w.versionedPrefix data_vector
        (w.populateStore data_vector).store := by
  have hmax := w.options.maxSegmentSize_pos
  constructor
  · obtain ⟨i, buffer, hends⟩ := populateRound_ends hmax w.versionedPrefix data_vector
    rw [hw]
    refine ⟨i, buffer, _, hends, fun rounds hrounds => ?_⟩
    have hle := chunkCount_le_length hmax data_vector
    have hloop := populateLoop_eq hmax w.versionedPrefix data_vector rounds 0
      (List.replicate w.options.maxSegmentSize 0) [] rfl (Or.inl List.length_replicate) (by omega)
    rw [hloop, List.range_eq_range', List.nil_append, Nat.sub_zero]
  · rw [populateStore_store w hw]
    exact segmented_storedPacket hmax w.versionedPrefix data_vector

/-- Five bytes in segments of two: three packets, the last one with one byte. -/
theorem populateStore_segmented_five :
    Segmented 2 [] [1, 2, 3, 4, 5] [
      { name := [.segment 0], content := [1, 2], finalBlock := some (.segment 2) },
      { name := [.segment 1], content := [3, 4], finalBlock := some (.segment 2) },
      { name := [.segment 2], content := [5], finalBlock := some (.segment 2) }] := by
  have h := (populateStore_segmented (start [] { maxSegmentSize := 2 }) rfl [1, 2, 3, 4, 5]).2
  have hstore : ((start [] { maxSegmentSize := 2 }).populateStore [1, 2, 3, 4, 5]).store = [
      { name := [.segment 0], content := [1, 2], finalBlock := some (.segment 2) },
      { name := [.segment 1], content := [3, 4], finalBlock := some (.segment 2) },
      { name := [.segment 2], content := [5], finalBlock := some (.segment 2) }] := by
    decide
  rwa [hstore] at h

end Worker

end Crowdsensing
