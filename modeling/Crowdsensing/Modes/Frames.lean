import Crowdsensing.Edge.Producer
import Crowdsensing.Reference
import Crowdsensing.Worker.Worker

/-!
# A picture on its way to the edge

In cloud mode the worker flattens its picture to a row of bytes and cuts that into
segments; the edge joins the segments and shapes the bytes again.  No geometry travels
with the bytes: the edge takes every picture to have 480 rows and three channels.

* `Executor.rebuild` — the picture the edge's detector is given.
* `Survives` — the edge rebuilds the picture the worker took.
* `survives_iff` — **exactly the pictures of 480 rows and three channels survive**, if they have
  pixels.
* `not_survives` — the picture of the emulated detector is not rebuilt, and another one
  comes out in another shape.
-/

namespace Crowdsensing

open Text

/-- The picture can be written in one row: it has pixels, or one row of none. -/
def Mat.Flattens (m : Mat) : Prop := m.data ≠ [] ∨ m.rows = 1

instance (m : Mat) : Decidable m.Flattens := by
  unfold Mat.Flattens
  infer_instance

/-- The picture `afterFetchComplete` gives the detector: the bytes of the segments, with
480 rows and three channels. -/
def Executor.rebuild (lib : Externals) (data : Str) : Option Mat :=
  lib.reshape (Mat.ofBytes data) 3 480

/-- What the executor does with the picture. -/
theorem Executor.afterFetchComplete_eq (lib : Externals) (detect : Mat → List Str)
    (e : Executor) (data : Str) :
    e.afterFetchComplete lib detect data =
      match Executor.rebuild lib data with
      | none => .error .cvException
      | some raw => .ok (encode lib (e.reply (detect raw))) := rfl

/-- The picture the worker flattens, stores and serves is the one the edge rebuilds from
the segments in order. -/
def Survives (lib : Externals) (w : Worker) (name : Name) (version : ℕ) (frame : Mat) : Prop :=
  ∃ raw, lib.reshape frame 1 1 = some raw ∧
    Executor.rebuild lib ((w.capture name version raw.data).store.flatMap Data.content) =
      some frame

section

variable {lib : Externals}

/-- The segments of a captured picture, one after another, are its bytes. -/
theorem flatMap_capture (w : Worker) (name : Name) (version : ℕ) (data_vector : Str) :
    (w.capture name version data_vector).store.flatMap Data.content = data_vector := by
  unfold Worker.capture
  rw [Worker.populateStore_store _ rfl, List.flatMap_map]
  exact Worker.flatMap_storedPacket (Worker.options _).maxSegmentSize_pos _ _

/-- **Which pictures can be flattened.** -/
theorem flattens_iff (hlib : lib.ReshapeDocumented) (frame : Mat) :
    (lib.reshape frame 1 1).isSome = true ↔ frame.Flattens := by
  rw [Mat.Flattens]
  by_cases hempty : frame.data = []
  · rw [hlib.reshape_empty frame 1 1 hempty Nat.one_pos Nat.one_pos]
    exact ⟨Or.inr, fun h => h.resolve_left fun hne => hne hempty⟩
  · rw [hlib.reshape_isSome frame 1 1 hempty Nat.one_pos Nat.one_pos]
    exact ⟨fun _ => Or.inl hempty, fun _ => one_dvd _⟩

/-- Flattening a picture keeps its bytes. -/
theorem reshape_flat (hlib : lib.ReshapeDocumented) {frame : Mat} (h : frame.Flattens) :
    ∃ raw, lib.reshape frame 1 1 = some raw ∧ raw.data = frame.data := by
  obtain ⟨raw, hraw⟩ := Option.isSome_iff_exists.1 ((flattens_iff hlib frame).2 h)
  exact ⟨raw, hraw, (hlib.reshape_eq_some _ _ _ _ hraw).1⟩

/-- Pictures of the same bytes, rows and channels are the same. -/
theorem Mat.eq_of_data {m m' : Mat} (hdata : m.data = m'.data) (hrows : m.rows = m'.rows)
    (hchannels : m.channels = m'.channels) (hpos : 0 < m.rows * m.channels) : m = m' := by
  have hlength : m.rows * m.cols * m.channels = m'.rows * m'.cols * m'.channels := by
    rw [← m.data_length, ← m'.data_length, hdata]
  have hcols : m.cols = m'.cols := by
    rw [← hrows, ← hchannels, Nat.mul_right_comm m.rows m.cols,
      Nat.mul_right_comm m.rows m'.cols] at hlength
    exact Nat.eq_of_mul_eq_mul_left hpos hlength
  cases m
  cases m'
  simp_all

/-- The edge rebuilds a picture of the shape it assumes from its bytes. -/
theorem Executor.rebuild_of_shape (hlib : lib.ReshapeDocumented) {frame : Mat}
    (hne : frame.data ≠ []) (hrows : frame.rows = 480) (hchannels : frame.channels = 3) :
    Executor.rebuild lib frame.data = some frame := by
  have hsome : (lib.reshape (Mat.ofBytes frame.data) 3 480).isSome = true := by
    rw [hlib.reshape_isSome (Mat.ofBytes frame.data) 3 480 hne (by decide) (by decide)]
    refine ⟨frame.cols, ?_⟩
    show frame.data.length = _
    rw [frame.data_length, hrows, hchannels, Nat.mul_right_comm]
  obtain ⟨rebuilt, hrebuilt⟩ := Option.isSome_iff_exists.1 hsome
  obtain ⟨hdata, hchannels', hrows'⟩ := hlib.reshape_eq_some _ _ _ _ hrebuilt
  have hsame : rebuilt = frame := Mat.eq_of_data hdata (hrows'.trans hrows.symm)
    (hchannels'.trans hchannels.symm) (by rw [hrows', hchannels']; decide)
  rw [Executor.rebuild, hrebuilt, hsame]

/-- Nothing is rebuilt from no bytes. -/
theorem Executor.rebuild_nil (hlib : lib.ReshapeDocumented) : Executor.rebuild lib [] = none := by
  have hempty := hlib.reshape_empty (Mat.ofBytes []) 3 480 rfl (by decide) (by decide)
  rw [Executor.rebuild, ← Option.not_isSome_iff_eq_none, hempty]
  exact fun hrows => absurd hrows (by decide)

/-- **Exactly the pictures of 480 rows and three channels survive**, whatever their columns
and pixels. -/
theorem survives_iff (hlib : lib.ReshapeDocumented) (w : Worker) (name : Name) (version : ℕ)
    (frame : Mat) : Survives lib w name version frame ↔
      frame.data ≠ [] ∧ frame.rows = 480 ∧ frame.channels = 3 := by
  unfold Survives
  simp only [flatMap_capture]
  constructor
  · rintro ⟨raw, hraw, hrebuilt⟩
    obtain ⟨-, hchannels, hrows⟩ := hlib.reshape_eq_some _ _ _ _ hrebuilt
    refine ⟨fun hnil => ?_, hrows, hchannels⟩
    rw [(hlib.reshape_eq_some _ _ _ _ hraw).1, hnil, Executor.rebuild_nil hlib] at hrebuilt
    exact absurd hrebuilt.symm (Option.some_ne_none _)
  · rintro ⟨hne, hrows, hchannels⟩
    obtain ⟨raw, hraw, hdata⟩ := reshape_flat hlib (Or.inl hne)
    refine ⟨raw, hraw, ?_⟩
    rw [hdata, Executor.rebuild_of_shape hlib hne hrows hchannels]

end

/-! ## Some pictures -/

/-- A black picture. -/
def blackFrame (rows cols channels : ℕ) : Mat where
  rows := rows
  cols := cols
  channels := channels
  data := List.replicate (rows * cols * channels) 0
  data_length := List.length_replicate

theorem blackFrame_data_ne_nil {rows cols channels : ℕ} (h : 0 < rows * cols * channels) :
    (blackFrame rows cols channels).data ≠ [] := by
  refine List.ne_nil_of_length_pos ?_
  rwa [(blackFrame rows cols channels).data_length]

/-- `EmulateObjectDetection::returnMat`. -/
def EmulateObjectDetection.returnMat : Mat := blackFrame 5 5 1

/-- A picture of a camera survives. -/
theorem survives_camera :
    Survives reference (Worker.start (txt "/3") {}) [.generic (txt "3")] 1
      (blackFrame 480 640 3) :=
  (survives_iff reference_reshape _ _ _ _).2 ⟨blackFrame_data_ne_nil (by decide), rfl, rfl⟩

/-- **The picture of the emulated detector is not rebuilt**: the edge fails on it.  A picture
of 720 rows and two columns is given another shape without an error. -/
theorem not_survives :
    (¬ Survives reference (Worker.start (txt "/3") {}) [.generic (txt "3")] 1
        EmulateObjectDetection.returnMat ∧
      Executor.rebuild reference EmulateObjectDetection.returnMat.data = none) ∧
    (¬ Survives reference (Worker.start (txt "/3") {}) [.generic (txt "3")] 1
        (blackFrame 720 2 3) ∧
      (Executor.rebuild reference (blackFrame 720 2 3).data).isSome = true) := by
  have hshape : ∀ frame : Mat, frame.rows ≠ 480 →
      ¬ Survives reference (Worker.start (txt "/3") {}) [.generic (txt "3")] 1 frame := by
    rintro frame hrows ⟨_, -, hrebuilt⟩
    exact hrows (reference_reshape.reshape_eq_some _ _ _ _ hrebuilt).2.2
  refine ⟨⟨hshape _ (by decide), by decide⟩, hshape _ (by decide), ?_⟩
  have hlength : (blackFrame 720 2 3).data.length = 720 * 2 * 3 := List.length_replicate
  have hne : (blackFrame 720 2 3).data ≠ [] := blackFrame_data_ne_nil (by decide)
  have hiff := reference_reshape.reshape_isSome (Mat.ofBytes (blackFrame 720 2 3).data) 3 480
    hne (by decide) (by decide)
  refine hiff.2 ?_
  show 480 * 3 ∣ (blackFrame 720 2 3).data.length
  rw [hlength]
  decide

end Crowdsensing
