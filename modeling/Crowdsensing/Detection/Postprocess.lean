import Crowdsensing.Detection.Greedy
import Crowdsensing.Worker.Worker

/-!
# From the network to the labels

`DnnObjectDetection::postprocess`, the same in `worker/src/objectdetection.cpp` and in
`edge/src/objectdetection.cpp`: the rows of the network's output whose best score is above a
threshold become boxes, `cv::dnn::NMSBoxes` eliminates some of them, and the labels of the
rest are the result.  The numbers of the network are exact here.

* `DnnObjectDetection.postprocess` — the function.
* `NmsDocumented` — what `NMSBoxes` does, for any order of equal confidences.
* `DnnObjectDetection.postprocess_labels` — **which labels come out**: those of the rows that
  have a defended box, and only labels that some row has.  All labels come out exactly if each
  has such a box, for instance where no two boxes of different labels overlap too much.
* `DnnObjectDetection.reply_isFound` — so the worker finds a target exactly if the target has
  such a box.
-/

namespace Crowdsensing

open Text Greedy

/-! ## Boxes -/

/-- `cv::Rect`. -/
structure Rect where
  x : ℤ
  y : ℤ
  width : ℤ
  height : ℤ
  deriving DecidableEq, Repr

namespace Rect

def area (a : Rect) : ℤ := a.width * a.height

/-- The area of the intersection, which is empty where the boxes do not meet. -/
def interArea (a b : Rect) : ℤ :=
  let width := min (a.x + a.width) (b.x + b.width) - max a.x b.x
  let height := min (a.y + a.height) (b.y + b.height) - max a.y b.y
  if width ≤ 0 ∨ height ≤ 0 then 0 else width * height

/-- The intersection over the union.  OpenCV takes two empty boxes for the same. -/
def iou (a b : Rect) : ℚ :=
  if a.area + b.area ≤ 0 then 1
  else a.interArea b / (a.area + b.area - a.interArea b)

end Rect

/-- Two boxes of a list overlap by more than the threshold. -/
def overlaps (boxes : List Rect) (threshold : ℚ) (i j : ℕ) : Bool :=
  match boxes[i]?, boxes[j]? with
  | some a, some b => decide (threshold < a.iou b)
  | _, _ => false

/-- The documented behaviour of `cv::dnn::NMSBoxes`: of the boxes whose confidence is above the
first threshold it keeps, in order of falling confidence, those that overlap none kept before
by more than the second.  The order of boxes with equal confidence is left open. -/
structure NmsDocumented (nmsBoxes : List Rect → List ℚ → ℚ → ℚ → List ℕ)
    (order : List ℚ → List ℕ) : Prop where
  /-- Every box is looked at, -/
  perm : ∀ confidences, (order confidences).Perm (List.range confidences.length)
  /-- those with more confidence first. -/
  falling : ∀ confidences, (order confidences).Pairwise fun i j =>
    confidences.getD j 0 ≤ confidences.getD i 0
  kept : ∀ boxes confidences scoreThreshold threshold, boxes.length = confidences.length →
    nmsBoxes boxes confidences scoreThreshold threshold = survivors (overlaps boxes threshold)
      ((order confidences).filter fun i => scoreThreshold < confidences.getD i 0)

/-! ## The network's output -/

/-- A matrix the network returns: each row has four numbers for a box, one for its objectness
and at least one class score. -/
structure Output where
  cols : ℕ
  rows : List (List ℚ)
  row_length : ∀ row ∈ rows, row.length = cols
  five_lt_cols : 5 < cols

/-- `cv::minMaxLoc`, the greatest score and where it stands first: `none` if there is no score. -/
def minMaxLoc : List ℚ → Option (ℚ × ℕ)
  | [] => none
  | score :: scores =>
    match minMaxLoc scores with
    | none => some (score, 0)
    | some (confidence, classId) =>
      if confidence ≤ score then some (score, 0) else some (confidence, classId + 1)

/-- The conversion of an exact number to `int`: what stands behind the point is cut off. -/
def truncate (q : ℚ) : ℤ := q.num.tdiv q.den

/-- What the loop over the rows pushes for one of them. -/
structure Detection where
  classId : ℕ
  confidence : ℚ
  box : Rect
  deriving DecidableEq, Repr

/-- `DnnObjectDetection`, with `m_classes` and its two thresholds. -/
structure DnnObjectDetection where
  classes : List Str
  confThreshold : ℚ := 1 / 2
  nmsThreshold : ℚ := 2 / 5

namespace DnnObjectDetection

/-- The box of a row on a frame.  The products are exact; the source computes them as `float`
before it truncates them. -/
def boxOf (frame : Mat) (data : List ℚ) : Rect :=
  let centerX := truncate (data.getD 0 0 * frame.cols)
  let centerY := truncate (data.getD 1 0 * frame.rows)
  let width := truncate (data.getD 2 0 * frame.cols)
  let height := truncate (data.getD 3 0 * frame.rows)
  { x := centerX - width.tdiv 2
    y := centerY - height.tdiv 2
    width := width
    height := height }

/-- One row: it is pushed if its best score is above the threshold. -/
def detectionOf (d : DnnObjectDetection) (frame : Mat) (data : List ℚ) : Option Detection :=
  match minMaxLoc (data.drop 5) with
  | none => none
  | some (confidence, classId) =>
    if d.confThreshold < confidence then
      some { classId := classId, confidence := confidence, box := boxOf frame data }
    else none

/-- The two loops over the output: `classIds`, `confidences` and `boxes` side by side. -/
def detections (d : DnnObjectDetection) (frame : Mat) (outs : List Output) : List Detection :=
  outs.flatMap fun out => out.rows.filterMap (d.detectionOf frame)

/-- `m_classes[classIds[idx]]`: `none` for an index outside one of the vectors. -/
def labelOf (d : DnnObjectDetection) (detections : List Detection) (idx : ℕ) : Option Str :=
  detections[idx]?.bind fun detection => d.classes[detection.classId]?

/-- `DnnObjectDetection::postprocess`, for a given `NMSBoxes`: labels are appended to `result`.
`drawPred` only shows the box. -/
def postprocess (d : DnnObjectDetection) (nmsBoxes : List Rect → List ℚ → ℚ → ℚ → List ℕ)
    (frame : Mat) (outs : List Output) (result : List Str) : Option (List Str) :=
  let detections := d.detections frame outs
  let indices := nmsBoxes (detections.map Detection.box) (detections.map Detection.confidence)
    d.confThreshold d.nmsThreshold
  indices.foldlM (fun result idx => (d.labelOf detections idx).map fun label => result ++ [label])
    result

end DnnObjectDetection

/-- The detector of the worker, with the classes of its file. -/
def Worker.detector (classes : List Str) : DnnObjectDetection where
  classes := classes
  confThreshold := 1 / 2
  nmsThreshold := 2 / 5

/-- The detector of the edge. -/
def Producer.detector (classes : List Str) : DnnObjectDetection where
  classes := classes
  confThreshold := 1 / 2
  nmsThreshold := 2 / 5

/-! ## The best class of a row -/

/-- The class is the first of those with the greatest score. -/
structure IsBestClass (scores : List ℚ) (c : ℕ) (v : ℚ) : Prop where
  score : scores[c]? = some v
  greatest : ∀ w ∈ scores, w ≤ v
  first : ∀ i < c, ∀ w, scores[i]? = some w → w < v

theorem IsBestClass.unique {scores : List ℚ} {c c' : ℕ} {v v' : ℚ} (h : IsBestClass scores c v)
    (h' : IsBestClass scores c' v') : v = v' ∧ c = c' := by
  have hle := h'.greatest v (List.mem_of_getElem? h.score)
  have hge := h.greatest v' (List.mem_of_getElem? h'.score)
  refine ⟨le_antisymm hle hge, ?_⟩
  rcases lt_trichotomy c c' with hlt | heq | hgt
  · exact absurd (h'.first c hlt v h.score) (not_lt_of_ge hge)
  · exact heq
  · exact absurd (h.first c' hgt v' h'.score) (not_lt_of_ge hle)

/-- `minMaxLoc` finds a best class in every row with a score. -/
theorem exists_minMaxLoc {scores : List ℚ} (h : scores ≠ []) :
    ∃ v c, minMaxLoc scores = some (v, c) ∧ IsBestClass scores c v := by
  induction scores with
  | nil => exact absurd rfl h
  | cons score scores ih =>
    by_cases hnil : scores = []
    · subst hnil
      exact ⟨score, 0, rfl, rfl, by simp, fun i hi => absurd hi (Nat.not_lt_zero i)⟩
    · obtain ⟨v, c, hbest, hspec⟩ := ih hnil
      by_cases hle : v ≤ score
      · refine ⟨score, 0, by simp [minMaxLoc, hbest, hle], rfl, ?_, ?_⟩
        · intro w hw
          rcases List.mem_cons.1 hw with rfl | hw
          · exact le_refl w
          · exact (hspec.greatest w hw).trans hle
        · exact fun i hi => absurd hi (Nat.not_lt_zero i)
      · refine ⟨v, c + 1, by simp [minMaxLoc, hbest, hle], hspec.score, ?_, ?_⟩
        · intro w hw
          rcases List.mem_cons.1 hw with rfl | hw
          · exact (lt_of_not_ge hle).le
          · exact hspec.greatest w hw
        · intro i hi w hw
          cases i with
          | zero =>
            obtain rfl : score = w := Option.some.inj hw
            exact lt_of_not_ge hle
          | succ i => exact hspec.first i (Nat.lt_of_succ_lt_succ hi) w hw

theorem minMaxLoc_eq_some {scores : List ℚ} {c : ℕ} {v : ℚ} :
    minMaxLoc scores = some (v, c) ↔ IsBestClass scores c v := by
  by_cases hnil : scores = []
  · subst hnil
    exact iff_of_false (by simp [minMaxLoc]) fun h => by simpa using h.score
  · obtain ⟨v', c', hbest, hspec⟩ := exists_minMaxLoc hnil
    rw [hbest, Option.some.injEq, Prod.mk.injEq]
    constructor
    · rintro ⟨rfl, rfl⟩
      exact hspec
    · exact fun h => hspec.unique h

/-! ## What the loops push -/

namespace DnnObjectDetection

/-- Some row has a best class with this label and a score above the threshold. -/
def Detected (d : DnnObjectDetection) (outs : List Output) (label : Str) : Prop :=
  ∃ out ∈ outs, ∃ data ∈ out.rows, ∃ c v, IsBestClass (data.drop 5) c v ∧
    d.confThreshold < v ∧ d.classes[c]? = some label

section

variable {d : DnnObjectDetection} {frame : Mat} {outs : List Output}

theorem detectionOf_eq_some {data : List ℚ} {x : Detection} :
    d.detectionOf frame data = some x ↔ IsBestClass (data.drop 5) x.classId x.confidence ∧
      d.confThreshold < x.confidence ∧ x.box = boxOf frame data := by
  rw [← minMaxLoc_eq_some]
  unfold detectionOf
  cases minMaxLoc (data.drop 5) with
  | none => simp
  | some best =>
    obtain ⟨v, c⟩ := best
    obtain ⟨classId, confidence, box⟩ := x
    by_cases hv : d.confThreshold < v
    · simp only [if_pos hv, Option.some.injEq, Detection.mk.injEq, Prod.mk.injEq]
      constructor
      · rintro ⟨rfl, rfl, rfl⟩
        exact ⟨⟨rfl, rfl⟩, hv, rfl⟩
      · rintro ⟨⟨rfl, rfl⟩, -, rfl⟩
        exact ⟨rfl, rfl, rfl⟩
    · simp only [if_neg hv, Option.some.injEq, Prod.mk.injEq]
      refine iff_of_false (by simp) ?_
      rintro ⟨⟨rfl, rfl⟩, hlt, -⟩
      exact hv hlt

theorem mem_detections {x : Detection} : x ∈ d.detections frame outs ↔
    ∃ out ∈ outs, ∃ data ∈ out.rows, d.detectionOf frame data = some x := by
  simp [detections]

/-- What is pushed has the labels of the rows. -/
theorem detected_iff {label : Str} :
    d.Detected outs label ↔ ∃ i, d.labelOf (d.detections frame outs) i = some label := by
  constructor
  · rintro ⟨out, hout, data, hdata, c, v, hbest, hv, hlabel⟩
    have hmem : ⟨c, v, boxOf frame data⟩ ∈ d.detections frame outs :=
      mem_detections.2 ⟨out, hout, data, hdata, detectionOf_eq_some.2 ⟨hbest, hv, rfl⟩⟩
    obtain ⟨i, hi⟩ := List.mem_iff_getElem?.1 hmem
    refine ⟨i, ?_⟩
    rw [labelOf, hi]
    exact hlabel
  · rintro ⟨i, hi⟩
    obtain ⟨x, hx, hlabel⟩ := Option.bind_eq_some_iff.1 hi
    obtain ⟨out, hout, data, hdata, hdetection⟩ := mem_detections.1 (List.mem_of_getElem? hx)
    obtain ⟨hbest, hv, -⟩ := detectionOf_eq_some.1 hdetection
    exact ⟨out, hout, data, hdata, x.classId, x.confidence, hbest, hv, hlabel⟩

theorem lt_of_labelOf {label : Str} {ds : List Detection} {i : ℕ}
    (h : d.labelOf ds i = some label) : i < ds.length := by
  obtain ⟨x, hx, -⟩ := Option.bind_eq_some_iff.1 h
  exact (List.getElem?_eq_some_iff.1 hx).1

/-- With one class for each score, everything pushed has a label. -/
theorem exists_labelOf (hclasses : ∀ out ∈ outs, out.cols = 5 + d.classes.length) {i : ℕ}
    (hi : i < (d.detections frame outs).length) :
    ∃ label, d.labelOf (d.detections frame outs) i = some label := by
  have hget : (d.detections frame outs)[i]? = some (d.detections frame outs)[i] :=
    List.getElem?_eq_getElem hi
  obtain ⟨out, hout, data, hdata, hdetection⟩ := mem_detections.1 (List.mem_of_getElem? hget)
  have hbest := (detectionOf_eq_some.1 hdetection).1
  obtain ⟨hlt, -⟩ := List.getElem?_eq_some_iff.1 hbest.score
  rw [List.length_drop, out.row_length data hdata, hclasses out hout,
    Nat.add_sub_cancel_left] at hlt
  exact ⟨d.classes[(d.detections frame outs)[i].classId],
    Option.bind_eq_some_iff.2 ⟨_, hget, List.getElem?_eq_getElem hlt⟩⟩

/-- Everything pushed has a score above the threshold. -/
theorem lt_confidence {i : ℕ} (hi : i < (d.detections frame outs).length) :
    d.confThreshold < ((d.detections frame outs).map Detection.confidence).getD i 0 := by
  have hget : (d.detections frame outs)[i]? = some (d.detections frame outs)[i] :=
    List.getElem?_eq_getElem hi
  obtain ⟨out, hout, data, hdata, hdetection⟩ := mem_detections.1 (List.mem_of_getElem? hget)
  simpa [List.getD_eq_getElem?_getD, hget] using (detectionOf_eq_some.1 hdetection).2.1

end

/-! ## What is left -/

/-- Appending the labels of some indices. -/
theorem foldlM_labels {f : ℕ → Option Str} {indices : List ℕ}
    (h : ∀ i ∈ indices, ∃ label, f i = some label) (result : List Str) :
    ∃ labels, indices.foldlM (fun result i => (f i).map fun label => result ++ [label]) result =
        some (result ++ labels) ∧
      ∀ label, label ∈ labels ↔ ∃ i ∈ indices, f i = some label := by
  induction indices generalizing result with
  | nil => exact ⟨[], by simp, by simp⟩
  | cons i indices ih =>
    obtain ⟨label, hlabel⟩ := h i List.mem_cons_self
    obtain ⟨labels, hrun, hmem⟩ := ih (fun j hj => h j (List.mem_cons_of_mem _ hj))
      (result ++ [label])
    refine ⟨label :: labels, ?_, fun other => ?_⟩
    · rw [List.foldlM_cons, hlabel]
      simpa using hrun
    · simp [hmem, hlabel, eq_comm]

/-- The boxes in the order in which `NMSBoxes` looks at them. -/
def looked (d : DnnObjectDetection) (order : List ℚ → List ℕ) (frame : Mat)
    (outs : List Output) : List ℕ :=
  order ((d.detections frame outs).map Detection.confidence)

/-- `indices`: what `NMSBoxes` keeps of the boxes that are pushed. -/
def indices (d : DnnObjectDetection) (nmsBoxes : List Rect → List ℚ → ℚ → ℚ → List ℕ)
    (frame : Mat) (outs : List Output) : List ℕ :=
  nmsBoxes ((d.detections frame outs).map Detection.box)
    ((d.detections frame outs).map Detection.confidence) d.confThreshold d.nmsThreshold

/-- Two boxes overlap by more than the threshold. -/
def Clashes (d : DnnObjectDetection) (frame : Mat) (outs : List Output) (i j : ℕ) : Prop :=
  overlaps ((d.detections frame outs).map Detection.box) d.nmsThreshold i j = true

/-- The label has a box in a set of boxes that defend each other: a box looked at before one of
them that overlaps it too much overlaps another of them too much, looked at still before. -/
def Survives (d : DnnObjectDetection) (order : List ℚ → List ℕ) (frame : Mat)
    (outs : List Output) (label : Str) : Prop :=
  ∃ team : Set ℕ, Defended (Before (d.looked order frame outs)) (d.Clashes frame outs)
      {i | i ∈ d.looked order frame outs} team ∧
    ∃ i ∈ team, d.labelOf (d.detections frame outs) i = some label

section

variable {nmsBoxes : List Rect → List ℚ → ℚ → ℚ → List ℕ} {order : List ℚ → List ℕ}
  {d : DnnObjectDetection} {frame : Mat} {outs : List Output}

theorem mem_looked (hnms : NmsDocumented nmsBoxes order) {i : ℕ} :
    i ∈ d.looked order frame outs ↔ i < (d.detections frame outs).length := by
  rw [looked, (hnms.perm _).mem_iff, List.mem_range, List.length_map]

/-- `NMSBoxes` looks at everything that was pushed. -/
theorem indices_eq (hnms : NmsDocumented nmsBoxes order) : d.indices nmsBoxes frame outs =
    survivors (overlaps ((d.detections frame outs).map Detection.box) d.nmsThreshold)
      (d.looked order frame outs) := by
  have hall : (d.looked order frame outs).filter (fun i =>
      d.confThreshold < ((d.detections frame outs).map Detection.confidence).getD i 0) =
        d.looked order frame outs :=
    List.filter_eq_self.2 fun i hi => decide_eq_true (lt_confidence ((mem_looked hnms).1 hi))
  rw [indices, hnms.kept _ _ _ _ (by simp only [List.length_map])]
  exact congrArg _ hall

variable (d frame outs) in
/-- **What `NMSBoxes` keeps is the kernel** of the boxes that were pushed. -/
theorem isKernel_indices (hnms : NmsDocumented nmsBoxes order) :
    IsKernel (Before (d.looked order frame outs)) (d.Clashes frame outs)
      {i | i ∈ d.looked order frame outs} {i | i ∈ d.indices nmsBoxes frame outs} := by
  have hnodup : (d.looked order frame outs).Nodup :=
    (hnms.perm _).nodup_iff.2 List.nodup_range
  rw [indices_eq hnms]
  exact isKernel_survivors hnodup

variable (frame) in
/-- What is appended are the labels of what is kept. -/
theorem exists_labels (hnms : NmsDocumented nmsBoxes order)
    (hclasses : ∀ out ∈ outs, out.cols = 5 + d.classes.length) (result : List Str) :
    ∃ labels, d.postprocess nmsBoxes frame outs result = some (result ++ labels) ∧
      ∀ label, label ∈ labels ↔ ∃ i ∈ d.indices nmsBoxes frame outs,
        d.labelOf (d.detections frame outs) i = some label :=
  foldlM_labels (fun _ hi => exists_labelOf hclasses
    ((mem_looked hnms).1 ((isKernel_indices d frame outs hnms).subset hi))) result

/-- A label comes out exactly if it survives. -/
theorem survives_iff_kept (hnms : NmsDocumented nmsBoxes order) {label : Str} :
    d.Survives order frame outs label ↔
      ∃ i ∈ d.indices nmsBoxes frame outs, d.labelOf (d.detections frame outs) i = some label := by
  have hkept := (isKernel_indices d frame outs hnms).mem_iff (wellFounded_before _)
  constructor
  · rintro ⟨team, hteam, i, hi, hlabel⟩
    exact ⟨i, (hkept i).2 ⟨team, hteam, hi⟩, hlabel⟩
  · rintro ⟨i, hi, hlabel⟩
    obtain ⟨team, hteam, hi⟩ := (hkept i).1 hi
    exact ⟨team, hteam, i, hi, hlabel⟩

/-- Where boxes of different labels do not overlap too much, every label survives: its first
box is overlapped by none before it. -/
theorem survives_of_apart (hnms : NmsDocumented nmsBoxes order)
    (hclasses : ∀ out ∈ outs, out.cols = 5 + d.classes.length)
    (hapart : ∀ i j label other, d.labelOf (d.detections frame outs) i = some label →
      d.labelOf (d.detections frame outs) j = some other → label ≠ other →
        ¬ d.Clashes frame outs i j) {label : Str} (h : d.Detected outs label) :
    d.Survives order frame outs label := by
  obtain ⟨i, hlabel, hfirst⟩ := (wellFounded_before (d.looked order frame outs)).has_min
    {i | d.labelOf (d.detections frame outs) i = some label} (detected_iff.1 h)
  have hi : i ∈ d.looked order frame outs := (mem_looked hnms).2 (lt_of_labelOf hlabel)
  refine ⟨{i}, defended_singleton hi fun j hj hji hclash => ?_, i, rfl, hlabel⟩
  obtain ⟨other, hother⟩ := exists_labelOf hclasses ((mem_looked hnms).1 hj)
  by_cases hsame : other = label
  · subst hsame
    exact hfirst j hother hji
  · exact hapart j i other label hother hlabel hsame hclash

/-- A box that is not kept is overlapped by one that is, with at least its confidence. -/
theorem exists_overlap (hnms : NmsDocumented nmsBoxes order)
    (hclasses : ∀ out ∈ outs, out.cols = 5 + d.classes.length) {label : Str}
    (hlost : ¬ d.Survives order frame outs label) {i : ℕ}
    (hi : d.labelOf (d.detections frame outs) i = some label) :
    ∃ j other, d.labelOf (d.detections frame outs) j = some other ∧ other ≠ label ∧
      d.Survives order frame outs other ∧ d.Clashes frame outs j i ∧
      ((d.detections frame outs).map Detection.confidence).getD i 0 ≤
        ((d.detections frame outs).map Detection.confidence).getD j 0 := by
  have hkernel := isKernel_indices d frame outs hnms
  have hlooked : i ∈ d.looked order frame outs := (mem_looked hnms).2 (lt_of_labelOf hi)
  rw [survives_iff_kept hnms] at hlost
  have hout := fun hkept => hlost ⟨i, hkept, hi⟩
  obtain ⟨j, hj, hji, hclash⟩ := hkernel.eliminated hlooked hout
  obtain ⟨other, hother⟩ := exists_labelOf hclasses ((mem_looked hnms).1 (hkernel.subset hj))
  refine ⟨j, other, hother, ?_, (survives_iff_kept hnms).2 ⟨j, hj, hother⟩, hclash,
    rel_of_before (hnms.falling _) hlooked hji⟩
  rintro rfl
  exact hlost ⟨j, hj, hother⟩

variable (frame) in
/-- **Non-maximum suppression hides a label exactly if it has no defended box.**  Only labels
of confident rows come out.  One that does not has each of its boxes overlapped too much by a
box of another label that does, with at least the confidence.  So all come out if and only if
each survives, and they do where boxes of different labels do not overlap too much. -/
theorem postprocess_labels (hnms : NmsDocumented nmsBoxes order)
    (hclasses : ∀ out ∈ outs, out.cols = 5 + d.classes.length) (result : List Str) :
    ∃ labels, d.postprocess nmsBoxes frame outs result = some (result ++ labels) ∧
      (∀ label, label ∈ labels ↔ d.Survives order frame outs label) ∧
      (∀ label ∈ labels, d.Detected outs label) ∧
      (∀ label, label ∉ labels → ∀ i, d.labelOf (d.detections frame outs) i = some label →
        ∃ j other, d.labelOf (d.detections frame outs) j = some other ∧ other ≠ label ∧
          other ∈ labels ∧ d.Clashes frame outs j i ∧
          ((d.detections frame outs).map Detection.confidence).getD i 0 ≤
            ((d.detections frame outs).map Detection.confidence).getD j 0) ∧
      ((∀ label, label ∈ labels ↔ d.Detected outs label) ↔
        ∀ label, d.Detected outs label → d.Survives order frame outs label) ∧
      ((∀ i j label other, d.labelOf (d.detections frame outs) i = some label →
          d.labelOf (d.detections frame outs) j = some other → label ≠ other →
            ¬ d.Clashes frame outs i j) →
        ∀ label, label ∈ labels ↔ d.Detected outs label) := by
  obtain ⟨labels, hrun, hmem⟩ := exists_labels frame hnms hclasses result
  have hsurvives : ∀ label, label ∈ labels ↔ d.Survives order frame outs label := fun label =>
    (hmem label).trans (survives_iff_kept hnms).symm
  have hdetected : ∀ label ∈ labels, d.Detected outs label := by
    intro label hlabel
    obtain ⟨i, -, hi⟩ := (hmem label).1 hlabel
    exact detected_iff.2 ⟨i, hi⟩
  have hall : (∀ label, d.Detected outs label → d.Survives order frame outs label) →
      ∀ label, label ∈ labels ↔ d.Detected outs label := fun h label =>
    ⟨hdetected label, fun hlabel => (hsurvives label).2 (h label hlabel)⟩
  refine ⟨labels, hrun, hsurvives, hdetected, fun label hlost i hi => ?_, ⟨fun h label hlabel =>
    (hsurvives label).1 ((h label).2 hlabel), hall⟩, fun hapart => hall fun label hlabel => ?_⟩
  · rw [hsurvives] at hlost
    obtain ⟨j, other, hother, hne, hin, hclash, hle⟩ := exists_overlap hnms hclasses hlost hi
    exact ⟨j, other, hother, hne, (hsurvives other).2 hin, hclash, hle⟩
  · exact survives_of_apart hnms hclasses hapart hlabel

/-- **The worker finds a target exactly if its label survives** in the picture. -/
theorem reply_isFound (hnms : NmsDocumented nmsBoxes order)
    (hclasses : ∀ out ∈ outs, out.cols = 5 + d.classes.length) {labels : List Str}
    (h : d.postprocess nmsBoxes frame outs [] = some labels) (w : Worker)
    (target session_id : Str) :
    (w.reply target session_id labels).isFound = true ↔ d.Survives order frame outs target := by
  obtain ⟨labels', hrun, hmem⟩ := exists_labels frame hnms hclasses []
  rw [h, List.nil_append, Option.some.injEq] at hrun
  subst hrun
  have hfound : (w.reply target session_id labels).isFound = true ↔ target ∈ labels :=
    decide_eq_true_iff
  rw [hfound, hmem, survives_iff_kept hnms]

end

end DnnObjectDetection

/-! ## One picture -/

namespace Reference

/-- The boxes by falling confidence, equal ones as they come. -/
def order (confidences : List ℚ) : List ℕ :=
  (List.range confidences.length).insertionSort fun i j =>
    confidences.getD j 0 ≤ confidences.getD i 0

/-- An `NMSBoxes` to run the detectors with. -/
def nmsBoxes (boxes : List Rect) (confidences : List ℚ) (scoreThreshold threshold : ℚ) : List ℕ :=
  survivors (overlaps boxes threshold)
    ((order confidences).filter fun i => scoreThreshold < confidences.getD i 0)

end Reference

theorem reference_nms : NmsDocumented Reference.nmsBoxes Reference.order where
  perm _ := List.perm_insertionSort _ _
  falling confidences := by
    have htotal : Std.Total fun i j : ℕ => confidences.getD j 0 ≤ confidences.getD i 0 :=
      ⟨fun _ _ => le_total _ _⟩
    have htrans : IsTrans ℕ fun i j => confidences.getD j 0 ≤ confidences.getD i 0 :=
      ⟨fun _ _ _ h h' => h'.trans h⟩
    exact List.pairwise_insertionSort _ _
  kept _ _ _ _ _ := rfl

/-- A frame of four times four pixels. -/
def smallFrame : Mat where
  rows := 4
  cols := 4
  channels := 3
  data := List.replicate 48 0
  data_length := rfl

/-- The network sees a person, and a car at the given place. -/
def personAndCar (x : ℚ) : Output where
  cols := 7
  rows := [[1 / 4, 1 / 2, 1 / 2, 1 / 2, 1, 9 / 10, 0], [x, 1 / 2, 1 / 2, 1 / 2, 1, 0, 4 / 5]]
  row_length := by simp
  five_lt_cols := by decide

namespace DnnObjectDetection

/-- A person and a car side by side. -/
theorem postprocess_labels_apart :
    (Worker.detector [txt "person", txt "car"]).postprocess Reference.nmsBoxes smallFrame
        [personAndCar (3 / 4)] [] = some [txt "person", txt "car"] ∧
      ∀ label, label ∈ [txt "person", txt "car"] ↔
        (Worker.detector [txt "person", txt "car"]).Detected [personAndCar (3 / 4)] label := by
  have hrun : (Worker.detector [txt "person", txt "car"]).postprocess Reference.nmsBoxes smallFrame
      [personAndCar (3 / 4)] [] = some [txt "person", txt "car"] := by decide +kernel
  have hlength : ((Worker.detector [txt "person", txt "car"]).detections smallFrame
      [personAndCar (3 / 4)]).length = 2 := by decide +kernel
  have hapart : ∀ i < 2, ∀ j < 2, i ≠ j → ¬ overlaps
      (((Worker.detector [txt "person", txt "car"]).detections smallFrame
        [personAndCar (3 / 4)]).map Detection.box) (2 / 5) i j = true := by decide +kernel
  have hclasses : ∀ out ∈ [personAndCar (3 / 4)], out.cols =
      5 + (Worker.detector [txt "person", txt "car"]).classes.length := by
    simp only [List.forall_mem_singleton]
    rfl
  obtain ⟨labels, hlabels, -, -, -, -, hequal⟩ :=
    postprocess_labels smallFrame reference_nms hclasses []
  rw [hrun, List.nil_append, Option.some.injEq] at hlabels
  subst hlabels
  refine ⟨hrun, hequal fun i j label other hi hj hne => ?_⟩
  have hij : i ≠ j := by
    rintro rfl
    exact hne (Option.some.inj (hi.symm.trans hj))
  exact hapart i (hlength ▸ lt_of_labelOf hi) j (hlength ▸ lt_of_labelOf hj) hij

/-- **A car behind a person is hidden**, though `NMSBoxes` does what it should and there is a
class for each score. -/
theorem car_hidden :
    NmsDocumented Reference.nmsBoxes Reference.order ∧
      (personAndCar (1 / 4)).cols = 5 + (Worker.detector [txt "person", txt "car"]).classes.length ∧
      (Worker.detector [txt "person", txt "car"]).postprocess Reference.nmsBoxes smallFrame
        [personAndCar (1 / 4)] [] = some [txt "person"] ∧
      (Producer.detector [txt "person", txt "car"]).postprocess Reference.nmsBoxes smallFrame
        [personAndCar (1 / 4)] [] = some [txt "person"] ∧
      ¬ ∀ label, label ∈ [txt "person"] ↔
        (Worker.detector [txt "person", txt "car"]).Detected [personAndCar (1 / 4)] label := by
  refine ⟨reference_nms, rfl, by decide +kernel, by decide +kernel, fun h => ?_⟩
  have hcar : (Worker.detector [txt "person", txt "car"]).labelOf
      ((Worker.detector [txt "person", txt "car"]).detections smallFrame [personAndCar (1 / 4)]) 1 =
        some (txt "car") := by decide +kernel
  have hmem : txt "car" ∈ [txt "person"] := (h (txt "car")).2 (detected_iff.2 ⟨1, hcar⟩)
  exact absurd hmem (by decide +kernel)

end DnnObjectDetection

end Crowdsensing
