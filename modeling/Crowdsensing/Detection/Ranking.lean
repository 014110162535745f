import Crowdsensing.Detection.Postprocess

/-!
# What non-maximum suppression leaves, in order

`cv::dnn::NMSBoxes` looks at the boxes by falling confidence and leaves open in which order it
takes those of the same confidence.  Where no two boxes have the same, its result is a
function of the boxes alone.

* `DnnObjectDetection.found` — the boxes that are left, by falling confidence.
* `DnnObjectDetection.postprocess_eq` — **`postprocess` appends their labels in that order**,
  and fails exactly where one of them has no label.
* `DnnObjectDetection.found_spec` — no two of them overlap too much, and the first is the box
  with the greatest confidence of all.
* `DnnObjectDetection.ranked_unique` — boxes with confidences of their own are ranked in one way.
* `DnnObjectDetection.postprocess_perm` — **neither the order of the rows, nor how they are shared
  out among the outputs, nor the implementation of `NMSBoxes` makes a difference.**
* `DnnObjectDetection.postprocess_raised` — **a higher threshold only cuts off the end.**
-/

namespace Crowdsensing

open Text Greedy

/-! ## Lists by falling keys -/

/-- Where a condition on an element holds for all before it, it is true up to some place. -/
theorem eq_filter_append_filter {α : Type*} {p : α → Bool} {xs : List α}
    (h : xs.Pairwise fun x y => p y = true → p x = true) :
    xs = xs.filter p ++ xs.filter fun x => !p x := by
  induction xs with
  | nil => rfl
  | cons x xs ih =>
    obtain ⟨hx, hxs⟩ := List.pairwise_cons.1 h
    cases hp : p x with
    | true =>
      rw [List.filter_cons_of_pos hp, List.filter_cons_of_neg (by simp [hp]), List.cons_append,
        ← ih hxs]
    | false =>
      have hnone : xs.filter p = [] := by
        rw [List.filter_eq_nil_iff]
        intro y hy hpy
        rw [hx y hy hpy] at hp
        exact absurd hp (by simp)
      rw [List.filter_cons_of_neg (by simp [hp]), hnone, List.nil_append,
        List.filter_cons_of_pos (by simp [hp])]
      rw [hnone, List.nil_append] at ih
      rw [← ih hxs]

/-- A fold that appends one value for each element. -/
theorem foldlM_concat {α β : Type} (f : α → Option β) (xs : List α) (result : List β) :
    xs.foldlM (fun result x => (f x).map fun y => result ++ [y]) result =
      (xs.mapM f).map (result ++ ·) := by
  induction xs generalizing result with
  | nil => simp
  | cons x xs ih =>
    rw [List.foldlM_cons, List.mapM_cons]
    cases f x with
    | none => rfl
    | some y =>
      simp only [Option.map_some, Option.bind_eq_bind, Option.bind_some, ih]
      cases xs.mapM f <;> simp

/-- A list is mapped by what its elements are mapped to. -/
theorem mapM_eq_of_forall {α β : Type} {f g : α → Option β} {xs : List α}
    (h : ∀ x ∈ xs, f x = g x) : xs.mapM f = xs.mapM g := by
  induction xs with
  | nil => rfl
  | cons x xs ih =>
    rw [List.mapM_cons, List.mapM_cons, h x List.mem_cons_self,
      ih fun y hy => h y (List.mem_cons_of_mem _ hy)]

theorem length_of_mapM {α β : Type} {f : α → Option β} {xs : List α} {ys : List β}
    (h : xs.mapM f = some ys) : ys.length = xs.length := by
  induction xs generalizing ys with
  | nil =>
    obtain rfl := Option.some.inj h
    rfl
  | cons x xs ih =>
    rw [List.mapM_cons] at h
    obtain ⟨y, -, h⟩ := Option.bind_eq_some_iff.1 h
    obtain ⟨zs, hzs, h⟩ := Option.bind_eq_some_iff.1 h
    obtain rfl := Option.some.inj h
    rw [List.length_cons, List.length_cons, ih hzs]

/-- A list is mapped exactly if each element is. -/
theorem isSome_mapM {α β : Type} (f : α → Option β) (xs : List α) :
    (xs.mapM f).isSome = true ↔ ∀ x ∈ xs, (f x).isSome = true := by
  induction xs with
  | nil => simp
  | cons x xs ih =>
    rw [List.mapM_cons, List.forall_mem_cons, ← ih]
    cases f x with
    | none => simp
    | some y => cases xs.mapM f <;> simp

namespace DnnObjectDetection

/-! ## The boxes that are left -/

/-- The boxes overlap by more than the threshold. -/
def clash (d : DnnObjectDetection) (a b : Detection) : Bool :=
  decide (d.nmsThreshold < a.box.iou b.box)

/-- The label of a box: `none` past the end of `m_classes`. -/
def label (d : DnnObjectDetection) (x : Detection) : Option Str := d.classes[x.classId]?

/-- What is pushed, in the order in which `NMSBoxes` looks at it. -/
def ranked (d : DnnObjectDetection) (order : List ℚ → List ℕ) (frame : Mat)
    (outs : List Output) : List Detection :=
  (d.looked order frame outs).filterMap fun i => (d.detections frame outs)[i]?

/-- What `NMSBoxes` leaves, by falling confidence. -/
def found (d : DnnObjectDetection) (order : List ℚ → List ℕ) (frame : Mat)
    (outs : List Output) : List Detection :=
  survivors d.clash (d.ranked order frame outs)

/-- The box at an index, and some box past the end. -/
def boxAt (ds : List Detection) (i : ℕ) : Detection := ds.getD i ⟨0, 0, ⟨0, 0, 0, 0⟩⟩

theorem getElem?_eq_boxAt {ds : List Detection} {i : ℕ} (hi : i < ds.length) :
    ds[i]? = some (boxAt ds i) := by
  rw [boxAt, List.getD_eq_getElem _ _ hi, List.getElem?_eq_getElem hi]

theorem confidence_boxAt (ds : List Detection) (i : ℕ) :
    (ds.map Detection.confidence).getD i 0 = (boxAt ds i).confidence := by
  rw [boxAt, List.getD_eq_getElem?_getD, List.getD_eq_getElem?_getD, List.getElem?_map]
  cases ds[i]? <;> rfl

section

variable {nmsBoxes : List Rect → List ℚ → ℚ → ℚ → List ℕ} {order : List ℚ → List ℕ}
  {d : DnnObjectDetection} {frame : Mat} {outs : List Output}

theorem ranked_eq (hnms : NmsDocumented nmsBoxes order) :
    d.ranked order frame outs = (d.looked order frame outs).map (boxAt (d.detections frame outs)) :=
  List.filterMap_eq_map_iff_forall_eq_some.2 fun _ hi => getElem?_eq_boxAt ((mem_looked hnms).1 hi)

/-- Everything pushed is looked at, -/
theorem ranked_perm (hnms : NmsDocumented nmsBoxes order) :
    (d.ranked order frame outs).Perm (d.detections frame outs) := by
  have hall : (List.range (d.detections frame outs).length).map (boxAt (d.detections frame outs)) =
      d.detections frame outs := by
    refine List.ext_getElem (by simp) fun i hi hi' => ?_
    rw [List.getElem_map, List.getElem_range, boxAt, List.getD_eq_getElem _ _ hi']
  have hperm := hnms.perm ((d.detections frame outs).map Detection.confidence)
  rw [List.length_map] at hperm
  rw [ranked_eq hnms]
  conv_rhs => rw [← hall]
  exact hperm.map _

/-- by falling confidence. -/
theorem ranked_falling (hnms : NmsDocumented nmsBoxes order) :
    (d.ranked order frame outs).Pairwise fun a b => b.confidence ≤ a.confidence := by
  rw [ranked_eq hnms, List.pairwise_map]
  refine (hnms.falling _).imp fun {i j} h => ?_
  rw [confidence_boxAt, confidence_boxAt] at h
  exact h

/-- The indices that `NMSBoxes` returns are those of the boxes that are left. -/
theorem map_indices (hnms : NmsDocumented nmsBoxes order) :
    (d.indices nmsBoxes frame outs).map (boxAt (d.detections frame outs)) =
      d.found order frame outs := by
  rw [found, ranked_eq hnms, indices_eq hnms]
  refine (survivors_map fun i hi j hj => ?_).symm
  unfold overlaps clash
  rw [List.getElem?_map, List.getElem?_map, getElem?_eq_boxAt ((mem_looked hnms).1 hi),
    getElem?_eq_boxAt ((mem_looked hnms).1 hj)]
  rfl

/-- **`postprocess` appends the labels of the boxes that are left**, by falling confidence. -/
theorem postprocess_eq (hnms : NmsDocumented nmsBoxes order) (result : List Str) :
    d.postprocess nmsBoxes frame outs result =
      ((d.found order frame outs).mapM d.label).map (result ++ ·) := by
  have hfold : d.postprocess nmsBoxes frame outs result =
      ((d.indices nmsBoxes frame outs).mapM (d.labelOf (d.detections frame outs))).map
        (result ++ ·) := foldlM_concat _ _ _
  have hlabels : (d.indices nmsBoxes frame outs).mapM (d.labelOf (d.detections frame outs)) =
      (d.indices nmsBoxes frame outs).mapM (d.label ∘ boxAt (d.detections frame outs)) := by
    refine mapM_eq_of_forall fun i hi => ?_
    have hlt := (mem_looked hnms).1 ((isKernel_indices d frame outs hnms).subset hi)
    rw [labelOf, getElem?_eq_boxAt hlt]
    rfl
  rw [hfold, hlabels, ← map_indices hnms, List.mapM_map]

variable (d frame outs) in
/-- **What comes out, in order.**  It is defined exactly if `m_classes` has a line for each box
that is left; these stand by falling confidence and do not overlap too much, and the first of
them is a box with the greatest confidence of all. -/
theorem found_spec (hnms : NmsDocumented nmsBoxes order) (result : List Str) :
    ((d.postprocess nmsBoxes frame outs result).isSome = true ↔
        ∀ x ∈ d.found order frame outs, x.classId < d.classes.length) ∧
      (d.found order frame outs).Pairwise (fun a b =>
        b.confidence ≤ a.confidence ∧ a.box.iou b.box ≤ d.nmsThreshold) ∧
      (d.detections frame outs ≠ [] → ∃ x, (d.found order frame outs).head? = some x ∧
        x ∈ d.detections frame outs ∧ ∀ y ∈ d.detections frame outs,
          y.confidence ≤ x.confidence) := by
  have hfalling : (d.ranked order frame outs).Pairwise fun a b => b.confidence ≤ a.confidence :=
    ranked_falling hnms
  refine ⟨?_, ?_, fun hne => ?_⟩
  · rw [postprocess_eq hnms, Option.isSome_map, isSome_mapM]
    refine forall₂_congr fun x _ => ?_
    simp [label]
  · have hleft : (d.found order frame outs).Sublist (d.ranked order frame outs) :=
      survivors_sublist _
    have hkept := hfalling.sublist hleft
    refine (hkept.and (survivors_pairwise _)).imp ?_
    rintro a b ⟨hle, hclash⟩
    exact ⟨hle, not_lt.1 (of_decide_eq_false hclash)⟩
  · cases hranked : d.ranked order frame outs with
    | nil => exact absurd (hranked ▸ ranked_perm hnms).symm.eq_nil hne
    | cons x xs =>
      have hperm : (x :: xs).Perm (d.detections frame outs) := hranked ▸ ranked_perm hnms
      rw [hranked] at hfalling
      refine ⟨x, ?_, hperm.subset List.mem_cons_self, fun y hy => ?_⟩
      · rw [found, hranked, head?_survivors]
      · rcases List.mem_cons.1 (hperm.symm.subset hy) with rfl | hy
        · exact le_refl _
        · exact (List.pairwise_cons.1 hfalling).1 y hy

/-! ## Boxes with confidences of their own -/

/-- **Boxes with confidences of their own are ranked in one way**, whatever their order, whoever
ranks them and whatever the labels are. -/
theorem ranked_unique {nmsBoxes' : List Rect → List ℚ → ℚ → ℚ → List ℕ} {order' : List ℚ → List ℕ}
    {d' : DnnObjectDetection} {frame' : Mat} {outs' : List Output}
    (hnms : NmsDocumented nmsBoxes order) (hnms' : NmsDocumented nmsBoxes' order')
    (hperm : (d.detections frame outs).Perm (d'.detections frame' outs'))
    (hdistinct : ((d.detections frame outs).map Detection.confidence).Nodup) :
    d.ranked order frame outs = d'.ranked order' frame' outs' := by
  refine List.Perm.eq_of_pairwise (fun a b ha hb hle hge => ?_) (ranked_falling hnms)
    (ranked_falling hnms') ((ranked_perm hnms).trans (hperm.trans (ranked_perm hnms').symm))
  have ha' := (ranked_perm hnms).subset ha
  have hb' := hperm.symm.subset ((ranked_perm hnms').subset hb)
  exact List.inj_on_of_nodup_map hdistinct ha' hb' (le_antisymm hge hle)

/-- The rows of all outputs, one after another. -/
theorem detections_eq (d : DnnObjectDetection) (frame : Mat) (outs : List Output) :
    d.detections frame outs = (outs.flatMap Output.rows).filterMap (d.detectionOf frame) := by
  rw [detections, List.filterMap_flatMap]

/-- **Neither the order of the rows nor how they are shared out makes a difference**, and any two
implementations of `NMSBoxes` agree, where the boxes have confidences of their own. -/
theorem postprocess_perm {nmsBoxes' : List Rect → List ℚ → ℚ → ℚ → List ℕ}
    {order' : List ℚ → List ℕ} {outs' : List Output} (hnms : NmsDocumented nmsBoxes order)
    (hnms' : NmsDocumented nmsBoxes' order')
    (hperm : (outs.flatMap Output.rows).Perm (outs'.flatMap Output.rows))
    (hdistinct : ((d.detections frame outs).map Detection.confidence).Nodup)
    (result : List Str) :
    d.postprocess nmsBoxes frame outs result = d.postprocess nmsBoxes' frame outs' result := by
  have hdetections : (d.detections frame outs).Perm (d.detections frame outs') := by
    rw [detections_eq, detections_eq]
    exact hperm.filterMap _
  rw [postprocess_eq hnms, postprocess_eq hnms', found, found,
    ranked_unique hnms hnms' hdetections hdistinct]

/-! ## A higher threshold -/

/-- The detector with another confidence threshold. -/
def withThreshold (d : DnnObjectDetection) (confThreshold : ℚ) : DnnObjectDetection :=
  { d with confThreshold := confThreshold }

/-- A higher threshold lets through the boxes above it. -/
theorem detections_raised {threshold : ℚ} (hle : d.confThreshold ≤ threshold) :
    (d.withThreshold threshold).detections frame outs =
      (d.detections frame outs).filter fun x => threshold < x.confidence := by
  rw [detections_eq, detections_eq, List.filter_filterMap]
  refine List.filterMap_congr fun data _ => ?_
  unfold detectionOf withThreshold
  cases minMaxLoc (data.drop 5) with
  | none => rfl
  | some best =>
    obtain ⟨confidence, classId⟩ := best
    by_cases hlow : d.confThreshold < confidence
    · by_cases hhigh : threshold < confidence <;> simp [hlow, hhigh, Option.filter]
    · have hhigh : ¬ threshold < confidence := fun h => hlow (lt_of_le_of_lt hle h)
      simp [hlow, hhigh]

/-- They are the first to be looked at. -/
theorem ranked_raised (hnms : NmsDocumented nmsBoxes order)
    (hdistinct : ((d.detections frame outs).map Detection.confidence).Nodup) {threshold : ℚ}
    (hle : d.confThreshold ≤ threshold) :
    (d.withThreshold threshold).ranked order frame outs =
      (d.ranked order frame outs).filter fun x => threshold < x.confidence := by
  refine List.Perm.eq_of_pairwise (fun a b ha hb hba hab => ?_) (ranked_falling hnms)
    ((ranked_falling hnms).filter _) ?_
  · have hsame := (ranked_perm hnms).subset (List.mem_filter.1 hb).1
    have ha' := (ranked_perm hnms).subset ha
    rw [detections_raised hle] at ha'
    exact List.inj_on_of_nodup_map hdistinct (List.mem_filter.1 ha').1 hsame (le_antisymm hab hba)
  · refine (ranked_perm hnms).trans ?_
    rw [detections_raised hle]
    exact ((ranked_perm hnms).filter _).symm

/-- **A higher threshold only cuts off the end** of what comes out: the labels of the boxes
above it are the first ones, and are as they were. -/
theorem postprocess_raised (hnms : NmsDocumented nmsBoxes order)
    (hdistinct : ((d.detections frame outs).map Detection.confidence).Nodup) {threshold : ℚ}
    (hle : d.confThreshold ≤ threshold) {result labels : List Str}
    (h : d.postprocess nmsBoxes frame outs result = some (result ++ labels)) :
    (d.withThreshold threshold).postprocess nmsBoxes frame outs result = some (result ++
      labels.take ((d.found order frame outs).countP fun x => threshold < x.confidence)) := by
  have habove : (d.ranked order frame outs).Pairwise fun x y =>
      decide (threshold < y.confidence) = true → decide (threshold < x.confidence) = true := by
    refine (ranked_falling hnms).imp fun {x y} hxy hy => ?_
    exact decide_eq_true (lt_of_lt_of_le (of_decide_eq_true hy) hxy)
  -- the boxes above the threshold are looked at first, so what they leave is left first
  obtain ⟨rest, hrest, hfound⟩ := exists_survivors_append d.clash
    ((d.ranked order frame outs).filter fun x => threshold < x.confidence)
    ((d.ranked order frame outs).filter fun x => !decide (threshold < x.confidence))
  rw [← eq_filter_append_filter habove, ← ranked_raised hnms hdistinct hle] at hfound
  change d.found order frame outs = (d.withThreshold threshold).found order frame outs ++ rest
    at hfound
  have hcount : (d.found order frame outs).countP (fun x => threshold < x.confidence) =
      ((d.withThreshold threshold).found order frame outs).length := by
    have hall : ∀ x ∈ (d.withThreshold threshold).found order frame outs,
        decide (threshold < x.confidence) = true := by
      intro x hx
      have hx' := mem_of_mem_survivors hx
      rw [ranked_raised hnms hdistinct hle] at hx'
      exact (List.mem_filter.1 hx').2
    have hnone : ∀ x ∈ rest, ¬ decide (threshold < x.confidence) = true := by
      intro x hx
      simpa using (List.mem_filter.1 (hrest.subset hx)).2
    rw [hfound, List.countP_append, List.countP_eq_length.2 hall, List.countP_eq_zero.2 hnone,
      Nat.add_zero]
  have hlabels : (d.found order frame outs).mapM d.label = some labels := by
    rw [postprocess_eq hnms] at h
    obtain ⟨labels', hlabels', happend⟩ := Option.map_eq_some_iff.1 h
    rw [hlabels', List.append_cancel_left happend]
  rw [hfound, List.mapM_append] at hlabels
  obtain ⟨first, hfirst, hlabels⟩ := Option.bind_eq_some_iff.1 hlabels
  obtain ⟨last, -, hlabels⟩ := Option.bind_eq_some_iff.1 hlabels
  obtain rfl := Option.some.inj hlabels
  have hlabel : (d.withThreshold threshold).label = d.label := rfl
  rw [postprocess_eq hnms, hlabel, hfirst, Option.map_some, hcount, ← length_of_mapM hfirst,
    List.take_left]

end

/-! ## The picture with a person and a car -/

/-- The rows of that picture in two outputs, the car first. -/
def carThenPerson : List Output := [
  { personAndCar (3 / 4) with
    rows := [[3 / 4, 1 / 2, 1 / 2, 1 / 2, 1, 0, 4 / 5]]
    row_length := fun row hrow => by rw [List.mem_singleton.1 hrow]; rfl },
  { personAndCar (3 / 4) with
    rows := [[1 / 4, 1 / 2, 1 / 2, 1 / 2, 1, 9 / 10, 0]]
    row_length := fun row hrow => by rw [List.mem_singleton.1 hrow]; rfl }]

theorem distinct_personAndCar : (((Worker.detector [txt "person", txt "car"]).detections smallFrame
    [personAndCar (3 / 4)]).map Detection.confidence).Nodup := by
  have hconfidences : ((Worker.detector [txt "person", txt "car"]).detections smallFrame
      [personAndCar (3 / 4)]).map Detection.confidence = [9 / 10, 4 / 5] := by decide +kernel
  rw [hconfidences]
  norm_num

/-- The person, who is the surest, comes out first. -/
theorem found_spec_personAndCar :
    (((Worker.detector [txt "person", txt "car"]).postprocess Reference.nmsBoxes smallFrame
        [personAndCar (3 / 4)] []).isSome = true ↔
      ∀ x ∈ (Worker.detector [txt "person", txt "car"]).found Reference.order smallFrame
        [personAndCar (3 / 4)], x.classId < 2) ∧
      ∃ x, ((Worker.detector [txt "person", txt "car"]).found Reference.order smallFrame
        [personAndCar (3 / 4)]).head? = some x ∧ ∀ y ∈ (Worker.detector
          [txt "person", txt "car"]).detections smallFrame [personAndCar (3 / 4)],
            y.confidence ≤ x.confidence := by
  have hne : (Worker.detector [txt "person", txt "car"]).detections smallFrame
      [personAndCar (3 / 4)] ≠ [] := by decide +kernel
  obtain ⟨hsome, -, hfirst⟩ := found_spec (Worker.detector [txt "person", txt "car"]) smallFrame
    [personAndCar (3 / 4)] reference_nms []
  obtain ⟨x, hx, -, hgreatest⟩ := hfirst hne
  exact ⟨hsome, x, hx, hgreatest⟩

/-- In either order the same labels come out in the same order. -/
theorem postprocess_perm_carThenPerson :
    (Worker.detector [txt "person", txt "car"]).postprocess Reference.nmsBoxes smallFrame
        [personAndCar (3 / 4)] [] =
      (Worker.detector [txt "person", txt "car"]).postprocess Reference.nmsBoxes smallFrame
        carThenPerson [] := by
  have hperm : ([personAndCar (3 / 4)].flatMap Output.rows).Perm
      (carThenPerson.flatMap Output.rows) := List.Perm.swap _ _ []
  exact postprocess_perm reference_nms reference_nms hperm distinct_personAndCar []

/-- Above a threshold of 17/20 only the person is left. -/
theorem postprocess_raised_personAndCar :
    ((Worker.detector [txt "person", txt "car"]).withThreshold (17 / 20)).postprocess
        Reference.nmsBoxes smallFrame [personAndCar (3 / 4)] [] = some ([] ++
      [txt "person", txt "car"].take
        (((Worker.detector [txt "person", txt "car"]).found Reference.order smallFrame
          [personAndCar (3 / 4)]).countP fun x => 17 / 20 < x.confidence)) :=
  postprocess_raised reference_nms distinct_personAndCar
    (by rw [Worker.detector]; norm_num) (by decide +kernel)

end DnnObjectDetection

end Crowdsensing
