import Crowdsensing.Naming.Decode
import Crowdsensing.Reference
import Crowdsensing.Worker.Worker

/-!
# Requests without a target

`Worker::onInterest` turns a request down if `ExtractTargets` finds no target.  A split never
gives an empty list, so it always finds one.

* `Worker.extractTargets_decoded` — the targets of any name a packet can have: the pieces of
  `Worker.targetText`, of which there is at least one.
* `Worker.rejects_iff` — **in edge mode every name is answered**, so exactly the names that
  specify a target are treated as the check intends.
-/

namespace Crowdsensing

open Text

namespace Worker

/-- The text that is split into the targets: of the component before the last, what follows the
last colon of its last token, freed of brackets. -/
def targetText (name : Str) : Str :=
  keyText (afterLast (ch ' ') (afterLast (ch '/') (beforeLast (ch '/') name)))

/-- The name specifies a target that is not empty. -/
def SpecifiesTarget (name : Str) : Prop :=
  ∃ target ∈ (targetText name).splitOn (ch ','), target ≠ []

instance (name : Str) : Decidable (SpecifiesTarget name) := by
  unfold SpecifiesTarget
  infer_instance

/-- Some piece is filled exactly if there is something other than commas. -/
theorem specifiesTarget_iff (name : Str) :
    SpecifiesTarget name ↔ ∃ b ∈ targetText name, b ≠ ch ',' := by
  have hempty := forall_splitOn_eq_nil (c := ch ',') (s := targetText name)
  constructor
  · rintro ⟨target, hmem, hne⟩
    by_contra hall
    push Not at hall
    exact hne (hempty.2 hall target hmem)
  · rintro ⟨b, hb, hne⟩
    by_contra hall
    unfold SpecifiesTarget at hall
    push Not at hall
    exact hne (hempty.1 hall b hb)

/-! ## What the parsers find -/

theorem extractTargets_of_mem {s : Str} (h : ch '/' ∈ s) :
    extractTargets s = .ok ((targetText s).splitOn (ch ',')) := by
  rw [extractTargets, split, popBack_eq_ok (List.splitOn_ne_nil _ _), ok_bind, dropLast_splitOn h,
    back_eq_ok (getLast?_splitOn _ _), ok_bind, lastKeyValues_eq]
  rfl

theorem extractSessionID_eq (s : Str) : extractSessionID s = .ok (afterLast (ch '/') s) := by
  rw [extractSessionID, split, back_eq_ok (getLast?_splitOn _ _)]

/-- The text of a name keeps its first slash. -/
theorem slash_mem_decodeURI {lib : Externals} (hlib : lib.UriRooted) (name : Name) :
    ch '/' ∈ decodeURI (lib.toUri name) := by
  obtain ⟨rest, hrest⟩ := hlib name
  have hcut := decodeURI_append_slash [] rest
  rw [List.nil_append] at hcut
  rw [decodeURI_eq, hrest, hcut]
  exact List.mem_append_right _ List.mem_cons_self

/-- **There is always a target**, be it empty. -/
theorem extractTargets_decoded {lib : Externals} (hlib : lib.UriRooted) (name : Name) :
    ∃ target targets, (targetText (decodeURI (lib.toUri name))).splitOn (ch ',') =
        target :: targets ∧
      extractTargets (decodeURI (lib.toUri name)) = .ok (target :: targets) := by
  obtain ⟨target, targets, hcons⟩ := List.exists_cons_of_ne_nil
    (List.splitOn_ne_nil (ch ',') (targetText (decodeURI (lib.toUri name))))
  refine ⟨target, targets, hcons, ?_⟩
  rw [extractTargets_of_mem (slash_mem_decodeURI hlib name), hcons]

/-! ## The check -/

/-- The handler replies only to a name that specifies a target, and returns at its check for
every other. -/
structure RejectsWithoutTarget (lib : Externals) (w : Worker) (interest : Interest)
    (labels : List Str) (frame : Mat) (version : ℕ) : Prop where
  replied : ∀ w' packets, w.onInterest lib interest labels frame version = .ok (w', packets) →
    packets ≠ [] → SpecifiesTarget (decodeURI (lib.toUri interest.name))
  rejected : ¬ SpecifiesTarget (decodeURI (lib.toUri interest.name)) →
    extractTargets (decodeURI (lib.toUri interest.name)) = .ok [] ∧
      w.onInterest lib interest labels frame version = .ok (w, [])

/-- In edge mode the worker looks up the first target of every name, an empty one too, and
replies. -/
theorem onInterest_replies {lib : Externals} (hlib : lib.UriRooted) {interest : Interest}
    (hmode : modeOf interest = txt "e") (w : Worker) (labels : List Str) (frame : Mat)
    (version : ℕ) : ∃ target targets,
      extractTargets (decodeURI (lib.toUri interest.name)) = .ok (target :: targets) ∧
      w.onInterest lib interest labels frame version =
        .ok (w, [.data (w.edgeData lib interest target
          (afterLast (ch '/') (decodeURI (lib.toUri interest.name))) labels)]) := by
  obtain ⟨target, targets, -, htargets⟩ := extractTargets_decoded hlib interest.name
  exact ⟨target, targets, htargets, onInterest_edge hmode htargets (extractSessionID_eq _)⟩

/-- Without a target the worker does not do as the check intends. -/
theorem not_rejectsWithoutTarget {lib : Externals} (hlib : lib.UriRooted) {interest : Interest}
    (hmode : modeOf interest = txt "e")
    (h : ¬ SpecifiesTarget (decodeURI (lib.toUri interest.name))) (w : Worker)
    (labels : List Str) (frame : Mat) (version : ℕ) :
    ¬ RejectsWithoutTarget lib w interest labels frame version := by
  intro hrejects
  obtain ⟨target, targets, -, hreply⟩ := onInterest_replies hlib hmode w labels frame version
  exact h (hrejects.replied _ _ hreply (List.cons_ne_nil _ _))

/-- **The check never fires.**  For every name that comes in edge mode `ExtractTargets` finds a
target and the worker replies.  So it does as the check intends exactly if the text of the
targets holds a byte that is not a comma. -/
theorem rejects_iff {lib : Externals} (hlib : lib.UriRooted) {interest : Interest}
    (hmode : modeOf interest = txt "e") (w : Worker) (labels : List Str) (frame : Mat)
    (version : ℕ) :
    (∃ target targets, extractTargets (decodeURI (lib.toUri interest.name)) =
          .ok (target :: targets) ∧
        w.onInterest lib interest labels frame version =
          .ok (w, [.data (w.edgeData lib interest target
            (afterLast (ch '/') (decodeURI (lib.toUri interest.name))) labels)])) ∧
      (RejectsWithoutTarget lib w interest labels frame version ↔
        ∃ b ∈ targetText (decodeURI (lib.toUri interest.name)), b ≠ ch ',') := by
  refine ⟨onInterest_replies hlib hmode w labels frame version, ?_⟩
  rw [← specifiesTarget_iff]
  constructor
  · intro h
    by_contra hnot
    exact not_rejectsWithoutTarget hlib hmode hnot w labels frame version h
  · intro h
    exact ⟨fun _ _ _ _ => h, fun hnot => absurd h hnot⟩

/-- An Interest in edge mode with the given components. -/
def edgeRequest (components : List Str) : Interest where
  name := components.map .generic
  applicationParameters := some (txt "e")

/-- The picture of a worker without a camera. -/
def noFrame : Mat where
  rows := 0
  cols := 0
  channels := 1
  data := []
  data_length := rfl

/-- A sub-Interest of the client's page. -/
theorem rejects_iff_person : RejectsWithoutTarget reference (start (txt "/3") {})
    (edgeRequest [txt "3", txt "#f:detect", txt "#a:[3] #a:[person]", txt "7"]) [] noFrame 0 :=
  (rejects_iff reference_rooted rfl _ _ _ _).2.2 ⟨ch 'p', by decide +kernel, by decide⟩

/-- **A request without a target is answered**: with nothing between the brackets, with commas
only, and with no component before the last. -/
theorem no_target_answered :
    ¬ RejectsWithoutTarget reference (start (txt "/3") {})
        (edgeRequest [txt "3", txt "#f:detect", txt "#a:[3] #a:[]", txt "7"]) [] noFrame 0 ∧
      ¬ RejectsWithoutTarget reference (start (txt "/3") {})
        (edgeRequest [txt "3", txt "#f:detect", txt "#a:[3] #a:[,]", txt "7"]) [] noFrame 0 ∧
      ¬ RejectsWithoutTarget reference (start (txt "/3") {}) (edgeRequest [txt "7"]) []
        noFrame 0 := by
  refine ⟨?_, ?_, ?_⟩
  · exact not_rejectsWithoutTarget reference_rooted rfl (by decide +kernel) _ _ _ _
  · exact not_rejectsWithoutTarget reference_rooted rfl (by decide +kernel) _ _ _ _
  · exact not_rejectsWithoutTarget reference_rooted rfl (by decide +kernel) _ _ _ _

end Worker

end Crowdsensing
