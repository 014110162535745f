import Mathlib.Data.List.Basic
import Mathlib.Data.List.Induction
import Mathlib.Data.Set.Insert
import Mathlib.Tactic.Common

/-!
# Greedy elimination

The candidates of a list are looked at one after another, and one is kept if it clashes with
none that is kept before it.

* `IsKernel` — what such an elimination should leave, over any order of looking.
* `Defended` — a set of candidates that needs no elimination to be computed: whatever clashes
  with a member and is looked at before it clashes with a member that is looked at still
  earlier.
* `IsKernel.mem_iff` — **the kernel is the union of the defended sets**, so where the order is
  well founded there is only one.
* `isKernel_survivors` — **the loop over a list leaves the kernel.**
* `exists_survivors_append`, `survivors_map` — later candidates cost nothing that is kept, and
  other names for the candidates change nothing.
-/

namespace Greedy

/-! ## Kernels -/

section Kernel

variable {α : Type*} (before clash : α → α → Prop) (s : Set α)

/-- A candidate is kept exactly if it clashes with none that is kept before it. -/
structure IsKernel (kept : Set α) : Prop where
  subset : kept ⊆ s
  mem : ∀ x ∈ s, x ∈ kept ↔ ∀ y ∈ kept, before y x → ¬ clash y x

/-- What clashes with a member from before it clashes with a member from still before. -/
structure Defended (team : Set α) : Prop where
  subset : team ⊆ s
  defence : ∀ x ∈ team, ∀ y ∈ s, before y x → clash y x → ∃ z ∈ team, before z y ∧ clash z y

variable {before clash s} {kept team : Set α}

/-- What is not kept clashes with something that is kept before it. -/
theorem IsKernel.eliminated (h : IsKernel before clash s kept) {x : α} (hx : x ∈ s)
    (hout : x ∉ kept) : ∃ y ∈ kept, before y x ∧ clash y x := by
  rw [h.mem x hx] at hout
  push Not at hout
  exact hout

/-- A kernel is defended. -/
theorem IsKernel.defended (h : IsKernel before clash s kept) :
    Defended before clash s kept := by
  refine ⟨h.subset, fun x hx y hy hyx hclash => ?_⟩
  have hout : y ∉ kept := fun hkept => (h.mem x (h.subset hx)).1 hx y hkept hyx hclash
  exact h.eliminated hy hout

/-- **A defended set is kept**, by induction along the order: what would eliminate a member is
itself eliminated by an earlier one. -/
theorem Defended.subset_kernel (hwf : WellFounded before) (hteam : Defended before clash s team)
    (h : IsKernel before clash s kept) : team ⊆ kept := by
  intro x
  induction x using hwf.transGen.induction with
  | _ x ih =>
    intro hx
    refine (h.mem x (hteam.subset hx)).2 fun y hy hyx hclash => ?_
    obtain ⟨z, hz, hzy, hzclash⟩ := hteam.defence x hx y (h.subset hy) hyx hclash
    have hkept : z ∈ kept := ih z (Relation.TransGen.tail (Relation.TransGen.single hzy) hyx) hz
    exact (h.mem y (h.subset hy)).1 hy z hkept hzy hzclash

/-- **The kernel is the union of the defended sets.** -/
theorem IsKernel.mem_iff (hwf : WellFounded before) (h : IsKernel before clash s kept) (x : α) :
    x ∈ kept ↔ ∃ team, Defended before clash s team ∧ x ∈ team := by
  constructor
  · intro hx
    exact ⟨kept, h.defended, hx⟩
  · rintro ⟨team, hteam, hx⟩
    exact hteam.subset_kernel hwf h hx

/-- What clashes with nothing before it is kept. -/
theorem defended_singleton {x : α} (hx : x ∈ s) (h : ∀ y ∈ s, before y x → ¬ clash y x) :
    Defended before clash s {x} := by
  refine ⟨Set.singleton_subset_iff.2 hx, fun z hz y hy hyz hclash => ?_⟩
  rw [Set.mem_singleton_iff.1 hz] at hyz hclash
  exact absurd hclash (h y hy hyz)

end Kernel

/-! ## The loop -/

section Loop

variable {α : Type*} (clash : α → α → Bool)

/-- Look at one more candidate. -/
def look (kept : List α) (x : α) : List α :=
  if ∀ y ∈ kept, clash y x = false then kept ++ [x] else kept

/-- The candidates that are kept, in the order in which they are looked at. -/
def survivors (candidates : List α) : List α := candidates.foldl (look clash) []

/-- One candidate stands before another in a list. -/
def Before [DecidableEq α] (candidates : List α) (y x : α) : Prop :=
  candidates.idxOf y < candidates.idxOf x

theorem wellFounded_before [DecidableEq α] (candidates : List α) :
    WellFounded (Before candidates) :=
  (measure candidates.idxOf).wf

/-- What is known of the pairs of a list in their order is known of what stands before. -/
theorem rel_of_before [DecidableEq α] {r : α → α → Prop} {candidates : List α}
    (h : candidates.Pairwise r) {x y : α} (hx : x ∈ candidates) (hyx : Before candidates y x) :
    r y x := by
  have hlt : candidates.idxOf x < candidates.length := List.idxOf_lt_length_iff.2 hx
  have hpair := List.pairwise_iff_getElem.1 h _ _ (Nat.lt_trans hyx hlt) hlt hyx
  rwa [List.getElem_idxOf, List.getElem_idxOf] at hpair

/-- One more candidate at the end leaves the order of the others, -/
theorem before_concat_iff [DecidableEq α] {candidates : List α} {x y : α} (hx : x ∈ candidates)
    (hy : y ∈ candidates) (a : α) : Before (candidates ++ [a]) y x ↔ Before candidates y x := by
  rw [Before, Before, List.idxOf_append_of_mem hy, List.idxOf_append_of_mem hx]

/-- and stands behind them all. -/
theorem before_concat_last [DecidableEq α] {candidates : List α} {a y : α} (ha : a ∉ candidates)
    (hy : y ∈ candidates) : Before (candidates ++ [a]) y a := by
  rw [Before, List.idxOf_append_of_mem hy, List.idxOf_append_of_notMem ha, List.idxOf_cons_self,
    Nat.add_zero]
  exact List.idxOf_lt_length_iff.2 hy

variable {clash}

theorem survivors_concat (candidates : List α) (x : α) :
    survivors clash (candidates ++ [x]) = look clash (survivors clash candidates) x := by
  rw [survivors, List.foldl_append]
  rfl

theorem mem_look {kept : List α} {x y : α} :
    y ∈ look clash kept x ↔ y ∈ kept ∨ y = x ∧ ∀ z ∈ kept, clash z x = false := by
  unfold look
  split
  · rename_i h
    rw [List.mem_append, List.mem_singleton]
    exact or_congr_right (iff_self_and.2 fun _ => h)
  · rename_i h
    exact ⟨Or.inl, fun hy => hy.resolve_right fun hx => h hx.2⟩

theorem mem_of_mem_survivors {candidates : List α} {x : α} (h : x ∈ survivors clash candidates) :
    x ∈ candidates := by
  induction candidates using List.reverseRecOn with
  | nil => exact h
  | append_singleton candidates y ih =>
    rw [survivors_concat, mem_look] at h
    rw [List.mem_append, List.mem_singleton]
    exact h.imp ih And.left

/-- **The loop leaves the kernel.**  A candidate that is added behind the others changes nothing
for them, and is kept if it clashes with none of those that are. -/
theorem isKernel_survivors [DecidableEq α] {candidates : List α} (h : candidates.Nodup) :
    IsKernel (Before candidates) (fun y x => clash y x = true) {x | x ∈ candidates}
      {x | x ∈ survivors clash candidates} := by
  refine ⟨fun x => mem_of_mem_survivors, ?_⟩
  induction candidates using List.reverseRecOn with
  | nil => exact fun x hx => absurd hx List.not_mem_nil
  | append_singleton candidates a ih =>
    obtain ⟨hnodup, -, hdisjoint⟩ := List.nodup_append.1 h
    have ha : a ∉ candidates := fun hmem => hdisjoint a hmem a (List.mem_singleton_self a) rfl
    intro x hmem
    simp only [Set.mem_ofPred_eq, survivors_concat, mem_look]
    rcases List.mem_append.1 hmem with hx | hx
    · -- an old candidate: the new one stands behind it
      have hxa : x ≠ a := fun heq => ha (heq ▸ hx)
      have hkept := ih hnodup x hx
      simp only [Set.mem_ofPred_eq] at hkept
      rw [or_iff_left fun hnew => hxa hnew.1, hkept]
      constructor
      · rintro h y (hy | ⟨rfl, -⟩) hyx
        · exact h y hy ((before_concat_iff hx (mem_of_mem_survivors hy) a).1 hyx)
        · exact absurd hyx (Nat.lt_asymm (before_concat_last ha hx))
      · intro h y hy hyx
        exact h y (Or.inl hy) ((before_concat_iff hx (mem_of_mem_survivors hy) a).2 hyx)
    · obtain rfl := List.mem_singleton.1 hx
      rw [or_iff_right fun hin => ha (mem_of_mem_survivors hin)]
      constructor
      · rintro ⟨-, h⟩ y (hy | ⟨rfl, -⟩) hyx
        · rw [h y hy]
          exact Bool.false_ne_true
        · exact absurd hyx (Nat.lt_irrefl _)
      · intro h
        refine ⟨rfl, fun y hy => ?_⟩
        rw [← Bool.not_eq_true]
        exact h y (Or.inl hy) (before_concat_last ha (mem_of_mem_survivors hy))

/-! ### What the loop keeps -/

/-- Nothing clashes with the first candidate before it. -/
theorem survivors_singleton (x : α) : survivors clash [x] = [x] := by
  show look clash [] x = [x]
  simp [look]

theorem survivors_sublist (candidates : List α) :
    (survivors clash candidates).Sublist candidates := by
  induction candidates using List.reverseRecOn with
  | nil => exact List.Sublist.refl _
  | append_singleton candidates x ih =>
    rw [survivors_concat, look]
    split
    · exact ih.append (List.Sublist.refl _)
    · exact ih.trans (List.sublist_append_left _ _)

/-- No two that are kept clash. -/
theorem survivors_pairwise (candidates : List α) :
    (survivors clash candidates).Pairwise fun y x => clash y x = false := by
  induction candidates using List.reverseRecOn with
  | nil => exact List.Pairwise.nil
  | append_singleton candidates x ih =>
    rw [survivors_concat, look]
    split
    · rename_i h
      rw [List.pairwise_append]
      refine ⟨ih, List.pairwise_singleton _ _, fun y hy z hz => ?_⟩
      rw [List.mem_singleton.1 hz]
      exact h y hy
    · exact ih

variable (clash) in
/-- **Later candidates cost nothing that is kept**, and only they are kept beside it. -/
theorem exists_survivors_append (candidates more : List α) : ∃ rest, rest.Sublist more ∧
    survivors clash (candidates ++ more) = survivors clash candidates ++ rest := by
  induction more using List.reverseRecOn with
  | nil =>
    refine ⟨[], List.Sublist.refl _, ?_⟩
    rw [List.append_nil, List.append_nil]
  | append_singleton more x ih =>
    obtain ⟨rest, hrest, hsurvivors⟩ := ih
    rw [← List.append_assoc, survivors_concat, look, hsurvivors]
    split
    · refine ⟨rest ++ [x], hrest.append (List.Sublist.refl _), ?_⟩
      rw [List.append_assoc]
    · exact ⟨rest, hrest.trans (List.sublist_append_left _ _), rfl⟩

/-- The first candidate is kept, and stays first. -/
theorem head?_survivors (x : α) (candidates : List α) :
    (survivors clash (x :: candidates)).head? = some x := by
  obtain ⟨rest, -, hrest⟩ := exists_survivors_append clash [x] candidates
  rw [← List.singleton_append, hrest, survivors_singleton]
  rfl

/-- **Other names for the candidates change nothing.** -/
theorem survivors_map {β : Type*} {clash' : β → β → Bool} {f : α → β} {candidates : List α}
    (h : ∀ y ∈ candidates, ∀ x ∈ candidates, clash' (f y) (f x) = clash y x) :
    survivors clash' (candidates.map f) = (survivors clash candidates).map f := by
  induction candidates using List.reverseRecOn with
  | nil => rfl
  | append_singleton candidates x ih =>
    have hx : x ∈ candidates ++ [x] := List.mem_append_right _ (List.mem_singleton_self x)
    have hkept := ih fun y hy z hz =>
      h y (List.mem_append_left _ hy) z (List.mem_append_left _ hz)
    have hclash : (∀ y ∈ (survivors clash candidates).map f, clash' y (f x) = false) ↔
        ∀ y ∈ survivors clash candidates, clash y x = false := by
      rw [List.forall_mem_map]
      refine forall₂_congr fun y hy => ?_
      rw [h y (List.mem_append_left _ (mem_of_mem_survivors hy)) x hx]
    rw [List.map_append, List.map_singleton, survivors_concat, survivors_concat, hkept]
    unfold look
    rw [apply_ite (List.map f), List.map_append]
    exact if_congr hclash rfl rfl

end Loop

end Greedy
