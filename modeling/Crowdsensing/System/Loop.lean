import Mathlib.Tactic.Common

/-!
# Loops

A loop is a function `round : σ → Option σ`: what one round makes of a state, and
`none` where the condition of the loop is false.

* `Ends` — the loop, started in one state, comes to an end in another one, with
  `Ends.unique`.
* `exists_ends` — **a loop whose rounds lower a measure ends**, from every state.
* `Ends.invariant` — **what the rounds keep holds at the end**, where the condition is
  false.
-/

namespace Loops

variable {σ : Type*} (round : σ → Option σ)

/-- The loop, started in the first state, ends in the second. -/
inductive Ends : σ → σ → Prop
  /-- The condition is false. -/
  | done {s : σ} (h : round s = none) : Ends s s
  /-- One round, and then the rest. -/
  | next {s s' t : σ} (h : round s = some s') (rest : Ends s' t) : Ends s t

variable {round} {s t : σ}

/-- A loop ends in one state only. -/
theorem Ends.unique (h : Ends round s t) {t' : σ} (h' : Ends round s t') : t = t' := by
  induction h with
  | done hs =>
    cases h' with
    | done _ => rfl
    | next hs' _ => exact absurd (hs.symm.trans hs') (by simp)
  | next hs _ ih =>
    cases h' with
    | done hs' => exact absurd (hs'.symm.trans hs) (by simp)
    | next hs' rest' =>
      obtain rfl := Option.some.inj (hs.symm.trans hs')
      exact ih rest'

/-- **A loop whose rounds lower a measure ends.** -/
theorem exists_ends {measure : σ → ℕ}
    (h : ∀ s s', round s = some s' → measure s' < measure s) (s : σ) : ∃ t, Ends round s t := by
  induction hn : measure s using Nat.strongRecOn generalizing s with
  | _ n ih =>
    cases hs : round s with
    | none => exact ⟨s, .done hs⟩
    | some s' =>
      obtain ⟨t, ht⟩ := ih (measure s') (hn ▸ h s s' hs) s' rfl
      exact ⟨t, .next hs ht⟩

/-- **What the rounds keep holds at the end**, where the condition is false. -/
theorem Ends.invariant {P : σ → Prop} (h : Ends round s t)
    (keep : ∀ s s', P s → round s = some s' → P s') (hs : P s) : P t ∧ round t = none := by
  induction h with
  | done hnone => exact ⟨hs, hnone⟩
  | next hround _ ih => exact ih (keep _ _ hs hround)

end Loops
