import Mathlib.Data.List.Induction
import Mathlib.Tactic.Common

/-!
# Runs of a partial machine

A machine is a function `step : σ → ε → Option σ`: what an event does to a state,
and `none` where the event cannot happen there or the machine stops at it.

* `exec` — the state a list of events leads to, with `exec_append` and
  `exec_concat`.
* `Along` — a property of every step of a run, given the history before it, with
  `along_concat` and `along_cons`; it can be decided where each step can.
* `history_along` — **the invariant rule** for the runs all of whose steps have a property:
  what holds of the empty history and is kept by every such step holds of every history and
  the state it leads to; `history` is the rule for all runs.
* `along_of_step` — a property that every step needs to be taken holds along every run.
* `along_congr` — two properties that agree wherever the first has held so far
  hold along the same runs.
-/

namespace Runs

variable {σ ε : Type*} (step : σ → ε → Option σ)

/-- The state a list of events leads to. -/
def exec : σ → List ε → Option σ
  | s, [] => some s
  | s, e :: es => (step s e).bind fun s' => exec s' es

/-- A property of the steps of a run, each given with the events before it and the
state they lead to. -/
def Along (Q : List ε → σ → ε → Prop) (s₀ : σ) (es : List ε) : Prop :=
  ∀ pre e post, es = pre ++ e :: post → ∀ s, exec step s₀ pre = some s → Q pre s e

variable {step} {s₀ : σ}

@[simp] theorem exec_nil (s : σ) : exec step s [] = some s := rfl

theorem exec_cons (s : σ) (e : ε) (es : List ε) :
    exec step s (e :: es) = (step s e).bind fun s' => exec step s' es := rfl

theorem exec_append (s : σ) (es fs : List ε) :
    exec step s (es ++ fs) = (exec step s es).bind fun s' => exec step s' fs := by
  induction es generalizing s with
  | nil => rfl
  | cons e es ih =>
    rw [List.cons_append, exec_cons, exec_cons, Option.bind_assoc]
    exact congrArg _ (funext ih)

theorem exec_concat {s s' : σ} {es : List ε} {e : ε} :
    exec step s (es ++ [e]) = some s' ↔ ∃ m, exec step s es = some m ∧ step m e = some s' := by
  rw [exec_append, Option.bind_eq_some_iff]
  refine exists_congr fun m => and_congr_right fun _ => ?_
  rw [exec_cons, Option.bind_eq_some_iff]
  constructor
  · rintro ⟨t, ht, heq⟩
    rw [ht, ← heq, exec_nil]
  · intro h
    exact ⟨s', h, rfl⟩

/-- A run that goes on has gone through its beginning. -/
theorem exec_of_append {s s' : σ} {es fs : List ε} (h : exec step s (es ++ fs) = some s') :
    ∃ m, exec step s es = some m ∧ exec step m fs = some s' := by
  rw [exec_append] at h
  exact Option.bind_eq_some_iff.1 h

/-! ## Properties of every step -/

theorem along_nil (Q : List ε → σ → ε → Prop) : Along step Q s₀ [] := by
  intro pre e post h
  exact absurd h (by simp)

theorem along_concat {Q : List ε → σ → ε → Prop} {es : List ε} {e : ε} :
    Along step Q s₀ (es ++ [e]) ↔
      Along step Q s₀ es ∧ ∀ s, exec step s₀ es = some s → Q es s e := by
  constructor
  · intro h
    refine ⟨fun pre f post hes => h pre f (post ++ [e]) ?_, h es e [] rfl⟩
    rw [hes, List.append_assoc, List.cons_append]
  · rintro ⟨h, hlast⟩ pre f post hes
    rcases List.eq_nil_or_concat post with rfl | ⟨post, g, rfl⟩
    · obtain ⟨rfl, hef⟩ := List.append_inj' hes rfl
      obtain rfl := List.singleton_inj.1 hef
      exact hlast
    · rw [List.concat_eq_append, ← List.cons_append, ← List.append_assoc] at hes
      exact h pre f post (List.append_inj' hes rfl).1

/-- A property of the steps of a run, from its first step on. -/
theorem along_cons {Q : List ε → σ → ε → Prop} {s : σ} {e : ε} {es : List ε} :
    Along step Q s (e :: es) ↔ Q [] s e ∧
      ∀ s', step s e = some s' → Along step (fun pre => Q (e :: pre)) s' es := by
  constructor
  · intro h
    refine ⟨h [] e es rfl s rfl, fun s' hstep pre f post hes t ht => ?_⟩
    refine h (e :: pre) f post (by rw [hes, List.cons_append]) t ?_
    rw [exec_cons, hstep]
    exact ht
  · rintro ⟨hfirst, hrest⟩ pre f post hes t ht
    cases pre with
    | nil =>
      obtain ⟨rfl, rfl⟩ := List.cons.inj hes
      rw [← Option.some.inj ht]
      exact hfirst
    | cons e' pre =>
      obtain ⟨rfl, rfl⟩ := List.cons.inj hes
      rw [exec_cons, Option.bind_eq_some_iff] at ht
      obtain ⟨s', hstep, ht⟩ := ht
      exact hrest s' hstep pre f post rfl t ht

/-- A property that can be decided at every step can be decided along a run. -/
def decidableAlong : ∀ (Q : List ε → σ → ε → Prop) [∀ pre s e, Decidable (Q pre s e)]
    (es : List ε) (s : σ), Decidable (Along step Q s es)
  | Q, _, [], _ => isTrue (along_nil Q)
  | Q, _, e :: es, s =>
    have : ∀ s', Decidable (Along step (fun pre => Q (e :: pre)) s' es) := fun s' =>
      decidableAlong (fun pre => Q (e :: pre)) es s'
    decidable_of_iff (Q [] s e ∧
      ∀ s' ∈ step s e, Along step (fun pre => Q (e :: pre)) s' es) along_cons.symm

instance (Q : List ε → σ → ε → Prop) [∀ pre s e, Decidable (Q pre s e)] (es : List ε) (s : σ) :
    Decidable (Along step Q s es) := decidableAlong Q es s

/-- What holds along a run holds along its beginning. -/
theorem Along.of_append {Q : List ε → σ → ε → Prop} {es fs : List ε}
    (h : Along step Q s₀ (es ++ fs)) : Along step Q s₀ es := by
  intro pre e post hes
  refine h pre e (post ++ fs) ?_
  rw [hes, List.append_assoc, List.cons_append]

theorem Along.mono {Q R : List ε → σ → ε → Prop} {es : List ε} (h : Along step Q s₀ es)
    (hQR : ∀ pre s e, exec step s₀ pre = some s → Q pre s e → R pre s e) :
    Along step R s₀ es :=
  fun pre e post hes s hs => hQR pre s e hs (h pre e post hes s hs)

/-- **The invariant rule for the runs whose steps all have a property.** -/
theorem history_along {Q : List ε → σ → ε → Prop} {P : List ε → σ → Prop} (init : P [] s₀)
    (next : ∀ es s e s', exec step s₀ es = some s → P es s → Q es s e → step s e = some s' →
      P (es ++ [e]) s') :
    ∀ es s, Along step Q s₀ es → exec step s₀ es = some s → P es s := by
  intro es
  induction es using List.reverseRecOn with
  | nil =>
    intro s _ h
    rw [exec_nil, Option.some.injEq] at h
    rw [← h]
    exact init
  | append_singleton es e ih =>
    intro s' hQ h
    obtain ⟨s, hs, hstep⟩ := exec_concat.1 h
    obtain ⟨hes, he⟩ := along_concat.1 hQ
    exact next es s e s' hs (ih s hes hs) (he s hs) hstep

/-- **The invariant rule.** -/
theorem history {P : List ε → σ → Prop} (init : P [] s₀)
    (next : ∀ es s e s', exec step s₀ es = some s → P es s → step s e = some s' →
      P (es ++ [e]) s') :
    ∀ es s, exec step s₀ es = some s → P es s := by
  intro es s h
  have hall : Along step (fun _ _ _ => True) s₀ es := fun _ _ _ _ _ _ => trivial
  exact history_along init (fun es s e s' hes hP _ hstep => next es s e s' hes hP hstep) es s hall h

/-- **A property that no step is taken without**, as long as it has held before, holds along
the run. -/
theorem along_of_step {Q : List ε → σ → ε → Prop} {es : List ε} {s : σ}
    (hrun : exec step s₀ es = some s)
    (h : ∀ pre e post m m', es = pre ++ e :: post → exec step s₀ pre = some m →
      Along step Q s₀ pre → step m e = some m' → Q pre m e) : Along step Q s₀ es := by
  have hbegin : ∀ pre post, es = pre ++ post → Along step Q s₀ pre := by
    intro pre
    induction pre using List.reverseRecOn with
    | nil => exact fun _ _ => along_nil Q
    | append_singleton pre e ih =>
      intro post hes
      rw [List.append_assoc] at hes
      have hpre := ih _ hes
      refine along_concat.2 ⟨hpre, fun m hm => ?_⟩
      rw [hes, ← List.append_assoc] at hrun
      obtain ⟨m', hm', -⟩ := exec_of_append hrun
      obtain ⟨m₁, hm₁, hstep⟩ := exec_concat.1 hm'
      obtain rfl := Option.some.inj (hm.symm.trans hm₁)
      exact h pre e post m m' hes hm hpre hstep
  exact hbegin es [] (List.append_nil es).symm

/-- **Two properties that agree as long as the first holds** hold along the same
runs. -/
theorem along_congr {Q R : List ε → σ → ε → Prop}
    (h : ∀ es s e, exec step s₀ es = some s → Along step Q s₀ es → (Q es s e ↔ R es s e)) :
    ∀ es, Along step Q s₀ es ↔ Along step R s₀ es := by
  intro es
  induction es using List.reverseRecOn with
  | nil => exact iff_of_true (along_nil Q) (along_nil R)
  | append_singleton es e ih =>
    rw [along_concat, along_concat, ← ih]
    exact and_congr_right fun hQ => forall₂_congr fun s hs => h es s e hs hQ

end Runs
