import Crowdsensing.System.Run

/-!
# Runs with events deleted

Some events of a run may be of no account.  Deleting them gives another run, and the
question is whether an observer of the other events sees a difference.

* `trace` — what the steps of a run show, one by one.
* `kept`, `keptTrace` — the events of a run that are not skipped, and what they show
  there.
* `trace_congr` — states related by a symmetric simulation show the same.
* `trace_kept` — **the simulation rule**: a relation that a skipped event keeps on one
  side, and any other event on both sides, makes the deletion invisible.
* `trace_filter` — the same for events that are told by themselves.
-/

namespace Runs

variable {σ ε β : Type*} (step : σ → ε → Option σ) (out : σ → σ → β) (skip : σ → ε → Bool)

/-- What the steps of a run show. -/
def trace : σ → List ε → Option (List β)
  | _, [] => some []
  | s, e :: es => (step s e).bind fun s' => (trace s' es).map (out s s' :: ·)

/-- The events of a run that are not skipped. -/
def kept : σ → List ε → List ε
  | _, [] => []
  | s, e :: es =>
    match step s e with
    | none => []
    | some s' => if skip s e then kept s' es else e :: kept s' es

/-- What the events of a run that are not skipped show. -/
def keptTrace : σ → List ε → List β
  | _, [] => []
  | s, e :: es =>
    match step s e with
    | none => []
    | some s' => if skip s e then keptTrace s' es else out s s' :: keptTrace s' es

variable {step out skip}

/-- States related by a symmetric simulation show the same. -/
theorem trace_congr {R : σ → σ → Prop} (symm : ∀ s t, R s t → R t s)
    (simulated : ∀ s t e s', R s t → step s e = some s' →
      ∃ t', step t e = some t' ∧ R s' t' ∧ out t t' = out s s') :
    ∀ (es : List ε) (s t : σ), R s t → trace step out s es = trace step out t es := by
  intro es
  induction es with
  | nil =>
    intro s t _
    rfl
  | cons e es ih =>
    intro s t hR
    cases hs : step s e with
    | some s' =>
      obtain ⟨t', ht', hR', hout⟩ := simulated s t e s' hR hs
      simp only [trace, hs, ht', Option.bind_some, hout, ih s' t' hR']
    | none =>
      cases ht : step t e with
      | none => simp only [trace, hs, ht, Option.bind_none]
      | some t' =>
        obtain ⟨s', hs', -⟩ := simulated t s e t' (symm s t hR) ht
        exact absurd (hs.symm.trans hs') nofun

/-- **The simulation rule.** -/
theorem trace_kept {R : σ → σ → Prop} {Q : σ → ε → Prop}
    (skipped : ∀ s t e s', R s t → Q s e → skip s e = true → step s e = some s' → R s' t)
    (simulated : ∀ s t e s', R s t → skip s e = false → step s e = some s' →
      ∃ t', step t e = some t' ∧ R s' t' ∧ out t t' = out s s') :
    ∀ (es : List ε) (s t s' : σ), R s t → Along step (fun _ => Q) s es →
      exec step s es = some s' →
      trace step out t (kept step skip s es) = some (keptTrace step out skip s es) := by
  intro es
  induction es with
  | nil =>
    intro s t s' _ _ _
    rfl
  | cons e es ih =>
    intro s t s' hR halong hexec
    obtain ⟨hfirst, hrest⟩ := along_cons.1 halong
    rw [exec_cons, Option.bind_eq_some_iff] at hexec
    obtain ⟨m, hstep, hexec⟩ := hexec
    cases hskip : skip s e with
    | true =>
      simp only [kept, keptTrace, hstep, hskip, if_true]
      exact ih m t s' (skipped s t e m hR hfirst hskip hstep) (hrest m hstep) hexec
    | false =>
      obtain ⟨t', ht', hR', hout⟩ := simulated s t e m hR hskip hstep
      simp only [kept, keptTrace, hstep, hskip, Bool.false_eq_true, if_false, trace, ht',
        Option.bind_some, hout]
      rw [ih m t' s' hR' (hrest m hstep) hexec, Option.map_some]

/-- The simulation rule for events that are told by themselves: the ones left show what they
showed before. -/
theorem trace_filter {R : σ → σ → Prop} {q : ε → Bool}
    (skipped : ∀ s t e s', R s t → q e = false → step s e = some s' → R s' t)
    (simulated : ∀ s t e s', R s t → q e = true → step s e = some s' →
      ∃ t', step t e = some t' ∧ R s' t' ∧ out t t' = out s s') :
    ∀ (es : List ε) (s t : σ) (shown : List β), R s t → trace step out s es = some shown →
      trace step out t (es.filter q) =
        some (((es.zip shown).filter fun p => q p.1).map Prod.snd) := by
  intro es
  induction es with
  | nil =>
    intro s t shown _ htrace
    rw [← Option.some.inj htrace]
    rfl
  | cons e es ih =>
    intro s t shown hR htrace
    obtain ⟨m, hstep, htrace⟩ := Option.bind_eq_some_iff.1 htrace
    obtain ⟨rest, hrest, rfl⟩ := Option.map_eq_some_iff.1 htrace
    cases hq : q e with
    | false => simpa [hq] using ih m t rest (skipped s t e m hR hq hstep) hrest
    | true =>
      obtain ⟨t', ht', hR', hout⟩ := simulated s t e m hR hq hstep
      have htail := ih m t' rest hR' hrest
      simp [hq, trace, ht', htail, hout]

end Runs
