import Crowdsensing.System.Run

/-!
# Counting along runs

A measure of the state of a machine goes up and down.  Where every step accounts for the
difference it makes, a run does.  A cell of it is written now and then, and has what was written
last.

* `tally` — what the steps of a run count for, added up.
* `conserved` — **the conservation rule**: what a measure had and gained along a run is what
  it has and lost.
* `tally_of_event` — counting by the events alone is counting the events.
* `gathered` — what the steps of a run bring, one after another.
* `last_write` — **the last write stays**: where every step leaves the last thing it writes, or
  what was there, so does a run.
-/

namespace Runs

variable {σ ε : Type*} (step : σ → ε → Option σ)

/-- What the steps of a run count for, added up. -/
def tally (count : σ → ε → ℕ) : σ → List ε → ℕ
  | _, [] => 0
  | s, e :: es =>
    count s e + match step s e with
      | none => 0
      | some s' => tally count s' es

variable {step} {s₀ : σ}

theorem tally_concat {count : σ → ε → ℕ} {es : List ε} {s : σ} (h : exec step s₀ es = some s)
    (e : ε) : tally step count s₀ (es ++ [e]) = tally step count s₀ es + count s e := by
  induction es generalizing s₀ with
  | nil =>
    obtain rfl := Option.some.inj h
    rw [List.nil_append, tally, tally]
    cases step s₀ e <;> simp [tally]
  | cons f es ih =>
    rw [exec_cons, Option.bind_eq_some_iff] at h
    obtain ⟨m, hm, h⟩ := h
    rw [List.cons_append, tally, tally, hm]
    simp only [ih h, Nat.add_assoc]

/-- **The conservation rule.** -/
theorem conserved (f : σ → ℕ) (gain loss : σ → ε → ℕ)
    (h : ∀ es s e s', exec step s₀ es = some s → step s e = some s' →
      f s' + loss s e = f s + gain s e) :
    ∀ es s, exec step s₀ es = some s →
      f s + tally step loss s₀ es = f s₀ + tally step gain s₀ es := by
  apply history
  · rfl
  · intro es s e s' hs ih hstep
    have hone := h es s e s' hs hstep
    rw [tally_concat hs, tally_concat hs]
    omega

/-- Counting by the events alone is counting the events. -/
theorem tally_of_event (q : ε → Bool) : ∀ es s, exec step s₀ es = some s →
    tally step (fun _ e => if q e then 1 else 0) s₀ es = es.countP q := by
  apply history
  · rfl
  · intro es s e _ hs ih _
    rw [tally_concat hs, ih, List.countP_append, List.countP_singleton]

/-! ## Writes -/

section

variable {β γ : Type*} (step)

/-- What the steps of a run bring, one after another. -/
def gathered (out : σ → ε → List β) : σ → List ε → List β
  | _, [] => []
  | s, e :: es =>
    out s e ++ match step s e with
      | none => []
      | some s' => gathered out s' es

variable {step} {out : σ → ε → List β}

theorem gathered_concat {es : List ε} {s : σ} (h : exec step s₀ es = some s) (e : ε) :
    gathered step out s₀ (es ++ [e]) = gathered step out s₀ es ++ out s e := by
  induction es generalizing s₀ with
  | nil =>
    obtain rfl := Option.some.inj h
    rw [List.nil_append, gathered, gathered]
    cases step s₀ e <;> simp [gathered]
  | cons f es ih =>
    rw [exec_cons, Option.bind_eq_some_iff] at h
    obtain ⟨m, hm, h⟩ := h
    rw [List.cons_append, gathered, gathered, hm]
    simp only [ih h, List.append_assoc]

/-- What a run brings, some step of it brought. -/
theorem exists_of_mem_gathered {b : β} :
    ∀ es s, exec step s₀ es = some s → b ∈ gathered step out s₀ es →
      ∃ pre e post m, es = pre ++ e :: post ∧ exec step s₀ pre = some m ∧ b ∈ out m e := by
  apply history
  · intro h
    exact absurd h List.not_mem_nil
  · intro es s e _ hs ih _ hb
    rw [gathered_concat hs, List.mem_append] at hb
    rcases hb with hb | hb
    · obtain ⟨pre, f, post, m, rfl, hm, hb⟩ := ih hb
      exact ⟨pre, f, post ++ [e], m, by simp, hm, hb⟩
    · exact ⟨es, e, [], s, rfl, hs, hb⟩

/-- What a step of a run brings, the run brings. -/
theorem mem_gathered {b : β} {pre post : List ε} {m : σ} {e : ε} (hm : exec step s₀ pre = some m)
    (hb : b ∈ out m e) : b ∈ gathered step out s₀ (pre ++ e :: post) := by
  induction pre generalizing s₀ with
  | nil =>
    obtain rfl := Option.some.inj hm
    exact List.mem_append_left _ hb
  | cons f pre ih =>
    rw [exec_cons, Option.bind_eq_some_iff] at hm
    obtain ⟨m', hm', hm⟩ := hm
    rw [List.cons_append, gathered, hm']
    exact List.mem_append_right _ (ih hm)

/-- What is left of a value after these writes: the last of those that go to it. -/
def lastWrite (goes : β → Bool) (value : β → γ) (writes : List β) (old : γ) : γ :=
  ((writes.filter goes).getLast?.map value).getD old

/-- What is left is what was there or what was written. -/
theorem lastWrite_cases (goes : β → Bool) (value : β → γ) (writes : List β) (old : γ) :
    lastWrite goes value writes old = old ∨
      ∃ b ∈ writes, goes b = true ∧ lastWrite goes value writes old = value b := by
  unfold lastWrite
  cases h : (writes.filter goes).getLast? with
  | none => exact Or.inl rfl
  | some b =>
    obtain ⟨hb, hgoes⟩ := List.mem_filter.1 (List.mem_of_getLast? h)
    exact Or.inr ⟨b, hb, hgoes, rfl⟩

theorem lastWrite_append (goes : β → Bool) (value : β → γ) (writes more : List β) (old : γ) :
    lastWrite goes value (writes ++ more) old =
      lastWrite goes value more (lastWrite goes value writes old) := by
  unfold lastWrite
  rw [List.filter_append, List.getLast?_append]
  cases (more.filter goes).getLast? <;> simp

/-- **The last write stays.** -/
theorem last_write {f : σ → γ} {goes : β → Bool} {value : β → γ}
    (h : ∀ es s e s', exec step s₀ es = some s → step s e = some s' →
      f s' = lastWrite goes value (out s e) (f s)) :
    ∀ es s, exec step s₀ es = some s →
      f s = lastWrite goes value (gathered step out s₀ es) (f s₀) := by
  apply history
  · rfl
  · intro es s e s' hs ih hstep
    rw [gathered_concat hs, lastWrite_append, ← ih, h es s e s' hs hstep]

end

end Runs
