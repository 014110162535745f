import Crowdsensing.System.Run
import Mathlib.Logic.Function.Basic

/-!
# Parties that send each other messages

A network is a family of parties.  An event of a party may take in messages, changes that party
alone, and may send messages.  What was ever sent can be taken in at any time, by anyone, any
number of times: messages may be lost, delayed, reordered and repeated.

* `Network`, `Network.step` — the parties and all that was ever sent, as one machine.
* `Once` — some event of a history had a property, given the history before it.
* `exec_party` — what a run does to one party is what the events of that party do to it.
* `guaranteed` — **the assume-guarantee rule**: where every party keeps its invariant and sends
  what it promises, as long as what it takes in was promised, every run keeps all of them.
-/

namespace Networks

/-! ## Histories -/

section

variable {ε : Type*}

/-- Some event of the history had the property, given the history before it. -/
def Once (Q : List ε → ε → Prop) (es : List ε) : Prop :=
  ∃ pre e post, es = pre ++ e :: post ∧ Q pre e

theorem once_last {Q : List ε → ε → Prop} {es : List ε} {e : ε} (h : Q es e) :
    Once Q (es ++ [e]) :=
  ⟨es, e, [], rfl, h⟩

/-- What happened once has happened ever after. -/
theorem Once.later {Q : List ε → ε → Prop} {es : List ε} (h : Once Q es) (fs : List ε) :
    Once Q (es ++ fs) := by
  obtain ⟨pre, e, post, rfl, hQ⟩ := h
  exact ⟨pre, e, post ++ fs, by simp, hQ⟩

theorem Once.imp {Q R : List ε → ε → Prop} {es : List ε} (h : Once Q es)
    (hQR : ∀ pre e, Q pre e → R pre e) : Once R es := by
  obtain ⟨pre, e, post, hes, hQ⟩ := h
  exact ⟨pre, e, post, hes, hQR pre e hQ⟩

/-- An event that happened is in the history. -/
theorem Once.exists_mem {Q : List ε → ε → Prop} {es : List ε} (h : Once Q es) :
    ∃ e ∈ es, ∃ pre, Q pre e := by
  obtain ⟨pre, e, post, rfl, hQ⟩ := h
  exact ⟨e, by simp, pre, hQ⟩

end

/-! ## Networks -/

variable {ι μ : Type*} {State Event : ι → Type*}

/-- What the parties do. -/
structure Network (ι μ : Type*) (State Event : ι → Type*) where
  /-- What an event makes of its party, and what it sends: `none` if it cannot happen. -/
  act : ∀ i, State i → Event i → Option (State i × List μ)
  /-- The messages an event takes in. -/
  needs : ∀ i, Event i → List μ

/-- The parties, and all that was ever sent. -/
structure Config (μ : Type*) (State : ι → Type*) where
  states : ∀ i, State i
  sent : List μ := []

namespace Network

variable [DecidableEq ι] [DecidableEq μ] (n : Network ι μ State Event)

/-- One event of one party: `none` if it cannot happen. -/
def step (c : Config μ State) (e : Σ i, Event i) : Option (Config μ State) :=
  if ∀ m ∈ n.needs e.1 e.2, m ∈ c.sent then
    (n.act e.1 (c.states e.1) e.2).map fun r =>
      { states := Function.update c.states e.1 r.1, sent := c.sent ++ r.2 }
  else none

/-- The events of one party. -/
def eventsOf (i : ι) (es : List (Σ i, Event i)) : List (Event i) :=
  es.filterMap fun e => if h : e.1 = i then some (h ▸ e.2) else none

/-- One party by itself. -/
def partyStep (i : ι) (s : State i) (e : Event i) : Option (State i) :=
  (n.act i s e).map Prod.fst

omit [DecidableEq μ] in
@[simp] theorem eventsOf_append (i : ι) (es fs : List (Σ i, Event i)) :
    eventsOf i (es ++ fs) = eventsOf i es ++ eventsOf i fs := List.filterMap_append

omit [DecidableEq μ] in
@[simp] theorem eventsOf_self (i : ι) (e : Event i) : eventsOf i [⟨i, e⟩] = [e] := by
  simp [eventsOf]

omit [DecidableEq μ] in
theorem eventsOf_other {i : ι} {e : Σ i, Event i} (h : e.1 ≠ i) : eventsOf i [e] = [] := by
  simp [eventsOf, h]

omit [DecidableEq μ] in
theorem mem_eventsOf {i : ι} {e : Event i} {es : List (Σ i, Event i)} :
    e ∈ eventsOf i es ↔ ⟨i, e⟩ ∈ es := by
  rw [eventsOf, List.mem_filterMap]
  constructor
  · rintro ⟨⟨j, f⟩, hmem, hf⟩
    by_cases hj : j = i
    · subst hj
      rw [dif_pos rfl, Option.some.injEq] at hf
      exact hf ▸ hmem
    · rw [dif_neg hj] at hf
      exact absurd hf.symm (Option.some_ne_none _)
  · intro hmem
    exact ⟨⟨i, e⟩, hmem, by simp⟩

omit [DecidableEq μ] in
/-- After an event its party has the new state, and the others have the old ones. -/
theorem states_update_self (c : Config μ State) (i : ι) (s : State i) (sent : List μ) :
    ({ states := Function.update c.states i s, sent := sent } : Config μ State).states i = s :=
  Function.update_self i s c.states

omit [DecidableEq μ] in
theorem states_update_other (c : Config μ State) {i j : ι} (h : j ≠ i) (s : State i)
    (sent : List μ) :
    ({ states := Function.update c.states i s, sent := sent } : Config μ State).states j =
      c.states j :=
  Function.update_of_ne h s c.states

variable {n}

theorem step_eq_some {c c' : Config μ State} {i : ι} {e : Event i} :
    n.step c ⟨i, e⟩ = some c' ↔ (∀ m ∈ n.needs i e, m ∈ c.sent) ∧
      ∃ s out, n.act i (c.states i) e = some (s, out) ∧
        c' = { states := Function.update c.states i s, sent := c.sent ++ out } := by
  rw [step, Option.ite_none_right_eq_some, Option.map_eq_some_iff]
  constructor
  · rintro ⟨hneeds, ⟨s, out⟩, hact, rfl⟩
    exact ⟨hneeds, s, out, hact, rfl⟩
  · rintro ⟨hneeds, s, out, hact, rfl⟩
    exact ⟨hneeds, (s, out), hact, rfl⟩

/-- **What a run does to one party is what the events of that party do to it.** -/
theorem exec_party {c c' : Config μ State} {es : List (Σ i, Event i)}
    (h : Runs.exec n.step c es = some c') (i : ι) :
    Runs.exec (n.partyStep i) (c.states i) (eventsOf i es) = some (c'.states i) := by
  refine Runs.history (P := fun es c' =>
    Runs.exec (n.partyStep i) (c.states i) (eventsOf i es) = some (c'.states i)) rfl ?_ es c' h
  rintro es m ⟨j, e⟩ m' - ih hstep
  obtain ⟨-, s, out, hact, rfl⟩ := step_eq_some.1 hstep
  by_cases hj : j = i
  · subst hj
    rw [eventsOf_append, eventsOf_self, Runs.exec_concat]
    refine ⟨_, ih, ?_⟩
    rw [partyStep, hact, Option.map_some, states_update_self]
  · rw [eventsOf_append, eventsOf_other hj, List.append_nil, ih,
      states_update_other _ (Ne.symm hj)]

/-- **The assume-guarantee rule**, for the runs of events with a property.  Invariants of the
parties and promises about the messages may speak about the history: an event of another party
does no harm to an invariant, and what was promised stays so. -/
theorem guaranteed {A : (Σ i, Event i) → Prop} {I : List (Σ i, Event i) → ∀ i, State i → Prop}
    {P : List (Σ i, Event i) → μ → Prop} {c₀ : Config μ State}
    (init : ∀ i, I [] i (c₀.states i)) (hsent : ∀ m ∈ c₀.sent, P [] m)
    (other : ∀ es e i s, e.1 ≠ i → I es i s → I (es ++ [e]) i s)
    (later : ∀ es e m, P es m → P (es ++ [e]) m)
    (next : ∀ es i s e s' out, A ⟨i, e⟩ → I es i s → (∀ m ∈ n.needs i e, P es m) →
      n.act i s e = some (s', out) →
        I (es ++ [⟨i, e⟩]) i s' ∧ ∀ m ∈ out, P (es ++ [⟨i, e⟩]) m) :
    ∀ es c, Runs.exec n.step c₀ es = some c → (∀ e ∈ es, A e) →
      (∀ i, I es i (c.states i)) ∧ ∀ m ∈ c.sent, P es m := by
  apply Runs.history
  · exact fun _ => ⟨init, hsent⟩
  · rintro es c ⟨i, e⟩ c' - ih hstep hA
    obtain ⟨hI, hP⟩ := ih fun e he => hA e (List.mem_append_left _ he)
    obtain ⟨hneeds, s, out, hact, rfl⟩ := step_eq_some.1 hstep
    obtain ⟨hs, hout⟩ := next es i (c.states i) e s out (hA ⟨i, e⟩ (by simp)) (hI i)
      (fun m hm => hP m (hneeds m hm)) hact
    constructor
    · intro j
      by_cases hj : j = i
      · subst hj
        rw [states_update_self]
        exact hs
      · rw [states_update_other _ hj]
        exact other es ⟨i, e⟩ j _ (Ne.symm hj) (hI j)
    · intro m hm
      rcases List.mem_append.1 hm with hm | hm
      · exact later es ⟨i, e⟩ m (hP m hm)
      · exact hout m hm

end Network

end Networks
