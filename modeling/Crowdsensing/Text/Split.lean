import Mathlib

/-!
# Splitting, joining and replacing in lists

The string algorithms that hand-written parsers are made of, over an arbitrary
alphabet.  `List.splitOn` and `List.intercalate` are used as they stand; this
file adds what a parser that works from the *end* of a text needs, and the
search-and-replace loop.

* `afterLast`, `beforeLast` — the text after and before the last separator,
  with `splitOn_eq_beforeLast` relating them to the list of pieces: the last
  piece is `afterLast`, the pieces before it are those of `beforeLast`.
* `nil_not_mem_splitOn`, `forall_splitOn_eq_nil` — **which texts have an empty piece**, and
  which have no other.
* `replaceAll` — replace every non-overlapping occurrence of a pattern, from
  left to right, with `replaceAll_append` and `replaceAll_cons` as its two
  equations and `replaceAll_singleton_nil` for the deletion of one letter.
-/

namespace Text

variable {α : Type*} [DecidableEq α]

/-! ## The pieces of a split -/

theorem not_mem_of_mem_splitOn {c : α} {s p : List α} (hp : p ∈ s.splitOn c) : c ∉ p := by
  induction s generalizing p with
  | nil =>
    rw [List.splitOn_nil, List.mem_singleton] at hp
    subst hp
    exact List.not_mem_nil
  | cons x s ih =>
    rw [List.splitOn_cons_eq_if_modifyHead] at hp
    split at hp
    · rcases List.mem_cons.1 hp with rfl | hp
      · exact List.not_mem_nil
      · exact ih hp
    · rename_i hx
      cases hs : s.splitOn c with
      | nil => exact absurd hs (List.splitOn_ne_nil c s)
      | cons q qs =>
        rw [hs] at ih
        rw [hs, List.modifyHead_cons] at hp
        rcases List.mem_cons.1 hp with rfl | hp
        · intro hc
          rcases List.mem_cons.1 hc with rfl | hc
          · exact hx (beq_self_eq_true _)
          · exact ih (List.mem_cons_self ..) hc
        · exact ih (List.mem_cons_of_mem _ hp)

theorem mem_of_mem_splitOn {c x : α} {s p : List α} (hp : p ∈ s.splitOn c) (hx : x ∈ p) :
    x ∈ s := by
  have hmem : ∀ ps : List (List α), p ∈ ps → x ∈ [c].intercalate ps := by
    intro ps
    induction ps with
    | nil => intro h; exact absurd h List.not_mem_nil
    | cons q qs ih =>
      intro h
      cases qs with
      | nil =>
        rw [List.mem_singleton] at h
        subst h
        simpa using hx
      | cons r rs =>
        rw [List.intercalate_cons_cons]
        rcases List.mem_cons.1 h with rfl | h
        · simp [hx]
        · exact List.mem_append_right _ (ih h)
  have := hmem _ hp
  rwa [List.intercalate_splitOn] at this

/-- The pieces of a text built by putting the separator in front of every piece. -/
theorem splitOn_flatMap_cons {c : α} (ps : List (List α)) (h : ∀ p ∈ ps, c ∉ p) :
    (ps.flatMap (c :: ·)).splitOn c = [] :: ps := by
  induction ps with
  | nil => rfl
  | cons p ps ih =>
    have hp : c ∉ p := h p (List.mem_cons_self ..)
    have htail : (ps.flatMap (c :: ·)).splitOn c = [] :: ps :=
      ih fun q hq => h q (List.mem_cons_of_mem _ hq)
    rw [List.flatMap_cons, List.cons_append, List.splitOn_cons_eq_if_modifyHead, beq_self_eq_true,
      if_pos rfl]
    congr 1
    cases ps with
    | nil => simpa using List.splitOn_eq_singleton hp
    | cons q qs =>
      rw [List.flatMap_cons, List.cons_append, List.splitOn_append_cons_self_of_not_mem hp]
      rw [List.flatMap_cons, List.cons_append, List.splitOn_cons_eq_if_modifyHead,
        beq_self_eq_true, if_pos rfl] at htail
      exact congrArg (p :: ·) (List.cons.inj htail).2

/-- The first piece is empty where the text is, or begins with the separator; the others
are filled where the separator neither ends the text nor is doubled. -/
theorem splitOn_eq_cons (c : α) (s : List α) : ∃ p ps, s.splitOn c = p :: ps ∧
    (p = [] ↔ s = [] ∨ [c] <+: s) ∧ ([] ∈ ps ↔ [c] <:+ s ∨ [c, c] <:+: s) := by
  induction s with
  | nil => exact ⟨[], [], rfl, by simp, by simp⟩
  | cons x s ih =>
    obtain ⟨p, ps, hsplit, hp, hps⟩ := ih
    rw [List.splitOn_cons_eq_if_modifyHead, hsplit]
    by_cases hx : x = c
    · subst hx
      refine ⟨[], p :: ps, by simp, by simp, ?_⟩
      have hhead : [] ∈ p :: ps ↔ p = [] ∨ [] ∈ ps := by simp [eq_comm]
      rw [hhead, hp, hps, List.suffix_cons_iff, List.infix_cons_iff, List.cons_prefix_cons]
      simp only [List.cons.injEq, true_and, eq_comm (a := ([] : List α))]
      tauto
    · refine ⟨x :: p, ps, by simp [hx], by simp [Ne.symm hx], ?_⟩
      rw [hps, List.suffix_cons_iff, List.infix_cons_iff, List.cons_prefix_cons]
      simp [Ne.symm hx]

/-- **The pieces of a split are all filled** exactly if the text is, and the separator neither
begins nor ends it nor is doubled. -/
theorem nil_not_mem_splitOn {c : α} {s : List α} :
    [] ∉ s.splitOn c ↔ s ≠ [] ∧ ¬ [c] <+: s ∧ ¬ [c] <:+ s ∧ ¬ [c, c] <:+: s := by
  obtain ⟨p, ps, hsplit, hp, hps⟩ := splitOn_eq_cons c s
  have hhead : [] ∈ p :: ps ↔ p = [] ∨ [] ∈ ps := by simp [eq_comm]
  rw [hsplit, hhead, hp, hps]
  tauto

/-- The pieces of a split are all empty exactly if the text is made of separators. -/
theorem forall_splitOn_eq_nil {c : α} {s : List α} :
    (∀ p ∈ s.splitOn c, p = []) ↔ ∀ x ∈ s, x = c := by
  induction s with
  | nil => simp
  | cons x s ih =>
    rw [List.splitOn_cons_eq_if_modifyHead]
    by_cases hx : x = c
    · simp [hx, ih]
    · cases hs : s.splitOn c with
      | nil => exact absurd hs (List.splitOn_ne_nil c s)
      | cons p ps => simp [hx]

/-- Filled pieces with the separator in front of each make no doubled separator. -/
theorem not_doubled_flatMap_cons {c : α} {ps : List (List α)} (h : ∀ p ∈ ps, p ≠ [] ∧ c ∉ p) :
    ¬ [c, c] <:+: ps.flatMap (c :: ·) := by
  intro hdoubled
  obtain ⟨q, qs, hsplit, -, hqs⟩ := splitOn_eq_cons c (ps.flatMap (c :: ·))
  rw [splitOn_flatMap_cons ps fun p hp => (h p hp).2] at hsplit
  obtain ⟨-, rfl⟩ := List.cons.inj hsplit
  exact (h [] (hqs.2 (Or.inr hdoubled))).1 rfl

omit [DecidableEq α] in
/-- Joining pieces with a separator in front of each is joining them and putting
one more separator in front. -/
theorem cons_intercalate {c : α} {ps : List (List α)} (h : ps ≠ []) :
    c :: [c].intercalate ps = ps.flatMap (c :: ·) := by
  induction ps with
  | nil => exact absurd rfl h
  | cons p ps ih =>
    cases ps with
    | nil => simp
    | cons q qs =>
      rw [List.intercalate_cons_cons, List.flatMap_cons, ← ih (by simp)]
      simp

omit [DecidableEq α] in
theorem mem_of_mem_intercalate {x : α} {c : List α} {ps : List (List α)}
    (h : x ∈ c.intercalate ps) : x ∈ c ∨ ∃ p ∈ ps, x ∈ p := by
  induction ps with
  | nil => exact absurd h (by simp)
  | cons p ps ih =>
    cases ps with
    | nil => exact Or.inr ⟨p, List.mem_cons_self, by simpa using h⟩
    | cons q ps =>
      rw [List.intercalate_cons_cons, List.mem_append, List.mem_append] at h
      rcases h with (h | h) | h
      · exact Or.inr ⟨p, List.mem_cons_self, h⟩
      · exact Or.inl h
      · exact (ih h).imp_right fun ⟨q, hq, hx⟩ => ⟨q, List.mem_cons_of_mem _ hq, hx⟩

/-! ## The last separator -/

/-- Everything after the last `c` (the whole text if there is none). -/
def afterLast (c : α) (s : List α) : List α := (s.reverse.takeWhile (· ≠ c)).reverse

/-- Everything before the last `c` (empty if there is none). -/
def beforeLast (c : α) (s : List α) : List α := (s.reverse.dropWhile (· ≠ c)).tail.reverse

theorem not_mem_afterLast (c : α) (s : List α) : c ∉ afterLast c s := by
  intro h
  have := List.mem_takeWhile_imp (List.mem_reverse.1 h)
  simp at this

theorem afterLast_append {c : α} {a b : List α} (hb : c ∉ b) :
    afterLast c (a ++ c :: b) = b := by
  have hall : ∀ x ∈ b.reverse, decide (x ≠ c) = true := by
    intro x hx
    simpa using fun hc => hb (by rw [← hc]; exact List.mem_reverse.1 hx)
  rw [afterLast, List.reverse_append, List.reverse_cons, List.append_assoc,
    List.takeWhile_append_of_pos hall]
  simp

theorem beforeLast_append {c : α} {a b : List α} (hb : c ∉ b) :
    beforeLast c (a ++ c :: b) = a := by
  have hall : ∀ x ∈ b.reverse, decide (x ≠ c) = true := by
    intro x hx
    simpa using fun hc => hb (by rw [← hc]; exact List.mem_reverse.1 hx)
  rw [beforeLast, List.reverse_append, List.reverse_cons, List.append_assoc,
    List.dropWhile_append_of_pos hall]
  simp

theorem afterLast_of_not_mem {c : α} {s : List α} (h : c ∉ s) : afterLast c s = s := by
  rw [afterLast, List.takeWhile_eq_self_iff.2 ?_, List.reverse_reverse]
  intro x hx
  simpa using fun hc => h (by rw [← hc]; exact List.mem_reverse.1 hx)

/-- A text with a separator is what stands before the last one, the separator,
and what stands after it. -/
theorem beforeLast_append_afterLast {c : α} {s : List α} (h : c ∈ s) :
    beforeLast c s ++ c :: afterLast c s = s := by
  obtain ⟨b, a, hs, hb⟩ := List.eq_append_cons_of_mem (List.mem_reverse.2 h)
  have hs' : s = a.reverse ++ c :: b.reverse := by
    rw [← List.reverse_reverse s, hs]
    simp
  have hb' : c ∉ b.reverse := fun hc => hb (List.mem_reverse.1 hc)
  rw [hs', beforeLast_append hb', afterLast_append hb']

theorem mem_of_mem_afterLast {c x : α} {s : List α} (h : x ∈ afterLast c s) : x ∈ s := by
  rw [afterLast, List.mem_reverse] at h
  exact List.mem_reverse.1 (List.takeWhile_subset _ h)

theorem mem_of_mem_beforeLast {c x : α} {s : List α} (h : x ∈ beforeLast c s) : x ∈ s := by
  rw [beforeLast, List.mem_reverse] at h
  exact List.mem_reverse.1 ((List.dropWhile_suffix _).subset (List.mem_of_mem_tail h))

theorem splitOn_eq_beforeLast {c : α} {s : List α} (h : c ∈ s) :
    s.splitOn c = (beforeLast c s).splitOn c ++ [afterLast c s] := by
  conv_lhs => rw [← beforeLast_append_afterLast h]
  rw [List.splitOn_append_cons_self, List.splitOn_eq_singleton (not_mem_afterLast c s)]

/-- The last piece of a text is what stands after its last separator. -/
theorem getLast?_splitOn (c : α) (s : List α) : (s.splitOn c).getLast? = some (afterLast c s) := by
  by_cases h : c ∈ s
  · rw [splitOn_eq_beforeLast h, List.getLast?_concat]
  · rw [List.splitOn_eq_singleton h, afterLast_of_not_mem h, List.getLast?_singleton]

/-- The pieces before the last one are the pieces of what stands before the last
separator. -/
theorem dropLast_splitOn {c : α} {s : List α} (h : c ∈ s) :
    (s.splitOn c).dropLast = (beforeLast c s).splitOn c := by
  rw [splitOn_eq_beforeLast h, List.dropLast_concat]

theorem dropLast_splitOn_of_not_mem {c : α} {s : List α} (h : c ∉ s) :
    (s.splitOn c).dropLast = [] := by
  rw [List.splitOn_eq_singleton h]
  rfl

/-! ## Search and replace -/

/-- The loop of `replaceAll`: `k` letters of a match are still to be skipped. -/
def replaceAllAux (pat rep : List α) : ℕ → List α → List α
  | _, [] => []
  | k + 1, _ :: s => replaceAllAux pat rep k s
  | 0, x :: s =>
    if pat ≠ [] ∧ pat <+: x :: s then rep ++ replaceAllAux pat rep (pat.length - 1) s
    else x :: replaceAllAux pat rep 0 s

/-- Replace every non-overlapping occurrence of `pat`, from left to right, by
`rep`.  The empty pattern occurs nowhere. -/
def replaceAll (pat rep s : List α) : List α := replaceAllAux pat rep 0 s

@[simp] theorem replaceAll_nil (pat rep : List α) : replaceAll pat rep [] = [] := rfl

theorem replaceAllAux_append (pat rep : List α) (p s : List α) :
    replaceAllAux pat rep p.length (p ++ s) = replaceAll pat rep s := by
  induction p with
  | nil => rfl
  | cons x p ih => simpa [replaceAllAux] using ih

/-- An occurrence at the front is replaced, and the search goes on behind it. -/
theorem replaceAll_append {pat : List α} (h : pat ≠ []) (rep s : List α) :
    replaceAll pat rep (pat ++ s) = rep ++ replaceAll pat rep s := by
  cases pat with
  | nil => exact absurd rfl h
  | cons x p =>
    rw [List.cons_append, replaceAll, replaceAllAux,
      if_pos ⟨by simp, (List.cons_prefix_cons.2 ⟨rfl, List.prefix_append p s⟩)⟩]
    exact congrArg (rep ++ ·) (replaceAllAux_append (x :: p) rep p s)

/-- Where the pattern does not begin, the letter is copied. -/
theorem replaceAll_cons {pat : List α} {x : α} {s : List α} (h : ¬ pat <+: x :: s)
    (rep : List α) : replaceAll pat rep (x :: s) = x :: replaceAll pat rep s := by
  rw [replaceAll, replaceAllAux, if_neg (fun hc => h hc.2)]
  rfl

/-- Replacing a single letter by nothing deletes it. -/
theorem replaceAll_singleton_nil (c : α) (s : List α) :
    replaceAll [c] [] s = s.filter (· ≠ c) := by
  induction s with
  | nil => rfl
  | cons x s ih =>
    by_cases hx : x = c
    · subst hx
      have := replaceAll_append (List.cons_ne_nil x []) [] s
      simpa [ih] using this
    · rw [replaceAll_cons (fun hc => hx (List.cons_prefix_cons.1 hc).1.symm), ih,
        List.filter_cons_of_pos (by simpa using hx)]

/-- How often a pattern occurs in a text. -/
def occurrences (pat s : List α) : ℕ := s.tails.countP fun t => decide (pat <+: t)

theorem occurrences_cons (pat : List α) (x : α) (s : List α) :
    occurrences pat (x :: s) = occurrences pat s + if pat <+: x :: s then 1 else 0 := by
  simp [occurrences, List.countP_cons]

end Text
