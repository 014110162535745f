import Mathlib

/-!
# Lines of a text

Trimming a text and splitting it at its line ends, over an arbitrary alphabet with a
carriage return and a line feed.

* `trim` — the text without the blanks at its two ends.
* `splitLines` — the lines of a text; a line ends with a line feed, a carriage return, or
  the two of them.
* `splitLines_trim_flatMap` — **lines that were written one after another, each with a line
  feed behind it, are read back.**
-/

namespace Text

variable {α : Type*}

/-! ## Trimming -/

/-- The text without the blanks at its two ends. -/
def trim (blank : α → Bool) (s : List α) : List α :=
  ((s.dropWhile blank).reverse.dropWhile blank).reverse

variable {blank : α → Bool}

@[simp] theorem trim_nil : trim blank [] = [] := rfl

theorem dropWhile_cons_of_not {x : α} (h : blank x = false) (s : List α) :
    (x :: s).dropWhile blank = x :: s := by
  rw [List.dropWhile_cons, h]
  rfl

/-- A text that begins and ends with letters is what is left when a blank behind it is
trimmed. -/
theorem trim_concat {x y z : α} {s t : List α} (hs : s = x :: t) (hx : blank x = false)
    (hlast : s.getLast? = some y) (hy : blank y = false) (hz : blank z = true) :
    trim blank (s ++ [z]) = s := by
  obtain ⟨u, rfl⟩ : ∃ u, s = u ++ [y] :=
    ⟨s.dropLast, (List.dropLast_append_getLast? y hlast).symm⟩
  have hfront : (u ++ [y] ++ [z]).dropWhile blank = u ++ [y] ++ [z] := by
    rw [hs, List.cons_append, dropWhile_cons_of_not hx]
  have hback : (u ++ [y] ++ [z]).reverse = z :: y :: u.reverse := by simp
  rw [trim, hfront, hback, List.dropWhile_cons, if_pos hz, dropWhile_cons_of_not hy]
  simp

/-! ## Splitting at line ends -/

variable [DecidableEq α] {cr lf : α}

/-- The lines of a text. -/
def splitLines (cr lf : α) : List α → List (List α)
  | [] => [[]]
  | [x] => if x = cr ∨ x = lf then [[], []] else [[x]]
  | x :: y :: s =>
    if x = cr ∧ y = lf then [] :: splitLines cr lf s
    else if x = cr ∨ x = lf then [] :: splitLines cr lf (y :: s)
    else (splitLines cr lf (y :: s)).modifyHead (x :: ·)

@[simp] theorem splitLines_nil : splitLines cr lf [] = [[]] := rfl

theorem splitLines_cons_of_ne {x : α} (hcr : x ≠ cr) (hlf : x ≠ lf) (s : List α) :
    splitLines cr lf (x :: s) = (splitLines cr lf s).modifyHead (x :: ·) := by
  have hend : ¬ (x = cr ∨ x = lf) := not_or.2 ⟨hcr, hlf⟩
  cases s with
  | nil => rw [splitLines_nil, List.modifyHead_cons, splitLines, if_neg hend]
  | cons y s => rw [splitLines, if_neg fun h => hcr h.1, if_neg hend]

theorem splitLines_lf (hne : lf ≠ cr) (s : List α) :
    splitLines cr lf (lf :: s) = [] :: splitLines cr lf s := by
  cases s with
  | nil => rw [splitLines_nil, splitLines, if_pos (Or.inr rfl)]
  | cons y s => rw [splitLines, if_neg fun h => hne h.1, if_pos (Or.inr rfl)]

/-- A line of its own. -/
theorem splitLines_of_not_mem {s : List α} (hcr : cr ∉ s) (hlf : lf ∉ s) :
    splitLines cr lf s = [s] := by
  induction s with
  | nil => rfl
  | cons x s ih =>
    rw [List.mem_cons, not_or] at hcr hlf
    rw [splitLines_cons_of_ne (Ne.symm hcr.1) (Ne.symm hlf.1), ih hcr.2 hlf.2,
      List.modifyHead_cons]

/-- The first line. -/
theorem splitLines_append {s : List α} (hne : lf ≠ cr) (hcr : cr ∉ s) (hlf : lf ∉ s)
    (t : List α) : splitLines cr lf (s ++ lf :: t) = s :: splitLines cr lf t := by
  induction s with
  | nil => exact splitLines_lf hne t
  | cons x s ih =>
    rw [List.mem_cons, not_or] at hcr hlf
    rw [List.cons_append, splitLines_cons_of_ne (Ne.symm hcr.1) (Ne.symm hlf.1), ih hcr.2 hlf.2,
      List.modifyHead_cons]

/-! ## Lines that were written -/

/-- What a written line looks like: no line end, and letters at its two ends. -/
structure IsLine (blank : α → Bool) (cr lf : α) (line : List α) : Prop where
  no_cr : cr ∉ line
  no_lf : lf ∉ line
  first : ∃ x t, line = x :: t ∧ blank x = false
  last : ∃ y, line.getLast? = some y ∧ blank y = false

/-- The lines without the last line feed begin and end like lines. -/
theorem exists_lines {lines : List (List α)} (hne : lines ≠ [])
    (hlines : ∀ l ∈ lines, IsLine blank cr lf l) : ∃ s,
    lines.flatMap (· ++ [lf]) = s ++ [lf] ∧ (∃ x t, s = x :: t ∧ blank x = false) ∧
      (∃ y, s.getLast? = some y ∧ blank y = false) ∧
      (lf ≠ cr → splitLines cr lf s = lines) := by
  induction lines with
  | nil => exact absurd rfl hne
  | cons l lines ih =>
    have hl := hlines l List.mem_cons_self
    by_cases hnil : lines = []
    · subst hnil
      refine ⟨l, by simp, hl.first, hl.last, fun _ => splitLines_of_not_mem hl.no_cr hl.no_lf⟩
    · obtain ⟨s, hs, ⟨x, t, hfirst, hx⟩, ⟨y, hlast, hy⟩, hsplit⟩ :=
        ih hnil fun l' hl' => hlines l' (List.mem_cons_of_mem _ hl')
      obtain ⟨x₀, t₀, hfirst₀, hx₀⟩ := hl.first
      refine ⟨l ++ lf :: s, ?_, ⟨x₀, t₀ ++ lf :: s, ?_, hx₀⟩, ⟨y, ?_, hy⟩, fun hne => ?_⟩
      · rw [List.flatMap_cons, hs]
        simp
      · rw [hfirst₀, List.cons_append]
      · rw [hfirst] at hlast ⊢
        rw [List.getLast?_append, List.getLast?_cons_cons, hlast]
        rfl
      · rw [splitLines_append hne hl.no_cr hl.no_lf, hsplit hne]

/-- **Lines that were written one after another are read back.** -/
theorem splitLines_trim_flatMap {lines : List (List α)} (hne : lines ≠ [])
    (hlines : ∀ l ∈ lines, IsLine blank cr lf l) (hcr : lf ≠ cr) (hlf : blank lf = true) :
    splitLines cr lf (trim blank (lines.flatMap (· ++ [lf]))) = lines := by
  obtain ⟨s, hs, ⟨x, t, hfirst, hx⟩, ⟨y, hlast, hy⟩, hsplit⟩ := exists_lines hne hlines
  rw [hs, trim_concat hfirst hx hlast hy hlf, hsplit hcr]

end Text
