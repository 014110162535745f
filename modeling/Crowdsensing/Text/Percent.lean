import Crowdsensing.Text.Split

/-!
# Percent escapes

Escapes made of a mark and two digits, over an arbitrary alphabet: `scan` reads
a text once from left to right and replaces the escapes a table knows, and
`escape` writes every letter that may not stand for itself as an escape.

* `replaceAll_scan` — **a replacement pass is one more table entry**: replacing
  the escape `mark d e` by `c` after a scan is the scan with `c` entered for
  `d e`, provided neither `c` nor the letters the table already produces can be
  part of an escape.  Successive passes therefore compute one scan, whatever
  their order.
* `replaceEscapes_scan` — the passes for several escapes are one scan.
* `IsEscapeList.replaceEscapes_perm`, `scan_scan`, `IsEscapeList.occurrences_replaceAll` —
  **the passes may be made in any order, leave nothing for a second time, and neither make
  nor destroy each other's escapes.**
* `scan_escape_append` — a scan of an escaped text acts letter by letter.
* `scan_flatMap_piece` — the inverse: a scan with the full table undoes an escaped
  text even after some of its escapes have been replaced by their letters.
-/

namespace Text

variable {α : Type*} [DecidableEq α]

/-- Which letter, if any, the escape with the two given digits stands for. -/
abbrev EscapeTable (α : Type*) := α → α → Option α

/-- One pass from left to right that replaces every escape the table knows and
copies everything else. -/
def scan (mark : α) (T : EscapeTable α) : List α → List α
  | [] => []
  | [x] => [x]
  | [x, y] => [x, y]
  | x :: d :: e :: s =>
    if x = mark then
      match T d e with
      | some c => c :: scan mark T s
      | none => x :: scan mark T (d :: e :: s)
    else x :: scan mark T (d :: e :: s)

/-- The table with one more escape. -/
def EscapeTable.insert (T : EscapeTable α) (d e c : α) : EscapeTable α :=
  fun d' e' => if d' = d ∧ e' = e then some c else T d' e'

/-- Marks, digits and produced letters do not get in each other's way: `IsDigit`
tells the letters an escape may have after its mark, the mark is none of them,
and no produced letter is a mark or a digit. -/
structure EscapeTable.Separated (mark : α) (IsDigit : α → Prop) (T : EscapeTable α) : Prop where
  /-- The mark is not a digit. -/
  mark_not_digit : ¬ IsDigit mark
  /-- What the table produces is not a mark. -/
  ne_mark : ∀ d e c, T d e = some c → c ≠ mark
  /-- What the table produces is not a digit. -/
  not_digit : ∀ d e c, T d e = some c → ¬ IsDigit c

/-! ## Equations of the scan -/

variable {mark : α} {T : EscapeTable α}

@[simp] theorem scan_nil : scan mark T [] = [] := rfl

theorem scan_cons_of_ne {x : α} (h : x ≠ mark) (s : List α) :
    scan mark T (x :: s) = x :: scan mark T s := by
  match s with
  | [] => rfl
  | [y] => rfl
  | d :: e :: s => rw [scan, if_neg h]

theorem scan_escape_of_some {d e c : α} (h : T d e = some c) (s : List α) :
    scan mark T (mark :: d :: e :: s) = c :: scan mark T s := by
  rw [scan, if_pos rfl, h]

theorem scan_escape_of_none {d e : α} (h : T d e = none) (s : List α) :
    scan mark T (mark :: d :: e :: s) = mark :: scan mark T (d :: e :: s) := by
  rw [scan, if_pos rfl, h]

/-- The empty table changes nothing. -/
theorem scan_empty (s : List α) : scan mark (fun _ _ => none) s = s := by
  match s with
  | [] => rfl
  | [_] => rfl
  | [_, _] => rfl
  | x :: d :: e :: s =>
    have ih := scan_empty (d :: e :: s)
    by_cases hx : x = mark
    · rw [hx, scan_escape_of_none rfl, ih]
    · rw [scan_cons_of_ne hx, ih]

/-- A letter that is neither the mark nor produced by the table is at the front
of the scan only if it is at the front of the text. -/
theorem scan_eq_cons {x : α} {s t : List α} (hx : x ≠ mark) (hT : ∀ d e, T d e ≠ some x)
    (h : scan mark T s = x :: t) : ∃ s', s = x :: s' ∧ scan mark T s' = t := by
  match s with
  | [] => exact absurd h (by simp)
  | [y] =>
    obtain ⟨rfl, rfl⟩ := List.cons.inj h
    exact ⟨[], rfl, rfl⟩
  | [y, z] =>
    obtain ⟨rfl, rfl⟩ := List.cons.inj h
    exact ⟨[z], rfl, rfl⟩
  | y :: d :: e :: s =>
    by_cases hy : y = mark
    · subst hy
      cases hde : T d e with
      | some c =>
        rw [scan_escape_of_some hde] at h
        exact absurd ((List.cons.inj h).1 ▸ hde) (hT d e)
      | none =>
        rw [scan_escape_of_none hde] at h
        exact absurd (List.cons.inj h).1.symm hx
    · rw [scan_cons_of_ne hy] at h
      obtain ⟨rfl, rfl⟩ := List.cons.inj h
      exact ⟨d :: e :: s, rfl, rfl⟩

omit [DecidableEq α] in
theorem EscapeTable.Separated.digit_ne_mark {IsDigit : α → Prop} (hT : T.Separated mark IsDigit)
    {x : α} (hx : IsDigit x) : x ≠ mark := fun h => hT.mark_not_digit (h ▸ hx)

/-- A scan neither puts two digits in front of a text nor takes them away. -/
theorem digits_prefix_scan {IsDigit : α → Prop} (hT : T.Separated mark IsDigit) {d e : α}
    (hd : IsDigit d) (he : IsDigit e) (s : List α) :
    [d, e] <+: scan mark T s ↔ [d, e] <+: s := by
  constructor
  · rintro ⟨t, ht⟩
    obtain ⟨s₁, rfl, h₁⟩ := scan_eq_cons (hT.digit_ne_mark hd)
      (fun y z hc => hT.not_digit y z d hc hd) ht.symm
    obtain ⟨s₂, rfl, -⟩ := scan_eq_cons (hT.digit_ne_mark he)
      (fun y z hc => hT.not_digit y z e hc he) h₁
    exact ⟨s₂, rfl⟩
  · rintro ⟨s', rfl⟩
    refine ⟨scan mark T s', ?_⟩
    simp only [List.cons_append, List.nil_append]
    rw [scan_cons_of_ne (hT.digit_ne_mark hd), scan_cons_of_ne (hT.digit_ne_mark he)]

/-! ## A replacement pass is one more table entry -/

theorem EscapeTable.insert_self (T : EscapeTable α) (d e c : α) :
    T.insert d e c d e = some c := if_pos ⟨rfl, rfl⟩

theorem EscapeTable.insert_of_ne {d e d' e' : α} (h : ¬ (d' = d ∧ e' = e)) (c : α) :
    T.insert d e c d' e' = T d' e' := if_neg h

omit [DecidableEq α] in
theorem EscapeTable.Separated.empty {IsDigit : α → Prop} (h : ¬ IsDigit mark) :
    EscapeTable.Separated mark IsDigit (fun _ _ => none) :=
  ⟨h, fun _ _ _ hc => by simp at hc, fun _ _ _ hc => by simp at hc⟩

theorem EscapeTable.Separated.insert {IsDigit : α → Prop} (hT : T.Separated mark IsDigit)
    {c : α} (hm : c ≠ mark) (hc : ¬ IsDigit c) (d e : α) :
    (T.insert d e c).Separated mark IsDigit := by
  refine ⟨hT.mark_not_digit, fun d' e' c' h => ?_, fun d' e' c' h => ?_⟩ <;>
    by_cases hde : d' = d ∧ e' = e
  · obtain ⟨rfl, rfl⟩ := hde
    rw [EscapeTable.insert_self, Option.some.injEq] at h
    exact h ▸ hm
  · rw [EscapeTable.insert_of_ne hde] at h
    exact hT.ne_mark d' e' c' h
  · obtain ⟨rfl, rfl⟩ := hde
    rw [EscapeTable.insert_self, Option.some.injEq] at h
    exact h ▸ hc
  · rw [EscapeTable.insert_of_ne hde] at h
    exact hT.not_digit d' e' c' h

/-- **A replacement pass is one more table entry.**  Replacing the escape
`mark d e` by `c` in a scanned text gives the scan with that escape added. -/
theorem replaceAll_scan {IsDigit : α → Prop} (hT : T.Separated mark IsDigit) {d e : α}
    (hd : IsDigit d) (he : IsDigit e) (hnew : T d e = none) (c : α) (s : List α) :
    replaceAll [mark, d, e] [c] (scan mark T s) = scan mark (T.insert d e c) s := by
  have hcopy : ∀ x : α, x ≠ mark → ∀ t : List α,
      replaceAll [mark, d, e] [c] (x :: t) = x :: replaceAll [mark, d, e] [c] t := fun x hx t =>
    replaceAll_cons (fun h => hx (List.cons_prefix_cons.1 h).1.symm) [c]
  match s with
  | [] => rfl
  | [x] =>
    show replaceAll _ _ [x] = [x]
    rw [replaceAll_cons (fun h => by have := h.length_le; simp at this), replaceAll_nil]
  | [x, y] =>
    show replaceAll _ _ [x, y] = [x, y]
    rw [replaceAll_cons (fun h => by have := h.length_le; simp at this),
      replaceAll_cons (fun h => by have := h.length_le; simp at this), replaceAll_nil]
  | x :: y :: z :: s =>
    by_cases hx : x = mark
    · rw [hx]
      cases hyz : T y z with
      | some c' =>
        have hne : ¬ (y = d ∧ z = e) := by
          rintro ⟨rfl, rfl⟩
          simp [hyz] at hnew
        rw [scan_escape_of_some hyz,
          scan_escape_of_some (by rw [EscapeTable.insert_of_ne hne, hyz]),
          hcopy c' (hT.ne_mark y z c' hyz), replaceAll_scan hT hd he hnew c s]
      | none =>
        rw [scan_escape_of_none hyz]
        by_cases hde : y = d ∧ z = e
        · rw [hde.1, hde.2, scan_cons_of_ne (hT.digit_ne_mark hd),
            scan_cons_of_ne (hT.digit_ne_mark he),
            scan_escape_of_some (EscapeTable.insert_self T d e c),
            ← replaceAll_scan hT hd he hnew c s]
          exact replaceAll_append (List.cons_ne_nil mark [d, e]) [c] _
        · have hfront : ¬ [mark, d, e] <+: mark :: scan mark T (y :: z :: s) := by
            rw [List.cons_prefix_cons, digits_prefix_scan hT hd he]
            rintro ⟨-, s', hs'⟩
            obtain ⟨hy, hz⟩ := List.cons.inj hs'
            exact hde ⟨hy.symm, (List.cons.inj hz).1.symm⟩
          rw [replaceAll_cons hfront, replaceAll_scan hT hd he hnew c (y :: z :: s),
            scan_escape_of_none (by rw [EscapeTable.insert_of_ne hde, hyz])]
    · rw [scan_cons_of_ne hx, scan_cons_of_ne hx, hcopy x hx,
        replaceAll_scan hT hd he hnew c (y :: z :: s)]

/-- The table of several escapes, the later entries over the earlier ones. -/
def EscapeTable.insertAll (T : EscapeTable α) (escapes : List (α × α × α)) : EscapeTable α :=
  escapes.foldl (fun T p => T.insert p.1 p.2.1 p.2.2) T

/-- The replacement passes for several escapes, one after another. -/
def replaceEscapes (mark : α) (escapes : List (α × α × α)) (s : List α) : List α :=
  escapes.foldl (fun s p => replaceAll [mark, p.1, p.2.1] [p.2.2] s) s

/-- An escape that is not entered is not in the table. -/
theorem EscapeTable.insertAll_eq_none {escapes : List (α × α × α)} {x y : α}
    (hT : T x y = none) (h : ∀ p ∈ escapes, ¬ (x = p.1 ∧ y = p.2.1)) :
    T.insertAll escapes x y = none := by
  induction escapes generalizing T with
  | nil => exact hT
  | cons p escapes ih =>
    refine ih (T := T.insert p.1 p.2.1 p.2.2) ?_ fun q hq => h q (List.mem_cons_of_mem _ hq)
    rw [EscapeTable.insert_of_ne (h p List.mem_cons_self), hT]

/-- **Successive replacement passes are one scan.** -/
theorem replaceEscapes_scan {IsDigit : α → Prop} (hT : T.Separated mark IsDigit)
    {escapes : List (α × α × α)}
    (hdigit : ∀ p ∈ escapes, IsDigit p.1 ∧ IsDigit p.2.1)
    (hletter : ∀ p ∈ escapes, p.2.2 ≠ mark ∧ ¬ IsDigit p.2.2)
    (hkeys : (escapes.map fun p => (p.1, p.2.1)).Nodup)
    (hnew : ∀ p ∈ escapes, T p.1 p.2.1 = none) (s : List α) :
    replaceEscapes mark escapes (scan mark T s) = scan mark (T.insertAll escapes) s := by
  induction escapes generalizing T with
  | nil => rfl
  | cons p escapes ih =>
    obtain ⟨d, e, c⟩ := p
    obtain ⟨hd, he⟩ := hdigit _ List.mem_cons_self
    obtain ⟨hm, hc⟩ := hletter _ List.mem_cons_self
    rw [List.map_cons, List.nodup_cons] at hkeys
    have hpass : replaceEscapes mark ((d, e, c) :: escapes) (scan mark T s) =
        replaceEscapes mark escapes (scan mark (T.insert d e c) s) := by
      rw [← replaceAll_scan hT hd he (hnew _ List.mem_cons_self)]
      rfl
    rw [hpass]
    refine ih (hT.insert hm hc d e) (fun p hp => hdigit p (List.mem_cons_of_mem _ hp))
      (fun p hp => hletter p (List.mem_cons_of_mem _ hp)) hkeys.2 fun p hp => ?_
    have hne : ¬ (p.1 = d ∧ p.2.1 = e) := by
      rintro ⟨rfl, rfl⟩
      exact hkeys.1 (List.mem_map.2 ⟨p, hp, rfl⟩)
    rw [EscapeTable.insert_of_ne hne]
    exact hnew p (List.mem_cons_of_mem _ hp)

/-- A letter that no escape contains cuts a text into parts that are scanned each on
its own. -/
theorem scan_append_cons {x : α} (hx : x ≠ mark) (hfirst : ∀ e, T x e = none)
    (hsecond : ∀ d, T d x = none) (a b : List α) :
    scan mark T (a ++ x :: b) = scan mark T a ++ x :: scan mark T b := by
  match a with
  | [] => exact scan_cons_of_ne hx b
  | [y] =>
    show scan mark T (y :: x :: b) = y :: x :: scan mark T b
    by_cases hy : y = mark
    · subst hy
      cases b with
      | nil => rfl
      | cons e b => rw [scan_escape_of_none (hfirst e), scan_cons_of_ne hx]
    · rw [scan_cons_of_ne hy, scan_cons_of_ne hx]
  | [y, z] =>
    show scan mark T (y :: z :: x :: b) = y :: z :: x :: scan mark T b
    have htail : scan mark T (z :: x :: b) = z :: x :: scan mark T b :=
      scan_append_cons hx hfirst hsecond [z] b
    by_cases hy : y = mark
    · rw [hy, scan_escape_of_none (hsecond z), htail]
    · rw [scan_cons_of_ne hy, htail]
  | y :: z :: w :: a =>
    have htail := scan_append_cons hx hfirst hsecond (z :: w :: a) b
    have hrest := scan_append_cons hx hfirst hsecond a b
    by_cases hy : y = mark
    · subst hy
      cases hzw : T z w with
      | some c =>
        show scan y T (y :: z :: w :: (a ++ x :: b)) = _
        rw [scan_escape_of_some hzw, scan_escape_of_some hzw, hrest]
        rfl
      | none =>
        show scan y T (y :: z :: w :: (a ++ x :: b)) = _
        rw [scan_escape_of_none hzw, scan_escape_of_none hzw]
        exact congrArg (y :: ·) htail
    · show scan mark T (y :: (z :: w :: a ++ x :: b)) = _
      rw [scan_cons_of_ne hy, scan_cons_of_ne hy, htail]
      rfl

/-! ## The order of the passes -/

theorem EscapeTable.insert_comm (T : EscapeTable α) {d e d' e' : α} (h : ¬ (d' = d ∧ e' = e))
    (c c' : α) : (T.insert d e c).insert d' e' c' = (T.insert d' e' c').insert d e c := by
  funext x y
  unfold EscapeTable.insert
  by_cases hx : x = d ∧ y = e
  · obtain ⟨rfl, rfl⟩ := hx
    simp [h, eq_comm]
  · simp [hx]

/-- Entries for different digits may be made in any order. -/
theorem EscapeTable.insertAll_perm {escapes escapes' : List (α × α × α)}
    (h : escapes.Perm escapes') (hkeys : (escapes.map fun p => (p.1, p.2.1)).Nodup)
    (T : EscapeTable α) : T.insertAll escapes = T.insertAll escapes' := by
  refine h.foldl_eq' (fun p hp q hq T => ?_) T
  by_cases hpq : p = q
  · rw [hpq]
  · refine T.insert_comm (fun hkey => hpq ?_) p.2.2 q.2.2
    exact (List.inj_on_of_nodup_map hkeys hq hp (Prod.ext hkey.1 hkey.2)).symm

/-- An entry is read back. -/
theorem EscapeTable.insertAll_of_mem {escapes : List (α × α × α)}
    (hkeys : (escapes.map fun p => (p.1, p.2.1)).Nodup) {p : α × α × α} (hp : p ∈ escapes)
    (T : EscapeTable α) : T.insertAll escapes p.1 p.2.1 = some p.2.2 := by
  obtain ⟨before, after, rfl⟩ := List.append_of_mem hp
  have hlast : (before ++ p :: after).Perm (before ++ after ++ [p]) := by
    rw [List.append_assoc]
    exact List.Perm.append_left _ (List.perm_append_singleton p after).symm
  rw [EscapeTable.insertAll_perm hlast hkeys, EscapeTable.insertAll, List.foldl_append]
  exact EscapeTable.insert_self _ _ _ _

/-- Escapes whose passes do not get in each other's way: different pairs of digits after the
mark, and letters that are part of no escape. -/
structure IsEscapeList (mark : α) (IsDigit : α → Prop) (escapes : List (α × α × α)) : Prop where
  mark_not_digit : ¬ IsDigit mark
  digits : ∀ p ∈ escapes, IsDigit p.1 ∧ IsDigit p.2.1
  letter : ∀ p ∈ escapes, p.2.2 ≠ mark ∧ ¬ IsDigit p.2.2
  keys : (escapes.map fun p => (p.1, p.2.1)).Nodup

/-- The table of a list of escapes. -/
def tableOf (escapes : List (α × α × α)) : EscapeTable α :=
  EscapeTable.insertAll (fun _ _ => none) escapes

section IsEscapeList

variable {IsDigit : α → Prop} {escapes escapes' : List (α × α × α)}

omit [DecidableEq α] in
theorem IsEscapeList.perm (h : IsEscapeList mark IsDigit escapes) (hp : escapes.Perm escapes') :
    IsEscapeList mark IsDigit escapes' :=
  ⟨h.mark_not_digit, fun p hmem => h.digits p (hp.mem_iff.2 hmem),
    fun p hmem => h.letter p (hp.mem_iff.2 hmem), (hp.map _).nodup_iff.1 h.keys⟩

/-- **The table knows exactly the escapes of the list.** -/
theorem IsEscapeList.tableOf_eq_some (h : IsEscapeList mark IsDigit escapes) {d e c : α} :
    tableOf escapes d e = some c ↔ (d, e, c) ∈ escapes := by
  constructor
  · intro htable
    by_cases hkey : ∃ p ∈ escapes, d = p.1 ∧ e = p.2.1
    · obtain ⟨p, hp, rfl, rfl⟩ := hkey
      rw [tableOf, EscapeTable.insertAll_of_mem h.keys hp, Option.some.injEq] at htable
      rwa [← htable]
    · rw [tableOf, EscapeTable.insertAll_eq_none rfl fun p hp hde => hkey ⟨p, hp, hde⟩] at htable
      exact absurd htable nofun
  · intro hmem
    exact EscapeTable.insertAll_of_mem h.keys hmem _

theorem IsEscapeList.separated (h : IsEscapeList mark IsDigit escapes) :
    (tableOf escapes).Separated mark IsDigit :=
  ⟨h.mark_not_digit, fun _ _ _ hc => (h.letter _ (h.tableOf_eq_some.1 hc)).1,
    fun _ _ _ hc => (h.letter _ (h.tableOf_eq_some.1 hc)).2⟩

theorem IsEscapeList.replaceEscapes_eq (h : IsEscapeList mark IsDigit escapes) (s : List α) :
    replaceEscapes mark escapes s = scan mark (tableOf escapes) s := by
  have hscan := replaceEscapes_scan (EscapeTable.Separated.empty h.mark_not_digit) h.digits
    h.letter h.keys (fun _ _ => rfl) s
  rwa [scan_empty] at hscan

/-- **The order of the passes does not matter.** -/
theorem IsEscapeList.replaceEscapes_perm (h : IsEscapeList mark IsDigit escapes)
    (hp : escapes.Perm escapes') (s : List α) :
    replaceEscapes mark escapes' s = replaceEscapes mark escapes s := by
  rw [h.replaceEscapes_eq, (h.perm hp).replaceEscapes_eq, tableOf, tableOf,
    EscapeTable.insertAll_perm hp h.keys]

end IsEscapeList

/-! ## No escape is made -/

section

variable {IsDigit : α → Prop}

/-- A mark that no known digits follow is copied. -/
theorem scan_mark_cons {r : List α} (h : ∀ d e r', r = d :: e :: r' → T d e = none) :
    scan mark T (mark :: r) = mark :: scan mark T r := by
  match r with
  | [] => rfl
  | [_] => rfl
  | d :: e :: r => exact scan_escape_of_none (h d e r rfl) r

/-- **A scan leaves nothing for a second one.** -/
theorem scan_scan (hT : T.Separated mark IsDigit)
    (hdigits : ∀ d e c, T d e = some c → IsDigit d ∧ IsDigit e) (s : List α) :
    scan mark T (scan mark T s) = scan mark T s := by
  match s with
  | [] => rfl
  | [_] => rfl
  | [_, _] => rfl
  | x :: y :: z :: s =>
    by_cases hx : x = mark
    · rw [hx]
      cases hyz : T y z with
      | some c =>
        rw [scan_escape_of_some hyz, scan_cons_of_ne (hT.ne_mark y z c hyz), scan_scan hT hdigits s]
      | none =>
        rw [scan_escape_of_none hyz, scan_mark_cons, scan_scan hT hdigits (y :: z :: s)]
        -- two digits behind the mark were there before the scan
        intro d e r hr
        by_contra hsome
        obtain ⟨c, hc⟩ := Option.ne_none_iff_exists'.1 hsome
        obtain ⟨hd, he⟩ := hdigits d e c hc
        obtain ⟨s', hs'⟩ := (digits_prefix_scan hT hd he (y :: z :: s)).1 ⟨r, hr.symm⟩
        obtain ⟨rfl, hz⟩ := List.cons.inj hs'
        rw [(List.cons.inj hz).1, hyz] at hc
        exact absurd hc nofun
    · rw [scan_cons_of_ne hx, scan_cons_of_ne hx, scan_scan hT hdigits (y :: z :: s)]

/-- **A scan makes and destroys no escape that it does not replace.** -/
theorem occurrences_scan (hT : T.Separated mark IsDigit)
    (hdigits : ∀ d e c, T d e = some c → IsDigit d ∧ IsDigit e) {d e : α} (hd : IsDigit d)
    (he : IsDigit e) (hnew : T d e = none) (s : List α) :
    occurrences [mark, d, e] (scan mark T s) = occurrences [mark, d, e] s := by
  have hskip : ∀ x, x ≠ mark → ∀ t, occurrences [mark, d, e] (x :: t) =
      occurrences [mark, d, e] t := by
    intro x hx t
    rw [occurrences_cons, if_neg fun h => hx (List.cons_prefix_cons.1 h).1.symm, Nat.add_zero]
  match s with
  | [] => rfl
  | [_] => rfl
  | [_, _] => rfl
  | x :: y :: z :: s =>
    by_cases hx : x = mark
    · rw [hx]
      cases hyz : T y z with
      | some c =>
        obtain ⟨hy, hz⟩ := hdigits y z c hyz
        have hne : ¬ [mark, d, e] <+: mark :: y :: z :: s := by
          simp only [List.cons_prefix_cons, true_and]
          rintro ⟨rfl, rfl, -⟩
          rw [hnew] at hyz
          exact absurd hyz nofun
        rw [scan_escape_of_some hyz, hskip c (hT.ne_mark y z c hyz),
          occurrences_scan hT hdigits hd he hnew s, occurrences_cons, if_neg hne,
          hskip y (hT.digit_ne_mark hy), hskip z (hT.digit_ne_mark hz), Nat.add_zero]
      | none =>
        have hfront : [mark, d, e] <+: mark :: scan mark T (y :: z :: s) ↔
            [mark, d, e] <+: mark :: y :: z :: s := by
          rw [List.cons_prefix_cons, List.cons_prefix_cons, digits_prefix_scan hT hd he]
        rw [scan_escape_of_none hyz, occurrences_cons, occurrences_cons,
          occurrences_scan hT hdigits hd he hnew (y :: z :: s), if_congr hfront rfl rfl]
    · rw [scan_cons_of_ne hx, hskip x hx, hskip x hx,
        occurrences_scan hT hdigits hd he hnew (y :: z :: s)]

end

/-- **A pass makes and destroys no escape of another.** -/
theorem IsEscapeList.occurrences_replaceAll {IsDigit : α → Prop} {escapes : List (α × α × α)}
    (h : IsEscapeList mark IsDigit escapes) {p q : α × α × α} (hp : p ∈ escapes)
    (hq : q ∈ escapes) (hpq : p ≠ q) (s : List α) :
    occurrences [mark, q.1, q.2.1] (replaceAll [mark, p.1, p.2.1] [p.2.2] s) =
      occurrences [mark, q.1, q.2.1] s := by
  have hone : IsEscapeList mark IsDigit [p] :=
    ⟨h.mark_not_digit, fun r hr => h.digits r (List.mem_singleton.1 hr ▸ hp),
      fun r hr => h.letter r (List.mem_singleton.1 hr ▸ hp), List.nodup_singleton _⟩
  have hpass : replaceAll [mark, p.1, p.2.1] [p.2.2] s = scan mark (tableOf [p]) s :=
    hone.replaceEscapes_eq s
  have hnew : tableOf [p] q.1 q.2.1 = none := by
    refine EscapeTable.insertAll_eq_none rfl fun r hr hkey => hpq ?_
    rw [List.mem_singleton.1 hr] at hkey
    exact (List.inj_on_of_nodup_map h.keys hq hp (Prod.ext hkey.1 hkey.2)).symm
  rw [hpass]
  exact occurrences_scan hone.separated
    (fun d e c hc => hone.digits _ (hone.tableOf_eq_some.1 hc)) (h.digits q hq).1 (h.digits q hq).2
    hnew s

/-! ## Escaping -/

/-- How a letter is written: as itself where `keep` allows it, and as the escape
with the digits `hi` and `lo` otherwise. -/
def escapeLetter (mark : α) (keep : α → Bool) (hi lo : α → α) (x : α) : List α :=
  if keep x then [x] else [mark, hi x, lo x]

/-- A text with every letter that may not stand for itself escaped. -/
def escape (mark : α) (keep : α → Bool) (hi lo : α → α) (s : List α) : List α :=
  s.flatMap (escapeLetter mark keep hi lo)

section Escape

variable {keep : α → Bool} {hi lo : α → α}

omit [DecidableEq α] in
@[simp] theorem escape_nil : escape mark keep hi lo [] = [] := rfl

omit [DecidableEq α] in
theorem escape_cons (x : α) (s : List α) :
    escape mark keep hi lo (x :: s) = escapeLetter mark keep hi lo x ++ escape mark keep hi lo s :=
  List.flatMap_cons

/-- What a scan makes of the escaped form of one letter. -/
def scanLetter (mark : α) (keep : α → Bool) (hi lo : α → α) (T : EscapeTable α) (x : α) : List α :=
  if keep x then [x]
  else match T (hi x) (lo x) with
    | some c => [c]
    | none => [mark, hi x, lo x]

/-- **A scan of an escaped text acts letter by letter**, whatever follows it. -/
theorem scan_escape_append (hkeep : ∀ x, keep x = true → x ≠ mark) (hhi : ∀ x, hi x ≠ mark)
    (hlo : ∀ x, lo x ≠ mark) (s t : List α) :
    scan mark T (escape mark keep hi lo s ++ t) =
      s.flatMap (scanLetter mark keep hi lo T) ++ scan mark T t := by
  induction s with
  | nil => rfl
  | cons x s ih =>
    rw [escape_cons, List.flatMap_cons, escapeLetter, scanLetter]
    by_cases hk : keep x = true
    · rw [if_pos hk, if_pos hk]
      simp only [List.cons_append, List.nil_append]
      rw [scan_cons_of_ne (hkeep x hk), ih]
    · rw [if_neg hk, if_neg hk]
      simp only [List.cons_append, List.nil_append]
      cases hT : T (hi x) (lo x) with
      | some c =>
        rw [scan_escape_of_some hT, ih]
        rfl
      | none =>
        rw [scan_escape_of_none hT, scan_cons_of_ne (hhi x), scan_cons_of_ne (hlo x), ih]
        rfl

/-- **Unescaping undoes a partly decoded text.**  If every letter is written
either as itself or as an escape that the table reads back, the scan returns the
letters. -/
theorem scan_flatMap_piece {piece : α → List α} {s : List α}
    (h : ∀ x ∈ s, (piece x = [x] ∧ x ≠ mark) ∨
      ∃ d e, piece x = [mark, d, e] ∧ T d e = some x) :
    scan mark T (s.flatMap piece) = s := by
  induction s with
  | nil => rfl
  | cons x s ih =>
    have htail := ih fun y hy => h y (List.mem_cons_of_mem _ hy)
    rw [List.flatMap_cons]
    rcases h x (List.mem_cons_self ..) with ⟨hx, hm⟩ | ⟨d, e, hx, hT⟩
    · rw [hx, List.singleton_append, scan_cons_of_ne hm, htail]
    · rw [hx]
      simp only [List.cons_append, List.nil_append]
      rw [scan_escape_of_some hT, htail]

end Escape

end Text
