import Crowdsensing.Naming.Decode

/-!
# One pass

`decodeURI` makes ten passes over a text, one for each escape it knows.

* `decodeURI_one_pass` — **the passes are one scan from left to right**: in any order they
  give the same, a second call changes nothing, no pass makes or destroys an escape of
  another, and the ten characters come back from their escapes.
-/

namespace Crowdsensing

open Text

/-- The passes of `decodeURI`. -/
def uriPasses : List (Str × Str) :=
  [(txt "%23", txt "#"), (txt "%3A", txt ":"), (txt "%2C", txt ","), (txt "%5B", txt "["),
    (txt "%5D", txt "]"), (txt "%20", txt " "), (txt "%27", txt "'"), (txt "%28", txt "("),
    (txt "%29", txt ")"), (txt "%2A", txt "*")]

/-- The text with the ten characters percent-escaped. -/
def escapeHandled (w : Str) : Str :=
  escape (ch '%') (fun b => decide (b ∉ decodedBytes)) hexHigh hexLow w

theorem uriPasses_eq : uriPasses = (decodedBytes.map escapeOf).map passOf := by decide

theorem passOf_injective : Function.Injective passOf := by
  rintro ⟨d, e, c⟩ ⟨d', e', c'⟩ h
  simp only [passOf, Prod.mk.injEq, List.cons.injEq, true_and, and_true] at h
  rw [h.1.1, h.1.2, h.2]

/-- The table holds exactly the ten escapes. -/
theorem uriTable_eq_some {d e c : UInt8} :
    uriTable d e = some c ↔ ([ch '%', d, e], [c]) ∈ uriPasses := by
  have hentry : uriTable d e = some c ↔ (d, e, c) ∈ decodedBytes.map escapeOf :=
    isEscapeList_uri.tableOf_eq_some
  have hpass : ([ch '%', d, e], [c]) = passOf (d, e, c) := rfl
  rw [hentry, uriPasses_eq, hpass, List.mem_map_of_injective passOf_injective]

/-- The passes in any order. -/
theorem replacePasses_perm {passes : List (Str × Str)} (h : passes.Perm uriPasses) (u : Str) :
    replacePasses passes u = Producer.decodeURI u := by
  have hsource : Producer.decodeURI u = replacePasses uriPasses u := rfl
  have hcomp := congrFun₂ (List.eq_map_comp_perm passOf) passes (decodedBytes.map escapeOf)
  rw [uriPasses_eq] at h
  obtain ⟨escapes, rfl, hperm⟩ := hcomp.mpr h
  rw [hsource, uriPasses_eq, replacePasses_passOf, replacePasses_passOf]
  exact isEscapeList_uri.replaceEscapes_perm hperm.symm u

/-- A second call changes nothing. -/
theorem decodeURI_decodeURI (u : Str) :
    Producer.decodeURI (Producer.decodeURI u) = Producer.decodeURI u := by
  simp only [decodeURI_eq_scan]
  exact scan_scan isEscapeList_uri.separated
    (fun d e c h => isEscapeList_uri.digits _ (isEscapeList_uri.tableOf_eq_some.1 h)) u

/-- No pass makes or destroys an escape of another. -/
theorem occurrences_pass {p q : Str × Str} (hp : p ∈ uriPasses) (hq : q ∈ uriPasses)
    (hpq : p ≠ q) (u : Str) : occurrences q.1 (replaceAll p.1 p.2 u) = occurrences q.1 u := by
  rw [uriPasses_eq] at hp hq
  obtain ⟨a, ha, rfl⟩ := List.mem_map.1 hp
  obtain ⟨b, hb, rfl⟩ := List.mem_map.1 hq
  exact isEscapeList_uri.occurrences_replaceAll ha hb (fun h => hpq (congrArg passOf h)) u

/-- The ten characters come back from their escapes. -/
theorem decodeURI_escapeHandled {w : Str} (h : ch '%' ∉ w) :
    Producer.decodeURI (escapeHandled w) = w := by
  rw [decodeURI_eq_scan, escapeHandled, escape]
  refine scan_flatMap_piece fun b hb => ?_
  unfold escapeLetter
  by_cases hten : b ∈ decodedBytes
  · refine Or.inr ⟨hexHigh b, hexLow b, by simp [hten], ?_⟩
    exact isEscapeList_uri.tableOf_eq_some.2 (List.mem_map.2 ⟨b, hten, rfl⟩)
  · exact Or.inl ⟨by simp [hten], fun hpercent => h (hpercent ▸ hb)⟩

/-- **`decodeURI` is a one-pass decoder.**  Its passes are one scan that replaces the ten
escapes and copies everything else; they may be made in any order; a second call changes
nothing; no pass makes or destroys an escape of another; a text of letters, digits, slashes,
`-._~` and the ten characters comes back when these are escaped; and the two programs decode
alike. -/
theorem decodeURI_one_pass (u : Str) :
    (Producer.decodeURI u = scan (ch '%') uriTable u ∧
        ∀ d e c, uriTable d e = some c ↔ ([ch '%', d, e], [c]) ∈ uriPasses) ∧
      (∀ passes : List (Str × Str), passes.Perm uriPasses →
        replacePasses passes u = Producer.decodeURI u) ∧
      Producer.decodeURI (Producer.decodeURI u) = Producer.decodeURI u ∧
      (∀ p ∈ uriPasses, ∀ q ∈ uriPasses, p ≠ q →
        occurrences q.1 (replaceAll p.1 p.2 u) = occurrences q.1 u) ∧
      (∀ w : Str, (∀ b ∈ w, isUnreserved b = true ∨ b = ch '/' ∨ b ∈ decodedBytes) →
        Producer.decodeURI (escapeHandled w) = w) ∧
      Worker.decodeURI u = Producer.decodeURI u := by
  refine ⟨⟨decodeURI_eq_scan u, fun _ _ _ => uriTable_eq_some⟩,
    fun _ hperm => replacePasses_perm hperm u, decodeURI_decodeURI u,
    fun _ hp _ hq hpq => occurrences_pass hp hq hpq u, fun w hw => ?_, decodeURI_eq u⟩
  refine decodeURI_escapeHandled fun hpercent => ?_
  rcases hw _ hpercent with h | h | h
  · exact isUnreserved_ne_percent h rfl
  · exact absurd h (by decide)
  · exact absurd h (by decide)

/-- Cut and overlapping escapes, and a text with all ten characters. -/
theorem decodeURI_one_pass_cut :
    Producer.decodeURI (txt "%2%233%%5B5%2") = txt "%2#3%[5%2" ∧
      replacePasses uriPasses.reverse (txt "%2%233%%5B5%2") = txt "%2#3%[5%2" ∧
      Producer.decodeURI (escapeHandled (txt "/a-b.c_d~/#:,[] '()*")) =
        txt "/a-b.c_d~/#:,[] '()*" := by
  have h := decodeURI_one_pass (txt "%2%233%%5B5%2")
  have hcut : Producer.decodeURI (txt "%2%233%%5B5%2") = txt "%2#3%[5%2" := by decide
  exact ⟨hcut, (h.2.1 _ (List.reverse_perm _)).trans hcut, h.2.2.2.2.1 _ (by decide +kernel)⟩

end Crowdsensing
