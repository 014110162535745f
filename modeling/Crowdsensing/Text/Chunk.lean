import Mathlib.Data.List.Range
import Mathlib.Tactic.Common

/-!
# Chunks of equal length

A list cut into chunks of length `n`, the last one as long as what is left.

* `chunk`, `chunkCount` — chunk number `k`, and how many there are; `lt_chunkCount`
  says which numbers are in use.
* `flatMap_chunk` — **the chunks, one after another, are the list.**
-/

namespace Text

variable {α : Type*}

/-- The letters from position `n * k` on, at most `n` of them. -/
def chunk (n k : ℕ) (s : List α) : List α := (s.drop (n * k)).take n

/-- How many chunks of length `n` a list has. -/
def chunkCount (n : ℕ) (s : List α) : ℕ := (s.length + n - 1) / n

/-- A chunk is in use if the list reaches it. -/
theorem lt_chunkCount {n k : ℕ} (hn : 0 < n) (s : List α) :
    k < chunkCount n s ↔ n * k < s.length := by
  rw [chunkCount, Nat.lt_iff_add_one_le, Nat.le_div_iff_mul_le hn, Nat.add_one_mul, Nat.mul_comm]
  omega

theorem length_le_chunkCount {n : ℕ} (hn : 0 < n) (s : List α) :
    s.length ≤ n * chunkCount n s := by
  have h := (lt_chunkCount hn s).not.1 (Nat.lt_irrefl (chunkCount n s))
  omega

theorem chunkCount_pos {n : ℕ} (hn : 0 < n) {s : List α} (hs : s ≠ []) : 0 < chunkCount n s := by
  rw [lt_chunkCount hn, Nat.mul_zero]
  exact List.length_pos_iff.2 hs

/-- There are no more chunks than letters. -/
theorem chunkCount_le_length {n : ℕ} (hn : 0 < n) (s : List α) : chunkCount n s ≤ s.length := by
  by_cases hzero : chunkCount n s = 0
  · omega
  · have hlast := (lt_chunkCount hn s).1 (Nat.sub_one_lt hzero)
    have hmul := Nat.le_mul_of_pos_left (chunkCount n s - 1) hn
    omega

theorem chunkCount_nil {n : ℕ} (hn : 0 < n) : chunkCount n ([] : List α) = 0 := by
  have h := (lt_chunkCount (k := 0) hn ([] : List α)).not.2 (Nat.lt_irrefl 0)
  omega

/-- A chunk that others follow has full length. -/
theorem length_chunk {n k : ℕ} {s : List α} (h : n * (k + 1) ≤ s.length) :
    (chunk n k s).length = n := by
  rw [Nat.mul_add_one] at h
  rw [chunk, List.length_take, List.length_drop]
  omega

/-- The last chunk is what is left. -/
theorem chunk_eq_drop {n k : ℕ} {s : List α} (h : s.length ≤ n * (k + 1)) :
    chunk n k s = s.drop (n * k) := by
  rw [Nat.mul_add_one] at h
  refine List.take_of_length_le ?_
  rw [List.length_drop]
  omega

theorem range_flatMap_chunk (n m : ℕ) (s : List α) :
    ((List.range m).flatMap fun k => chunk n k s) = s.take (n * m) := by
  induction m with
  | zero => simp
  | succ m ih =>
    rw [List.range_succ, List.flatMap_append, ih, Nat.mul_add_one, List.take_add]
    simp [chunk]

/-- **The chunks, one after another, are the list.** -/
theorem flatMap_chunk {n : ℕ} (hn : 0 < n) (s : List α) :
    ((List.range (chunkCount n s)).flatMap fun k => chunk n k s) = s := by
  rw [range_flatMap_chunk]
  exact List.take_of_length_le (length_le_chunkCount hn s)

/-- An entry of a list that is numbered through. -/
theorem getElem?_map_range {f : ℕ → α} {n k : ℕ} {x : α} (h : ((List.range n).map f)[k]? = some x) :
    k < n ∧ x = f k := by
  rw [List.getElem?_map, Option.map_eq_some_iff] at h
  obtain ⟨j, hj, rfl⟩ := h
  obtain ⟨hlt, heq⟩ := List.getElem?_eq_some_iff.1 hj
  rw [List.getElem_range] at heq
  rw [List.length_range] at hlt
  exact ⟨hlt, by rw [heq]⟩

end Text
