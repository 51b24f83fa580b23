import Mathlib.Algebra.Ring.Parity
import Mathlib.Data.List.Basic
import Mathlib.Tactic.Common

/-! # Lists in chunks

A list is cut into pieces of a given length; only the last may be shorter. The
pieces put together are the list.
-/

/-- The pieces of length `n` of a list, the last one shorter if need be. -/
def chunks {α : Type _} (n : Nat) (xs : List α) : List (List α) :=
  (List.range ((xs.length + (n - 1)) / n)).map fun i => (xs.drop (i * n)).take n

section Chunks

variable {α : Type _} {n : Nat}

theorem chunks_nil (hn : 0 < n) : chunks n ([] : List α) = [] := by
  have hzero : (0 + (n - 1)) / n = 0 := Nat.div_eq_of_lt (by omega)
  rw [chunks, List.length_nil, hzero]
  rfl

theorem chunks_append (hn : 0 < n) {piece : List α} (hpiece : piece.length = n) (xs : List α) :
    chunks n (piece ++ xs) = piece :: chunks n xs := by
  have hcount : ((piece ++ xs).length + (n - 1)) / n = (xs.length + (n - 1)) / n + 1 := by
    rw [List.length_append, hpiece, Nat.add_assoc, Nat.add_div_left _ hn]
  rw [chunks, hcount, List.range_succ_eq_map, List.map_cons, List.map_map, Nat.zero_mul,
    List.drop_zero, List.take_left' hpiece]
  congr 1
  apply List.map_congr_left
  intro i _
  rw [Function.comp_apply, Nat.succ_mul, Nat.add_comm, ← List.drop_drop,
    List.drop_left' hpiece]

theorem chunks_of_le {xs : List α} (hpos : 0 < xs.length) (hle : xs.length ≤ n) :
    chunks n xs = [xs] := by
  have hcount : (xs.length + (n - 1)) / n = 1 := by
    apply Nat.div_eq_of_lt_le
    · omega
    · omega
  rw [chunks, hcount]
  simp [List.take_of_length_le hle]

theorem chunks_of_lt (hn : 0 < n) {xs : List α} (hlt : n < xs.length) :
    chunks n xs = xs.take n :: chunks n (xs.drop n) := by
  have hpiece : (xs.take n).length = n := List.length_take_of_le (by omega)
  have hsplit := chunks_append hn hpiece (xs.drop n)
  rwa [List.take_append_drop] at hsplit

/-- What holds for the pieces in the order in which they are cut. -/
theorem chunks_induction (hn : 0 < n) {motive : List α → List (List α) → Prop}
    (nil : motive [] [])
    (last : ∀ xs, 0 < xs.length → xs.length ≤ n → motive xs [xs])
    (cut : ∀ piece xs, piece.length = n → 0 < xs.length → motive xs (chunks n xs) →
      motive (piece ++ xs) (piece :: chunks n xs))
    (xs : List α) : motive xs (chunks n xs) := by
  induction hlength : xs.length using Nat.strongRecOn generalizing xs with
  | ind length ih =>
      by_cases hzero : xs.length = 0
      · obtain rfl := List.length_eq_zero_iff.mp hzero
        rw [chunks_nil hn]
        exact nil
      · by_cases hle : xs.length ≤ n
        · rw [chunks_of_le (Nat.pos_of_ne_zero hzero) hle]
          exact last xs (Nat.pos_of_ne_zero hzero) hle
        · have hdrop : (xs.drop n).length < length := by rw [List.length_drop]; omega
          have hrest := cut (xs.take n) (xs.drop n) (List.length_take_of_le (by omega))
            (by rw [List.length_drop]; omega) (ih _ hdrop (xs.drop n) rfl)
          rwa [List.take_append_drop, ← chunks_of_lt hn (by omega)] at hrest

theorem flatten_chunks (hn : 0 < n) (xs : List α) : (chunks n xs).flatten = xs := by
  induction xs using chunks_induction hn with
  | nil => rfl
  | last xs _ _ => simp
  | cut piece xs _ _ ih => rw [List.flatten_cons, ih]

theorem chunks_length_le_length (hn : 0 < n) (xs : List α) :
    (chunks n xs).length ≤ xs.length := by
  induction xs using chunks_induction hn with
  | nil => exact Nat.le_refl 0
  | last xs hpos _ => exact hpos
  | cut piece xs hpiece _ ih =>
      rw [List.length_cons, List.length_append]
      omega

theorem mem_of_mem_chunks (hn : 0 < n) {xs piece : List α} (h : piece ∈ chunks n xs) {x : α}
    (hx : x ∈ piece) : x ∈ xs := by
  rw [← flatten_chunks hn xs]
  exact List.mem_flatten_of_mem h hx

theorem length_of_mem_chunks (hn : 0 < n) {xs piece : List α} (h : piece ∈ chunks n xs) :
    0 < piece.length ∧ piece.length ≤ n := by
  induction xs using chunks_induction hn with
  | nil => simp at h
  | last xs hpos hle =>
      rw [List.mem_singleton.mp h]
      exact ⟨hpos, hle⟩
  | cut first xs hfirst _ ih =>
      cases List.mem_cons.mp h with
      | inl heq => rw [heq, hfirst]; exact ⟨hn, Nat.le_refl n⟩
      | inr hmem => exact ih hmem

theorem chunks_flatten (hn : 0 < n) {pieces : List (List α)}
    (hpieces : ∀ piece ∈ pieces, piece.length = n) : chunks n pieces.flatten = pieces := by
  induction pieces with
  | nil => exact chunks_nil hn
  | cons piece rest ih =>
      rw [List.flatten_cons, chunks_append hn (hpieces piece List.mem_cons_self),
        ih fun p hp => hpieces p (List.mem_cons_of_mem _ hp)]

end Chunks
