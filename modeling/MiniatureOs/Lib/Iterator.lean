import MiniatureOs.Lib.Checked

/-! # Iterators that can panic

An iterator is a state with a `next` function that returns an item or the end. It yields a
list of items when the calls return them in order and then the end.
-/

namespace CheckedIterator

variable {σ α : Type _}

/-- The calls of `next` return exactly these items and then the end, without a panic. -/
inductive Yields (next : σ → Checked (Option α × σ)) : σ → List α → Prop
  | done {s s' : σ} : next s = .ok (none, s') → Yields next s []
  | item {s s' : σ} {a : α} {items : List α} : next s = .ok (some a, s') →
      Yields next s' items → Yields next s (a :: items)

variable {next : σ → Checked (Option α × σ)} {s : σ} {items : List α}

theorem not_yields_of_error {panic : Panic} (h : next s = .error panic) :
    ¬ Yields next s items := by
  intro hyields
  cases hyields with
  | done hnext =>
      rw [h] at hnext
      cases hnext
  | item hnext _ =>
      rw [h] at hnext
      cases hnext

theorem Yields.tail {a : α} {s' : σ} (h : Yields next s items) (hnext : next s = .ok (some a, s')) :
    ∃ rest, items = a :: rest ∧ Yields next s' rest := by
  cases h with
  | done hdone =>
      rw [hnext] at hdone
      cases hdone
  | item hitem hrest =>
      rw [hnext] at hitem
      cases hitem
      exact ⟨_, rfl, hrest⟩

end CheckedIterator
