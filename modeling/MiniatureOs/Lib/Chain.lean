import Mathlib.Algebra.Ring.Parity
import Mathlib.Data.List.Basic
import Mathlib.Data.List.Nodup
import Mathlib.Logic.Function.Basic

/-! # Chains of links

A link function gives the successor of an element, if there is one. Following it from a
start visits the elements of a list when the list begins at the start, each element
links to the next one and the last to nothing. Such a chain never visits an element
twice. A change of one link replaces the part of the chain behind it.
-/

namespace LinkChain

variable {α : Type _} {link : α → Option α} {start next : Option α} {a b : α}
  {xs ys zs : List α}

/-- Following the links from the start visits exactly the elements of the list, in order. -/
def Follows (link : α → Option α) : Option α → List α → Prop
  | start, [] => start = none
  | start, a :: rest => start = some a ∧ Follows link (link a) rest

theorem Follows.start_eq (h : Follows link start xs) : start = xs.head? := by
  cases xs with
  | nil => exact h
  | cons a rest => exact h.1

theorem Follows.behind (h : Follows link start (xs ++ a :: ys)) : Follows link (link a) ys := by
  induction xs generalizing start with
  | nil => exact h.2
  | cons x xs ih => exact ih h.2

theorem Follows.congr {link' : α → Option α} (h : Follows link start xs)
    (hlinks : ∀ x ∈ xs, link' x = link x) : Follows link' start xs := by
  induction xs generalizing start with
  | nil => exact h
  | cons x xs ih =>
      refine ⟨h.1, ?_⟩
      rw [hlinks x List.mem_cons_self]
      exact ih h.2 fun y hy => hlinks y (List.mem_cons_of_mem x hy)

theorem Follows.unique (h : Follows link start xs) (h' : Follows link start ys) : xs = ys := by
  induction xs generalizing start ys with
  | nil =>
      cases ys with
      | nil => rfl
      | cons y ys => exact absurd (h.symm.trans h'.1) nofun
  | cons x xs ih =>
      cases ys with
      | nil => exact absurd (h.1.symm.trans h') nofun
      | cons y ys =>
          obtain rfl := Option.some.inj (h.1.symm.trans h'.1)
          rw [ih h.2 h'.2]

/-- A chain that ends never comes back to an element. -/
theorem Follows.nodup (h : Follows link start xs) : xs.Nodup := by
  induction xs generalizing start with
  | nil => exact List.nodup_nil
  | cons x xs ih =>
      refine List.nodup_cons.mpr ⟨fun hmem => ?_, ih h.2⟩
      -- what follows the second visit would also follow the first
      obtain ⟨ys, zs, rfl⟩ := List.append_of_mem hmem
      have hlength := congrArg List.length (h.2.unique h.2.behind)
      rw [List.length_append, List.length_cons] at hlength
      omega

variable [DecidableEq α]

/-- A change to the link of an element that is not visited does not matter. -/
theorem Follows.update_of_notMem (h : Follows link start xs) (ha : a ∉ xs) :
    Follows (Function.update link a next) start xs := by
  induction xs generalizing start with
  | nil => exact h
  | cons x xs ih =>
      obtain ⟨hne, hrest⟩ := not_or.mp (mt List.mem_cons.mpr ha)
      refine ⟨h.1, ?_⟩
      rw [Function.update_of_ne (Ne.symm hne)]
      exact ih h.2 hrest

/-- A change to one link replaces what follows it. -/
theorem Follows.relink (h : Follows link start (xs ++ a :: ys)) (ha : a ∉ xs)
    (hnext : Follows (Function.update link a next) next zs) :
    Follows (Function.update link a next) start (xs ++ a :: zs) := by
  induction xs generalizing start with
  | nil =>
      refine ⟨h.1, ?_⟩
      rw [Function.update_self]
      exact hnext
  | cons x xs ih =>
      obtain ⟨hne, hrest⟩ := not_or.mp (mt List.mem_cons.mpr ha)
      refine ⟨h.1, ?_⟩
      rw [Function.update_of_ne (Ne.symm hne)]
      exact ih h.2 hrest

theorem Follows.push (h : Follows link start xs) (ha : a ∉ xs) :
    Follows (Function.update link a start) (some a) (a :: xs) := by
  refine ⟨rfl, ?_⟩
  rw [Function.update_self]
  exact h.update_of_notMem ha

theorem Follows.unlink (h : Follows link start (xs ++ a :: b :: ys)) :
    Follows (Function.update link a (link b)) start (xs ++ a :: ys) := by
  obtain ⟨_, hnodup, hdisjoint⟩ := List.nodup_append.mp h.nodup
  have hsplit : Follows link start ((xs ++ [a]) ++ b :: ys) := by
    rwa [List.append_assoc]
  apply h.relink fun hmem => hdisjoint a hmem a List.mem_cons_self rfl
  apply hsplit.behind.update_of_notMem
  intro hmem
  exact (List.nodup_cons.mp hnodup).1 (List.mem_cons_of_mem b hmem)

theorem Follows.extend (h : Follows link start (xs ++ [a])) (ha : a ∉ xs) (hne : b ≠ a)
    (hb : link b = none) : Follows (Function.update link a (some b)) start (xs ++ [a, b]) := by
  apply h.relink ha
  refine ⟨rfl, ?_⟩
  rw [Function.update_of_ne hne]
  exact hb

theorem Follows.cut (h : Follows link start (xs ++ a :: ys)) (ha : a ∉ xs) :
    Follows (Function.update link a none) start (xs ++ [a]) :=
  h.relink ha rfl

end LinkChain
