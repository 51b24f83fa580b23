import Mathlib.Algebra.Ring.Parity
import Mathlib.Data.List.Induction
import Mathlib.Tactic.Common

/-! # Trees of tables in a store

A store holds tables of entries, and an entry may point to a further table. A
path of indices leads from a root to a table; `interior` says which paths are
meant to lead to tables, and an entry at the end of any other path is data. When
no two interior paths meet in one table, an entry of data can be written and an
empty table can be linked without an effect on any other path.
-/

namespace RadixTree

variable {α ι E : Type*}

def walk (child : E → Option α) (store : α → ι → E) : α → List ι → Option α
  | table, [] => some table
  | table, i :: path =>
      match child (store table i) with
      | none => none
      | some next => walk child store next path

/-- The entry at the end of a path, `null` where a table on the way is missing. -/
def lookup (child : E → Option α) (store : α → ι → E) (null : E) (root : α) (path : List ι)
    (i : ι) : E :=
  match walk child store root path with
  | none => null
  | some table => store table i

variable {child : E → Option α} {store store' : α → ι → E} {null e : E} {root table new : α}
  {interior : List ι → Prop} {path : List ι} {i : ι}

@[simp] theorem walk_nil : walk child store root [] = some root := rfl

theorem walk_append (p q : List ι) :
    walk child store root (p ++ q) =
      (walk child store root p).bind fun t => walk child store t q := by
  induction p generalizing root with
  | nil => rfl
  | cons i p ih =>
      simp only [List.cons_append, walk]
      cases child (store root i) with
      | none => rfl
      | some next => exact ih

theorem walk_concat (path : List ι) (i : ι) :
    walk child store root (path ++ [i]) =
      (walk child store root path).bind fun t => child (store t i) := by
  rw [walk_append]
  congr 1
  funext t
  simp only [walk]
  cases child (store t i) <;> rfl

/-- A prefix of an interior path is interior. -/
def PrefixClosed (interior : List ι → Prop) : Prop :=
  ∀ path i, interior (path ++ [i]) → interior path

theorem PrefixClosed.of_append (hclosed : PrefixClosed interior) {p q : List ι}
    (h : interior (p ++ q)) : interior p := by
  induction q using List.reverseRecOn with
  | nil => simpa using h
  | append_singleton q i ih =>
      rw [← List.append_assoc] at h
      exact ih (hclosed (p ++ q) i h)

def Separated (child : E → Option α) (store : α → ι → E) (root : α)
    (interior : List ι → Prop) : Prop :=
  ∀ p q t, interior p → interior q → walk child store root p = some t →
    walk child store root q = some t → p = q

/-- Every entry that an interior path goes through satisfies `P`. -/
def Edges (P : E → Prop) (child : E → Option α) (store : α → ι → E) (root : α)
    (interior : List ι → Prop) : Prop :=
  ∀ path i t, interior (path ++ [i]) → walk child store root path = some t → P (store t i)

/-- The two stores differ in the tables that interior paths reach at most in
entry `i` of `table`. -/
def SameExcept (child : E → Option α) (store store' : α → ι → E) (root : α)
    (interior : List ι → Prop) (table : α) (i : ι) : Prop :=
  ∀ path t j, interior path → walk child store root path = some t → ¬ (t = table ∧ j = i) →
    store' t j = store t j

theorem walk_congr (hclosed : PrefixClosed interior)
    (hedge : ∀ q j t, interior (q ++ [j]) → walk child store root q = some t →
      store' t j = store t j) {q : List ι} (hq : interior q) :
    walk child store' root q = walk child store root q := by
  induction q using List.reverseRecOn with
  | nil => rfl
  | append_singleton q j ih =>
      rw [walk_concat, walk_concat, ih (hclosed q j hq)]
      cases hwalk : walk child store root q with
      | none => rfl
      | some t => simp only [Option.bind_some, hedge q j t hq hwalk]

/-! ## Renaming tables -/

section Rename

variable {β : Type*} {f : α → β} {child' : E → Option β} {renamed : β → ι → E}

theorem walk_map (hchild : ∀ e, child' e = (child e).map f)
    (hstore : ∀ t i, renamed (f t) i = store t i) (path : List ι) :
    walk child' renamed (f root) path = (walk child store root path).map f := by
  induction path generalizing root with
  | nil => rfl
  | cons i path ih =>
      simp only [walk, hstore, hchild]
      cases child (store root i) with
      | none => rfl
      | some next => exact ih

theorem lookup_map (hchild : ∀ e, child' e = (child e).map f)
    (hstore : ∀ t i, renamed (f t) i = store t i) (path : List ι) (i : ι) :
    lookup child' renamed null (f root) path i = lookup child store null root path i := by
  rw [lookup, lookup, walk_map hchild hstore]
  cases walk child store root path with
  | none => rfl
  | some t => exact hstore t i

theorem separated_map (hchild : ∀ e, child' e = (child e).map f)
    (hstore : ∀ t i, renamed (f t) i = store t i) (hf : Function.Injective f) :
    Separated child' renamed (f root) interior ↔ Separated child store root interior := by
  constructor
  · intro h p q t hp hq hpwalk hqwalk
    refine h p q (f t) hp hq ?_ ?_
    · rw [walk_map hchild hstore, hpwalk, Option.map_some]
    · rw [walk_map hchild hstore, hqwalk, Option.map_some]
  · intro h p q t hp hq hpwalk hqwalk
    rw [walk_map hchild hstore] at hpwalk hqwalk
    obtain ⟨t', hpath, rfl⟩ := Option.map_eq_some_iff.mp hpwalk
    obtain ⟨t'', hother, hsame⟩ := Option.map_eq_some_iff.mp hqwalk
    rw [hf hsame] at hother
    exact h p q t' hp hq hpath hother

theorem edges_map {P : E → Prop} (hchild : ∀ e, child' e = (child e).map f)
    (hstore : ∀ t i, renamed (f t) i = store t i) :
    Edges P child' renamed (f root) interior ↔ Edges P child store root interior := by
  constructor
  · intro h path i t hpath hwalk
    rw [← hstore]
    exact h path i (f t) hpath (by rw [walk_map hchild hstore, hwalk, Option.map_some])
  · intro h path i t hpath hwalk
    rw [walk_map hchild hstore] at hwalk
    obtain ⟨t', hreached, rfl⟩ := Option.map_eq_some_iff.mp hwalk
    rw [hstore]
    exact h path i t' hpath hreached

end Rename

/-! ## Writing data -/

/-- Entry `i` of the table at `path` is data, and it becomes `e`. -/
structure WritesData (child : E → Option α) (store store' : α → ι → E) (root : α)
    (interior : List ι → Prop) (path : List ι) (i : ι) (e : E) : Prop where
  isInterior : interior path
  isData : ¬ interior (path ++ [i])
  written : ∃ t, walk child store root path = some t ∧ store' t i = e ∧
    SameExcept child store store' root interior t i

namespace WritesData

/-- The entries that interior paths go through stay. -/
theorem edge_eq (h : WritesData child store store' root interior path i e)
    (hsep : Separated child store root interior) (hclosed : PrefixClosed interior)
    {q : List ι} {j : ι} {t : α} (hq : interior (q ++ [j]))
    (hwalk : walk child store root q = some t) : store' t j = store t j := by
  obtain ⟨table, htable, -, hsame⟩ := h.written
  refine hsame q t j (hclosed q j hq) hwalk ?_
  rintro ⟨rfl, rfl⟩
  have hpath : q = path := hsep q path t (hclosed q j hq) h.isInterior hwalk htable
  exact h.isData (hpath ▸ hq)

theorem walk_eq (h : WritesData child store store' root interior path i e)
    (hsep : Separated child store root interior) (hclosed : PrefixClosed interior)
    {q : List ι} (hq : interior q) :
    walk child store' root q = walk child store root q :=
  walk_congr hclosed (fun _ _ _ hq hwalk => h.edge_eq hsep hclosed hq hwalk) hq

theorem separated (h : WritesData child store store' root interior path i e)
    (hsep : Separated child store root interior) (hclosed : PrefixClosed interior) :
    Separated child store' root interior := by
  intro p q t hp hq hpwalk hqwalk
  rw [h.walk_eq hsep hclosed hp] at hpwalk
  rw [h.walk_eq hsep hclosed hq] at hqwalk
  exact hsep p q t hp hq hpwalk hqwalk

theorem edges {P : E → Prop} (h : WritesData child store store' root interior path i e)
    (hsep : Separated child store root interior) (hclosed : PrefixClosed interior)
    (hedges : Edges P child store root interior) : Edges P child store' root interior := by
  intro q j t hq hwalk
  rw [h.walk_eq hsep hclosed (hclosed q j hq)] at hwalk
  rw [h.edge_eq hsep hclosed hq hwalk]
  exact hedges q j t hq hwalk

theorem lookup_self (h : WritesData child store store' root interior path i e)
    (hsep : Separated child store root interior) (hclosed : PrefixClosed interior) :
    lookup child store' null root path i = e := by
  obtain ⟨table, htable, hentry, -⟩ := h.written
  rw [lookup, h.walk_eq hsep hclosed h.isInterior, htable]
  exact hentry

theorem lookup_other (h : WritesData child store store' root interior path i e)
    (hsep : Separated child store root interior) (hclosed : PrefixClosed interior)
    {q : List ι} {j : ι} (hq : interior q) (hne : ¬ (q = path ∧ j = i)) :
    lookup child store' null root q j = lookup child store null root q j := by
  obtain ⟨table, htable, -, hsame⟩ := h.written
  rw [lookup, lookup, h.walk_eq hsep hclosed hq]
  cases hwalk : walk child store root q with
  | none => rfl
  | some t =>
      refine hsame q t j hq hwalk ?_
      rintro ⟨rfl, rfl⟩
      exact hne ⟨hsep q path t hq h.isInterior hwalk htable, rfl⟩

end WritesData

/-! ## Linking a table -/

/-- Entry `i` of the table at `path` pointed nowhere, and it now points to the
empty table `new` that no interior path reached. -/
structure LinksTable (child : E → Option α) (store store' : α → ι → E) (null : E) (root : α)
    (interior : List ι → Prop) (path : List ι) (i : ι) (new : α) : Prop where
  isInterior : interior (path ++ [i])
  unreached : ∀ q, interior q → walk child store root q ≠ some new
  empty : ∀ j, store' new j = null
  linked : ∃ t, walk child store root path = some t ∧ child (store t i) = none ∧
    child (store' t i) = some new ∧ SameExcept child store store' root interior t i

namespace LinksTable

theorem walk_eq [DecidableEq ι] (hnull : child null = none)
    (h : LinksTable child store store' null root interior path i new)
    (hsep : Separated child store root interior) (hclosed : PrefixClosed interior)
    {q : List ι} (hq : interior q) :
    walk child store' root q =
      if q = path ++ [i] then some new else walk child store root q := by
  obtain ⟨table, htable, hbefore, hafter, hsame⟩ := h.linked
  have hpath := hclosed path i h.isInterior
  induction q using List.reverseRecOn with
  | nil => simp
  | append_singleton q j ih =>
      have hqi := hclosed q j hq
      rw [walk_concat, walk_concat, ih hqi]
      by_cases hnew : q = path ++ [i]
      · -- below the new table there is nothing yet, and there was nothing before
        have hnone : walk child store root q = none := by
          rw [hnew, walk_concat, htable]
          exact hbefore
        have hlonger : q ++ [j] ≠ path ++ [i] := by
          intro heq
          have := congrArg List.length (hnew ▸ heq)
          simp at this
        rw [if_pos hnew, if_neg hlonger, hnone, Option.bind_some, h.empty j, hnull]
        rfl
      · rw [if_neg hnew]
        cases hwalk : walk child store root q with
        | none =>
            have hne : q ++ [j] ≠ path ++ [i] := by
              intro heq
              obtain ⟨rfl, -⟩ := List.append_inj' heq rfl
              rw [htable] at hwalk
              cases hwalk
            simp [hne]
        | some t =>
            simp only [Option.bind_some]
            by_cases hcell : t = table ∧ j = i
            · obtain ⟨rfl, rfl⟩ := hcell
              rw [hsep q path t hqi hpath hwalk htable, if_pos rfl, hafter]
            · have hne : q ++ [j] ≠ path ++ [i] := by
                intro heq
                obtain ⟨rfl, hj⟩ := List.append_inj' heq rfl
                rw [htable] at hwalk
                exact hcell ⟨(Option.some.inj hwalk).symm, List.head_eq_of_cons_eq hj⟩
              rw [if_neg hne, hsame q t j hqi hwalk hcell]

theorem separated [DecidableEq ι] (hnull : child null = none)
    (h : LinksTable child store store' null root interior path i new)
    (hsep : Separated child store root interior) (hclosed : PrefixClosed interior) :
    Separated child store' root interior := by
  intro p q t hp hq hpwalk hqwalk
  rw [h.walk_eq hnull hsep hclosed hp] at hpwalk
  rw [h.walk_eq hnull hsep hclosed hq] at hqwalk
  by_cases hpn : p = path ++ [i] <;> by_cases hqn : q = path ++ [i]
  · rw [hpn, hqn]
  · rw [if_pos hpn] at hpwalk
    rw [if_neg hqn] at hqwalk
    exact absurd (hqwalk.trans hpwalk.symm) (h.unreached q hq)
  · rw [if_neg hpn] at hpwalk
    rw [if_pos hqn] at hqwalk
    exact absurd (hpwalk.trans hqwalk.symm) (h.unreached p hp)
  · rw [if_neg hpn] at hpwalk
    rw [if_neg hqn] at hqwalk
    exact hsep p q t hp hq hpwalk hqwalk

theorem edges [DecidableEq ι] {P : E → Prop} (hnull : child null = none)
    (h : LinksTable child store store' null root interior path i new)
    (hsep : Separated child store root interior) (hclosed : PrefixClosed interior)
    (hedges : Edges P child store root interior) (hPnull : P null)
    (hPnew : ∀ t, walk child store root path = some t → P (store' t i)) :
    Edges P child store' root interior := by
  obtain ⟨table, htable, -, -, hsame⟩ := h.linked
  intro q j t hq hwalk
  have hqi := hclosed q j hq
  rw [h.walk_eq hnull hsep hclosed hqi] at hwalk
  by_cases hnew : q = path ++ [i]
  · rw [if_pos hnew] at hwalk
    rw [← Option.some.inj hwalk, h.empty]
    exact hPnull
  · rw [if_neg hnew] at hwalk
    by_cases hcell : t = table ∧ j = i
    · obtain ⟨rfl, rfl⟩ := hcell
      exact hPnew t htable
    · rw [hsame q t j hqi hwalk hcell]
      exact hedges q j t hq hwalk

/-- A new table adds no data. -/
theorem lookup_eq [DecidableEq ι] (hnull : child null = none)
    (h : LinksTable child store store' null root interior path i new)
    (hsep : Separated child store root interior) (hclosed : PrefixClosed interior)
    {q : List ι} {j : ι} (hq : interior q) (hdata : ¬ interior (q ++ [j])) :
    lookup child store' null root q j = lookup child store null root q j := by
  obtain ⟨table, htable, hbefore, -, hsame⟩ := h.linked
  rw [lookup, lookup, h.walk_eq hnull hsep hclosed hq]
  by_cases hnew : q = path ++ [i]
  · have hnone : walk child store root q = none := by
      rw [hnew, walk_concat, htable]
      exact hbefore
    rw [if_pos hnew, hnone]
    exact h.empty j
  · rw [if_neg hnew]
    cases hwalk : walk child store root q with
    | none => rfl
    | some t =>
        refine hsame q t j hq hwalk ?_
        rintro ⟨rfl, rfl⟩
        have hpath := hsep q path t hq (hclosed path j h.isInterior) hwalk htable
        exact hdata (hpath ▸ h.isInterior)

end LinksTable

end RadixTree
