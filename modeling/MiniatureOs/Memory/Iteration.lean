import MiniatureOs.Lib.Iterator
import MiniatureOs.Memory.Range

/-! # The range iterators

`PageRangeInclusive` and `PhysicalFrameRangeInclusive` of `x86_64/src/memory.rs` as
iterators. `next` advances the start of the range before it returns the item, and the
address behind the last page of the address space does not exist. So a range is enumerated
exactly unless it contains that page; then the call that should return it panics.
-/

namespace MiniatureOs

open CheckedIterator

variable {S : PageSize} {α : Type}

/-! ## The iterators -/

theorem add_size_mul_aligned {address : Nat} (h : address % S.size = 0) (n : Nat) :
    (address + S.size * n) % S.size = 0 := by
  rw [Nat.add_mul_mod_self_left, h]

/-- `self.address += S::SIZE * rhs`, for both kinds of address. -/
def addAssignAddress (S : PageSize) (address n : Nat) : Checked Nat := do
  let distance ← Checked.mul 64 S.size n
  Checked.add 64 address distance

/-- `AddAssign<u64> for Page`. -/
def Page.addAssign (page : Page S) (n : Nat) : Checked (Page S) := do
  let _ ← addAssignAddress S page.address n
  return ⟨page.address + S.size * n, add_size_mul_aligned page.aligned n⟩

/-- `AddAssign<u64> for PhysicalFrame`. -/
def PhysicalFrame.addAssign (frame : PhysicalFrame S) (n : Nat) : Checked (PhysicalFrame S) := do
  let _ ← addAssignAddress S frame.address n
  return ⟨frame.address + S.size * n, add_size_mul_aligned frame.aligned n⟩

structure RangeInclusive (α : Type) where
  start : α
  last : α

/-- `Iterator::next` of the ranges, over the order and the successor of the items. -/
def RangeInclusive.next (address : α → Nat) (addAssign : α → Nat → Checked α)
    (range : RangeInclusive α) : Checked (Option α × RangeInclusive α) :=
  if address range.start ≤ address range.last then do
    let item := range.start
    let start ← addAssign range.start 1
    return (some item, { range with start := start })
  else return (none, range)

/-- `Page::range_inclusive`. -/
def Page.rangeInclusive (start last : Page S) : RangeInclusive (Page S) := ⟨start, last⟩

/-- `Iterator::next` for `PageRangeInclusive`. -/
def Page.rangeNext :
    RangeInclusive (Page S) → Checked (Option (Page S) × RangeInclusive (Page S)) :=
  RangeInclusive.next Page.address Page.addAssign

/-- `PhysicalFrame::range_inclusive`. -/
def PhysicalFrame.rangeInclusive (start last : PhysicalFrame S) :
    RangeInclusive (PhysicalFrame S) := ⟨start, last⟩

/-- `Iterator::next` for `PhysicalFrameRangeInclusive`. -/
def PhysicalFrame.rangeNext : RangeInclusive (PhysicalFrame S) →
    Checked (Option (PhysicalFrame S) × RangeInclusive (PhysicalFrame S)) :=
  RangeInclusive.next PhysicalFrame.address PhysicalFrame.addAssign

/-! ## Exact enumeration -/

/-- The addresses from `start` to `last` in steps of the page size, none if `last` is smaller. -/
def rangeAddresses (S : PageSize) (start last : Nat) : List Nat :=
  if start ≤ last then
    (List.range ((last - start) / S.size + 1)).map fun i => start + i * S.size
  else []

def Page.Enumerates (start last : Page S) : Prop :=
  ∃ items, Yields Page.rangeNext (Page.rangeInclusive start last) items ∧
    items.map Page.address = rangeAddresses S start.address last.address

def PhysicalFrame.Enumerates (start last : PhysicalFrame S) : Prop :=
  ∃ items, Yields PhysicalFrame.rangeNext (PhysicalFrame.rangeInclusive start last) items ∧
    items.map PhysicalFrame.address = rangeAddresses S start.address last.address

structure Spaced (S : PageSize) (address : α → Nat) (addAssign : α → Nat → Checked α) : Prop where
  aligned : ∀ a, address a % S.size = 0
  next_ok : ∀ a, address a + S.size < 2 ^ 64 →
    ∃ b, addAssign a 1 = .ok b ∧ address b = address a + S.size
  next_overflow : ∀ a, ¬ address a + S.size < 2 ^ 64 → addAssign a 1 = .error .overflow

theorem addAssignAddress_one (S : PageSize) (address : Nat) :
    addAssignAddress S address 1 = Checked.add 64 address S.size := by
  have hsize : S.size * 1 < 2 ^ 64 := by cases S <;> decide
  rw [addAssignAddress, Checked.mul_of_lt hsize, Checked.ok_bind, Nat.mul_one]

theorem Page.spaced : Spaced S (@Page.address S) Page.addAssign := by
  refine ⟨Page.aligned, fun page hfits => ?_, fun page hover => ?_⟩
  · refine ⟨⟨page.address + S.size * 1, add_size_mul_aligned page.aligned 1⟩, ?_,
      congrArg (page.address + ·) (Nat.mul_one _)⟩
    rw [Page.addAssign, addAssignAddress_one, Checked.add_of_lt hfits]
    rfl
  · rw [Page.addAssign, addAssignAddress_one, Checked.add, if_neg hover]
    rfl

theorem PhysicalFrame.spaced : Spaced S (@PhysicalFrame.address S) PhysicalFrame.addAssign := by
  refine ⟨PhysicalFrame.aligned, fun frame hfits => ?_, fun frame hover => ?_⟩
  · refine ⟨⟨frame.address + S.size * 1, add_size_mul_aligned frame.aligned 1⟩, ?_,
      congrArg (frame.address + ·) (Nat.mul_one _)⟩
    rw [PhysicalFrame.addAssign, addAssignAddress_one, Checked.add_of_lt hfits]
    rfl
  · rw [PhysicalFrame.addAssign, addAssignAddress_one, Checked.add, if_neg hover]
    rfl

section Enumeration

variable {address : α → Nat} {addAssign : α → Nat → Checked α} {start last : α}
  {items : List α}

theorem rangeAddresses_of_lt {first final : Nat} (h : final < first) :
    rangeAddresses S first final = [] :=
  if_neg (Nat.not_le_of_lt h)

theorem rangeAddresses_mul (S : PageSize) (m n : Nat) :
    rangeAddresses S (S.size * m) (S.size * n) =
      (List.range (n + 1 - m)).map fun i => S.size * m + i * S.size := by
  have hpos := S.size_pos
  by_cases hmn : m ≤ n
  · have hcount : (S.size * n - S.size * m) / S.size + 1 = n + 1 - m := by
      rw [← Nat.mul_sub, Nat.mul_div_cancel_left _ hpos]
      omega
    rw [rangeAddresses, if_pos (Nat.mul_le_mul_left _ hmn), hcount]
  · have hlt : S.size * n < S.size * m := Nat.mul_lt_mul_of_pos_left (Nat.lt_of_not_le hmn) hpos
    have hzero : n + 1 - m = 0 := by omega
    rw [rangeAddresses_of_lt hlt, hzero]
    rfl

theorem rangeAddresses_of_le {first final : Nat} (hle : first ≤ final)
    (hfirst : first % S.size = 0) (hfinal : final % S.size = 0) :
    rangeAddresses S first final = first :: rangeAddresses S (first + S.size) final := by
  obtain ⟨m, rfl⟩ := Nat.dvd_of_mod_eq_zero hfirst
  obtain ⟨n, rfl⟩ := Nat.dvd_of_mod_eq_zero hfinal
  have hmn : m ≤ n := Nat.le_of_mul_le_mul_left hle S.size_pos
  have hcount : n + 1 - m = (n + 1 - (m + 1)) + 1 := by omega
  rw [← Nat.mul_succ, rangeAddresses_mul, rangeAddresses_mul, hcount, List.range_succ_eq_map,
    List.map_cons, List.map_map]
  congr 1
  · omega
  · apply List.map_congr_left
    intro i _
    simp only [Function.comp, Nat.succ_mul, Nat.mul_succ]
    omega

theorem next_of_le (h : address start ≤ address last) :
    RangeInclusive.next address addAssign ⟨start, last⟩ = (do
      let next ← addAssign start 1
      return (some start, ⟨next, last⟩)) :=
  if_pos h

theorem next_of_lt (h : address last < address start) :
    RangeInclusive.next address addAssign ⟨start, last⟩ = .ok (none, ⟨start, last⟩) :=
  if_neg (Nat.not_le_of_lt h)

/-- A range that ends before the last page of the address space. -/
theorem Spaced.yields (h : Spaced S address addAssign) (hfits : address last + S.size < 2 ^ 64) :
    ∃ items, Yields (RangeInclusive.next address addAssign) ⟨start, last⟩ items ∧
      items.map address = rangeAddresses S (address start) (address last) := by
  -- the distance to the end decreases with every item
  induction hn : address last + S.size - address start using Nat.strongRecOn generalizing start with
  | ind n ih =>
      rcases Nat.lt_or_ge (address last) (address start) with hlt | hle
      · exact ⟨[], .done (next_of_lt hlt), (rangeAddresses_of_lt hlt).symm⟩
      · have hpos := S.size_pos
        obtain ⟨next, hnext, haddress⟩ := h.next_ok start (by omega)
        obtain ⟨items, hitems, hmap⟩ := @ih _ (by omega) next rfl
        refine ⟨start :: items, .item ?_ hitems, ?_⟩
        · rw [next_of_le hle, hnext]
          rfl
        · rw [List.map_cons, hmap, haddress,
            rangeAddresses_of_le hle (h.aligned start) (h.aligned last)]

/-- In a range that contains the last page of the address space, a call overflows or there
is more to come. -/
theorem Spaced.next_cases (h : Spaced S address addAssign) (hle : address start ≤ address last)
    (hover : ¬ address last + S.size < 2 ^ 64) :
    RangeInclusive.next address addAssign ⟨start, last⟩ = .error .overflow ∨
      ∃ next, RangeInclusive.next address addAssign ⟨start, last⟩ =
        .ok (some start, ⟨next, last⟩) ∧ address next ≤ address last := by
  rw [next_of_le hle]
  by_cases hfits : address start + S.size < 2 ^ 64
  · right
    obtain ⟨next, hnext, haddress⟩ := h.next_ok start hfits
    refine ⟨next, by rw [hnext]; rfl, ?_⟩
    -- two different multiples of the page size are at least one page apart
    obtain ⟨m, hm⟩ := Nat.dvd_of_mod_eq_zero (h.aligned start)
    obtain ⟨n, hn⟩ := Nat.dvd_of_mod_eq_zero (h.aligned last)
    have hmn : m < n := by
      apply Nat.lt_of_mul_lt_mul_left (a := S.size)
      omega
    have hmul : S.size * (m + 1) ≤ S.size * n := Nat.mul_le_mul_left _ hmn
    rw [Nat.mul_succ] at hmul
    omega
  · left
    rw [h.next_overflow start hfits]
    rfl

/-- A range that contains the last page of the address space is not yielded. -/
theorem Spaced.not_yields (h : Spaced S address addAssign) (hle : address start ≤ address last)
    (hover : ¬ address last + S.size < 2 ^ 64) :
    ¬ Yields (RangeInclusive.next address addAssign) ⟨start, last⟩ items := by
  intro hyields
  induction items generalizing start with
  | nil =>
      cases h.next_cases hle hover with
      | inl herror => exact not_yields_of_error herror hyields
      | inr hmore =>
          obtain ⟨next, hnext, _⟩ := hmore
          obtain ⟨_, hcons, _⟩ := hyields.tail hnext
          cases hcons
  | cons item items ih =>
      cases h.next_cases hle hover with
      | inl herror => exact not_yields_of_error herror hyields
      | inr hmore =>
          obtain ⟨next, hnext, hrest⟩ := hmore
          obtain ⟨_, hcons, hyields⟩ := hyields.tail hnext
          cases hcons
          exact ih hrest hyields

theorem Spaced.yields_iff (h : Spaced S address addAssign) :
    (∃ items, Yields (RangeInclusive.next address addAssign) ⟨start, last⟩ items ∧
      items.map address = rangeAddresses S (address start) (address last)) ↔
        address last < address start ∨ address last + S.size < 2 ^ 64 := by
  constructor
  · intro hyields
    obtain ⟨items, hyields, _⟩ := hyields
    by_contra hnot
    obtain ⟨hle, hover⟩ := not_or.mp hnot
    exact h.not_yields (Nat.le_of_not_lt hle) hover hyields
  · intro hcondition
    cases hcondition with
    | inl hlt => exact ⟨[], .done (next_of_lt hlt), (rangeAddresses_of_lt hlt).symm⟩
    | inr hfits => exact h.yields hfits

end Enumeration

/-- Both ranges between two addresses are enumerated exactly, unless the last page of the
address space is among their items. -/
theorem enumerates_iff {start last : Nat} (hstart : start % S.size = 0)
    (hlast : last % S.size = 0) :
    (Page.Enumerates ⟨start, hstart⟩ ⟨last, hlast⟩ ∧
      PhysicalFrame.Enumerates ⟨start, hstart⟩ ⟨last, hlast⟩) ↔
        last < start ∨ last + S.size < 2 ^ 64 := by
  constructor
  · intro h
    exact Page.spaced.yields_iff.mp h.1
  · intro h
    exact ⟨Page.spaced.yields_iff.mpr h, PhysicalFrame.spaced.yields_iff.mpr h⟩

theorem enumerates_iff_three_pages :
    (Page.Enumerates (S := .size4KiB) ⟨0x1000, rfl⟩ ⟨0x3000, rfl⟩ ∧
      PhysicalFrame.Enumerates (S := .size4KiB) ⟨0x1000, rfl⟩ ⟨0x3000, rfl⟩) ↔
        0x3000 < 0x1000 ∨ 0x3000 + 0x1000 < 2 ^ 64 :=
  enumerates_iff (S := .size4KiB) rfl rfl

/-- The range that consists of the last page of the address space. -/
theorem not_enumerates_last_page :
    ¬ (Page.Enumerates (S := .size4KiB) ⟨0xfffffffffffff000, rfl⟩ ⟨0xfffffffffffff000, rfl⟩ ∧
      PhysicalFrame.Enumerates (S := .size4KiB) ⟨0xfffffffffffff000, rfl⟩
        ⟨0xfffffffffffff000, rfl⟩) := by
  intro h
  obtain ⟨items, hyields, _⟩ := h.1
  exact Page.spaced.not_yields (Nat.le_refl _) (by decide) hyields

end MiniatureOs
