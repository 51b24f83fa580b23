import MiniatureOs.Heap.Backed
import MiniatureOs.Paging.Offset

/-! # The heap through the window

`init_heap` changes the page table where the kernel sees it, at the offset of physical memory.
What it writes there is written to the tables that the processor walks, and the frames it
takes are the allocator's: the tables, the pages of the heap and the guard page are all new.
-/

namespace MiniatureOs

open PageTableFrameMapping MappedPageTable

/-! ## New frames and tables -/

section Loop

variable {P A : Type} [PageTableFrameMapping P] [FrameAllocator A]
  {sizes : Nat → PageSize} {table : MappedPageTable P}
  {tables used : PhysicalFrame .size4KiB → Prop} {frame : PhysicalFrame .size4KiB}
  {s s' s₁ s₂ : Machine A} {k : Nat}

/-- The first `k` pages are mapped, to frames that were not in use. -/
def HeapGrown (sizes : Nat → PageSize) (table : MappedPageTable P)
    (tables used : PhysicalFrame .size4KiB → Prop) (s : Machine A) (k : Nat) (s' : Machine A) :
    Prop :=
  ∃ tables' used' frames, PagesMapped sizes table tables' used' frames k s.memory s' ∧
    Enlarges table tables used tables' used' s.memory s'.memory ∧ ∀ j < k, ¬ used (frames j)

theorem HeapGrown.zero (h : Separate sizes table tables used s) :
    HeapGrown sizes table tables used s 0 s :=
  ⟨tables, used, fun _ => .containingAddress .size4KiB 0,
    { separate := h
      backing := fun _ hj => absurd hj (Nat.not_lt_zero _)
      distinct := fun _ hj => absurd hj (Nat.not_lt_zero _)
      filled := .zero }, .refl table tables used s.memory,
    fun _ hj => absurd hj (Nat.not_lt_zero _)⟩

theorem HeapGrown.step (h : HeapGrown sizes table tables used s k s₁)
    (hmapping : DisjointMapping table.mapping) (htotal : TotalMapping table.mapping)
    (hsmall : sizes (slotOf heapStart) = .size4KiB) (hk : k ≤ heapPages) {message message' : String}
    (hframe : expectFrame message s₁ = .ok (frame, s₂))
    (hmap : table.expectMapTo message' frame (heapPage k) (heapPageFlags k) s₂ = .ok s') :
    HeapGrown sizes table tables used s (k + 1) s' := by
  obtain ⟨tables₁, used₁, frames, hpages, hgrown, hnew⟩ := h
  obtain ⟨tables₂, used₂, frames', hpages', hgrown', hlast, hbefore⟩ :=
    hpages.step hmapping htotal hsmall hk hframe hmap
  refine ⟨tables₂, used₂, frames', hpages', hgrown.trans hgrown', fun j hj => ?_⟩
  cases Nat.lt_or_eq_of_le (Nat.le_of_lt_succ hj) with
  | inl hlt =>
      rw [hbefore j hlt]
      exact hnew j hlt
  | inr heq =>
      rw [heq]
      exact fun hused => hlast (hgrown.used_mono _ hused)

/-- `init_heap` takes new frames only, and writes to tables only. -/
theorem Separate.initHeap_grown (h : Separate sizes table tables used s)
    (hmapping : DisjointMapping table.mapping) (htotal : TotalMapping table.mapping)
    (hsmall : sizes (slotOf heapStart) = .size4KiB) {allocator allocator' : BuddyAllocator}
    (hrun : initHeap table allocator s = .ok (allocator', s')) :
    HeapGrown sizes table tables used s (heapPages + 1) s' := by
  obtain ⟨s₁, frame, s₂, hloop, hframe, hmap, -⟩ := initHeap_eq_ok.mp hrun
  have hround : ∀ k (s₁ s₂ : Machine A), k < heapPages → HeapGrown sizes table tables used s k s₁ →
      mapHeapPage table (.containingAddress .size4KiB
        ((heapPage 0).address + k * PageSize.size4KiB.size)) s₁ = .ok s₂ →
      HeapGrown sizes table tables used s (k + 1) s₂ := by
    intro k s₁ s₂ hk hgrown hbody
    rw [containingAddress_round, mapHeapPage_eq_ok hk] at hbody
    obtain ⟨frame, s', hframe, hmap⟩ := hbody
    exact hgrown.step hmapping htotal hsmall (Nat.le_of_lt hk) hframe hmap
  have hpages := (rangeLoop_ok rangeOf_heap hround (.zero h) hloop).1
  exact hpages.step hmapping htotal hsmall (Nat.le_refl _) hframe hmap

end Loop

/-! ## Through the window -/

/-- Physical memory, up to the large page that `highest` lies in, is seen at the offset. -/
def SeesMemory (offset highest : Nat) (m view : ByteMemory) : Prop :=
  ∀ p, p / 2 ^ 21 ≤ highest / 2 ^ 21 → view (offset + p) = m p

def FrameSeen (highest : Nat) (frame : PhysicalFrame .size4KiB) : Prop :=
  frame.address / 2 ^ 21 ≤ highest / 2 ^ 21

/-- The window, with a page table whose tables are all seen through it. The frames that are
not in use are seen as well. -/
structure TablesSeen (sizes : Nat → PageSize) (table : MappedPageTable PhysicalOffset)
    (tables used : PhysicalFrame .size4KiB → Prop) (offset highest : Nat) (m : ByteMemory) :
    Prop where
  identity : table.mapping.offset = 0
  aligned : offset % 4096 = 0
  fits : offset + 2 ^ 48 ≤ 2 ^ 64
  below : highest + 2 ^ 21 ≤ 2 ^ 48
  wellFormed : WellFormed sizes table tables m
  root : ∀ frame : PhysicalFrame .size4KiB, frame.address = table.pml4t →
    used frame ∧ FrameSeen highest frame
  tables : ∀ frame, tables frame → used frame ∧ FrameSeen highest frame
  free : ∀ frame, ¬ used frame → FrameSeen highest frame

/-- What `init_heap` does to the page table of the processor. -/
structure HeapPlaced (sizes : Nat → PageSize) (table : MappedPageTable PhysicalOffset)
    (tables used tables' : PhysicalFrame .size4KiB → Prop)
    (frames : Nat → PhysicalFrame .size4KiB) (m m' : ByteMemory) : Prop where
  wellFormed : WellFormed sizes table tables' m'
  tables_new : ∀ frame, tables' frame → tables frame ∨ ¬ used frame
  outside : ∀ x, ¬ InTables table tables' x → m' x = m x
  filled : FillsPages sizes table heapPage
    (fun j => .setAddress (frames j).address (heapPageFlags j)) (heapPages + 1) m m'
  new : ∀ j < heapPages + 1, ¬ used (frames j)
  lt : ∀ j < heapPages + 1, (frames j).address < 2 ^ 48
  distinct : ∀ j < heapPages + 1, ∀ i < j, frames i ≠ frames j
  apart : ∀ j < heapPages + 1, ∀ i < 4096, ¬ InTables table tables' ((frames j).address + i)

section Window

variable {A : Type} [FrameAllocator A] {sizes : Nat → PageSize}
  {table : MappedPageTable PhysicalOffset} {tables used : PhysicalFrame .size4KiB → Prop}
  {offset highest : Nat} {m m' view : ByteMemory} {s s' : Machine A}

namespace TablesSeen

variable (h : TablesSeen sizes table tables used offset highest m)
include h

theorem frame_lt {frame : PhysicalFrame .size4KiB} (hseen : FrameSeen highest frame) :
    frame.address < 2 ^ 48 := by
  have hbelow := h.below
  unfold FrameSeen at hseen
  omega

theorem seen_of_inTables {tables' : PhysicalFrame .size4KiB → Prop}
    (htables : ∀ frame, tables' frame → FrameSeen highest frame) {x : Nat}
    (hx : InTables table tables' x) : x / 2 ^ 21 ≤ highest / 2 ^ 21 := by
  obtain ⟨address, hle, hlt, hroot | ⟨frame, htable, hvirtual⟩⟩ := hx
  · have hseen := (h.root ⟨table.pml4t, table.aligned⟩ rfl).2
    have haligned := table.aligned
    unfold FrameSeen at hseen
    simp only at hseen
    omega
  · obtain ⟨-, rfl⟩ := (frameToVirtual_eq_ok h.identity).mp hvirtual
    have hseen := htables frame htable
    have haligned : frame.address % 4096 = 0 := frame.aligned
    unfold FrameSeen at hseen
    omega

theorem pageEntry_eq (hview : SeesMemory offset highest m view) {S : PageSize} {page : Page S}
    (hpage : page.Fits sizes) :
    (table.atOffset offset h.aligned).pageEntry view page = table.pageEntry m page := by
  rw [pageEntry_atOffset h.identity h.fits]
  exact h.wellFormed.dataAt_congr (fun x hx => hview x (h.seen_of_inTables
    (fun frame hframe => (h.tables frame hframe).2) hx)) hpage.interior_tablePath page.leafIndex

theorem separate (hview : SeesMemory offset highest m s.memory)
    (hfresh : ReturnsFresh used s.allocator) :
    Separate sizes (table.atOffset offset h.aligned) tables used s where
  toWellFormed := by
    refine (wellFormed_atOffset h.identity h.fits).mpr (h.wellFormed.congr fun x hx => ?_)
    exact hview x (h.seen_of_inTables (fun frame hframe => (h.tables frame hframe).2) hx)
  tables_used := fun frame hframe => (h.tables frame hframe).1
  root_used := by
    intro frame hvirtual
    have haddress : offset + table.pml4t = offset + frame.address :=
      (Checked.add_eq_ok.mp hvirtual).2
    exact (h.root frame (by omega)).1
  fresh := hfresh

theorem initHeap_placed (hsmall : sizes (slotOf heapStart) = .size4KiB)
    (hview : SeesMemory offset highest m s.memory) (hfresh : ReturnsFresh used s.allocator)
    {allocator allocator' : BuddyAllocator}
    (hrun : initHeap (table.atOffset offset h.aligned) allocator s = .ok (allocator', s'))
    (hview' : SeesMemory offset highest m' s'.memory)
    (hother : ∀ p, highest / 2 ^ 21 < p / 2 ^ 21 → m' p = m p) :
    ∃ tables' frames, HeapPlaced sizes table tables used tables' frames m m' := by
  have htotal : TotalMapping (table.atOffset offset h.aligned).mapping :=
    PhysicalOffset.totalMapping h.fits h.aligned
  have hseparate := h.separate hview hfresh
  obtain ⟨tables', used', frames, hpages, hgrown, hnew⟩ :=
    hseparate.initHeap_grown (PhysicalOffset.disjointMapping _) htotal hsmall hrun
  have htables : ∀ frame, tables' frame → FrameSeen highest frame := by
    intro frame hframe
    cases hgrown.tables_new frame hframe with
    | inl hold => exact (h.tables frame hold).2
    | inr hfree => exact h.free frame hfree
  have hin : ∀ {p}, InTables (table.atOffset offset h.aligned) tables' (offset + p) ↔
      InTables table tables' p :=
    inTables_atOffset h.identity h.fits fun frame hframe => h.frame_lt (htables frame hframe)
  have hlower := (wellFormed_atOffset h.identity h.fits).mp hpages.separate.toWellFormed
  have hsame : ∀ x, InTables table tables' x → m' x = ByteMemory.lower offset s'.memory x :=
    fun x hx => (hview' x (h.seen_of_inTables htables hx)).symm
  have hentry : ∀ {S : PageSize} (page : Page S), page.Fits sizes →
      table.pageEntry m' page = (table.atOffset offset h.aligned).pageEntry s'.memory page := by
    intro S page hpage
    rw [pageEntry_atOffset h.identity h.fits]
    exact hlower.dataAt_congr hsame hpage.interior_tablePath page.leafIndex
  refine ⟨tables', frames, hlower.congr hsame, hgrown.tables_new, fun x hx => ?_,
    ⟨fun j hj => ?_, fun other hother' hapart => ?_⟩, hnew, fun j hj => (hpages.backing j hj).lt,
    hpages.distinct, fun j hj i hi hx => ?_⟩
  · by_cases hseen : x / 2 ^ 21 ≤ highest / 2 ^ 21
    · rw [← hview' x hseen, hgrown.outside (offset + x) fun hinside => hx (hin.mp hinside)]
      exact hview x hseen
    · exact hother x (Nat.lt_of_not_le hseen)
  · rw [hentry _ (heapPage_fits hsmall (Nat.le_of_lt_succ hj))]
    exact hpages.filled.entries j hj
  · rw [hentry other hother', hpages.filled.others other hother' hapart,
      h.pageEntry_eq hview hother']
  · have hlt := (hpages.backing j hj).lt
    have hself : (frames j).Contains (frames j) :=
      ⟨Nat.le_refl _, Nat.lt_add_of_pos_right (by decide)⟩
    refine (hpages.backing j hj).apart (offset + ((frames j).address + i)) ?_ (hin.mpr hx)
    exact ⟨frames j, offset + (frames j).address, hself, frameToVirtual_offset h.fits hlt, by omega,
      by omega⟩

end TablesSeen

end Window

end MiniatureOs
