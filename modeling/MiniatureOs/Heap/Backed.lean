import MiniatureOs.Elf.Returns
import MiniatureOs.Heap.Safety
import MiniatureOs.Paging.Conflicts

/-! # The memory behind the heap

`init_heap` of `kernel/src/allocator.rs` gives every page of the heap a frame of its own,
and one to the guard page behind it. Tables that are missing come from the same allocator,
which returns no frame twice: a frame that holds data holds no table, then or later. What
the heap writes to its blocks therefore leaves the translations as they are.
-/

namespace MiniatureOs

open PageTableFrameMapping MappedPageTable

/-! ## `init_heap` -/

def heapStart : Nat := 0x444444440000

def heapSize : Nat := 100 * 1024

section Model

variable {P A : Type} [PageTableFrameMapping P] [FrameAllocator A]

/-- A round of the loop in `init_heap`. -/
def mapHeapPage (table : MappedPageTable P) (page : Page .size4KiB) (s : Machine A) :
    Checked (Machine A) := do
  let (frame, s) ← expectFrame "Failed to allocate frame for kernel heap" s
  table.expectMapTo "Failed to map heap page" frame page
    (.present ||| .writable ||| .noExecute) s

/-- `init_heap`, with the state of the global allocator; its lock is free. -/
def initHeap (table : MappedPageTable P) (allocator : BuddyAllocator) (s : Machine A) :
    Checked (BuddyAllocator × Machine A) := do
  let stop ← Checked.add 64 heapStart heapSize
  let last ← checkedSub stop 1
  let s ← (Page.containingAddress .size4KiB heapStart).forRange
    (.containingAddress .size4KiB last) (mapHeapPage table) s
  let guard ← Checked.add 64 heapStart heapSize
  let (frame, s) ← expectFrame "Failed to allocate frame for guard page" s
  let s ← table.expectMapTo "Failed to map guard page" frame
    (.containingAddress .size4KiB guard) .none s
  let allocator ← allocator.init heapStart heapSize
  return (allocator, s)

end Model

/-! ## Frames that hold data -/

section Frames

variable {P A : Type} [PageTableFrameMapping P] [FrameAllocator A]
  {sizes : Nat → PageSize} {table : MappedPageTable P}
  {tables used tables' used' : PhysicalFrame .size4KiB → Prop} {s s' : Machine A}
  {frame : PhysicalFrame .size4KiB}

structure DataFrame (table : MappedPageTable P) (tables used : PhysicalFrame .size4KiB → Prop)
    (frame : PhysicalFrame .size4KiB) : Prop where
  lt : frame.address < 2 ^ 48
  isUsed : used frame
  apart : ∀ x, FrameByte table.mapping frame x → ¬ InTables table tables x

theorem PhysicalFrame.Contains.eq {part : PhysicalFrame .size4KiB} (h : frame.Contains part) :
    part = frame := by
  have hpart : part.address % 4096 = 0 := part.aligned
  have hframe : frame.address % 4096 = 0 := frame.aligned
  have hle := h.1
  have hlt : part.address < frame.address + 4096 := h.2
  exact PhysicalFrame.ext (by omega)

theorem DataFrame.of_extends (h : DataFrame table tables used frame)
    (hextends : Extends sizes table tables used tables' used' s s')
    (hmapping : DisjointMapping table.mapping) : DataFrame table tables' used' frame where
  lt := h.lt
  isUsed := (hextends.used_iff frame).mpr (.inl h.isUsed)
  apart := fun _ hx => hextends.apart hmapping (fun _ hpart => hpart.eq ▸ h.isUsed) h.apart hx

theorem DataFrame.not_table (h : DataFrame table tables used frame)
    {m : ByteMemory} (hwell : WellFormed sizes table tables m) {path : List (Fin 512)} {t : Nat}
    (hpath : Interior sizes path) (ht : table.tableAt m path = some t) :
    frameToVirtual table.mapping frame ≠ .ok t := by
  intro hvirtual
  have hself : frame.Contains frame := ⟨Nat.le_refl _, Nat.lt_add_of_pos_right (by decide)⟩
  refine h.apart t ⟨frame, t, hself, hvirtual, Nat.le_refl t, by omega⟩ ?_
  exact ⟨t, Nat.le_refl t, by omega, (hwell.reached hpath ht).2⟩

theorem Separate.allocated (h : Separate sizes table tables used s)
    (hmapping : DisjointMapping table.mapping) (htotal : TotalMapping table.mapping)
    {message : String} (hrun : MiniatureOs.expectFrame message s = .ok (frame, s')) :
    s'.memory = s.memory ∧ ¬ used frame ∧
      Separate sizes table tables (fun other => used other ∨ other = frame) s' ∧
      DataFrame table tables (fun other => used other ∨ other = frame) frame := by
  obtain ⟨allocator, halloc, rfl⟩ := expectFrame_eq_ok hrun
  obtain ⟨hlt, hnew, hfresh⟩ := h.fresh.of_some halloc
  refine ⟨rfl, hnew, ⟨h.toWellFormed, fun other hother => .inl (h.tables_used other hother),
    fun other hother => .inl (h.root_used other hother), hfresh⟩, hlt, .inr rfl, ?_⟩
  intro x hx hin
  obtain ⟨part, address, hpart, hvirtual, hle, hlt'⟩ := hx
  rw [hpart.eq] at hvirtual
  obtain ⟨t, htle, htlt, htable⟩ := hin
  cases htable with
  | inl hroot =>
      -- both are aligned, so the frame would be shown where the root is
      obtain ⟨address', hvirtual', haligned⟩ := htotal frame hlt
      have hsame : address = address' := Except.ok.inj (hvirtual.symm.trans hvirtual')
      have hrootAligned := table.aligned
      have haddress : address = table.pml4t := by omega
      exact hnew (h.root_used frame (haddress ▸ hvirtual))
  | inr hframe =>
      obtain ⟨other, hother, hshown⟩ := hframe
      have hne : frame ≠ other := fun heq => hnew (heq ▸ h.tables_used other hother)
      have hdisjoint := hmapping frame other address t hvirtual hshown hne
      omega

end Frames

/-! ## The pages -/

def heapPages : Nat := 25

/-- The page number `k` from the start of the heap on; number 25 is the guard page. -/
def heapPage (k : Nat) : Page .size4KiB := .containingAddress .size4KiB (heapStart + k * 4096)

def heapPageFlags (k : Nat) : PageTableEntryFlags :=
  if k < heapPages then .present ||| .writable ||| .noExecute else .none

def InHeap (x : Nat) : Prop := heapStart ≤ x ∧ x < heapStart + heapSize

theorem heapPage_address (k : Nat) : (heapPage k).address = heapStart + k * 4096 :=
  alignDown_of_mod (by simp only [PageSize.size, heapStart]; omega)

theorem containingAddress_heap {x : Nat} (h : heapStart ≤ x) :
    Page.containingAddress .size4KiB x = heapPage ((x - heapStart) / 4096) := by
  ext
  rw [heapPage_address]
  simp only [Page.containingAddress_address, alignDown, PageSize.size]
  unfold heapStart at h ⊢
  omega

theorem InHeap.page_lt {x : Nat} (h : InHeap x) : (x - heapStart) / 4096 < heapPages := by
  unfold InHeap heapSize at h
  unfold heapPages
  omega

theorem heapPage_fits {sizes : Nat → PageSize} (h : sizes (slotOf heapStart) = .size4KiB)
    {k : Nat} (hk : k ≤ heapPages) : (heapPage k).Fits sizes := by
  have hslot : slotOf (heapPage k).address = slotOf heapStart := by
    rw [heapPage_address]
    unfold heapPages at hk
    unfold slotOf heapStart
    omega
  rw [Page.Fits, hslot, h]

theorem heapPage_not_aliases {j k : Nat} (hj : j < k) (hk : k ≤ heapPages) :
    ¬ (heapPage k).Aliases (heapPage j) := by
  intro halias
  have haddress := halias.2
  rw [heapPage_address, heapPage_address] at haddress
  unfold heapPages at hk
  unfold heapStart at haddress
  omega

/-! ## The loop -/

section Loop

variable {P A : Type} [PageTableFrameMapping P] [FrameAllocator A]
  {sizes : Nat → PageSize} {table : MappedPageTable P}
  {tables used : PhysicalFrame .size4KiB → Prop} {frames : Nat → PhysicalFrame .size4KiB}
  {m : ByteMemory} {s s' s₁ s₂ : Machine A} {k : Nat} {frame : PhysicalFrame .size4KiB}

/-- The first `k` pages have the frames, which are different data frames, and no entry of
another page has changed. -/
structure PagesMapped (sizes : Nat → PageSize) (table : MappedPageTable P)
    (tables used : PhysicalFrame .size4KiB → Prop) (frames : Nat → PhysicalFrame .size4KiB)
    (k : Nat) (m : ByteMemory) (s : Machine A) : Prop where
  separate : Separate sizes table tables used s
  backing : ∀ j < k, DataFrame table tables used (frames j)
  distinct : ∀ j < k, ∀ i < j, frames i ≠ frames j
  filled : FillsPages sizes table heapPage
    (fun j => .setAddress (frames j).address (heapPageFlags j)) k m s.memory

/-- The state after `k` pages, whatever the frames are. -/
def HeapMapped (sizes : Nat → PageSize) (table : MappedPageTable P) (m : ByteMemory) (k : Nat)
    (s : Machine A) : Prop :=
  ∃ tables used frames, PagesMapped sizes table tables used frames k m s

theorem HeapMapped.zero (h : Separate sizes table tables used s) :
    HeapMapped sizes table s.memory 0 s :=
  ⟨tables, used, fun _ => .containingAddress .size4KiB 0,
    { separate := h
      backing := fun _ hj => absurd hj (Nat.not_lt_zero _)
      distinct := fun _ hj => absurd hj (Nat.not_lt_zero _)
      filled := .zero }⟩

structure Enlarges (table : MappedPageTable P)
    (tables used tables' used' : PhysicalFrame .size4KiB → Prop) (m m' : ByteMemory) : Prop where
  tables_mono : ∀ frame, tables frame → tables' frame
  used_mono : ∀ frame, used frame → used' frame
  tables_new : ∀ frame, tables' frame → tables frame ∨ ¬ used frame
  outside : ∀ x, ¬ InTables table tables' x → m' x = m x

theorem Enlarges.refl (table : MappedPageTable P) (tables used : PhysicalFrame .size4KiB → Prop)
    (m : ByteMemory) : Enlarges table tables used tables used m m :=
  ⟨fun _ => id, fun _ => id, fun _ => .inl, fun _ _ => rfl⟩

theorem Enlarges.trans {tables' used' tables'' used'' : PhysicalFrame .size4KiB → Prop}
    {m₁ m₂ : ByteMemory} (h : Enlarges table tables used tables' used' m m₁)
    (h' : Enlarges table tables' used' tables'' used'' m₁ m₂) :
    Enlarges table tables used tables'' used'' m m₂ where
  tables_mono := fun frame hframe => h'.tables_mono frame (h.tables_mono frame hframe)
  used_mono := fun frame hframe => h'.used_mono frame (h.used_mono frame hframe)
  tables_new := by
    intro frame hframe
    cases h'.tables_new frame hframe with
    | inl hold => exact h.tables_new frame hold
    | inr hnew => exact .inr fun hused => hnew (h.used_mono frame hused)
  outside := fun x hx =>
    (h'.outside x hx).trans (h.outside x fun hin => hx (hin.mono h'.tables_mono))

theorem PagesMapped.step (h : PagesMapped sizes table tables used frames k m s)
    (hmapping : DisjointMapping table.mapping) (htotal : TotalMapping table.mapping)
    (hsmall : sizes (slotOf heapStart) = .size4KiB) (hk : k ≤ heapPages) {message message' : String}
    (hframe : expectFrame message s = .ok (frame, s₁))
    (hmap : table.expectMapTo message' frame (heapPage k) (heapPageFlags k) s₁ = .ok s₂) :
    ∃ tables' used' frames', PagesMapped sizes table tables' used' frames' (k + 1) m s₂ ∧
      Enlarges table tables used tables' used' s.memory s₂.memory ∧ ¬ used (frames' k) ∧
      ∀ j < k, frames' j = frames j := by
  obtain ⟨hmemory, hnew, hseparate, hdata⟩ := h.separate.allocated hmapping htotal hframe
  obtain ⟨flusher, hmapTo⟩ := expectMapTo_eq_ok hmap
  obtain ⟨tables', used', hextends, houtcome⟩ :=
    hseparate.mapTo_spec hmapping.injective (heapPage_fits hsmall hk) hmapTo
  cases houtcome with
  | mapped absent updates =>
      rw [hmemory] at updates
      -- the frames so far, and the new one
      let frames' : Nat → PhysicalFrame .size4KiB := fun j => if j = k then frame else frames j
      have hlast : frames' k = frame := if_pos rfl
      have hbefore : ∀ j < k, frames' j = frames j := fun j hj => if_neg (Nat.ne_of_lt hj)
      refine ⟨tables', used', frames', ⟨hextends.separate, fun j hj => ?_, fun j hj i hi => ?_, ?_⟩,
        ⟨hextends.tables_mono, ?_, ?_, ?_⟩, by rwa [hlast], hbefore⟩
      · cases Nat.lt_or_eq_of_le (Nat.le_of_lt_succ hj) with
        | inl hlt =>
            rw [hbefore j hlt]
            have hold := h.backing j hlt
            have hkept : DataFrame table tables (fun other => used other ∨ other = frame)
              (frames j) := ⟨hold.lt, .inl hold.isUsed, hold.apart⟩
            exact hkept.of_extends hextends hmapping
        | inr heq =>
            rw [heq, hlast]
            exact hdata.of_extends hextends hmapping
      · cases Nat.lt_or_eq_of_le (Nat.le_of_lt_succ hj) with
        | inl hlt =>
            rw [hbefore j hlt, hbefore i (Nat.lt_trans hi hlt)]
            exact h.distinct j hlt i hi
        | inr heq =>
            rw [heq] at hi ⊢
            rw [hlast, hbefore i hi]
            intro hsame
            exact hnew (hsame ▸ (h.backing i hi).isUsed)
      · rw [← hlast] at updates
        apply (h.filled.imp fun j hj => ?_).succ updates
        · exact fun j hj => heapPage_fits hsmall (by omega)
        · exact fun j hj halias => heapPage_not_aliases hj hk halias.symm
        · rw [hbefore j hj]
      · exact fun other hother => (hextends.used_iff other).mpr (.inl (.inl hother))
      · exact fun other hother => (hextends.tables_new other hother).imp_right
          fun hnot hused => hnot (.inl hused)
      · intro x hx
        rw [hextends.outside x hx, hmemory]

theorem HeapMapped.step (h : HeapMapped sizes table m k s)
    (hmapping : DisjointMapping table.mapping) (htotal : TotalMapping table.mapping)
    (hsmall : sizes (slotOf heapStart) = .size4KiB) (hk : k ≤ heapPages) {message message' : String}
    (hframe : expectFrame message s = .ok (frame, s₁))
    (hmap : table.expectMapTo message' frame (heapPage k) (heapPageFlags k) s₁ = .ok s₂) :
    HeapMapped sizes table m (k + 1) s₂ := by
  obtain ⟨tables, used, frames, hpages⟩ := h
  obtain ⟨tables', used', frames', hpages', -⟩ := hpages.step hmapping htotal hsmall hk hframe hmap
  exact ⟨tables', used', frames', hpages'⟩

/-- A page that was not mapped can be given a frame, with four frames to allocate. -/
theorem HeapMapped.step_total (h : HeapMapped sizes table m k s)
    (hmapping : DisjointMapping table.mapping) (htotal : TotalMapping table.mapping)
    (hsmall : sizes (slotOf heapStart) = .size4KiB) (hk : k ≤ heapPages)
    (habsent : PageTableEntry.isPresent (table.pageEntry m (heapPage k)) = false) {n : Nat}
    (hsupply : Supplies (n + 4) s.allocator) (message message' : String) :
    ∃ frame s₁ s₂, expectFrame message s = .ok (frame, s₁) ∧
      table.expectMapTo message' frame (heapPage k) (heapPageFlags k) s₁ = .ok s₂ ∧
      Supplies n s₂.allocator := by
  obtain ⟨tables, used, frames, hpages⟩ := h
  obtain ⟨frame, s₁, hframe, hsupply₁⟩ := expectFrame_total (n := n + 3) message hsupply
  obtain ⟨hmemory, _, hseparate, _⟩ := hpages.separate.allocated hmapping htotal hframe
  have hfits := heapPage_fits hsmall hk
  have habsent₁ : PageTableEntry.isPresent (table.pageEntry s₁.memory (heapPage k)) = false := by
    rw [hmemory, hpages.filled.others _ hfits fun j hj => heapPage_not_aliases hj hk]
    exact habsent
  obtain ⟨s₂, hmap, hsupply₂⟩ := hseparate.expectMapTo_of_supplies hmapping.injective htotal frame
    (heapPageFlags k) message' hfits habsent₁ hsupply₁
  exact ⟨frame, s₁, s₂, hframe, hmap, hsupply₂⟩

theorem rangeOf_heap :
    RangeOf .size4KiB (heapPage 0).address (heapPage 24).address heapPages := by
  rw [heapPage_address, heapPage_address]
  rfl

theorem containingAddress_round (k : Nat) :
    Page.containingAddress .size4KiB ((heapPage 0).address + k * PageSize.size4KiB.size) =
      heapPage k := by
  rw [heapPage_address, Nat.zero_mul, Nat.add_zero]
  rfl

theorem heapPageFlags_of_lt (hk : k < heapPages) :
    heapPageFlags k = .present ||| .writable ||| .noExecute :=
  if_pos hk

theorem heapPageFlags_guard : heapPageFlags heapPages = .none := rfl

/-- `init_heap` is the loop over the pages, the guard page and the allocator's `init`. -/
theorem initHeap_eq_ok {allocator allocator' : BuddyAllocator} :
    initHeap table allocator s = .ok (allocator', s') ↔
      ∃ s₁ frame s₂,
        (heapPage 0).forRange (heapPage 24) (mapHeapPage table) s = .ok s₁ ∧
        expectFrame "Failed to allocate frame for guard page" s₁ = .ok (frame, s₂) ∧
        table.expectMapTo "Failed to map guard page" frame (heapPage heapPages)
          (heapPageFlags heapPages) s₂ = .ok s' ∧
        allocator.init heapStart heapSize = .ok allocator' := by
  have hsize : heapSize = 102400 := rfl
  have hstop : Checked.add 64 heapStart heapSize = .ok (heapStart + heapSize) :=
    Checked.add_of_lt (by rw [hsize, heapStart]; omega)
  have hlast : checkedSub (heapStart + heapSize) 1 = .ok (heapStart + heapSize - 1) :=
    checkedSub_eq_ok.mpr ⟨by omega, rfl⟩
  have hpage : ∀ x k, heapStart ≤ x → (x - heapStart) / 4096 = k →
      Page.containingAddress .size4KiB x = heapPage k := by
    intro x k hx hk
    rw [containingAddress_heap hx, hk]
  have hfirst := hpage heapStart 0 (by omega) (by omega)
  have hend := hpage (heapStart + heapSize - 1) 24 (by omega) (by omega)
  have hguard := hpage (heapStart + heapSize) 25 (by omega) (by omega)
  rw [initHeap, hstop, Checked.ok_bind, hlast, Checked.ok_bind, hfirst, hend, heapPageFlags_guard]
  simp only [Checked.ok_bind, hguard, heapPages, Checked.bind_eq_ok, Checked.pure_eq_ok,
    Except.ok.injEq, Prod.mk.injEq, Prod.exists]
  constructor
  · intro h
    obtain ⟨s₁, hloop, frame, s₂, hframe, s₃, hmap, a, hinit, rfl, rfl⟩ := h
    exact ⟨s₁, frame, s₂, hloop, hframe, hmap, hinit⟩
  · intro h
    obtain ⟨s₁, frame, s₂, hloop, hframe, hmap, hinit⟩ := h
    exact ⟨s₁, hloop, frame, s₂, hframe, s', hmap, allocator', hinit, rfl, rfl⟩

theorem mapHeapPage_eq_ok (hk : k < heapPages) :
    mapHeapPage table (heapPage k) s = .ok s' ↔ ∃ frame s₁,
      expectFrame "Failed to allocate frame for kernel heap" s = .ok (frame, s₁) ∧
      table.expectMapTo "Failed to map heap page" frame (heapPage k) (heapPageFlags k) s₁ =
        .ok s' := by
  rw [mapHeapPage, Checked.bind_eq_ok, heapPageFlags_of_lt hk, Prod.exists]

/-- What `init_heap` has done when it returns. -/
theorem Separate.initHeap_mapped (h : Separate sizes table tables used s)
    (hmapping : DisjointMapping table.mapping) (htotal : TotalMapping table.mapping)
    (hsmall : sizes (slotOf heapStart) = .size4KiB) {allocator allocator' : BuddyAllocator}
    (hrun : initHeap table allocator s = .ok (allocator', s')) :
    HeapMapped sizes table s.memory (heapPages + 1) s' ∧
      allocator.init heapStart heapSize = .ok allocator' := by
  obtain ⟨s₁, frame, s₂, hloop, hframe, hmap, hinit⟩ := initHeap_eq_ok.mp hrun
  have hround : ∀ k (s₁ s₂ : Machine A), k < heapPages → HeapMapped sizes table s.memory k s₁ →
      mapHeapPage table (.containingAddress .size4KiB
        ((heapPage 0).address + k * PageSize.size4KiB.size)) s₁ = .ok s₂ →
      HeapMapped sizes table s.memory (k + 1) s₂ := by
    intro k s₁ s₂ hk hmapped hbody
    rw [containingAddress_round, mapHeapPage_eq_ok hk] at hbody
    obtain ⟨frame, s', hframe, hmap⟩ := hbody
    exact hmapped.step hmapping htotal hsmall (Nat.le_of_lt hk) hframe hmap
  have hpages := (rangeLoop_ok rangeOf_heap hround (.zero h) hloop).1
  exact ⟨hpages.step hmapping htotal hsmall (Nat.le_refl _) hframe hmap, hinit⟩

/-- The first `k` pages are mapped, and four frames are left for each of the others. -/
def HeapReady (sizes : Nat → PageSize) (table : MappedPageTable P) (m : ByteMemory) (k : Nat)
    (s : Machine A) : Prop :=
  HeapMapped sizes table m k s ∧ ∃ n, Supplies n s.allocator ∧ (heapPages + 1 - k) * 4 ≤ n

/-- With four frames for each page `init_heap` returns. -/
theorem Separate.initHeap_total (h : Separate sizes table tables used s)
    (hmapping : DisjointMapping table.mapping) (htotal : TotalMapping table.mapping)
    (hsmall : sizes (slotOf heapStart) = .size4KiB)
    (habsent : ∀ k ≤ heapPages, PageTableEntry.isPresent
      (table.pageEntry s.memory (heapPage k)) = false)
    {n : Nat} (hsupply : Supplies n s.allocator) (hn : (heapPages + 1) * 4 ≤ n) :
    ∃ allocator s', initHeap table .new s = .ok (allocator, s') := by
  have hround : ∀ k (s₁ : Machine A), k < heapPages → HeapReady sizes table s.memory k s₁ →
      ∃ s₂, mapHeapPage table (.containingAddress .size4KiB
          ((heapPage 0).address + k * PageSize.size4KiB.size)) s₁ = .ok s₂ ∧
        HeapReady sizes table s.memory (k + 1) s₂ := by
    intro k s₁ hk hready
    obtain ⟨hmapped, n, hn, hle⟩ := hready
    obtain ⟨n', rfl⟩ : ∃ n', n = n' + 4 := ⟨n - 4, by omega⟩
    obtain ⟨frame, s', s₂, hframe, hmap, hrest⟩ := hmapped.step_total hmapping htotal hsmall
      (Nat.le_of_lt hk) (habsent k (Nat.le_of_lt hk)) hn _ _
    refine ⟨s₂, ?_, hmapped.step hmapping htotal hsmall (Nat.le_of_lt hk) hframe hmap,
      n', hrest, by omega⟩
    rw [containingAddress_round]
    exact (mapHeapPage_eq_ok hk).mpr ⟨frame, s', hframe, hmap⟩
  have hfits : (heapPage 0).address + heapPages * PageSize.size4KiB.size < 2 ^ 64 := by
    rw [heapPage_address]
    simp only [heapStart, heapPages, PageSize.size]
    omega
  have hstart : HeapReady sizes table s.memory 0 s := ⟨.zero h, n, hsupply, hn⟩
  have hloop : ∃ s₁, (heapPage 0).forRange (heapPage 24) (mapHeapPage table) s = .ok s₁ ∧
      HeapReady sizes table s.memory heapPages s₁ :=
    rangeLoop_total (I := HeapReady sizes table s.memory) rangeOf_heap hround hfits hstart
  obtain ⟨s₁, hloop, hmapped, n₁, hn₁, hle⟩ := hloop
  obtain ⟨n', rfl⟩ : ∃ n', n₁ = n' + 4 := ⟨n₁ - 4, by omega⟩
  obtain ⟨frame, s₂, s', hframe, hmap, _⟩ := hmapped.step_total hmapping htotal hsmall
    (Nat.le_refl _) (habsent heapPages (Nat.le_refl _)) hn₁ _ _
  obtain ⟨allocator, hinit⟩ : ∃ a, BuddyAllocator.new.init heapStart heapSize = .ok a :=
    BuddyAllocator.exists_init Heap.kernelHeap.start_pos
      (by unfold heapStart heapSize; omega)
  exact ⟨allocator, s', initHeap_eq_ok.mpr ⟨s₁, frame, s₂, hloop, hframe, hmap, hinit⟩⟩

end Loop

/-! ## The heap is backed -/

section Backed

variable {P A : Type} [PageTableFrameMapping P] [FrameAllocator A]
  {sizes : Nat → PageSize} {table : MappedPageTable P}
  {tables used : PhysicalFrame .size4KiB → Prop} {frames : Nat → PhysicalFrame .size4KiB}
  {m m' : ByteMemory} {s : Machine A} {a : BuddyAllocator}

def WritesHeap (table : MappedPageTable P) (m m' : ByteMemory) : Prop :=
  ∀ x, m' x ≠ m x → ∃ address frame flags, InHeap address ∧
    table.translate (.containingAddress .size4KiB address) m = .ok (.ok (frame, flags)) ∧
    FrameByte table.mapping frame x

/-- The blocks that the allocator `a` returns, in any run of calls, lie in pages with frames
of their own; `m` is the memory before `init_heap` and `m'` a later one. -/
structure HeapBacked (sizes : Nat → PageSize) (table : MappedPageTable P) (m m' : ByteMemory)
    (a : BuddyAllocator) : Prop where
  pages : ∀ x, InHeap x → ∃ frame, table.translate (.containingAddress .size4KiB x) m' =
    .ok (.ok (frame, .present ||| .writable ||| .noExecute))
  blocks : ∀ (ops : List HeapOp) (heap : Heap), ops.foldlM Heap.step ⟨a, []⟩ = some heap →
    ∀ b ∈ heap.live,
    ∀ i < b.layout.alignLayoutSize, ∃ frame,
      table.translate (.containingAddress .size4KiB (b.ptr + i)) m' =
        .ok (.ok (frame, .present ||| .writable ||| .noExecute))
  distinct : ∀ x y frame flags flags', InHeap x → InHeap y →
    table.translate (.containingAddress .size4KiB x) m' = .ok (.ok (frame, flags)) →
    table.translate (.containingAddress .size4KiB y) m' = .ok (.ok (frame, flags')) →
    Page.containingAddress .size4KiB x = .containingAddress .size4KiB y
  noTable : ∀ x frame flags, InHeap x →
    table.translate (.containingAddress .size4KiB x) m' = .ok (.ok (frame, flags)) →
    ∀ path t, Interior sizes path → table.tableAt m' path = some t →
      frameToVirtual table.mapping frame ≠ .ok t
  guard : table.translate (.containingAddress .size4KiB (heapStart + heapSize)) m' =
    .ok (.error .notMapped)
  others : ∀ {S : PageSize} (other : Page S), other.Fits sizes →
    (∀ x, heapStart ≤ x → x < heapStart + heapSize + 4096 →
      ¬ other.Aliases (.containingAddress .size4KiB x)) →
    table.translate other m' = table.translate other m

theorem PagesMapped.translate_eq
    (h : PagesMapped sizes table tables used frames (heapPages + 1) m s)
    (hsmall : sizes (slotOf heapStart) = .size4KiB) {x : Nat} (hx : InHeap x) :
    table.translate (.containingAddress .size4KiB x) s.memory =
      .ok (.ok (frames ((x - heapStart) / 4096), .present ||| .writable ||| .noExecute)) := by
  have hlt := hx.page_lt
  have hk := Nat.lt_succ_of_lt hlt
  rw [containingAddress_heap hx.1, h.separate.translate_eq (heapPage_fits hsmall hlt.le),
    h.filled.entries _ hk, heapPageFlags_of_lt hlt,
    decode_setAddress (h.backing _ hk).lt (by decide)]

/-- What the heap writes is not in the tables. -/
theorem PagesMapped.write
    (h : PagesMapped sizes table tables used frames (heapPages + 1) m s)
    (hsmall : sizes (slotOf heapStart) = .size4KiB) (hwrites : WritesHeap table s.memory m') :
    PagesMapped sizes table tables used frames (heapPages + 1) m { s with memory := m' } := by
  have hsame : ∀ x, InTables table tables x → m' x = s.memory x := by
    intro x hin
    by_contra hne
    obtain ⟨address, frame, flags, haddress, htranslate, hbyte⟩ := hwrites x hne
    rw [h.translate_eq hsmall haddress] at htranslate
    obtain ⟨rfl, _⟩ := Prod.mk.inj (Except.ok.inj (Except.ok.inj htranslate))
    exact (h.backing _ (Nat.lt_succ_of_lt haddress.page_lt)).apart x hbyte hin
  have hentry : ∀ {S : PageSize} (page : Page S), page.Fits sizes →
      table.pageEntry m' page = table.pageEntry s.memory page := fun page hpage =>
    h.separate.dataAt_congr hsame hpage.interior_tablePath page.leafIndex
  refine ⟨⟨h.separate.congr hsame, h.separate.tables_used, h.separate.root_used,
    h.separate.fresh⟩, h.backing, h.distinct, fun j hj => ?_, fun other hother hapart => ?_⟩
  · exact (hentry _ (heapPage_fits hsmall (Nat.le_of_lt_succ hj))).trans (h.filled.entries j hj)
  · exact (hentry other hother).trans (h.filled.others other hother hapart)

theorem inHeap_of_live {ops : List HeapOp} {heap : Heap} {b : LiveBlock}
    (hinit : BuddyAllocator.new.init heapStart heapSize = .ok a)
    (hrun : ops.foldlM Heap.step ⟨a, []⟩ = some heap) (hb : b ∈ heap.live) {i : Nat}
    (hi : i < b.layout.alignLayoutSize) : InHeap (b.ptr + i) := by
  have hboot : Heap.boot Heap.kernelHeap = some ⟨a, []⟩ := by
    have hcall : BuddyAllocator.new.init Heap.kernelHeap.start Heap.kernelHeap.size = .ok a := hinit
    rw [Heap.boot, hcall]
  have hafter : Heap.after Heap.kernelHeap ops = some heap := by
    rw [Heap.after, hboot]
    exact hrun
  have hinside := (Heap.Inv.of_after hafter).block_inside
    (List.mem_append_right _ (Heap.mem_liveBlocks_of_mem_live hb))
  simp only [LiveBlock.block, Layout.two_pow_cls] at hinside
  have hstart : Heap.kernelHeap.start = heapStart := rfl
  have hsize : Heap.kernelHeap.size = heapSize := rfl
  unfold InHeap
  omega

theorem PagesMapped.heapBacked
    (h : PagesMapped sizes table tables used frames (heapPages + 1) m s)
    {tables₀ : PhysicalFrame .size4KiB → Prop} (h₀ : WellFormed sizes table tables₀ m)
    (hsmall : sizes (slotOf heapStart) = .size4KiB)
    (hinit : BuddyAllocator.new.init heapStart heapSize = .ok a) :
    HeapBacked sizes table m s.memory a where
  pages := fun x hx => ⟨_, h.translate_eq hsmall hx⟩
  blocks := fun _ _ hrun _ hb _ hi => ⟨_, h.translate_eq hsmall (inHeap_of_live hinit hrun hb hi)⟩
  distinct := by
    intro x y frame flags flags' hx hy hxframe hyframe
    rw [h.translate_eq hsmall hx] at hxframe
    rw [h.translate_eq hsmall hy] at hyframe
    have hframes : frames ((x - heapStart) / 4096) = frames ((y - heapStart) / 4096) :=
      (Prod.mk.inj (Except.ok.inj (Except.ok.inj hxframe))).1.trans
        (Prod.mk.inj (Except.ok.inj (Except.ok.inj hyframe))).1.symm
    rw [containingAddress_heap hx.1, containingAddress_heap hy.1]
    rcases Nat.lt_trichotomy ((x - heapStart) / 4096) ((y - heapStart) / 4096) with hlt | heq | hgt
    · exact absurd hframes (h.distinct _ (Nat.lt_succ_of_lt hy.page_lt) _ hlt)
    · rw [heq]
    · exact absurd hframes.symm (h.distinct _ (Nat.lt_succ_of_lt hx.page_lt) _ hgt)
  noTable := by
    intro x frame flags hx hframe path t hpath ht
    rw [h.translate_eq hsmall hx] at hframe
    obtain ⟨rfl, _⟩ := Prod.mk.inj (Except.ok.inj (Except.ok.inj hframe))
    exact (h.backing _ (Nat.lt_succ_of_lt hx.page_lt)).not_table h.separate.toWellFormed hpath ht
  guard := by
    have hpage : Page.containingAddress .size4KiB (heapStart + heapSize) = heapPage heapPages := by
      rw [containingAddress_heap (Nat.le_add_right _ _), Nat.add_sub_cancel_left]
      rfl
    have hlast := Nat.lt_succ_self heapPages
    rw [hpage, h.separate.translate_eq (heapPage_fits hsmall (Nat.le_refl _)),
      h.filled.entries _ hlast,
      heapPageFlags_guard, decode, PageTableEntry.isPresent_setAddress
        (frames heapPages).address_mod (h.backing _ hlast).lt]
    rfl
  others := by
    intro S other hother hapart
    have hsame := h.filled.others other hother fun j hj => by
      have hpage : heapPage j = .containingAddress .size4KiB (heapStart + j * 4096) := rfl
      rw [hpage]
      unfold heapPages at hj
      exact hapart _ (by omega) (by unfold heapSize; omega)
    rw [h.separate.translate_eq hother, h₀.translate_eq hother, hsame]

end Backed

/-- After `init_heap`, whatever the heap then writes to its pages, the blocks that the
allocator returns are backed. -/
theorem heapBacked_of_initHeap {P A : Type} [PageTableFrameMapping P] [FrameAllocator A]
    (sizes : Nat → PageSize) (table : MappedPageTable P)
    (hmapping : DisjointMapping table.mapping) (htotal : TotalMapping table.mapping)
    (tables used : PhysicalFrame .size4KiB → Prop) (s : Machine A)
    (hseparate : Separate sizes table tables used s)
    (hsmall : sizes (slotOf heapStart) = .size4KiB) (a : BuddyAllocator) (s' : Machine A)
    (hcall : initHeap table .new s = .ok (a, s')) (m : ByteMemory)
    (hwrites : WritesHeap table s'.memory m) : HeapBacked sizes table s.memory m a := by
  obtain ⟨hmapped, hinit⟩ := hseparate.initHeap_mapped hmapping htotal hsmall hcall
  obtain ⟨tables', used', frames, hpages⟩ := hmapped
  exact (hpages.write hsmall hwrites).heapBacked hseparate.toWellFormed hsmall hinit

/-- An empty page table, with 104 frames to allocate. -/
theorem heapBacked_zeroedMachine :
    ∃ a s', initHeap lowTable .new (zeroedMachine 104) = .ok (a, s') ∧
      HeapBacked (fun _ => .size4KiB) lowTable (zeroedMachine 104).memory s'.memory a := by
  have hfresh : Fresh lowTable (zeroedMachine 104) := fresh_zeroedMachine (by decide)
  have hmapping := PhysicalOffset.disjointMapping lowTable.mapping
  have htotal : TotalMapping lowTable.mapping :=
    PhysicalOffset.totalMapping (by decide) (by decide)
  have habsent : ∀ k ≤ heapPages, PageTableEntry.isPresent
      (lowTable.pageEntry (zeroedMachine 104).memory (heapPage k)) = false := by
    intro k _
    rw [pageEntry_of_unused (hfresh.slotEntry _)]
    decide
  have hseparate := @Fresh.separate _ _ _ _ (fun _ => .size4KiB) _ _ hfresh
  obtain ⟨a, s', hcall⟩ := hseparate.initHeap_total hmapping htotal rfl habsent
    (BumpFrameAllocator.supplies (by decide +kernel)) (Nat.le_refl 104)
  refine ⟨a, s', hcall, heapBacked_of_initHeap (fun _ => .size4KiB) lowTable hmapping htotal _ _ _
    hseparate rfl a s' hcall s'.memory fun x hx => absurd rfl hx⟩

end MiniatureOs
