import MiniatureOs.Elf.Loader
import MiniatureOs.Paging.Refinement

/-! # What a step of the loader keeps

The loader writes to page tables, and to frames it has just allocated. Every
other frame in use holds data, and a step keeps the bytes of those frames and the
entries of the pages it does not map. Physical memory is visible at its own
addresses here: the offset of the frame mapping is zero.
-/

namespace MiniatureOs

open PageTableFrameMapping MappedPageTable

def smallPages : Nat → PageSize := fun _ => .size4KiB

/-- The number of the entry of a page: bits 12 to 47 of its address. -/
def Page.number (page : Page .size4KiB) : Nat :=
  page.address / 4096 % 2 ^ 36

theorem Page.number_eq_of_aliases {page other : Page .size4KiB} (h : page.Aliases other) :
    page.number = other.number := by
  have haddress := h.2
  unfold number
  omega

theorem MappedPageTable.pageEntry_eq_of_number {P : Type} [PageTableFrameMapping P]
    (table : MappedPageTable P) (m : ByteMemory) {page other : Page .size4KiB}
    (h : other.number = page.number) : table.pageEntry m other = table.pageEntry m page := by
  unfold Page.number at h
  have hpath : other.tablePath = page.tablePath := by
    simp only [Page.tablePath, l4Index, l3Index, l2Index, List.cons.injEq, Fin.mk.injEq, and_true]
    omega
  have hleaf : other.leafIndex = page.leafIndex := by
    simp only [Page.leafIndex, l1Index, Fin.mk.injEq]
    omega
  rw [pageEntry, pageEntry, hpath, hleaf]

variable {A : Type} [FrameAllocator A] {table : MappedPageTable PhysicalOffset}
  {tables used tables' used' : PhysicalFrame .size4KiB → Prop} {pages pages' : Nat → Prop}
  {s s' : Machine A} {frame : PhysicalFrame .size4KiB} {page : Page .size4KiB}
  {flags : PageTableEntryFlags} {message : String}

structure HoldsData (table : MappedPageTable PhysicalOffset)
    (tables used : PhysicalFrame .size4KiB → Prop) (frame : PhysicalFrame .size4KiB) : Prop where
  isUsed : used frame
  notTable : ¬ tables frame
  notRoot : frame.address ≠ table.pml4t

/-- A step keeps the data frames, and the entries of all pages but `pages`. -/
structure DataStep (table : MappedPageTable PhysicalOffset) (pages : Nat → Prop)
    (tables used tables' used' : PhysicalFrame .size4KiB → Prop) (s s' : Machine A) : Prop where
  separate : Separate smallPages table tables' used' s'
  used_mono : ∀ frame, used frame → used' frame
  data : ∀ frame, HoldsData table tables used frame → HoldsData table tables' used' frame
  bytes : ∀ frame, HoldsData table tables used frame → ∀ j < 4096,
    s'.memory (frame.address + j) = s.memory (frame.address + j)
  others : ∀ page : Page .size4KiB, ¬ pages page.number →
    table.pageEntry s'.memory page = table.pageEntry s.memory page

structure LoadStep (table : MappedPageTable PhysicalOffset) (pages : Nat → Prop)
    (tables used tables' used' : PhysicalFrame .size4KiB → Prop) (s s' : Machine A) : Prop
    extends DataStep table pages tables used tables' used' s s' where
  present : ∀ page : Page .size4KiB, pages page.number →
    PageTableEntry.isPresent (table.pageEntry s'.memory page) = true

section Compose

variable {tables'' used'' : PhysicalFrame .size4KiB → Prop} {s'' : Machine A}

theorem DataStep.trans (h : DataStep table pages tables used tables' used' s s')
    (h' : DataStep table pages' tables' used' tables'' used'' s' s'') :
    DataStep table (fun n => pages n ∨ pages' n) tables used tables'' used'' s s'' where
  separate := h'.separate
  used_mono := fun frame hused => h'.used_mono frame (h.used_mono frame hused)
  data := fun frame hdata => h'.data frame (h.data frame hdata)
  bytes := fun frame hdata j hj =>
    (h'.bytes frame (h.data frame hdata) j hj).trans (h.bytes frame hdata j hj)
  others := by
    intro page hpage
    rw [not_or] at hpage
    exact (h'.others page hpage.2).trans (h.others page hpage.1)

theorem LoadStep.trans (h : LoadStep table pages tables used tables' used' s s')
    (h' : LoadStep table pages' tables' used' tables'' used'' s' s'') :
    LoadStep table (fun n => pages n ∨ pages' n) tables used tables'' used'' s s'' where
  toDataStep := h.toDataStep.trans h'.toDataStep
  present := by
    intro page hpage
    by_cases hsecond : pages' page.number
    · exact h'.present page hsecond
    · rw [h'.others page hsecond]
      exact h.present page (hpage.resolve_right hsecond)

end Compose

theorem DataStep.refl (h : Separate smallPages table tables used s) :
    DataStep table (fun _ => False) tables used tables used s s where
  separate := h
  used_mono := fun _ => id
  data := fun _ => id
  bytes := fun _ _ _ _ => rfl
  others := fun _ _ => rfl

theorem DataStep.congr (h : DataStep table pages tables used tables' used' s s')
    (hpages : ∀ n, pages n ↔ pages' n) : DataStep table pages' tables used tables' used' s s' := by
  obtain rfl : pages = pages' := funext fun n => propext (hpages n)
  exact h

theorem LoadStep.congr (h : LoadStep table pages tables used tables' used' s s')
    (hpages : ∀ n, pages n ↔ pages' n) : LoadStep table pages' tables used tables' used' s s' := by
  obtain rfl : pages = pages' := funext fun n => propext (hpages n)
  exact h

theorem LoadStep.refl (h : Separate smallPages table tables used s) :
    LoadStep table (fun _ => False) tables used tables used s s where
  toDataStep := .refl h
  present := fun _ => False.elim

theorem LoadStep.present_mono (h : LoadStep table pages tables used tables' used' s s')
    (hpresent : PageTableEntry.isPresent (table.pageEntry s.memory page) = true) :
    PageTableEntry.isPresent (table.pageEntry s'.memory page) = true := by
  by_cases hpage : pages page.number
  · exact h.present page hpage
  · rwa [h.others page hpage]

/-! ## Table operations -/

theorem frameToVirtual_eq_ok (hzero : table.mapping.offset = 0) {address : Nat} :
    frameToVirtual table.mapping frame = .ok address ↔
      frame.address < 2 ^ 64 ∧ address = frame.address := by
  change Checked.add 64 table.mapping.offset frame.address = .ok address ↔ _
  rw [hzero, Checked.add_eq_ok, Nat.zero_add]

theorem HoldsData.not_inTables (h : HoldsData table tables used frame)
    (hzero : table.mapping.offset = 0) {j : Nat} (hj : j < 4096) :
    ¬ InTables table tables (frame.address + j) := by
  have haligned : frame.address % 4096 = 0 := frame.aligned
  rintro ⟨address, hle, hlt, rfl | ⟨other, hother, hvirtual⟩⟩
  · have hroot := table.aligned
    exact h.notRoot (by omega)
  · obtain ⟨-, rfl⟩ := (frameToVirtual_eq_ok hzero).mp hvirtual
    have hother' : other.address % 4096 = 0 := other.aligned
    obtain rfl : other = frame := PhysicalFrame.ext (by omega)
    exact h.notTable hother

theorem DataStep.of_extends (hzero : table.mapping.offset = 0)
    (h : Extends smallPages table tables used tables' used' s s')
    (hothers : ∀ page : Page .size4KiB, ¬ pages page.number →
      table.pageEntry s'.memory page = table.pageEntry s.memory page) :
    DataStep table pages tables used tables' used' s s' := by
  have hdata : ∀ frame, HoldsData table tables used frame →
      HoldsData table tables' used' frame := by
    intro frame hframe
    refine ⟨(h.used_iff frame).mpr (.inl hframe.isUsed), fun htable => ?_, hframe.notRoot⟩
    exact (h.tables_new frame htable).elim hframe.notTable fun hnew => hnew hframe.isUsed
  exact {
    separate := h.separate
    used_mono := fun frame hused => (h.used_iff frame).mpr (.inl hused)
    data := hdata
    bytes := fun frame hframe j hj => h.outside _ ((hdata frame hframe).not_inTables hzero hj)
    others := hothers }

theorem expectOk_eq_ok {ε α : Type} {result : Except ε α} {value : α} :
    expectOk message result = .ok value ↔ result = .ok value := by
  cases result <;> simp [expectOk]

theorem expectMapTo_eq_ok {P : Type} [PageTableFrameMapping P] {table : MappedPageTable P}
    {S : PageSize} {frame : PhysicalFrame S} {page : Page S}
    (h : table.expectMapTo message frame page flags s = .ok s') :
    ∃ flusher, table.mapTo frame page flags s = .ok (.ok flusher, s') := by
  obtain ⟨⟨result, s₁⟩, hmap, h⟩ := Checked.bind_eq_ok.mp h
  obtain ⟨flusher, hresult, h⟩ := Checked.bind_eq_ok.mp h
  rw [expectOk_eq_ok] at hresult
  obtain rfl : s₁ = s' := Except.ok.inj h
  exact ⟨flusher, by rw [hmap, hresult]⟩

/-- Mapping a page: it was absent, and its entry is the frame's afterwards. -/
theorem Separate.expectMapTo (h : Separate smallPages table tables used s)
    (hzero : table.mapping.offset = 0) (hlt : frame.address < 2 ^ 48)
    (hflags : flags.contains .present)
    (hrun : table.expectMapTo message frame page flags s = .ok s') :
    PageTableEntry.isPresent (table.pageEntry s.memory page) = false ∧
      table.pageEntry s'.memory page = PageTableEntry.setAddress frame.address flags ∧
      ∃ tables' used',
        LoadStep table (fun n => n = page.number) tables used tables' used' s s' := by
  obtain ⟨flusher, hmap⟩ := expectMapTo_eq_ok hrun
  obtain ⟨tables', used', hextends, houtcome⟩ :=
    h.mapTo_spec (PhysicalOffset.injectiveMapping _) rfl hmap
  cases houtcome with
  | mapped absent updates =>
      have hself : table.pageEntry s'.memory page =
          PageTableEntry.setAddress frame.address flags := updates.self
      refine ⟨absent, hself, tables', used', ⟨.of_extends hzero hextends fun other hother => ?_,
        fun other hother => ?_⟩⟩
      · exact updates.others other rfl fun halias => hother (Page.number_eq_of_aliases halias)
      · rw [table.pageEntry_eq_of_number _ hother, hself,
          PageTableEntry.isPresent_setAddress frame.aligned hlt]
        exact hflags

/-! ## Data frames -/

theorem expectFrame_eq_ok (h : expectFrame message s = .ok (frame, s')) :
    ∃ allocator, FrameAllocator.allocateFrame s.allocator = .ok (some frame, allocator) ∧
      s' = { s with allocator } := by
  obtain ⟨⟨result, allocator⟩, halloc, h⟩ := Checked.bind_eq_ok.mp h
  obtain ⟨frame', hresult, h⟩ := Checked.bind_eq_ok.mp h
  rw [Checked.expect_eq_ok] at hresult
  obtain ⟨rfl, rfl⟩ := Prod.mk.inj (Except.ok.inj h)
  exact ⟨allocator, by rw [halloc, hresult], rfl⟩

/-- A frame that was allocated is new, and holds data from then on. -/
theorem Separate.expectFrame (h : Separate smallPages table tables used s)
    (hzero : table.mapping.offset = 0) (hrun : expectFrame message s = .ok (frame, s')) :
    s'.memory = s.memory ∧ frame.address < 2 ^ 48 ∧ ¬ used frame ∧
      HoldsData table tables (fun other => used other ∨ other = frame) frame ∧
      LoadStep table (fun _ => False) tables used tables (fun other => used other ∨ other = frame)
        s s' := by
  obtain ⟨allocator, halloc, rfl⟩ := expectFrame_eq_ok hrun
  obtain ⟨hlt, hnew, hfresh⟩ := h.fresh.of_some halloc
  refine ⟨rfl, hlt, hnew, ⟨.inr rfl, fun htable => hnew (h.tables_used frame htable), ?_⟩, ?_⟩
  · intro hroot
    exact hnew (h.root_used frame ((frameToVirtual_eq_ok hzero).mpr ⟨by omega, hroot.symm⟩))
  · exact {
      separate := ⟨h.toWellFormed, fun other hother => .inl (h.tables_used other hother),
        fun other hother => .inl (h.root_used other hother), hfresh⟩
      used_mono := fun _ => .inl
      data := fun other hother => ⟨.inl hother.isUsed, hother.notTable, hother.notRoot⟩
      bytes := fun _ _ _ _ => rfl
      others := fun _ _ => rfl
      present := fun _ => False.elim }

def SameOutside (frame : PhysicalFrame .size4KiB) (m m' : ByteMemory) : Prop :=
  ∀ x, ¬ (frame.address ≤ x ∧ x < frame.address + 4096) → m' x = m x

theorem HoldsData.same_inTables {m m' : ByteMemory} (h : HoldsData table tables used frame)
    (hzero : table.mapping.offset = 0) (hsame : SameOutside frame m m') :
    ∀ x, InTables table tables x → m' x = m x := by
  intro x hx
  refine hsame x fun hin => h.not_inTables hzero (j := x - frame.address) (by omega) ?_
  rwa [Nat.add_sub_cancel' hin.1]

theorem SameOutside.bytes {m m' : ByteMemory} (h : SameOutside frame m m')
    {other : PhysicalFrame .size4KiB} (hne : other ≠ frame) {j : Nat} (hj : j < 4096) :
    m' (other.address + j) = m (other.address + j) := by
  have hframe : frame.address % 4096 = 0 := frame.aligned
  have hother : other.address % 4096 = 0 := other.aligned
  have haddress : other.address ≠ frame.address := fun heq => hne (PhysicalFrame.ext heq)
  exact h _ (by omega)

theorem LoadStep.write {m' : ByteMemory} (h : LoadStep table pages tables used tables' used' s s')
    (hzero : table.mapping.offset = 0) (hframe : HoldsData table tables' used' frame)
    (hnew : ¬ used frame) (hsame : SameOutside frame s'.memory m') :
    LoadStep table pages tables used tables' used' s { s' with memory := m' } ∧
      ∀ page : Page .size4KiB, table.pageEntry m' page = table.pageEntry s'.memory page := by
  have hentry : ∀ page : Page .size4KiB,
      table.pageEntry m' page = table.pageEntry s'.memory page := fun page =>
    h.separate.dataAt_congr (hframe.same_inTables hzero hsame)
      (@Page.Fits.interior_tablePath _ smallPages page rfl) page.leafIndex
  refine ⟨{
    separate := ⟨h.separate.congr (hframe.same_inTables hzero hsame), h.separate.tables_used,
      h.separate.root_used, h.separate.fresh⟩
    used_mono := h.used_mono
    data := h.data
    bytes := fun other hother j hj => ?_
    others := fun page hpage => (hentry page).trans (h.others page hpage)
    present := fun page hpage => ?_ }, hentry⟩
  · have hne : other ≠ frame := fun heq => hnew (heq ▸ hother.isUsed)
    exact (hsame.bytes hne hj).trans (h.bytes other hother j hj)
  · change PageTableEntry.isPresent (table.pageEntry m' page) = true
    rw [hentry]
    exact h.present page hpage

end MiniatureOs
