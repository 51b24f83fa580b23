import MiniatureOs.Elf.Steps

/-! # A page table seen at an offset

The kernel reaches the tables where all of physical memory is mapped, at an offset. The tree
of tables there is the one that the processor walks: the tables have other addresses, and
the same entries.
-/

namespace MiniatureOs

open PageTableFrameMapping MappedPageTable

def MappedPageTable.atOffset (table : MappedPageTable PhysicalOffset) (offset : Nat)
    (haligned : offset % 4096 = 0) : MappedPageTable PhysicalOffset where
  mapping := ⟨offset⟩
  pml4t := offset + table.pml4t
  aligned := by
    have hroot := table.aligned
    omega

variable {sizes : Nat → PageSize} {table : MappedPageTable PhysicalOffset}
  {tables : PhysicalFrame .size4KiB → Prop} {view : ByteMemory} {offset : Nat}
  {frame : PhysicalFrame .size4KiB}

theorem frameToVirtual_offset (hfits : offset + 2 ^ 48 ≤ 2 ^ 64) (hlt : frame.address < 2 ^ 48) :
    frameToVirtual (⟨offset⟩ : PhysicalOffset) frame = .ok (offset + frame.address) :=
  Checked.add_of_lt (by change offset + frame.address < 2 ^ 64; omega)

theorem PageTableEntry.physicalFrame_lt (entry : PageTableEntry) :
    (PageTableEntry.physicalFrame entry).address < 2 ^ 48 := by
  have hbits := (entry.extractLsb' 12 36).isLt
  have haddress : PageTableEntry.address entry < 2 ^ 48 := by
    rw [PageTableEntry.address, Nat.shiftLeft_eq]
    omega
  exact Nat.lt_of_le_of_lt (alignDown_le _ _) haddress

theorem child_offset (hzero : table.mapping.offset = 0) (hfits : offset + 2 ^ 48 ≤ 2 ^ 64)
    (entry : PageTableEntry) :
    child (⟨offset⟩ : PhysicalOffset) entry = (child table.mapping entry).map (offset + ·) := by
  have hlt := PageTableEntry.physicalFrame_lt entry
  have hplain : frameToVirtual table.mapping (PageTableEntry.physicalFrame entry) =
      .ok (PageTableEntry.physicalFrame entry).address :=
    (frameToVirtual_eq_ok hzero).mpr ⟨by omega, rfl⟩
  rw [child, child, frameToVirtual_offset hfits hlt, hplain]
  cases PageTableEntry.isUnused entry <;> rfl

theorem tableEntry_lower (t : Nat) (i : Fin 512) :
    tableEntry view (offset + t) i = tableEntry (view.lower offset) t i := by
  rw [tableEntry, tableEntry, ByteMemory.readWord_lower, entryAddress, entryAddress, Nat.add_assoc]

section AtOffset

variable {haligned : offset % 4096 = 0}

theorem pageEntry_atOffset (hzero : table.mapping.offset = 0) (hfits : offset + 2 ^ 48 ≤ 2 ^ 64)
    {S : PageSize} (page : Page S) :
    (table.atOffset offset haligned).pageEntry view page =
      table.pageEntry (view.lower offset) page :=
  RadixTree.lookup_map (child_offset hzero hfits) tableEntry_lower page.tablePath page.leafIndex

theorem isLink_offset (hzero : table.mapping.offset = 0) (haligned : offset % 4096 = 0)
    (hfits : offset + 2 ^ 48 ≤ 2 ^ 64) {entry : PageTableEntry} :
    IsLink (⟨offset⟩ : PhysicalOffset) tables entry ↔ IsLink table.mapping tables entry := by
  refine or_congr_right ⟨?_, ?_⟩
  · rintro ⟨frame, _, htable, hentry⟩
    exact ⟨frame, frame.address, ⟨htable.isTable, htable.lt,
      (frameToVirtual_eq_ok hzero).mpr ⟨by have := htable.lt; omega, rfl⟩, frame.aligned⟩, hentry⟩
  · rintro ⟨frame, _, htable, hentry⟩
    have hframe : frame.address % 4096 = 0 := frame.aligned
    exact ⟨frame, offset + frame.address, ⟨htable.isTable, htable.lt,
      frameToVirtual_offset hfits htable.lt, by omega⟩, hentry⟩

/-- The page table is well-formed at the offset exactly when it is where the processor walks. -/
theorem wellFormed_atOffset (hzero : table.mapping.offset = 0)
    (hfits : offset + 2 ^ 48 ≤ 2 ^ 64) :
    WellFormed sizes (table.atOffset offset haligned) tables view ↔
      WellFormed sizes table tables (view.lower offset) := by
  have hchild := child_offset hzero hfits
  have hentry := @tableEntry_lower view offset
  have hinjective : Function.Injective (offset + ·) := fun _ _ => Nat.add_left_cancel
  have hlink : ∀ {entry}, IsLink (⟨offset⟩ : PhysicalOffset) tables entry ↔
      IsLink table.mapping tables entry := isLink_offset hzero haligned hfits
  constructor
  · intro h
    exact ⟨(RadixTree.separated_map hchild hentry hinjective).mp h.separated,
      fun path i t hpath ht =>
        hlink.mp ((RadixTree.edges_map hchild hentry).mp h.edges path i t hpath ht)⟩
  · intro h
    exact ⟨(RadixTree.separated_map hchild hentry hinjective).mpr h.separated,
      (RadixTree.edges_map hchild hentry).mpr fun path i t hpath ht =>
        hlink.mpr (h.edges path i t hpath ht)⟩

theorem inTables_atOffset (hzero : table.mapping.offset = 0) (hfits : offset + 2 ^ 48 ≤ 2 ^ 64)
    (htables : ∀ frame, tables frame → frame.address < 2 ^ 48) {p : Nat} :
    InTables (table.atOffset offset haligned) tables (offset + p) ↔ InTables table tables p := by
  constructor
  · rintro ⟨address, hle, hlt, hroot | ⟨frame, htable, hvirtual⟩⟩
    · change address = offset + table.pml4t at hroot
      exact ⟨table.pml4t, by omega, by omega, .inl rfl⟩
    · have haddress : address = offset + frame.address := (Checked.add_eq_ok.mp hvirtual).2
      exact ⟨frame.address, by omega, by omega,
        .inr ⟨frame, htable, (frameToVirtual_eq_ok hzero).mpr
        ⟨by have := htables frame htable; omega, rfl⟩⟩⟩
  · rintro ⟨address, hle, hlt, hroot | ⟨frame, htable, hvirtual⟩⟩
    · exact ⟨offset + address, by omega, by omega, .inl (by rw [hroot]; rfl)⟩
    · obtain ⟨-, rfl⟩ := (frameToVirtual_eq_ok hzero).mp hvirtual
      exact ⟨offset + frame.address, by omega, by omega,
        .inr ⟨frame, htable, frameToVirtual_offset hfits (htables frame htable)⟩⟩

end AtOffset

end MiniatureOs
