import MiniatureOs.Boot.AddressSpace
import MiniatureOs.Boot.Allocations
import MiniatureOs.Lib.Stored

/-! # What stage 4 maps

The steps of `start` in front of the last one, from an allocator whose frames lie behind
everything the earlier stages wrote to. The kernel is seen as its file says, its stack is
in frames of its own, and the frames that the hand-over needs are seen at their own addresses.
-/

namespace MiniatureOs

open PageTableFrameMapping MappedPageTable MemoryRegion BumpFrameAllocator

/-! ## The boot information -/

theorem PhysicalMemoryRegion.toBytes_length (region : PhysicalMemoryRegion) :
    region.toBytes.length = 20 := by
  simp [toBytes]

theorem storeRegions_cons (address : Nat) (region : PhysicalMemoryRegion)
    (regions : List PhysicalMemoryRegion) (m : ByteMemory) :
    storeRegions address (region :: regions) m =
      storeRegions (address + physicalMemoryRegionSize) regions
        (m.store address region.toBytes) := by
  have haddress : ∀ idx, address + (idx + 1) * physicalMemoryRegionSize =
      address + physicalMemoryRegionSize + idx * physicalMemoryRegionSize := by
    intro idx
    rw [Nat.add_mul, Nat.one_mul, Nat.add_assoc, Nat.add_comm (idx * _)]
  rw [storeRegions, List.zipIdx_cons, List.foldl_cons, List.zipIdx_succ, List.foldl_map]
  simp only [haddress, Nat.zero_mul, Nat.add_zero]
  rfl

theorem storeRegions_outside {address x : Nat} {regions : List PhysicalMemoryRegion}
    {m : ByteMemory}
    (h : ¬ (address ≤ x ∧ x < address + regions.length * physicalMemoryRegionSize)) :
    storeRegions address regions m x = m x := by
  induction regions generalizing address m with
  | nil => rfl
  | cons region regions ih =>
      have hlength := region.toBytes_length
      rw [List.length_cons, physicalMemoryRegionSize] at h
      rw [storeRegions_cons, ih (by rw [physicalMemoryRegionSize]; omega)]
      exact ByteMemory.store_outside (by omega)

theorem storeRegions_contains {address : Nat} {regions : List PhysicalMemoryRegion}
    (m : ByteMemory) {i : Nat} (hi : i < regions.length) :
    (storeRegions address regions m).Contains (address + i * physicalMemoryRegionSize)
      regions[i].toBytes := by
  induction regions generalizing address m i with
  | nil => exact absurd hi (Nat.not_lt_zero i)
  | cons region regions ih =>
      rw [storeRegions_cons]
      cases i with
      | zero =>
          -- the writes behind it begin with the next entry
          have hlength := region.toBytes_length
          rw [Nat.zero_mul, Nat.add_zero, List.getElem_cons_zero]
          refine (ByteMemory.contains_store m address _).congr fun x _ hx => ?_
          exact storeRegions_outside (by rw [physicalMemoryRegionSize]; omega)
      | succ i =>
          have hnext := @ih (address + physicalMemoryRegionSize)
            (m.store address region.toBytes) i (Nat.lt_of_succ_lt_succ hi)
          rw [List.getElem_cons_succ, Nat.add_mul, Nat.one_mul, Nat.add_comm (i * _),
            ← Nat.add_assoc]
          exact hnext

structure BootInfoStored (build : Stage4Build) (frame : PhysicalFrame .size4KiB)
    (bootInfo : BootInfo) (m : ByteMemory) : Prop where
  fits : bootInfoSize + bootInfo.memoryRegions.length * physicalMemoryRegionSize ≤ 4096
  record : m.Contains frame.address (build.bootInfoBytes bootInfo)
  regions : ∀ i (hi : i < bootInfo.memoryRegions.length),
    m.Contains (frame.address + bootInfoSize + i * physicalMemoryRegionSize)
      bootInfo.memoryRegions[i].toBytes

theorem BootInfoStored.congr {build : Stage4Build} {frame : PhysicalFrame .size4KiB}
    {bootInfo : BootInfo} {m m' : ByteMemory} (h : BootInfoStored build frame bootInfo m)
    (hlength : (build.bootInfoBytes bootInfo).length = bootInfoSize)
    (hsame : ∀ x, x / 4096 = frame.address / 4096 → m' x = m x) :
    BootInfoStored build frame bootInfo m' := by
  have haligned : frame.address % 4096 = 0 := frame.aligned
  have hfits := h.fits
  refine ⟨hfits, h.record.congr fun x hle hlt => hsame x (by omega), fun i hi => ?_⟩
  have hregion := bootInfo.memoryRegions[i].toBytes_length
  unfold physicalMemoryRegionSize at hfits
  refine (h.regions i hi).congr fun x hle hlt => hsame x ?_
  unfold physicalMemoryRegionSize at hle hlt
  omega

section Steps

variable {A : Type} [FrameAllocator A] {table : MappedPageTable PhysicalOffset}
  {kept tables used : PhysicalFrame .size4KiB → Prop} {s s' : Machine A}
  {frame : PhysicalFrame .size4KiB}

theorem Placement.initializeAndMapGdt (h : Placement table kept tables used s)
    (hzero : table.mapping.offset = 0)
    (hrun : MiniatureOs.initializeAndMapGdt table s = .ok s') :
    ∃ (frame : PhysicalFrame .size4KiB) (tables' used' : PhysicalFrame .size4KiB → Prop),
      Placement table kept tables' used' s' ∧
      Adds table (fun n => n = (smallPage (frame.address / 4096)).number) tables used
        tables' used' s s' ∧
      (∀ x, x / 4096 = frame.address / 4096 →
        LeadsTo table s'.memory x x ⟨false, true, false⟩) ∧
      ¬ used frame ∧ s'.memory.Contains frame.address stage4Gdt.toBytes := by
  rw [initializeAndMapGdt_eq] at hrun
  obtain ⟨⟨frame, s₁⟩, halloc, hrun⟩ := Checked.bind_eq_ok.mp hrun
  have hlength : stage4Gdt.toBytes.length = 72 := rfl
  simp only [expectIdentityMap_eq] at hrun
  have hsame : SameOutside frame s₁.memory (s₁.memory.store frame.address stage4Gdt.toBytes) :=
    fun x hx => ByteMemory.store_outside (by omega)
  obtain ⟨tables', used', hplaced, hadds, hleads, hnew, hbytes⟩ :=
    h.mapNewSelf hzero halloc hsame hrun
  refine ⟨frame, tables', used', hplaced, hadds, hleads, hnew, ?_⟩
  exact (ByteMemory.contains_store s₁.memory frame.address _).congr fun x hle hlt =>
    hbytes x hle (by omega)

theorem Placement.allocateAndMapBootInfo {build : Stage4Build} {info : BiosInfo}
    {bootInfo : BootInfo} (h : Placement table kept tables used s)
    (hzero : table.mapping.offset = 0)
    (hbytes : ∀ bootInfo, (build.bootInfoBytes bootInfo).length = bootInfoSize)
    (hrun : MiniatureOs.allocateAndMapBootInfo build info table s = .ok (frame, bootInfo, s')) :
    ∃ (tables' used' : PhysicalFrame .size4KiB → Prop), Placement table kept tables' used' s' ∧
      Adds table (fun n => n = (smallPage (frame.address / 4096)).number) tables used
        tables' used' s s' ∧
      (∀ x, x / 4096 = frame.address / 4096 →
        LeadsTo table s'.memory x x ⟨false, true, false⟩) ∧
      ¬ used frame ∧ BootInfoStored build frame bootInfo s'.memory := by
  obtain ⟨⟨frame', s₁⟩, halloc, hrun⟩ := Checked.bind_eq_ok.mp hrun
  obtain ⟨memoryMap, -, hrun⟩ := Checked.bind_eq_ok.mp hrun
  obtain ⟨_, hassert, hrun⟩ := Checked.bind_eq_ok.mp hrun
  obtain ⟨s₂, hmap, hrun⟩ := Checked.bind_eq_ok.mp hrun
  obtain ⟨rfl, hrest⟩ := Prod.mk.inj (Except.ok.inj hrun)
  obtain ⟨rfl, rfl⟩ := Prod.mk.inj hrest
  have hsize : bootInfoSize + (memoryMap.filterMap id).length * physicalMemoryRegionSize ≤ 4096 :=
    of_decide_eq_true (Checked.assert_eq_ok.mp hassert)
  have hlength := hbytes ⟨info.kernel, memoryMap.filterMap id, physicalMemoryOffset⟩
  have hsame : SameOutside frame' s₁.memory
      ((storeRegions (frame'.address + bootInfoSize) (memoryMap.filterMap id) s₁.memory).store
        frame'.address (build.bootInfoBytes
          ⟨info.kernel, memoryMap.filterMap id, physicalMemoryOffset⟩)) := by
    intro x hx
    rw [ByteMemory.store_outside (by omega), storeRegions_outside (by omega)]
  obtain ⟨tables', used', hplaced, hadds, hleads, hnew, hstored⟩ :=
    h.mapNewSelf hzero halloc hsame hmap
  refine ⟨tables', used', hplaced, hadds, hleads, hnew, ⟨hsize, ?_, fun i hi => ?_⟩⟩
  · exact (ByteMemory.contains_store _ frame'.address _).congr fun x hle hlt =>
      hstored x hle (by omega)
  · change i < (memoryMap.filterMap id).length at hi
    have hregion := (memoryMap.filterMap id)[i].toBytes_length
    have hfits : i * physicalMemoryRegionSize + 24 ≤
        (memoryMap.filterMap id).length * physicalMemoryRegionSize := by
      rw [physicalMemoryRegionSize]
      omega
    refine (storeRegions_contains s₁.memory hi).congr fun x hle hlt => ?_
    rw [hstored x (by omega) (by omega)]
    exact ByteMemory.store_outside (by omega)

end Steps

/-! ## The allocator -/

/-- What stage 4 relies on in the memory map. The first region moves up to the first free
frame with its size unchanged, and must not run into the next one. -/
structure Stage4Map (info : BiosInfo) : Prop where
  sorted : SortedRegions info.memoryMap
  aligned : ∀ region ∈ info.memoryMap, PageAligned region
  disjoint : DisjointRegions info.memoryMap
  below : ∀ region ∈ info.memoryMap, start region + size region ≤ 2 ^ 45
  moved : ∀ allocator, stage4Allocator info = .ok allocator →
    DisjointRegions allocator.memoryMap

section Allocator

variable {info : BiosInfo} {allocator : BumpFrameAllocator E820MemoryRegion}
  {region : E820MemoryRegion}

theorem PhysicalFrame.lt_of_add_one {address : Nat} {next : PhysicalFrame .size4KiB}
    (h : (PhysicalFrame.containingAddress .size4KiB address).add 1 = .ok next) :
    address < next.address := by
  obtain ⟨distance, hmul, hadd⟩ := Checked.bind_eq_ok.mp h
  obtain ⟨sum, hadd, hresult⟩ := Checked.bind_eq_ok.mp hadd
  rw [← Except.ok.inj hresult, (Checked.add_eq_ok.mp hadd).2, (Checked.mul_eq_ok.mp hmul).2]
  simp only [PhysicalFrame.containingAddress_address, alignDown, PageSize.size]
  omega

theorem Stage4Map.region_bounds (h : Stage4Map info)
    (halloc : stage4Allocator info = .ok allocator) (hregion : region ∈ allocator.memoryMap) :
    PageAligned region ∧ start region + size region ≤ 2 ^ 46 ∧
      (0 < size region → info.lastPhysicalAddress < start region) := by
  obtain ⟨first, hfirst, hnew⟩ := Checked.bind_eq_ok.mp halloc
  have hnext := PhysicalFrame.lt_of_add_one hfirst
  have haligned : first.address % 0x1000 = 0 := first.aligned
  cases newStartingAt_cases hnew with
  | inr hnone =>
      rw [hnone.2] at hregion
      cases hregion
  | inl hfound =>
      obtain ⟨before, found, after, hmap, -, hcontains, -, rfl⟩ := hfound
      have hsorted := h.sorted
      have hdisjoint := h.disjoint
      rw [hmap] at hsorted hdisjoint
      have hmem : ∀ {region}, region ∈ found :: after → region ∈ info.memoryMap := by
        intro region hregion
        rw [hmap]
        exact List.mem_append_right _ hregion
      have hreach := (contains_eq_true.mp hcontains).2
      have hbelow := h.below found (hmem List.mem_cons_self)
      have hhigh : first.address ≤ start found + size found := hreach.2
      cases List.mem_cons.mp hregion with
      | inl hmoved =>
          rw [hmoved]
          have hsize := (h.aligned found (hmem List.mem_cons_self)).2
          refine ⟨⟨?_, ?_⟩, ?_, ?_⟩
          · rw [start_setStart]
            exact haligned
          · rw [size_setStart]
            exact hsize
          · rw [start_setStart, size_setStart]
            omega
          · rw [start_setStart]
            exact fun _ => hnext
      | inr hafter =>
          have hin := hmem (List.mem_cons_of_mem _ hafter)
          have hle := h.below region hin
          refine ⟨h.aligned region hin, by omega, fun hpos => ?_⟩
          -- the region begins behind the one that was found
          have hlow := (List.pairwise_cons.mp (List.pairwise_append.mp hsorted).2.1).1 region hafter
          have hapart :=
            (List.pairwise_cons.mp (List.pairwise_append.mp hdisjoint).2.1).1 region hafter
          have hbehind : start found + size found ≤ start region := by
            by_contra hinside
            exact hapart (start region) ⟨hlow, by omega⟩ ⟨Nat.le_refl _, by omega⟩
          omega

def Stage4Kept (allocator : BumpFrameAllocator E820MemoryRegion)
    (frame : PhysicalFrame .size4KiB) : Prop :=
  frame ∉ usableFrames (reachable allocator.memoryMap)

theorem Stage4Map.region_of_frame (h : Stage4Map info)
    (halloc : stage4Allocator info = .ok allocator) {frame : PhysicalFrame .size4KiB}
    (hframe : frame ∈ usableFrames (reachable allocator.memoryMap)) :
    ∃ region ∈ allocator.memoryMap, FrameInside frame region := by
  have hsub : (reachable allocator.memoryMap).Sublist allocator.memoryMap :=
    List.takeWhile_sublist _
  obtain ⟨region, hregion, -, hmem⟩ := mem_usableFrames.mp hframe
  have haligned := (h.region_bounds halloc (hsub.subset hregion)).1
  exact ⟨region, hsub.subset hregion, (mem_regionFrames_of_aligned haligned).mp hmem⟩

/-- The frames of stage 4 lie behind everything that was there before. -/
theorem Stage4Map.frame_bounds (h : Stage4Map info)
    (halloc : stage4Allocator info = .ok allocator) {frame : PhysicalFrame .size4KiB}
    (hframe : ¬ Stage4Kept allocator frame) :
    info.lastPhysicalAddress < frame.address ∧ frame.address + 4096 ≤ 2 ^ 46 := by
  obtain ⟨region, hregion, hlow, hhigh⟩ := h.region_of_frame halloc (not_not.mp hframe)
  obtain ⟨-, hbelow, hbehind⟩ := h.region_bounds halloc hregion
  have hstart := hbehind (by omega)
  omega

theorem Stage4Map.kept_of_le (h : Stage4Map info) (halloc : stage4Allocator info = .ok allocator)
    {frame : PhysicalFrame .size4KiB} (hle : frame.address ≤ info.lastPhysicalAddress) :
    Stage4Kept allocator frame := by
  by_contra hframe
  have hbounds := h.frame_bounds halloc hframe
  omega

theorem Stage4Map.fresh (h : Stage4Map info) (halloc : stage4Allocator info = .ok allocator) :
    ReturnsFresh (Stage4Kept allocator) allocator := by
  have hsub : (reachable allocator.memoryMap).Sublist allocator.memoryMap :=
    List.takeWhile_sublist _
  have hnodup : (usableFrames (reachable allocator.memoryMap)).Nodup :=
    usableFrames_nodup ((h.moved allocator halloc).sublist hsub) fun region hregion _ _ =>
      (h.region_bounds halloc (hsub.subset hregion)).1
  refine returnsFresh hnodup fun frame hframe => ?_
  have hnot : ¬ Stage4Kept allocator frame := not_not.mpr hframe
  have hbounds := h.frame_bounds halloc hnot
  exact ⟨by omega, hnot⟩

theorem ends_le {regions : List E820MemoryRegion} {ends : List Nat} {bound : Nat}
    (h : regions.mapM endAddress = .ok ends)
    (hbound : ∀ region ∈ regions, start region + size region ≤ bound) :
    ∀ address ∈ ends, address ≤ bound := by
  induction regions generalizing ends with
  | nil =>
      obtain rfl := Except.ok.inj h
      exact fun address hmem => absurd hmem List.not_mem_nil
  | cons first rest ih =>
      rw [List.mapM_cons] at h
      obtain ⟨last, hfirst, h⟩ := Checked.bind_eq_ok.mp h
      obtain ⟨others, hrest, h⟩ := Checked.bind_eq_ok.mp h
      obtain rfl := Except.ok.inj h
      refine List.forall_mem_cons.mpr ⟨?_, ih hrest fun region hregion =>
        hbound region (List.mem_cons_of_mem _ hregion)⟩
      rw [(endAddress_eq_ok.mp hfirst).2]
      exact hbound first List.mem_cons_self

theorem Stage4Map.offsetRange (h : Stage4Map info)
    (halloc : stage4Allocator info = .ok allocator) {highest : Nat}
    (hhighest : allocator.maxPhysicalAddress = .ok highest) :
    OffsetRange physicalMemoryOffset highest := by
  obtain ⟨ends, hends, hmax⟩ := Checked.bind_eq_ok.mp hhighest
  have hle : highest ≤ 2 ^ 46 := by
    refine ends_le hends (fun region hregion => (h.region_bounds halloc hregion).2.1) highest ?_
    exact List.max?_mem (Checked.unwrap_eq_ok.mp hmax)
  refine ⟨by decide, ?_⟩
  rw [physicalMemoryOffset]
  omega

end Allocator

/-! ## The state before the first page -/

def stage4Loader (info : BiosInfo) (table : MappedPageTable PhysicalOffset) :
    KernelLoader PhysicalOffset :=
  ⟨kernelVirtualBase, info.kernel.start, table⟩

structure Stage4Ready (build : Stage4Build) (info : BiosInfo) (elf : ElfBinary)
    (memory : ByteMemory) : Prop where
  map : Stage4Map info
  imageAligned : info.kernel.start % 4096 = 0
  imagePos : 0 < info.kernel.start
  imageEnd : info.kernel.start + info.kernel.size ≤ info.lastPhysicalAddress + 1
  switchBelow : build.contextSwitch ≤ info.lastPhysicalAddress
  switchOutside : build.contextSwitch < info.kernel.start ∨
    info.kernel.start + info.kernel.size ≤ build.contextSwitch / 4096 * 4096
  bootInfoLength : ∀ bootInfo, (build.bootInfoBytes bootInfo).length = bootInfoSize
  parse : build.parseElf (memory.bytes info.kernel.start info.kernel.size) = some elf
  valid : ∀ header ∈ elf.headers, HeaderValid info.kernel.size header
  inSpace : ∀ header ∈ elf.headers,
    kernelVirtualBase + header.virtualAddr + header.memSize ≤ 2 ^ 64
  files : ∀ a ∈ elf.headers, ∀ b ∈ elf.headers, ∀ i < a.fileSize, ∀ j < b.fileSize,
    a.offset + i = b.offset + j → a = b
  relocations : ∀ entry ∈ elf.relocations, ∀ i < 8, ∃ header ∈ elf.headers,
    header.virtualAddr ≤ entry.offset + i ∧
      entry.offset + i < header.virtualAddr + header.memSize

theorem tableEntry_fill (m : ByteMemory) (address : Nat) (i : Fin 512) :
    tableEntry (m.fill address 4096 0) address i = PageTableEntry.unused := by
  refine ByteMemory.readWord_of_zero fun x hle hlt => ByteMemory.fill_inside ?_ ?_
  · exact Nat.le_trans (Nat.le_add_right _ _) hle
  · unfold entryAddress at hlt
    omega

theorem pageEntry_fill (m : ByteMemory) (frame : PhysicalFrame .size4KiB) {offset : PhysicalOffset}
    (page : Page .size4KiB) :
    MappedPageTable.pageEntry (⟨offset, frame.address, frame.aligned⟩ : MappedPageTable _)
      (m.fill frame.address 4096 0) page = PageTableEntry.unused := by
  refine pageEntry_eq_unused ?_
  simp only [MappedPageTable.tableAt, Page.tablePath, RadixTree.walk, tableEntry_fill, child_unused]

section Prepare

variable {build : Stage4Build} {info : BiosInfo} {elf : ElfBinary} {memory : ByteMemory}
  {allocator : BumpFrameAllocator E820MemoryRegion} {table : MappedPageTable PhysicalOffset}

namespace Stage4Ready

theorem switch_kept (h : Stage4Ready build info elf memory)
    (halloc : stage4Allocator info = .ok allocator) :
    Stage4Kept allocator (.containingAddress .size4KiB build.contextSwitch) :=
  h.map.kept_of_le halloc (Nat.le_trans (alignDown_le _ _) h.switchBelow)

/-- The root table is in a frame behind the image, and nothing is mapped yet. -/
theorem emptyRoot (h : Stage4Ready build info elf memory)
    (halloc : stage4Allocator info = .ok allocator) {message : String}
    {frame : PhysicalFrame .size4KiB} {s : Machine (BumpFrameAllocator E820MemoryRegion)}
    {m : ByteMemory} (hframe : expectFrame message { memory, allocator } = .ok (frame, s))
    (hroot : initializeEmptyAtAddress s.memory frame.address = .ok m) :
    info.lastPhysicalAddress < 2 ^ 46 ∧
      Placement ⟨⟨0⟩, frame.address, frame.aligned⟩ (Stage4Kept allocator) (fun _ => False)
        (fun other => Stage4Kept allocator other ∨ other = frame) { s with memory := m } ∧
      (∀ page : Page .size4KiB, MappedPageTable.pageEntry
        (⟨⟨0⟩, frame.address, frame.aligned⟩ : MappedPageTable PhysicalOffset) m page =
          PageTableEntry.unused) ∧
      ∀ x, x / 4096 ≤ info.lastPhysicalAddress / 4096 → m x = memory x := by
  obtain ⟨allocator', hcall, rfl⟩ := expectFrame_eq_ok hframe
  obtain ⟨hlt, hnew, hfresh⟩ := (h.map.fresh halloc).of_some hcall
  have hbounds := h.map.frame_bounds halloc hnew
  obtain ⟨_, -, hroot⟩ := Checked.bind_eq_ok.mp hroot
  obtain rfl := Except.ok.inj hroot
  have hunused := fun page => @pageEntry_fill memory frame ⟨0⟩ page
  have hnone : ∀ page frame' flags, ¬ MapsTo ⟨⟨0⟩, frame.address, frame.aligned⟩
      (memory.fill frame.address 4096 0) page frame' flags := by
    intro page frame' flags hmaps
    have hpresent := hmaps.isPresent
    rw [hunused page] at hpresent
    cases hpresent
  have hrootFrame : ∀ other, frameToVirtual (⟨0⟩ : PhysicalOffset) other = .ok frame.address →
      other = frame := by
    intro other hvirtual
    have haddress := (Checked.add_eq_ok.mp hvirtual).2
    exact PhysicalFrame.ext (by simpa using haddress.symm)
  have haligned : frame.address % 4096 = 0 := frame.aligned
  refine ⟨by omega, ⟨?_, ?_, ?_, ?_⟩, hunused, fun x hx => ByteMemory.fill_outside (by omega)⟩
  · have hempty : Fresh (⟨⟨0⟩, frame.address, frame.aligned⟩ : MappedPageTable PhysicalOffset)
        { memory := memory.fill frame.address 4096 0, allocator := allocator' } :=
      ⟨tableEntry_fill memory frame.address,
        hfresh.mono fun other hvirtual => .inr (hrootFrame other hvirtual)⟩
    exact ⟨hempty.separate.toWellFormed, fun _ => False.elim,
      fun other hvirtual => .inr (hrootFrame other hvirtual), hfresh⟩
  · intro other hkept
    refine ⟨.inl hkept, id, fun heq => hnew ?_⟩
    rw [← PhysicalFrame.ext (show other.address = frame.address from heq)]
    exact hkept
  · exact fun page other flags hmaps => absurd hmaps (hnone page other flags)
  · exact fun page _ other flags _ hmaps => absurd hmaps (hnone page other flags)

/-! ## The kernel -/

theorem imageAt (h : Stage4Ready build info elf memory)
    (hlast : info.lastPhysicalAddress < 2 ^ 46) (hzero : table.mapping.offset = 0) :
    ImageAt (stage4Loader info table) info.kernel.size where
  identity := hzero
  virtualAligned := by
    change kernelVirtualBase % 4096 = 0
    decide
  aligned := h.imageAligned
  pos := h.imagePos
  below := by
    have hend := h.imageEnd
    change info.kernel.start + info.kernel.size ≤ 2 ^ 48
    omega

theorem kernelLayout (h : Stage4Ready build info elf memory)
    (hlast : info.lastPhysicalAddress < 2 ^ 46) (hzero : table.mapping.offset = 0) :
    KernelLayout (stage4Loader info table) info.kernel.size elf.headers where
  image := h.imageAt hlast hzero
  valid := h.valid
  files := h.files
  canonical := by
    intro header hheader i hi
    have hspace := h.inSpace header hheader
    change Canonical (kernelVirtualBase + header.virtualAddr + i)
    unfold Canonical
    unfold kernelVirtualBase at hspace ⊢
    omega

end Stage4Ready

/-- The frames that the kernel's pages lead to: new ones, and those of the image. -/
def Stage4Own (info : BiosInfo) (allocator : BumpFrameAllocator E820MemoryRegion)
    (frame : PhysicalFrame .size4KiB) : Prop :=
  ¬ Stage4Kept allocator frame ∨
    info.kernel.start ≤ frame.address ∧ frame.address < info.kernel.start + info.kernel.size

def ProgramHeader.rights (header : ProgramHeader) : Rights :=
  ⟨header.isWrite, header.isExecute, false⟩

theorem rights_of_pageFlags {header : ProgramHeader} {flags : PageTableEntryFlags}
    (h : flags = header.pageFlags ∨ flags = header.pageFlags ||| copied) :
    flags.rights = header.rights := by
  have hpermissions := pageFlags_permissions h
  have huser : flags.contains .userAccessible = false := by
    unfold ProgramHeader.pageFlags at h
    cases h with
    | inl heq => rw [heq]; cases header.isExecute <;> cases header.isWrite <;> decide
    | inr heq => rw [heq]; cases header.isExecute <;> cases header.isWrite <;> decide
  rw [PageTableEntryFlags.rights, hpermissions.1, hpermissions.2, huser, Bool.not_not,
    ProgramHeader.rights]

def KernelLoader.OnPage (loader : KernelLoader PhysicalOffset) (header : ProgramHeader)
    (x : Nat) : Prop :=
  ∃ k < loader.pageCount header, x / 4096 = loader.firstPage header + k

theorem KernelLoader.InSegment.onPage {loader : KernelLoader PhysicalOffset}
    {header : ProgramHeader} {x : Nat} (h : loader.InSegment header x) :
    loader.OnPage header x := by
  obtain ⟨i, rfl⟩ := Nat.exists_eq_add_of_le h.1
  exact @exists_page_of_byte header _ loader i (Nat.add_lt_add_iff_left.mp h.2)

theorem KernelLoader.kernelImage_congr {loader : KernelLoader PhysicalOffset} {imageSize : Nat}
    {m m' : ByteMemory} (hvalid : ∀ header ∈ elf.headers, HeaderValid imageSize header)
    (hsame : ∀ x, loader.kernelStart ≤ x → x < loader.kernelStart + imageSize → m x = m' x) :
    loader.kernelImage elf m = loader.kernelImage elf m' := by
  have hsegments : loader.segmentsImage elf.headers m = loader.segmentsImage elf.headers m' := by
    funext x
    unfold segmentsImage
    cases hfind : elf.headers.find? fun header => decide (loader.InSegment header x) with
    | none => rfl
    | some header =>
        have hfile := (hvalid header (List.mem_of_find?_eq_some hfind)).inFile
        simp only [segmentByte]
        by_cases hlt : x - loader.segmentStart header < header.fileSize
        · rw [if_pos hlt, if_pos hlt]
          unfold fileStart
          exact hsame _ (by omega) (by omega)
        · rw [if_neg hlt, if_neg hlt]
  rw [kernelImage, kernelImage, hsegments]

/-- The kernel is loaded: its pages are there with the rights of their segments, in frames
that are its `own`, and its bytes are those of the image. -/
structure KernelMapped (loader : KernelLoader PhysicalOffset) (elf : ElfBinary)
    (own : PhysicalFrame .size4KiB → Prop) (image m : ByteMemory) : Prop where
  pages : ∀ header ∈ elf.headers, ∀ x, loader.OnPage header x →
    ∃ location, LeadsTo loader.pageTable m x location header.rights ∧
      own (.containingAddress .size4KiB location)
  bytes : ∀ header ∈ elf.headers, ∀ x, loader.InSegment header x →
    ∀ location rights, LeadsTo loader.pageTable m x location rights → m location = image x

theorem KernelMapped.keep {loader : KernelLoader PhysicalOffset}
    {own : PhysicalFrame .size4KiB → Prop} {image : ByteMemory} {A : Type} [FrameAllocator A]
    {s s' : Machine A} {pages : Nat → Prop}
    {kept tables used tables' used' : PhysicalFrame .size4KiB → Prop}
    (h : KernelMapped loader elf own image s.memory)
    (hplaced : Placement loader.pageTable kept tables used s)
    (hadds : Adds loader.pageTable pages tables used tables' used' s s') :
    KernelMapped loader elf own image s'.memory where
  pages := by
    intro header hheader x hx
    obtain ⟨location, hleads, hown⟩ := h.pages header hheader x hx
    exact ⟨location, hleads.keep hadds, hown⟩
  bytes := by
    intro header hheader x hx location rights hleads
    obtain ⟨location', hleads', -⟩ := h.pages header hheader x hx.onPage
    obtain ⟨rfl, rfl⟩ := hleads.unique (hleads'.keep hadds)
    rw [hleads'.byte hplaced hadds]
    exact h.bytes header hheader x hx _ _ hleads'

namespace Stage4Ready

theorem switch_not_segmentPlace (h : Stage4Ready build info elf memory)
    (halloc : stage4Allocator info = .ok allocator) {A : Type}
    [FrameAllocator A] {s : Machine A} {image : ByteMemory}
    {tables used : PhysicalFrame .size4KiB → Prop}
    (hshows : ShowsImage (stage4Loader info table) elf.headers image (Stage4Kept allocator)
      tables used s) {x : Nat} (hx : x / 4096 = build.contextSwitch / 4096) :
    ¬ (stage4Loader info table).SegmentPlace elf.headers s.memory x := by
  rintro ⟨header, hheader, y, hin, hlocated⟩
  obtain ⟨frame, flags, -, hmaps, hplace⟩ := hshows.placed header hheader y hin
  have hlocation := (hmaps.locatedAt_iff hshows.placement.separate.toWellFormed).mp hlocated
  have haligned : frame.address % 4096 = 0 := frame.aligned
  have hfile := (h.valid header hheader).inFile
  have hstart := h.imageAligned
  have hout := h.switchOutside
  have hswitch := h.switchBelow
  cases hplace with
  | inl hnew => exact hnew (h.map.kept_of_le halloc (by omega))
  | inr hplace =>
      obtain ⟨hlt, hposition⟩ := hplace
      change frame.address + y % 4096 = info.kernel.start + header.offset + _ at hposition
      omega

theorem kept_of_inImage (h : Stage4Ready build info elf memory)
    (halloc : stage4Allocator info = .ok allocator) {frame : PhysicalFrame .size4KiB}
    (hin : InImage (stage4Loader info table) info.kernel.size frame) :
    Stage4Kept allocator frame := by
  have hend := h.imageEnd
  have hhigh : frame.address < info.kernel.start + info.kernel.size := hin.2
  exact h.map.kept_of_le halloc (by omega)

theorem wordInside (h : Stage4Ready build info elf memory) {entry : RelocationEntry}
    (hentry : entry ∈ elf.relocations) :
    (stage4Loader info table).WordInside elf.headers entry := by
  intro i hi
  obtain ⟨header, hheader, hlow, hhigh⟩ := h.relocations entry hentry i hi
  refine ⟨header, hheader, ?_, ?_⟩
  · change kernelVirtualBase + header.virtualAddr ≤ kernelVirtualBase + entry.offset + i
    omega
  · change kernelVirtualBase + entry.offset + i <
      kernelVirtualBase + header.virtualAddr + header.memSize
    omega

theorem loadKernel (h : Stage4Ready build info elf memory)
    (halloc : stage4Allocator info = .ok allocator) (hlast : info.lastPhysicalAddress < 2 ^ 46)
    (hzero : table.mapping.offset = 0) {A : Type}
    [FrameAllocator A] {s s' : Machine A} {used : PhysicalFrame .size4KiB → Prop}
    {entryPoint : Nat} (hplaced : Placement table (Stage4Kept allocator) (fun _ => False) used s)
    (hunused : ∀ page : Page .size4KiB, table.pageEntry s.memory page = PageTableEntry.unused)
    (hsame : ∀ x, x / 4096 ≤ info.lastPhysicalAddress / 4096 → s.memory x = memory x)
    (hrun : (stage4Loader info table).loadKernel elf s = .ok (entryPoint, s')) :
    entryPoint = kernelVirtualBase + elf.entryPoint ∧
      ∃ tables' used', Placement table (Stage4Kept allocator) tables' used' s' ∧
        (∀ page : Page .size4KiB,
          (¬ ∃ header ∈ elf.headers, (stage4Loader info table).Touches header page.number) →
            table.pageEntry s'.memory page = PageTableEntry.unused) ∧
        KernelMapped (stage4Loader info table) elf (Stage4Own info allocator)
          ((stage4Loader info table).kernelImage elf memory) s'.memory ∧
        ∀ x, x / 4096 = build.contextSwitch / 4096 → s'.memory x = memory x := by
  obtain ⟨s₁, hallocate, hrun⟩ := Checked.bind_eq_ok.mp hrun
  obtain ⟨_, -, hrun⟩ := Checked.bind_eq_ok.mp hrun
  obtain ⟨m, hrelocate, hrun⟩ := Checked.bind_eq_ok.mp hrun
  obtain ⟨_, hentry, hrun⟩ := Checked.bind_eq_ok.mp hrun
  obtain ⟨rfl, rfl⟩ := Prod.mk.inj (Except.ok.inj hrun)
  have hlayout := h.kernelLayout hlast hzero
  have himage : ∀ frame, InImage (stage4Loader info table) info.kernel.size frame →
      Stage4Kept allocator frame := fun _ => h.kept_of_inImage halloc
  obtain ⟨tables₁, used₁, hshows, hadds⟩ := hlayout.allocate_shows hplaced himage hallocate
  obtain ⟨_, _, -, -, hpages⟩ := hlayout.image.allocate_placed h.valid hplaced himage hallocate
  obtain ⟨hrelocated, hsegments⟩ := hshows.relocateAll hlayout
    (fun _ => h.wordInside) hrelocate
  obtain ⟨hplacement, hentries⟩ := hshows.placement.congr (hshows.same_inTables hzero hsegments)
  refine ⟨(Checked.add_eq_ok.mp hentry).2, tables₁, used₁, hplacement, fun page hpage => ?_,
    ⟨fun header hheader x hx => ?_, fun header hheader x hx location rights hleads => ?_⟩,
    fun x hx => ?_⟩
  · exact (hentries page).trans ((hadds.others page hpage).trans (hunused page))
  · obtain ⟨k, hk, hpage⟩ := hx
    obtain ⟨frame, flags, hflags, hmaps, hplace⟩ := hpages header hheader k hk
    rw [← hpage] at hmaps
    refine ⟨_, ⟨frame, flags, hmaps.of_entry (hentries _), rfl, rights_of_pageFlags hflags⟩, ?_⟩
    rw [frame.containingAddress_byte]
    refine hplace.imp_right fun hfile => ?_
    obtain ⟨hin, rfl, -⟩ := hfile
    exact hlayout.image.inImage (h.valid header hheader) hin
  · obtain ⟨frame, flags, hmaps, rfl, -⟩ := hleads
    rw [hrelocated.shown header hheader x hx _
      ((hmaps.locatedAt_iff hplacement.separate.toWellFormed).mpr rfl)]
    refine congrFun (KernelLoader.kernelImage_congr h.valid fun y hlow hhigh => ?_) x
    have hend := h.imageEnd
    change y < info.kernel.start + info.kernel.size at hhigh
    exact hsame y (by omega)
  · have hswitch := h.switchBelow
    change m x = memory x
    rw [hsegments x (h.switch_not_segmentPlace halloc hshows hx), hplaced.kept_byte hadds
      (h.switch_kept halloc) (hx.trans (containingAddress_number _).symm)]
    exact hsame x (by omega)

end Stage4Ready

/-! ## All small pages -/

def SeenAtItself (table : MappedPageTable PhysicalOffset) (m : ByteMemory) (n : Nat) : Prop :=
  ∀ x, x / 4096 = n → LeadsTo table m x x ⟨false, true, false⟩

structure Stage4Mapped (build : Stage4Build) (info : BiosInfo) (elf : ElfBinary)
    (memory : ByteMemory) (allocator : BumpFrameAllocator E820MemoryRegion)
    (table : MappedPageTable PhysicalOffset) (gdtFrame bootInfoFrame : PhysicalFrame .size4KiB)
    (bootInfo : BootInfo) (m : ByteMemory) : Prop where
  kernel : KernelMapped (stage4Loader info table) elf (Stage4Own info allocator)
    ((stage4Loader info table).kernelImage elf memory) m
  stack : ∀ k < 33, ∃ frame, MapsTo table m (smallPage (guardNumber + 1 + k)) frame stackFlags ∧
    ¬ Stage4Kept allocator frame
  guard : ∃ frame : PhysicalFrame .size4KiB, frame.address < 2 ^ 48 ∧
    table.pageEntry m (smallPage guardNumber) = PageTableEntry.setAddress frame.address .none
  switchBelow : build.contextSwitch < 2 ^ 46
  switchPage : SeenAtItself table m (build.contextSwitch / 4096)
  code : ∀ x, x / 4096 = build.contextSwitch / 4096 → m x = memory x
  gdtNew : ¬ Stage4Kept allocator gdtFrame
  gdtBelow : gdtFrame.address < 2 ^ 46
  gdtPage : SeenAtItself table m (gdtFrame.address / 4096)
  gdtStored : m.Contains gdtFrame.address stage4Gdt.toBytes
  bootInfoNew : ¬ Stage4Kept allocator bootInfoFrame
  bootInfoBelow : bootInfoFrame.address < 2 ^ 46
  bootInfoPage : SeenAtItself table m (bootInfoFrame.address / 4096)
  bootInfoStored : BootInfoStored build bootInfoFrame bootInfo m
  others : ∀ page : Page .size4KiB,
    (¬ ∃ header ∈ elf.headers, (stage4Loader info table).Touches header page.number) →
    ¬ InRange guardNumber 34 page.number →
    page.number ≠ (smallPage (build.contextSwitch / 4096)).number →
    page.number ≠ (smallPage (gdtFrame.address / 4096)).number →
    page.number ≠ (smallPage (bootInfoFrame.address / 4096)).number →
    table.pageEntry m page = PageTableEntry.unused

theorem guardNumber_ne {address : Nat} (h : address < 2 ^ 46) :
    (smallPage guardNumber).number ≠ (smallPage (address / 4096)).number := by
  rw [smallPage_number, smallPage_number, guardNumber]
  omega

theorem prepareKernel_eq_ok {entryPoint stackTop : Nat}
    {s s' : Machine (BumpFrameAllocator E820MemoryRegion)}
    (h : prepareKernel build info s = .ok (table, entryPoint, stackTop, s')) :
    ∃ frame s₀ m elf s₂ s₃ s₄, table = ⟨⟨0⟩, frame.address, frame.aligned⟩ ∧
      expectFrame "Failed to allocate frame for kernel page table" s = .ok (frame, s₀) ∧
      initializeEmptyAtAddress s₀.memory frame.address = .ok m ∧
      build.parseElf (m.bytes info.kernel.start info.kernel.size) = some elf ∧
      (stage4Loader info table).loadKernel elf { s₀ with memory := m } = .ok (entryPoint, s₂) ∧
      allocateAndMapStack table s₂ = .ok (stackTop, s₃) ∧
      identityMapContextSwitchFunction build table s₃ = .ok s₄ ∧
      initializeAndMapGdt table s₄ = .ok s' := by
  obtain ⟨⟨frame, s₀⟩, hframe, h⟩ := Checked.bind_eq_ok.mp h
  obtain ⟨m, hroot, h⟩ := Checked.bind_eq_ok.mp h
  obtain ⟨elf, hparse, h⟩ := Checked.bind_eq_ok.mp h
  obtain ⟨⟨entryPoint', s₂⟩, hload, h⟩ := Checked.bind_eq_ok.mp h
  obtain ⟨⟨stackTop', s₃⟩, hstack, h⟩ := Checked.bind_eq_ok.mp h
  obtain ⟨s₄, hswitch, h⟩ := Checked.bind_eq_ok.mp h
  obtain ⟨s₅, hgdt, h⟩ := Checked.bind_eq_ok.mp h
  cases h
  exact ⟨frame, s₀, m, elf, s₂, s₃, s₄, rfl, hframe, hroot, Checked.expect_eq_ok.mp hparse,
    hload, hstack, hswitch, hgdt⟩

theorem Stage4Ready.mapped (h : Stage4Ready build info elf memory) {entryPoint stackTop : Nat}
    {s s' : Machine (BumpFrameAllocator E820MemoryRegion)}
    {bootInfoFrame : PhysicalFrame .size4KiB} {bootInfo : BootInfo}
    (halloc : stage4Allocator info = .ok allocator)
    (hprepare : prepareKernel build info { memory, allocator } =
      .ok (table, entryPoint, stackTop, s))
    (hboot : allocateAndMapBootInfo build info table s = .ok (bootInfoFrame, bootInfo, s')) :
    table.mapping.offset = 0 ∧ entryPoint = kernelVirtualBase + elf.entryPoint ∧
      stackTop = kernelStackTop ∧ ∃ gdtFrame tables used,
        Placement table (Stage4Kept allocator) tables used s' ∧
        Stage4Mapped build info elf memory allocator table gdtFrame bootInfoFrame bootInfo
          s'.memory := by
  obtain ⟨frame, s₀, m, elf', s₂, s₃, s₄, rfl, hframe, hroot, hparse, hload, hstack, hswitch,
    hgdt⟩ := prepareKernel_eq_ok hprepare
  obtain ⟨hlast, hplaced₁, hunused, hsame⟩ := h.emptyRoot halloc hframe hroot
  -- the image is still what it was, so the file is the one that was asked for
  have hbytes : m.bytes info.kernel.start info.kernel.size =
      memory.bytes info.kernel.start info.kernel.size := by
    have hend := h.imageEnd
    exact ByteMemory.bytes_eq_iff.mpr fun i hi => hsame _ (by omega)
  rw [hbytes, h.parse] at hparse
  obtain rfl := Option.some.inj hparse
  have hbelow : build.contextSwitch < 2 ^ 46 := Nat.lt_of_le_of_lt h.switchBelow hlast
  have hkept := h.switch_kept halloc
  obtain ⟨hentry, tables₂, used₂, hplaced₂, hothers₂, hkernel₂, hcode₂⟩ :=
    h.loadKernel halloc hlast rfl hplaced₁ hunused hsame hload
  obtain ⟨htop, tables₃, used₃, hplaced₃, hadds₃, hstack₃, hguard₃⟩ :=
    hplaced₂.allocateAndMapStack rfl hstack
  obtain ⟨tables₄, used₄, hplaced₄, hadds₄, hswitch₄⟩ :=
    hplaced₃.identityMapContextSwitchFunction rfl hkept (by omega) hswitch
  obtain ⟨gdtFrame, tables₅, used₅, hplaced₅, hadds₅, hgdt₅, hgdtNew, hgdtStored⟩ :=
    hplaced₄.initializeAndMapGdt rfl hgdt
  obtain ⟨tables₆, used₆, hplaced₆, hadds₆, hboot₆, hbootNew, hbootStored⟩ :=
    hplaced₅.allocateAndMapBootInfo rfl h.bootInfoLength hboot
  have hgdtBounds := h.map.frame_bounds halloc (hplaced₄.not_kept hgdtNew)
  have hbootBounds := h.map.frame_bounds halloc (hplaced₅.not_kept hbootNew)
  have hgdtBelow : gdtFrame.address < 2 ^ 46 := by omega
  have hbootBelow : bootInfoFrame.address < 2 ^ 46 := by omega
  refine ⟨rfl, hentry, htop, gdtFrame, tables₆, used₆, hplaced₆, ?_⟩
  constructor
  case kernel =>
    exact (((hkernel₂.keep hplaced₂ hadds₃).keep hplaced₃ hadds₄).keep hplaced₄ hadds₅).keep
      hplaced₅ hadds₆
  case stack =>
    intro k hk
    obtain ⟨frame, hmaps, hnew⟩ := hstack₃ k hk
    exact ⟨frame, hadds₆.keeps (hadds₅.keeps (hadds₄.keeps hmaps)), hnew⟩
  case guard =>
    obtain ⟨frame, hlt, hguard⟩ := hguard₃
    refine ⟨frame, hlt, ?_⟩
    rw [hadds₆.others _ (guardNumber_ne hbootBelow), hadds₅.others _ (guardNumber_ne hgdtBelow),
      hadds₄.others _ (guardNumber_ne hbelow)]
    exact hguard
  case switchBelow => exact hbelow
  case switchPage => exact fun x hx => ((hswitch₄ x hx).keep hadds₅).keep hadds₆
  case code =>
    intro x hx
    have hframe := hx.trans (containingAddress_number build.contextSwitch).symm
    rw [hplaced₅.kept_byte hadds₆ hkept hframe, hplaced₄.kept_byte hadds₅ hkept hframe,
      hplaced₃.kept_byte hadds₄ hkept hframe, hplaced₂.kept_byte hadds₃ hkept hframe]
    exact hcode₂ x hx
  case gdtNew => exact hplaced₄.not_kept hgdtNew
  case gdtBelow => exact hgdtBelow
  case gdtPage => exact fun x hx => (hgdt₅ x hx).keep hadds₆
  case gdtStored =>
    have hlength : stage4Gdt.toBytes.length = 72 := rfl
    have haligned : gdtFrame.address % 4096 = 0 := gdtFrame.aligned
    exact hgdtStored.congr fun x hle hlt => (hgdt₅ x (by omega)).byte hplaced₅ hadds₆
  case bootInfoNew => exact hplaced₅.not_kept hbootNew
  case bootInfoBelow => exact hbootBelow
  case bootInfoPage => exact hboot₆
  case bootInfoStored => exact hbootStored
  case others =>
    intro page hkernel hstack hswitch hgdt hboot
    rw [hadds₆.others page hboot, hadds₅.others page hgdt, hadds₄.others page hswitch,
      hadds₃.others page hstack]
    exact hothers₂ page hkernel

end Prepare

end MiniatureOs
