import MiniatureOs.Boot.ContextSwitch
import MiniatureOs.Heap.Window

/-! # The kernel sets itself up

`kernel_init` finds its page table behind `CR3`, at the offset where stage 4 has mapped all of
physical memory, and gives the heap frames from the map that stage 4 has built. When the hand-off
is safe none of them is a table of the address space, or shows at one of the addresses that are
there.
-/

namespace MiniatureOs

open PageTableFrameMapping MappedPageTable MemoryRegion BumpFrameAllocator

/-! ## `kernel_init` -/

/-- The frame that `Cr3::read` returns. -/
def cr3Read (raw : Nat) : PhysicalFrame .size4KiB :=
  .containingAddress .size4KiB (raw &&& 0x000ffffffffff000)

/-- `paging::init`: where the kernel sees its page table. -/
def pagingInit (cr3 : Nat) (bootInfo : BootInfo) : Checked Nat :=
  Checked.add 64 (cr3Read cr3).address bootInfo.physicalMemoryOffset

/-- `kernel_init`, with the value of `CR3` and the memory that the kernel sees. The tables of
`interrupts::init` are not in it. -/
def kernelInit (cr3 : Nat) (bootInfo : BootInfo) (view : ByteMemory) :
    Checked (BuddyAllocator × MappedPageTable PhysicalOffset ×
      Machine (BumpFrameAllocator PhysicalMemoryRegion)) := do
  let pml4t ← pagingInit cr3 bootInfo
  if haligned : pml4t % 4096 = 0 then
    let pageTable : MappedPageTable PhysicalOffset :=
      ⟨⟨bootInfo.physicalMemoryOffset⟩, pml4t, haligned⟩
    let (heap, s) ← initHeap pageTable .new
      { memory := view, allocator := .new bootInfo.memoryRegions }
    return (heap, pageTable, s)
  else throw (.message "misaligned pointer dereference")

theorem cr3Read_address {raw : Nat} (haligned : raw % 4096 = 0) (hlt : raw < 2 ^ 52) :
    (cr3Read raw).address = raw := by
  have hmask : raw &&& 0x000ffffffffff000 = raw := by
    have hraw : raw = (raw / 2 ^ 12) <<< 12 := by
      rw [Nat.shiftLeft_eq]
      omega
    have hbits : 0x000ffffffffff000 = (2 ^ 40 - 1) <<< 12 := by decide
    have hpart : raw / 2 ^ 12 < 2 ^ 40 := by omega
    rw [hbits, hraw, ← Nat.shiftLeft_and_distrib, Nat.and_two_pow_sub_one_eq_mod,
      Nat.mod_eq_of_lt hpart]
  rw [cr3Read, hmask, PhysicalFrame.containingAddress_address]
  exact alignDown_of_mod haligned

/-- `kernel_init` works on the page table of the processor, at the offset. -/
theorem kernelInit_of_initHeap {table : MappedPageTable PhysicalOffset} {bootInfo : BootInfo}
    {view : ByteMemory} {offset : Nat} (hoffset : bootInfo.physicalMemoryOffset = offset)
    (haligned : offset % 4096 = 0) (hlt : table.pml4t < 2 ^ 52)
    (hfits : table.pml4t + offset < 2 ^ 64) {heap : BuddyAllocator}
    {s : Machine (BumpFrameAllocator PhysicalMemoryRegion)}
    (h : initHeap (table.atOffset offset haligned) .new
      { memory := view, allocator := BumpFrameAllocator.new bootInfo.memoryRegions } =
        .ok (heap, s)) :
    kernelInit table.pml4t bootInfo view = .ok (heap, table.atOffset offset haligned, s) := by
  subst hoffset
  have hroot := table.aligned
  have hadd : pagingInit table.pml4t bootInfo =
      .ok (bootInfo.physicalMemoryOffset + table.pml4t) := by
    rw [pagingInit, cr3Read_address hroot hlt, Checked.add_of_lt hfits, Nat.add_comm]
  have hsum : (bootInfo.physicalMemoryOffset + table.pml4t) % 4096 = 0 := by omega
  rw [atOffset] at h
  simp only [kernelInit, hadd, Checked.ok_bind, hsum, dite_true, h, Checked.pure_eq_ok]
  rfl

/-! ## The frames of the two allocators -/

section Frames

variable {D : Type} [MemoryRegion D] {allocator : BumpFrameAllocator D}
  {frame : PhysicalFrame .size4KiB}

theorem nthCall_of_getElem? {n : Nat}
    (h : (usableFrames (reachable allocator.memoryMap))[allocator.next + n]? = some frame) :
    FrameAllocator.nthCall n allocator = .ok (some frame) := by
  induction n generalizing allocator with
  | zero => exact nthCall_zero (allocateFrame_of_some h)
  | succ n ih =>
      obtain ⟨hlt, -⟩ := List.getElem?_eq_some_iff.mp h
      have hfirst := allocateFrame_of_some (List.getElem?_eq_getElem
        (show allocator.next < (usableFrames (reachable allocator.memoryMap)).length by omega))
      rw [nthCall_succ hfirst]
      refine ih ?_
      change (usableFrames (reachable allocator.memoryMap))[allocator.next + 1 + n]? = some frame
      rw [← h]
      congr 1
      omega

theorem mem_handedOut_of_used {used : PhysicalFrame .size4KiB → Prop}
    (hfresh : ReturnsFresh used allocator) (hused : used frame)
    (hframe : frame ∈ usableFrames (reachable allocator.memoryMap)) :
    frame ∈ allocator.handedOut := by
  obtain ⟨i, hget⟩ := List.mem_iff_getElem?.mp hframe
  rw [mem_handedOut]
  by_cases hlt : i < allocator.next
  · exact ⟨i, hlt, hget⟩
  · obtain ⟨n, rfl⟩ := Nat.exists_eq_add_of_le (Nat.le_of_not_lt hlt)
    exact absurd hused (hfresh n frame (nthCall_of_getElem? hget)).2.1

theorem end_mem {regions : List D} {ends : List Nat} {region : D}
    (h : regions.mapM endAddress = .ok ends) (hregion : region ∈ regions) :
    start region + size region ∈ ends := by
  induction regions generalizing ends with
  | nil => cases hregion
  | cons first rest ih =>
      rw [List.mapM_cons] at h
      obtain ⟨last, hfirst, h⟩ := Checked.bind_eq_ok.mp h
      obtain ⟨others, hrest, h⟩ := Checked.bind_eq_ok.mp h
      obtain rfl := Except.ok.inj h
      cases hregion with
      | head =>
          rw [← (endAddress_eq_ok.mp hfirst).2]
          exact List.mem_cons_self
      | tail _ hmem => exact List.mem_cons_of_mem _ (ih hrest hmem)

theorem end_le_maxPhysicalAddress {highest : Nat} {region : D}
    (h : allocator.maxPhysicalAddress = .ok highest) (hregion : region ∈ allocator.memoryMap) :
    start region + size region ≤ highest := by
  obtain ⟨ends, hends, hmax⟩ := Checked.bind_eq_ok.mp h
  exact (List.max?_eq_some_iff.mp (Checked.unwrap_eq_ok.mp hmax)).2 _ (end_mem hends hregion)

end Frames

section HandOver

variable {info : BiosInfo} {handOver : HandOver} {frame : PhysicalFrame .size4KiB}
  {allocator before : BumpFrameAllocator E820MemoryRegion} {highest : Nat}

theorem Stage4Map.end_le (h : Stage4Map info) (halloc : stage4Allocator info = .ok allocator)
    (hhighest : allocator.maxPhysicalAddress = .ok highest) {region : E820MemoryRegion}
    (hregion : region ∈ info.memoryMap) : start region + size region ≤ highest := by
  obtain ⟨first, -, hnew⟩ := Checked.bind_eq_ok.mp halloc
  cases newStartingAt_cases hnew with
  | inr hnone =>
      rw [hnone.2] at hhighest
      cases hhighest
  | inl hfound =>
      obtain ⟨skipped, found, after, hmap, hskipped, hcontains, -, rfl⟩ := hfound
      have hsorted := h.sorted
      unfold SortedRegions at hsorted
      rw [hmap, List.pairwise_append] at hsorted
      obtain ⟨hlow, hhigh⟩ := (contains_eq_true.mp hcontains).2
      have hmoved := end_le_maxPhysicalAddress hhighest List.mem_cons_self
      rw [start_setStart, size_setStart] at hmoved
      rw [hmap, List.mem_append, List.mem_cons] at hregion
      rcases hregion with hbefore | rfl | hafter
      · have hle := hsorted.2.2 region hbefore found List.mem_cons_self
        cases contains_eq_false.mp (hskipped region hbefore) with
        | inl hlt => omega
        | inr hend => omega
      · omega
      · exact end_le_maxPhysicalAddress hhighest (List.mem_cons_of_mem _ hafter)

def KernelKept (handOver : HandOver) (frame : PhysicalFrame .size4KiB) : Prop :=
  frame ∉ usableFrames (reachable handOver.bootInfo.memoryRegions)

theorem SafeHandOff.kept (h : SafeHandOff info handOver)
    (huse : InUse info handOver.machine.allocator frame) : KernelKept handOver frame := by
  intro hframe
  obtain ⟨calls, hmem⟩ := exists_mem_returned.mpr hframe
  exact h frame huse calls hmem

theorem StartRun.kernelFrame (h : StartRun info before handOver) (hmap : Stage4Map info)
    (hframe : ¬ KernelKept handOver frame) :
    ∃ region ∈ info.memoryMap, FrameInside frame region := by
  obtain ⟨region, hregion, -, -, hinside, -⟩ := (h.exists_returned_iff hmap.sorted hmap.aligned).mp
    (exists_mem_returned.mpr (not_not.mp hframe))
  exact ⟨region, hregion, hinside⟩

theorem freePart_inside {bootInfoFrame : PhysicalFrame .size4KiB} {region : E820MemoryRegion}
    {free : PhysicalMemoryRegion} (haligned : PageAligned region)
    (hinside : SplitsInside bootInfoFrame region) (hfree : free ∈ freePart bootInfoFrame region) :
    PageAligned free ∧ ∀ byte, Holds free byte → Holds region byte := by
  have hboot : bootInfoFrame.address % 4096 = 0 := bootInfoFrame.aligned
  unfold freePart at hfree
  split at hfree
  case isFalse => cases hfree
  case isTrue husable =>
    split at hfree
    case isFalse =>
      obtain rfl := List.mem_singleton.mp hfree
      exact ⟨haligned, fun _ => id⟩
    case isTrue hreach =>
      have hle := hinside husable.1 husable.2 hreach
      split at hfree
      case isTrue => cases hfree
      case isFalse =>
        obtain rfl := List.mem_singleton.mp hfree
        obtain ⟨hlow, -⟩ := hreach
        unfold PageAligned Holds at *
        simp only [MemoryRegion.start, MemoryRegion.size, PageSize.size] at *
        refine ⟨by omega, fun byte hbyte => by omega⟩

theorem pairwise_freePart (bootInfoFrame : PhysicalFrame .size4KiB) (region : E820MemoryRegion)
    (r : PhysicalMemoryRegion → PhysicalMemoryRegion → Prop) :
    (freePart bootInfoFrame region).Pairwise r := by
  unfold freePart
  split
  · split
    · split
      · exact .nil
      · exact List.pairwise_singleton _ _
    · exact List.pairwise_singleton _ _
  · exact .nil

theorem StartRun.kernelFrames_nodup (h : StartRun info before handOver) (hmap : Stage4Map info) :
    (usableFrames (reachable handOver.bootInfo.memoryRegions)).Nodup := by
  obtain ⟨newRegions, hbuild, hregions⟩ := h.regions
  obtain ⟨hfree, hinside⟩ := buildMemoryMap_free hbuild
  rw [← hregions] at hfree
  have hsub : (reachable handOver.bootInfo.memoryRegions).Sublist handOver.bootInfo.memoryRegions :=
    List.takeWhile_sublist _
  have hpart := hsub.filter (isUsable ·)
  rw [hfree] at hpart
  have hdisjoint : DisjointRegions (info.memoryMap.flatMap (freePart handOver.bootInfoFrame)) := by
    refine List.pairwise_flatMap.mpr ⟨fun region _ => ?_, ?_⟩
    · exact pairwise_freePart _ region _
    · refine hmap.disjoint.imp_of_mem fun {a b} ha hb hapart x hx y hy byte hbyte hbyte' => ?_
      exact hapart byte ((freePart_inside (hmap.aligned a ha) (hinside a ha) hx).2 byte hbyte)
        ((freePart_inside (hmap.aligned b hb) (hinside b hb) hy).2 byte hbyte')
  have hnodup := @usableFrames_nodup _ _ ((reachable handOver.bootInfo.memoryRegions).filter
    (isUsable ·)) (hdisjoint.sublist hpart) fun free hmem _ _ => by
      obtain ⟨region, hregion, hin⟩ := List.mem_flatMap.mp (hpart.subset hmem)
      exact (freePart_inside (hmap.aligned region hregion) (hinside region hregion) hin).1
  simpa only [usableFrames, List.filter_filter, Bool.and_self] using hnodup

theorem StartRun.kernel_fresh (h : StartRun info before handOver) (hmap : Stage4Map info) :
    ReturnsFresh (KernelKept handOver) (new handOver.bootInfo.memoryRegions) := by
  refine returnsFresh (h.kernelFrames_nodup hmap) fun frame hframe => ?_
  have hnot : ¬ KernelKept handOver frame := not_not.mpr hframe
  obtain ⟨region, hregion, -, hhigh⟩ := h.kernelFrame hmap hnot
  have hbelow := hmap.below region hregion
  exact ⟨by omega, hnot⟩

end HandOver

/-! ## What the kernel finds -/

/-- The last step of stage 4 and what it has left. The memory `m` differs only where small pages
lead, which the kernel may have written to. -/
structure KernelEntry (build : Stage4Build) (info : BiosInfo) (elf : ElfBinary)
    (memory : ByteMemory) (handOver : HandOver) (allocator : BumpFrameAllocator E820MemoryRegion)
    (table : MappedPageTable PhysicalOffset) (gdtFrame : PhysicalFrame .size4KiB)
    (tables used tables' used' : PhysicalFrame .size4KiB → Prop) (highest : Nat)
    (s : Machine (BumpFrameAllocator E820MemoryRegion)) (m : ByteMemory) : Prop where
  ready : Stage4Ready build info elf memory
  halloc : stage4Allocator info = .ok allocator
  sameMap : handOver.machine.allocator.memoryMap = allocator.memoryMap
  maximum : allocator.maxPhysicalAddress = .ok highest
  step : LastStep table (Stage4Kept allocator) tables used highest s handOver.machine
  mapped : Stage4Mapped build info elf memory allocator table gdtFrame handOver.bootInfoFrame
    handOver.bootInfo s.memory
  grown : Extends (completeSizes smallPages physicalMemoryOffset highest) table tables used
    tables' used' s handOver.machine
  filled : FillsPages (completeSizes smallPages physicalMemoryOffset highest) table
    (offsetPage physicalMemoryOffset) largeEntry (highest / 2 ^ 21 + 1) s.memory
    handOver.machine.memory
  started : ∃ before, StartRun info before handOver
  safe : SafeHandOff info handOver
  writes : ∀ y, (∀ x rights, ¬ LeadsTo table s.memory x y rights) →
    m y = handOver.machine.memory y

namespace KernelEntry

variable {build : Stage4Build} {info : BiosInfo} {elf : ElfBinary} {memory m : ByteMemory}
  {handOver : HandOver} {allocator : BumpFrameAllocator E820MemoryRegion}
  {table : MappedPageTable PhysicalOffset} {gdtFrame : PhysicalFrame .size4KiB}
  {tables used tables' used' : PhysicalFrame .size4KiB → Prop} {highest : Nat}
  {s : Machine (BumpFrameAllocator E820MemoryRegion)} {frame : PhysicalFrame .size4KiB}
  {x location : Nat} {rights : Rights}

variable (h : KernelEntry build info elf memory handOver allocator table gdtFrame tables used
  tables' used' highest s m)
include h

theorem sameTables {y : Nat} (hy : InTables table tables' y) : m y = handOver.machine.memory y := by
  refine h.writes y fun x rights hleads => ?_
  obtain ⟨frame, flags, hmaps, rfl, -⟩ := hleads
  exact (h.grown.holdsData (h.step.placement.data _ _ _ hmaps)).not_inTables h.step.identity
    (Nat.mod_lt _ (Nat.succ_pos _)) hy

theorem wellFormed :
    WellFormed (completeSizes smallPages physicalMemoryOffset highest) table tables' m :=
  h.grown.separate.toWellFormed.congr fun _ hy => h.sameTables hy

theorem pageEntry_eq {S : PageSize} {page : Page S}
    (hfits : page.Fits (completeSizes smallPages physicalMemoryOffset highest)) :
    table.pageEntry m page = table.pageEntry handOver.machine.memory page :=
  h.grown.separate.toWellFormed.dataAt_congr (fun _ hy => h.sameTables hy)
    hfits.interior_tablePath _

theorem isPageEntry {S : PageSize} (hcanonical : Canonical x)
    (hsize : completeSizes smallPages physicalMemoryOffset highest (slotOf x) = S) :
    IsPageEntry S (table.pageEntry m (.containingAddress S x)) := by
  rw [h.pageEntry_eq (containingAddress_fits hsize)]
  by_cases hin : InWindow physicalMemoryOffset highest x
  · obtain rfl : PageSize.size2MiB = S := (if_pos hin).symm.trans hsize
    obtain ⟨p, hp, rfl⟩ := hin.exists_offset h.step.range hcanonical
    have hfits := h.step.range.fits
    rw [h.filled.large_entry h.step.range.aligned hp]
    exact isPageEntry_largeEntry (by omega)
  · obtain rfl : PageSize.size4KiB = S := (if_neg hin).symm.trans hsize
    rw [h.filled.small_entry hin]
    exact h.step.entries _

theorem walk_eq (x : Nat) :
    mmuWalk m table.pml4t x = mmuWalk handOver.machine.memory table.pml4t x :=
  h.step.walk_congr h.writes x

/-! ### Frames -/

/-- A frame that stage 4 has taken is not allocated again, and is seen in the window. -/
theorem kept_of_taken (hnew : ¬ Stage4Kept allocator frame) (hused : used' frame) :
    KernelKept handOver frame ∧ FrameSeen highest frame := by
  have hframe := not_not.mp hnew
  constructor
  · refine h.safe.kept (.inl (mem_handedOut_of_used h.grown.separate.fresh hused ?_))
    rw [h.sameMap]
    exact hframe
  · obtain ⟨region, hregion, hlow, hhigh⟩ := h.ready.map.region_of_frame h.halloc hframe
    have hend := end_le_maxPhysicalAddress h.maximum hregion
    unfold FrameSeen
    omega

theorem table_new (htable : tables' frame ∨ frame.address = table.pml4t) :
    ¬ Stage4Kept allocator frame := by
  intro hkept
  have hdata := h.grown.holdsData (h.step.placement.held frame hkept)
  cases htable with
  | inl htable => exact hdata.notTable htable
  | inr hroot => exact hdata.notRoot hroot

theorem tablesSeen : TablesSeen (completeSizes smallPages physicalMemoryOffset highest) table
    tables' (KernelKept handOver) physicalMemoryOffset highest m where
  identity := h.step.identity
  aligned := by decide
  fits := by decide
  below := by
    have hfits := h.step.range.fits
    omega
  wellFormed := h.wellFormed
  root := by
    intro frame hroot
    refine h.kept_of_taken (h.table_new (.inr hroot)) (h.grown.separate.root_used frame ?_)
    have hbounds := h.ready.map.frame_bounds h.halloc (h.table_new (.inr hroot))
    exact (frameToVirtual_eq_ok h.step.identity).mpr ⟨by omega, hroot.symm⟩
  tables := fun frame htable =>
    h.kept_of_taken (h.table_new (.inl htable)) (h.grown.separate.tables_used frame htable)
  free := by
    intro frame hfree
    obtain ⟨before, hstarted⟩ := h.started
    obtain ⟨region, hregion, hlow, hhigh⟩ := hstarted.kernelFrame h.ready.map hfree
    have hend := h.ready.map.end_le h.halloc h.maximum hregion
    unfold FrameSeen
    omega

theorem root_lt : table.pml4t < 2 ^ 46 := by
  have hnew : ¬ Stage4Kept allocator ⟨table.pml4t, table.aligned⟩ := h.table_new (.inr rfl)
  obtain ⟨-, hbelow⟩ := h.ready.map.frame_bounds h.halloc hnew
  change table.pml4t + 4096 ≤ 2 ^ 46 at hbelow
  omega

/-- The frame behind an address holds no table, and is not allocated again. -/
theorem own_kept (hcanonical : Canonical x) (hleads : LeadsTo table s.memory x location rights)
    (hswitch : x / 4096 ≠ build.contextSwitch / 4096) :
    HoldsData table tables' used' (.containingAddress .size4KiB location) ∧
      KernelKept handOver (.containingAddress .size4KiB location) := by
  have hown := h.mapped.own h.ready hcanonical hleads hswitch
  obtain ⟨frame, flags, hmaps, rfl, -⟩ := hleads
  rw [frame.containingAddress_byte] at hown ⊢
  have hdata := h.grown.holdsData (h.step.placement.data _ _ _ hmaps)
  refine ⟨hdata, ?_⟩
  cases hown with
  | inl hnew => exact (h.kept_of_taken hnew hdata.isUsed).1
  | inr himage => exact h.safe.kept (.inr ⟨by omega, himage.2⟩)

/-! ### The pages of the heap -/

theorem heap_not_leadsTo (hlow : heapStart ≤ x) (hhigh : x < 2 ^ 47) :
    ¬ LeadsTo table s.memory x location rights := by
  intro hleads
  have hswitch := h.mapped.switchBelow
  have hgdt := h.mapped.gdtBelow
  have hboot := h.mapped.bootInfoBelow
  unfold heapStart at hlow
  rcases h.mapped.region_of_leadsTo h.ready (.inl hhigh) hleads with
    ⟨header, hheader, k, hk, hpage⟩ | hx | hx | hx | hx
  · have hstart : (stage4Loader info table).firstPage header =
        (kernelVirtualBase + header.virtualAddr) / 4096 := rfl
    rw [hstart, kernelVirtualBase] at hpage
    omega
  · unfold OnStack kernelStackTop kernelStackSize at hx
    omega
  · omega
  · omega
  · omega

theorem heap_absent (hsmall : completeSizes smallPages physicalMemoryOffset highest
      (slotOf heapStart) = .size4KiB) {k : Nat} (hk : k ≤ heapPages) :
    PageTableEntry.isPresent (table.pageEntry m (heapPage k)) = false := by
  have hfits := heapPage_fits hsmall hk
  have hsizes : PageSize.size4KiB ≠ PageSize.size2MiB := by decide
  rw [h.pageEntry_eq hfits, h.filled.others _ hfits fun _ _ halias => hsizes halias.1]
  cases h.step.entries (heapPage k) with
  | inl hunused =>
      rw [hunused]
      decide
  | inr hmapped =>
      obtain ⟨frame, flags, hlt, hentry⟩ := hmapped
      rw [hentry, PageTableEntry.isPresent_setAddress frame.aligned hlt]
      cases hpresent : flags.contains .present with
      | false => exact hpresent
      | true =>
          have hpage : heapPage k = smallPage ((heapStart + k * 4096) / 4096) :=
            containingAddress_eq_smallPage _
          have hmaps : MapsTo table s.memory (smallPage ((heapStart + k * 4096) / 4096)) frame
              flags := by
            rw [← hpage]
            exact ⟨hlt, hpresent, hentry⟩
          unfold heapPages at hk
          refine absurd ⟨frame, flags, hmaps, rfl, rfl⟩ (h.heap_not_leadsTo ?_ ?_)
          · omega
          · unfold heapStart
            omega

end KernelEntry

/-! ## The address space with the heap -/

def InHeapPages (x : Nat) : Prop := heapStart ≤ x ∧ x < heapStart + heapSize + 4096

structure HeapSpace (build : Stage4Build) (root highest : Nat) (m m' : ByteMemory) : Prop where
  others : ∀ x, ¬ InHeapPages x → mmuWalk m' root x = mmuWalk m root x
  /-- The bytes of the image, the stack and what was handed over are the same. -/
  bytes : ∀ x location rights, mmuWalk m root x = some (location, rights) →
    ¬ InWindow physicalMemoryOffset highest x → x / 4096 ≠ build.contextSwitch / 4096 →
      m' location = m location
  heap : ∀ x, InHeap x → ∃ location, mmuWalk m' root x = some (location, ⟨true, false, false⟩)
  /-- A byte of the heap is seen at no other address but that in the range of all memory. The
  code of `context_switch` is not needed any more. -/
  heapOwn : ∀ x, InHeap x → ∀ location rights, mmuWalk m' root x = some (location, rights) →
    ∀ y rights', mmuWalk m' root y = some (location, rights') →
      y = x ∨ y = physicalMemoryOffset + location ∨ y / 4096 = build.contextSwitch / 4096
  /-- Writing to the heap changes no translation. -/
  heapFree : ∀ m'' : ByteMemory,
    (∀ y, (∀ x rights, InHeap x → mmuWalk m' root x ≠ some (y, rights)) → m'' y = m' y) →
      ∀ x, mmuWalk m'' root x = mmuWalk m' root x
  guard : ∀ x, InHeapPages x → ¬ InHeap x → mmuWalk m' root x = none

theorem InHeap.inHeapPages {x : Nat} (h : InHeap x) : InHeapPages x :=
  ⟨h.1, Nat.lt_add_right 4096 h.2⟩

theorem InHeapPages.page_lt {x : Nat} (h : InHeapPages x) :
    (x - heapStart) / 4096 < heapPages + 1 := by
  unfold InHeapPages heapSize at h
  unfold heapPages
  omega

theorem InHeapPages.canonical {x : Nat} (h : InHeapPages x) : Canonical x := by
  unfold InHeapPages heapStart heapSize at h
  unfold Canonical
  omega

theorem InHeapPages.slot {x : Nat} (h : InHeapPages x) : slotOf x = slotOf heapStart := by
  unfold InHeapPages heapSize at h
  unfold slotOf
  unfold heapStart at h ⊢
  omega

/-- A page outside has none of the entries that `init_heap` writes. -/
theorem not_aliases_heapPage {S : PageSize} {x j : Nat} (hcanonical : Canonical x)
    (hx : ¬ InHeapPages x) (hj : j < heapPages + 1) :
    ¬ (Page.containingAddress S x).Aliases (heapPage j) := by
  rintro ⟨rfl, haddress⟩
  rw [heapPage_address, Page.containingAddress_address, PageSize.size, alignDown_eq_mul] at haddress
  apply hx
  unfold Canonical at hcanonical
  unfold heapPages at hj
  unfold InHeapPages heapSize
  unfold heapStart at haddress ⊢
  omega

namespace HeapPlaced

variable {sizes : Nat → PageSize} {table : MappedPageTable PhysicalOffset}
  {tables used tables' : PhysicalFrame .size4KiB → Prop}
  {frames : Nat → PhysicalFrame .size4KiB} {m m' : ByteMemory} {x y : Nat}

variable (h : HeapPlaced sizes table tables used tables' frames m m')
include h

theorem entry_other {S : PageSize} (hcanonical : Canonical x) (hx : ¬ InHeapPages x)
    (hsize : sizes (slotOf x) = S) :
    table.pageEntry m' (.containingAddress S x) = table.pageEntry m (.containingAddress S x) :=
  h.filled.others _ (containingAddress_fits hsize) fun _ hj =>
    not_aliases_heapPage hcanonical hx hj

theorem entry_heap (hx : InHeapPages x) :
    table.pageEntry m' (.containingAddress .size4KiB x) =
        .setAddress (frames ((x - heapStart) / 4096)).address
          (heapPageFlags ((x - heapStart) / 4096)) ∧
      IsPageEntry .size4KiB (table.pageEntry m' (.containingAddress .size4KiB x)) := by
  have hentry := h.filled.entries _ hx.page_lt
  rw [← containingAddress_heap hx.1] at hentry
  exact ⟨hentry, .inr ⟨_, _, h.lt _ hx.page_lt, hentry⟩⟩

/-- Different addresses of the heap lie at different places. -/
theorem heap_injective (hx : InHeap x) (hy : InHeap y)
    (hlocation : (frames ((x - heapStart) / 4096)).address + x % 4096 =
      (frames ((y - heapStart) / 4096)).address + y % 4096) : x = y := by
  have hxa : (frames ((x - heapStart) / 4096)).address % 4096 = 0 := PhysicalFrame.aligned _
  have hya : (frames ((y - heapStart) / 4096)).address % 4096 = 0 := PhysicalFrame.aligned _
  have hframes : frames ((x - heapStart) / 4096) = frames ((y - heapStart) / 4096) :=
    PhysicalFrame.ext (by omega)
  have hmod : x % 4096 = y % 4096 := by omega
  have hpages : (x - heapStart) / 4096 = (y - heapStart) / 4096 := by
    rcases Nat.lt_trichotomy ((x - heapStart) / 4096) ((y - heapStart) / 4096) with hlt | heq | hgt
    · exact absurd hframes (h.distinct _ hy.inHeapPages.page_lt _ hlt)
    · exact heq
    · exact absurd hframes.symm (h.distinct _ hx.inHeapPages.page_lt _ hgt)
  have hlow := hx.1
  have hlow' := hy.1
  unfold heapStart at hpages hlow hlow'
  omega

variable (hzero : table.mapping.offset = 0) (hsmall : sizes (slotOf heapStart) = .size4KiB)
include hsmall

theorem isPageEntry {S : PageSize} (hcanonical : Canonical x) (hsize : sizes (slotOf x) = S)
    (hentry : IsPageEntry S (table.pageEntry m (.containingAddress S x))) :
    IsPageEntry S (table.pageEntry m' (.containingAddress S x)) := by
  by_cases hx : InHeapPages x
  · rw [hx.slot, hsmall] at hsize
    obtain rfl := hsize
    exact (h.entry_heap hx).2
  · rw [h.entry_other hcanonical hx hsize]
    exact hentry

include hzero

theorem walk_heap (hx : InHeap x) : mmuWalk m' table.pml4t x =
    some ((frames ((x - heapStart) / 4096)).address + x % 4096, ⟨true, false, false⟩) := by
  have hpages := hx.inHeapPages
  obtain ⟨hentry, hpage⟩ := h.entry_heap hpages
  rw [h.wellFormed.mmuWalk_eq hzero hpages.canonical (by rw [hpages.slot, hsmall]) hpage, hentry,
    heapPageFlags_of_lt hx.page_lt, decode_setAddress (h.lt _ hpages.page_lt) (by decide)]
  rfl

theorem walk_guard (hx : InHeapPages x) (hguard : ¬ InHeap x) :
    mmuWalk m' table.pml4t x = none := by
  obtain ⟨hentry, hpage⟩ := h.entry_heap hx
  have hlast : (x - heapStart) / 4096 = heapPages := by
    unfold InHeapPages at hx
    unfold InHeap at hguard
    unfold heapSize at hx hguard
    unfold heapPages
    omega
  have hlt := h.lt _ (Nat.lt_succ_self heapPages)
  rw [h.wellFormed.mmuWalk_eq hzero hx.canonical (by rw [hx.slot, hsmall]) hpage, hentry, hlast,
    heapPageFlags_guard, decode, PageTableEntry.isPresent_setAddress (frames heapPages).aligned hlt]
  rfl

end HeapPlaced

namespace KernelEntry

variable {build : Stage4Build} {info : BiosInfo} {elf : ElfBinary} {memory m m' : ByteMemory}
  {handOver : HandOver} {allocator : BumpFrameAllocator E820MemoryRegion}
  {table : MappedPageTable PhysicalOffset} {gdtFrame : PhysicalFrame .size4KiB}
  {tables used tables' used' tables'' : PhysicalFrame .size4KiB → Prop} {highest : Nat}
  {s : Machine (BumpFrameAllocator E820MemoryRegion)} {frames : Nat → PhysicalFrame .size4KiB}
  {x location : Nat} {rights : Rights}

variable (h : KernelEntry build info elf memory handOver allocator table gdtFrame tables used
    tables' used' highest s m)
  (hplaced : HeapPlaced (completeSizes smallPages physicalMemoryOffset highest) table tables'
    (KernelKept handOver) tables'' frames m m')
include h

theorem leadsTo_of_walk (hwalk : mmuWalk m table.pml4t x = some (location, rights))
    (hout : ¬ InWindow physicalMemoryOffset highest x) :
    Canonical x ∧ LeadsTo table s.memory x location rights := by
  rw [h.walk_eq] at hwalk
  refine ⟨canonical_of_walk (by rw [hwalk]; exact Option.some_ne_none _), ?_⟩
  exact h.step.leadsTo_of_walk hout hwalk

include hplaced

theorem heapBytes (hwalk : mmuWalk m table.pml4t x = some (location, rights))
    (hout : ¬ InWindow physicalMemoryOffset highest x)
    (hswitch : x / 4096 ≠ build.contextSwitch / 4096) : m' location = m location := by
  obtain ⟨hcanonical, hleads⟩ := h.leadsTo_of_walk hwalk hout
  obtain ⟨hdata, hkept⟩ := h.own_kept hcanonical hleads hswitch
  obtain ⟨frame, flags, hmaps, rfl, -⟩ := hleads
  rw [frame.containingAddress_byte] at hdata hkept
  have hdata' : HoldsData table tables'' (KernelKept handOver) frame := by
    refine ⟨hkept, fun htable => ?_, hdata.notRoot⟩
    exact (hplaced.tables_new frame htable).elim hdata.notTable fun hnew => hnew hkept
  exact hplaced.outside _ (hdata'.not_inTables h.step.identity (Nat.mod_lt _ (Nat.succ_pos _)))

theorem heapSpace (hsmall : completeSizes smallPages physicalMemoryOffset highest
      (slotOf heapStart) = .size4KiB) :
    HeapSpace build table.pml4t highest m m' := by
  have hwalk := fun {x} => @hplaced.walk_heap _ _ _ _ _ _ _ _ x h.step.identity hsmall
  have hothers : ∀ x, ¬ InHeapPages x → mmuWalk m' table.pml4t x = mmuWalk m table.pml4t x := by
    intro x hx
    by_cases hcanonical : Canonical x
    · exact h.wellFormed.mmuWalk_of_entry hplaced.wellFormed h.step.identity hcanonical rfl
        (h.isPageEntry hcanonical rfl) (hplaced.entry_other hcanonical hx rfl)
    · rw [mmuWalk, mmuWalk, if_neg hcanonical, if_neg hcanonical]
  constructor
  case others => exact hothers
  case bytes =>
    intro x location rights hlocation hout hswitch
    exact h.heapBytes hplaced hlocation hout hswitch
  case heap => exact fun x hx => ⟨_, hwalk hx⟩
  case guard => exact fun x hx hguard => hplaced.walk_guard h.step.identity hsmall hx hguard
  case heapOwn =>
    intro x hx location rights hlocation y rights' hlocation'
    rw [hwalk hx] at hlocation
    obtain ⟨rfl, -⟩ := Prod.mk.inj (Option.some.inj hlocation)
    by_cases hy : InHeapPages y
    · by_cases hyheap : InHeap y
      · rw [hwalk hyheap] at hlocation'
        obtain ⟨hsame, -⟩ := Prod.mk.inj (Option.some.inj hlocation')
        exact .inl (hplaced.heap_injective hyheap hx hsame)
      · rw [hplaced.walk_guard h.step.identity hsmall hy hyheap] at hlocation'
        cases hlocation'
    · rw [hothers y hy] at hlocation'
      by_cases hin : InWindow physicalMemoryOffset highest y
      · rw [h.walk_eq] at hlocation'
        have hcanonical := canonical_of_walk (by rw [hlocation']; exact Option.some_ne_none _)
        obtain ⟨p, hp, rfl⟩ := hin.exists_offset h.step.range hcanonical
        rw [mmuWalk_physical h.step.placement.separate h.step.identity h.step.range h.step.run hp]
          at hlocation'
        obtain ⟨rfl, -⟩ := Prod.mk.inj (Option.some.inj hlocation')
        exact .inr (.inl rfl)
      · by_cases hswitch : y / 4096 = build.contextSwitch / 4096
        · exact .inr (.inr hswitch)
        · -- the frame of any other address is in use, and the heap's frames are new
          obtain ⟨hcanonical, hleads⟩ := h.leadsTo_of_walk hlocation' hin
          have hkept := (h.own_kept hcanonical hleads hswitch).2
          rw [PhysicalFrame.containingAddress_byte] at hkept
          exact absurd hkept (hplaced.new _ hx.inHeapPages.page_lt)
  case heapFree =>
    intro m'' hsame x
    have htables : ∀ y, InTables table tables'' y → m'' y = m' y := by
      intro y hy
      refine hsame y fun x rights hx hlocation => ?_
      rw [hwalk hx] at hlocation
      obtain ⟨rfl, -⟩ := Prod.mk.inj (Option.some.inj hlocation)
      exact hplaced.apart _ hx.inHeapPages.page_lt _ (Nat.mod_lt _ (Nat.succ_pos _)) hy
    by_cases hcanonical : Canonical x
    · exact hplaced.wellFormed.mmuWalk_congr h.step.identity htables hcanonical rfl
        (hplaced.isPageEntry hsmall hcanonical rfl (h.isPageEntry hcanonical rfl))
    · rw [mmuWalk, mmuWalk, if_neg hcanonical, if_neg hcanonical]

end KernelEntry

/-! ## From stage 4 to the heap -/

theorem Stage4Ready.kernelEntry {build : Stage4Build} {info : BiosInfo} {elf : ElfBinary}
    {memory m : ByteMemory} {handOver : HandOver} {highest : Nat}
    (h : Stage4Ready build info elf memory)
    (hrun : Stage4.start build info memory = .ok handOver) (hsafe : SafeHandOff info handOver)
    (hhighest : handOver.machine.allocator.maxPhysicalAddress = .ok highest)
    (hwrites : ∀ y, (∀ x rights, mmuWalk handOver.machine.memory handOver.pageTable x =
        some (y, rights) → rights.writable = true → InWindow physicalMemoryOffset highest x) →
      m y = handOver.machine.memory y) :
    handOver.bootInfo.physicalMemoryOffset = physicalMemoryOffset ∧
      ∃ allocator table gdtFrame tables used tables' used' s, handOver.pageTable = table.pml4t ∧
        KernelEntry build info elf memory handOver allocator table gdtFrame tables used tables'
          used' highest s m := by
  obtain ⟨allocator, table, gdtFrame, tables, used, highest', s, halloc, hroot, -, -, hoffset, hmap,
    hmaximum, hstep, hmapped⟩ := h.lastStep hrun
  obtain rfl : highest = highest' := Except.ok.inj (hhighest.symm.trans hmaximum)
  obtain ⟨tables', used', hextends, hfilled⟩ :=
    mapComplete_extends hstep.placement.separate hstep.range hstep.run
  obtain ⟨_, _, _, _, before, -, -, hstarted⟩ := Stage4.start_eq_ok hrun
  rw [hroot] at hwrites
  refine ⟨hoffset, allocator, table, gdtFrame, tables, used, tables', used', s, hroot,
    ⟨h, halloc, hmap, ?_, hstep, hmapped, hextends, hfilled, ⟨_, hstarted⟩, hsafe,
      fun y hnone => hwrites y fun x rights hwalk _ => ?_⟩⟩
  · rw [← maxPhysicalAddress_congr hmap]
    exact hmaximum
  · by_contra hout
    exact hnone x rights (hstep.leadsTo_of_walk hout hwalk)

/-- After a safe hand-off `kernel_init` returns when there are four frames for each page of the
heap, whatever the kernel has written to its own pages before. The processor then finds the
heap in frames of its own, everything else where it was, and no block of the heap elsewhere. -/
theorem kernelInit_addsHeap (build : Stage4Build) (info : BiosInfo) (elf : ElfBinary)
    (memory : ByteMemory) (hready : Stage4Ready build info elf memory) (handOver : HandOver)
    (hrun : Stage4.start build info memory = .ok handOver) (hsafe : SafeHandOff info handOver)
    (highest : Nat) (hhighest : handOver.machine.allocator.maxPhysicalAddress = .ok highest)
    (hwindow : (physicalMemoryOffset + highest) / 2 ^ 21 < heapStart / 2 ^ 21)
    (hframes : (heapPages + 1) * 4 ≤
      (usableFrames (reachable handOver.bootInfo.memoryRegions)).length)
    (m : ByteMemory)
    (hwrites : ∀ y, (∀ x rights, mmuWalk handOver.machine.memory handOver.pageTable x =
        some (y, rights) → rights.writable = true → InWindow physicalMemoryOffset highest x) →
      m y = handOver.machine.memory y)
    (view : ByteMemory) (hview : SeesMemory physicalMemoryOffset highest m view) :
    ∃ heap table s, kernelInit handOver.pageTable handOver.bootInfo view = .ok (heap, table, s) ∧
      (∀ m', SeesMemory physicalMemoryOffset highest m' s.memory →
        (∀ p, highest / 2 ^ 21 < p / 2 ^ 21 → m' p = m p) →
          HeapSpace build handOver.pageTable highest m m') ∧
      ∀ (ops : List HeapOp) (later : Heap), ops.foldlM Heap.step ⟨heap, []⟩ = some later →
        ∀ b ∈ later.live, ∀ i < b.layout.alignLayoutSize, InHeap (b.ptr + i) := by
  obtain ⟨hoffset, allocator, table, gdtFrame, tables, used, tables', used', s, hroot, h⟩ :=
    hready.kernelEntry hrun hsafe hhighest hwrites
  have hseen := h.tablesSeen
  have hsmall : completeSizes smallPages physicalMemoryOffset highest (slotOf heapStart) =
      .size4KiB := by
    refine if_neg fun hin => ?_
    have hslot : slotOf heapStart = heapStart / 2 ^ 21 := by decide
    omega
  obtain ⟨before, hstarted⟩ := h.started
  have hfresh := hstarted.kernel_fresh hready.map
  let start : Machine (BumpFrameAllocator PhysicalMemoryRegion) :=
    { memory := view, allocator := .new handOver.bootInfo.memoryRegions }
  have hseparate := @TablesSeen.separate _ _ _ _ _ _ _ _ _ start hseen hview hfresh
  have habsent : ∀ k ≤ heapPages, PageTableEntry.isPresent
      ((table.atOffset physicalMemoryOffset hseen.aligned).pageEntry view (heapPage k)) =
        false := by
    intro k hk
    rw [hseen.pageEntry_eq hview (heapPage_fits hsmall hk)]
    exact h.heap_absent hsmall hk
  have hsupply : Supplies _ start.allocator :=
    BumpFrameAllocator.supplies (Nat.le_of_eq (Nat.zero_add _))
  obtain ⟨heap, s', hcall⟩ := hseparate.initHeap_total (PhysicalOffset.disjointMapping _)
    (PhysicalOffset.totalMapping hseen.fits hseen.aligned) hsmall habsent hsupply hframes
  obtain ⟨-, -, -, -, -, -, hinit⟩ := initHeap_eq_ok.mp hcall
  refine ⟨heap, table.atOffset physicalMemoryOffset hseen.aligned, s', ?_,
    fun m' hview' hother => ?_,
    fun ops later hops b hb i hi => inHeap_of_live hinit hops hb hi⟩
  · have hlt := h.root_lt
    have hfits : table.pml4t + physicalMemoryOffset < 2 ^ 64 := by
      rw [physicalMemoryOffset]
      omega
    rw [hroot]
    exact kernelInit_of_initHeap hoffset hseen.aligned (by omega) hfits hcall
  · obtain ⟨tables'', frames, hplaced⟩ :=
      hseen.initHeap_placed hsmall hview hfresh hcall hview' hother
    rw [hroot]
    exact h.heapSpace hplaced hsmall

end MiniatureOs
