import MiniatureOs.Boot.Start
import MiniatureOs.Elf.Steps
import MiniatureOs.Frames.StartingAt

/-! # The allocator in stage 4

Every frame that stage 4 takes comes from one allocator, whose counter is the number
of calls made so far. No step replaces the map of the allocator or turns the counter
back, so the frames handed out in a run are those of the calls up to the final counter.
-/

namespace MiniatureOs

open MemoryRegion PageTableFrameMapping

variable {D : Type}

structure Advances (s s' : Machine (BumpFrameAllocator D)) : Prop where
  sameMap : s'.allocator.memoryMap = s.allocator.memoryMap
  next_le : s.allocator.next ≤ s'.allocator.next

variable {s s' s'' : Machine (BumpFrameAllocator D)} {m : ByteMemory}

theorem Advances.refl (s : Machine (BumpFrameAllocator D)) : Advances s s :=
  ⟨rfl, Nat.le_refl _⟩

theorem Advances.trans (h : Advances s s') (h' : Advances s' s'') : Advances s s'' :=
  ⟨h'.sameMap.trans h.sameMap, Nat.le_trans h.next_le h'.next_le⟩

theorem Advances.memory (h : Advances s s') (m : ByteMemory) :
    Advances s { s' with memory := m } :=
  ⟨h.sameMap, h.next_le⟩

theorem Advances.of_memory (h : Advances { s with memory := m } s') : Advances s s' :=
  ⟨h.sameMap, h.next_le⟩

variable {P : Type} [PageTableFrameMapping P] [MemoryRegion D] {table : MappedPageTable P}
  {message : String}

theorem allocateFrame_advances {result : Option (PhysicalFrame .size4KiB)}
    {allocator : BumpFrameAllocator D}
    (h : FrameAllocator.allocateFrame s.allocator = .ok (result, allocator)) (m : ByteMemory) :
    Advances s { memory := m, allocator } := by
  obtain ⟨frame, _, h⟩ := Checked.bind_eq_ok.mp h
  obtain ⟨_, rfl⟩ := Prod.mk.inj (Except.ok.inj h)
  exact ⟨rfl, Nat.le_succ _⟩

theorem expectFrame_advances {frame : PhysicalFrame .size4KiB}
    (h : expectFrame message s = .ok (frame, s')) : Advances s s' := by
  obtain ⟨allocator, halloc, rfl⟩ := expectFrame_eq_ok h
  exact allocateFrame_advances halloc s.memory

/-! ## The page table -/

theorem getOrAllocatePagetable_advances {mapping : P} {entry : Nat} {flags : PageTableEntryFlags}
    {result : Option Nat}
    (h : getOrAllocatePagetable mapping entry flags s = .ok (result, s')) : Advances s s' := by
  unfold getOrAllocatePagetable at h
  simp only at h
  split at h
  · obtain ⟨⟨frame, allocator⟩, halloc, h⟩ := Checked.bind_eq_ok.mp h
    cases frame with
    | none =>
        obtain ⟨-, rfl⟩ := Prod.mk.inj (Except.ok.inj h)
        exact allocateFrame_advances halloc s.memory
    | some frame =>
        obtain ⟨address, _, h⟩ := Checked.bind_eq_ok.mp h
        obtain ⟨memory, _, h⟩ := Checked.bind_eq_ok.mp h
        obtain ⟨-, rfl⟩ := Prod.mk.inj (Except.ok.inj h)
        exact allocateFrame_advances halloc memory
  · split at h
    · obtain ⟨address, _, h⟩ := Checked.bind_eq_ok.mp h
      obtain ⟨-, rfl⟩ := Prod.mk.inj (Except.ok.inj h)
      exact (Advances.refl s).memory _
    · obtain ⟨address, _, h⟩ := Checked.bind_eq_ok.mp h
      obtain ⟨-, rfl⟩ := Prod.mk.inj (Except.ok.inj h)
      exact Advances.refl s

theorem getOrAllocatePagetables_advances {mapping : P} {flags : PageTableEntryFlags} {t : Nat}
    {path : List (Fin 512)} {result : Option Nat}
    (h : getOrAllocatePagetables mapping flags t path s = .ok (result, s')) : Advances s s' := by
  induction path generalizing t s with
  | nil =>
      obtain ⟨-, rfl⟩ := Prod.mk.inj (Except.ok.inj h)
      exact Advances.refl s
  | cons i path ih =>
      obtain ⟨⟨next, s₁⟩, hnext, h⟩ := Checked.bind_eq_ok.mp h
      have hfirst := getOrAllocatePagetable_advances hnext
      cases next with
      | none =>
          obtain ⟨-, rfl⟩ := Prod.mk.inj (Except.ok.inj h)
          exact hfirst
      | some next => exact hfirst.trans (ih h)

theorem mapTo_advances {S : PageSize} {frame : PhysicalFrame S} {page : Page S}
    {flags : PageTableEntryFlags} {result : Except MappingError (TlbFlusher S)}
    (h : table.mapTo frame page flags s = .ok (result, s')) : Advances s s' := by
  obtain ⟨⟨last, s₁⟩, htables, h⟩ := Checked.bind_eq_ok.mp h
  have hadvances := getOrAllocatePagetables_advances htables
  cases last with
  | none =>
      obtain ⟨-, rfl⟩ := Prod.mk.inj (Except.ok.inj h)
      exact hadvances
  | some last =>
      simp only at h
      split at h
      · obtain ⟨-, rfl⟩ := Prod.mk.inj (Except.ok.inj h)
        exact hadvances
      · obtain ⟨-, rfl⟩ := Prod.mk.inj (Except.ok.inj h)
        exact hadvances.memory _

theorem expectMapTo_advances {S : PageSize} {frame : PhysicalFrame S} {page : Page S}
    {flags : PageTableEntryFlags}
    (h : table.expectMapTo message frame page flags s = .ok s') : Advances s s' := by
  obtain ⟨⟨result, s₁⟩, hmap, h⟩ := Checked.bind_eq_ok.mp h
  obtain ⟨_, _, h⟩ := Checked.bind_eq_ok.mp h
  obtain rfl := Except.ok.inj h
  exact mapTo_advances hmap

theorem expectIdentityMap_advances {frame : PhysicalFrame .size4KiB} {flags : PageTableEntryFlags}
    (h : table.expectIdentityMap message frame flags s = .ok s') : Advances s s' := by
  obtain ⟨⟨result, s₁⟩, hmap, h⟩ := Checked.bind_eq_ok.mp h
  obtain ⟨_, _, h⟩ := Checked.bind_eq_ok.mp h
  obtain rfl := Except.ok.inj h
  exact mapTo_advances hmap

omit [MemoryRegion D] in
theorem frameRange_advances {S : PageSize} {first last : PhysicalFrame S}
    {body : PhysicalFrame S → Machine (BumpFrameAllocator D) →
      Checked (Machine (BumpFrameAllocator D))}
    (hbody : ∀ frame s s', body frame s = .ok s' → Advances s s')
    (h : first.forRange last body s = .ok s') : Advances s s' :=
  rangeLoop_rel Advances.refl (fun _ _ _ => Advances.trans) (fun _ => hbody _) h

omit [MemoryRegion D] in
theorem pageRange_advances {S : PageSize} {first last : Page S}
    {body : Page S → Machine (BumpFrameAllocator D) → Checked (Machine (BumpFrameAllocator D))}
    (hbody : ∀ page s s', body page s = .ok s' → Advances s s')
    (h : first.forRange last body s = .ok s') : Advances s s' :=
  rangeLoop_rel Advances.refl (fun _ _ _ => Advances.trans) (fun _ => hbody _) h

/-! ## The kernel loader -/

section Loader

variable {loader : KernelLoader P} {flags : PageTableEntryFlags} {page : Page .size4KiB}
  {header : ProgramHeader}

theorem makeMutable_advances {frame : PhysicalFrame .size4KiB}
    (h : loader.makeMutable page s = .ok (frame, s')) : Advances s s' := by
  obtain ⟨translated, _, h⟩ := Checked.bind_eq_ok.mp h
  obtain ⟨⟨old, flags⟩, _, h⟩ := Checked.bind_eq_ok.mp h
  simp only at h
  split at h
  · obtain ⟨-, rfl⟩ := Prod.mk.inj (Except.ok.inj h)
    exact Advances.refl s
  · obtain ⟨⟨new, s₁⟩, halloc, h⟩ := Checked.bind_eq_ok.mp h
    obtain ⟨⟨unmapped, memory⟩, _, h⟩ := Checked.bind_eq_ok.mp h
    obtain ⟨_, _, h⟩ := Checked.bind_eq_ok.mp h
    obtain ⟨s₂, hmap, h⟩ := Checked.bind_eq_ok.mp h
    obtain ⟨-, rfl⟩ := Prod.mk.inj (Except.ok.inj h)
    exact (expectFrame_advances halloc).trans (expectMapTo_advances hmap).of_memory

theorem zeroTail_advances {zeroStart : Nat} (h : loader.zeroTail zeroStart s = .ok s') :
    Advances s s' := by
  unfold KernelLoader.zeroTail at h
  simp only at h
  split at h
  · obtain ⟨last, _, h⟩ := Checked.bind_eq_ok.mp h
    obtain ⟨⟨frame, s₁⟩, hmutable, h⟩ := Checked.bind_eq_ok.mp h
    obtain rfl := Except.ok.inj h
    exact (makeMutable_advances hmutable).memory _
  · obtain rfl := Except.ok.inj h
    exact Advances.refl s

theorem mapFrame_advances {startFrame frame : PhysicalFrame .size4KiB}
    (h : loader.mapFrame startFrame page flags frame s = .ok s') : Advances s s' := by
  obtain ⟨_, _, h⟩ := Checked.bind_eq_ok.mp h
  obtain ⟨_, _, h⟩ := Checked.bind_eq_ok.mp h
  exact expectMapTo_advances h

theorem mapZeroedFrame_advances (h : loader.mapZeroedFrame flags page s = .ok s') :
    Advances s s' := by
  obtain ⟨⟨frame, s₁⟩, halloc, h⟩ := Checked.bind_eq_ok.mp h
  exact (expectFrame_advances halloc).trans (expectMapTo_advances h).of_memory

theorem allocateHeader_advances (h : loader.allocateHeader header s = .ok s') : Advances s s' := by
  iterate 5 obtain ⟨_, _, h⟩ := Checked.bind_eq_ok.mp h
  obtain ⟨s₁, hsection, h⟩ := Checked.bind_eq_ok.mp h
  have hfile : Advances s s₁ := frameRange_advances (fun _ _ _ => mapFrame_advances) hsection
  split at h
  · obtain ⟨_, _, h⟩ := Checked.bind_eq_ok.mp h
    obtain ⟨_, _, h⟩ := Checked.bind_eq_ok.mp h
    obtain ⟨s₂, htail, h⟩ := Checked.bind_eq_ok.mp h
    obtain ⟨_, _, h⟩ := Checked.bind_eq_ok.mp h
    obtain ⟨_, _, h⟩ := Checked.bind_eq_ok.mp h
    exact (hfile.trans (zeroTail_advances htail)).trans
      (pageRange_advances (fun _ _ _ => mapZeroedFrame_advances) h)
  · obtain rfl := Except.ok.inj h
    exact hfile

theorem allocate_advances {headers : List ProgramHeader}
    (h : loader.allocate headers s = .ok s') : Advances s s' := by
  induction headers generalizing s with
  | nil =>
      obtain rfl := Except.ok.inj h
      exact Advances.refl s
  | cons header headers ih =>
      rw [KernelLoader.allocate, List.foldlM_cons] at h
      obtain ⟨s₁, hround, h⟩ := Checked.bind_eq_ok.mp h
      exact (allocateHeader_advances hround).trans (ih h)

theorem loadKernel_advances {elf : ElfBinary} {entryPoint : Nat}
    (h : loader.loadKernel elf s = .ok (entryPoint, s')) : Advances s s' := by
  obtain ⟨s₁, hallocate, h⟩ := Checked.bind_eq_ok.mp h
  iterate 3 obtain ⟨_, _, h⟩ := Checked.bind_eq_ok.mp h
  obtain ⟨-, rfl⟩ := Prod.mk.inj (Except.ok.inj h)
  exact (allocate_advances hallocate).memory _

end Loader

/-! ## The steps of stage 4 -/

variable {build : Stage4Build} {info : BiosInfo}

theorem mapStackPage_advances {page : Page .size4KiB} (h : mapStackPage table page s = .ok s') :
    Advances s s' := by
  obtain ⟨⟨frame, s₁⟩, halloc, h⟩ := Checked.bind_eq_ok.mp h
  exact (expectFrame_advances halloc).trans (expectMapTo_advances h)

theorem allocateAndMapStack_advances {stackTop : Nat}
    (h : allocateAndMapStack table s = .ok (stackTop, s')) : Advances s s' := by
  obtain ⟨_, _, h⟩ := Checked.bind_eq_ok.mp h
  obtain ⟨s₁, hpages, h⟩ := Checked.bind_eq_ok.mp h
  obtain ⟨_, _, h⟩ := Checked.bind_eq_ok.mp h
  obtain ⟨_, _, h⟩ := Checked.bind_eq_ok.mp h
  obtain ⟨⟨frame, s₂⟩, halloc, h⟩ := Checked.bind_eq_ok.mp h
  obtain ⟨s₃, hguard, h⟩ := Checked.bind_eq_ok.mp h
  obtain ⟨-, rfl⟩ := Prod.mk.inj (Except.ok.inj h)
  exact ((pageRange_advances (fun _ _ _ => mapStackPage_advances) hpages).trans
    (expectFrame_advances halloc)).trans (expectMapTo_advances hguard)

def stage4Gdt : GlobalDescriptorTable :=
  ⟨[0, SegmentDescriptor.kernelCode, SegmentDescriptor.kernelData, 0, 0, 0, 0, 0], 3⟩

theorem initializeAndMapGdt_eq {A : Type} [FrameAllocator A] (table : MappedPageTable P)
    (s : Machine A) :
    initializeAndMapGdt table s = expectFrame "Failed to allocate gdt frame" s >>= fun (frame, s) =>
      table.expectIdentityMap "Identity mapping gdt failed" frame .present
        { s with memory := s.memory.store frame.address stage4Gdt.toBytes } := by
  have hcode : GlobalDescriptorTable.new.addEntry (.user SegmentDescriptor.kernelCode) =
      .ok (0x8, ⟨[0, SegmentDescriptor.kernelCode, 0, 0, 0, 0, 0, 0], 2⟩) := rfl
  have hdata : GlobalDescriptorTable.addEntry
      ⟨[0, SegmentDescriptor.kernelCode, 0, 0, 0, 0, 0, 0], 2⟩
      (.user SegmentDescriptor.kernelData) = .ok (0x10, stage4Gdt) := rfl
  simp only [initializeAndMapGdt, SegmentDescriptor.kernelCodeSegment_eq,
    SegmentDescriptor.kernelDataSegment_eq, Checked.ok_bind, hcode, hdata]

theorem initializeAndMapGdt_advances (h : initializeAndMapGdt table s = .ok s') :
    Advances s s' := by
  rw [initializeAndMapGdt_eq] at h
  obtain ⟨⟨frame, s₁⟩, halloc, h⟩ := Checked.bind_eq_ok.mp h
  exact (expectFrame_advances halloc).trans (expectIdentityMap_advances h).of_memory

/-- The boot information goes to the next frame, and its map is built for that frame. -/
theorem allocateAndMapBootInfo_spec {frame : PhysicalFrame .size4KiB} {bootInfo : BootInfo}
    (h : allocateAndMapBootInfo build info table s = .ok (frame, bootInfo, s')) :
    ∃ s₁ newRegions, expectFrame "Failed to allocate frame for boot info" s = .ok (frame, s₁) ∧
      buildMemoryMap info.memoryMap frame = .ok newRegions ∧
      bootInfo.memoryRegions = newRegions.filterMap id ∧ Advances s₁ s' := by
  obtain ⟨⟨frame', s₁⟩, halloc, h⟩ := Checked.bind_eq_ok.mp h
  obtain ⟨newRegions, hmap, h⟩ := Checked.bind_eq_ok.mp h
  obtain ⟨_, _, h⟩ := Checked.bind_eq_ok.mp h
  obtain ⟨s₂, hpage, h⟩ := Checked.bind_eq_ok.mp h
  obtain ⟨rfl, hresult⟩ := Prod.mk.inj (Except.ok.inj h)
  obtain ⟨rfl, rfl⟩ := Prod.mk.inj hresult
  exact ⟨s₁, newRegions, halloc, hmap, rfl, (expectMapTo_advances hpage).of_memory⟩

theorem mapCompletePhysicalMemorySpaceIntoKernel_advances {highest offset : Nat}
    (h : mapCompletePhysicalMemorySpaceIntoKernel table highest offset s = .ok s') :
    Advances s s' := by
  obtain ⟨_, _, h⟩ := Checked.bind_eq_ok.mp h
  refine frameRange_advances (fun frame s₁ s₂ hround => ?_) h
  obtain ⟨_, _, hround⟩ := Checked.bind_eq_ok.mp hround
  exact expectMapTo_advances hround

theorem prepareKernel_advances {s s' : Machine (BumpFrameAllocator E820MemoryRegion)}
    {table : MappedPageTable PhysicalOffset} {entryPoint stackTop : Nat}
    (h : prepareKernel build info s = .ok (table, entryPoint, stackTop, s')) : Advances s s' := by
  obtain ⟨⟨frame, s₁⟩, halloc, h⟩ := Checked.bind_eq_ok.mp h
  obtain ⟨memory, _, h⟩ := Checked.bind_eq_ok.mp h
  obtain ⟨elf, _, h⟩ := Checked.bind_eq_ok.mp h
  obtain ⟨⟨_, s₂⟩, hload, h⟩ := Checked.bind_eq_ok.mp h
  obtain ⟨⟨_, s₃⟩, hstack, h⟩ := Checked.bind_eq_ok.mp h
  obtain ⟨s₄, hswitch, h⟩ := Checked.bind_eq_ok.mp h
  obtain ⟨s₅, hgdt, h⟩ := Checked.bind_eq_ok.mp h
  obtain ⟨-, h⟩ := Prod.mk.inj (Except.ok.inj h)
  obtain ⟨-, h⟩ := Prod.mk.inj h
  obtain ⟨-, rfl⟩ := Prod.mk.inj h
  exact (((expectFrame_advances halloc).trans (loadKernel_advances hload).of_memory).trans
    (allocateAndMapStack_advances hstack)).trans
    ((expectIdentityMap_advances hswitch).trans (initializeAndMapGdt_advances hgdt))

theorem fits_of_ends {regions : List D} {ends : List Nat} (h : regions.mapM endAddress = .ok ends) :
    ∀ region ∈ regions, Fits region := by
  induction regions generalizing ends with
  | nil => exact fun region hregion => absurd hregion List.not_mem_nil
  | cons first rest ih =>
      rw [List.mapM_cons] at h
      obtain ⟨last, hfirst, h⟩ := Checked.bind_eq_ok.mp h
      obtain ⟨others, hrest, _⟩ := Checked.bind_eq_ok.mp h
      exact List.forall_mem_cons.mpr ⟨(endAddress_eq_ok.mp hfirst).1, ih hrest⟩

/-- A run of `start` around the allocation of the boot information, with the allocator
before that call. -/
structure StartRun (info : BiosInfo) (before : BumpFrameAllocator E820MemoryRegion)
    (handOver : HandOver) : Prop where
  allocator : stage4Allocator info = .ok ⟨before.memoryMap, 0⟩
  bootInfoFrame : ∃ next, before.allocateFrame = .ok (some handOver.bootInfoFrame, next)
  called : before.next < handOver.machine.allocator.next
  sameMap : handOver.machine.allocator.memoryMap = before.memoryMap
  fits : ∀ region ∈ before.memoryMap, Fits region
  regions : ∃ newRegions, buildMemoryMap info.memoryMap handOver.bootInfoFrame = .ok newRegions ∧
    handOver.bootInfo.memoryRegions = newRegions.filterMap id

theorem Stage4.start_eq_ok {memory : ByteMemory} {handOver : HandOver}
    (h : Stage4.start build info memory = .ok handOver) :
    ∃ allocator table entryPoint stackTop s, stage4Allocator info = .ok allocator ∧
      prepareKernel build info { memory, allocator } = .ok (table, entryPoint, stackTop, s) ∧
      StartRun info s.allocator handOver := by
  obtain ⟨allocator, hallocator, h⟩ := Checked.bind_eq_ok.mp h
  obtain ⟨⟨table, entryPoint, stackTop, s⟩, hprepare, h⟩ := Checked.bind_eq_ok.mp h
  obtain ⟨⟨frame, bootInfo, s₁⟩, hbootInfo, h⟩ := Checked.bind_eq_ok.mp h
  obtain ⟨highest, hhighest, h⟩ := Checked.bind_eq_ok.mp h
  obtain ⟨machine, hphysical, h⟩ := Checked.bind_eq_ok.mp h
  obtain rfl := Except.ok.inj h
  obtain ⟨s₂, newRegions, halloc, hregions, hbuilt, hmapped⟩ :=
    allocateAndMapBootInfo_spec hbootInfo
  have hprepared := prepareKernel_advances hprepare
  have hrest := mapCompletePhysicalMemorySpaceIntoKernel_advances hphysical
  obtain ⟨after, hcall, rfl⟩ := expectFrame_eq_ok halloc
  have hcount : after = { s.allocator with next := s.allocator.next + 1 } := by
    obtain ⟨_, _, hafter⟩ := Checked.bind_eq_ok.mp hcall
    exact (Prod.mk.inj (Except.ok.inj hafter)).2.symm
  have hmap : s₁.allocator.memoryMap = s.allocator.memoryMap := by
    rw [hmapped.sameMap, hcount]
  refine ⟨allocator, table, entryPoint, stackTop, s, hallocator, hprepare, ?_⟩
  constructor
  case allocator =>
    obtain ⟨_, _, hnew⟩ := Checked.bind_eq_ok.mp hallocator
    rw [hallocator, hprepared.sameMap]
    rcases BumpFrameAllocator.newStartingAt_cases hnew with
      ⟨_, region, after, _, _, _, _, rfl⟩ | ⟨_, rfl⟩
    · rfl
    · rfl
  case bootInfoFrame => exact ⟨after, hcall⟩
  case called =>
    have hle := hmapped.next_le
    rw [hcount] at hle
    exact Nat.lt_of_lt_of_le (Nat.lt_succ_self _) (Nat.le_trans hle hrest.next_le)
  case sameMap => exact hrest.sameMap.trans hmap
  case fits =>
    obtain ⟨ends, hends, _⟩ := Checked.bind_eq_ok.mp hhighest
    rw [hmap] at hends
    exact fits_of_ends hends
  case regions => exact ⟨newRegions, hregions, hbuilt⟩

end MiniatureOs
