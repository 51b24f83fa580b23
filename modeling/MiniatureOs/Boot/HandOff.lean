import MiniatureOs.Boot.Allocations

/-! # The hand-off to the kernel

The kernel allocates its frames from the map that stage 4 built when it allocated the
boot information. The map marks the region of that frame as used up to the frame, and
nothing else of the usable regions. So a frame of stage 4 is safe from the kernel only
if it lies at or below the frame of the boot information in the same region, in a
region at address zero, or outside the usable regions. The tables for the boot
information and for the complete physical memory are allocated after the map was built.
-/

namespace MiniatureOs

open MemoryRegion BumpFrameAllocator

def BumpFrameAllocator.handedOut {D : Type} [MemoryRegion D] (allocator : BumpFrameAllocator D) :
    List (PhysicalFrame .size4KiB) :=
  returned allocator.next (new allocator.memoryMap)

def InKernelImage (info : BiosInfo) (frame : PhysicalFrame .size4KiB) : Prop :=
  info.kernel.start < frame.address + 0x1000 ∧
    frame.address < info.kernel.start + info.kernel.size

def InUse (info : BiosInfo) (allocator : BumpFrameAllocator E820MemoryRegion)
    (frame : PhysicalFrame .size4KiB) : Prop :=
  frame ∈ allocator.handedOut ∨ InKernelImage info frame

/-- However many frames the kernel allocates, none of them is in use. -/
def SafeHandOff (info : BiosInfo) (handOver : HandOver) : Prop :=
  ∀ frame, InUse info handOver.machine.allocator frame →
    ∀ calls, frame ∉ returned calls (new handOver.bootInfo.memoryRegions)

/-- A map built for `bootInfoFrame` accounts for the frame: a usable region that holds it,
unless it starts at zero, is marked as used up to a place behind the frame. -/
def Accounted (info : BiosInfo) (bootInfoFrame frame : PhysicalFrame .size4KiB) : Prop :=
  ∀ region ∈ info.memoryMap, isUsable region = true → region.start ≠ 0 →
    FrameInside frame region →
      FrameInside bootInfoFrame region ∧ frame.address ≤ bootInfoFrame.address

def BootInfoCallSafe (info : BiosInfo) (before : BumpFrameAllocator E820MemoryRegion) : Prop :=
  ∀ bootInfoFrame next, before.allocateFrame = .ok (some bootInfoFrame, next) →
    ∀ frame, InUse info before frame → Accounted info bootInfoFrame frame

def LaterCallSafe (info : BiosInfo) (before later : BumpFrameAllocator E820MemoryRegion) : Prop :=
  ∀ bootInfoFrame next, before.allocateFrame = .ok (some bootInfoFrame, next) →
    ∀ frame next', later.allocateFrame = .ok (some frame, next') →
      Accounted info bootInfoFrame frame

variable {info : BiosInfo} {handOver : HandOver}
  {before : BumpFrameAllocator E820MemoryRegion} {bootInfoFrame frame : PhysicalFrame .size4KiB}

/-! ## Calls by number -/

section Calls

variable {D : Type} [MemoryRegion D] {allocator : BumpFrameAllocator D}

theorem allocateFrame_some_iff :
    (∃ next, allocator.allocateFrame = .ok (some frame, next)) ↔
      (usableFrames (reachable allocator.memoryMap))[allocator.next]? = some frame := by
  constructor
  · rintro ⟨next, h⟩
    obtain ⟨result, hwalk, h⟩ := Checked.bind_eq_ok.mp h
    obtain ⟨rfl, _⟩ := Prod.mk.inj (Except.ok.inj h)
    rw [nthUsableFrame_eq] at hwalk
    cases hframe : (usableFrames (reachable allocator.memoryMap))[allocator.next]? with
    | some other =>
        rw [hframe] at hwalk
        exact Except.ok.inj hwalk
    | none =>
        rw [hframe] at hwalk
        by_cases hall : allocator.memoryMap.all walkable = true
        · simp [hall] at hwalk
        · simp [hall] at hwalk
  · intro h
    exact ⟨_, allocateFrame_of_some h⟩

theorem mem_handedOut :
    frame ∈ allocator.handedOut ↔
      ∃ i < allocator.next, (usableFrames (reachable allocator.memoryMap))[i]? = some frame := by
  rw [handedOut, returned_new, List.mem_take_iff_getElem]
  constructor
  · rintro ⟨i, hi, rfl⟩
    exact ⟨i, by omega, List.getElem?_eq_getElem (by omega)⟩
  · rintro ⟨i, hi, hframe⟩
    obtain ⟨hlt, rfl⟩ := List.getElem?_eq_some_iff.mp hframe
    exact ⟨i, by omega, rfl⟩

theorem exists_mem_returned {regions : List D} :
    (∃ calls, frame ∈ returned calls (new regions)) ↔ frame ∈ usableFrames (reachable regions) := by
  constructor
  · rintro ⟨calls, h⟩
    rw [returned_new] at h
    exact List.mem_of_mem_take h
  · intro h
    refine ⟨(usableFrames (reachable regions)).length, ?_⟩
    rwa [returned_new, List.take_length]

end Calls

/-! ## The frames of the kernel -/

theorem mem_freePart {region : E820MemoryRegion} (haligned : PageAligned region)
    (hinside : SplitsInside bootInfoFrame region) :
    (∃ free ∈ freePart bootInfoFrame region, frame ∈ regionFrames free) ↔
      isUsable region = true ∧ region.start ≠ 0 ∧ FrameInside frame region ∧
        (Reaches region bootInfoFrame.address → bootInfoFrame.address < frame.address) := by
  have hstart : region.start % 0x1000 = 0 := haligned.1
  have hsize : region.size % 0x1000 = 0 := haligned.2
  have hboot : bootInfoFrame.address % 0x1000 = 0 := bootInfoFrame.aligned
  have hframe : frame.address % 0x1000 = 0 := frame.aligned
  unfold freePart
  by_cases husable : isUsable region = true ∧ region.start ≠ 0
  · rw [if_pos husable, and_iff_right husable.1, and_iff_right husable.2]
    by_cases hreach : Reaches region bootInfoFrame.address
    · have hle : bootInfoFrame.address + 0x1000 ≤ region.start + region.size :=
        hinside husable.1 husable.2 hreach
      have hlow : region.start ≤ bootInfoFrame.address := hreach.1
      rw [if_pos hreach, imp_iff_right hreach]
      by_cases hend : bootInfoFrame.address + PageSize.size4KiB.size = region.start + region.size
      · rw [if_pos hend]
        rw [PageSize.size] at hend
        simp only [List.not_mem_nil, false_and, exists_false, false_iff]
        rintro ⟨⟨_, hhigh⟩, hlt⟩
        change frame.address + 0x1000 ≤ region.start + region.size at hhigh
        omega
      · rw [if_neg hend]
        simp only [List.mem_singleton, exists_eq_left, PageSize.size]
        have hfirst : (bootInfoFrame.address + 0x1000) % 0x1000 = 0 := by omega
        have hlength : (region.start + region.size - (bootInfoFrame.address + 0x1000)) % 0x1000 =
            0 := by omega
        have haligned' : PageAligned (⟨bootInfoFrame.address + 0x1000, region.start + region.size -
            (bootInfoFrame.address + 0x1000), .free⟩ : PhysicalMemoryRegion) := ⟨hfirst, hlength⟩
        rw [mem_regionFrames_of_aligned haligned']
        simp only [FrameInside, MemoryRegion.start, MemoryRegion.size]
        omega
    · rw [if_neg hreach]
      simp only [List.mem_singleton, exists_eq_left]
      rw [mem_regionFrames_of_aligned ⟨hstart, hsize⟩]
      exact ⟨fun hin => ⟨hin, fun hin' => absurd hin' hreach⟩, fun hin => hin.1⟩
  · rw [if_neg husable]
    simp only [List.not_mem_nil, false_and, exists_false, false_iff]
    exact fun hin => husable ⟨hin.1, hin.2.1⟩

theorem fits_of_mem_freePart {region : E820MemoryRegion} {free : PhysicalMemoryRegion}
    (hfits : Fits region) (hinside : SplitsInside bootInfoFrame region)
    (hfree : free ∈ freePart bootInfoFrame region) : Fits free := by
  unfold freePart at hfree
  split at hfree
  case isFalse => cases hfree
  case isTrue husable =>
    split at hfree
    case isFalse =>
      obtain rfl := List.mem_singleton.mp hfree
      exact hfits
    case isTrue hreach =>
      have hle := hinside husable.1 husable.2 hreach
      split at hfree
      case isTrue => cases hfree
      case isFalse =>
        obtain rfl := List.mem_singleton.mp hfree
        change bootInfoFrame.address + PageSize.size4KiB.size + (region.start + region.size -
          (bootInfoFrame.address + PageSize.size4KiB.size)) < 2 ^ 64
        rw [Nat.add_sub_cancel' hle]
        exact hfits

theorem StartRun.fits_all (h : StartRun info before handOver)
    (hsorted : SortedRegions info.memoryMap) : ∀ region ∈ info.memoryMap, Fits region := by
  obtain ⟨first, _, hnew⟩ := Checked.bind_eq_ok.mp h.allocator
  rcases newStartingAt_cases hnew with
    ⟨skipped, found, after, hmap, hskipped, hfound, _, hallocator⟩ | ⟨_, hallocator⟩
  · obtain ⟨hfits, hreach⟩ := contains_eq_true.mp hfound
    have hrest : before.memoryMap = setStart found first.address :: after :=
      congrArg BumpFrameAllocator.memoryMap hallocator
    intro region hregion
    rw [hmap, List.mem_append, List.mem_cons] at hregion
    rcases hregion with hregion | rfl | hregion
    · -- the search computed the end of every region in front
      have hlow : start region ≤ start found := by
        unfold SortedRegions at hsorted
        rw [hmap, List.pairwise_append] at hsorted
        exact hsorted.2.2 region hregion found List.mem_cons_self
      rcases contains_eq_false.mp (hskipped region hregion) with hlt | ⟨hfits', _⟩
      · have hle := hreach.1
        omega
      · exact hfits'
    · exact hfits
    · exact h.fits region (by rw [hrest]; exact List.mem_cons_of_mem _ hregion)
  · -- no region was found, so there was no frame for the boot information
    have hempty : before.memoryMap = [] := congrArg BumpFrameAllocator.memoryMap hallocator
    have hframe := allocateFrame_some_iff.mp h.bootInfoFrame
    rw [hempty] at hframe
    cases hframe

theorem StartRun.exists_returned_iff (h : StartRun info before handOver)
    (hsorted : SortedRegions info.memoryMap) (haligned : ∀ r ∈ info.memoryMap, PageAligned r) :
    (∃ calls, frame ∈ returned calls (new handOver.bootInfo.memoryRegions)) ↔
      ∃ region ∈ info.memoryMap, isUsable region = true ∧ region.start ≠ 0 ∧
        FrameInside frame region ∧ (Reaches region handOver.bootInfoFrame.address →
          handOver.bootInfoFrame.address < frame.address) := by
  obtain ⟨newRegions, hbuild, hregions⟩ := h.regions
  obtain ⟨hfree, hinside⟩ := buildMemoryMap_free hbuild
  rw [← hregions] at hfree
  have hfits : ∀ r ∈ handOver.bootInfo.memoryRegions, isUsable r = true → Fits r := by
    intro free hmem husable
    have hin : free ∈ handOver.bootInfo.memoryRegions.filter (isUsable ·) :=
      List.mem_filter.mpr ⟨hmem, husable⟩
    rw [hfree] at hin
    obtain ⟨region, hregion, hpart⟩ := List.mem_flatMap.mp hin
    exact fits_of_mem_freePart (h.fits_all hsorted region hregion) (hinside region hregion) hpart
  rw [exists_mem_returned, reachable_of_all (all_walkable_iff.mpr hfits), usableFrames, hfree,
    List.flatMap_assoc]
  simp only [List.mem_flatMap]
  refine exists_congr fun region => and_congr_right fun hregion => ?_
  exact mem_freePart (haligned region hregion) (hinside region hregion)

/-- A frame is safe from the kernel exactly when the map accounts for it. -/
theorem StartRun.not_returned_iff (h : StartRun info before handOver)
    (hsorted : SortedRegions info.memoryMap) (haligned : ∀ r ∈ info.memoryMap, PageAligned r) :
    (∀ calls, frame ∉ returned calls (new handOver.bootInfo.memoryRegions)) ↔
      Accounted info handOver.bootInfoFrame frame := by
  obtain ⟨newRegions, hbuild, _⟩ := h.regions
  obtain ⟨_, hinside⟩ := buildMemoryMap_free hbuild
  rw [← not_exists, h.exists_returned_iff hsorted haligned]
  constructor
  · intro hnone region hregion husable hzero hframe
    by_cases hsafe : Reaches region handOver.bootInfoFrame.address ∧
        frame.address ≤ handOver.bootInfoFrame.address
    · exact ⟨⟨hsafe.1.1, hinside region hregion husable hzero hsafe.1⟩, hsafe.2⟩
    · refine absurd ⟨region, hregion, husable, hzero, hframe, fun hreach => ?_⟩ hnone
      by_contra hnot
      exact hsafe ⟨hreach, by omega⟩
  · rintro haccounted ⟨region, hregion, husable, hzero, hframe, hbehind⟩
    obtain ⟨⟨hlow, hhigh⟩, hle⟩ := haccounted region hregion husable hzero hframe
    have hlt := hbehind ⟨hlow, by omega⟩
    omega

/-! ## The calls of a run -/

theorem StartRun.mem_handedOut_iff (h : StartRun info before handOver) :
    frame ∈ handOver.machine.allocator.handedOut ↔
      frame ∈ before.handedOut ∨ frame = handOver.bootInfoFrame ∨
        ∃ i, before.next < i ∧ i < handOver.machine.allocator.next ∧
          ∃ next, ({ before with next := i } : BumpFrameAllocator _).allocateFrame =
            .ok (some frame, next) := by
  have hboot := allocateFrame_some_iff.mp h.bootInfoFrame
  have hcalled := h.called
  simp only [mem_handedOut, h.sameMap, allocateFrame_some_iff]
  constructor
  · rintro ⟨i, hi, hframe⟩
    rcases Nat.lt_trichotomy i before.next with hlt | rfl | hgt
    · exact .inl ⟨i, hlt, hframe⟩
    · rw [hboot] at hframe
      exact .inr (.inl (Option.some.inj hframe).symm)
    · exact .inr (.inr ⟨i, hgt, hi, hframe⟩)
  · rintro (⟨i, hi, hframe⟩ | rfl | ⟨i, _, hi, hframe⟩)
    · exact ⟨i, by omega, hframe⟩
    · exact ⟨before.next, hcalled, hboot⟩
    · exact ⟨i, hi, hframe⟩

theorem accounted_self (info : BiosInfo) (frame : PhysicalFrame .size4KiB) :
    Accounted info frame frame :=
  fun _ _ _ _ hframe => ⟨hframe, Nat.le_refl _⟩

theorem StartRun.safe_iff (h : StartRun info before handOver)
    (hsorted : SortedRegions info.memoryMap) (haligned : ∀ r ∈ info.memoryMap, PageAligned r) :
    SafeHandOff info handOver ↔
      BootInfoCallSafe info before ∧
        ∀ i, before.next < i → i < handOver.machine.allocator.next →
          LaterCallSafe info before { before with next := i } := by
  have hframe : ∀ {boot next}, before.allocateFrame = .ok (some boot, next) →
      boot = handOver.bootInfoFrame := by
    intro boot next hcall
    obtain ⟨next', hboot⟩ := h.bootInfoFrame
    rw [hcall] at hboot
    exact Option.some.inj (Prod.mk.inj (Except.ok.inj hboot)).1
  unfold SafeHandOff
  simp only [h.not_returned_iff hsorted haligned]
  constructor
  · intro hsafe
    constructor
    · intro boot next hcall frame huse
      rw [hframe hcall]
      refine hsafe frame (huse.imp (fun hmem => ?_) id)
      exact h.mem_handedOut_iff.mpr (.inl hmem)
    · intro i hlow hhigh boot next hcall frame next' hlater
      rw [hframe hcall]
      exact hsafe frame
        (.inl (h.mem_handedOut_iff.mpr (.inr (.inr ⟨i, hlow, hhigh, next', hlater⟩))))
  · rintro ⟨hfirst, hlater⟩ frame huse
    obtain ⟨next, hcall⟩ := h.bootInfoFrame
    rcases huse with hmem | himage
    · rcases h.mem_handedOut_iff.mp hmem with hmem | rfl | ⟨i, hlow, hhigh, next', hframe'⟩
      · exact hfirst _ next hcall frame (.inl hmem)
      · exact accounted_self info _
      · exact hlater i hlow hhigh _ next hcall frame next' hframe'
    · exact hfirst _ next hcall frame (.inr himage)

/-- A run of stage 4 hands over safely exactly when the map accounts, at the call for the
boot information, for the frames in use, and at each later call for the next frame. -/
theorem safeHandOff_iff {build : Stage4Build} {memory : ByteMemory}
    {allocator : BumpFrameAllocator E820MemoryRegion} {table : MappedPageTable PhysicalOffset}
    {entryPoint stackTop : Nat} {s : Machine (BumpFrameAllocator E820MemoryRegion)}
    (hsorted : SortedRegions info.memoryMap) (haligned : ∀ r ∈ info.memoryMap, PageAligned r)
    (hallocator : stage4Allocator info = .ok allocator)
    (hprepare : prepareKernel build info { memory, allocator } =
      .ok (table, entryPoint, stackTop, s))
    (hrun : Stage4.start build info memory = .ok handOver) :
    SafeHandOff info handOver ↔
      BootInfoCallSafe info s.allocator ∧
        ∀ i, s.allocator.next < i → i < handOver.machine.allocator.next →
          LaterCallSafe info s.allocator { s.allocator with next := i } := by
  obtain ⟨allocator', table', entryPoint', stackTop', s', hallocator', hprepare', hrun'⟩ :=
    Stage4.start_eq_ok hrun
  rw [hallocator] at hallocator'
  obtain rfl := Except.ok.inj hallocator'
  rw [hprepare] at hprepare'
  obtain ⟨_, hrest⟩ := Prod.mk.inj (Except.ok.inj hprepare')
  obtain ⟨_, hrest⟩ := Prod.mk.inj hrest
  obtain ⟨_, rfl⟩ := Prod.mk.inj hrest
  exact hrun'.safe_iff hsorted haligned

/-! ## Two machines -/

def onePageBuild : Stage4Build :=
  ⟨fun _ => some ⟨[⟨0, 0, 0x1000, 0x1000, true, false⟩], [], [], 0⟩, 0x120000,
    fun _ => List.replicate bootInfoSize 0⟩

def imageAt2MiB (regions : List E820MemoryRegion) : BiosInfo :=
  ⟨⟨0x200000, 0x1000, .used⟩, 0x200fff, regions⟩

def regionAtZero : E820MemoryRegion := ⟨0, 0x800000, .normal, 0⟩

def regionAt1MiB : E820MemoryRegion := ⟨0x100000, 0x700000, .normal, 0⟩

def regionAt16MiB : E820MemoryRegion := ⟨0x1000000, 0x1000000, .normal, 0⟩

/-- Stage 4 takes its frames from the region at zero, the kernel from the one behind it. -/
def twoRegionsInfo : BiosInfo :=
  imageAt2MiB [regionAtZero, regionAt16MiB]

theorem sorted_twoRegionsInfo : SortedRegions twoRegionsInfo.memoryMap :=
  List.pairwise_pair.mpr (by decide)

/-- The regions of `twoRegionsInfo` from the first frame of stage 4 on. -/
def stage4Regions : List E820MemoryRegion :=
  [⟨0x201000, 0x800000, .normal, 0⟩, regionAt16MiB]

theorem accounted_below_16MiB (boot : PhysicalFrame .size4KiB) (h : frame.address < 0x1000000) :
    Accounted twoRegionsInfo boot frame := by
  intro region hregion _ hzero hframe
  have hregion' : region = regionAtZero ∨ region = regionAt16MiB := by
    simpa [twoRegionsInfo, imageAt2MiB] using hregion
  rcases hregion' with rfl | rfl
  · exact absurd rfl hzero
  · exact absurd hframe.1 (Nat.not_le.mpr h)

theorem stage4Frame_below_16MiB {i : Nat} (hi : i < 64)
    (h : (usableFrames (reachable stage4Regions))[i]? = some frame) :
    frame.address < 0x1000000 := by
  have hall : ((usableFrames (reachable stage4Regions)).take 64).all
      (fun frame => decide (frame.address < 0x1000000)) = true := by
    decide +kernel
  have hmem : frame ∈ (usableFrames (reachable stage4Regions)).take 64 := by
    apply List.mem_of_getElem?
    rw [List.getElem?_take_of_lt hi, h]
  simpa using List.all_eq_true.mp hall frame hmem

/-- Memory up to 8 MiB and from 16 MiB to 32 MiB is usable. The kernel begins with the frame
at 16 MiB. -/
theorem safeHandOff_twoRegions :
    ∃ handOver, Stage4.start onePageBuild twoRegionsInfo (fun _ => 0) = .ok handOver ∧
      (returned 2 (new handOver.bootInfo.memoryRegions)).map (·.address) =
        [0x1000000, 0x1001000] ∧
      SafeHandOff twoRegionsInfo handOver := by
  have hresult : (Stage4.start onePageBuild twoRegionsInfo (fun _ => 0)).toOption.map
      (fun handOver => (handOver.machine.allocator, handOver.bootInfo.memoryRegions)) =
        some (⟨stage4Regions, 50⟩, [⟨0x1000000, 0x1000000, .free⟩]) := by
    decide +kernel
  cases hrun : Stage4.start onePageBuild twoRegionsInfo (fun _ => 0) with
  | error panic =>
      rw [hrun] at hresult
      cases hresult
  | ok handOver =>
      rw [hrun] at hresult
      obtain ⟨hfinal, hregions⟩ := Prod.mk.inj (Option.some.inj hresult)
      obtain ⟨allocator, table, entryPoint, stackTop, s, hallocator, hprepare, hstart⟩ :=
        Stage4.start_eq_ok hrun
      have hmap : s.allocator.memoryMap = stage4Regions := by
        rw [← hstart.sameMap, hfinal]
      have hcalls : s.allocator.next < 50 := by
        have hcalled := hstart.called
        rw [hfinal] at hcalled
        exact hcalled
      refine ⟨handOver, rfl, by rw [hregions]; decide +kernel, (safeHandOff_iff
        sorted_twoRegionsInfo (by decide) hallocator hprepare hrun).mpr ⟨?_, ?_⟩⟩
      · intro boot next _ frame huse
        apply accounted_below_16MiB
        rcases huse with hmem | himage
        · obtain ⟨i, hi, hframe⟩ := mem_handedOut.mp hmem
          rw [hmap] at hframe
          exact stage4Frame_below_16MiB (by omega) hframe
        · exact Nat.lt_trans himage.2 (by decide)
      · intro i _ hlast boot next _ frame next' hlater
        apply accounted_below_16MiB
        have hframe := allocateFrame_some_iff.mp ⟨next', hlater⟩
        rw [hfinal] at hlast
        rw [hmap] at hframe
        exact stage4Frame_below_16MiB (Nat.lt_trans hlast (by decide)) hframe

/-- Memory from 1 MiB to 8 MiB is usable. The first frame that the kernel allocates is a
page table of its own address space. -/
theorem not_safeHandOff_regionAt1MiB :
    ∃ handOver, Stage4.start onePageBuild (imageAt2MiB [regionAt1MiB]) (fun _ => 0) =
        .ok handOver ∧
      SortedRegions (imageAt2MiB [regionAt1MiB]).memoryMap ∧
      DisjointRegions (imageAt2MiB [regionAt1MiB]).memoryMap ∧
      (∀ r ∈ (imageAt2MiB [regionAt1MiB]).memoryMap, PageAligned r) ∧
      (PhysicalFrame.containingAddress .size4KiB
        (imageAt2MiB [regionAt1MiB]).lastPhysicalAddress).add 1 = .ok ⟨0x201000, by decide⟩ ∧
      FrameInside ⟨0x201000, by decide⟩ regionAt1MiB ∧
      ¬ SafeHandOff (imageAt2MiB [regionAt1MiB]) handOver := by
  have hresult : (Stage4.start onePageBuild (imageAt2MiB [regionAt1MiB]) (fun _ => 0)).toOption.map
      (fun handOver => (handOver.machine.allocator, handOver.bootInfo.memoryRegions)) =
        some (⟨[⟨0x201000, 0x700000, .normal, 0⟩], 50⟩,
          [⟨0x100000, 0x131000, .reserved⟩, ⟨0x231000, 0x5cf000, .free⟩]) := by
    decide +kernel
  cases hrun : Stage4.start onePageBuild (imageAt2MiB [regionAt1MiB]) (fun _ => 0) with
  | error panic =>
      rw [hrun] at hresult
      cases hresult
  | ok handOver =>
      rw [hrun] at hresult
      obtain ⟨hallocator, hregions⟩ := Prod.mk.inj (Option.some.inj hresult)
      refine ⟨handOver, rfl, List.pairwise_singleton _ _, List.pairwise_singleton _ _, by decide,
        by decide, ⟨by decide, by decide⟩, fun hsafe => ?_⟩
      have hcall : (⟨[⟨0x201000, 0x700000, .normal, 0⟩], 48⟩ :
          BumpFrameAllocator E820MemoryRegion).allocateFrame =
            .ok (some ⟨0x231000, by decide⟩, ⟨[⟨0x201000, 0x700000, .normal, 0⟩], 49⟩) := by
        decide +kernel
      have hframe := allocateFrame_some_iff.mp ⟨_, hcall⟩
      have huse : ⟨0x231000, by decide⟩ ∈ handOver.machine.allocator.handedOut := by
        rw [hallocator, mem_handedOut]
        exact ⟨48, by decide, hframe⟩
      have hkernel := hsafe _ (.inl huse) 1
      rw [hregions] at hkernel
      exact hkernel (by decide)

end MiniatureOs
