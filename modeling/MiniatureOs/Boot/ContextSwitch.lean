import MiniatureOs.Boot.HandOff
import MiniatureOs.Boot.KernelSpace

/-! # The switch to the kernel

`context_switch` loads the new page table while it runs, so the code behind that instruction
has to be seen at the same address through both tables; then it takes the stack that stage 4
has mapped, and jumps to the entry point.
-/

namespace MiniatureOs

open PageTableFrameMapping MappedPageTable MemoryRegion BumpFrameAllocator

/-! ## The last step -/

structure LastStep {A : Type} [FrameAllocator A] (table : MappedPageTable PhysicalOffset)
    (kept tables used : PhysicalFrame .size4KiB → Prop) (highest : Nat) (s s' : Machine A) :
    Prop where
  placement : Placement table kept tables used s
  identity : table.mapping.offset = 0
  range : OffsetRange physicalMemoryOffset highest
  run : mapCompletePhysicalMemorySpaceIntoKernel table highest physicalMemoryOffset s = .ok s'
  entries : ∀ page : Page .size4KiB, IsPageEntry .size4KiB (table.pageEntry s.memory page)

namespace LastStep

variable {A : Type} [FrameAllocator A] {table : MappedPageTable PhysicalOffset}
  {kept tables used : PhysicalFrame .size4KiB → Prop} {highest : Nat} {s s' : Machine A}
  {x y location : Nat} {rights rights' : Rights}

theorem walk_of_leadsTo (h : LastStep table kept tables used highest s s')
    (hcanonical : Canonical x) (hleads : LeadsTo table s.memory x location rights) :
    mmuWalk s'.memory table.pml4t x = some (location, rights) := by
  obtain ⟨frame, flags, hmaps, rfl, rfl⟩ := hleads
  rw [← containingAddress_eq_smallPage] at hmaps
  have hne : table.pageEntry s.memory (.containingAddress .size4KiB x) ≠
      PageTableEntry.unused := by
    intro hunused
    have hpresent := hmaps.isPresent
    rw [hunused] at hpresent
    cases hpresent
  have hout := not_inWindow_of_entry h.placement.separate h.range h.run hne
  rw [mmuWalk_small h.placement.separate h.identity h.range h.run hcanonical (h.entries _) hout,
    hmaps.decode_eq]
  rfl

theorem byte (h : LastStep table kept tables used highest s s')
    (hleads : LeadsTo table s.memory x location rights) :
    s'.memory location = s.memory location := by
  obtain ⟨frame, flags, hmaps, rfl, -⟩ := hleads
  exact mapComplete_bytes h.placement.separate h.identity h.range h.run
    (h.placement.data _ _ _ hmaps) (Nat.mod_lt _ (Nat.succ_pos _))

theorem leadsTo_of_walk (h : LastStep table kept tables used highest s s')
    (hout : ¬ InWindow physicalMemoryOffset highest x)
    (hwalk : mmuWalk s'.memory table.pml4t x = some (location, rights)) :
    LeadsTo table s.memory x location rights := by
  have hcanonical : Canonical x := by
    by_contra hnot
    rw [mmuWalk, if_neg hnot] at hwalk
    cases hwalk
  rw [mmuWalk_small h.placement.separate h.identity h.range h.run hcanonical (h.entries _) hout]
    at hwalk
  cases h.entries (.containingAddress .size4KiB x) with
  | inl hunused =>
      rw [hunused] at hwalk
      cases hwalk
  | inr hmapped =>
      obtain ⟨frame, flags, hlt, hentry⟩ := hmapped
      cases hpresent : flags.contains .present with
      | false =>
          have hflags : (PageSize.size4KiB.leafFlags flags).contains .present = false := hpresent
          rw [hentry, decode, PageTableEntry.isPresent_setAddress frame.aligned hlt, hflags]
            at hwalk
          cases hwalk
      | true =>
          have hmaps : MapsTo table s.memory (.containingAddress .size4KiB x) frame flags :=
            ⟨hlt, hpresent, hentry⟩
          rw [hmaps.decode_eq] at hwalk
          rw [containingAddress_eq_smallPage] at hmaps
          obtain ⟨rfl, rfl⟩ := Prod.mk.inj (Option.some.inj hwalk)
          exact ⟨frame, flags, hmaps, rfl, rfl⟩

/-- Two addresses of small pages share a location only if its frame is from before. -/
theorem eq_of_location (h : LastStep table kept tables used highest s s')
    (hx : LeadsTo table s.memory x location rights)
    (hy : LeadsTo table s.memory y location rights') (hcanonical : Canonical x)
    (hcanonical' : Canonical y) :
    x = y ∨ kept (.containingAddress .size4KiB location) := by
  obtain ⟨frame, flags, hmaps, rfl, -⟩ := hx
  obtain ⟨frame', flags', hmaps', hlocation, -⟩ := hy
  have haligned : frame.address % 4096 = 0 := frame.aligned
  have haligned' : frame'.address % 4096 = 0 := frame'.aligned
  obtain rfl : frame = frame' := PhysicalFrame.ext (by omega)
  rw [frame.containingAddress_byte]
  cases h.placement.once _ _ frame flags flags' hmaps hmaps' with
  | inl hkept => exact .inr hkept
  | inr hnumber => exact .inl (eq_of_page_number hcanonical hcanonical' hnumber (by omega))

theorem walk_congr (h : LastStep table kept tables used highest s s') {m : ByteMemory}
    (hsame : ∀ y, (∀ x rights, ¬ LeadsTo table s.memory x y rights) → m y = s'.memory y) (x : Nat) :
    mmuWalk m table.pml4t x = mmuWalk s'.memory table.pml4t x := by
  obtain ⟨tables', used', hextends, hfilled⟩ :=
    mapComplete_extends h.placement.separate h.range h.run
  have htables : ∀ y, InTables table tables' y → m y = s'.memory y := by
    intro y hy
    refine hsame y fun x rights hleads => ?_
    obtain ⟨frame, flags, hmaps, rfl, -⟩ := hleads
    exact (hextends.holdsData (h.placement.data _ _ _ hmaps)).not_inTables h.identity
      (Nat.mod_lt _ (Nat.succ_pos _)) hy
  by_cases hcanonical : Canonical x
  case neg => rw [mmuWalk, mmuWalk, if_neg hcanonical, if_neg hcanonical]
  by_cases hin : InWindow physicalMemoryOffset highest x
  · obtain ⟨p, hp, rfl⟩ := hin.exists_offset h.range hcanonical
    have hfits := h.range.fits
    have hsize : completeSizes smallPages physicalMemoryOffset highest
        (slotOf (physicalMemoryOffset + p)) = .size2MiB := if_pos hin
    refine hextends.separate.toWellFormed.mmuWalk_congr h.identity htables hcanonical hsize ?_
    rw [hfilled.large_entry h.range.aligned hp]
    exact isPageEntry_largeEntry (by omega)
  · have hsize : completeSizes smallPages physicalMemoryOffset highest (slotOf x) = .size4KiB :=
      if_neg hin
    refine hextends.separate.toWellFormed.mmuWalk_congr h.identity htables hcanonical hsize ?_
    rw [hfilled.small_entry hin]
    exact h.entries _

end LastStep

/-! ## The regions -/

/-- The addresses of the stack. The page that begins at the top belongs to it. -/
def OnStack (x : Nat) : Prop :=
  kernelStackTop - kernelStackSize ≤ x ∧ x < kernelStackTop + 4096

theorem onStack_iff {x : Nat} : OnStack x ↔ ∃ k < 33, x / 4096 = guardNumber + 1 + k := by
  unfold OnStack kernelStackTop kernelStackSize guardNumber
  constructor
  · intro h
    exact ⟨x / 4096 - 0xfffffffefffe0, by omega, by omega⟩
  · rintro ⟨k, hk, hx⟩
    omega

theorem OnStack.canonical {x : Nat} (h : OnStack x) : Canonical x := by
  unfold OnStack kernelStackTop kernelStackSize at h
  unfold Canonical
  omega

theorem canonical_of_page {x address : Nat} (haddress : address < 2 ^ 46)
    (hx : x / 4096 = address / 4096) : Canonical x := by
  unfold Canonical
  omega

theorem page_eq_of_number {x n : Nat} (hx : Canonical x) (hn : Canonical (n * 4096))
    (hnumber : (smallPage (x / 4096)).number = (smallPage n).number) : x / 4096 = n := by
  rw [smallPage_number, smallPage_number] at hnumber
  unfold Canonical at hx hn
  omega

section Regions

variable {build : Stage4Build} {info : BiosInfo} {elf : ElfBinary} {memory m : ByteMemory}
  {allocator : BumpFrameAllocator E820MemoryRegion} {table : MappedPageTable PhysicalOffset}
  {gdtFrame bootInfoFrame : PhysicalFrame .size4KiB} {bootInfo : BootInfo}
  {header : ProgramHeader} {x location : Nat} {rights : Rights}

/-- The pages of the segments lie in the last 2 GiB of the address space. -/
theorem Stage4Ready.page_canonical (h : Stage4Ready build info elf memory)
    (hheader : header ∈ elf.headers) {k : Nat}
    (hk : k < (stage4Loader info table).pageCount header) :
    Canonical (((stage4Loader info table).firstPage header + k) * 4096) := by
  have hspace := h.inSpace header hheader
  have hstart : (stage4Loader info table).segmentStart header =
      kernelVirtualBase + header.virtualAddr := rfl
  unfold KernelLoader.pageCount at hk
  unfold KernelLoader.firstPage at hk ⊢
  rw [hstart] at hk ⊢
  unfold kernelVirtualBase at hk hspace ⊢
  unfold Canonical
  split at hk
  · split at hk
    · omega
    · omega
  · omega

theorem Stage4Ready.onPage_canonical (h : Stage4Ready build info elf memory)
    (hheader : header ∈ elf.headers) (hx : (stage4Loader info table).OnPage header x) :
    Canonical x := by
  obtain ⟨k, hk, hpage⟩ := hx
  have hcanonical := h.page_canonical hheader hk
  rw [← hpage] at hcanonical
  unfold Canonical at hcanonical ⊢
  omega

namespace Stage4Mapped

variable (h : Stage4Mapped build info elf memory allocator table gdtFrame bootInfoFrame bootInfo m)
include h

theorem entries (page : Page .size4KiB) :
    IsPageEntry .size4KiB (table.pageEntry m page) := by
  have hself : ∀ {n}, SeenAtItself table m n → page.number = (smallPage n).number →
      IsPageEntry .size4KiB (table.pageEntry m page) := by
    intro n hseen hnumber
    obtain ⟨frame, flags, hmaps, -⟩ := hseen (n * 4096) (Nat.mul_div_cancel n (Nat.succ_pos _))
    rw [Nat.mul_div_cancel n (Nat.succ_pos _)] at hmaps
    exact .inr ⟨frame, flags, hmaps.lt, (hmaps.of_number hnumber).entry⟩
  by_cases hkernel : ∃ header ∈ elf.headers, (stage4Loader info table).Touches header page.number
  · obtain ⟨header, hheader, k, hk, hnumber⟩ := hkernel
    have hdiv := Nat.mul_div_cancel ((stage4Loader info table).firstPage header + k)
      (Nat.succ_pos 4095)
    obtain ⟨_, ⟨frame, flags, hmaps, -⟩, -⟩ := h.kernel.pages header hheader _ ⟨k, hk, hdiv⟩
    rw [hdiv] at hmaps
    exact .inr ⟨frame, flags, hmaps.lt, (hmaps.of_number hnumber).entry⟩
  by_cases hstack : InRange guardNumber 34 page.number
  · obtain ⟨k, hk, hnumber⟩ := hstack
    cases k with
    | zero =>
        obtain ⟨frame, hlt, hentry⟩ := h.guard
        exact .inr ⟨frame, .none, hlt, (table.pageEntry_eq_of_number m hnumber).trans hentry⟩
    | succ k =>
        obtain ⟨frame, hmaps, -⟩ := h.stack k (by omega)
        rw [Nat.add_assoc, Nat.add_comm 1 k] at hmaps
        exact .inr ⟨frame, _, hmaps.lt, (hmaps.of_number hnumber).entry⟩
  by_cases hswitch : page.number = (smallPage (build.contextSwitch / 4096)).number
  · exact hself h.switchPage hswitch
  by_cases hgdt : page.number = (smallPage (gdtFrame.address / 4096)).number
  · exact hself h.gdtPage hgdt
  by_cases hboot : page.number = (smallPage (bootInfoFrame.address / 4096)).number
  · exact hself h.bootInfoPage hboot
  exact .inl (h.others page hkernel hstack hswitch hgdt hboot)

theorem guard_not_mapsTo {page : Page .size4KiB} {frame : PhysicalFrame .size4KiB}
    {flags : PageTableEntryFlags} (hnumber : page.number = (smallPage guardNumber).number) :
    ¬ MapsTo table m page frame flags := by
  intro hmaps
  obtain ⟨frame', hlt, hentry⟩ := h.guard
  have hpresent := (hmaps.of_number hnumber.symm).isPresent
  rw [hentry, PageTableEntry.isPresent_setAddress frame'.aligned hlt] at hpresent
  exact absurd hpresent (by decide)

/-- Every mapped address lies in one of the regions. -/
theorem region_of_leadsTo (hready : Stage4Ready build info elf memory) (hcanonical : Canonical x)
    (hleads : LeadsTo table m x location rights) :
    (∃ header ∈ elf.headers, (stage4Loader info table).OnPage header x) ∨ OnStack x ∨
      x / 4096 = build.contextSwitch / 4096 ∨ x / 4096 = gdtFrame.address / 4096 ∨
      x / 4096 = bootInfoFrame.address / 4096 := by
  obtain ⟨frame, flags, hmaps, -, -⟩ := hleads
  have hlow : ∀ {address}, address < 2 ^ 46 → Canonical (address / 4096 * 4096) :=
    fun hlt => .inl (by omega)
  by_contra hnone
  simp only [not_or] at hnone
  obtain ⟨hkernel, hstack, hswitch, hgdt, hboot⟩ := hnone
  have hunused := h.others (smallPage (x / 4096))
    (fun ⟨header, hheader, k, hk, hnumber⟩ => hkernel ⟨header, hheader, k, hk,
      page_eq_of_number hcanonical (hready.page_canonical hheader hk) hnumber⟩)
    (fun ⟨k, hk, hnumber⟩ => by
      cases k with
      | zero => exact h.guard_not_mapsTo hnumber hmaps
      | succ k =>
          rw [Nat.add_comm k 1, ← Nat.add_assoc] at hnumber
          refine hstack (onStack_iff.mpr ⟨k, by omega, page_eq_of_number hcanonical ?_ hnumber⟩)
          unfold Canonical guardNumber
          omega)
    (fun hnumber => hswitch (page_eq_of_number hcanonical (hlow h.switchBelow) hnumber))
    (fun hnumber => hgdt (page_eq_of_number hcanonical (hlow h.gdtBelow) hnumber))
    (fun hnumber => hboot (page_eq_of_number hcanonical (hlow h.bootInfoBelow) hnumber))
  have hpresent := hmaps.isPresent
  rw [hunused] at hpresent
  cases hpresent

end Stage4Mapped

/-! ## The address space -/

structure KernelSpace (build : Stage4Build) (info : BiosInfo) (elf : ElfBinary)
    (memory : ByteMemory) (table : MappedPageTable PhysicalOffset)
    (gdtFrame bootInfoFrame : PhysicalFrame .size4KiB) (bootInfo : BootInfo) (highest : Nat)
    (m : ByteMemory) : Prop where
  range : OffsetRange physicalMemoryOffset highest
  pages : ∀ header ∈ elf.headers, ∀ x, (stage4Loader info table).OnPage header x →
    ∃ location, mmuWalk m table.pml4t x = some (location, header.rights)
  image : ∀ header ∈ elf.headers, ∀ x, (stage4Loader info table).InSegment header x →
    ∀ location rights, mmuWalk m table.pml4t x = some (location, rights) →
      m location = (stage4Loader info table).kernelImage elf memory x
  stack : ∀ x, OnStack x → ∃ location,
    mmuWalk m table.pml4t x = some (location, ⟨true, false, false⟩)
  /-- A byte of the stack is seen at no other address but that in the range of all memory. -/
  stackOwn : ∀ x, OnStack x → ∀ location rights,
    mmuWalk m table.pml4t x = some (location, rights) →
      ∀ y rights', mmuWalk m table.pml4t y = some (location, rights') →
        y = x ∨ location / 2 ^ 21 ≤ highest / 2 ^ 21 ∧ y = physicalMemoryOffset + location
  /-- Writing to the stack changes no translation. -/
  stackFree : ∀ m' : ByteMemory,
    (∀ y, (∀ x rights, OnStack x → mmuWalk m table.pml4t x ≠ some (y, rights)) → m' y = m y) →
      ∀ x, mmuWalk m' table.pml4t x = mmuWalk m table.pml4t x
  guard : ∀ x, x / 4096 = guardNumber → mmuWalk m table.pml4t x = none
  switch : ∀ x, x / 4096 = build.contextSwitch / 4096 →
    mmuWalk m table.pml4t x = some (x, ⟨false, true, false⟩) ∧ m x = memory x
  gdt : ∀ x, x / 4096 = gdtFrame.address / 4096 →
    mmuWalk m table.pml4t x = some (x, ⟨false, true, false⟩)
  gdtStored : m.Contains gdtFrame.address stage4Gdt.toBytes
  bootInfoPage : ∀ x, x / 4096 = bootInfoFrame.address / 4096 →
    mmuWalk m table.pml4t x = some (x, ⟨false, true, false⟩)
  bootInfoStored : BootInfoStored build bootInfoFrame bootInfo m
  physical : ∀ p, p / 2 ^ 21 ≤ highest / 2 ^ 21 →
    mmuWalk m table.pml4t (physicalMemoryOffset + p) = some (p, ⟨true, false, false⟩)
  nothingElse : ∀ x, mmuWalk m table.pml4t x ≠ none →
    (∃ header ∈ elf.headers, (stage4Loader info table).OnPage header x) ∨ OnStack x ∨
      x / 4096 = build.contextSwitch / 4096 ∨ x / 4096 = gdtFrame.address / 4096 ∨
      x / 4096 = bootInfoFrame.address / 4096 ∨
      ∃ p, p / 2 ^ 21 ≤ highest / 2 ^ 21 ∧ x = physicalMemoryOffset + p

theorem canonical_of_walk {root : Nat} (h : mmuWalk m root x ≠ none) : Canonical x := by
  by_contra hnot
  exact h (if_neg hnot)

section Walk

variable {A : Type} [FrameAllocator A] {tables used : PhysicalFrame .size4KiB → Prop}
  {highest : Nat} {s s' : Machine A}

theorem Stage4Mapped.stack_leadsTo
    (h : Stage4Mapped build info elf memory allocator table gdtFrame bootInfoFrame bootInfo m)
    (hx : OnStack x) : ∃ location, LeadsTo table m x location ⟨true, false, false⟩ ∧
      ¬ Stage4Kept allocator (.containingAddress .size4KiB location) := by
  obtain ⟨k, hk, hpage⟩ := onStack_iff.mp hx
  obtain ⟨frame, hmaps, hnew⟩ := h.stack k hk
  rw [← hpage] at hmaps
  refine ⟨_, ⟨frame, _, hmaps, rfl, by decide⟩, ?_⟩
  rw [frame.containingAddress_byte]
  exact hnew

/-- The frames behind all addresses but those of `context_switch` belong to the kernel. -/
theorem Stage4Mapped.own
    (h : Stage4Mapped build info elf memory allocator table gdtFrame bootInfoFrame bootInfo m)
    (hready : Stage4Ready build info elf memory) (hcanonical : Canonical x)
    (hleads : LeadsTo table m x location rights)
    (hswitch : x / 4096 ≠ build.contextSwitch / 4096) :
    Stage4Own info allocator (.containingAddress .size4KiB location) := by
  rcases h.region_of_leadsTo hready hcanonical hleads with
    ⟨header, hheader, hx⟩ | hx | hx | hx | hx
  · obtain ⟨location', hleads', hown⟩ := h.kernel.pages header hheader x hx
    obtain ⟨rfl, -⟩ := hleads.unique hleads'
    exact hown
  · obtain ⟨location', hleads', hnew⟩ := h.stack_leadsTo hx
    obtain ⟨rfl, -⟩ := hleads.unique hleads'
    exact .inl hnew
  · exact absurd hx hswitch
  · obtain ⟨rfl, -⟩ := hleads.unique (h.gdtPage x hx)
    rw [PhysicalFrame.containingAddress_of_number hx]
    exact .inl h.gdtNew
  · obtain ⟨rfl, -⟩ := hleads.unique (h.bootInfoPage x hx)
    rw [PhysicalFrame.containingAddress_of_number hx]
    exact .inl h.bootInfoNew

namespace LastStep

variable {kept : PhysicalFrame .size4KiB → Prop}

theorem walk_seenAtItself (h : LastStep table kept tables used highest s s') {address : Nat}
    (hlt : address < 2 ^ 46) (hseen : SeenAtItself table s.memory (address / 4096))
    (hx : x / 4096 = address / 4096) :
    mmuWalk s'.memory table.pml4t x = some (x, ⟨false, true, false⟩) ∧
      s'.memory x = s.memory x :=
  ⟨h.walk_of_leadsTo (canonical_of_page hlt hx) (hseen x hx), h.byte (hseen x hx)⟩

/-- What is found behind the last step is in the range of all memory, or was mapped before. -/
theorem physical_or_leadsTo (h : LastStep table kept tables used highest s s')
    (hwalk : mmuWalk s'.memory table.pml4t x = some (location, rights)) :
    (location / 2 ^ 21 ≤ highest / 2 ^ 21 ∧ x = physicalMemoryOffset + location) ∨
      LeadsTo table s.memory x location rights := by
  have hcanonical : Canonical x := canonical_of_walk (by rw [hwalk]; exact Option.some_ne_none _)
  by_cases hin : InWindow physicalMemoryOffset highest x
  · obtain ⟨p, hp, rfl⟩ := hin.exists_offset h.range hcanonical
    rw [mmuWalk_physical h.placement.separate h.identity h.range h.run hp] at hwalk
    obtain ⟨rfl, -⟩ := Prod.mk.inj (Option.some.inj hwalk)
    exact .inl ⟨hp, rfl⟩
  · exact .inr (h.leadsTo_of_walk hin hwalk)

theorem guard_unmapped
    (h : LastStep table (Stage4Kept allocator) tables used highest s s')
    (hmapped : Stage4Mapped build info elf memory allocator table gdtFrame bootInfoFrame bootInfo
      s.memory)
    (hx : x / 4096 = guardNumber) : mmuWalk s'.memory table.pml4t x = none := by
  cases hwalk : mmuWalk s'.memory table.pml4t x with
  | none => rfl
  | some result =>
      cases h.physical_or_leadsTo hwalk with
      | inl hphysical =>
          -- the stack lies in the upper half of the address space
          have hfits := h.range.fits
          unfold guardNumber at hx
          omega
      | inr hleads =>
          obtain ⟨frame, flags, hmaps, -, -⟩ := hleads
          exact absurd hmaps (hmapped.guard_not_mapsTo (by rw [hx]))

end LastStep

theorem LastStep.kernelSpace
    (h : LastStep table (Stage4Kept allocator) tables used highest s s')
    (hmapped : Stage4Mapped build info elf memory allocator table gdtFrame bootInfoFrame bootInfo
      s.memory)
    (hready : Stage4Ready build info elf memory) :
    KernelSpace build info elf memory table gdtFrame bootInfoFrame bootInfo highest s'.memory := by
  constructor
  case range => exact h.range
  case pages =>
    intro header hheader x hx
    obtain ⟨location, hleads, -⟩ := hmapped.kernel.pages header hheader x hx
    exact ⟨location, h.walk_of_leadsTo (hready.onPage_canonical hheader hx) hleads⟩
  case image =>
    intro header hheader x hx location rights hwalk
    obtain ⟨location', hleads, -⟩ := hmapped.kernel.pages header hheader x hx.onPage
    rw [h.walk_of_leadsTo (hready.onPage_canonical hheader hx.onPage) hleads] at hwalk
    obtain ⟨rfl, rfl⟩ := Prod.mk.inj (Option.some.inj hwalk)
    rw [h.byte hleads]
    exact hmapped.kernel.bytes header hheader x hx _ _ hleads
  case stack =>
    intro x hx
    obtain ⟨location, hleads, -⟩ := hmapped.stack_leadsTo hx
    exact ⟨location, h.walk_of_leadsTo hx.canonical hleads⟩
  case stackOwn =>
    intro x hx location rights hwalk y rights' hwalk'
    obtain ⟨location', hleads, hnew⟩ := hmapped.stack_leadsTo hx
    rw [h.walk_of_leadsTo hx.canonical hleads] at hwalk
    obtain ⟨rfl, rfl⟩ := Prod.mk.inj (Option.some.inj hwalk)
    have hcanonical : Canonical y := canonical_of_walk (by rw [hwalk']; exact Option.some_ne_none _)
    cases h.physical_or_leadsTo hwalk' with
    | inl hphysical => exact .inr hphysical
    | inr hleads' =>
        refine .inl ((h.eq_of_location hleads hleads' hx.canonical hcanonical).resolve_right ?_).symm
        exact hnew
  case stackFree =>
    intro m' hsame
    refine h.walk_congr fun y hnone => hsame y fun x rights hx hwalk => ?_
    obtain ⟨location, hleads, -⟩ := hmapped.stack_leadsTo hx
    rw [h.walk_of_leadsTo hx.canonical hleads] at hwalk
    obtain ⟨rfl, -⟩ := Prod.mk.inj (Option.some.inj hwalk)
    exact hnone x _ hleads
  case guard => exact fun x hx => h.guard_unmapped hmapped hx
  case switch =>
    intro x hx
    obtain ⟨hwalk, hbyte⟩ := h.walk_seenAtItself hmapped.switchBelow hmapped.switchPage hx
    exact ⟨hwalk, hbyte.trans (hmapped.code x hx)⟩
  case gdt => exact fun x hx => (h.walk_seenAtItself hmapped.gdtBelow hmapped.gdtPage hx).1
  case gdtStored =>
    have hlength : stage4Gdt.toBytes.length = 72 := rfl
    have haligned : gdtFrame.address % 4096 = 0 := gdtFrame.aligned
    exact hmapped.gdtStored.congr fun x hle hlt =>
      (h.walk_seenAtItself hmapped.gdtBelow hmapped.gdtPage (by omega)).2
  case bootInfoPage =>
    exact fun x hx => (h.walk_seenAtItself hmapped.bootInfoBelow hmapped.bootInfoPage hx).1
  case bootInfoStored =>
    exact hmapped.bootInfoStored.congr (hready.bootInfoLength _) fun x hx =>
      (h.walk_seenAtItself hmapped.bootInfoBelow hmapped.bootInfoPage hx).2
  case physical =>
    exact fun p hp => mmuWalk_physical h.placement.separate h.identity h.range h.run hp
  case nothingElse =>
    intro x hwalk
    obtain ⟨⟨location, rights⟩, hresult⟩ := Option.ne_none_iff_exists'.mp hwalk
    cases h.physical_or_leadsTo hresult with
    | inl hphysical => exact .inr (.inr (.inr (.inr (.inr ⟨location, hphysical⟩))))
    | inr hleads =>
        have hregion := hmapped.region_of_leadsTo hready (canonical_of_walk hwalk) hleads
        rcases hregion with hkernel | hstack | hswitch | hgdt | hboot
        · exact .inl hkernel
        · exact .inr (.inl hstack)
        · exact .inr (.inr (.inl hswitch))
        · exact .inr (.inr (.inr (.inl hgdt)))
        · exact .inr (.inr (.inr (.inr (.inl hboot))))

end Walk

/-! ## Writes to the stack -/

namespace KernelSpace

variable {highest : Nat} {m' : ByteMemory}

/-- The location of an address that is neither on the stack nor in the range of all memory is
none of the stack. -/
theorem not_stack (h : KernelSpace build info elf memory table gdtFrame bootInfoFrame bootInfo
      highest m) (hx : ¬ OnStack x) (hwalk : mmuWalk m table.pml4t x = some (location, rights))
    (hout : x = location ∨ 2 ^ 47 ≤ x) {z : Nat} {rights' : Rights} (hz : OnStack z) :
    mmuWalk m table.pml4t z ≠ some (location, rights') := by
  intro hwalk'
  have hfits := h.range.fits
  cases h.stackOwn z hz location rights' hwalk' x rights hwalk with
  | inl heq => exact hx (heq ▸ hz)
  | inr hrange =>
      obtain ⟨hle, heq⟩ := hrange
      unfold physicalMemoryOffset at heq hfits
      omega

theorem congr (h : KernelSpace build info elf memory table gdtFrame bootInfoFrame bootInfo
      highest m) (hready : Stage4Ready build info elf memory)
    (hsame : ∀ y, (∀ x rights, OnStack x → mmuWalk m table.pml4t x ≠ some (y, rights)) →
      m' y = m y) :
    KernelSpace build info elf memory table gdtFrame bootInfoFrame bootInfo highest m' := by
  have hwalk := h.stackFree m' hsame
  -- the frames that are seen at their own addresses are executable, and the stack is not
  have hself : ∀ x, mmuWalk m table.pml4t x = some (x, ⟨false, true, false⟩) → m' x = m x := by
    intro x hx
    refine hsame x fun z rights hz => h.not_stack (fun hon => ?_) hx (.inl rfl) hz
    obtain ⟨location, hstack⟩ := h.stack x hon
    rw [hx] at hstack
    cases hstack
  constructor
  case range => exact h.range
  case pages =>
    intro header hheader x hx
    rw [hwalk]
    exact h.pages header hheader x hx
  case image =>
    intro header hheader x hx location rights hlocation
    rw [hwalk] at hlocation
    rw [← h.image header hheader x hx location rights hlocation]
    have hlow : kernelVirtualBase ≤ x := Nat.le_trans (Nat.le_add_right _ _) hx.1
    unfold kernelVirtualBase at hlow
    refine hsame location fun z rights' hz =>
      h.not_stack (fun hon => ?_) hlocation (.inr (by omega)) hz
    unfold OnStack kernelStackTop at hon
    omega
  case stack =>
    intro x hx
    rw [hwalk]
    exact h.stack x hx
  case stackOwn =>
    intro x hx location rights hlocation y rights' hlocation'
    rw [hwalk] at hlocation hlocation'
    exact h.stackOwn x hx location rights hlocation y rights' hlocation'
  case stackFree =>
    intro m'' hsame' x
    rw [hwalk]
    refine h.stackFree m'' (fun y hnone => ?_) x
    rw [← hsame y hnone]
    refine hsame' y fun x rights hx => ?_
    rw [hwalk]
    exact hnone x rights hx
  case guard =>
    intro x hx
    rw [hwalk]
    exact h.guard x hx
  case switch =>
    intro x hx
    obtain ⟨hlocation, hbyte⟩ := h.switch x hx
    rw [hwalk, hself x hlocation]
    exact ⟨hlocation, hbyte⟩
  case gdt =>
    intro x hx
    rw [hwalk]
    exact h.gdt x hx
  case gdtStored =>
    have hlength : stage4Gdt.toBytes.length = 72 := rfl
    have haligned : gdtFrame.address % 4096 = 0 := gdtFrame.aligned
    exact h.gdtStored.congr fun x hle hlt => hself x (h.gdt x (by omega))
  case bootInfoPage =>
    intro x hx
    rw [hwalk]
    exact h.bootInfoPage x hx
  case bootInfoStored =>
    exact h.bootInfoStored.congr (hready.bootInfoLength _) fun x hx =>
      hself x (h.bootInfoPage x hx)
  case physical =>
    intro p hp
    rw [hwalk]
    exact h.physical p hp
  case nothingElse =>
    intro x hx
    rw [hwalk] at hx
    exact h.nothingElse x hx

end KernelSpace

end Regions

/-! ## The processor -/

/-- The registers that `context_switch` changes, with the memory. -/
structure SwitchState where
  cr3 : Nat
  rsp : Nat
  rbp : Nat
  rip : Nat
  memory : ByteMemory

/-- The instructions of `context_switch`, with the values of the registers they name. -/
inductive SwitchInstruction where
  | xorRbp
  | movCr3 (value : Nat)
  | movRsp (value : Nat)
  | push (value : Nat)
  | jmp (target : Nat)

/-- The code of `context_switch`. -/
def contextSwitch (pageTable stackTop entryPoint : Nat) : List SwitchInstruction :=
  [.xorRbp, .movCr3 pageTable, .movRsp stackTop, .push 0, .jmp entryPoint]

def fetches (m : ByteMemory) (cr3 : Nat) : Nat → List UInt8 → Bool
  | _, [] => true
  | address, byte :: bytes =>
      (match mmuWalk m cr3 address with
      | some (location, rights) => rights.executable && m location == byte
      | none => false) && fetches m cr3 (address + 1) bytes

def storeThrough (cr3 : Nat) : Nat → List UInt8 → ByteMemory → Option ByteMemory
  | _, [], m => some m
  | address, byte :: bytes, m =>
      match mmuWalk m cr3 address with
      | some (location, rights) =>
          if rights.writable then storeThrough cr3 (address + 1) bytes (m.store location [byte])
          else none
      | none => none

namespace SwitchState

/-- One instruction. There is no result when it is not what the processor fetches, or when it
faults. -/
def step (encode : SwitchInstruction → List UInt8) (st : SwitchState)
    (instruction : SwitchInstruction) : Option SwitchState :=
  if fetches st.memory st.cr3 st.rip (encode instruction) then
    let next := st.rip + (encode instruction).length
    match instruction with
    | .xorRbp => some { st with rbp := 0, rip := next }
    | .movCr3 value => some { st with cr3 := value, rip := next }
    | .movRsp value => some { st with rsp := value, rip := next }
    | .push value =>
        let rsp := (st.rsp + 2 ^ 64 - 8) % 2 ^ 64
        (storeThrough st.cr3 rsp (toLittleEndian 8 value) st.memory).map fun memory =>
          { st with rsp, rip := next, memory }
    | .jmp target => some { st with rip := target }
  else none

def run (encode : SwitchInstruction → List UInt8) (code : List SwitchInstruction)
    (st : SwitchState) : Option SwitchState :=
  code.foldlM (step encode) st

end SwitchState

theorem fetches_self {m : ByteMemory} {cr3 address : Nat} {bytes : List UInt8}
    (hcontains : m.Contains address bytes)
    (hwalk : ∀ i < bytes.length, ∃ rights,
      mmuWalk m cr3 (address + i) = some (address + i, rights) ∧ rights.executable = true) :
    fetches m cr3 address bytes = true := by
  induction bytes generalizing address with
  | nil => rfl
  | cons byte bytes ih =>
      obtain ⟨rights, hfirst, hexecutable⟩ := hwalk 0 (Nat.succ_pos _)
      rw [Nat.add_zero] at hfirst
      have hsplit := ByteMemory.contains_append.mp
        (show m.Contains address ([byte] ++ bytes) from hcontains)
      have hbyte : m address = byte := List.singleton_inj.mp hsplit.1
      have hrest := ih hsplit.2 fun i hi => by
        have hnext := hwalk (i + 1) (Nat.succ_lt_succ hi)
        rwa [Nat.add_comm i 1, ← Nat.add_assoc] at hnext
      change fetches m cr3 (address + 1) bytes = true at hrest
      simp only [fetches, hfirst, hexecutable, hbyte, hrest, BEq.rfl, Bool.and_true]

section Switch

variable {build : Stage4Build} {info : BiosInfo} {elf : ElfBinary} {memory m : ByteMemory}
  {table : MappedPageTable PhysicalOffset} {gdtFrame bootInfoFrame : PhysicalFrame .size4KiB}
  {bootInfo : BootInfo} {highest : Nat}

theorem KernelSpace.stack_injective
    (h : KernelSpace build info elf memory table gdtFrame bootInfoFrame bootInfo highest m)
    {x y location : Nat} {rights rights' : Rights} (hx : OnStack x) (hy : OnStack y)
    (hwalk : mmuWalk m table.pml4t x = some (location, rights))
    (hwalk' : mmuWalk m table.pml4t y = some (location, rights')) : y = x := by
  have hfits := h.range.fits
  cases h.stackOwn x hx location rights hwalk y rights' hwalk' with
  | inl heq => exact heq
  | inr hrange =>
      obtain ⟨hle, heq⟩ := hrange
      unfold OnStack kernelStackTop kernelStackSize at hy
      unfold physicalMemoryOffset at heq hfits
      omega

theorem KernelSpace.storeThrough
    (h : KernelSpace build info elf memory table gdtFrame bootInfoFrame bootInfo highest m)
    (hready : Stage4Ready build info elf memory) {address : Nat} {bytes : List UInt8}
    (hstack : ∀ i < bytes.length, OnStack (address + i)) :
    ∃ m', MiniatureOs.storeThrough table.pml4t address bytes m = some m' ∧
      KernelSpace build info elf memory table gdtFrame bootInfoFrame bootInfo highest m' ∧
      (∀ x, mmuWalk m' table.pml4t x = mmuWalk m table.pml4t x) ∧
      (∀ y, (∀ i < bytes.length, ∀ rights,
        mmuWalk m table.pml4t (address + i) ≠ some (y, rights)) → m' y = m y) ∧
      ∀ i (hi : i < bytes.length) location rights,
        mmuWalk m table.pml4t (address + i) = some (location, rights) → m' location = bytes[i] := by
  induction bytes generalizing address m with
  | nil =>
      exact ⟨m, rfl, h, fun _ => rfl, fun _ _ => rfl, fun i hi => absurd hi (Nat.not_lt_zero i)⟩
  | cons byte bytes ih =>
      have hfirst : OnStack address := hstack 0 (Nat.succ_pos _)
      obtain ⟨location, hwalk⟩ := h.stack address hfirst
      have hother : ∀ y, y ≠ location → m.store location [byte] y = m y := by
        intro y hy
        refine ByteMemory.store_outside ?_
        rw [List.length_singleton]
        omega
      have hsame : ∀ y, (∀ x rights, OnStack x → mmuWalk m table.pml4t x ≠ some (y, rights)) →
          m.store location [byte] y = m y := by
        intro y hnone
        refine hother y fun heq => hnone address ⟨true, false, false⟩ hfirst ?_
        rw [heq]
        exact hwalk
      have hwalks := h.stackFree _ hsame
      have hnext : ∀ i < bytes.length, OnStack (address + 1 + i) := by
        intro i hi
        rw [Nat.add_assoc, Nat.add_comm 1 i]
        exact hstack (i + 1) (Nat.succ_lt_succ hi)
      obtain ⟨m', hrun, hspace, hwalks', hkept, hstored⟩ := ih (h.congr hready hsame) hnext
      have hindex : ∀ i, address + 1 + i = address + (i + 1) := fun i => by omega
      simp only [hwalks, hindex] at hkept hstored
      refine ⟨m', ?_, hspace, fun x => (hwalks' x).trans (hwalks x), fun y hnone => ?_,
        fun i hi location' rights hlocation => ?_⟩
      · simp only [MiniatureOs.storeThrough, hwalk, if_true, hrun]
      · rw [hkept y fun i hi => hnone (i + 1) (Nat.succ_lt_succ hi)]
        refine hother y fun heq => hnone 0 (Nat.succ_pos _) ⟨true, false, false⟩ ?_
        rw [heq]
        exact hwalk
      · cases i with
        | zero =>
            -- the bytes behind it go to other places
            rw [Nat.add_zero, hwalk] at hlocation
            obtain ⟨rfl, -⟩ := Prod.mk.inj (Option.some.inj hlocation)
            rw [hkept location fun i hi rights hagain => ?_]
            · exact ByteMemory.store_inside (show 0 < [byte].length from Nat.succ_pos _)
            · have heq :=
                h.stack_injective hfirst (hstack (i + 1) (Nat.succ_lt_succ hi)) hwalk hagain
              omega
        | succ i => exact hstored i (Nat.lt_of_succ_lt_succ hi) location' rights hlocation

theorem KernelSpace.fetches
    (h : KernelSpace build info elf memory table gdtFrame bootInfoFrame bootInfo highest m)
    {address : Nat} {bytes : List UInt8} (hstored : memory.Contains address bytes)
    (hpage : ∀ x, address ≤ x → x < address + bytes.length →
      x / 4096 = build.contextSwitch / 4096) :
    MiniatureOs.fetches m table.pml4t address bytes = true := by
  refine fetches_self (hstored.congr fun x hle hlt => (h.switch x (hpage x hle hlt)).2) ?_
  intro i hi
  exact ⟨_, (h.switch _ (hpage _ (Nat.le_add_right _ _) (by omega))).1, rfl⟩

/-! ## From stage 4 to the kernel -/

theorem maxPhysicalAddress_congr {allocator allocator' : BumpFrameAllocator E820MemoryRegion}
    (h : allocator'.memoryMap = allocator.memoryMap) :
    allocator'.maxPhysicalAddress = allocator.maxPhysicalAddress := by
  rw [maxPhysicalAddress, maxPhysicalAddress, h]

theorem bootInfo_offset {s s' : Machine (BumpFrameAllocator E820MemoryRegion)}
    (h : allocateAndMapBootInfo build info table s = .ok (bootInfoFrame, bootInfo, s')) :
    bootInfo.physicalMemoryOffset = physicalMemoryOffset := by
  obtain ⟨⟨frame, s₁⟩, -, h⟩ := Checked.bind_eq_ok.mp h
  obtain ⟨memoryMap, -, h⟩ := Checked.bind_eq_ok.mp h
  obtain ⟨_, -, h⟩ := Checked.bind_eq_ok.mp h
  obtain ⟨s₂, -, h⟩ := Checked.bind_eq_ok.mp h
  cases h
  rfl

theorem Stage4Ready.lastStep (h : Stage4Ready build info elf memory) {handOver : HandOver}
    (hrun : Stage4.start build info memory = .ok handOver) :
    ∃ allocator table gdtFrame tables used highest s,
      stage4Allocator info = .ok allocator ∧ handOver.pageTable = table.pml4t ∧
      handOver.stackTop = kernelStackTop ∧
      handOver.entryPoint = kernelVirtualBase + elf.entryPoint ∧
      handOver.bootInfo.physicalMemoryOffset = physicalMemoryOffset ∧
      handOver.machine.allocator.memoryMap = allocator.memoryMap ∧
      handOver.machine.allocator.maxPhysicalAddress = .ok highest ∧
      LastStep table (Stage4Kept allocator) tables used highest s handOver.machine ∧
      Stage4Mapped build info elf memory allocator table gdtFrame handOver.bootInfoFrame
        handOver.bootInfo s.memory := by
  obtain ⟨allocator, halloc, hrun⟩ := Checked.bind_eq_ok.mp hrun
  obtain ⟨⟨table, entryPoint, stackTop, s⟩, hprepare, hrun⟩ := Checked.bind_eq_ok.mp hrun
  obtain ⟨⟨frame, bootInfo, s₁⟩, hboot, hrun⟩ := Checked.bind_eq_ok.mp hrun
  obtain ⟨highest, hhighest, hrun⟩ := Checked.bind_eq_ok.mp hrun
  obtain ⟨machine, hphysical, hrun⟩ := Checked.bind_eq_ok.mp hrun
  cases hrun
  obtain ⟨s₂, _, halloc₂, -, -, hmapped₂⟩ := allocateAndMapBootInfo_spec hboot
  have hmap : s₁.allocator.memoryMap = allocator.memoryMap :=
    (((prepareKernel_advances hprepare).trans (expectFrame_advances halloc₂)).trans
      hmapped₂).sameMap
  have hafter := (mapCompletePhysicalMemorySpaceIntoKernel_advances hphysical).sameMap.trans hmap
  rw [maxPhysicalAddress_congr hmap] at hhighest
  obtain ⟨hzero, hentry, htop, gdtFrame, tables, used, hplaced, hmapped⟩ :=
    h.mapped halloc hprepare hboot
  refine ⟨allocator, table, gdtFrame, tables, used, highest, s₁, halloc, rfl, htop, hentry,
    bootInfo_offset hboot, hafter, ?_, ⟨hplaced, hzero, h.map.offsetRange halloc hhighest,
      hphysical, hmapped.entries⟩, hmapped⟩
  rw [maxPhysicalAddress_congr hafter]
  exact hhighest

theorem Stage4Ready.kernelSpace (h : Stage4Ready build info elf memory) {handOver : HandOver}
    (hrun : Stage4.start build info memory = .ok handOver) :
    handOver.stackTop = kernelStackTop ∧
      handOver.entryPoint = kernelVirtualBase + elf.entryPoint ∧
      ∃ table gdtFrame highest, handOver.pageTable = table.pml4t ∧
        handOver.machine.allocator.maxPhysicalAddress = .ok highest ∧
        KernelSpace build info elf memory table gdtFrame handOver.bootInfoFrame handOver.bootInfo
          highest handOver.machine.memory := by
  obtain ⟨allocator, table, gdtFrame, tables, used, highest, s, -, hroot, htop, hentry, -, -,
    hhighest, hstep, hmapped⟩ := h.lastStep hrun
  exact ⟨htop, hentry, table, gdtFrame, highest, hroot, hhighest, hstep.kernelSpace hmapped h⟩

/-- `context_switch` does not fault when its code lies in one page and is executable before the
switch. The kernel begins at its entry point, on a stack with a zero on top, in an address
space with its own image, all of memory, and what it is handed over. -/
theorem contextSwitch_entersKernel (build : Stage4Build) (info : BiosInfo) (elf : ElfBinary)
    (memory : ByteMemory) (hready : Stage4Ready build info elf memory) (handOver : HandOver)
    (hrun : Stage4.start build info memory = .ok handOver)
    (encode : SwitchInstruction → List UInt8) (code : List UInt8)
    (hcode : code = (contextSwitch handOver.pageTable handOver.stackTop
      handOver.entryPoint).flatMap encode)
    (before : SwitchState) (hmemory : before.memory = handOver.machine.memory)
    (hstored : memory.Contains before.rip code)
    (hpage : ∀ i < code.length, (before.rip + i) / 4096 = build.contextSwitch / 4096)
    (hmapped : ∀ i < code.length, ∃ rights, mmuWalk before.memory before.cr3 (before.rip + i) =
      some (before.rip + i, rights) ∧ rights.executable = true) :
    ∃ after table gdtFrame highest,
      before.run encode (contextSwitch handOver.pageTable handOver.stackTop
        handOver.entryPoint) = some after ∧
      after.rip = kernelVirtualBase + elf.entryPoint ∧ after.cr3 = table.pml4t ∧
      after.rsp = kernelStackTop - 8 ∧ after.rbp = 0 ∧
      (∀ i < 8, ∃ location, mmuWalk after.memory table.pml4t (kernelStackTop - 8 + i) =
        some (location, ⟨true, false, false⟩) ∧ after.memory location = 0) ∧
      handOver.machine.allocator.maxPhysicalAddress = .ok highest ∧
      KernelSpace build info elf memory table gdtFrame handOver.bootInfoFrame handOver.bootInfo
        highest after.memory := by
  obtain ⟨htop, hentry, table, gdtFrame, highest, hroot, hhighest, hspace⟩ :=
    hready.kernelSpace hrun
  rw [hroot, htop, hentry] at hcode ⊢
  rw [← hmemory] at hspace
  have hpage' : ∀ x, before.rip ≤ x → x < before.rip + code.length →
      x / 4096 = build.contextSwitch / 4096 := by
    intro x hle hlt
    have hx := hpage (x - before.rip) (by omega)
    rwa [Nat.add_sub_cancel' hle] at hx
  have hmapped' : ∀ x, before.rip ≤ x → x < before.rip + code.length → ∃ rights,
      mmuWalk before.memory before.cr3 x = some (x, rights) ∧ rights.executable = true := by
    intro x hle hlt
    have hx := hmapped (x - before.rip) (by omega)
    rwa [Nat.add_sub_cancel' hle] at hx
  have hbefore : ∀ x, before.rip ≤ x → x < before.rip + code.length →
      before.memory x = memory x := fun x hle hlt => (hspace.switch x (hpage' x hle hlt)).2
  simp only [contextSwitch, List.flatMap_cons, List.flatMap_nil, List.append_nil] at hcode
  have hlength := congrArg List.length hcode
  simp only [List.length_append] at hlength
  rw [hcode] at hstored
  obtain ⟨hxor, hstored⟩ := ByteMemory.contains_append.mp hstored
  obtain ⟨hcr3, hstored⟩ := ByteMemory.contains_append.mp hstored
  obtain ⟨hrsp, hstored⟩ := ByteMemory.contains_append.mp hstored
  obtain ⟨hpush, hjmp⟩ := ByteMemory.contains_append.mp hstored
  -- up to the write to `CR3` the code is seen through the old table
  have hfetch₁ : fetches before.memory before.cr3 before.rip (encode .xorRbp) = true :=
    fetches_self (hxor.congr fun x hle hlt => hbefore x (by omega) (by omega))
      fun i hi => hmapped' _ (by omega) (by omega)
  have hfetch₂ : fetches before.memory before.cr3 (before.rip + (encode .xorRbp).length)
      (encode (.movCr3 table.pml4t)) = true :=
    fetches_self (hcr3.congr fun x hle hlt => hbefore x (by omega) (by omega))
      fun i hi => hmapped' _ (by omega) (by omega)
  have hfetch₃ := hspace.fetches hrsp fun x hle hlt => hpage' x (by omega) (by omega)
  have hfetch₄ := hspace.fetches hpush fun x hle hlt => hpage' x (by omega) (by omega)
  have hlength₀ : (toLittleEndian 8 0).length = 8 := toLittleEndian_length 8 0
  have hstack : ∀ i < (toLittleEndian 8 0).length, OnStack (kernelStackTop - 8 + i) := by
    intro i hi
    unfold OnStack kernelStackTop kernelStackSize
    omega
  obtain ⟨m', hstore, hspace', hwalk, -, hzero⟩ := hspace.storeThrough hready hstack
  have hfetch₅ := hspace'.fetches hjmp fun x hle hlt => hpage' x (by omega) (by omega)
  have hwrap : (kernelStackTop + 2 ^ 64 - 8) % 2 ^ 64 = kernelStackTop - 8 := by decide
  refine ⟨⟨table.pml4t, kernelStackTop - 8, 0, kernelVirtualBase + elf.entryPoint, m'⟩, table,
    gdtFrame, highest, ?_, rfl, rfl, rfl, rfl, fun i hi => ?_, hhighest, hspace'⟩
  · simp only [SwitchState.run, contextSwitch, List.foldlM_cons, List.foldlM_nil,
      SwitchState.step, hfetch₁, hfetch₂, hfetch₃, hfetch₄, hfetch₅, hwrap, hstore, if_true,
      Option.map_some, Option.bind_eq_bind, Option.bind_some, Option.pure_def]
  · obtain ⟨location, hlocation⟩ := hspace'.stack _ (hstack i (by omega))
    refine ⟨location, hlocation, ?_⟩
    rw [hwalk] at hlocation
    change m' location = 0
    rw [hzero i (by omega) location _ hlocation]
    have hbytes : toLittleEndian 8 0 = List.replicate 8 0 := by decide
    simp only [hbytes, List.getElem_replicate]

end Switch

/-- The instructions with `rax`, `rcx` and `rdx` as the registers. -/
def encodeSwitch : SwitchInstruction → List UInt8
  | .xorRbp => [0x48, 0x31, 0xed]
  | .movCr3 _ => [0x0f, 0x22, 0xd8]
  | .movRsp _ => [0x48, 0x89, 0xcc]
  | .push _ => [0x6a, 0x00]
  | .jmp _ => [0xff, 0xe2]

/-- The code of the switch at the address of `context_switch`, and tables that map the first
2 MiB to themselves. -/
def switchMemory : ByteMemory :=
  let m : ByteMemory := fun _ => 0
  let m := m.store 0x1000 (toLittleEndian 8 0x2003)
  let m := m.store 0x2000 (toLittleEndian 8 0x3003)
  let m := m.store 0x3000 (toLittleEndian 8 0x83)
  m.store 0x120000 ((contextSwitch 0 0 0).flatMap encodeSwitch)

theorem stage4Ready_switchMemory :
    Stage4Ready onePageBuild twoRegionsInfo
      ⟨[⟨0, 0, 0x1000, 0x1000, true, false⟩], [], [], 0⟩ switchMemory where
  map :=
    { sorted := sorted_twoRegionsInfo
      aligned := by decide
      disjoint := disjointRegions_of_ends_le (by decide)
      below := by decide
      moved := by
        intro allocator halloc
        have hresult : stage4Allocator twoRegionsInfo = .ok ⟨stage4Regions, 0⟩ := by decide
        rw [hresult] at halloc
        cases halloc
        exact disjointRegions_of_ends_le (by decide) }
  imageAligned := by decide
  imagePos := by decide
  imageEnd := by decide
  switchBelow := by decide
  switchOutside := by decide
  bootInfoLength := fun _ => List.length_replicate
  parse := rfl
  valid := List.forall_mem_singleton.mpr ⟨by decide, by decide, by decide⟩
  inSpace := by decide
  files := by
    intro a ha b hb _ _ _ _ _
    rw [List.mem_singleton.mp ha, List.mem_singleton.mp hb]
  relocations := by simp

theorem contextSwitch_entersKernel_onePage :
    ∃ handOver after table gdtFrame highest,
      Stage4.start onePageBuild twoRegionsInfo switchMemory = .ok handOver ∧
      SwitchState.run encodeSwitch
        (contextSwitch handOver.pageTable handOver.stackTop handOver.entryPoint)
        ⟨0x1000, 0, 0, 0x120000, handOver.machine.memory⟩ = some after ∧
      after.rip = 0xffffffff80000000 ∧ after.rsp = 0xfffffffefffffff8 ∧
      KernelSpace onePageBuild twoRegionsInfo
        ⟨[⟨0, 0, 0x1000, 0x1000, true, false⟩], [], [], 0⟩ switchMemory table gdtFrame
        handOver.bootInfoFrame handOver.bootInfo highest after.memory := by
  have hresult : (Stage4.start onePageBuild twoRegionsInfo switchMemory).toOption.map
      (fun handOver => (List.range 13).all fun i => decide (mmuWalk handOver.machine.memory 0x1000
        (0x120000 + i) = some (0x120000 + i, ⟨true, true, false⟩))) = some true := by
    decide +kernel
  have hpage : ∀ i < ((contextSwitch 0 0 0).flatMap encodeSwitch).length,
      (0x120000 + i) / 4096 = onePageBuild.contextSwitch / 4096 := by decide
  cases hrun : Stage4.start onePageBuild twoRegionsInfo switchMemory with
  | error panic =>
      rw [hrun] at hresult
      cases hresult
  | ok handOver =>
      rw [hrun] at hresult
      have hwalk := List.all_eq_true.mp (Option.some.inj hresult)
      obtain ⟨after, table, gdtFrame, highest, hswitch, hrip, -, hrsp, -, -, -, hspace⟩ :=
        contextSwitch_entersKernel onePageBuild twoRegionsInfo
          ⟨[⟨0, 0, 0x1000, 0x1000, true, false⟩], [], [], 0⟩ switchMemory stage4Ready_switchMemory
          handOver hrun encodeSwitch ((contextSwitch 0 0 0).flatMap encodeSwitch) rfl
          ⟨0x1000, 0, 0, 0x120000, handOver.machine.memory⟩ rfl
          (ByteMemory.contains_store _ _ _) hpage
          fun i hi => ⟨_, of_decide_eq_true (hwalk i (List.mem_range.mpr hi)), rfl⟩
      exact ⟨handOver, after, table, gdtFrame, highest, rfl, hswitch, hrip, hrsp, hspace⟩

end MiniatureOs
