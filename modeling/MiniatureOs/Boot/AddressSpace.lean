import MiniatureOs.Boot.Physical
import MiniatureOs.Elf.Image
import MiniatureOs.Paging.Walk

/-! # The address space of the kernel

When stage 4 calls `context_switch`, the processor gets a new page table in the middle of the
function. From then on it sees the kernel, its stack, the page of `context_switch`, the global
descriptor table, the boot information and all of physical memory, and nothing else. Each
step of `start` maps pages that were absent, so that what the earlier steps have mapped stays
as it is, and no page of small size can lie in the range of the last step.
-/

namespace MiniatureOs

open PageTableFrameMapping MappedPageTable

section Complete

variable {A : Type} [FrameAllocator A] {sizes : Nat → PageSize}
  {table : MappedPageTable PhysicalOffset} {tables used : PhysicalFrame .size4KiB → Prop}
  {s s' : Machine A} {offset highest x : Nat}

/-! ## A run of the last step -/

/-- The pages of a run that returned were absent, and only they have changed. -/
theorem mapComplete_fills (h : Separate sizes table tables used s)
    (hrange : OffsetRange offset highest)
    (hfits : ∀ k ≤ highest / 2 ^ 21, (offsetPage offset k).Fits sizes)
    (hrun : mapCompletePhysicalMemorySpaceIntoKernel table highest offset s = .ok s') :
    (∀ k < highest / 2 ^ 21 + 1, PageTableEntry.isPresent
      (table.pageEntry s.memory (offsetPage offset k)) = false) ∧
    ∃ tables' used', Extends sizes table tables used tables' used' s s' ∧
      FillsPages sizes table (offsetPage offset) largeEntry (highest / 2 ^ 21 + 1)
        s.memory s'.memory := by
  have hlast : (PhysicalFrame.containingAddress .size2MiB highest).address =
      highest / 2 ^ 21 * 2 ^ 21 := by
    rw [containingAddress_frame, largeFrame_address]
  have hcount : RangeOf .size2MiB 0 (highest / 2 ^ 21 * 2 ^ 21) (highest / 2 ^ 21 + 1) := by
    simp only [RangeOf, PageSize.size]
    omega
  obtain ⟨_, -, hrun⟩ := Checked.bind_eq_ok.mp hrun
  have hfirst : (PhysicalFrame.containingAddress .size2MiB 0).address = 0 := rfl
  rw [PhysicalFrame.forRange, hfirst, hlast] at hrun
  refine (rangeLoop_ok (I := fun k s₁ => (∀ j < k, PageTableEntry.isPresent
      (table.pageEntry s.memory (offsetPage offset j)) = false) ∧
    ∃ tables' used', Extends sizes table tables used tables' used' s s₁ ∧
      FillsPages sizes table (offsetPage offset) largeEntry k s.memory s₁.memory)
    hcount ?_ ?_ hrun).1
  · intro k s₁ s₂ hk hI hround
    obtain ⟨hearlier, tables₁, used₁, hextends, hfilled⟩ := hI
    have hk' : k ≤ highest / 2 ^ 21 := by omega
    have hframe : PhysicalFrame.containingAddress .size2MiB (0 + k * PageSize.size2MiB.size) =
        largeFrame k := by
      rw [Nat.zero_add]
      rfl
    rw [hframe] at hround
    obtain ⟨address, hadd, hround⟩ := Checked.bind_eq_ok.mp hround
    obtain ⟨flusher, hmap⟩ := expectMapTo_eq_ok hround
    rw [(Checked.add_eq_ok.mp hadd).2, largeFrame_address] at hmap
    obtain ⟨tables₂, used₂, hextends₂, houtcome⟩ := hextends.separate.mapTo_spec
      (PhysicalOffset.injectiveMapping table.mapping) (hfits k hk') hmap
    cases houtcome with
    | mapped absent updates =>
        have hsame := hfilled.others (offsetPage offset k) (hfits k hk')
          fun j hj => hrange.not_aliases hj hk'
        have habsent : PageTableEntry.isPresent
            (table.pageEntry s.memory (offsetPage offset k)) = false := by
          rw [← hsame]
          exact absent
        refine ⟨fun j hj => ?_, tables₂, used₂, hextends.trans hextends₂, hfilled.succ updates
          (fun j hj => hfits j (by omega)) fun j hj halias => hrange.not_aliases hj hk' halias.symm⟩
        cases Nat.lt_or_eq_of_le (Nat.le_of_lt_succ hj) with
        | inl hlt => exact hearlier j hlt
        | inr heq =>
            rw [heq]
            exact habsent
  · exact ⟨fun j hj => absurd hj (Nat.not_lt_zero j), tables, used,
      (Grows.of_memory_eq h rfl h.fresh).toExtends, .zero⟩

def InWindow (offset highest x : Nat) : Prop :=
  offset / 2 ^ 21 ≤ slotOf x ∧ slotOf x ≤ (offset + highest) / 2 ^ 21

/-- No link leads into the range: large pages are mapped over absent entries only. -/
theorem mapComplete_absent (h : Separate smallPages table tables used s)
    (hrange : OffsetRange offset highest)
    (hrun : mapCompletePhysicalMemorySpaceIntoKernel table highest offset s = .ok s')
    (hx : InWindow offset highest x) :
    PageTableEntry.isPresent (table.slotEntry s.memory x) = false := by
  -- no path is followed below the slots, so every slot may be taken for a large page
  have hlarge : Separate (fun _ => .size2MiB) table tables used s :=
    ⟨h.toWellFormed.large, h.tables_used, h.root_used, h.fresh⟩
  obtain ⟨habsent, -⟩ := mapComplete_fills hlarge hrange (fun _ _ => rfl) hrun
  have haligned := hrange.aligned
  obtain ⟨hlow, hhigh⟩ := hx
  have hk : slotOf x - offset / 2 ^ 21 ≤ highest / 2 ^ 21 := by omega
  have hslot : slotOf x = slotOf (offsetPage offset (slotOf x - offset / 2 ^ 21)).address := by
    rw [hrange.slotOf_page hk]
    omega
  rw [slotEntry_congr hslot]
  exact habsent _ (by omega)

theorem mapComplete_extends (h : Separate smallPages table tables used s)
    (hrange : OffsetRange offset highest)
    (hrun : mapCompletePhysicalMemorySpaceIntoKernel table highest offset s = .ok s') :
    ∃ tables' used', Extends (completeSizes smallPages offset highest) table tables used tables'
        used' s s' ∧
      FillsPages (completeSizes smallPages offset highest) table (offsetPage offset) largeEntry
        (highest / 2 ^ 21 + 1) s.memory s'.memory := by
  have hempty : ∀ p ≤ highest, PageTableEntry.isPresent
      (table.slotEntry s.memory (offset + p)) = false := by
    intro p hp
    have hfits := hrange.fits
    refine mapComplete_absent h hrange hrun ?_
    unfold InWindow slotOf
    omega
  exact (mapComplete_fills (h.resizeComplete hrange hempty) hrange
    (fun k hk => hrange.page_fits hk _) hrun).2

theorem not_inWindow_of_entry (h : Separate smallPages table tables used s)
    (hrange : OffsetRange offset highest)
    (hrun : mapCompletePhysicalMemorySpaceIntoKernel table highest offset s = .ok s')
    (hentry : table.pageEntry s.memory (.containingAddress .size4KiB x) ≠ PageTableEntry.unused) :
    ¬ InWindow offset highest x := by
  intro hx
  have habsent := mapComplete_absent h hrange hrun hx
  obtain ⟨h4, h3, h2⟩ := containingAddress_indices .size4KiB x
  have hslot : table.slotEntry s.memory (Page.containingAddress .size4KiB x).address =
      table.slotEntry s.memory x := by
    rw [slotEntry, slotEntry, h4, h3, h2]
  have hlink := h.toWellFormed.slotEntry_isLink
    (show smallPages (slotOf (Page.containingAddress .size4KiB x).address) = _ from rfl)
  cases hlink with
  | inl hunused => exact hentry (pageEntry_of_unused hunused)
  | inr hlinked =>
      obtain ⟨frame, address, htable, hlinked⟩ := hlinked
      rw [← hslot, hlinked, PageTableEntry.isPresent_setAddress frame.aligned htable.lt] at habsent
      exact absurd habsent (by decide)

theorem InWindow.exists_offset (h : InWindow offset highest x) (hrange : OffsetRange offset highest)
    (hcanonical : Canonical x) : ∃ p, p / 2 ^ 21 ≤ highest / 2 ^ 21 ∧ x = offset + p := by
  have haligned := hrange.aligned
  have hfits := hrange.fits
  obtain ⟨hlow, hhigh⟩ := h
  unfold slotOf at hlow hhigh
  unfold Canonical at hcanonical
  exact ⟨x - offset, by omega, by omega⟩

theorem OffsetRange.inWindow (h : OffsetRange offset highest) {p : Nat}
    (hp : p / 2 ^ 21 ≤ highest / 2 ^ 21) : InWindow offset highest (offset + p) := by
  have haligned := h.aligned
  have hfits := h.fits
  unfold InWindow slotOf
  omega

section Filled

variable {m m' : ByteMemory} {k p : Nat}

theorem FillsPages.small_entry
    (h : FillsPages (completeSizes smallPages offset highest) table (offsetPage offset) largeEntry
      k m m') (hout : ¬ InWindow offset highest x) :
    table.pageEntry m' (Page.containingAddress .size4KiB x) =
      table.pageEntry m (Page.containingAddress .size4KiB x) := by
  have hsize : completeSizes smallPages offset highest (slotOf x) = .size4KiB := if_neg hout
  have hsizes : PageSize.size4KiB ≠ PageSize.size2MiB := by decide
  exact h.others _ (containingAddress_fits hsize) fun _ _ halias => hsizes halias.1

theorem FillsPages.large_entry
    (h : FillsPages sizes table (offsetPage offset) largeEntry (highest / 2 ^ 21 + 1) m m')
    (haligned : offset % 2 ^ 21 = 0) (hp : p / 2 ^ 21 ≤ highest / 2 ^ 21) :
    table.pageEntry m' (Page.containingAddress .size2MiB (offset + p)) =
      largeEntry (p / 2 ^ 21) := by
  rw [containingAddress_offset haligned]
  exact h.entries (p / 2 ^ 21) (by omega)

theorem isPageEntry_largeEntry (h : k * 2 ^ 21 < 2 ^ 48) :
    IsPageEntry .size2MiB (largeEntry k) := by
  rw [← largeFrame_address] at h
  exact .inr ⟨_, _, h, rfl⟩

end Filled

/-! ## What the processor finds -/

theorem mmuWalk_small (h : Separate smallPages table tables used s)
    (hzero : table.mapping.offset = 0) (hrange : OffsetRange offset highest)
    (hrun : mapCompletePhysicalMemorySpaceIntoKernel table highest offset s = .ok s')
    (hcanonical : Canonical x)
    (hentry : IsPageEntry .size4KiB (table.pageEntry s.memory (.containingAddress .size4KiB x)))
    (hout : ¬ InWindow offset highest x) :
    mmuWalk s'.memory table.pml4t x = mappedAt .size4KiB x
      (decode .size4KiB (table.pageEntry s.memory (.containingAddress .size4KiB x))) := by
  obtain ⟨tables', used', hextends, hfilled⟩ := mapComplete_extends h hrange hrun
  have hsize : completeSizes smallPages offset highest (slotOf x) = .size4KiB := if_neg hout
  have hsame := hfilled.small_entry hout
  rw [← hsame] at hentry
  rw [hextends.separate.toWellFormed.mmuWalk_eq hzero hcanonical hsize hentry, hsame]

theorem mmuWalk_physical (h : Separate smallPages table tables used s)
    (hzero : table.mapping.offset = 0) (hrange : OffsetRange offset highest)
    (hrun : mapCompletePhysicalMemorySpaceIntoKernel table highest offset s = .ok s')
    {p : Nat} (hp : p / 2 ^ 21 ≤ highest / 2 ^ 21) :
    mmuWalk s'.memory table.pml4t (offset + p) = some (p, ⟨true, false, false⟩) := by
  obtain ⟨tables', used', hextends, hfilled⟩ := mapComplete_extends h hrange hrun
  have hfits := hrange.fits
  have haligned := hrange.aligned
  have hsize : completeSizes smallPages offset highest (slotOf (offset + p)) = .size2MiB :=
    if_pos (hrange.inWindow hp)
  have hlt : (largeFrame (p / 2 ^ 21)).address < 2 ^ 48 := by
    rw [largeFrame_address]
    omega
  have hentry := hfilled.large_entry haligned hp
  rw [hextends.separate.toWellFormed.mmuWalk_eq hzero (.inl (by omega)) hsize
    (.inr ⟨_, _, hlt, hentry⟩), hentry, largeEntry, decode_setAddress hlt (by decide)]
  have haddress :
      (largeFrame (p / 2 ^ 21)).address + (offset + p) % PageSize.size2MiB.size = p := by
    rw [largeFrame_address, PageSize.size]
    omega
  change some ((largeFrame (p / 2 ^ 21)).address + (offset + p) % PageSize.size2MiB.size, _) = _
  rw [haddress]
  rfl

/-- Frames that hold data when the tables grow go on to hold data. -/
theorem Extends.holdsData {tables' used' : PhysicalFrame .size4KiB → Prop}
    (h : Extends sizes table tables used tables' used' s s') {frame : PhysicalFrame .size4KiB}
    (hframe : HoldsData table tables used frame) : HoldsData table tables' used' frame := by
  refine ⟨(h.used_iff frame).mpr (.inl hframe.isUsed), fun htable => ?_, hframe.notRoot⟩
  exact (h.tables_new frame htable).elim hframe.notTable fun hnew => hnew hframe.isUsed

theorem mapComplete_bytes (h : Separate smallPages table tables used s)
    (hzero : table.mapping.offset = 0) (hrange : OffsetRange offset highest)
    (hrun : mapCompletePhysicalMemorySpaceIntoKernel table highest offset s = .ok s')
    {frame : PhysicalFrame .size4KiB} (hframe : HoldsData table tables used frame) {j : Nat}
    (hj : j < 4096) : s'.memory (frame.address + j) = s.memory (frame.address + j) := by
  obtain ⟨tables', used', hextends, -⟩ := mapComplete_extends h hrange hrun
  exact hextends.outside _ ((hextends.holdsData hframe).not_inTables hzero hj)

theorem WellFormed.mmuWalk_of_entry {S : PageSize} {m m' : ByteMemory}
    {tables' : PhysicalFrame .size4KiB → Prop} (h : WellFormed sizes table tables m)
    (h' : WellFormed sizes table tables' m') (hzero : table.mapping.offset = 0)
    (hcanonical : Canonical x) (hsize : sizes (slotOf x) = S)
    (hentry : IsPageEntry S (table.pageEntry m (.containingAddress S x)))
    (hsame : table.pageEntry m' (.containingAddress S x) =
      table.pageEntry m (.containingAddress S x)) :
    mmuWalk m' table.pml4t x = mmuWalk m table.pml4t x := by
  have hentry' := hentry
  rw [← hsame] at hentry'
  rw [h'.mmuWalk_eq hzero hcanonical hsize hentry', h.mmuWalk_eq hzero hcanonical hsize hentry,
    hsame]

theorem WellFormed.mmuWalk_congr {S : PageSize} {m m' : ByteMemory}
    (h : WellFormed sizes table tables m) (hzero : table.mapping.offset = 0)
    (hsame : ∀ y, InTables table tables y → m' y = m y) (hcanonical : Canonical x)
    (hsize : sizes (slotOf x) = S)
    (hentry : IsPageEntry S (table.pageEntry m (.containingAddress S x))) :
    mmuWalk m' table.pml4t x = mmuWalk m table.pml4t x := by
  have hfits : (Page.containingAddress S x).Fits sizes := containingAddress_fits hsize
  exact h.mmuWalk_of_entry (h.congr hsame) hzero hcanonical hsize hentry
    (h.dataAt_congr hsame hfits.interior_tablePath _)

end Complete

/-! ## Addresses -/

section Steps

variable {A : Type} [FrameAllocator A] {table : MappedPageTable PhysicalOffset}
  {kept tables used tables' used' : PhysicalFrame .size4KiB → Prop} {pages : Nat → Prop}
  {s s' : Machine A} {m : ByteMemory} {frame : PhysicalFrame .size4KiB}
  {x location : Nat} {rights : Rights}

def LeadsTo (table : MappedPageTable PhysicalOffset) (m : ByteMemory) (x location : Nat)
    (rights : Rights) : Prop :=
  ∃ frame flags, MapsTo table m (smallPage (x / 4096)) frame flags ∧
    location = frame.address + x % 4096 ∧ flags.rights = rights

theorem PhysicalFrame.containingAddress_of_number {frame : PhysicalFrame .size4KiB} {x : Nat}
    (h : x / 4096 = frame.address / 4096) :
    PhysicalFrame.containingAddress .size4KiB x = frame := by
  have haligned : frame.address % 4096 = 0 := frame.aligned
  ext
  rw [PhysicalFrame.containingAddress_address, PageSize.size, alignDown_eq_mul]
  omega

theorem PhysicalFrame.containingAddress_byte (frame : PhysicalFrame .size4KiB) (x : Nat) :
    PhysicalFrame.containingAddress .size4KiB (frame.address + x % 4096) = frame := by
  have haligned : frame.address % 4096 = 0 := frame.aligned
  exact PhysicalFrame.containingAddress_of_number (by omega)

theorem LeadsTo.unique {location' : Nat} {rights' : Rights} (h : LeadsTo table m x location rights)
    (h' : LeadsTo table m x location' rights') : location = location' ∧ rights = rights' := by
  obtain ⟨frame, flags, hmaps, rfl, rfl⟩ := h
  obtain ⟨frame', flags', hmaps', rfl, rfl⟩ := h'
  obtain ⟨rfl, rfl⟩ := hmaps.unique hmaps'
  exact ⟨rfl, rfl⟩

theorem LeadsTo.keep (h : LeadsTo table s.memory x location rights)
    (hadds : Adds table pages tables used tables' used' s s') :
    LeadsTo table s'.memory x location rights := by
  obtain ⟨frame, flags, hmaps, hlocation, hrights⟩ := h
  exact ⟨frame, flags, hadds.keeps hmaps, hlocation, hrights⟩

theorem LeadsTo.byte (h : LeadsTo table s.memory x location rights)
    (hplaced : Placement table kept tables used s)
    (hadds : Adds table pages tables used tables' used' s s') :
    s'.memory location = s.memory location := by
  obtain ⟨frame, flags, hmaps, rfl, -⟩ := h
  exact hadds.bytes frame (hplaced.data _ _ _ hmaps) _ (Nat.mod_lt _ (Nat.succ_pos _))

theorem Placement.kept_byte (h : Placement table kept tables used s)
    (hadds : Adds table pages tables used tables' used' s s') (hkept : kept frame)
    (hx : x / 4096 = frame.address / 4096) : s'.memory x = s.memory x := by
  have haligned : frame.address % 4096 = 0 := frame.aligned
  have hbyte := hadds.bytes frame (h.held frame hkept) (x % 4096) (Nat.mod_lt _ (Nat.succ_pos _))
  have haddress : frame.address + x % 4096 = x := by omega
  rwa [haddress] at hbyte

theorem MapsTo.leadsTo_self (h : MapsTo table m (.containingAddress .size4KiB frame.address)
    frame .present) (hx : x / 4096 = frame.address / 4096) :
    LeadsTo table m x x ⟨false, true, false⟩ := by
  have haligned : frame.address % 4096 = 0 := frame.aligned
  rw [containingAddress_eq_smallPage, ← hx] at h
  exact ⟨frame, .present, h, by omega, by decide⟩

/-! ## The stack -/

def guardNumber : Nat := 0xfffffffefffdf

def stackFlags : PageTableEntryFlags := .present ||| .writable ||| .noExecute

/-- The stack has pages up to the one that begins at its top, each with a frame of its own. The
page below it has an entry that is not present. -/
theorem Placement.allocateAndMapStack {stackTop : Nat} (h : Placement table kept tables used s)
    (hzero : table.mapping.offset = 0)
    (hrun : MiniatureOs.allocateAndMapStack table s = .ok (stackTop, s')) :
    stackTop = kernelStackTop ∧ ∃ tables' used', Placement table kept tables' used' s' ∧
      Adds table (InRange guardNumber 34) tables used tables' used' s s' ∧
      (∀ k < 33, ∃ frame, MapsTo table s'.memory (smallPage (guardNumber + 1 + k)) frame
        stackFlags ∧ ¬ kept frame) ∧
      ∃ frame : PhysicalFrame .size4KiB, frame.address < 2 ^ 48 ∧
        table.pageEntry s'.memory (smallPage guardNumber) =
          PageTableEntry.setAddress frame.address .none := by
  obtain ⟨startAddress, hstart, hrun⟩ := Checked.bind_eq_ok.mp hrun
  obtain ⟨s₁, hloop, hrun⟩ := Checked.bind_eq_ok.mp hrun
  obtain ⟨guardAddress, hguard, hrun⟩ := Checked.bind_eq_ok.mp hrun
  obtain ⟨_, -, hrun⟩ := Checked.bind_eq_ok.mp hrun
  obtain ⟨⟨frame, s₂⟩, halloc, hrun⟩ := Checked.bind_eq_ok.mp hrun
  obtain ⟨s₃, hmap, hrun⟩ := Checked.bind_eq_ok.mp hrun
  obtain ⟨rfl, rfl⟩ := Prod.mk.inj (Except.ok.inj hrun)
  obtain rfl : startAddress = (guardNumber + 1) * 4096 := (Checked.sub_eq_ok.mp hstart).2
  have hfirst : Page.containingAddress .size4KiB ((guardNumber + 1) * 4096) =
      smallPage (guardNumber + 1) := rfl
  have hlast : Page.containingAddress .size4KiB kernelStackTop = smallPage (guardNumber + 33) := rfl
  rw [hfirst] at hloop hguard
  rw [hlast, Page.forRange] at hloop
  have hround : ∀ k < 33, ∀ tables used, ∀ s s' : Machine A, Placement table kept tables used s →
      mapStackPage table (.containingAddress .size4KiB
        ((guardNumber + 1) * 4096 + k * PageSize.size4KiB.size)) s = .ok s' →
      ∃ tables' used' frame, Placement table kept tables' used' s' ∧
        Adds table (fun n => n = (smallPage (guardNumber + 1 + k)).number) tables used tables'
          used' s s' ∧
        MapsTo table s'.memory (smallPage (guardNumber + 1 + k)) frame stackFlags ∧
        ¬ kept frame := by
    intro k hk tables₁ used₁ s₁ s₂ hplaced₁ hround
    rw [smallPage_round] at hround
    obtain ⟨⟨frame, s₃⟩, halloc, hmap⟩ := Checked.bind_eq_ok.mp hround
    obtain ⟨tables₂, used₂, hplaced₂, hadds, hentry, hlt, hnew, -⟩ :=
      hplaced₁.mapNew hzero halloc (fun _ _ => rfl) hmap
    exact ⟨tables₂, used₂, frame, hplaced₂, hadds, ⟨hlt, by decide, hentry⟩,
      hplaced₁.not_kept hnew⟩
  have hcount : guardNumber + 33 + 1 = guardNumber + 1 + 33 := rfl
  obtain ⟨tables₁, used₁, hplaced₁, hadds₁, hmapped⟩ := h.loop hcount hround hloop
  obtain rfl : guardAddress = guardNumber * 4096 := (checkedSub_eq_ok.mp hguard).2
  have hpage : Page.containingAddress .size4KiB (guardNumber * 4096) = smallPage guardNumber := rfl
  rw [hpage] at hmap
  obtain ⟨tables₂, used₂, hplaced₂, hadds₂, hentry, hlt, -⟩ :=
    hplaced₁.mapNew hzero halloc (fun _ _ => rfl) hmap
  refine ⟨rfl, tables₂, used₂, hplaced₂, (hadds₁.trans hadds₂).congr fun n => ?_,
    fun k hk => ?_, frame, hlt, hentry⟩
  · constructor
    · rintro (⟨k, hk, rfl⟩ | rfl)
      · exact ⟨k + 1, by omega, by rw [Nat.add_assoc, Nat.add_comm 1 k]⟩
      · exact ⟨0, by omega, rfl⟩
    · rintro ⟨k, hk, rfl⟩
      cases k with
      | zero => exact .inr rfl
      | succ k => exact .inl ⟨k, by omega, by rw [Nat.add_assoc guardNumber, Nat.add_comm 1 k]⟩
  · obtain ⟨frame, hmaps, hnew⟩ := hmapped k hk
    exact ⟨frame, hadds₂.keeps hmaps, hnew⟩

/-! ## Identity mapped frames -/

variable {message : String} {flags : PageTableEntryFlags}

theorem expectIdentityMap_eq (s : Machine A) :
    table.expectIdentityMap message frame flags s =
      table.expectMapTo message frame (.containingAddress .size4KiB frame.address) flags s :=
  rfl

theorem containingAddress_number (address : Nat) :
    (PhysicalFrame.containingAddress .size4KiB address).address / 4096 = address / 4096 := by
  rw [PhysicalFrame.containingAddress_address, PageSize.size, alignDown_eq_mul]
  omega

theorem Placement.identityMapContextSwitchFunction {build : Stage4Build}
    (h : Placement table kept tables used s) (hzero : table.mapping.offset = 0)
    (hkept : kept (.containingAddress .size4KiB build.contextSwitch))
    (hlt : build.contextSwitch < 2 ^ 48)
    (hrun : MiniatureOs.identityMapContextSwitchFunction build table s = .ok s') :
    ∃ tables' used', Placement table kept tables' used' s' ∧
      Adds table (fun n => n = (smallPage (build.contextSwitch / 4096)).number) tables used
        tables' used' s s' ∧
      ∀ x, x / 4096 = build.contextSwitch / 4096 →
        LeadsTo table s'.memory x x ⟨false, true, false⟩ := by
  have hnumber := containingAddress_number build.contextSwitch
  rw [MiniatureOs.identityMapContextSwitchFunction, expectIdentityMap_eq] at hrun
  have hbelow : (PhysicalFrame.containingAddress .size4KiB build.contextSwitch).address <
      2 ^ 48 := by omega
  obtain ⟨tables', used', hplaced, hadds, hentry⟩ :=
    h.expectMapTo hzero hbelow (h.held _ hkept) (.inl hkept) hrun
  rw [containingAddress_eq_smallPage, hnumber] at hadds
  refine ⟨tables', used', hplaced, hadds, fun x hx => ?_⟩
  have hmaps : MapsTo table s'.memory _ _ PageTableEntryFlags.present :=
    ⟨hbelow, by decide, hentry⟩
  exact hmaps.leadsTo_self (hx.trans hnumber.symm)

theorem Placement.mapNewSelf {s₁ : Machine A} {message' : String}
    (h : Placement table kept tables used s) (hzero : table.mapping.offset = 0)
    (halloc : expectFrame message s = .ok (frame, s₁)) (hsame : SameOutside frame s₁.memory m)
    (hrun : table.expectMapTo message' frame (.containingAddress .size4KiB frame.address) .present
      { s₁ with memory := m } = .ok s') :
    ∃ tables' used', Placement table kept tables' used' s' ∧
      Adds table (fun n => n = (smallPage (frame.address / 4096)).number) tables used
        tables' used' s s' ∧
      (∀ x, x / 4096 = frame.address / 4096 →
        LeadsTo table s'.memory x x ⟨false, true, false⟩) ∧
      ¬ used frame ∧
      ∀ x, frame.address ≤ x → x < frame.address + 4096 → s'.memory x = m x := by
  obtain ⟨tables', used', hplaced, hadds, hentry, hlt, hnew, -, hbytes⟩ :=
    h.mapNew hzero halloc hsame hrun
  have hmaps : MapsTo table s'.memory _ _ PageTableEntryFlags.present := ⟨hlt, by decide, hentry⟩
  rw [containingAddress_eq_smallPage] at hadds
  refine ⟨tables', used', hplaced, hadds, fun x hx => hmaps.leadsTo_self hx, hnew,
    fun x hle hbelow => ?_⟩
  have hbyte := hbytes (x - frame.address) (by omega)
  rwa [Nat.add_sub_cancel' hle] at hbyte

end Steps

end MiniatureOs
