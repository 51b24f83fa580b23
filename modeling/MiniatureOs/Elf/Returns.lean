import MiniatureOs.Elf.Header

/-! # The loader returns

With enough frames to allocate, and with pages that are not mapped yet, no step
of the loader panics. Each lemma says how many frames its step may take.
-/

namespace MiniatureOs

open PageTableFrameMapping MappedPageTable

variable {A : Type} [FrameAllocator A] {loader : KernelLoader PhysicalOffset}
  {table : MappedPageTable PhysicalOffset}
  {tables used tables' used' : PhysicalFrame .size4KiB → Prop}
  {s s' : Machine A} {frame : PhysicalFrame .size4KiB} {page : Page .size4KiB}
  {flags : PageTableEntryFlags} {content : Nat → UInt8 → Prop} {n : Nat}

/-! ## Tables and frames -/

/-- A page that is not mapped can be mapped, with a frame for each table above it. -/
theorem Separate.expectMapTo_of_supplies {P : Type} [PageTableFrameMapping P]
    {sizes : Nat → PageSize} {table : MappedPageTable P} (h : Separate sizes table tables used s)
    (hinj : InjectiveMapping table.mapping) (htotal : TotalMapping table.mapping)
    (frame : PhysicalFrame .size4KiB) (flags : PageTableEntryFlags) (message : String)
    (hfits : page.Fits sizes)
    (habsent : PageTableEntry.isPresent (table.pageEntry s.memory page) = false)
    (hsupply : Supplies (n + 3) s.allocator) :
    ∃ s', table.expectMapTo message frame page flags s = .ok s' ∧ Supplies n s'.allocator := by
  have hlength : page.tablePath.length = 3 := rfl
  have hmissing := @missingTables_le _ _ table s.memory [] page.tablePath
  rw [hlength] at hmissing
  obtain ⟨s', hmap, hsupply', _⟩ := h.mapTo_total hinj htotal frame flags hfits habsent
    (hsupply.mono (Nat.add_le_add_left hmissing n))
  refine ⟨s', ?_, hsupply'⟩
  simp only [MappedPageTable.expectMapTo, hmap, Checked.ok_bind, Checked.pure_eq_ok, expectOk]

theorem Separate.expectMapTo_total (h : Separate smallPages table tables used s)
    (frame : PhysicalFrame .size4KiB) (flags : PageTableEntryFlags)
    (hzero : table.mapping.offset = 0) (message : String)
    (habsent : PageTableEntry.isPresent (table.pageEntry s.memory page) = false)
    (hsupply : Supplies (n + 3) s.allocator) :
    ∃ s', table.expectMapTo message frame page flags s = .ok s' ∧ Supplies n s'.allocator :=
  h.expectMapTo_of_supplies (PhysicalOffset.injectiveMapping _)
    (PhysicalOffset.totalMapping (by omega) (by omega)) frame flags message rfl habsent hsupply

theorem expectFrame_total (message : String)
    (hsupply : Supplies (n + 1) s.allocator) :
    ∃ frame s', expectFrame message s = .ok (frame, s') ∧ Supplies n s'.allocator := by
  obtain ⟨frame, allocator, halloc, hrest⟩ := hsupply
  exact ⟨frame, { s with allocator }, by simp [expectFrame, halloc, Checked.expect], hrest⟩

theorem makeMutable_total (hzero : loader.pageTable.mapping.offset = 0)
    (h : Separate smallPages loader.pageTable tables used s) (hflags : flags.contains .present)
    (hcopied : flags.contains copied = false)
    (hhas : PageHas loader.pageTable tables used s page flags content)
    (hsupply : Supplies (n + 4) s.allocator) :
    ∃ frame s', loader.makeMutable page s = .ok (frame, s') ∧ Supplies n s'.allocator := by
  have hpresent := hhas.isPresent hflags
  obtain ⟨old, hold, hdata, hentry, -⟩ := hhas
  have htranslate : loader.pageTable.translate page s.memory = .ok (.ok (old, flags)) := by
    rw [h.translate_eq rfl, hentry, decode_setAddress hold hflags]
  obtain ⟨new, s₁, halloc, hsupply₁⟩ := expectFrame_total (n := n + 3)
    "Failed to allocate frame for make_mut" hsupply
  obtain ⟨hmemory, hlt, hnew, hframe, hstep₁⟩ := h.expectFrame hzero halloc
  obtain ⟨hstep₂, hentry₂⟩ := hstep₁.write hzero hframe hnew
    (sameOutside_copy s₁.memory s₁.memory new old.address)
  have hpresent₂ : PageTableEntry.isPresent (loader.pageTable.pageEntry
      (s₁.memory.copy new.address 4096 s₁.memory old.address) page) = true := by
    rw [hentry₂, hmemory]
    exact hpresent
  obtain ⟨result, memory, hunmap, hunused, hstep₃⟩ := hstep₂.separate.unmap_step hzero hpresent₂
  have habsent : PageTableEntry.isPresent (loader.pageTable.pageEntry memory page) = false := by
    rw [hunused]
    rfl
  obtain ⟨s₄, hmap, hsupply₄⟩ := hstep₃.separate.expectMapTo_total new (flags ||| copied) hzero
    "make mut: failed to map page to new frame" habsent hsupply₁
  refine ⟨new, s₄, ?_, hsupply₄⟩
  rw [KernelLoader.makeMutable, htranslate]
  simp only [Checked.ok_bind, expectOk, hcopied, Bool.false_eq_true, if_false, halloc, hunmap, hmap,
    Checked.pure_eq_ok]

theorem zeroTail_total (hzero : loader.pageTable.mapping.offset = 0) {zeroStart : Nat}
    (h : Separate smallPages loader.pageTable tables used s) (hflags : flags.contains .present)
    (hcopied : flags.contains copied = false)
    (hhas : zeroStart % 4096 ≠ 0 →
      PageHas loader.pageTable tables used s (smallPage (zeroStart / 4096)) flags content)
    (hsupply : Supplies (n + 4) s.allocator) :
    ∃ s', loader.zeroTail zeroStart s = .ok s' ∧ Supplies n s'.allocator := by
  by_cases hboundary : zeroStart % 4096 = 0
  · refine ⟨s, ?_, hsupply.mono (by omega)⟩
    simp [KernelLoader.zeroTail, hboundary]
  · obtain ⟨new, s₁, hmutable, hsupply₁⟩ :=
      makeMutable_total hzero h hflags hcopied (hhas hboundary) hsupply
    have hlast : (zeroStart - 1) / 4096 = zeroStart / 4096 := by omega
    have hsub : checkedSub zeroStart 1 = .ok (zeroStart - 1) :=
      checkedSub_eq_ok.mpr ⟨by omega, rfl⟩
    refine ⟨{ s₁ with
      memory := s₁.memory.fill (new.address + zeroStart % 4096) (4096 - zeroStart % 4096) 0 },
      ?_, hsupply₁⟩
    simp only [KernelLoader.zeroTail, ne_eq, hboundary, not_false_eq_true, if_true, hsub,
      Checked.ok_bind, containingAddress_eq_smallPage, hlast, hmutable, Checked.pure_eq_ok]

/-! ## The loops -/

theorem LoadStep.absent {pages : Nat → Prop}
    (h : LoadStep table pages tables used tables' used' s s')
    (habsent : PageTableEntry.isPresent (table.pageEntry s.memory page) = false)
    (hpage : ¬ pages page.number) :
    PageTableEntry.isPresent (table.pageEntry s'.memory page) = false := by
  rw [h.others page hpage]
  exact habsent

structure FreeRange (table : MappedPageTable PhysicalOffset) (first count : Nat)
    (m : ByteMemory) : Prop where
  absent : ∀ k < count, PageTableEntry.isPresent
    (table.pageEntry m (smallPage (first + k))) = false
  distinct : ∀ i j, i < j → j < count →
    (smallPage (first + i)).number ≠ (smallPage (first + j)).number

theorem FreeRange.not_inRange {first count k : Nat} {m : ByteMemory}
    (h : FreeRange table first count m) (hk : k < count) :
    ¬ InRange first k (smallPage (first + k)).number := by
  rintro ⟨j, hj, hnumber⟩
  exact h.distinct j k hj hk hnumber.symm

theorem FreeRange.next_absent {first count k : Nat} (h : FreeRange table first count s.memory)
    (hstep : LoadStep table (InRange first k) tables used tables' used' s s') (hk : k < count) :
    PageTableEntry.isPresent (table.pageEntry s'.memory (smallPage (first + k))) = false :=
  hstep.absent (h.absent k hk) (h.not_inRange hk)

theorem FreeRange.rest {first count more : Nat}
    (h : FreeRange table first (count + more) s.memory)
    (hstep : LoadStep table (InRange first count) tables used tables' used' s s') :
    FreeRange table (first + count) more s'.memory where
  absent := by
    intro k hk
    rw [Nat.add_assoc]
    refine hstep.absent (h.absent (count + k) (by omega)) ?_
    rintro ⟨j, hj, hnumber⟩
    exact h.distinct j (count + k) (by omega) (by omega) hnumber.symm
  distinct := by
    intro i j hij hj
    rw [Nat.add_assoc, Nat.add_assoc]
    exact h.distinct (count + i) (count + j) (by omega) (by omega)

theorem mapSection_total (hzero : loader.pageTable.mapping.offset = 0)
    {firstFrame firstPage lastFrame count : Nat} (hcount : lastFrame + 1 = firstFrame + count)
    (h : Separate smallPages loader.pageTable tables used s) (hflags : flags.contains .present)
    (hframes : ∀ k < count, (smallFrame (firstFrame + k)).address < 2 ^ 48 ∧
      HoldsData loader.pageTable tables used (smallFrame (firstFrame + k)))
    (hend : firstFrame * 4096 + count * 4096 < 2 ^ 64)
    (hfits : ∀ k < count, (firstPage + k) * 4096 < 2 ^ 64)
    (hfree : FreeRange loader.pageTable firstPage count s.memory)
    (hsupply : Supplies (n + 3 * count) s.allocator) :
    ∃ s', loader.mapSection (smallFrame firstFrame) (smallFrame lastFrame) (smallPage firstPage)
      flags s = .ok s' ∧ Supplies n s'.allocator := by
  rw [KernelLoader.mapSection, PhysicalFrame.forRange]
  refine (rangeLoop_total (I := fun k s₁ =>
    (∃ tables' used', Mapped loader.pageTable tables used tables' used' firstPage flags
      (fileContent s.memory firstFrame) k s s₁) ∧ Supplies (n + 3 * (count - k)) s₁.allocator)
    (rangeOf_small hcount) ?_ hend ⟨⟨tables, used, .zero h⟩, hsupply⟩).imp
    fun s' hrun => ⟨hrun.1, hrun.2.2.mono (by omega)⟩
  · rintro k s₁ hk ⟨⟨tables₁, used₁, hmapped⟩, hsupply₁⟩
    have hmore : n + 3 * (count - k) = n + 3 * (count - (k + 1)) + 3 := by omega
    rw [hmore] at hsupply₁
    obtain ⟨s₂, hmap, hsupply₂⟩ := hmapped.step.separate.expectMapTo_total
      (smallFrame (firstFrame + k)) flags hzero "Failed to map section"
      (hfree.next_absent hmapped.step hk) hsupply₁
    refine ⟨s₂, ?_,
      hmapped.mapFrame hzero hflags (hframes k hk).1 (hframes k hk).2 hmap, hsupply₂⟩
    rw [smallFrame_round]
    exact mapFrame_eq_ok.mpr ⟨hfits k hk, hmap⟩

theorem mapZeroedFrame_total (flags : PageTableEntryFlags)
    (hzero : loader.pageTable.mapping.offset = 0)
    (h : Separate smallPages loader.pageTable tables used s)
    (habsent : PageTableEntry.isPresent (loader.pageTable.pageEntry s.memory page) = false)
    (hsupply : Supplies (n + 4) s.allocator) :
    ∃ s', loader.mapZeroedFrame flags page s = .ok s' ∧ Supplies n s'.allocator := by
  obtain ⟨frame, s₁, halloc, hsupply₁⟩ := expectFrame_total (n := n + 3)
    "Failed to allocate frame for .bss" hsupply
  obtain ⟨hmemory, hlt, hnew, hframe, hstep₁⟩ := h.expectFrame hzero halloc
  have hfill : SameOutside frame s₁.memory (s₁.memory.fill frame.address 4096 0) :=
    fun _ hx => ByteMemory.fill_outside hx
  obtain ⟨hstep₂, -⟩ := hstep₁.write hzero hframe hnew hfill
  obtain ⟨s', hmap, hsupply'⟩ := hstep₂.separate.expectMapTo_total frame flags hzero
    "Failed to map .bss section" (hstep₂.absent habsent id) hsupply₁
  refine ⟨s', ?_, hsupply'⟩
  rw [KernelLoader.mapZeroedFrame, halloc, Checked.ok_bind]
  exact hmap

theorem mapBss_total (hzero : loader.pageTable.mapping.offset = 0) {first last count : Nat}
    (hcount : last + 1 = first + count)
    (h : Separate smallPages loader.pageTable tables used s) (hflags : flags.contains .present)
    (hend : first * 4096 + count * 4096 < 2 ^ 64)
    (hfree : FreeRange loader.pageTable first count s.memory)
    (hsupply : Supplies (n + 4 * count) s.allocator) :
    ∃ s', loader.mapBss (smallPage first) (smallPage last) flags s = .ok s' ∧
      Supplies n s'.allocator := by
  rw [KernelLoader.mapBss, Page.forRange]
  refine (rangeLoop_total (I := fun k s₁ =>
    (∃ tables' used', Mapped loader.pageTable tables used tables' used' first flags
      (fun _ _ b => b = 0) k s s₁) ∧ Supplies (n + 4 * (count - k)) s₁.allocator)
    (rangeOf_small hcount) ?_ hend ⟨⟨tables, used, .zero h⟩, hsupply⟩).imp
    fun s' hrun => ⟨hrun.1, hrun.2.2.mono (by omega)⟩
  · rintro k s₁ hk ⟨⟨tables₁, used₁, hmapped⟩, hsupply₁⟩
    have hmore : n + 4 * (count - k) = n + 4 * (count - (k + 1)) + 4 := by omega
    rw [hmore] at hsupply₁
    obtain ⟨s₂, hbody, hsupply₂⟩ := mapZeroedFrame_total flags hzero
      hmapped.step.separate (hfree.next_absent hmapped.step hk) hsupply₁
    refine ⟨s₂, ?_, hmapped.mapZeroedFrame hzero hflags hbody, hsupply₂⟩
    rw [smallPage_round]
    exact hbody

/-! ## A round -/

section Round

variable {imageSize : Nat} {header : ProgramHeader}

/-- The most frames that a round can take: a page takes three tables and a frame. -/
def KernelLoader.frameBudget (loader : KernelLoader PhysicalOffset) (header : ProgramHeader) :
    Nat :=
  4 * loader.pageCount header + 4

theorem FreeRange.mono {first count count' : Nat} {m : ByteMemory}
    (h : FreeRange table first count m) (hle : count' ≤ count) :
    FreeRange table first count' m where
  absent := fun k hk => h.absent k (by omega)
  distinct := fun i j hij hj => h.distinct i j hij (by omega)

theorem ImageAt.filePage_lt (h : ImageAt loader imageSize) (hheader : HeaderValid imageSize header)
    (hstart : loader.segmentStart header < 2 ^ 64)
    (hbytes : ∀ i < header.memSize, loader.segmentStart header + i < 2 ^ 64) {k : Nat}
    (hk : k < loader.filePages header) : (loader.firstPage header + k) * 4096 < 2 ^ 64 := by
  have hbssFirst := h.bssFirst_eq hheader
  have hsize := hheader.size_le
  by_cases hempty : header.fileSize = 0
  · omega
  · have hlast := hbytes (header.fileSize - 1) (by omega)
    omega

theorem ImageAt.mapSection_total (h : ImageAt loader imageSize)
    (hheader : HeaderValid imageSize header)
    (hsep : Separate smallPages loader.pageTable tables used s)
    (himage : ∀ frame, InImage loader imageSize frame →
      HoldsData loader.pageTable tables used frame)
    (hstart : loader.segmentStart header < 2 ^ 64)
    (hbytes : ∀ i < header.memSize, loader.segmentStart header + i < 2 ^ 64)
    (hfree : FreeRange loader.pageTable (loader.firstPage header) (loader.filePages header)
      s.memory)
    (hsupply : Supplies (n + 3 * loader.filePages header) s.allocator) :
    ∃ s', loader.mapSection (smallFrame (loader.fileStart header / 4096))
      (smallFrame ((loader.fileStart header + header.fileSize - 1) / 4096))
      (smallPage (loader.firstPage header)) header.pageFlags s = .ok s' ∧
        Supplies n s'.allocator := by
  have hpos := h.fileStart_pos header
  have hbelow := h.below
  have hend := hheader.file_end loader
  have hcount : (loader.fileStart header + header.fileSize - 1) / 4096 + 1 =
      loader.fileStart header / 4096 + loader.filePages header := by
    unfold KernelLoader.filePages
    omega
  refine MiniatureOs.mapSection_total h.identity hcount hsep (pageFlags_present header)
    (fun k hk => ?_) ?_ (fun k hk => h.filePage_lt hheader hstart hbytes hk) hfree hsupply
  · have hin := h.inImage hheader hk
    exact ⟨Nat.lt_of_lt_of_le hin.2 hbelow, himage _ hin⟩
  · rw [← Nat.add_mul, ← hcount]
    omega

theorem ImageAt.bssRuns_total (h : ImageAt loader imageSize)
    (hheader : HeaderValid imageSize header) (hbss : header.fileSize < header.memSize)
    (hfits : SegmentFits loader header) {s₁ : Machine A}
    (hmapped : Mapped loader.pageTable tables used tables' used' (loader.firstPage header)
      header.pageFlags (fileContent s.memory (loader.fileStart header / 4096))
      (loader.filePages header) s s₁)
    (hfree : FreeRange loader.pageTable (loader.firstPage header) (loader.pageCount header)
      s.memory)
    (hsupply : Supplies (n + 4 * (loader.pageCount header - loader.filePages header) + 4)
      s₁.allocator) :
    ∃ s', loader.BssRuns header s₁ s' ∧ Supplies n s'.allocator := by
  have hend := hfits.bss hbss
  have hbssFirst := h.bssFirst_eq hheader
  have hpages := h.pageCount_eq hheader
  rw [if_pos hbss, hbssFirst] at hpages
  have hcount : (loader.segmentStart header + header.memSize - 1) / 4096 + 1 =
      loader.firstPage header + loader.filePages header +
        (loader.pageCount header - loader.filePages header) := by omega
  have htailPage : (loader.segmentStart header + header.fileSize) % 4096 ≠ 0 →
      PageHas loader.pageTable tables' used' s₁
        (smallPage ((loader.segmentStart header + header.fileSize) / 4096)) header.pageFlags
        (fileContent s.memory (loader.fileStart header / 4096) (loader.filePages header - 1)) := by
    intro hboundary
    obtain ⟨hpos, hlast⟩ := h.tailPage_eq hheader hboundary
    rw [hlast]
    exact hmapped.has _ (by omega)
  obtain ⟨s₂, htail, hsupply₂⟩ := zeroTail_total h.identity hmapped.step.separate
    (pageFlags_present header) (pageFlags_copied header) htailPage hsupply
  obtain ⟨tables₂, used₂, hfile⟩ := h.mapped_of_tail hheader hmapped htail
  have hrest : FreeRange loader.pageTable (loader.firstPage header + loader.filePages header)
      (loader.pageCount header - loader.filePages header) s₂.memory :=
    FreeRange.rest (hfree.mono (by omega)) hfile.step
  obtain ⟨s', hrun, hsupply'⟩ := mapBss_total h.identity hcount hfile.step.separate
    (pageFlags_present header) (by rw [← Nat.add_mul, ← hcount]; omega) hrest hsupply₂
  refine ⟨s', ⟨by omega, by omega, s₂, htail, ?_⟩, hsupply'⟩
  rw [hbssFirst]
  exact hrun

/-- A round returns when the addresses it computes fit and its pages are free. -/
theorem ImageAt.allocateHeader_total (h : ImageAt loader imageSize)
    (hheader : HeaderValid imageSize header)
    (hsep : Separate smallPages loader.pageTable tables used s)
    (himage : ∀ frame, InImage loader imageSize frame →
      HoldsData loader.pageTable tables used frame)
    (hfits : SegmentFits loader header)
    (hbytes : ∀ i < header.memSize, loader.segmentStart header + i < 2 ^ 64)
    (hfree : FreeRange loader.pageTable (loader.firstPage header) (loader.pageCount header)
      s.memory)
    (hsupply : Supplies (n + loader.frameBudget header) s.allocator) :
    ∃ s', loader.allocateHeader header s = .ok s' ∧ Supplies n s'.allocator := by
  have hpages := h.pageCount_eq hheader
  have hle : loader.filePages header ≤ loader.pageCount header := by omega
  have hbudget : n + 4 * (loader.pageCount header - loader.filePages header) + 4 +
      3 * loader.filePages header ≤ n + loader.frameBudget header := by
    unfold KernelLoader.frameBudget
    omega
  obtain ⟨s₁, hsection, hsupply₁⟩ := h.mapSection_total hheader hsep himage hfits.start hbytes
    (hfree.mono hle) (hsupply.mono hbudget)
  obtain ⟨tables₁, used₁, hmapped⟩ := h.filePages_mapped hheader hsep himage hsection
  by_cases hbss : header.fileSize < header.memSize
  · obtain ⟨s', hruns, hsupply'⟩ :=
      h.bssRuns_total hheader hbss hfits hmapped hfree hsupply₁
    refine ⟨s', (h.allocateHeader_eq_ok hheader).mpr ⟨hfits.start, s₁, hsection, ?_⟩, hsupply'⟩
    rw [if_pos hbss]
    exact hruns
  · refine ⟨s₁, (h.allocateHeader_eq_ok hheader).mpr ⟨hfits.start, s₁, hsection, ?_⟩,
      hsupply₁.mono (by omega)⟩
    rw [if_neg hbss]

end Round

end MiniatureOs
