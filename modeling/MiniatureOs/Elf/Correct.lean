import MiniatureOs.Elf.Returns

/-! # Loading the image

`allocate` maps the segments one after the other into an empty page table. Every
byte of every segment can be read through the table afterwards exactly when the
segments lie in the canonical half-spaces, no zeroed memory reaches the last page
of the address space, and no two rounds map the same page. An empty segment that
begins inside a page counts here: a round maps that page.
-/

namespace MiniatureOs

open PageTableFrameMapping MappedPageTable

variable {A : Type} [FrameAllocator A] {loader : KernelLoader PhysicalOffset}
  {imageSize n : Nat} {header : ProgramHeader} {headers : List ProgramHeader}
  {tables used tables' used' : PhysicalFrame .size4KiB → Prop} {s s' : Machine A}

def KernelLoader.Touches (loader : KernelLoader PhysicalOffset) (header : ProgramHeader)
    (n : Nat) : Prop :=
  InRange (loader.firstPage header) (loader.pageCount header) n

def KernelLoader.Apart (loader : KernelLoader PhysicalOffset) (a b : ProgramHeader) : Prop :=
  ∀ n, loader.Touches a n → ¬ loader.Touches b n

def ImageHeld (loader : KernelLoader PhysicalOffset) (imageSize : Nat)
    (tables used : PhysicalFrame .size4KiB → Prop) : Prop :=
  ∀ frame, InImage loader imageSize frame → HoldsData loader.pageTable tables used frame

/-! ## A run that returns -/

theorem segmentByte_eq {pages : Nat → Prop} (h : ImageAt loader imageSize)
    (hheader : HeaderValid imageSize header) (himage : ImageHeld loader imageSize tables used)
    (hstep : DataStep loader.pageTable pages tables used tables' used' s s') (i : Nat) :
    loader.segmentByte header s'.memory i = loader.segmentByte header s.memory i := by
  unfold KernelLoader.segmentByte
  by_cases hi : i < header.fileSize
  · have hend := hheader.file_end loader
    have haligned := h.aligned
    have hle : loader.kernelStart ≤ loader.fileStart header := Nat.le_add_right _ _
    have hin : InImage loader imageSize (smallFrame ((loader.fileStart header + i) / 4096)) := by
      unfold InImage smallFrame
      simp only
      omega
    have hbyte := hstep.bytes _ (himage _ hin) ((loader.fileStart header + i) % 4096)
      (Nat.mod_lt _ (by decide))
    have haddress : (smallFrame ((loader.fileStart header + i) / 4096)).address +
        (loader.fileStart header + i) % 4096 = loader.fileStart header + i :=
      Nat.div_add_mod' _ _
    rw [haddress] at hbyte
    rw [if_pos hi, if_pos hi, hbyte]
  · rw [if_neg hi, if_neg hi]

omit [FrameAllocator A] in
theorem SegmentPage.isPresent {m : ByteMemory} {k : Nat}
    (h : SegmentPage loader header tables used m s k) :
    PageTableEntry.isPresent (loader.pageTable.pageEntry s.memory (smallPage k)) = true := by
  obtain ⟨flags, hflags, hhas⟩ := h
  exact hhas.isPresent (present_of_flags hflags)

theorem SegmentPage.keep {m : ByteMemory} {k : Nat} {pages : Nat → Prop}
    (h : SegmentPage loader header tables used m s k)
    (hstep : DataStep loader.pageTable pages tables used tables' used' s s')
    (hpage : ¬ pages (smallPage k).number) : SegmentPage loader header tables' used' m s' k := by
  obtain ⟨flags, hflags, hhas⟩ := h
  exact ⟨flags, hflags, hstep.pageHas hpage hhas⟩

omit [FrameAllocator A] in
theorem SegmentPage.congr {m m' : ByteMemory} {k : Nat}
    (h : SegmentPage loader header tables used m s k)
    (hbytes : ∀ i, loader.segmentByte header m i = loader.segmentByte header m' i) :
    SegmentPage loader header tables used m' s k := by
  obtain ⟨flags, hflags, hhas⟩ := h
  refine ⟨flags, hflags, hhas.imp fun j _ b hb i hi haddress => ?_⟩
  rw [← hbytes]
  exact hb i hi haddress

/-- What a run of `allocate` that returns has done. -/
structure Allocated (loader : KernelLoader PhysicalOffset) (headers : List ProgramHeader)
    (tables used tables' used' : PhysicalFrame .size4KiB → Prop) (s s' : Machine A) : Prop where
  step : LoadStep loader.pageTable (fun n => ∃ header ∈ headers, loader.Touches header n)
    tables used tables' used' s s'
  fits : ∀ header ∈ headers, SegmentFits loader header
  apart : headers.Pairwise loader.Apart
  absent : ∀ header ∈ headers, ∀ k < loader.pageCount header, PageTableEntry.isPresent
    (loader.pageTable.pageEntry s.memory (smallPage (loader.firstPage header + k))) = false
  has : ∀ header ∈ headers, ∀ k < loader.pageCount header,
    SegmentPage loader header tables' used' s.memory s' (loader.firstPage header + k)

theorem Allocated.nil (h : Separate smallPages loader.pageTable tables used s) :
    Allocated loader [] tables used tables used s s where
  step := (LoadStep.refl h).congr fun _ => by simp
  fits := fun _ hheader => absurd hheader List.not_mem_nil
  apart := .nil
  absent := fun _ hheader => absurd hheader List.not_mem_nil
  has := fun _ hheader => absurd hheader List.not_mem_nil

theorem Allocated.cons {tables'' used'' : PhysicalFrame .size4KiB → Prop} {s'' : Machine A}
    (hfits : SegmentFits loader header)
    (hsegment : SegmentMapped loader header tables used tables' used' (loader.pageCount header)
      s s')
    (hbytes : ∀ other ∈ headers, ∀ i,
      loader.segmentByte other s'.memory i = loader.segmentByte other s.memory i)
    (h : Allocated loader headers tables' used' tables'' used'' s' s'') :
    Allocated loader (header :: headers) tables used tables'' used'' s s'' := by
  have hapart : ∀ other ∈ headers, loader.Apart header other := by
    rintro other hother n ⟨j, hj, hn⟩ ⟨k, hk, hnumber⟩
    have hpresent := (hsegment.has j hj).isPresent
    rw [loader.pageTable.pageEntry_eq_of_number _ (hn.symm.trans hnumber),
      h.absent other hother k hk] at hpresent
    cases hpresent
  constructor
  case step =>
    apply (hsegment.step.trans h.step).congr
    intro n
    simp [KernelLoader.Touches]
  case fits =>
    intro other hother
    cases hother with
    | head => exact hfits
    | tail _ hmem => exact h.fits other hmem
  case apart => exact List.pairwise_cons.mpr ⟨hapart, h.apart⟩
  case absent =>
    intro other hother k hk
    cases hother with
    | head => exact hsegment.absent k hk
    | tail _ hmem =>
        by_contra hpresent
        have hmono := hsegment.step.present_mono (Bool.not_eq_false _ ▸ hpresent)
        rw [h.absent other hmem k hk] at hmono
        cases hmono
  case has =>
    intro other hother k hk
    cases hother with
    | head =>
        apply (hsegment.has k hk).keep h.step.toDataStep
        rintro ⟨other, hother, htouches⟩
        exact hapart other hother _ ⟨k, hk, rfl⟩ htouches
    | tail _ hmem => exact (h.has other hmem k hk).congr (hbytes other hmem)

theorem ImageAt.allocate_allocated (h : ImageAt loader imageSize)
    (hvalid : ∀ header ∈ headers, HeaderValid imageSize header)
    (hsep : Separate smallPages loader.pageTable tables used s)
    (himage : ImageHeld loader imageSize tables used)
    (hrun : loader.allocate headers s = .ok s') :
    ∃ tables' used', Allocated loader headers tables used tables' used' s s' := by
  induction headers generalizing s tables used with
  | nil =>
      obtain rfl := Except.ok.inj hrun
      exact ⟨tables, used, .nil hsep⟩
  | cons header headers ih =>
      rw [KernelLoader.allocate, List.foldlM_cons] at hrun
      obtain ⟨s₁, hround, hrest⟩ := Checked.bind_eq_ok.mp hrun
      obtain ⟨hfits, tables₁, used₁, hsegment⟩ :=
        h.allocateHeader_mapped (hvalid header (by simp)) hsep himage hround
      have hvalid' : ∀ other ∈ headers, HeaderValid imageSize other :=
        fun other hother => hvalid other (by simp [hother])
      obtain ⟨tables', used', hallocated⟩ := ih hvalid' hsegment.step.separate
        (fun frame hin => hsegment.step.data frame (himage frame hin)) hrest
      exact ⟨tables', used', .cons hfits hsegment
        (fun other hother i => segmentByte_eq h (hvalid' other hother) himage
          hsegment.step.toDataStep i) hallocated⟩

/-! ## A run returns -/

section Layout

variable {P : Type} {loader : KernelLoader P}

/-- Every page of a segment with memory holds one of its bytes. -/
theorem exists_byte_of_page {k : Nat} (hk : k < loader.pageCount header)
    (hmemory : header.memSize ≠ 0) :
    ∃ i < header.memSize,
      (loader.segmentStart header + i) / 4096 = loader.firstPage header + k := by
  rw [KernelLoader.pageCount, if_neg hmemory] at hk
  unfold KernelLoader.firstPage at *
  refine ⟨(loader.segmentStart header / 4096 + k) * 4096 - loader.segmentStart header, ?_, ?_⟩
  · omega
  · omega

theorem exists_page_of_byte {i : Nat} (hi : i < header.memSize) :
    ∃ k < loader.pageCount header,
      (loader.segmentStart header + i) / 4096 = loader.firstPage header + k := by
  rw [KernelLoader.pageCount, if_neg (by omega)]
  unfold KernelLoader.firstPage
  refine ⟨(loader.segmentStart header + i) / 4096 - loader.segmentStart header / 4096, ?_, ?_⟩
  · omega
  · omega

theorem numbers_distinct
    (hcanonical : ∀ i < header.memSize, Canonical (loader.segmentStart header + i)) {i j : Nat}
    (hij : i < j) (hj : j < loader.pageCount header) :
    (smallPage (loader.firstPage header + i)).number ≠
      (smallPage (loader.firstPage header + j)).number := by
  have hmemory : header.memSize ≠ 0 := by
    intro hzero
    rw [KernelLoader.pageCount, if_pos hzero] at hj
    split at hj <;> omega
  obtain ⟨a, ha, hpageA⟩ := exists_byte_of_page (by omega : i < loader.pageCount header) hmemory
  obtain ⟨b, hb, hpageB⟩ := exists_byte_of_page hj hmemory
  have hcanonicalA := hcanonical a ha
  have hcanonicalB := hcanonical b hb
  rw [smallPage_number, smallPage_number, ← hpageA, ← hpageB]
  unfold Canonical at hcanonicalA hcanonicalB
  omega

end Layout

structure LoadCondition (loader : KernelLoader PhysicalOffset) (headers : List ProgramHeader) :
    Prop where
  fits : ∀ header ∈ headers, SegmentFits loader header
  canonical : ∀ header ∈ headers, ∀ i < header.memSize, Canonical (loader.segmentStart header + i)
  apart : headers.Pairwise loader.Apart

theorem LoadCondition.tail (h : LoadCondition loader (header :: headers)) :
    LoadCondition loader headers where
  fits := fun other hother => h.fits other (by simp [hother])
  canonical := fun other hother => h.canonical other (by simp [hother])
  apart := h.apart.tail

def KernelLoader.totalBudget (loader : KernelLoader PhysicalOffset) :
    List ProgramHeader → Nat
  | [] => 0
  | header :: headers => totalBudget loader headers + loader.frameBudget header

theorem ImageAt.allocate_total (h : ImageAt loader imageSize)
    (hvalid : ∀ header ∈ headers, HeaderValid imageSize header)
    (hsep : Separate smallPages loader.pageTable tables used s)
    (himage : ImageHeld loader imageSize tables used)
    (hcondition : LoadCondition loader headers)
    (habsent : ∀ header ∈ headers, ∀ k < loader.pageCount header, PageTableEntry.isPresent
      (loader.pageTable.pageEntry s.memory (smallPage (loader.firstPage header + k))) = false)
    (hsupply : Supplies (loader.totalBudget headers) s.allocator) :
    ∃ s', loader.allocate headers s = .ok s' := by
  induction headers generalizing s tables used with
  | nil => exact ⟨s, rfl⟩
  | cons header headers ih =>
      have hmem : header ∈ header :: headers := by simp
      have hcanonical := hcondition.canonical header hmem
      have hbytes : ∀ i < header.memSize, loader.segmentStart header + i < 2 ^ 64 := by
        intro i hi
        have hbyte := hcanonical i hi
        unfold Canonical at hbyte
        omega
      obtain ⟨s₁, hround, hsupply₁⟩ := h.allocateHeader_total (hvalid header hmem) hsep himage
        (hcondition.fits header hmem) hbytes
        ⟨habsent header hmem, fun i j => numbers_distinct hcanonical⟩ hsupply
      obtain ⟨-, tables₁, used₁, hsegment⟩ :=
        h.allocateHeader_mapped (hvalid header hmem) hsep himage hround
      have habsent₁ : ∀ other ∈ headers, ∀ k < loader.pageCount other, PageTableEntry.isPresent
          (loader.pageTable.pageEntry s₁.memory (smallPage (loader.firstPage other + k))) =
            false := by
        intro other hother k hk
        apply hsegment.step.absent (habsent other (by simp [hother]) k hk)
        intro htouches
        exact List.rel_of_pairwise_cons hcondition.apart hother _ htouches ⟨k, hk, rfl⟩
      obtain ⟨s', hrest⟩ := ih (fun other hother => hvalid other (by simp [hother]))
        hsegment.step.separate (fun frame hin => hsegment.step.data frame (himage frame hin))
        hcondition.tail habsent₁ hsupply₁
      refine ⟨s', ?_⟩
      rw [KernelLoader.allocate, List.foldlM_cons, hround]
      exact hrest

/-! ## Reading through the table -/

def SegmentLoaded (loader : KernelLoader PhysicalOffset) (header : ProgramHeader)
    (image m : ByteMemory) : Prop :=
  ∀ i < header.memSize, Canonical (loader.segmentStart header + i) ∧
    ∃ frame flags,
      loader.pageTable.translate
          (Page.containingAddress .size4KiB (loader.segmentStart header + i)) m =
        .ok (.ok (frame, flags)) ∧
      m (frame.address + (loader.segmentStart header + i) % 4096) =
        loader.segmentByte header image i ∧
      flags.contains .present = true ∧ flags.contains .writable = header.isWrite ∧
      flags.contains .noExecute = !header.isExecute

theorem pageFlags_permissions {flags : PageTableEntryFlags}
    (h : flags = header.pageFlags ∨ flags = header.pageFlags ||| copied) :
    flags.contains .writable = header.isWrite ∧ flags.contains .noExecute = !header.isExecute := by
  unfold ProgramHeader.pageFlags at h
  rcases h with rfl | rfl
  · cases header.isExecute <;> cases header.isWrite <;> decide
  · cases header.isExecute <;> cases header.isWrite <;> decide

theorem SegmentLoaded.of_pages {image : ByteMemory}
    (hsep : Separate smallPages loader.pageTable tables used s)
    (hcanonical : ∀ i < header.memSize, Canonical (loader.segmentStart header + i))
    (hpages : ∀ k < loader.pageCount header,
      SegmentPage loader header tables used image s (loader.firstPage header + k)) :
    SegmentLoaded loader header image s.memory := by
  intro i hi
  obtain ⟨k, hk, hpage⟩ := @exists_page_of_byte header _ loader i hi
  obtain ⟨flags, hflags, frame, hlt, -, hentry, hcontent⟩ := hpages k hk
  have hpresent := present_of_flags hflags
  refine ⟨hcanonical i hi, frame, flags, ?_, ?_, hpresent, pageFlags_permissions hflags⟩
  · rw [containingAddress_eq_smallPage, hpage, hsep.translate_eq rfl, hentry,
      decode_setAddress hlt hpresent]
  · exact hcontent _ (Nat.mod_lt _ (by decide)) i hi (by omega)

def KernelLoader.InUse (loader : KernelLoader PhysicalOffset) (imageSize : Nat)
    (frame : PhysicalFrame .size4KiB) : Prop :=
  frame.address = loader.pageTable.pml4t ∨ InImage loader imageSize frame

/-- The state in which `allocate` is called: the root table is empty and lies
outside the image, and the allocator returns enough frames, none of them in use. -/
structure LoaderReady (loader : KernelLoader PhysicalOffset) (imageSize : Nat)
    (headers : List ProgramHeader) (s : Machine A) : Prop where
  image : ImageAt loader imageSize
  valid : ∀ header ∈ headers, HeaderValid imageSize header
  rootOutside : ∀ frame, InImage loader imageSize frame → frame.address ≠ loader.pageTable.pml4t
  empty : ∀ i, tableEntry s.memory loader.pageTable.pml4t i = PageTableEntry.unused
  fresh : ReturnsFresh (loader.InUse imageSize) s.allocator
  supply : Supplies (loader.totalBudget headers) s.allocator

/-- `allocate` returns, and every segment can be read afterwards. -/
def LoadsSegments (loader : KernelLoader PhysicalOffset) (headers : List ProgramHeader)
    (s : Machine A) : Prop :=
  ∃ s', loader.allocate headers s = .ok s' ∧
    ∀ header ∈ headers, SegmentLoaded loader header s.memory s'.memory

theorem LoaderReady.separate (h : LoaderReady loader imageSize headers s) :
    Separate smallPages loader.pageTable (fun _ => False) (loader.InUse imageSize) s := by
  have hroot : ∀ frame, frameToVirtual loader.pageTable.mapping frame =
      .ok loader.pageTable.pml4t → loader.InUse imageSize frame := by
    intro frame hvirtual
    exact .inl ((frameToVirtual_eq_ok h.image.identity).mp hvirtual).2.symm
  have hfresh : Fresh loader.pageTable s := ⟨h.empty, h.fresh.mono hroot⟩
  exact ⟨hfresh.separate.toWellFormed, fun _ => False.elim, hroot, h.fresh⟩

theorem LoaderReady.imageHeld (h : LoaderReady loader imageSize headers s) :
    ImageHeld loader imageSize (fun _ => False) (loader.InUse imageSize) :=
  fun frame hin => ⟨.inr hin, id, h.rootOutside frame hin⟩

theorem LoaderReady.absent (h : LoaderReady loader imageSize headers s) (page : Page .size4KiB) :
    PageTableEntry.isPresent (loader.pageTable.pageEntry s.memory page) = false := by
  have hnone : loader.pageTable.tableAt s.memory page.tablePath = none := by
    simp only [MappedPageTable.tableAt, Page.tablePath, RadixTree.walk, h.empty, child_unused]
  rw [pageEntry_eq_unused hnone]
  rfl

theorem loadsSegments_iff (h : LoaderReady loader imageSize headers s) :
    LoadsSegments loader headers s ↔ LoadCondition loader headers := by
  constructor
  · rintro ⟨s', hrun, hloaded⟩
    obtain ⟨tables', used', hallocated⟩ :=
      h.image.allocate_allocated h.valid h.separate h.imageHeld hrun
    exact ⟨hallocated.fits, fun header hheader i hi => (hloaded header hheader i hi).1,
      hallocated.apart⟩
  · intro hcondition
    obtain ⟨s', hrun⟩ := h.image.allocate_total h.valid h.separate h.imageHeld hcondition
      (fun _ _ _ _ => h.absent _) h.supply
    obtain ⟨tables', used', hallocated⟩ :=
      h.image.allocate_allocated h.valid h.separate h.imageHeld hrun
    exact ⟨s', hrun, fun header hheader => .of_pages hallocated.step.separate
      (hcondition.canonical header hheader) (hallocated.has header hheader)⟩

/-! ## Two images -/

def imageLoader : KernelLoader PhysicalOffset :=
  ⟨0xffffffff80000000, 0x200000, lowTable⟩

def imageMachine : Machine (BumpFrameAllocator PhysicalMemoryRegion) :=
  ⟨fun x => if x < 0x200000 then 0 else 1, .new [⟨0x100000, 0x20000, .free⟩]⟩

theorem imageMachine_frame {frame : PhysicalFrame .size4KiB}
    (h : frame ∈ BumpFrameAllocator.usableFrames
      (BumpFrameAllocator.reachable imageMachine.allocator.memoryMap)) :
    0x100000 ≤ frame.address ∧ frame.address + 0x1000 ≤ 0x120000 := by
  obtain ⟨region, hregion, -, hframe⟩ := BumpFrameAllocator.mem_usableFrames.mp h
  obtain rfl := List.mem_singleton.mp ((List.takeWhile_sublist _).subset hregion)
  exact (BumpFrameAllocator.mem_regionFrames_of_aligned (by decide)).mp hframe

theorem imageMachine_ready (hvalid : ∀ header ∈ headers, HeaderValid 0x1000 header)
    (hbudget : imageLoader.totalBudget headers ≤ 32) :
    LoaderReady imageLoader 0x1000 headers imageMachine where
  image := ⟨rfl, by decide, by decide, by decide, by decide⟩
  valid := hvalid
  rootOutside := by
    rintro frame ⟨hlow, -⟩ hroot
    rw [hroot] at hlow
    exact absurd hlow (by decide)
  empty := by
    intro i
    apply ByteMemory.readWord_of_zero
    intro x _ hlt
    have hi := i.isLt
    change x < 0x1000 + 8 * i.val + 8 at hlt
    exact if_pos (by omega)
  fresh := by
    refine BumpFrameAllocator.returnsFresh ?_ fun frame hframe => ?_
    · refine BumpFrameAllocator.usableFrames_nodup ?_ (by decide)
      exact (List.pairwise_singleton _ _).sublist (List.takeWhile_sublist _)
    · obtain ⟨hlow, hhigh⟩ := imageMachine_frame hframe
      refine ⟨by omega, ?_⟩
      rintro (hroot | ⟨himage, -⟩)
      · change frame.address = 0x1000 at hroot
        omega
      · change 0x200000 ≤ frame.address at himage
        omega
  supply := by
    apply Supplies.mono _ hbudget
    apply BumpFrameAllocator.supplies
    rw [BumpFrameAllocator.reachable_of_all (by decide)]
    change 0 + 32 ≤ (BumpFrameAllocator.usableFrames [_]).length
    rw [BumpFrameAllocator.usableFrames_cons, if_pos (by decide), List.length_append,
      BumpFrameAllocator.regionFrames_length]
    decide

/-- A text segment, and a data segment that shares its page of the file and ends with
zeroed memory in the next page. -/
def twoSegments : List ProgramHeader :=
  [⟨0, 0, 0x800, 0x800, true, false⟩, ⟨0x800, 0x1800, 0x200, 0x1000, false, true⟩]

theorem loadsSegments_twoSegments :
    LoadsSegments imageLoader twoSegments imageMachine := by
  have hvalid : ∀ header ∈ twoSegments, HeaderValid 0x1000 header := by
    simp only [twoSegments, List.forall_mem_cons]
    exact ⟨⟨by decide, by decide, by decide⟩, ⟨by decide, by decide, by decide⟩, by simp⟩
  refine (loadsSegments_iff (imageMachine_ready hvalid (by decide))).mpr ⟨?_, ?_, ?_⟩
  · simp only [twoSegments, List.forall_mem_cons]
    exact ⟨⟨by decide, by decide⟩, ⟨by decide, by decide⟩, by simp⟩
  · simp only [twoSegments, List.forall_mem_cons, Canonical, KernelLoader.segmentStart, imageLoader]
    refine ⟨fun i hi => ?_, fun i hi => ?_, by simp⟩
    · omega
    · omega
  · refine List.pairwise_pair.mpr ?_
    rintro n ⟨j, hj, rfl⟩ ⟨k, hk, hnumber⟩
    have hj' : j < 1 := hj
    have hk' : k < 2 := hk
    rw [smallPage_number, smallPage_number] at hnumber
    change (0xffffffff80000 + j) % 2 ^ 36 = (0xffffffff80001 + k) % 2 ^ 36 at hnumber
    omega

/-- A segment in the last page of the address space, with zeroed memory at its end. -/
def lastPageSegment : ProgramHeader :=
  ⟨0, 0x7ffff000, 0x10, 0x20, false, true⟩

theorem not_loadsSegments_lastPageSegment :
    LoaderReady imageLoader 0x1000 [lastPageSegment] imageMachine ∧
      (∀ i < lastPageSegment.memSize, Canonical (imageLoader.segmentStart lastPageSegment + i)) ∧
      ¬ LoadsSegments imageLoader [lastPageSegment] imageMachine := by
  have hvalid : ∀ header ∈ [lastPageSegment], HeaderValid 0x1000 header := by
    simp only [List.forall_mem_cons]
    exact ⟨⟨by decide, by decide, by decide⟩, by simp⟩
  have hready := imageMachine_ready hvalid (by decide)
  refine ⟨hready, by decide, ?_⟩
  rintro ⟨s', hrun, -⟩
  obtain ⟨tables', used', hallocated⟩ :=
    hready.image.allocate_allocated hready.valid hready.separate hready.imageHeld hrun
  have hend := (hallocated.fits lastPageSegment (by simp)).bss (by decide)
  exact absurd hend (by decide)

end MiniatureOs
