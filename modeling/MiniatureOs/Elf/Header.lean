import MiniatureOs.Elf.Segments

/-! # One segment

The layout of the pages that one round of `allocate` maps, and what the round
leaves behind. The pages of a segment are those that hold one of its bytes; for an
empty segment that does not begin at a page boundary the loader maps a page all
the same.
-/

namespace MiniatureOs

open PageTableFrameMapping MappedPageTable

namespace KernelLoader

variable {P : Type}

def segmentStart (loader : KernelLoader P) (header : ProgramHeader) : Nat :=
  loader.virtualBase + header.virtualAddr

def fileStart (loader : KernelLoader P) (header : ProgramHeader) : Nat :=
  loader.kernelStart + header.offset

def firstPage (loader : KernelLoader P) (header : ProgramHeader) : Nat :=
  loader.segmentStart header / 4096

def filePages (loader : KernelLoader P) (header : ProgramHeader) : Nat :=
  (loader.fileStart header + header.fileSize - 1) / 4096 + 1 - loader.fileStart header / 4096

def pageCount (loader : KernelLoader P) (header : ProgramHeader) : Nat :=
  if header.memSize = 0 then
    if loader.segmentStart header % 4096 = 0 then 0 else 1
  else
    (loader.segmentStart header + header.memSize - 1) / 4096 + 1 - loader.firstPage header

def segmentByte (loader : KernelLoader P) (header : ProgramHeader) (m : ByteMemory) (i : Nat) :
    UInt8 :=
  if i < header.fileSize then m (loader.fileStart header + i) else 0

end KernelLoader

/-- The image lies below `2 ^ 48`, and it and its virtual base begin at page
boundaries; physical memory is visible at its own addresses. -/
structure ImageAt (loader : KernelLoader PhysicalOffset) (imageSize : Nat) : Prop where
  identity : loader.pageTable.mapping.offset = 0
  virtualAligned : loader.virtualBase % 4096 = 0
  aligned : loader.kernelStart % 4096 = 0
  pos : 0 < loader.kernelStart
  below : loader.kernelStart + imageSize ≤ 2 ^ 48

def InImage (loader : KernelLoader PhysicalOffset) (imageSize : Nat)
    (frame : PhysicalFrame .size4KiB) : Prop :=
  loader.kernelStart ≤ frame.address ∧ frame.address < loader.kernelStart + imageSize

structure HeaderValid (imageSize : Nat) (header : ProgramHeader) : Prop where
  size_le : header.fileSize ≤ header.memSize
  congruent : header.offset % 4096 = header.virtualAddr % 4096
  inFile : header.offset + header.fileSize ≤ imageSize

variable {A : Type} [FrameAllocator A] {loader : KernelLoader PhysicalOffset}
  {imageSize : Nat} {header : ProgramHeader}
  {tables used : PhysicalFrame .size4KiB → Prop} {s s' : Machine A}

/-! ## Layout -/

theorem ImageAt.start_mod (h : ImageAt loader imageSize) (hheader : HeaderValid imageSize header) :
    loader.fileStart header % 4096 = loader.segmentStart header % 4096 := by
  have hcongruent := hheader.congruent
  have hvirtual := h.virtualAligned
  have himage := h.aligned
  unfold KernelLoader.fileStart KernelLoader.segmentStart
  omega

theorem ImageAt.fileStart_pos (h : ImageAt loader imageSize) (header : ProgramHeader) :
    0 < loader.fileStart header := by
  have hpos := h.pos
  unfold KernelLoader.fileStart
  omega

theorem HeaderValid.file_end (hheader : HeaderValid imageSize header)
    (loader : KernelLoader PhysicalOffset) :
    loader.fileStart header + header.fileSize ≤ loader.kernelStart + imageSize := by
  have hfile := hheader.inFile
  unfold KernelLoader.fileStart
  omega

theorem ImageAt.inImage (h : ImageAt loader imageSize) (hheader : HeaderValid imageSize header)
    {k : Nat} (hk : k < loader.filePages header) :
    InImage loader imageSize (smallFrame (loader.fileStart header / 4096 + k)) := by
  have hend := hheader.file_end loader
  have hpos := h.fileStart_pos header
  have haligned := h.aligned
  have hle : loader.kernelStart ≤ loader.fileStart header := Nat.le_add_right _ _
  unfold KernelLoader.filePages at hk
  unfold InImage smallFrame
  simp only
  omega

/-- Where the file part ends at a page boundary or the segment ends with it, the
rest of the segment follows in pages of its own. -/
theorem ImageAt.pageCount_eq (h : ImageAt loader imageSize)
    (hheader : HeaderValid imageSize header) :
    loader.pageCount header = loader.filePages header +
      (if header.fileSize < header.memSize then
        (loader.segmentStart header + header.memSize - 1) / 4096 + 1 -
          (loader.segmentStart header + header.fileSize + 4095) / 4096
      else 0) := by
  have hmod := h.start_mod hheader
  have hpos := h.fileStart_pos header
  have hsize := hheader.size_le
  unfold KernelLoader.pageCount KernelLoader.filePages KernelLoader.firstPage
  generalize loader.fileStart header = file at *
  generalize loader.segmentStart header = segment at *
  by_cases hbss : header.fileSize < header.memSize
  · rw [if_pos hbss, if_neg (by omega)]
    omega
  · rw [if_neg hbss]
    have heq : header.memSize = header.fileSize := by omega
    rw [heq]
    by_cases hempty : header.fileSize = 0
    · rw [if_pos hempty, hempty]
      by_cases haligned : segment % 4096 = 0
      · rw [if_pos haligned]
        omega
      · rw [if_neg haligned]
        omega
    · rw [if_neg hempty]
      omega

theorem ImageAt.bssFirst_eq (h : ImageAt loader imageSize)
    (hheader : HeaderValid imageSize header) :
    (loader.segmentStart header + header.fileSize + 4095) / 4096 =
      loader.firstPage header + loader.filePages header := by
  have hmod := h.start_mod hheader
  have hpos := h.fileStart_pos header
  unfold KernelLoader.filePages KernelLoader.firstPage
  omega

/-- The page in which the file part ends, where zeroed memory begins inside a page. -/
theorem ImageAt.tailPage_eq (h : ImageAt loader imageSize) (hheader : HeaderValid imageSize header)
    (hboundary : (loader.segmentStart header + header.fileSize) % 4096 ≠ 0) :
    0 < loader.filePages header ∧ (loader.segmentStart header + header.fileSize) / 4096 =
      loader.firstPage header + (loader.filePages header - 1) := by
  have hbssFirst := h.bssFirst_eq hheader
  have hmod := h.start_mod hheader
  have hpos := h.fileStart_pos header
  have hcount : 0 < loader.filePages header := by
    unfold KernelLoader.filePages
    omega
  exact ⟨hcount, by omega⟩

/-! ## The round in parts -/

theorem checkedSub_eq_ok {a b c : Nat} : checkedSub a b = .ok c ↔ b ≤ a ∧ c = a - b := by
  rw [checkedSub, Checked.unwrap_eq_ok]
  by_cases h : b ≤ a
  · simp [h, eq_comm]
  · simp [h]

theorem alignUp_eq_ok {zeroStart result : Nat} :
    alignUp zeroStart 4096 = .ok result ↔
      zeroStart + 4096 < 2 ^ 64 ∧ result = (zeroStart + 4095) / 4096 * 4096 := by
  have hsum : zeroStart + 4096 - 1 = zeroStart + 4095 := rfl
  simp only [alignUp, Checked.bind_eq_ok, Checked.add_eq_ok, Checked.pure_eq_ok, Except.ok.injEq]
  constructor
  · rintro ⟨_, ⟨hlt, rfl⟩, rfl⟩
    exact ⟨hlt, by rw [hsum, alignDown_eq_mul]⟩
  · rintro ⟨hlt, rfl⟩
    exact ⟨_, ⟨hlt, rfl⟩, by rw [hsum, alignDown_eq_mul]⟩

def KernelLoader.BssRuns (loader : KernelLoader PhysicalOffset) (header : ProgramHeader)
    (s s' : Machine A) : Prop :=
  loader.segmentStart header + header.memSize < 2 ^ 64 ∧
  loader.segmentStart header + header.fileSize + 4096 < 2 ^ 64 ∧
  ∃ s₁, loader.zeroTail (loader.segmentStart header + header.fileSize) s = .ok s₁ ∧
    loader.mapBss (smallPage ((loader.segmentStart header + header.fileSize + 4095) / 4096))
      (smallPage ((loader.segmentStart header + header.memSize - 1) / 4096)) header.pageFlags s₁ =
        .ok s'

theorem bssRuns_iff (hbss : header.fileSize < header.memSize) :
    (do
      let zeroStart ← Checked.add 64 (loader.segmentStart header) header.fileSize
      let zeroEnd ← Checked.add 64 (loader.segmentStart header) header.memSize
      let s ← loader.zeroTail zeroStart s
      let bssStart ← alignUp zeroStart 4096
      let bssLast ← checkedSub zeroEnd 1
      loader.mapBss (smallPage (bssStart / 4096)) (smallPage (bssLast / 4096)) header.pageFlags s) =
        .ok s' ↔ loader.BssRuns header s s' := by
  simp only [KernelLoader.BssRuns, Checked.bind_eq_ok, Checked.add_eq_ok, checkedSub_eq_ok,
    alignUp_eq_ok]
  constructor
  · rintro ⟨_, ⟨-, rfl⟩, _, ⟨hend, rfl⟩, s₁, htail, _, ⟨halign, rfl⟩, _, ⟨-, rfl⟩, hmap⟩
    rw [Nat.mul_div_cancel _ (by decide)] at hmap
    exact ⟨hend, halign, s₁, htail, hmap⟩
  · rintro ⟨hend, halign, s₁, htail, hmap⟩
    refine ⟨_, ⟨by omega, rfl⟩, _, ⟨hend, rfl⟩, s₁, htail, _, ⟨halign, rfl⟩, _,
      ⟨by omega, rfl⟩, ?_⟩
    rw [Nat.mul_div_cancel _ (by decide)]
    exact hmap

theorem ImageAt.allocateHeader_eq_ok (h : ImageAt loader imageSize)
    (hheader : HeaderValid imageSize header) :
    loader.allocateHeader header s = .ok s' ↔
      loader.segmentStart header < 2 ^ 64 ∧
      ∃ s₁, loader.mapSection (smallFrame (loader.fileStart header / 4096))
          (smallFrame ((loader.fileStart header + header.fileSize - 1) / 4096))
          (smallPage (loader.firstPage header)) header.pageFlags s = .ok s₁ ∧
        if header.fileSize < header.memSize then loader.BssRuns header s₁ s' else s₁ = s' := by
  have hend := hheader.file_end loader
  have hbelow := h.below
  have hpos := h.fileStart_pos header
  have hfile : Checked.add 64 loader.kernelStart header.offset = .ok (loader.fileStart header) :=
    Checked.add_of_lt (show loader.fileStart header < 2 ^ 64 by omega)
  have hfileEnd : Checked.add 64 (loader.fileStart header) header.fileSize =
      .ok (loader.fileStart header + header.fileSize) := Checked.add_of_lt (by omega)
  have hfileLast : checkedSub (loader.fileStart header + header.fileSize) 1 =
      .ok (loader.fileStart header + header.fileSize - 1) := checkedSub_eq_ok.mpr ⟨by omega, rfl⟩
  have hcomm : header.virtualAddr + loader.virtualBase = loader.segmentStart header :=
    Nat.add_comm _ _
  by_cases hstart : loader.segmentStart header < 2 ^ 64
  · have hprint : Checked.add 64 header.virtualAddr loader.virtualBase =
        .ok (loader.segmentStart header) := by
      rw [← hcomm] at hstart ⊢
      exact Checked.add_of_lt hstart
    have hvirtual : Checked.add 64 loader.virtualBase header.virtualAddr =
        .ok (loader.segmentStart header) := Checked.add_of_lt hstart
    simp only [KernelLoader.allocateHeader, hprint, hfile, hfileEnd, hfileLast, hvirtual,
      Checked.ok_bind, containingAddress_eq_smallFrame, containingAddress_eq_smallPage, gt_iff_lt]
    rw [Checked.bind_eq_ok, and_iff_right hstart]
    refine exists_congr fun s₁ => and_congr_right fun _ => ?_
    by_cases hbss : header.fileSize < header.memSize
    · simp only [hbss, if_true]
      exact bssRuns_iff hbss
    · simp only [hbss, if_false, Checked.pure_eq_ok, Except.ok.injEq]
  · have hprint : Checked.add 64 header.virtualAddr loader.virtualBase = .error .overflow := by
      rw [← hcomm] at hstart
      exact if_neg hstart
    simp only [KernelLoader.allocateHeader, hprint, hstart, Checked.error_bind, reduceCtorEq,
      false_and]

/-! ## What the round leaves -/

section Round

variable {tables' used' : PhysicalFrame .size4KiB → Prop}

omit [FrameAllocator A] in
theorem PageHas.imp {table : MappedPageTable PhysicalOffset} {page : Page .size4KiB}
    {flags : PageTableEntryFlags} {content content' : Nat → UInt8 → Prop}
    (h : PageHas table tables used s page flags content)
    (himp : ∀ j < 4096, ∀ b, content j b → content' j b) :
    PageHas table tables used s page flags content' := by
  obtain ⟨frame, hlt, hdata, hentry, hcontent⟩ := h
  exact ⟨frame, hlt, hdata, hentry, fun j hj => himp j hj _ (hcontent j hj)⟩

/-- Page `n` is mapped for the segment, and holds its bytes. -/
def SegmentPage (loader : KernelLoader PhysicalOffset) (header : ProgramHeader)
    (tables used : PhysicalFrame .size4KiB → Prop) (m : ByteMemory) (s : Machine A) (n : Nat) :
    Prop :=
  ∃ flags, (flags = header.pageFlags ∨ flags = header.pageFlags ||| copied) ∧
    PageHas loader.pageTable tables used s (smallPage n) flags fun j b =>
      ∀ i < header.memSize, loader.segmentStart header + i = n * 4096 + j →
        b = loader.segmentByte header m i

theorem pageFlags_present (header : ProgramHeader) : header.pageFlags.contains .present := by
  unfold ProgramHeader.pageFlags
  cases header.isExecute <;> cases header.isWrite <;> decide

theorem pageFlags_copied (header : ProgramHeader) : header.pageFlags.contains copied = false := by
  unfold ProgramHeader.pageFlags
  cases header.isExecute <;> cases header.isWrite <;> decide

theorem pageFlags_or_copied (header : ProgramHeader) :
    (header.pageFlags ||| copied).contains .present := by
  unfold ProgramHeader.pageFlags
  cases header.isExecute <;> cases header.isWrite <;> decide

theorem present_of_flags {flags : PageTableEntryFlags}
    (h : flags = header.pageFlags ∨ flags = header.pageFlags ||| copied) :
    flags.contains .present := by
  rcases h with rfl | rfl
  · exact pageFlags_present header
  · exact pageFlags_or_copied header

structure SegmentMapped (loader : KernelLoader PhysicalOffset) (header : ProgramHeader)
    (tables used tables' used' : PhysicalFrame .size4KiB → Prop) (count : Nat)
    (s s' : Machine A) : Prop where
  step : LoadStep loader.pageTable (InRange (loader.firstPage header) count) tables used tables'
    used' s s'
  absent : ∀ k < count, PageTableEntry.isPresent
    (loader.pageTable.pageEntry s.memory (smallPage (loader.firstPage header + k))) = false
  has : ∀ k < count,
    SegmentPage loader header tables' used' s.memory s' (loader.firstPage header + k)

/-- A byte of the file lies at the same place in its frame and in its page. -/
theorem ImageAt.fileByte_eq (h : ImageAt loader imageSize) (hheader : HeaderValid imageSize header)
    {i j k : Nat} (hi : i < header.fileSize)
    (haddress : loader.segmentStart header + i = (loader.firstPage header + k) * 4096 + j)
    (m : ByteMemory) :
    m ((loader.fileStart header / 4096 + k) * 4096 + j) = loader.segmentByte header m i := by
  have hmod := h.start_mod hheader
  have hsame : (loader.fileStart header / 4096 + k) * 4096 + j = loader.fileStart header + i := by
    unfold KernelLoader.firstPage at haddress
    omega
  rw [KernelLoader.segmentByte, if_pos hi, hsame]

theorem ImageAt.filePages_mapped (h : ImageAt loader imageSize)
    (hheader : HeaderValid imageSize header)
    (hsep : Separate smallPages loader.pageTable tables used s)
    (himage : ∀ frame, InImage loader imageSize frame →
      HoldsData loader.pageTable tables used frame)
    {s₁ : Machine A}
    (hsection : loader.mapSection (smallFrame (loader.fileStart header / 4096))
      (smallFrame ((loader.fileStart header + header.fileSize - 1) / 4096))
      (smallPage (loader.firstPage header)) header.pageFlags s = .ok s₁) :
    ∃ tables' used', Mapped loader.pageTable tables used tables' used' (loader.firstPage header)
      header.pageFlags (fileContent s.memory (loader.fileStart header / 4096))
      (loader.filePages header) s s₁ := by
  have hpos := h.fileStart_pos header
  have hbelow := h.below
  refine mapSection_step h.identity ?_ hsep (pageFlags_present header) (fun k hk => ?_) hsection
  · unfold KernelLoader.filePages
    omega
  · have hin := h.inImage hheader hk
    exact ⟨Nat.lt_of_lt_of_le hin.2 hbelow, himage _ hin⟩

theorem ImageAt.mapped_of_no_bss (h : ImageAt loader imageSize)
    (hheader : HeaderValid imageSize header) (hbss : ¬ header.fileSize < header.memSize)
    (hmapped : Mapped loader.pageTable tables used tables' used' (loader.firstPage header)
      header.pageFlags (fileContent s.memory (loader.fileStart header / 4096))
      (loader.filePages header) s s') :
    SegmentMapped loader header tables used tables' used' (loader.filePages header) s s' where
  step := hmapped.step
  absent := hmapped.absent
  has := by
    intro k hk
    refine ⟨header.pageFlags, .inl rfl, (hmapped.has k hk).imp ?_⟩
    rintro j _ b rfl i hi haddress
    exact h.fileByte_eq hheader (by omega) haddress s.memory

theorem ImageAt.mapped_of_tail (h : ImageAt loader imageSize)
    (hheader : HeaderValid imageSize header) {s₁ s₂ : Machine A}
    (hmapped : Mapped loader.pageTable tables used tables' used' (loader.firstPage header)
      header.pageFlags (fileContent s.memory (loader.fileStart header / 4096))
      (loader.filePages header) s s₁)
    (htail : loader.zeroTail (loader.segmentStart header + header.fileSize) s₁ = .ok s₂) :
    ∃ tables'' used'', SegmentMapped loader header tables used tables'' used''
      (loader.filePages header) s s₂ := by
  by_cases hboundary : (loader.segmentStart header + header.fileSize) % 4096 = 0
  · have hbssFirst := h.bssFirst_eq hheader
    -- the file ends with a page, which stays as it is
    simp only [KernelLoader.zeroTail, hboundary, ne_eq, not_true_eq_false, if_false] at htail
    obtain rfl : s₁ = s₂ := Except.ok.inj htail
    refine ⟨tables', used', hmapped.step, hmapped.absent, fun k hk => ?_⟩
    refine ⟨header.pageFlags, .inl rfl, (hmapped.has k hk).imp ?_⟩
    rintro j hj b rfl i hi haddress
    exact h.fileByte_eq hheader (by omega) haddress s.memory
  · obtain ⟨hpos, hlast⟩ := h.tailPage_eq hheader hboundary
    have hcount : loader.filePages header - 1 < loader.filePages header := by omega
    have hhas := hmapped.has _ hcount
    rw [← hlast] at hhas
    obtain ⟨tables₂, used₂, hstep, hpage⟩ := zeroTail_step h.identity hboundary
      hmapped.step.separate (pageFlags_present header) (pageFlags_copied header)
      (pageFlags_or_copied header) hhas htail
    refine ⟨tables₂, used₂, (hmapped.step.trans hstep).congr fun n => ?_, hmapped.absent, ?_⟩
    · refine ⟨fun hn => hn.elim id fun heq => ⟨_, hcount, ?_⟩, .inl⟩
      rw [heq, hlast]
    · intro k hk
      by_cases hkl : k = loader.filePages header - 1
      · refine ⟨header.pageFlags ||| copied, .inr rfl, ?_⟩
        rw [hkl, ← hlast]
        refine hpage.imp fun j hj b hb i hi haddress => ?_
        by_cases hfile : i < header.fileSize
        · rw [if_pos (by omega)] at hb
          rw [hlast] at haddress
          rw [hb]
          exact h.fileByte_eq hheader hfile haddress s.memory
        · rw [if_neg (by omega)] at hb
          rw [hb, KernelLoader.segmentByte, if_neg hfile]
      · refine ⟨header.pageFlags, .inl rfl, (hstep.pageHas ?_ (hmapped.has k hk)).imp ?_⟩
        · rw [hlast]
          exact hmapped.distinct k _ (by omega) hcount
        · rintro j hj b rfl i hi haddress
          have hbefore : loader.firstPage header + k <
              (loader.segmentStart header + header.fileSize) / 4096 := by omega
          exact h.fileByte_eq hheader (by omega) haddress s.memory

theorem inRange_add {first count more n : Nat} :
    InRange first count n ∨ InRange (first + count) more n ↔ InRange first (count + more) n := by
  constructor
  · rintro (⟨k, hk, rfl⟩ | ⟨k, hk, rfl⟩)
    · exact ⟨k, by omega, rfl⟩
    · exact ⟨count + k, by omega, by rw [Nat.add_assoc]⟩
  · rintro ⟨k, hk, rfl⟩
    by_cases hlt : k < count
    · exact .inl ⟨k, hlt, rfl⟩
    · exact .inr ⟨k - count, by omega, by rw [Nat.add_assoc, Nat.add_sub_cancel' (by omega)]⟩

theorem ImageAt.mapped_of_bss (h : ImageAt loader imageSize)
    (hheader : HeaderValid imageSize header) {s₂ : Machine A} {count : Nat}
    {tables'' used'' : PhysicalFrame .size4KiB → Prop}
    (hfile : SegmentMapped loader header tables used tables' used' (loader.filePages header) s s₂)
    (hbss : Mapped loader.pageTable tables' used' tables'' used''
      (loader.firstPage header + loader.filePages header) header.pageFlags (fun _ _ b => b = 0)
      count s₂ s') :
    SegmentMapped loader header tables used tables'' used'' (loader.filePages header + count)
      s s' where
  step := (hfile.step.trans hbss.step).congr fun _ => inRange_add
  absent := by
    intro k hk
    by_cases hlt : k < loader.filePages header
    · exact hfile.absent k hlt
    · have habsent := hbss.absent (k - loader.filePages header) (by omega)
      rw [Nat.add_assoc, Nat.add_sub_cancel' (by omega)] at habsent
      by_contra hpresent
      have hmono := hfile.step.present_mono (Bool.not_eq_false _ ▸ hpresent)
      rw [habsent] at hmono
      cases hmono
  has := by
    have hbssFirst := h.bssFirst_eq hheader
    intro k hk
    by_cases hlt : k < loader.filePages header
    · obtain ⟨flags, hflags, hhas⟩ := hfile.has k hlt
      exact ⟨flags, hflags, hbss.keeps (present_of_flags hflags) hhas⟩
    · have hhas := hbss.has (k - loader.filePages header) (by omega)
      rw [Nat.add_assoc, Nat.add_sub_cancel' (by omega)] at hhas
      refine ⟨header.pageFlags, .inl rfl, hhas.imp fun j hj b hb i hi haddress => ?_⟩
      rw [hb, KernelLoader.segmentByte, if_neg (by omega)]

/-- What the address computations of a round need: the segment begins in the
address space, and zeroed memory ends before its last page. -/
structure SegmentFits (loader : KernelLoader PhysicalOffset) (header : ProgramHeader) : Prop where
  start : loader.segmentStart header < 2 ^ 64
  bss : header.fileSize < header.memSize →
    loader.segmentStart header + header.memSize ≤ 2 ^ 64 - 4096

theorem ImageAt.allocateHeader_mapped (h : ImageAt loader imageSize)
    (hheader : HeaderValid imageSize header)
    (hsep : Separate smallPages loader.pageTable tables used s)
    (himage : ∀ frame, InImage loader imageSize frame →
      HoldsData loader.pageTable tables used frame)
    (hrun : loader.allocateHeader header s = .ok s') :
    SegmentFits loader header ∧ ∃ tables' used',
      SegmentMapped loader header tables used tables' used' (loader.pageCount header) s s' := by
  obtain ⟨hstart, s₁, hsection, hrest⟩ := (h.allocateHeader_eq_ok hheader).mp hrun
  obtain ⟨tables₁, used₁, hmapped⟩ := h.filePages_mapped hheader hsep himage hsection
  rw [h.pageCount_eq hheader]
  by_cases hbss : header.fileSize < header.memSize
  · simp only [hbss, if_true] at hrest ⊢
    obtain ⟨hend, halign, s₂, htail, hbssRun⟩ := hrest
    obtain ⟨tables₂, used₂, hfile⟩ := h.mapped_of_tail hheader hmapped htail
    have hbssFirst := h.bssFirst_eq hheader
    have hcount : (loader.segmentStart header + header.memSize - 1) / 4096 + 1 =
        (loader.segmentStart header + header.fileSize + 4095) / 4096 +
          ((loader.segmentStart header + header.memSize - 1) / 4096 + 1 -
            (loader.segmentStart header + header.fileSize + 4095) / 4096) := by omega
    obtain ⟨⟨tables₃, used₃, hpages⟩, hfits⟩ :=
      mapBss_step h.identity hcount hfile.step.separate (pageFlags_present header) hbssRun
    refine ⟨⟨hstart, fun _ => ?_⟩, tables₃, used₃,
      h.mapped_of_bss hheader hfile (hbssFirst ▸ hpages)⟩
    -- either a page of zeroed memory was mapped, or the last page of the file holds all of it
    by_cases hnone : (loader.segmentStart header + header.memSize - 1) / 4096 + 1 ≤
        (loader.segmentStart header + header.fileSize + 4095) / 4096
    · omega
    · have hlast := hfits (by omega)
      rw [← hcount] at hlast
      omega
  · simp only [hbss, if_false] at hrest ⊢
    subst hrest
    exact ⟨⟨hstart, fun hlt => absurd hlt hbss⟩, tables₁, used₁,
      h.mapped_of_no_bss hheader hbss hmapped⟩

end Round

end MiniatureOs
