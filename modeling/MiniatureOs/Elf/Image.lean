import MiniatureOs.Elf.Placement
import MiniatureOs.Elf.Relocation

/-! # The image of the kernel

What an ELF file stands for is a memory: the segments at their addresses, with the words that
the relocations name replaced one after the other. `load_kernel` writes the words to physical
memory, in frames that two pages may share. Read through the page table, the result is that
memory all the same, because different bytes of the segments lie at different places: a shared
frame belongs to the file, and the file parts of the segments do not overlap.
-/

namespace MiniatureOs

open PageTableFrameMapping MappedPageTable

namespace KernelLoader

variable {P : Type}

def InSegment (loader : KernelLoader P) (header : ProgramHeader) (x : Nat) : Prop :=
  loader.segmentStart header ≤ x ∧ x < loader.segmentStart header + header.memSize

instance (loader : KernelLoader P) (header : ProgramHeader) (x : Nat) :
    Decidable (loader.InSegment header x) :=
  inferInstanceAs (Decidable (_ ∧ _))

def segmentsImage (loader : KernelLoader P) (headers : List ProgramHeader) (m : ByteMemory) :
    ByteMemory := fun x =>
  match headers.find? fun header => decide (loader.InSegment header x) with
  | some header => loader.segmentByte header m (x - loader.segmentStart header)
  | none => 0

def relocateImage (loader : KernelLoader P) (image : ByteMemory) (entry : RelocationEntry) :
    ByteMemory :=
  match entry.addend with
  | some addend => image.store (loader.virtualBase + entry.offset)
      (toLittleEndian 8 (loader.virtualBase + addend))
  | none => image

def kernelImage (loader : KernelLoader P) (elf : ElfBinary) (m : ByteMemory) : ByteMemory :=
  elf.relocations.foldl loader.relocateImage (loader.segmentsImage elf.headers m)

end KernelLoader

variable {A : Type} [FrameAllocator A] {loader : KernelLoader PhysicalOffset} {imageSize : Nat}
  {header a b : ProgramHeader} {headers : List ProgramHeader}
  {kept tables used : PhysicalFrame .size4KiB → Prop} {s s' : Machine A}
  {m m' image : ByteMemory} {frame : PhysicalFrame .size4KiB} {flags : PageTableEntryFlags}
  {x y location : Nat}

structure KernelLayout (loader : KernelLoader PhysicalOffset) (imageSize : Nat)
    (headers : List ProgramHeader) : Prop where
  image : ImageAt loader imageSize
  valid : ∀ header ∈ headers, HeaderValid imageSize header
  canonical : ∀ header ∈ headers, ∀ i < header.memSize, Canonical (loader.segmentStart header + i)
  files : ∀ a ∈ headers, ∀ b ∈ headers, ∀ i < a.fileSize, ∀ j < b.fileSize,
    a.offset + i = b.offset + j → a = b

/-! ## The place of a byte -/

theorem MapsTo.translate_eq {table : MappedPageTable PhysicalOffset} {page : Page .size4KiB}
    (hmaps : MapsTo table m page frame flags) (h : WellFormed smallPages table tables m) :
    table.translate page m = .ok (.ok (frame, flags)) := by
  rw [h.translate_eq rfl, hmaps.decode_eq]

theorem MapsTo.locatedAt_iff (hmaps : MapsTo loader.pageTable m (smallPage (x / 4096)) frame flags)
    (h : WellFormed smallPages loader.pageTable tables m) :
    loader.LocatedAt m x location ↔ location = frame.address + x % 0x1000 := by
  have htranslate := hmaps.translate_eq h
  rw [← containingAddress_eq_smallPage] at htranslate
  constructor
  · intro hlocated
    exact hlocated.unique ⟨frame, flags, htranslate, rfl⟩
  · intro heq
    exact ⟨frame, flags, htranslate, heq⟩

/-- The byte has the flags of the segment. It lies at its place in the image, or in a frame of
its own page. -/
def KernelLoader.BytePlaced (loader : KernelLoader PhysicalOffset)
    (kept : PhysicalFrame .size4KiB → Prop) (header : ProgramHeader) (m : ByteMemory) (x : Nat) :
    Prop :=
  ∃ frame flags, (flags = header.pageFlags ∨ flags = header.pageFlags ||| copied) ∧
    MapsTo loader.pageTable m (smallPage (x / 4096)) frame flags ∧
    (¬ kept frame ∨ x - loader.segmentStart header < header.fileSize ∧
      frame.address + x % 4096 =
        loader.fileStart header + (x - loader.segmentStart header))

theorem ImageAt.bytePlaced (h : ImageAt loader imageSize) (hheader : HeaderValid imageSize header)
    (hpages : ∀ k < loader.pageCount header, loader.PagePlaced kept header m k)
    (hx : loader.InSegment header x) : loader.BytePlaced kept header m x := by
  obtain ⟨i, rfl⟩ := Nat.exists_eq_add_of_le hx.1
  have hi : i < header.memSize := Nat.add_lt_add_iff_left.mp hx.2
  have hmod := h.start_mod hheader
  obtain ⟨k, hk, hpage⟩ := @exists_page_of_byte header _ loader i hi
  obtain ⟨frame, flags, hflags, hmaps, hplace⟩ := hpages k hk
  rw [← hpage] at hmaps
  refine ⟨frame, flags, hflags, hmaps, hplace.imp_right fun hfile => ?_⟩
  obtain ⟨-, rfl, hbytes⟩ := hfile
  rw [Nat.add_sub_cancel_left]
  refine ⟨hbytes i hi hpage, ?_⟩
  unfold KernelLoader.firstPage at hpage
  change (loader.fileStart header / 4096 + k) * 4096 + _ = _
  omega

theorem eq_of_page_number (hx : Canonical x) (hy : Canonical y)
    (hnumber : (smallPage (x / 4096)).number = (smallPage (y / 4096)).number)
    (hmod : x % 4096 = y % 4096) : x = y := by
  rw [smallPage_number, smallPage_number] at hnumber
  exact eq_of_canonical hx hy (by omega)

/-- Different bytes of the segments lie at different places. -/
theorem KernelLayout.eq_of_place (h : KernelLayout loader imageSize headers)
    (hplaced : Placement loader.pageTable kept tables used s) (ha : a ∈ headers) (hb : b ∈ headers)
    (hxa : loader.InSegment a x) (hyb : loader.InSegment b y)
    (hx : loader.BytePlaced kept a s.memory x) (hy : loader.BytePlaced kept b s.memory y)
    (hxl : loader.LocatedAt s.memory x location) (hyl : loader.LocatedAt s.memory y location) :
    x = y := by
  have hcanonical : ∀ {header x}, header ∈ headers → loader.InSegment header x → Canonical x := by
    intro header x hheader hin
    obtain ⟨i, rfl⟩ := Nat.exists_eq_add_of_le hin.1
    exact h.canonical header hheader i (Nat.add_lt_add_iff_left.mp hin.2)
  obtain ⟨frame, flags, -, hmaps, hplace⟩ := hx
  obtain ⟨frame', flags', -, hmaps', hplace'⟩ := hy
  have hwell := hplaced.separate.toWellFormed
  have hxl := (hmaps.locatedAt_iff hwell).mp hxl
  have hyl := (hmaps'.locatedAt_iff hwell).mp hyl
  have haligned : frame.address % 4096 = 0 := frame.aligned
  have haligned' : frame'.address % 4096 = 0 := frame'.aligned
  have hmod : x % 4096 = y % 4096 := by omega
  obtain rfl : frame = frame' := PhysicalFrame.ext (by omega)
  cases hplaced.once _ _ frame flags flags' hmaps hmaps' with
  | inr hnumber => exact eq_of_page_number (hcanonical ha hxa) (hcanonical hb hyb) hnumber hmod
  | inl hkept =>
      -- both lie in the file, so they are one byte of it
      obtain ⟨hfile, hposition⟩ := hplace.resolve_left fun hnot => hnot hkept
      obtain ⟨hfile', hposition'⟩ := hplace'.resolve_left fun hnot => hnot hkept
      unfold KernelLoader.fileStart at hposition hposition'
      obtain rfl := h.files a ha b hb _ hfile _ hfile' (by omega)
      have hle := hxa.1
      have hle' := hyb.1
      omega

/-! ## A memory seen through the page table -/

/-- The bytes of the segments are those of `image`, read through the page table. -/
structure ShowsImage (loader : KernelLoader PhysicalOffset) (headers : List ProgramHeader)
    (image : ByteMemory) (kept tables used : PhysicalFrame .size4KiB → Prop) (s : Machine A) :
    Prop where
  placement : Placement loader.pageTable kept tables used s
  placed : ∀ header ∈ headers, ∀ x, loader.InSegment header x →
    loader.BytePlaced kept header s.memory x
  shown : ∀ header ∈ headers, ∀ x, loader.InSegment header x →
    ∀ location, loader.LocatedAt s.memory x location → s.memory location = image x

def KernelLoader.SegmentPlace (loader : KernelLoader PhysicalOffset) (headers : List ProgramHeader)
    (m : ByteMemory) (location : Nat) : Prop :=
  ∃ header ∈ headers, ∃ x, loader.InSegment header x ∧ loader.LocatedAt m x location

namespace ShowsImage

theorem exists_locatedAt (h : ShowsImage loader headers image kept tables used s)
    (hheader : header ∈ headers) (hx : loader.InSegment header x) :
    ∃ location, loader.LocatedAt s.memory x location := by
  obtain ⟨frame, flags, -, hmaps, -⟩ := h.placed header hheader x hx
  exact ⟨_, (hmaps.locatedAt_iff h.placement.separate.toWellFormed).mpr rfl⟩

theorem not_inTables (h : ShowsImage loader headers image kept tables used s)
    (hzero : loader.pageTable.mapping.offset = 0) (hheader : header ∈ headers)
    (hx : loader.InSegment header x) (hlocated : loader.LocatedAt s.memory x location) :
    ¬ InTables loader.pageTable tables location := by
  obtain ⟨frame, flags, -, hmaps, -⟩ := h.placed header hheader x hx
  rw [(hmaps.locatedAt_iff h.placement.separate.toWellFormed).mp hlocated]
  exact (h.placement.data _ _ _ hmaps).not_inTables hzero (Nat.mod_lt _ (by decide))

theorem congr (h : ShowsImage loader headers image kept tables used s)
    (hsame : ∀ x, InTables loader.pageTable tables x → m x = s.memory x) :
    Placement loader.pageTable kept tables used { s with memory := m } ∧
      (∀ header ∈ headers, ∀ x, loader.InSegment header x →
        loader.BytePlaced kept header m x) ∧
      ∀ page : Page .size4KiB,
        loader.pageTable.translate page m = loader.pageTable.translate page s.memory := by
  obtain ⟨hplacement, hentries⟩ := h.placement.congr hsame
  refine ⟨hplacement, fun header hheader x hx => ?_, fun page => ?_⟩
  · obtain ⟨frame, flags, hflags, hmaps, hplace⟩ := h.placed header hheader x hx
    exact ⟨frame, flags, hflags, hmaps.of_entry (hentries _), hplace⟩
  · rw [h.placement.separate.translate_eq rfl, hplacement.separate.translate_eq rfl]
    exact congrArg _ (congrArg _ (hentries page))

theorem same_inTables (h : ShowsImage loader headers image kept tables used s)
    (hzero : loader.pageTable.mapping.offset = 0)
    (hsame : ∀ x, ¬ loader.SegmentPlace headers s.memory x → m x = s.memory x) :
    ∀ x, InTables loader.pageTable tables x → m x = s.memory x := by
  intro x hx
  refine hsame x fun hplace => ?_
  obtain ⟨header, hheader, y, hin, hlocated⟩ := hplace
  exact h.not_inTables hzero hheader hin hlocated hx

theorem segmentPlace_congr (h : ShowsImage loader headers image kept tables used s)
    (hsame : ∀ x, InTables loader.pageTable tables x → m x = s.memory x)
    (hplace : loader.SegmentPlace headers m location) :
    loader.SegmentPlace headers s.memory location := by
  obtain ⟨header, hheader, x, hin, frame, flags, hmapped, hlocation⟩ := hplace
  exact ⟨header, hheader, x, hin, frame, flags, ((h.congr hsame).2.2 _).symm.trans hmapped,
    hlocation⟩

theorem segmentPlace_of_stored {address value : Nat}
    (hinside : ∀ i < 8, ∃ header ∈ headers, loader.InSegment header (address + i))
    (hstored : loader.WordStored m address value m') :
    ∀ x, ¬ loader.SegmentPlace headers m x → m' x = m x := by
  intro x hx
  refine hstored.kept x fun i hi hlocated => hx ?_
  obtain ⟨header, hheader, hin⟩ := hinside i hi
  exact ⟨header, hheader, _, hin, hlocated⟩

theorem store (h : ShowsImage loader headers image kept tables used s)
    (hlayout : KernelLayout loader imageSize headers) {address value : Nat}
    (hinside : ∀ i < 8, ∃ header ∈ headers, loader.InSegment header (address + i))
    (hstored : loader.WordStored s.memory address value m) :
    ShowsImage loader headers (image.store address (toLittleEndian 8 value)) kept tables used
      { s with memory := m } := by
  obtain ⟨hplacement, hplaced, htranslate⟩ :=
    h.congr (h.same_inTables hlayout.image.identity (segmentPlace_of_stored hinside hstored))
  refine ⟨hplacement, hplaced, fun header hheader x hx location hat => ?_⟩
  have hat : loader.LocatedAt s.memory x location := by
    obtain ⟨frame, flags, hmapped, hlocation⟩ := hat
    exact ⟨frame, flags, (htranslate _).symm.trans hmapped, hlocation⟩
  have hlength := toLittleEndian_length 8 value
  by_cases hword : address ≤ x ∧ x < address + 8
  · obtain ⟨i, rfl⟩ := Nat.exists_eq_add_of_le hword.1
    have hi : i < 8 := Nat.add_lt_add_iff_left.mp hword.2
    have hbyte := hstored.stored i hi location hat
    rw [List.getElem?_eq_getElem (by omega)] at hbyte
    rw [ByteMemory.store_inside (by omega)]
    exact (Option.some.inj hbyte).symm
  · rw [ByteMemory.store_outside (by rwa [hlength])]
    refine (hstored.kept location fun i hi hother => hword ?_).trans
      (h.shown header hheader x hx location hat)
    obtain ⟨other, hmem, hin⟩ := hinside i hi
    obtain rfl := hlayout.eq_of_place h.placement hheader hmem hx hin
      (h.placed header hheader x hx) (h.placed other hmem _ hin) hat hother
    omega

end ShowsImage

/-! ## Relocations -/

def KernelLoader.WordInside (loader : KernelLoader PhysicalOffset) (headers : List ProgramHeader)
    (entry : RelocationEntry) : Prop :=
  ∀ i < 8, ∃ header ∈ headers,
    loader.InSegment header (loader.virtualBase + entry.offset + i)

/-- An entry that `relocate` handles. The page behind a word that ends with its page is
translated too, and no page may be the last one. -/
structure RelocationFits (loader : KernelLoader PhysicalOffset) (headers : List ProgramHeader)
    (entry : RelocationEntry) : Prop where
  relative : entry.rtype = .x86_64 .relative
  addend : ∃ addend, entry.addend = some addend ∧ loader.virtualBase + addend < 2 ^ 64
  inside : loader.WordInside headers entry
  notLast : alignDown (loader.virtualBase + entry.offset + 8) 0x1000 + 0x1000 < 2 ^ 64
  next : (loader.virtualBase + entry.offset) % 0x1000 + 8 = 0x1000 → ∃ header ∈ headers, ∃ x,
    loader.InSegment header x ∧ x / 4096 = (loader.virtualBase + entry.offset + 8) / 4096

variable {entry : RelocationEntry} {entries : List RelocationEntry}

namespace ShowsImage

/-- The page behind the word is translated as before when the first part of it is stored. -/
theorem translate_store (h : ShowsImage loader headers image kept tables used s)
    (hzero : loader.pageTable.mapping.offset = 0) (hheader : header ∈ headers)
    (hx : loader.InSegment header x) (hlocated : loader.LocatedAt s.memory x location)
    {bytes : List UInt8} (hbytes : x % 0x1000 + bytes.length ≤ 0x1000) (page : Page .size4KiB) :
    loader.pageTable.translate page (s.memory.store location bytes) =
      loader.pageTable.translate page s.memory := by
  obtain ⟨frame, flags, -, hmaps, -⟩ := h.placed header hheader x hx
  have hdata := h.placement.data _ _ _ hmaps
  have hlocation := (hmaps.locatedAt_iff h.placement.separate.toWellFormed).mp hlocated
  refine (h.congr fun y hy => ByteMemory.store_outside fun hin => ?_).2.2 page
  have hout := hdata.not_inTables hzero (show y - frame.address < 4096 by omega)
  rw [Nat.add_sub_cancel' (by omega)] at hout
  exact hout hy

theorem relocationCondition_iff (h : ShowsImage loader headers image kept tables used s)
    (hzero : loader.pageTable.mapping.offset = 0) (hinside : loader.WordInside headers entry)
    {value : Nat} :
    loader.RelocationCondition s.memory (loader.virtualBase + entry.offset) value ↔
      alignDown (loader.virtualBase + entry.offset + 8) 0x1000 + 0x1000 < 2 ^ 64 ∧
        ((loader.virtualBase + entry.offset) % 0x1000 + 8 = 0x1000 → ∃ location,
          loader.LocatedAt s.memory (loader.virtualBase + entry.offset + 8) location) := by
  refine KernelLoader.relocationCondition_iff_of_apart (fun i hi => ?_) fun location hlocated => ?_
  · obtain ⟨header, hheader, hx⟩ := hinside i hi
    exact h.exists_locatedAt hheader hx
  · obtain ⟨header, hheader, hx⟩ := hinside 0 (by decide)
    refine h.translate_store hzero hheader hx hlocated ?_ _
    have hmod : (loader.virtualBase + entry.offset) % 0x1000 < 0x1000 := Nat.mod_lt _ (by decide)
    rw [List.length_take, toLittleEndian_length, KernelLoader.firstCount, Nat.add_zero]
    omega

theorem relocationCondition_of_ok (h : ShowsImage loader headers image kept tables used s)
    (hzero : loader.pageTable.mapping.offset = 0) (hinside : loader.WordInside headers entry)
    {addend : Nat} (haddend : entry.addend = some addend)
    (hsum : loader.virtualBase + addend < 2 ^ 64)
    (htarget : loader.virtualBase + entry.offset < 2 ^ 64)
    (hrun : loader.handleRelativeRelocation entry s.memory = .ok m) :
    loader.RelocationCondition s.memory (loader.virtualBase + entry.offset)
      (loader.virtualBase + addend) := by
  obtain ⟨header, hheader, hx⟩ := hinside 0 (by decide)
  rw [Nat.add_zero] at hx
  obtain ⟨location, hlocated⟩ := h.exists_locatedAt hheader hx
  apply (h.relocationCondition_iff hzero hinside).mpr
  by_cases hshort : (loader.virtualBase + entry.offset) % 0x1000 + 8 < 0x1000
  · have hresult := (KernelLoader.handleRelativeRelocation_of_one_page haddend hsum htarget hshort
      hlocated).mp hrun
    exact ⟨hresult.1, fun hend => absurd hshort (by omega)⟩
  · obtain ⟨hlast, frame, flags, htranslate, -⟩ :=
      (KernelLoader.handleRelativeRelocation_of_two_pages haddend hsum htarget (by omega)
        hlocated).mp hrun
    refine ⟨hlast, fun _ => ⟨_, frame, flags, ?_, rfl⟩⟩
    rw [← htranslate]
    refine (h.translate_store hzero hheader hx hlocated ?_ _).symm
    have hmod : (loader.virtualBase + entry.offset) % 0x1000 < 0x1000 := Nat.mod_lt _ (by decide)
    rw [List.length_take, toLittleEndian_length, KernelLoader.firstCount]
    omega

/-- `relocate` does to the memory behind the pages what the entry says of the image, and
changes nothing outside the segments. -/
theorem relocate (h : ShowsImage loader headers image kept tables used s)
    (hlayout : KernelLayout loader imageSize headers) (hinside : loader.WordInside headers entry)
    (hrun : loader.relocate entry s.memory = .ok m) :
    ShowsImage loader headers (loader.relocateImage image entry) kept tables used
        { s with memory := m } ∧
      ∀ x, ¬ loader.SegmentPlace headers s.memory x → m x = s.memory x := by
  have hhandle : loader.handleRelativeRelocation entry s.memory = .ok m := by
    unfold KernelLoader.relocate at hrun
    split at hrun
    · exact hrun
    · cases hrun
    · cases hrun
  obtain ⟨addend, haddend, hrest⟩ := Checked.bind_eq_ok.mp hhandle
  obtain ⟨_, hsum, hrest⟩ := Checked.bind_eq_ok.mp hrest
  obtain ⟨_, htarget, -⟩ := Checked.bind_eq_ok.mp hrest
  have haddend := Checked.expect_eq_ok.mp haddend
  have hsum := (Checked.add_eq_ok.mp hsum).1
  have htarget := (Checked.add_eq_ok.mp htarget).1
  have hcondition := h.relocationCondition_of_ok hlayout.image.identity hinside haddend hsum
    htarget hhandle
  have hend := ((KernelLoader.handleRelativeRelocation_eq_ok haddend hsum htarget).mp hhandle).1
  have hmapped : ∀ i < 8, loader.virtualBase + entry.offset + i < 2 ^ 64 ∧
      ∃ location, loader.LocatedAt s.memory (loader.virtualBase + entry.offset + i) location := by
    intro i hi
    obtain ⟨header, hheader, hx⟩ := hinside i hi
    exact ⟨by omega, h.exists_locatedAt hheader hx⟩
  obtain ⟨m', hrun', hstored⟩ := (KernelLoader.relocates_iff haddend hsum hmapped).mpr hcondition
  rw [hhandle] at hrun'
  obtain rfl := Except.ok.inj hrun'
  rw [KernelLoader.relocateImage, haddend]
  exact ⟨h.store hlayout hinside hstored, segmentPlace_of_stored hinside hstored⟩

theorem relocate_total (h : ShowsImage loader headers image kept tables used s)
    (hlayout : KernelLayout loader imageSize headers)
    (hfits : RelocationFits loader headers entry) :
    ∃ m, loader.relocate entry s.memory = .ok m := by
  obtain ⟨addend, haddend, hsum⟩ := hfits.addend
  have hlast := hfits.notLast
  have hmapped : ∀ i < 8, loader.virtualBase + entry.offset + i < 2 ^ 64 ∧
      ∃ location, loader.LocatedAt s.memory (loader.virtualBase + entry.offset + i) location := by
    intro i hi
    obtain ⟨header, hheader, hx⟩ := hfits.inside i hi
    unfold alignDown at hlast
    exact ⟨by omega, h.exists_locatedAt hheader hx⟩
  have hnext : (loader.virtualBase + entry.offset) % 0x1000 + 8 = 0x1000 → ∃ location,
      loader.LocatedAt s.memory (loader.virtualBase + entry.offset + 8) location := by
    intro hend
    obtain ⟨header, hheader, x, hx, hpage⟩ := hfits.next hend
    obtain ⟨frame, flags, -, hmaps, -⟩ := h.placed header hheader x hx
    rw [hpage] at hmaps
    exact ⟨_, (hmaps.locatedAt_iff h.placement.separate.toWellFormed).mpr rfl⟩
  have hcondition : loader.RelocationCondition s.memory (loader.virtualBase + entry.offset)
      (loader.virtualBase + addend) :=
    (h.relocationCondition_iff hlayout.image.identity hfits.inside).mpr ⟨hlast, hnext⟩
  obtain ⟨m, hrun, -⟩ := (KernelLoader.relocates_iff haddend hsum hmapped).mpr hcondition
  refine ⟨m, ?_⟩
  rw [KernelLoader.relocate, hfits.relative]
  exact hrun

theorem relocateAll (h : ShowsImage loader headers image kept tables used s)
    (hlayout : KernelLayout loader imageSize headers)
    (hinside : ∀ entry ∈ entries, loader.WordInside headers entry)
    (hrun : entries.foldlM (fun m entry => loader.relocate entry m) s.memory = .ok m) :
    ShowsImage loader headers (entries.foldl loader.relocateImage image) kept tables used
        { s with memory := m } ∧
      ∀ x, ¬ loader.SegmentPlace headers s.memory x → m x = s.memory x := by
  induction entries generalizing s image with
  | nil =>
      obtain rfl := Except.ok.inj hrun
      exact ⟨h, fun _ _ => rfl⟩
  | cons entry entries ih =>
      rw [List.foldlM_cons] at hrun
      obtain ⟨m₁, hfirst, hrest⟩ := Checked.bind_eq_ok.mp hrun
      obtain ⟨hstep, hsame⟩ := h.relocate hlayout (hinside entry List.mem_cons_self) hfirst
      obtain ⟨hall, hsame'⟩ := ih hstep
        (fun other hother => hinside other (List.mem_cons_of_mem _ hother)) hrest
      refine ⟨hall, fun x hx => (hsame' x fun hplace => hx ?_).trans (hsame x hx)⟩
      exact h.segmentPlace_congr (h.same_inTables hlayout.image.identity hsame) hplace

theorem relocateAll_total (h : ShowsImage loader headers image kept tables used s)
    (hlayout : KernelLayout loader imageSize headers)
    (hfits : ∀ entry ∈ entries, RelocationFits loader headers entry) :
    ∃ m, entries.foldlM (fun m entry => loader.relocate entry m) s.memory = .ok m := by
  induction entries generalizing s image with
  | nil => exact ⟨s.memory, rfl⟩
  | cons entry entries ih =>
      have hentry := hfits entry List.mem_cons_self
      obtain ⟨m₁, hfirst⟩ := h.relocate_total hlayout hentry
      have hstep := (h.relocate hlayout hentry.inside hfirst).1
      obtain ⟨m, hrest⟩ := ih hstep fun other hother => hfits other (List.mem_cons_of_mem _ hother)
      refine ⟨m, ?_⟩
      rw [List.foldlM_cons, hfirst]
      exact hrest

end ShowsImage

/-! ## The whole kernel -/

/-- The address lies in no other segment, so the image has the byte of this one there. -/
theorem KernelLoader.segmentsImage_eq (hapart : headers.Pairwise loader.Apart)
    (hheader : header ∈ headers) (hx : loader.InSegment header x) (m : ByteMemory) :
    loader.segmentsImage headers m x =
      loader.segmentByte header m (x - loader.segmentStart header) := by
  have htouches : ∀ {header}, loader.InSegment header x →
      loader.Touches header (smallPage (x / 4096)).number := by
    intro header hx
    obtain ⟨i, rfl⟩ := Nat.exists_eq_add_of_le hx.1
    obtain ⟨k, hk, hpage⟩ :=
      @exists_page_of_byte header _ loader i (Nat.add_lt_add_iff_left.mp hx.2)
    exact ⟨k, hk, by rw [hpage]⟩
  unfold segmentsImage
  cases hfind : headers.find? fun header => decide (loader.InSegment header x) with
  | none =>
      have hnone := List.find?_eq_none.mp hfind header hheader
      exact absurd (decide_eq_true hx) hnone
  | some other =>
      have hfound := List.find?_some hfind
      have hin : loader.InSegment other x := of_decide_eq_true hfound
      have hmem := List.mem_of_find?_eq_some hfind
      by_cases hsame : other = header
      · rw [hsame]
      · have hsymmetric : Std.Symm loader.Apart := ⟨fun a b hab n hb ha => hab n ha hb⟩
        exact absurd (htouches hx) (hapart.forall hmem hheader hsame _ (htouches hin))

theorem KernelLayout.allocate_shows (hlayout : KernelLayout loader imageSize headers)
    (hplaced : Placement loader.pageTable kept tables used s)
    (himage : ∀ frame, InImage loader imageSize frame → kept frame)
    (hrun : loader.allocate headers s = .ok s') :
    ∃ tables' used', ShowsImage loader headers (loader.segmentsImage headers s.memory) kept
        tables' used' s' ∧
      Adds loader.pageTable (fun n => ∃ header ∈ headers, loader.Touches header n)
        tables used tables' used' s s' := by
  obtain ⟨tables', used', hplaced', hadds, hpages⟩ :=
    hlayout.image.allocate_placed hlayout.valid hplaced himage hrun
  obtain ⟨_, _, hallocated⟩ := hlayout.image.allocate_allocated hlayout.valid hplaced.separate
    (fun frame hin => hplaced.held frame (himage frame hin)) hrun
  refine ⟨tables', used', ⟨hplaced', ?_, ?_⟩, hadds⟩
  · intro header hheader x hx
    exact hlayout.image.bytePlaced (hlayout.valid header hheader) (hpages header hheader) hx
  · intro header hheader x hx location hlocated
    rw [KernelLoader.segmentsImage_eq hallocated.apart hheader hx]
    obtain ⟨i, rfl⟩ := Nat.exists_eq_add_of_le hx.1
    have hi : i < header.memSize := Nat.add_lt_add_iff_left.mp hx.2
    obtain ⟨k, hk, hpage⟩ := @exists_page_of_byte header _ loader i hi
    obtain ⟨flags, hflags, frame, hlt, -, hentry, hcontent⟩ := hallocated.has header hheader k hk
    have hmaps : MapsTo loader.pageTable s'.memory
        (smallPage ((loader.segmentStart header + i) / 4096)) frame flags := by
      rw [hpage]
      exact ⟨hlt, present_of_flags hflags, hentry⟩
    rw [(hmaps.locatedAt_iff hplaced'.separate.toWellFormed).mp hlocated, Nat.add_sub_cancel_left]
    exact hcontent _ (Nat.mod_lt _ (by decide)) i hi (by omega)

def ImageLoaded (loader : KernelLoader PhysicalOffset) (headers : List ProgramHeader)
    (image m : ByteMemory) : Prop :=
  ∀ header ∈ headers, ∀ x, loader.InSegment header x → ∃ frame flags,
    loader.pageTable.translate (Page.containingAddress .size4KiB x) m =
      .ok (.ok (frame, flags)) ∧
    m (frame.address + x % 4096) = image x ∧
    flags.contains .writable = header.isWrite ∧ flags.contains .noExecute = !header.isExecute

theorem ShowsImage.imageLoaded (h : ShowsImage loader headers image kept tables used s) :
    ImageLoaded loader headers image s.memory := by
  intro header hheader x hx
  obtain ⟨frame, flags, hflags, hmaps, -⟩ := h.placed header hheader x hx
  have hwell := h.placement.separate.toWellFormed
  refine ⟨frame, flags, ?_, ?_, pageFlags_permissions hflags⟩
  · rw [containingAddress_eq_smallPage]
    exact hmaps.translate_eq hwell
  · exact h.shown header hheader x hx _ ((hmaps.locatedAt_iff hwell).mpr rfl)

theorem LoaderReady.placement (h : LoaderReady loader imageSize headers s) :
    Placement loader.pageTable (InImage loader imageSize) (fun _ => False)
      (loader.InUse imageSize) s := by
  have hnone : ∀ page frame flags, ¬ MapsTo loader.pageTable s.memory page frame flags := by
    intro page frame flags hmaps
    have hpresent := hmaps.isPresent
    rw [h.absent page] at hpresent
    cases hpresent
  exact ⟨h.separate, h.imageHeld,
    fun page frame flags hmaps => absurd hmaps (hnone page frame flags),
    fun page other frame flags flags' hmaps => absurd hmaps (hnone page frame flags)⟩

theorem tls_total {regions : List TlsRegion}
    (h : ∀ region ∈ regions, region.start + region.totalSize < 2 ^ 64) :
    regions.forM KernelLoader.tls = .ok () := by
  induction regions with
  | nil => rfl
  | cons region regions ih =>
      have hfirst : KernelLoader.tls region = .ok () := by
        rw [KernelLoader.tls, Checked.add_of_lt (h region List.mem_cons_self)]
        rfl
      change (KernelLoader.tls region >>= fun _ => regions.forM KernelLoader.tls) = .ok ()
      rw [hfirst, Checked.ok_bind]
      exact ih fun other hother => h other (List.mem_cons_of_mem _ hother)

/-- What `load_kernel` needs of a file to load it. -/
structure Loadable (loader : KernelLoader PhysicalOffset) (elf : ElfBinary) : Prop where
  segments : LoadCondition loader elf.headers
  files : ∀ a ∈ elf.headers, ∀ b ∈ elf.headers, ∀ i < a.fileSize, ∀ j < b.fileSize,
    a.offset + i = b.offset + j → a = b
  relocations : ∀ entry ∈ elf.relocations, RelocationFits loader elf.headers entry
  tls : ∀ region ∈ elf.tls, region.start + region.totalSize < 2 ^ 64
  entryPoint : loader.virtualBase + elf.entryPoint < 2 ^ 64

/-- `load_kernel` returns with the entry point, and the memory behind the pages is the one that
the file stands for. -/
theorem loadKernel_image (loader : KernelLoader PhysicalOffset) (imageSize : Nat)
    (elf : ElfBinary) (s : Machine A) (hready : LoaderReady loader imageSize elf.headers s)
    (hloadable : Loadable loader elf) :
    ∃ s', loader.loadKernel elf s = .ok (loader.virtualBase + elf.entryPoint, s') ∧
      ImageLoaded loader elf.headers (loader.kernelImage elf s.memory) s'.memory := by
  have hlayout : KernelLayout loader imageSize elf.headers :=
    ⟨hready.image, hready.valid, hloadable.segments.canonical, hloadable.files⟩
  obtain ⟨s₁, hallocate⟩ := hready.image.allocate_total hready.valid hready.separate
    hready.imageHeld hloadable.segments (fun _ _ _ _ => hready.absent _) hready.supply
  obtain ⟨tables₁, used₁, hshows, -⟩ :=
    hlayout.allocate_shows hready.placement (fun _ => id) hallocate
  obtain ⟨m, hrelocate⟩ := hshows.relocateAll_total hlayout hloadable.relocations
  obtain ⟨hrelocated, -⟩ := hshows.relocateAll hlayout
    (fun entry hentry => (hloadable.relocations entry hentry).inside) hrelocate
  refine ⟨{ s₁ with memory := m }, ?_, hrelocated.imageLoaded⟩
  simp only [KernelLoader.loadKernel, hallocate, Checked.ok_bind, tls_total hloadable.tls,
    hrelocate, Checked.add_of_lt hloadable.entryPoint, Checked.pure_eq_ok]

def dataSegment : ProgramHeader :=
  ⟨0x800, 0x1800, 0x200, 0x1000, false, true⟩

def relocatedKernel : ElfBinary :=
  ⟨[dataSegment], [], [⟨.x86_64 .relative, 0x1900, some 0x10⟩,
    ⟨.x86_64 .relative, 0x1ffc, some 0x20⟩, ⟨.x86_64 .relative, 0x1ff8, some 0x30⟩], 0x40⟩

theorem relocationFits_dataSegment {offset addend : Nat} (hlow : 0x1800 ≤ offset)
    (hhigh : offset + 8 ≤ 0x2800) (haddend : addend < 0x1000) :
    RelocationFits imageLoader [dataSegment] ⟨.x86_64 .relative, offset, some addend⟩ where
  relative := rfl
  addend := by
    refine ⟨addend, rfl, ?_⟩
    change 0xffffffff80000000 + addend < 2 ^ 64
    omega
  inside := by
    intro i hi
    refine ⟨dataSegment, List.mem_singleton_self _, ?_⟩
    change 0xffffffff80000000 + 0x1800 ≤ 0xffffffff80000000 + offset + i ∧
      0xffffffff80000000 + offset + i < 0xffffffff80000000 + 0x1800 + 0x1000
    omega
  notLast := by
    change alignDown (0xffffffff80000000 + offset + 8) 0x1000 + 0x1000 < 2 ^ 64
    unfold alignDown
    omega
  next := by
    change (0xffffffff80000000 + offset) % 0x1000 + 8 = 0x1000 → _
    intro hend
    refine ⟨dataSegment, List.mem_singleton_self _, 0xffffffff80002000, by decide, ?_⟩
    change 0xffffffff80002000 / 4096 = (0xffffffff80000000 + offset + 8) / 4096
    omega

theorem loadKernel_relocatedKernel :
    ∃ s', imageLoader.loadKernel relocatedKernel imageMachine = .ok (0xffffffff80000040, s') ∧
      imageLoader.kernelImage relocatedKernel imageMachine.memory 0xffffffff80001900 = 0x10 ∧
      imageLoader.kernelImage relocatedKernel imageMachine.memory 0xffffffff80001910 = 1 ∧
      ImageLoaded imageLoader [dataSegment]
        (imageLoader.kernelImage relocatedKernel imageMachine.memory) s'.memory := by
  have hvalid : ∀ header ∈ relocatedKernel.headers, HeaderValid 0x1000 header :=
    List.forall_mem_singleton.mpr ⟨by decide, by decide, by decide⟩
  have hready : LoaderReady imageLoader 0x1000 relocatedKernel.headers imageMachine :=
    imageMachine_ready hvalid (by decide)
  have hsegments : LoadCondition imageLoader relocatedKernel.headers := by
    refine ⟨List.forall_mem_singleton.mpr ⟨by decide, by decide⟩,
      List.forall_mem_singleton.mpr ?_, List.pairwise_singleton _ _⟩
    intro i hi
    change i < 0x1000 at hi
    change Canonical (0xffffffff80000000 + 0x1800 + i)
    unfold Canonical
    omega
  have hloadable : Loadable imageLoader relocatedKernel := by
    refine ⟨hsegments, ?_, ?_, by simp [relocatedKernel], by decide⟩
    · intro a ha b hb _ _ _ _ _
      rw [List.mem_singleton.mp ha, List.mem_singleton.mp hb]
    · simp only [relocatedKernel, List.forall_mem_cons]
      exact ⟨relocationFits_dataSegment (by decide) (by decide) (by decide),
        relocationFits_dataSegment (by decide) (by decide) (by decide),
        relocationFits_dataSegment (by decide) (by decide) (by decide), by simp⟩
  obtain ⟨s', hrun, hloaded⟩ :=
    loadKernel_image imageLoader 0x1000 relocatedKernel imageMachine hready hloadable
  exact ⟨s', hrun, by decide, by decide, hloaded⟩

end MiniatureOs
