import MiniatureOs.Elf.Correct

/-! # The frames behind the pages

A page is mapped to a frame that was in use before the loader ran, such as a frame of the
image, or to a frame that was allocated for it. Two pages share a frame of the first kind
when two segments share a page of the file, but none of the second kind is ever shared. This
is what keeps a write to one page away from all others.
-/

namespace MiniatureOs

open PageTableFrameMapping MappedPageTable

variable {A : Type} [FrameAllocator A] {table : MappedPageTable PhysicalOffset}
  {kept tables used tables' used' : PhysicalFrame .size4KiB → Prop} {pages pages' : Nat → Prop}
  {s s' : Machine A} {m m' : ByteMemory} {frame frame' : PhysicalFrame .size4KiB}
  {page other : Page .size4KiB} {flags flags' : PageTableEntryFlags} {message : String}

/-! ## Mapped pages -/

structure MapsTo (table : MappedPageTable PhysicalOffset) (m : ByteMemory)
    (page : Page .size4KiB) (frame : PhysicalFrame .size4KiB) (flags : PageTableEntryFlags) :
    Prop where
  lt : frame.address < 2 ^ 48
  present : flags.contains .present = true
  entry : table.pageEntry m page = PageTableEntry.setAddress frame.address flags

namespace MapsTo

theorem decode_eq (h : MapsTo table m page frame flags) :
    decode .size4KiB (table.pageEntry m page) = .ok (frame, flags) := by
  rw [h.entry]
  exact decode_setAddress h.lt h.present

theorem unique (h : MapsTo table m page frame flags) (h' : MapsTo table m page frame' flags') :
    frame = frame' ∧ flags = flags' := by
  have hdecode := h.decode_eq
  rw [h'.decode_eq] at hdecode
  obtain ⟨hframe, hflags⟩ := Prod.mk.inj (Except.ok.inj hdecode)
  exact ⟨hframe.symm, hflags.symm⟩

theorem isPresent (h : MapsTo table m page frame flags) :
    PageTableEntry.isPresent (table.pageEntry m page) = true := by
  rw [h.entry, PageTableEntry.isPresent_setAddress frame.aligned h.lt]
  exact h.present

theorem of_entry (h : MapsTo table m page frame flags)
    (hsame : table.pageEntry m' other = table.pageEntry m page) :
    MapsTo table m' other frame flags :=
  ⟨h.lt, h.present, hsame.trans h.entry⟩

theorem of_number (h : MapsTo table m page frame flags) (hnumber : other.number = page.number) :
    MapsTo table m other frame flags :=
  h.of_entry (table.pageEntry_eq_of_number m hnumber)

end MapsTo

/-! ## Steps that map pages -/

structure Adds (table : MappedPageTable PhysicalOffset) (pages : Nat → Prop)
    (tables used tables' used' : PhysicalFrame .size4KiB → Prop) (s s' : Machine A) : Prop
    extends DataStep table pages tables used tables' used' s s' where
  absent : ∀ page : Page .size4KiB, pages page.number →
    PageTableEntry.isPresent (table.pageEntry s.memory page) = false

theorem DataStep.mapsTo (h : DataStep table pages tables used tables' used' s s')
    (hpage : ¬ pages page.number) :
    MapsTo table s'.memory page frame flags ↔ MapsTo table s.memory page frame flags :=
  ⟨fun hmaps => hmaps.of_entry (h.others page hpage).symm,
    fun hmaps => hmaps.of_entry (h.others page hpage)⟩

namespace Adds

theorem not_touched (h : Adds table pages tables used tables' used' s s')
    (hmaps : MapsTo table s.memory page frame flags) : ¬ pages page.number := by
  intro hpage
  have hpresent := hmaps.isPresent
  rw [h.absent page hpage] at hpresent
  cases hpresent

theorem keeps (h : Adds table pages tables used tables' used' s s')
    (hmaps : MapsTo table s.memory page frame flags) : MapsTo table s'.memory page frame flags :=
  (h.mapsTo (h.not_touched hmaps)).mpr hmaps

theorem refl (h : Separate smallPages table tables used s) :
    Adds table (fun _ => False) tables used tables used s s :=
  ⟨.refl h, fun _ => False.elim⟩

theorem congr (h : Adds table pages tables used tables' used' s s')
    (hpages : ∀ n, pages n ↔ pages' n) : Adds table pages' tables used tables' used' s s' :=
  ⟨h.toDataStep.congr hpages, fun page hpage => h.absent page ((hpages _).mpr hpage)⟩

variable {tables'' used'' : PhysicalFrame .size4KiB → Prop} {s'' : Machine A}

theorem trans (h : Adds table pages tables used tables' used' s s')
    (h' : Adds table pages' tables' used' tables'' used'' s' s'') :
    Adds table (fun n => pages n ∨ pages' n) tables used tables'' used'' s s'' where
  toDataStep := h.toDataStep.trans h'.toDataStep
  absent := by
    intro page hpage
    by_cases hfirst : pages page.number
    · exact h.absent page hfirst
    · rw [← h.others page hfirst]
      exact h'.absent page (hpage.resolve_left hfirst)

theorem andThen (h : Adds table pages tables used tables' used' s s')
    (h' : DataStep table pages' tables' used' tables'' used'' s' s'')
    (hsub : ∀ n, pages' n → pages n) : Adds table pages tables used tables'' used'' s s'' where
  toDataStep := (h.toDataStep.trans h').congr fun n =>
    ⟨fun hn => hn.elim id (hsub n), .inl⟩
  absent := h.absent

end Adds

/-! ## The invariant -/

/-- Every mapped page leads to a data frame. A frame that is not `kept` from before the run is
behind one page only. -/
structure Placement (table : MappedPageTable PhysicalOffset)
    (kept tables used : PhysicalFrame .size4KiB → Prop) (s : Machine A) : Prop where
  separate : Separate smallPages table tables used s
  held : ∀ frame, kept frame → HoldsData table tables used frame
  data : ∀ page frame flags, MapsTo table s.memory page frame flags →
    HoldsData table tables used frame
  once : ∀ page other frame flags flags', MapsTo table s.memory page frame flags →
    MapsTo table s.memory other frame flags' → kept frame ∨ page.number = other.number

namespace Placement

theorem step (h : Placement table kept tables used s)
    (hstep : DataStep table pages tables used tables' used' s s')
    (hnew : ∀ page frame flags, pages page.number → MapsTo table s'.memory page frame flags →
      HoldsData table tables' used' frame ∧
        (kept frame ∨ ((∀ other flags', ¬ MapsTo table s.memory other frame flags') ∧
          ∀ n, pages n → n = page.number))) :
    Placement table kept tables' used' s' where
  separate := hstep.separate
  held := fun frame hkept => hstep.data frame (h.held frame hkept)
  data := by
    intro page frame flags hmaps
    by_cases hpage : pages page.number
    · exact (hnew page frame flags hpage hmaps).1
    · exact hstep.data frame (h.data page frame flags ((hstep.mapsTo hpage).mp hmaps))
  once := by
    intro page other frame flags flags' hmaps hmaps'
    by_cases hpage : pages page.number
    · cases (hnew page frame flags hpage hmaps).2 with
      | inl hkept => exact .inl hkept
      | inr hfresh =>
          by_cases hother : pages other.number
          · exact .inr (hfresh.2 _ hother).symm
          · exact absurd ((hstep.mapsTo hother).mp hmaps') (hfresh.1 other flags')
    · by_cases hother : pages other.number
      · cases (hnew other frame flags' hother hmaps').2 with
        | inl hkept => exact .inl hkept
        | inr hfresh => exact absurd ((hstep.mapsTo hpage).mp hmaps) (hfresh.1 page flags)
      · exact h.once page other frame flags flags' ((hstep.mapsTo hpage).mp hmaps)
          ((hstep.mapsTo hother).mp hmaps')

theorem step_page (h : Placement table kept tables used s)
    (hstep : DataStep table (fun n => n = page.number) tables used tables' used' s s')
    (hentry : table.pageEntry s'.memory page = PageTableEntry.setAddress frame.address flags)
    (hlt : frame.address < 2 ^ 48) (hframe : HoldsData table tables' used' frame)
    (hfree : kept frame ∨ ∀ other flags', ¬ MapsTo table s.memory other frame flags') :
    Placement table kept tables' used' s' := by
  apply h.step hstep
  intro p f fl hp hmaps
  have hpresent := hmaps.isPresent
  rw [table.pageEntry_eq_of_number _ hp, hentry,
    PageTableEntry.isPresent_setAddress frame.aligned hlt] at hpresent
  have hself : MapsTo table s'.memory page frame flags := ⟨hlt, hpresent, hentry⟩
  obtain ⟨rfl, -⟩ := hmaps.unique (hself.of_number hp)
  exact ⟨hframe, hfree.imp_right fun hnone => ⟨hnone, fun n hn => hn.trans hp.symm⟩⟩

theorem congr (h : Placement table kept tables used s)
    (hsame : ∀ x, InTables table tables x → m x = s.memory x) :
    Placement table kept tables used { s with memory := m } ∧
      ∀ page : Page .size4KiB, table.pageEntry m page = table.pageEntry s.memory page := by
  have hentry : ∀ page : Page .size4KiB,
      table.pageEntry m page = table.pageEntry s.memory page := fun page =>
    h.separate.dataAt_congr hsame (@Page.Fits.interior_tablePath _ smallPages page rfl)
      page.leafIndex
  have hback : ∀ {page frame flags}, MapsTo table m page frame flags →
      MapsTo table s.memory page frame flags := fun hmaps => hmaps.of_entry (hentry _).symm
  refine ⟨⟨⟨h.separate.toWellFormed.congr hsame, h.separate.tables_used, h.separate.root_used,
    h.separate.fresh⟩, h.held, ?_, ?_⟩, hentry⟩
  · exact fun page frame flags hmaps => h.data page frame flags (hback hmaps)
  · exact fun page other frame flags flags' hmaps hmaps' =>
      h.once page other frame flags flags' (hback hmaps) (hback hmaps')

theorem unmapped (h : Placement table kept tables used s) (hnew : ¬ used frame)
    (page : Page .size4KiB) (flags : PageTableEntryFlags) :
    ¬ MapsTo table s.memory page frame flags :=
  fun hmaps => hnew (h.data page frame flags hmaps).isUsed

theorem not_kept (h : Placement table kept tables used s) (hnew : ¬ used frame) : ¬ kept frame :=
  fun hkept => hnew (h.held frame hkept).isUsed

theorem expectMapTo (h : Placement table kept tables used s) (hzero : table.mapping.offset = 0)
    (hlt : frame.address < 2 ^ 48) (hframe : HoldsData table tables used frame)
    (hfree : kept frame ∨ ∀ other flags', ¬ MapsTo table s.memory other frame flags')
    (hrun : table.expectMapTo message frame page flags s = .ok s') :
    ∃ tables' used', Placement table kept tables' used' s' ∧
      Adds table (fun n => n = page.number) tables used tables' used' s s' ∧
      table.pageEntry s'.memory page = PageTableEntry.setAddress frame.address flags := by
  obtain ⟨flusher, hmap⟩ := expectMapTo_eq_ok hrun
  obtain ⟨tables', used', hextends, houtcome⟩ :=
    h.separate.mapTo_spec (PhysicalOffset.injectiveMapping _) rfl hmap
  cases houtcome with
  | mapped absent updates =>
      have hentry : table.pageEntry s'.memory page =
          PageTableEntry.setAddress frame.address flags := updates.self
      have hstep : DataStep table (fun n => n = page.number) tables used tables' used' s s' :=
        .of_extends hzero hextends fun other hother =>
          updates.others other rfl fun halias => hother (Page.number_eq_of_aliases halias)
      refine ⟨tables', used', h.step_page hstep hentry hlt (hstep.data frame hframe) hfree,
        ⟨hstep, fun other hother => ?_⟩, hentry⟩
      rw [table.pageEntry_eq_of_number _ hother]
      exact absent

theorem mapNew (h : Placement table kept tables used s) (hzero : table.mapping.offset = 0)
    {s₁ : Machine A} {message' : String} (halloc : expectFrame message s = .ok (frame, s₁))
    (hsame : SameOutside frame s₁.memory m)
    (hrun : table.expectMapTo message' frame page flags { s₁ with memory := m } = .ok s') :
    ∃ tables' used', Placement table kept tables' used' s' ∧
      Adds table (fun n => n = page.number) tables used tables' used' s s' ∧
      table.pageEntry s'.memory page = PageTableEntry.setAddress frame.address flags ∧
      frame.address < 2 ^ 48 ∧ ¬ used frame ∧ HoldsData table tables' used' frame ∧
      ∀ j < 4096, s'.memory (frame.address + j) = m (frame.address + j) := by
  obtain ⟨hmemory, hlt, hnew, hframe, hstep₁⟩ := h.separate.expectFrame hzero halloc
  obtain ⟨hstep₂, hentries⟩ := hstep₁.write hzero hframe hnew hsame
  have hplaced : Placement table kept tables (fun other => used other ∨ other = frame)
      { s₁ with memory := m } :=
    h.step hstep₂.toDataStep fun _ _ _ hpage => hpage.elim
  have hnone : ∀ other flags', ¬ MapsTo table m other frame flags' := by
    intro other flags' hmaps
    have hbefore := (hstep₂.toDataStep.mapsTo id).mp hmaps
    exact h.unmapped hnew other flags' hbefore
  obtain ⟨tables', used', hafter, hadds, hentry⟩ :=
    hplaced.expectMapTo hzero hlt hframe (.inr hnone) hrun
  refine ⟨tables', used', hafter, ?_, hentry, hlt, hnew, hadds.data frame hframe,
    hadds.bytes frame hframe⟩
  have hfirst : Adds table (fun _ => False) tables used tables
      (fun other => used other ∨ other = frame) s { s₁ with memory := m } :=
    ⟨hstep₂.toDataStep, fun _ => False.elim⟩
  exact (hfirst.trans hadds).congr fun n => by rw [false_or]

/-! ## Loops -/

theorem loop (h : Placement table kept tables used s)
    {body : Nat → Machine A → Checked (Machine A)} {start last count first : Nat}
    {Q : Nat → PhysicalFrame .size4KiB → Prop} (hcount : last + 1 = start + count)
    (hbody : ∀ k < count, ∀ tables used s s', Placement table kept tables used s →
      body (start * 4096 + k * PageSize.size4KiB.size) s = .ok s' →
      ∃ tables' used' frame, Placement table kept tables' used' s' ∧
        Adds table (fun n => n = (smallPage (first + k)).number) tables used tables' used' s s' ∧
        MapsTo table s'.memory (smallPage (first + k)) frame flags ∧ Q k frame)
    (hrun : rangeLoop .size4KiB body (last * 4096)
      ((last * 4096 - start * 4096) / PageSize.size4KiB.size + 1) (start * 4096) s = .ok s') :
    ∃ tables' used', Placement table kept tables' used' s' ∧
      Adds table (InRange first count) tables used tables' used' s s' ∧
      ∀ k < count, ∃ frame, MapsTo table s'.memory (smallPage (first + k)) frame flags ∧
        Q k frame := by
  refine (rangeLoop_ok (I := fun k s' => ∃ tables' used', Placement table kept tables' used' s' ∧
    Adds table (InRange first k) tables used tables' used' s s' ∧
    ∀ j < k, ∃ frame, MapsTo table s'.memory (smallPage (first + j)) frame flags ∧ Q j frame)
    (rangeOf_small hcount) ?_ ?_ hrun).1
  · intro k s₁ s₂ hk hI hround
    obtain ⟨tables₁, used₁, hplaced, hadds, hmapped⟩ := hI
    obtain ⟨tables₂, used₂, frame, hplaced₂, hadds₂, hmaps, hQ⟩ :=
      hbody k hk tables₁ used₁ s₁ s₂ hplaced hround
    refine ⟨tables₂, used₂, hplaced₂, (hadds.trans hadds₂).congr inRange_succ, fun j hj => ?_⟩
    cases Nat.lt_or_eq_of_le (Nat.le_of_lt_succ hj) with
    | inl hlt =>
        obtain ⟨frame, hmaps, hQ⟩ := hmapped j hlt
        exact ⟨frame, hadds₂.keeps hmaps, hQ⟩
    | inr heq =>
        rw [heq]
        exact ⟨frame, hmaps, hQ⟩
  · refine ⟨tables, used, h, (Adds.refl h.separate).congr fun n => ?_, fun j hj => ?_⟩
    · exact ⟨False.elim, fun ⟨_, hk, _⟩ => absurd hk (Nat.not_lt_zero _)⟩
    · exact absurd hj (Nat.not_lt_zero j)

end Placement

/-! ## The segments -/

section Segments

variable {loader : KernelLoader PhysicalOffset} {imageSize : Nat} {header : ProgramHeader}
  {headers : List ProgramHeader}

/-- The page in which the file part ends moves to a frame of its own. -/
theorem Placement.zeroTail (h : Placement loader.pageTable kept tables used s)
    (hzero : loader.pageTable.mapping.offset = 0) {zeroStart : Nat}
    (hboundary : zeroStart % 4096 ≠ 0)
    (hmaps : MapsTo loader.pageTable s.memory (smallPage (zeroStart / 4096)) frame flags)
    (hcopied : flags.contains copied = false) (hflags' : (flags ||| copied).contains .present)
    (hrun : loader.zeroTail zeroStart s = .ok s') :
    ∃ tables' used' new, Placement loader.pageTable kept tables' used' s' ∧
      DataStep loader.pageTable (fun n => n = (smallPage (zeroStart / 4096)).number) tables used
        tables' used' s s' ∧
      MapsTo loader.pageTable s'.memory (smallPage (zeroStart / 4096)) new (flags ||| copied) ∧
      ¬ kept new := by
  have hlast : (zeroStart - 1) / 4096 = zeroStart / 4096 := by omega
  simp only [KernelLoader.zeroTail, ne_eq, hboundary, not_false_eq_true, if_true] at hrun
  obtain ⟨last, hsub, hrun⟩ := Checked.bind_eq_ok.mp hrun
  obtain ⟨⟨new, s₁⟩, hmutable, hrun⟩ := Checked.bind_eq_ok.mp hrun
  obtain rfl := Except.ok.inj hrun
  rw [(checkedSub_eq_ok.mp hsub).2, containingAddress_eq_smallPage, hlast] at hmutable
  have hhas : PageHas loader.pageTable tables used s (smallPage (zeroStart / 4096)) flags
      fun _ _ => True :=
    ⟨frame, hmaps.lt, h.data _ _ _ hmaps, hmaps.entry, fun _ _ => trivial⟩
  obtain ⟨tables₁, used₁, hstep, hnew, hlt, hframe, hentry, -⟩ :=
    makeMutable_step hzero h.separate hmaps.present hcopied hflags' hhas hmutable
  obtain ⟨hstep', hentry'⟩ := hstep.write hzero hframe hnew (sameOutside_fill s₁.memory new
    (show zeroStart % 4096 + (4096 - zeroStart % 4096) ≤ 4096 by omega) 0)
  have hmoved := (hentry' (smallPage (zeroStart / 4096))).trans hentry
  exact ⟨tables₁, used₁, new,
    h.step_page hstep'.toDataStep hmoved hlt hframe (.inr (h.unmapped hnew)),
    hstep'.toDataStep, ⟨hlt, hflags', hmoved⟩, h.not_kept hnew⟩

/-- Page number `k` of the segment has its flags. It leads to its frame of the image, and holds
bytes of the file only, or leads to a frame of its own. -/
def KernelLoader.PagePlaced (loader : KernelLoader PhysicalOffset)
    (kept : PhysicalFrame .size4KiB → Prop) (header : ProgramHeader) (m : ByteMemory) (k : Nat) :
    Prop :=
  ∃ frame flags, (flags = header.pageFlags ∨ flags = header.pageFlags ||| copied) ∧
    MapsTo loader.pageTable m (smallPage (loader.firstPage header + k)) frame flags ∧
    (¬ kept frame ∨ k < loader.filePages header ∧
      frame = smallFrame (loader.fileStart header / 4096 + k) ∧
      ∀ i < header.memSize, (loader.segmentStart header + i) / 4096 =
        loader.firstPage header + k → i < header.fileSize)

theorem KernelLoader.PagePlaced.keep {k : Nat} (h : loader.PagePlaced kept header s.memory k)
    (hadds : Adds loader.pageTable pages tables used tables' used' s s') :
    loader.PagePlaced kept header s'.memory k := by
  obtain ⟨frame, flags, hflags, hmaps, hplace⟩ := h
  exact ⟨frame, flags, hflags, hadds.keeps hmaps, hplace⟩

theorem ImageAt.mapSection_placed (h : ImageAt loader imageSize)
    (hheader : HeaderValid imageSize header)
    (hplaced : Placement loader.pageTable kept tables used s)
    (himage : ∀ frame, InImage loader imageSize frame → kept frame)
    (hrun : loader.mapSection (smallFrame (loader.fileStart header / 4096))
      (smallFrame ((loader.fileStart header + header.fileSize - 1) / 4096))
      (smallPage (loader.firstPage header)) header.pageFlags s = .ok s') :
    ∃ tables' used', Placement loader.pageTable kept tables' used' s' ∧
      Adds loader.pageTable (InRange (loader.firstPage header) (loader.filePages header))
        tables used tables' used' s s' ∧
      ∀ k < loader.filePages header, ∃ frame,
        MapsTo loader.pageTable s'.memory (smallPage (loader.firstPage header + k)) frame
          header.pageFlags ∧ frame = smallFrame (loader.fileStart header / 4096 + k) := by
  have hpos := h.fileStart_pos header
  have hcount : (loader.fileStart header + header.fileSize - 1) / 4096 + 1 =
      loader.fileStart header / 4096 + loader.filePages header := by
    unfold KernelLoader.filePages
    omega
  rw [KernelLoader.mapSection, PhysicalFrame.forRange] at hrun
  refine hplaced.loop hcount (fun k hk tables₁ used₁ s₁ s₂ hplaced₁ hround => ?_) hrun
  change loader.mapFrame _ _ header.pageFlags (.containingAddress .size4KiB
    (loader.fileStart header / 4096 * 4096 + k * PageSize.size4KiB.size)) s₁ = .ok s₂ at hround
  rw [smallFrame_round] at hround
  have hin := h.inImage hheader hk
  have hlt := Nat.lt_of_lt_of_le hin.2 h.below
  obtain ⟨tables₂, used₂, hplaced₂, hadds, hentry⟩ := hplaced₁.expectMapTo h.identity hlt
    (hplaced₁.held _ (himage _ hin)) (.inl (himage _ hin)) (mapFrame_eq_ok.mp hround).2
  exact ⟨tables₂, used₂, _, hplaced₂, hadds, ⟨hlt, pageFlags_present header, hentry⟩, rfl⟩

/-- The pages in the file, after the one in which the file part ends was completed. -/
theorem ImageAt.zeroTail_placed (h : ImageAt loader imageSize)
    (hheader : HeaderValid imageSize header) {s₁ : Machine A}
    (hplaced : Placement loader.pageTable kept tables' used' s₁)
    (hadds : Adds loader.pageTable (InRange (loader.firstPage header) (loader.filePages header))
      tables used tables' used' s s₁)
    (hfile : ∀ k < loader.filePages header, ∃ frame,
      MapsTo loader.pageTable s₁.memory (smallPage (loader.firstPage header + k)) frame
        header.pageFlags ∧ frame = smallFrame (loader.fileStart header / 4096 + k))
    (hrun : loader.zeroTail (loader.segmentStart header + header.fileSize) s₁ = .ok s') :
    ∃ tables'' used'', Placement loader.pageTable kept tables'' used'' s' ∧
      Adds loader.pageTable (InRange (loader.firstPage header) (loader.filePages header))
        tables used tables'' used'' s s' ∧
      ∀ k < loader.filePages header, loader.PagePlaced kept header s'.memory k := by
  by_cases hboundary : (loader.segmentStart header + header.fileSize) % 4096 = 0
  · have hbssFirst := h.bssFirst_eq hheader
    -- the file ends with a page, which stays as it is
    simp only [KernelLoader.zeroTail, hboundary, ne_eq, not_true_eq_false, if_false] at hrun
    obtain rfl : s₁ = s' := Except.ok.inj hrun
    refine ⟨tables', used', hplaced, hadds, fun k hk => ?_⟩
    obtain ⟨frame, hmaps, hframe⟩ := hfile k hk
    exact ⟨frame, _, .inl rfl, hmaps, .inr ⟨hk, hframe, fun i _ hpage => by omega⟩⟩
  · obtain ⟨hpos, hlast⟩ := h.tailPage_eq hheader hboundary
    obtain ⟨frame, hmaps, -⟩ := hfile (loader.filePages header - 1) (by omega)
    rw [← hlast] at hmaps
    obtain ⟨tables₂, used₂, new, hplaced₂, hstep, hmoved, hnew⟩ := hplaced.zeroTail h.identity
      hboundary hmaps (pageFlags_copied header) (pageFlags_or_copied header) hrun
    refine ⟨tables₂, used₂, hplaced₂, hadds.andThen hstep fun n hn => ?_, fun k hk => ?_⟩
    · exact ⟨_, (by omega : loader.filePages header - 1 < _), by rw [hn, hlast]⟩
    · by_cases hsame : (smallPage (loader.firstPage header + k)).number =
          (smallPage ((loader.segmentStart header + header.fileSize) / 4096)).number
      · exact ⟨new, _, .inr rfl, hmoved.of_number hsame, .inl hnew⟩
      · obtain ⟨frame, hmaps, hframe⟩ := hfile k hk
        refine ⟨frame, _, .inl rfl, (hstep.mapsTo hsame).mpr hmaps,
          .inr ⟨hk, hframe, fun i _ hpage => ?_⟩⟩
        have hne : loader.firstPage header + k ≠
            (loader.segmentStart header + header.fileSize) / 4096 := by
          intro heq
          rw [heq] at hsame
          exact hsame rfl
        omega

theorem ImageAt.mapBss_placed (h : ImageAt loader imageSize) {first last count : Nat}
    (hcount : last + 1 = first + count)
    (hplaced : Placement loader.pageTable kept tables used s)
    (hrun : loader.mapBss (smallPage first) (smallPage last) header.pageFlags s = .ok s') :
    ∃ tables' used', Placement loader.pageTable kept tables' used' s' ∧
      Adds loader.pageTable (InRange first count) tables used tables' used' s s' ∧
      ∀ k < count, ∃ frame, MapsTo loader.pageTable s'.memory (smallPage (first + k)) frame
        header.pageFlags ∧ ¬ kept frame := by
  rw [KernelLoader.mapBss, Page.forRange] at hrun
  refine hplaced.loop hcount (fun k hk tables₁ used₁ s₁ s₂ hplaced₁ hround => ?_) hrun
  change loader.mapZeroedFrame header.pageFlags (.containingAddress .size4KiB
    (first * 4096 + k * PageSize.size4KiB.size)) s₁ = .ok s₂ at hround
  rw [smallPage_round] at hround
  obtain ⟨⟨frame, s₃⟩, halloc, hmap⟩ := Checked.bind_eq_ok.mp hround
  obtain ⟨tables₂, used₂, hplaced₂, hadds, hentry, hlt, hnew, -⟩ := hplaced₁.mapNew h.identity
    halloc (sameOutside_fill s₃.memory frame (show 0 + 4096 ≤ 4096 by omega) 0) hmap
  exact ⟨tables₂, used₂, frame, hplaced₂, hadds, ⟨hlt, pageFlags_present header, hentry⟩,
    hplaced₁.not_kept hnew⟩

theorem ImageAt.allocateHeader_placed (h : ImageAt loader imageSize)
    (hheader : HeaderValid imageSize header)
    (hplaced : Placement loader.pageTable kept tables used s)
    (himage : ∀ frame, InImage loader imageSize frame → kept frame)
    (hrun : loader.allocateHeader header s = .ok s') :
    ∃ tables' used', Placement loader.pageTable kept tables' used' s' ∧
      Adds loader.pageTable (loader.Touches header) tables used tables' used' s s' ∧
      ∀ k < loader.pageCount header, loader.PagePlaced kept header s'.memory k := by
  obtain ⟨-, s₁, hsection, hrest⟩ := (h.allocateHeader_eq_ok hheader).mp hrun
  obtain ⟨tables₁, used₁, hplaced₁, hadds₁, hfile⟩ :=
    h.mapSection_placed hheader hplaced himage hsection
  unfold KernelLoader.Touches
  rw [h.pageCount_eq hheader]
  by_cases hbss : header.fileSize < header.memSize
  · simp only [hbss, if_true] at hrest ⊢
    obtain ⟨-, -, s₂, htail, hbssRun⟩ := hrest
    obtain ⟨tables₂, used₂, hplaced₂, hadds₂, hpages⟩ :=
      h.zeroTail_placed hheader hplaced₁ hadds₁ hfile htail
    have hbssFirst := h.bssFirst_eq hheader
    have hcount : (loader.segmentStart header + header.memSize - 1) / 4096 + 1 =
        (loader.segmentStart header + header.fileSize + 4095) / 4096 +
          ((loader.segmentStart header + header.memSize - 1) / 4096 + 1 -
            (loader.segmentStart header + header.fileSize + 4095) / 4096) := by omega
    obtain ⟨tables₃, used₃, hplaced₃, hadds₃, hzeroed⟩ := h.mapBss_placed hcount hplaced₂ hbssRun
    have hadds := hadds₂.trans hadds₃
    rw [hbssFirst] at hadds hzeroed ⊢
    refine ⟨tables₃, used₃, hplaced₃, hadds.congr fun _ => inRange_add, fun k hk => ?_⟩
    by_cases hlt : k < loader.filePages header
    · exact (hpages k hlt).keep hadds₃
    · obtain ⟨frame, hmaps, hnew⟩ := hzeroed (k - loader.filePages header) (by omega)
      rw [Nat.add_assoc, Nat.add_sub_cancel' (by omega)] at hmaps
      exact ⟨frame, _, .inl rfl, hmaps, .inl hnew⟩
  · simp only [hbss, if_false] at hrest ⊢
    subst hrest
    refine ⟨tables₁, used₁, hplaced₁, hadds₁, fun k hk => ?_⟩
    obtain ⟨frame, hmaps, hframe⟩ := hfile k hk
    exact ⟨frame, _, .inl rfl, hmaps, .inr ⟨hk, hframe, fun i hi _ => by omega⟩⟩

theorem ImageAt.allocate_placed (h : ImageAt loader imageSize)
    (hvalid : ∀ header ∈ headers, HeaderValid imageSize header)
    (hplaced : Placement loader.pageTable kept tables used s)
    (himage : ∀ frame, InImage loader imageSize frame → kept frame)
    (hrun : loader.allocate headers s = .ok s') :
    ∃ tables' used', Placement loader.pageTable kept tables' used' s' ∧
      Adds loader.pageTable (fun n => ∃ header ∈ headers, loader.Touches header n)
        tables used tables' used' s s' ∧
      ∀ header ∈ headers, ∀ k < loader.pageCount header,
        loader.PagePlaced kept header s'.memory k := by
  induction headers generalizing s tables used with
  | nil =>
      obtain rfl := Except.ok.inj hrun
      refine ⟨tables, used, hplaced, (Adds.refl hplaced.separate).congr fun n => by simp, ?_⟩
      exact fun header hheader => absurd hheader List.not_mem_nil
  | cons header headers ih =>
      rw [KernelLoader.allocate, List.foldlM_cons] at hrun
      obtain ⟨s₁, hround, hrest⟩ := Checked.bind_eq_ok.mp hrun
      obtain ⟨tables₁, used₁, hplaced₁, hadds₁, hpages₁⟩ :=
        h.allocateHeader_placed (hvalid header List.mem_cons_self) hplaced himage hround
      obtain ⟨tables₂, used₂, hplaced₂, hadds₂, hpages₂⟩ :=
        ih (fun other hother => hvalid other (List.mem_cons_of_mem _ hother)) hplaced₁ hrest
      refine ⟨tables₂, used₂, hplaced₂, (hadds₁.trans hadds₂).congr fun n => by simp, ?_⟩
      intro other hother k hk
      cases hother with
      | head => exact (hpages₁ k hk).keep hadds₂
      | tail _ hmem => exact hpages₂ other hmem k hk

end Segments

end MiniatureOs
