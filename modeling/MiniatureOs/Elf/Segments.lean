import MiniatureOs.Elf.Steps

/-! # The parts of a segment

What the loops of `allocate` do to the pages of one segment: the pages in the
file are mapped to the frames of the image, the page in which zeroed memory begins
moves to a copy of its frame, and the pages behind it get zeroed frames.
-/

namespace MiniatureOs

open PageTableFrameMapping MappedPageTable

def smallPage (n : Nat) : Page .size4KiB :=
  ⟨n * 4096, by simp [PageSize.size]⟩

def smallFrame (n : Nat) : PhysicalFrame .size4KiB :=
  ⟨n * 4096, by simp [PageSize.size]⟩

@[simp] theorem smallPage_number (n : Nat) : (smallPage n).number = n % 2 ^ 36 := by
  simp [smallPage, Page.number]

theorem alignDown_eq_mul (address : Nat) : alignDown address 4096 = address / 4096 * 4096 := by
  unfold alignDown
  omega

theorem containingAddress_eq_smallPage (address : Nat) :
    Page.containingAddress .size4KiB address = smallPage (address / 4096) :=
  Page.ext (alignDown_eq_mul address)

theorem containingAddress_eq_smallFrame (address : Nat) :
    PhysicalFrame.containingAddress .size4KiB address = smallFrame (address / 4096) :=
  PhysicalFrame.ext (alignDown_eq_mul address)

theorem rangeOf_small {first last count : Nat} (h : last + 1 = first + count) :
    RangeOf .size4KiB (first * 4096) (last * 4096) count := by
  simp only [RangeOf, PageSize.size]
  omega

theorem smallPage_round (first k : Nat) :
    Page.containingAddress .size4KiB (first * 4096 + k * PageSize.size4KiB.size) =
      smallPage (first + k) := by
  rw [containingAddress_eq_smallPage, PageSize.size]
  congr 1
  omega

theorem smallFrame_round (first k : Nat) :
    PhysicalFrame.containingAddress .size4KiB (first * 4096 + k * PageSize.size4KiB.size) =
      smallFrame (first + k) := by
  rw [containingAddress_eq_smallFrame, PageSize.size]
  congr 1
  omega

variable {A : Type} [FrameAllocator A] {loader : KernelLoader PhysicalOffset}
  {table : MappedPageTable PhysicalOffset}
  {tables used tables' used' : PhysicalFrame .size4KiB → Prop} {pages : Nat → Prop}
  {s s' : Machine A} {frame : PhysicalFrame .size4KiB} {page : Page .size4KiB}
  {flags : PageTableEntryFlags} {content : Nat → UInt8 → Prop}

def PageHas (table : MappedPageTable PhysicalOffset)
    (tables used : PhysicalFrame .size4KiB → Prop) (s : Machine A) (page : Page .size4KiB)
    (flags : PageTableEntryFlags) (content : Nat → UInt8 → Prop) : Prop :=
  ∃ frame, frame.address < 2 ^ 48 ∧ HoldsData table tables used frame ∧
    table.pageEntry s.memory page = PageTableEntry.setAddress frame.address flags ∧
    ∀ j < 4096, content j (s.memory (frame.address + j))

theorem DataStep.pageHas (h : DataStep table pages tables used tables' used' s s')
    (hpage : ¬ pages page.number) (hhas : PageHas table tables used s page flags content) :
    PageHas table tables' used' s' page flags content := by
  obtain ⟨frame, hlt, hdata, hentry, hcontent⟩ := hhas
  refine ⟨frame, hlt, h.data frame hdata, (h.others page hpage).trans hentry, fun j hj => ?_⟩
  rw [h.bytes frame hdata j hj]
  exact hcontent j hj

omit [FrameAllocator A] in
theorem PageHas.isPresent (h : PageHas table tables used s page flags content)
    (hflags : flags.contains .present) :
    PageTableEntry.isPresent (table.pageEntry s.memory page) = true := by
  obtain ⟨frame, hlt, -, hentry, -⟩ := h
  rw [hentry, PageTableEntry.isPresent_setAddress frame.aligned hlt]
  exact hflags

/-! ## `make_mutable` -/

theorem sameOutside_copy (m source : ByteMemory) (frame : PhysicalFrame .size4KiB) (origin : Nat) :
    SameOutside frame m (m.copy frame.address 4096 source origin) :=
  fun _ hx => ByteMemory.copy_outside hx

theorem sameOutside_fill (m : ByteMemory) (frame : PhysicalFrame .size4KiB) {offset length : Nat}
    (h : offset + length ≤ 4096) (b : UInt8) :
    SameOutside frame m (m.fill (frame.address + offset) length b) :=
  fun _ hx => ByteMemory.fill_outside (by omega)

theorem Separate.unmap_step (h : Separate smallPages table tables used s)
    (hzero : table.mapping.offset = 0)
    (hpresent : PageTableEntry.isPresent (table.pageEntry s.memory page) = true) :
    ∃ result memory, table.unmap page s.memory = .ok (.ok result, memory) ∧
      table.pageEntry memory page = PageTableEntry.unused ∧
      DataStep table (fun n => n = page.number) tables used tables used s { s with memory } := by
  have hfits : page.Fits smallPages := rfl
  obtain ⟨t, ht, hunmap⟩ := h.toWellFormed.unmap_eq hfits hpresent
  refine ⟨_, _, hunmap, (h.toWellFormed.writeEntry hfits ht _).2.self,
    .of_extends hzero (Extends.writeEntry h hfits ht _) fun other hother => ?_⟩
  exact (h.toWellFormed.writeEntry hfits ht _).2.others other rfl fun halias =>
    hother (Page.number_eq_of_aliases halias)

/-- The page moves to a new frame with the same content. -/
theorem makeMutable_step (hzero : loader.pageTable.mapping.offset = 0)
    (h : Separate smallPages loader.pageTable tables used s) (hflags : flags.contains .present)
    (hcopied : flags.contains copied = false) (hflags' : (flags ||| copied).contains .present)
    (hhas : PageHas loader.pageTable tables used s page flags content)
    (hrun : loader.makeMutable page s = .ok (frame, s')) :
    ∃ tables' used', LoadStep loader.pageTable (fun n => n = page.number) tables used tables' used'
        s s' ∧
      ¬ used frame ∧ frame.address < 2 ^ 48 ∧ HoldsData loader.pageTable tables' used' frame ∧
      loader.pageTable.pageEntry s'.memory page =
        PageTableEntry.setAddress frame.address (flags ||| copied) ∧
      ∀ j < 4096, content j (s'.memory (frame.address + j)) := by
  have hpresent := hhas.isPresent hflags
  obtain ⟨old, hold, hdata, hentry, hcontent⟩ := hhas
  have htranslate : loader.pageTable.translate page s.memory = .ok (.ok (old, flags)) := by
    rw [h.translate_eq rfl, hentry, decode_setAddress hold hflags]
  rw [KernelLoader.makeMutable, htranslate] at hrun
  simp only [Checked.ok_bind, expectOk, hcopied, Bool.false_eq_true, if_false] at hrun
  obtain ⟨⟨new, s₁⟩, halloc, hrun⟩ := Checked.bind_eq_ok.mp hrun
  obtain ⟨⟨unmapped, memory⟩, hunmap, hrun⟩ := Checked.bind_eq_ok.mp hrun
  obtain ⟨_, hok, hrun⟩ := Checked.bind_eq_ok.mp hrun
  obtain ⟨s₄, hmap, hrun⟩ := Checked.bind_eq_ok.mp hrun
  obtain ⟨rfl, rfl⟩ := Prod.mk.inj (Except.ok.inj hrun)
  obtain ⟨hmemory, hlt, hnew, hframe, hstep₁⟩ := h.expectFrame hzero halloc
  -- the copy goes to the new frame, so no table and no data frame changes
  obtain ⟨hstep₂, hentry₂⟩ := hstep₁.write hzero hframe hnew
    (sameOutside_copy s₁.memory s₁.memory new old.address)
  have hpresent₂ : PageTableEntry.isPresent (loader.pageTable.pageEntry
      (s₁.memory.copy new.address 4096 s₁.memory old.address) page) = true := by
    rw [hentry₂, hmemory]
    exact hpresent
  obtain ⟨result, memory', hunmap', -, hstep₃⟩ := hstep₂.separate.unmap_step hzero hpresent₂
  rw [hunmap'] at hunmap
  obtain ⟨-, rfl⟩ := Prod.mk.inj (Except.ok.inj hunmap)
  obtain ⟨-, hentry₄, tables₄, used₄, hstep₄⟩ :=
    hstep₃.separate.expectMapTo hzero hlt hflags' hmap
  have hcompose := (hstep₂.toDataStep.trans hstep₃).trans hstep₄.toDataStep
  refine ⟨tables₄, used₄, ⟨hcompose.congr fun n => by rw [false_or, or_self], hstep₄.present⟩,
    hnew, hlt,
    hstep₄.data new (hstep₃.data new hframe), hentry₄, fun j hj => ?_⟩
  rw [hstep₄.bytes new (hstep₃.data new hframe) j hj, hstep₃.bytes new hframe j hj]
  change content j (s₁.memory.copy new.address 4096 s₁.memory old.address (new.address + j))
  rw [ByteMemory.copy_inside hj, hmemory]
  exact hcontent j hj

/-- The rest of the page is zeroed in the copy. -/
theorem zeroTail_step (hzero : loader.pageTable.mapping.offset = 0) {zeroStart : Nat}
    (hzeroStart : zeroStart % 4096 ≠ 0)
    (h : Separate smallPages loader.pageTable tables used s) (hflags : flags.contains .present)
    (hcopied : flags.contains copied = false) (hflags' : (flags ||| copied).contains .present)
    (hhas : PageHas loader.pageTable tables used s (smallPage (zeroStart / 4096)) flags content)
    (hrun : loader.zeroTail zeroStart s = .ok s') :
    ∃ tables' used', LoadStep loader.pageTable (fun n => n = (smallPage (zeroStart / 4096)).number)
        tables used tables' used' s s' ∧
      PageHas loader.pageTable tables' used' s' (smallPage (zeroStart / 4096)) (flags ||| copied)
        (fun j b => if j < zeroStart % 4096 then content j b else b = 0) := by
  have hlast : (zeroStart - 1) / 4096 = zeroStart / 4096 := by omega
  simp only [KernelLoader.zeroTail, ne_eq, hzeroStart, not_false_eq_true, if_true] at hrun
  obtain ⟨last, hsub, hrun⟩ := Checked.bind_eq_ok.mp hrun
  obtain ⟨⟨new, s₁⟩, hmutable, hrun⟩ := Checked.bind_eq_ok.mp hrun
  obtain rfl := Except.ok.inj hrun
  have hlastEq : last = zeroStart - 1 := by
    rw [checkedSub, if_pos (by omega)] at hsub
    exact (Except.ok.inj hsub).symm
  rw [containingAddress_eq_smallPage, hlastEq, hlast] at hmutable
  obtain ⟨tables₁, used₁, hstep, hnew, hlt, hframe, hentry, hcontent⟩ :=
    makeMutable_step hzero h hflags hcopied hflags' hhas hmutable
  obtain ⟨hstep', hentry'⟩ := hstep.write hzero hframe hnew (sameOutside_fill s₁.memory new
    (show zeroStart % 4096 + (4096 - zeroStart % 4096) ≤ 4096 by omega) 0)
  refine ⟨tables₁, used₁, hstep', new, hlt, hframe, (hentry' _).trans hentry, fun j hj => ?_⟩
  by_cases hj' : j < zeroStart % 4096
  · have hout : ¬ (new.address + zeroStart % 4096 ≤ new.address + j ∧
        new.address + j < new.address + zeroStart % 4096 + (4096 - zeroStart % 4096)) := by omega
    simp only [hj', if_true, ByteMemory.fill_outside hout]
    exact hcontent j hj
  · simp only [hj', if_false]
    exact ByteMemory.fill_inside (by omega) (by omega)

/-! ## The loops -/

def InRange (first count n : Nat) : Prop :=
  ∃ k < count, n = (smallPage (first + k)).number

theorem inRange_succ {first k : Nat} (n : Nat) :
    InRange first k n ∨ n = (smallPage (first + k)).number ↔ InRange first (k + 1) n := by
  constructor
  · rintro (⟨j, hj, rfl⟩ | rfl)
    · exact ⟨j, by omega, rfl⟩
    · exact ⟨k, by omega, rfl⟩
  · rintro ⟨j, hj, rfl⟩
    by_cases hjk : j < k
    · exact .inl ⟨j, hjk, rfl⟩
    · obtain rfl : j = k := by omega
      exact .inr rfl

/-- After `k` rounds of a loop that maps pages one after the other. -/
structure Mapped (table : MappedPageTable PhysicalOffset)
    (tables used tables' used' : PhysicalFrame .size4KiB → Prop) (first : Nat)
    (flags : PageTableEntryFlags) (content : Nat → Nat → UInt8 → Prop) (k : Nat)
    (s s' : Machine A) : Prop where
  step : LoadStep table (InRange first k) tables used tables' used' s s'
  absent : ∀ j < k, PageTableEntry.isPresent
    (table.pageEntry s.memory (smallPage (first + j))) = false
  has : ∀ j < k, PageHas table tables' used' s' (smallPage (first + j)) flags (content j)
  distinct : ∀ i j, i < j → j < k →
    (smallPage (first + i)).number ≠ (smallPage (first + j)).number

theorem Mapped.zero {first : Nat} {content : Nat → Nat → UInt8 → Prop}
    (h : Separate smallPages table tables used s) :
    Mapped table tables used tables used first flags content 0 s s where
  step := (LoadStep.refl h).congr fun _ => ⟨False.elim, fun ⟨_, hk, _⟩ => absurd hk (by omega)⟩
  absent := fun _ hj => absurd hj (by omega)
  has := fun _ hj => absurd hj (by omega)
  distinct := fun _ _ _ hj => absurd hj (by omega)

theorem Mapped.keeps {first k : Nat} {loopContent : Nat → Nat → UInt8 → Prop}
    {loopFlags : PageTableEntryFlags}
    (h : Mapped table tables used tables' used' first loopFlags loopContent k s s')
    (hflags : flags.contains .present) (hhas : PageHas table tables used s page flags content) :
    PageHas table tables' used' s' page flags content := by
  refine h.step.pageHas ?_ hhas
  rintro ⟨j, hj, hnumber⟩
  have hpresent := hhas.isPresent hflags
  rw [table.pageEntry_eq_of_number _ hnumber, h.absent j hj] at hpresent
  cases hpresent

theorem Mapped.number_ne {first k : Nat} {content : Nat → Nat → UInt8 → Prop}
    (h : Mapped table tables used tables' used' first flags content k s s')
    (hflags : flags.contains .present)
    (habsent : PageTableEntry.isPresent (table.pageEntry s'.memory page) = false) (j : Nat)
    (hj : j < k) : (smallPage (first + j)).number ≠ page.number := by
  intro hsame
  have hpresent := (h.has j hj).isPresent hflags
  rw [table.pageEntry_eq_of_number _ hsame, habsent] at hpresent
  cases hpresent

theorem Mapped.succ {first k : Nat} {content : Nat → Nat → UInt8 → Prop}
    {tables'' used'' : PhysicalFrame .size4KiB → Prop} {s'' : Machine A}
    (h : Mapped table tables used tables' used' first flags content k s s')
    (hflags : flags.contains .present)
    (hstep : LoadStep table (fun n => n = (smallPage (first + k)).number) tables' used' tables''
      used'' s' s'')
    (habsent : PageTableEntry.isPresent (table.pageEntry s'.memory (smallPage (first + k))) = false)
    (hhas : PageHas table tables'' used'' s'' (smallPage (first + k)) flags (content k)) :
    Mapped table tables used tables'' used'' first flags content (k + 1) s s'' where
  step := (h.step.trans hstep).congr inRange_succ
  absent := by
    intro j hj
    by_cases hjk : j < k
    · exact h.absent j hjk
    · obtain rfl : j = k := by omega
      by_contra hpresent
      have hmono := h.step.present_mono (Bool.not_eq_false _ ▸ hpresent)
      rw [habsent] at hmono
      cases hmono
  has := by
    intro j hj
    by_cases hjk : j < k
    · exact hstep.pageHas (h.number_ne hflags habsent j hjk) (h.has j hjk)
    · obtain rfl : j = k := by omega
      exact hhas
  distinct := by
    intro i j hij hj
    by_cases hjk : j < k
    · exact h.distinct i j hij hjk
    · obtain rfl : j = k := by omega
      exact h.number_ne hflags habsent i hij

theorem smallFrame_distance (first k : Nat) :
    (smallFrame (first + k)).distance (smallFrame first) = .ok k := by
  have hsub : (first + k) * 4096 - first * 4096 = k * 4096 := by omega
  rw [PhysicalFrame.distance, smallFrame, smallFrame, Checked.sub_of_le (by simp only; omega)]
  simp only [Checked.ok_bind, hsub, PageSize.size, Checked.pure_eq_ok, Except.ok.injEq]
  omega

theorem smallPage_add_eq_ok {first k : Nat} {result : Page .size4KiB} :
    (smallPage first).add k = .ok result ↔
      (first + k) * 4096 < 2 ^ 64 ∧ result = smallPage (first + k) := by
  have hsum : first * 4096 + k * 4096 = (first + k) * 4096 := by omega
  have hpage : Page.containingAddress .size4KiB ((first + k) * 4096) = smallPage (first + k) := by
    rw [containingAddress_eq_smallPage, Nat.mul_div_cancel _ (by decide)]
  constructor
  · intro h
    obtain ⟨distance, hmul, h⟩ := Checked.bind_eq_ok.mp h
    obtain ⟨address, hadd, h⟩ := Checked.bind_eq_ok.mp h
    obtain ⟨-, rfl⟩ := Checked.mul_eq_ok.mp hmul
    obtain ⟨hlt, rfl⟩ := Checked.add_eq_ok.mp hadd
    change first * 4096 + k * 4096 < 2 ^ 64 at hlt
    have hresult : Page.containingAddress .size4KiB (first * 4096 + k * 4096) = result :=
      Except.ok.inj h
    rw [hsum] at hlt hresult
    exact ⟨hlt, hresult ▸ hpage⟩
  · rintro ⟨hlt, rfl⟩
    have hmul : Checked.mul 64 k 4096 = .ok (k * 4096) :=
      Checked.mul_of_lt (Nat.lt_of_le_of_lt (by omega) hlt)
    have hadd : Checked.add 64 (first * 4096) (k * 4096) = .ok ((first + k) * 4096) := by
      rw [← hsum]
      exact Checked.add_of_lt (lt_of_eq_of_lt hsum hlt)
    change (Checked.mul 64 k 4096 >>= fun distance =>
      Checked.add 64 (first * 4096) distance >>= fun address =>
        pure (Page.containingAddress .size4KiB address)) = _
    rw [hmul, Checked.ok_bind, hadd, Checked.ok_bind, hpage]
    rfl

theorem mapFrame_eq_ok {firstFrame firstPage k : Nat} :
    loader.mapFrame (smallFrame firstFrame) (smallPage firstPage) flags
        (smallFrame (firstFrame + k)) s = .ok s' ↔
      (firstPage + k) * 4096 < 2 ^ 64 ∧ loader.pageTable.expectMapTo "Failed to map section"
        (smallFrame (firstFrame + k)) (smallPage (firstPage + k)) flags s = .ok s' := by
  rw [KernelLoader.mapFrame, smallFrame_distance, Checked.ok_bind, Checked.bind_eq_ok]
  constructor
  · rintro ⟨page, hpage, hmap⟩
    obtain ⟨hfits, rfl⟩ := smallPage_add_eq_ok.mp hpage
    exact ⟨hfits, hmap⟩
  · rintro ⟨hfits, hmap⟩
    exact ⟨_, smallPage_add_eq_ok.mpr ⟨hfits, rfl⟩, hmap⟩

def fileContent (m : ByteMemory) (firstFrame k j : Nat) (b : UInt8) : Prop :=
  b = m ((firstFrame + k) * 4096 + j)

theorem Mapped.mapFrame (hzero : table.mapping.offset = 0) {firstFrame firstPage k : Nat}
    {s₁ s₂ : Machine A} {message : String} (hflags : flags.contains .present)
    (h : Mapped table tables used tables' used' firstPage flags
      (fileContent s.memory firstFrame) k s s₁)
    (hlt : (smallFrame (firstFrame + k)).address < 2 ^ 48)
    (hdata : HoldsData table tables used (smallFrame (firstFrame + k)))
    (hmap : table.expectMapTo message (smallFrame (firstFrame + k)) (smallPage (firstPage + k))
      flags s₁ = .ok s₂) :
    ∃ tables'' used'', Mapped table tables used tables'' used'' firstPage flags
      (fileContent s.memory firstFrame) (k + 1) s s₂ := by
  obtain ⟨habsent, hentry, tables₂, used₂, hstep⟩ :=
    h.step.separate.expectMapTo hzero hlt hflags hmap
  have hdata₁ := h.step.data _ hdata
  refine ⟨tables₂, used₂, h.succ hflags hstep habsent
    ⟨_, hlt, hstep.data _ hdata₁, hentry, fun j hj => ?_⟩⟩
  rw [hstep.bytes _ hdata₁ j hj, h.step.bytes _ hdata j hj]
  rfl

theorem mapSection_step (hzero : loader.pageTable.mapping.offset = 0)
    {firstFrame firstPage lastFrame count : Nat} (hcount : lastFrame + 1 = firstFrame + count)
    (h : Separate smallPages loader.pageTable tables used s) (hflags : flags.contains .present)
    (hframes : ∀ k < count, (smallFrame (firstFrame + k)).address < 2 ^ 48 ∧
      HoldsData loader.pageTable tables used (smallFrame (firstFrame + k)))
    (hrun : loader.mapSection (smallFrame firstFrame) (smallFrame lastFrame) (smallPage firstPage)
      flags s = .ok s') :
    ∃ tables' used', Mapped loader.pageTable tables used tables' used' firstPage flags
      (fileContent s.memory firstFrame) count s s' := by
  rw [KernelLoader.mapSection, PhysicalFrame.forRange] at hrun
  refine (rangeLoop_ok (I := fun k s' => ∃ tables' used', Mapped loader.pageTable tables used
    tables' used' firstPage flags (fileContent s.memory firstFrame) k s s')
    (rangeOf_small hcount) ?_ ⟨tables, used, .zero h⟩ hrun).1
  rintro k s₁ s₂ hk ⟨tables₁, used₁, hmapped⟩ hbody
  change loader.mapFrame _ _ flags (.containingAddress .size4KiB
    (firstFrame * 4096 + k * PageSize.size4KiB.size)) s₁ = .ok s₂ at hbody
  rw [smallFrame_round] at hbody
  obtain ⟨-, hmap⟩ := mapFrame_eq_ok.mp hbody
  exact hmapped.mapFrame hzero hflags (hframes k hk).1 (hframes k hk).2 hmap

theorem Mapped.mapZeroedFrame (hzero : loader.pageTable.mapping.offset = 0) {first k : Nat}
    {s₁ s₂ : Machine A} (hflags : flags.contains .present)
    (h : Mapped loader.pageTable tables used tables' used' first flags (fun _ _ b => b = 0) k s s₁)
    (hrun : loader.mapZeroedFrame flags (smallPage (first + k)) s₁ = .ok s₂) :
    ∃ tables'' used'', Mapped loader.pageTable tables used tables'' used'' first flags
      (fun _ _ b => b = 0) (k + 1) s s₂ := by
  obtain ⟨⟨frame, s₃⟩, halloc, hmap⟩ := Checked.bind_eq_ok.mp hrun
  obtain ⟨-, hlt, hnew, hframe, hstep₃⟩ := h.step.separate.expectFrame hzero halloc
  obtain ⟨hstep₄, hentry₄⟩ := hstep₃.write hzero hframe hnew
    (sameOutside_fill s₃.memory frame (show 0 + 4096 ≤ 4096 by omega) 0)
  obtain ⟨habsent, hentry, tables₂, used₂, hstep₂⟩ :=
    hstep₄.separate.expectMapTo hzero hlt hflags hmap
  have habsent₁ : PageTableEntry.isPresent
      (loader.pageTable.pageEntry s₁.memory (smallPage (first + k))) = false := by
    rw [← hstep₄.others _ id]
    exact habsent
  refine ⟨tables₂, used₂, h.succ hflags ((hstep₄.trans hstep₂).congr fun n => by rw [false_or])
    habsent₁ ⟨frame, hlt, hstep₂.data frame hframe, hentry, fun j hj => ?_⟩⟩
  rw [hstep₂.bytes frame hframe j hj]
  exact ByteMemory.fill_inside (by omega) (by omega)

theorem mapBss_step (hzero : loader.pageTable.mapping.offset = 0) {first last count : Nat}
    (hcount : last + 1 = first + count)
    (h : Separate smallPages loader.pageTable tables used s) (hflags : flags.contains .present)
    (hrun : loader.mapBss (smallPage first) (smallPage last) flags s = .ok s') :
    (∃ tables' used', Mapped loader.pageTable tables used tables' used' first flags
      (fun _ _ b => b = 0) count s s') ∧ (0 < count → (first + count) * 4096 < 2 ^ 64) := by
  rw [KernelLoader.mapBss, Page.forRange] at hrun
  have hloop := rangeLoop_ok (I := fun k s' => ∃ tables' used', Mapped loader.pageTable tables used
    tables' used' first flags (fun _ _ b => b = 0) k s s')
    (rangeOf_small hcount) ?_ ⟨tables, used, .zero h⟩ hrun
  · refine ⟨hloop.1, fun hpos => ?_⟩
    rw [Nat.add_mul]
    exact hloop.2 hpos
  · rintro k s₁ s₂ hk ⟨tables₁, used₁, hmapped⟩ hbody
    change loader.mapZeroedFrame flags (.containingAddress .size4KiB
      (first * 4096 + k * PageSize.size4KiB.size)) s₁ = .ok s₂ at hbody
    rw [smallPage_round] at hbody
    exact hmapped.mapZeroedFrame hzero hflags hbody

end MiniatureOs
