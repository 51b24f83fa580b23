import MiniatureOs.Paging.Unmap

/-! # The page size of a slot

The entry of a slot of 2 MiB links a table of small pages or, with `HUGE_PAGE`, maps a large
page. The entries therefore say which size each slot is used with, which frames hold tables
and which hold data. A slot with an unused entry may still be used with either size.
-/

namespace MiniatureOs

open PageTableFrameMapping MappedPageTable

def PageTableEntry.isHuge (entry : PageTableEntry) : Bool :=
  (PageTableEntry.flags entry).contains .hugePage

def PhysicalFrame.Contains {S : PageSize} (frame : PhysicalFrame S)
    (part : PhysicalFrame .size4KiB) : Prop :=
  frame.address ≤ part.address ∧ part.address < frame.address + S.size

section Definitions

variable {P A : Type} [PageTableFrameMapping P] [FrameAllocator A]

def FrameByte {S : PageSize} (mapping : P) (frame : PhysicalFrame S) (x : Nat) : Prop :=
  ∃ part address, frame.Contains part ∧ frameToVirtual mapping part = .ok address ∧
    address ≤ x ∧ x < address + 4096

def DisjointMapping (mapping : P) : Prop :=
  ∀ f g a b, frameToVirtual mapping f = .ok a → frameToVirtual mapping g = .ok b → f ≠ g →
    a + 4096 ≤ b ∨ b + 4096 ≤ a

namespace MappedPageTable

def slotEntry (table : MappedPageTable P) (m : ByteMemory) (x : Nat) : PageTableEntry :=
  table.dataAt m [l4Index x, l3Index x] (l2Index x)

/-- The sizes that the slots are used with: the large one where the entry says so. -/
def slotSizes (table : MappedPageTable P) (m : ByteMemory) (slot : Nat) : PageSize :=
  if PageTableEntry.isHuge (table.slotEntry m (slot * 2 ^ 21)) then .size2MiB else .size4KiB

def IsTable (table : MappedPageTable P) (m : ByteMemory) (t : Nat) : Prop :=
  ∃ path, Interior (table.slotSizes m) path ∧ table.tableAt m path = some t

def TableFrame (table : MappedPageTable P) (m : ByteMemory) (frame : PhysicalFrame .size4KiB) :
    Prop :=
  ∃ t, table.IsTable m t ∧ frameToVirtual table.mapping frame = .ok t

def TableByte (table : MappedPageTable P) (m : ByteMemory) (x : Nat) : Prop :=
  ∃ t, table.IsTable m t ∧ t ≤ x ∧ x < t + 4096

def DataByte (table : MappedPageTable P) (m : ByteMemory) (x : Nat) : Prop :=
  ∃ (S : PageSize) (page : Page S), page.Fits (table.slotSizes m) ∧
    table.pageEntry m page ≠ PageTableEntry.unused ∧
    FrameByte table.mapping
      (.containingAddress S (PageTableEntry.address (table.pageEntry m page)) : PhysicalFrame S) x

structure FreshFrame {S : PageSize} (table : MappedPageTable P) (s : Machine A)
    (frame : PhysicalFrame S) : Prop where
  apart : ∀ x, FrameByte table.mapping frame x → ¬ table.TableByte s.memory x
  unreturned : ∀ part, frame.Contains part →
    ∀ n, FrameAllocator.nthCall n s.allocator ≠ .ok (some part)

end MappedPageTable

/-- The entry of a page is unused, or maps a frame that is in use and holds no table. -/
def IsLeaf (table : MappedPageTable P) (tables used : PhysicalFrame .size4KiB → Prop)
    (S : PageSize) (entry : PageTableEntry) : Prop :=
  entry = PageTableEntry.unused ∨ ∃ (frame : PhysicalFrame S) (flags : PageTableEntryFlags),
    frame.address < 2 ^ 48 ∧
    entry = PageTableEntry.setAddress frame.address (S.leafFlags flags) ∧
    (∀ part, frame.Contains part → used part) ∧
    ∀ x, FrameByte table.mapping frame x → ¬ InTables table tables x

/-- The tables do not overlap, and no page is mapped to one of them. -/
structure Sound (sizes : Nat → PageSize) (table : MappedPageTable P)
    (tables used : PhysicalFrame .size4KiB → Prop) (s : Machine A) : Prop
    extends Separate sizes table tables used s where
  leaves : ∀ {S : PageSize} (page : Page S), page.Fits sizes →
    IsLeaf table tables used S (table.pageEntry s.memory page)

end Definitions

/-! ## The entry of a slot -/

theorem PageTableEntry.isHuge_unused : isHuge unused = false := by decide

theorem PageTableEntry.isHuge_setAddress {S : PageSize} {frame : PhysicalFrame S}
    {flags : PageTableEntryFlags} (h : frame.address < 2 ^ 48) :
    isHuge (setAddress frame.address flags) = flags.contains .hugePage := by
  rw [isHuge, flags_setAddress frame.address_mod h]

theorem or_and_right_self (a b : BitVec 64) : (a ||| b) &&& b = b := by
  apply BitVec.eq_of_getLsbD_eq
  intro i _
  rw [BitVec.getLsbD_and, BitVec.getLsbD_or]
  cases b.getLsbD i <;> simp

theorem contains_hugePage_leafFlags (flags : PageTableEntryFlags) :
    (PageSize.size2MiB.leafFlags flags).contains .hugePage = true :=
  beq_iff_eq.mpr (or_and_right_self flags.bits PageTableEntryFlags.hugePage.bits)

theorem exists_slot (i4 i3 i2 : Fin 512) :
    ∃ x, l4Index x = i4 ∧ l3Index x = i3 ∧ l2Index x = i2 := by
  have h4 := i4.isLt
  have h3 := i3.isLt
  have h2 := i2.isLt
  refine ⟨i4.val * 2 ^ 39 + i3.val * 2 ^ 30 + i2.val * 2 ^ 21, Fin.ext ?_, Fin.ext ?_, Fin.ext ?_⟩
  · simp only [l4Index]
    omega
  · simp only [l3Index]
    omega
  · simp only [l2Index]
    omega

theorem slotOf_mul (x : Nat) : slotOf (slotOf x * 2 ^ 21) = slotOf x := by
  unfold slotOf
  omega

theorem indices_of_slotOf {x y : Nat} (h : slotOf x = slotOf y) :
    l4Index x = l4Index y ∧ l3Index x = l3Index y ∧ l2Index x = l2Index y := by
  simp only [slotOf] at h
  simp only [l4Index, l3Index, l2Index, Fin.mk.injEq]
  omega

theorem interior_slot {sizes : Nat → PageSize} {x : Nat} :
    Interior sizes [l4Index x, l3Index x, l2Index x] ↔ sizes (slotOf x) = .size4KiB := by
  rw [slotOf_eq]
  exact Iff.rfl

section Slots

variable {P A : Type} [PageTableFrameMapping P] [FrameAllocator A]
  {sizes sizes' : Nat → PageSize} {table : MappedPageTable P}
  {tables used : PhysicalFrame .size4KiB → Prop} {m : ByteMemory} {s s' : Machine A} {x : Nat}

namespace MappedPageTable

theorem slotEntry_congr {y : Nat} (h : slotOf x = slotOf y) :
    table.slotEntry m x = table.slotEntry m y := by
  obtain ⟨h4, h3, h2⟩ := indices_of_slotOf h
  rw [slotEntry, slotEntry, h4, h3, h2]

theorem slotEntry_slotOf : table.slotEntry m (slotOf x * 2 ^ 21) = table.slotEntry m x :=
  slotEntry_congr (slotOf_mul x)

theorem slotSizes_of_huge (h : PageTableEntry.isHuge (table.slotEntry m x) = true) :
    table.slotSizes m (slotOf x) = .size2MiB := by
  rw [slotSizes, slotEntry_slotOf, if_pos h]

theorem slotSizes_of_not_huge (h : PageTableEntry.isHuge (table.slotEntry m x) = false) :
    table.slotSizes m (slotOf x) = .size4KiB := by
  rw [slotSizes, slotEntry_slotOf, h]
  rfl

theorem tableAt_of_unused {path : List (Fin 512)} {i : Fin 512}
    (h : table.dataAt m path i = PageTableEntry.unused) : table.tableAt m (path ++ [i]) = none := by
  rw [tableAt_concat]
  cases ht : table.tableAt m path with
  | none => rfl
  | some t =>
      have hwalk : RadixTree.walk (child table.mapping) (tableEntry m) table.pml4t path = some t :=
        ht
      rw [dataAt, RadixTree.lookup, hwalk] at h
      have hentry : tableEntry m t i = PageTableEntry.unused := h
      rw [Option.bind_some, hentry, child_unused]

theorem pageEntry_of_unused {S : PageSize} {page : Page S}
    (h : table.slotEntry m page.address = PageTableEntry.unused) :
    table.pageEntry m page = PageTableEntry.unused := by
  cases S with
  | size4KiB =>
      have hnone := tableAt_of_unused h
      exact pageEntry_eq_unused hnone
  | size2MiB => exact h

def slotPage (x : Nat) : Page .size2MiB :=
  ⟨slotOf x * 2 ^ 21, Nat.mul_mod_left _ _⟩

theorem pageEntry_slotPage : table.pageEntry m (slotPage x) = table.slotEntry m x :=
  slotEntry_slotOf

theorem slotPage_fits : (slotPage x).Fits sizes ↔ sizes (slotOf x) = .size2MiB := by
  have hslot : slotOf (slotPage x).address = slotOf x := slotOf_mul x
  rw [Page.Fits, hslot]

end MappedPageTable

theorem Fresh.tableAt_cons (h : Fresh table s) (i : Fin 512) (rest : List (Fin 512)) :
    table.tableAt s.memory (i :: rest) = none := by
  simp only [MappedPageTable.tableAt, RadixTree.walk, h.empty, child_unused]

theorem Fresh.slotEntry (h : Fresh table s) (x : Nat) :
    table.slotEntry s.memory x = PageTableEntry.unused := by
  have hnone := h.tableAt_cons (l4Index x) [l3Index x]
  rw [MappedPageTable.tableAt] at hnone
  rw [MappedPageTable.slotEntry, dataAt, RadixTree.lookup, hnone]

theorem IsLink.not_isHuge {mapping : P} {entry : PageTableEntry}
    (h : IsLink mapping tables entry) : PageTableEntry.isHuge entry = false := by
  cases h with
  | inl hunused =>
      rw [hunused]
      exact PageTableEntry.isHuge_unused
  | inr hlinked =>
      obtain ⟨frame, address, htable, rfl⟩ := hlinked
      rw [PageTableEntry.isHuge_setAddress htable.lt]
      decide

theorem WellFormed.slotEntry_isLink (h : WellFormed sizes table tables m)
    (hx : sizes (slotOf x) = .size4KiB) : IsLink table.mapping tables (table.slotEntry m x) := by
  rw [slotEntry, dataAt, RadixTree.lookup]
  cases ht : RadixTree.walk (child table.mapping) (tableEntry m) table.pml4t
      [l4Index x, l3Index x] with
  | none => exact .inl rfl
  | some t => exact h.edges [l4Index x, l3Index x] (l2Index x) t (interior_slot.mpr hx) ht

theorem IsLeaf.huge_or_unused {entry : PageTableEntry}
    (h : IsLeaf table tables used .size2MiB entry) :
    PageTableEntry.isHuge entry = true ∨ entry = PageTableEntry.unused := by
  cases h with
  | inl hunused => exact .inr hunused
  | inr hmapped =>
      obtain ⟨frame, flags, hlt, rfl, _⟩ := hmapped
      left
      rw [PageTableEntry.isHuge_setAddress hlt]
      exact contains_hugePage_leafFlags flags

/-! ## Another size for an unused slot -/

/-- A path to a table stays interior when only unused slots change their size. -/
theorem interior_of_resize {path : List (Fin 512)}
    (hsame : ∀ x, sizes' (slotOf x) = sizes (slotOf x) ∨
      table.slotEntry m x = PageTableEntry.unused)
    (hpath : Interior sizes' path) :
    Interior sizes path ∨ ∃ x, path = [l4Index x, l3Index x] ++ [l2Index x] ∧
      table.slotEntry m x = PageTableEntry.unused := by
  match path, hpath with
  | [], _ => exact .inl trivial
  | [_], _ => exact .inl trivial
  | [_, _], _ => exact .inl trivial
  | [i4, i3, i2], hpath =>
      obtain ⟨x, rfl, rfl, rfl⟩ := exists_slot i4 i3 i2
      cases hsame x with
      | inl hsize =>
          left
          rw [interior_slot] at hpath ⊢
          rw [← hsize, hpath]
      | inr hunused => exact .inr ⟨x, rfl, hunused⟩

theorem WellFormed.resize (h : WellFormed sizes table tables m)
    (hsame : ∀ x, sizes' (slotOf x) = sizes (slotOf x) ∨
      table.slotEntry m x = PageTableEntry.unused) :
    WellFormed sizes' table tables m := by
  have hreached : ∀ path t, Interior sizes' path → table.tableAt m path = some t →
      Interior sizes path := by
    intro path t hpath ht
    cases interior_of_resize hsame hpath with
    | inl hinterior => exact hinterior
    | inr hslot =>
        obtain ⟨x, rfl, hunused⟩ := hslot
        rw [tableAt_of_unused hunused] at ht
        cases ht
  constructor
  · intro p q t hp hq hpwalk hqwalk
    exact h.separated p q t (hreached p t hp hpwalk) (hreached q t hq hqwalk) hpwalk hqwalk
  · intro path i t hpath ht
    cases interior_of_resize hsame hpath with
    | inl hinterior => exact h.edges path i t hinterior ht
    | inr hslot =>
        obtain ⟨x, hsplit, hunused⟩ := hslot
        obtain ⟨rfl, hi⟩ := List.append_inj' hsplit rfl
        rw [List.head_eq_of_cons_eq hi]
        rw [slotEntry, dataAt, RadixTree.lookup, ht] at hunused
        exact .inl hunused

theorem Sound.resize (h : Sound sizes table tables used s)
    (hsame : ∀ x, sizes' (slotOf x) = sizes (slotOf x) ∨
      table.slotEntry s.memory x = PageTableEntry.unused) :
    Sound sizes' table tables used s where
  toSeparate := ⟨h.toWellFormed.resize hsame, h.tables_used, h.root_used, h.fresh⟩
  leaves := by
    intro S page hpage
    cases hsame page.address with
    | inl hsize => exact h.leaves page (hsize.symm.trans hpage)
    | inr hunused => exact .inl (pageEntry_of_unused hunused)

/-- The entries say the sizes, except for the unused slots. -/
theorem Sound.slotSizes_eq (h : Sound sizes table tables used s) (x : Nat) :
    table.slotSizes s.memory (slotOf x) = sizes (slotOf x) ∨
      table.slotEntry s.memory x = PageTableEntry.unused := by
  cases hsize : sizes (slotOf x) with
  | size4KiB => exact .inl (slotSizes_of_not_huge (h.slotEntry_isLink hsize).not_isHuge)
  | size2MiB =>
      have hleaf := h.leaves (slotPage x) (slotPage_fits.mpr hsize)
      rw [pageEntry_slotPage] at hleaf
      exact hleaf.huge_or_unused.imp_left slotSizes_of_huge

/-! ## The tables that are reached -/

theorem WellFormed.inTables_of_tableByte (h : WellFormed (table.slotSizes m) table tables m)
    (hx : table.TableByte m x) : InTables table tables x := by
  obtain ⟨t, ⟨path, hpath, ht⟩, hle, hlt⟩ := hx
  exact ⟨t, hle, hlt, (h.reached hpath ht).2⟩

theorem tableByte_of_inTables (hx : InTables table (table.TableFrame m) x) :
    table.TableByte m x := by
  obtain ⟨address, hle, hlt, htable⟩ := hx
  cases htable with
  | inl hroot => exact ⟨address, ⟨[], trivial, congrArg some hroot.symm⟩, hle, hlt⟩
  | inr hframe =>
      obtain ⟨frame, ⟨t, ht, hvirtual⟩, hsame⟩ := hframe
      rw [hvirtual] at hsame
      exact ⟨address, Except.ok.inj hsame ▸ ht, hle, hlt⟩

/-- Only the frames that the paths reach are needed. -/
theorem WellFormed.restrict (h : WellFormed (table.slotSizes m) table tables m) :
    WellFormed (table.slotSizes m) table (table.TableFrame m) m where
  separated := h.separated
  edges := by
    intro path i t hpath ht
    cases h.edges path i t hpath ht with
    | inl hunused => exact .inl hunused
    | inr hlink =>
        obtain ⟨frame, address, htable, hentry⟩ := hlink
        have hnext : table.tableAt m (path ++ [i]) = some address := by
          rw [tableAt_concat, tableAt, ht, Option.bind_some, hentry, htable.child_eq]
        exact .inr ⟨frame, address,
          { htable with isTable := ⟨address, ⟨_, hpath, hnext⟩, htable.virtual⟩ }, hentry⟩

/-- A sound state is sound for the sizes that its entries say and the tables they reach. -/
theorem Sound.bySlots (h : Sound sizes table tables used s)
    (hinj : InjectiveMapping table.mapping) :
    Sound (table.slotSizes s.memory) table (table.TableFrame s.memory) used s := by
  have hslots := h.resize h.slotSizes_eq
  refine ⟨⟨hslots.toWellFormed.restrict, ?_, h.root_used, h.fresh⟩, ?_⟩
  · intro frame hframe
    obtain ⟨t, ⟨path, hpath, ht⟩, hvirtual⟩ := hframe
    cases (hslots.reached hpath ht).2 with
    | inl hroot => exact h.root_used frame (hroot ▸ hvirtual)
    | inr hother =>
        obtain ⟨other, hother, hsame⟩ := hother
        exact hinj other frame t hsame hvirtual ▸ h.tables_used other hother
  · intro S page hpage
    cases hslots.leaves page hpage with
    | inl hunused => exact .inl hunused
    | inr hmapped =>
        obtain ⟨frame, flags, hlt, hentry, hused, hapart⟩ := hmapped
        refine .inr ⟨frame, flags, hlt, hentry, hused, fun x hx hin => hapart x hx ?_⟩
        exact hslots.inTables_of_tableByte (tableByte_of_inTables hin)

/-! ## Steps -/

variable {tables' used' : PhysicalFrame .size4KiB → Prop} {S : PageSize} {page : Page S}
  {frame : PhysicalFrame S} {flags : PageTableEntryFlags}

theorem DisjointMapping.injective {mapping : P} (h : DisjointMapping mapping) :
    InjectiveMapping mapping := by
  intro f g address hf hg
  by_contra hne
  have hapart := h f g address address hf hg hne
  omega

/-- New tables lie in fresh frames, so a frame in use stays apart from the tables. -/
theorem Extends.apart (h : Extends sizes table tables used tables' used' s s')
    (hmapping : DisjointMapping table.mapping) (hused : ∀ part, frame.Contains part → used part)
    (hapart : ∀ x, FrameByte table.mapping frame x → ¬ InTables table tables x)
    (hx : FrameByte table.mapping frame x) : ¬ InTables table tables' x := by
  intro hin
  obtain ⟨address, hle, hlt, htable⟩ := hin
  cases htable with
  | inl hroot => exact hapart x hx ⟨address, hle, hlt, .inl hroot⟩
  | inr hframe =>
      obtain ⟨other, hother, hvirtual⟩ := hframe
      cases h.tables_new other hother with
      | inl hold => exact hapart x hx ⟨address, hle, hlt, .inr ⟨other, hold, hvirtual⟩⟩
      | inr hnew =>
          obtain ⟨part, a, hpart, hshown, hle', hlt'⟩ := hx
          have hne : part ≠ other := fun heq => hnew (heq ▸ hused part hpart)
          have hdisjoint := hmapping part other a address hshown hvirtual hne
          omega

theorem IsLeaf.of_extends {entry : PageTableEntry} (hleaf : IsLeaf table tables used S entry)
    (h : Extends sizes table tables used tables' used' s s')
    (hmapping : DisjointMapping table.mapping) : IsLeaf table tables' used' S entry := by
  cases hleaf with
  | inl hunused => exact .inl hunused
  | inr hmapped =>
      obtain ⟨frame, flags, hlt, hentry, hused, hapart⟩ := hmapped
      exact .inr ⟨frame, flags, hlt, hentry,
        fun part hpart => (h.used_iff part).mpr (.inl (hused part hpart)),
        fun x hx => h.apart hmapping hused hapart hx⟩

theorem IsLeaf.frame_apart {entry : PageTableEntry} (hleaf : IsLeaf table tables used S entry)
    (hne : entry ≠ PageTableEntry.unused) :
    (∀ part, (PhysicalFrame.containingAddress S (PageTableEntry.address entry)).Contains part →
      used part) ∧
    ∀ x, FrameByte table.mapping
      (PhysicalFrame.containingAddress S (PageTableEntry.address entry)) x →
        ¬ InTables table tables x := by
  cases hleaf with
  | inl hunused => exact absurd hunused hne
  | inr hmapped =>
      obtain ⟨frame, flags, hlt, rfl, hused, hapart⟩ := hmapped
      rw [PageTableEntry.address_setAddress frame.address_mod hlt, frame.containingAddress_self]
      exact ⟨hused, hapart⟩

/-- A step that adds tables and keeps or replaces the entries of pages. -/
theorem Sound.of_extends (h : Sound sizes table tables used s)
    (hextends : Extends sizes table tables used tables' used' s s')
    (hmapping : DisjointMapping table.mapping)
    (hpages : ∀ {S : PageSize} (page : Page S), page.Fits sizes →
      table.pageEntry s'.memory page = table.pageEntry s.memory page ∨
        IsLeaf table tables' used' S (table.pageEntry s'.memory page)) :
    Sound sizes table tables' used' s' where
  toSeparate := hextends.separate
  leaves := by
    intro S page hpage
    cases hpages page hpage with
    | inl hsame =>
        rw [hsame]
        exact (h.leaves page hpage).of_extends hextends hmapping
    | inr hleaf => exact hleaf

/-- Bytes of data are not written. -/
theorem Sound.dataByte_kept (h : Sound (table.slotSizes s.memory) table tables used s)
    (hextends : Extends sizes table tables used tables' used' s s')
    (hmapping : DisjointMapping table.mapping) (hx : table.DataByte s.memory x) :
    s'.memory x = s.memory x := by
  obtain ⟨S, page, hpage, hne, hframe⟩ := hx
  obtain ⟨hused, hapart⟩ := (h.leaves page hpage).frame_apart hne
  exact hextends.outside x (hextends.apart hmapping hused hapart hframe)

theorem Page.Aliases.slotOf_eq {S' : PageSize} {other : Page S'} (h : page.Aliases other) :
    slotOf page.address = slotOf other.address := by
  have haddress := h.2
  unfold slotOf
  omega

theorem Page.Aliases.pageEntry_eq {S' : PageSize} {other : Page S'} (h : page.Aliases other) :
    table.pageEntry m page = table.pageEntry m other := by
  obtain ⟨h4, h3, h2⟩ := indices_of_slotOf h.slotOf_eq
  obtain ⟨rfl, haddress⟩ := h
  have h1 : l1Index page.address = l1Index other.address := by
    apply Fin.ext
    simp only [l1Index]
    omega
  cases S with
  | size4KiB => simp only [pageEntry, Page.tablePath, Page.leafIndex, h4, h3, h2, h1]
  | size2MiB => simp only [pageEntry, Page.tablePath, Page.leafIndex, h4, h3, h2]

theorem Sound.use {new : PhysicalFrame .size4KiB → Prop} (h : Sound sizes table tables used s)
    (hnew : ∀ frame, new frame → ∀ n, FrameAllocator.nthCall n s.allocator ≠ .ok (some frame)) :
    Sound sizes table tables (fun frame => used frame ∨ new frame) s where
  toSeparate := ⟨h.toWellFormed, fun frame hf => .inl (h.tables_used frame hf),
    fun frame hf => .inl (h.root_used frame hf), h.fresh.union hnew⟩
  leaves := by
    intro S page hpage
    cases h.leaves page hpage with
    | inl hunused => exact .inl hunused
    | inr hmapped =>
        obtain ⟨frame, flags, hlt, hentry, hused, hapart⟩ := hmapped
        exact .inr ⟨frame, flags, hlt, hentry, fun part hpart => .inl (hused part hpart), hapart⟩

theorem Sound.mapTo (h : Sound sizes table tables used s)
    (hmapping : DisjointMapping table.mapping) (hpage : page.Fits sizes)
    (hlt : frame.address < 2 ^ 48)
    (hnew : ∀ part, frame.Contains part →
      ∀ n, FrameAllocator.nthCall n s.allocator ≠ .ok (some part))
    (hapart : ∀ x, FrameByte table.mapping frame x → ¬ InTables table tables x)
    {result : Except MappingError (TlbFlusher S)}
    (hrun : table.mapTo frame page flags s = .ok (result, s')) :
    ∃ tables' used', Sound sizes table tables' used' s' := by
  -- the frame is in use from now on, so no table is put there
  have hused := h.use hnew
  obtain ⟨tables', used', hextends, houtcome⟩ :=
    hused.toSeparate.mapTo_spec hmapping.injective hpage hrun
  refine ⟨tables', used', hused.of_extends hextends hmapping fun other hother => ?_⟩
  cases houtcome with
  | failed _ _ same => exact .inl (same other hother)
  | mapped _ updates =>
      by_cases halias : other.Aliases page
      · right
        rw [halias.pageEntry_eq, updates.self]
        obtain ⟨rfl, _⟩ := halias
        exact .inr ⟨frame, flags, hlt, rfl,
          fun part hpart => (hextends.used_iff part).mpr (.inl (.inr hpart)),
          fun x hx => hextends.apart hmapping (fun part hpart => .inr hpart) hapart hx⟩
      · exact .inl (updates.others other hother halias)

theorem Sound.unmap (h : Sound sizes table tables used s)
    (hmapping : DisjointMapping table.mapping) (hpage : page.Fits sizes)
    {result : Except UnmappingError (PhysicalFrame S × TlbFlusher S)} {memory : ByteMemory}
    (hrun : table.unmap page s.memory = .ok (result, memory)) :
    Sound sizes table tables used { s with memory } := by
  cases h.toSeparate.unmap_spec hpage hrun with
  | inl hsame =>
      rw [hsame]
      exact h
  | inr hcleared =>
      refine h.of_extends hcleared.1 hmapping fun other hother => ?_
      by_cases halias : other.Aliases page
      · right
        rw [halias.pageEntry_eq, hcleared.2.self]
        exact .inl rfl
      · exact .inl (hcleared.2.others other hother halias)

theorem Sound.congr {memory : ByteMemory} (h : Sound sizes table tables used s)
    (hsame : ∀ x, InTables table tables x → memory x = s.memory x) :
    Sound sizes table tables used { s with memory } where
  toSeparate := ⟨h.toWellFormed.congr hsame, h.tables_used, h.root_used, h.fresh⟩
  leaves := by
    intro S page hpage
    have hentry : table.pageEntry memory page = table.pageEntry s.memory page :=
      h.toWellFormed.dataAt_congr hsame hpage.interior_tablePath page.leafIndex
    rw [hentry]
    exact h.leaves page hpage

theorem Sound.allocate (h : Sound sizes table tables used s)
    {result : Option (PhysicalFrame .size4KiB)} {allocator : A}
    (hcall : FrameAllocator.allocateFrame s.allocator = .ok (result, allocator)) :
    Sound sizes table tables used { s with allocator } where
  toSeparate := by
    refine ⟨h.toWellFormed, h.tables_used, h.root_used, ?_⟩
    cases result with
    | none => exact h.fresh.of_none hcall
    | some frame => exact (h.fresh.of_some hcall).2.2.mono fun _ => .inl
  leaves := h.leaves

end Slots

end MiniatureOs
