import MiniatureOs.Lib.Transitions
import MiniatureOs.Paging.Slots

/-! # Pages of the wrong size

No function of the page table looks at `HUGE_PAGE`. The functions for small pages take the
entry of a large page for a link, and the data in its frame for a table; those for large
pages take a link for the entry of a page. So a call for a page of the wrong size is
rejected only where the data happens to look like a table that makes it fail, or, for a
large page that is to be mapped, because a link is present. In runs whose calls all meet
that condition, tables and data stay apart.
-/

namespace MiniatureOs

open PageTableFrameMapping MappedPageTable

inductive MapperCall where
  | mapTo {S : PageSize} (frame : PhysicalFrame S) (page : Page S) (flags : PageTableEntryFlags)
  | unmap {S : PageSize} (page : Page S)
  | translate {S : PageSize} (page : Page S)

section Definitions

variable {P A : Type} [PageTableFrameMapping P] [FrameAllocator A]

/-- The slot of the page is used with the other size: a small page in a slot with the entry
of a large page, present or not, or a large page where a table is linked. -/
def Page.Conflicts (table : MappedPageTable P) (m : ByteMemory) :
    {S : PageSize} → Page S → Prop
  | .size4KiB, page => PageTableEntry.isHuge (table.slotEntry m page.address) = true
  | .size2MiB, page => table.slotEntry m page.address ≠ PageTableEntry.unused ∧
      PageTableEntry.isHuge (table.slotEntry m page.address) = false

/-- The word of data that is taken for the entry of a small page in a large one. -/
def Page.mistakenEntry (table : MappedPageTable P) (m : ByteMemory) (page : Page .size4KiB) :
    Option PageTableEntry :=
  (frameToVirtual table.mapping
      (PageTableEntry.physicalFrame (table.slotEntry m page.address))).toOption.map
    fun address => tableEntry m address page.leafIndex

namespace MapperCall

def run (table : MappedPageTable P) (s : Machine A) : MapperCall → Checked (Machine A)
  | mapTo frame page flags => do
      let (_, s) ← table.mapTo frame page flags s
      return s
  | unmap page => do
      let (_, memory) ← table.unmap page s.memory
      return { s with memory }
  | translate page => do
      let _ ← table.translate page s.memory
      return s

def Conflicts (table : MappedPageTable P) (m : ByteMemory) : MapperCall → Prop
  | mapTo _ page _ => page.Conflicts table m
  | unmap page => page.Conflicts table m
  | translate page => page.Conflicts table m

def Rejected (table : MappedPageTable P) (s : Machine A) : MapperCall → Prop
  | mapTo frame page flags => ∃ error s',
      table.mapTo frame page flags s = .ok (.error error, s') ∧ s'.memory = s.memory
  | unmap page => ∃ error, table.unmap page s.memory = .ok (.error error, s.memory)
  | translate page => ∃ error, table.translate page s.memory = .ok (.error error)

/-- What `translate` reports was read in a table, and is not the frame of one. -/
def ReportsPages (table : MappedPageTable P) (m : ByteMemory) : MapperCall → Prop
  | translate page => ∀ frame flags, table.translate page m = .ok (.ok (frame, flags)) →
      (∀ t, table.tableAt m page.tablePath = some t →
        ¬ table.DataByte m (entryAddress t page.leafIndex)) ∧
      ∀ x, FrameByte table.mapping frame x → ¬ table.TableByte m x
  | _ => True

/-- A call for a page of the wrong size is rejected, no byte of a mapped frame is written,
and neither the frame of a table nor data is reported as a mapping. -/
structure Respects (table : MappedPageTable P) (s : Machine A) (call : MapperCall) : Prop where
  rejected : call.Conflicts table s.memory → call.Rejected table s
  keepsData : ∀ s', call.run table s = .ok s' → ∀ x, table.DataByte s.memory x →
    s'.memory x = s.memory x
  reportsPages : call.ReportsPages table s.memory

/-- When a call for a page of the wrong size is rejected. `map_to` rejects a small page where
the entry of the large page has the flags of a link and the word of data looks present;
`unmap` and `translate` reject it where the word does not. A large page is always rejected by
`map_to`, and never by the other two. -/
def RejectCondition (table : MappedPageTable P) (m : ByteMemory) : MapperCall → Prop
  | @mapTo .size4KiB _ page _ =>
      (PageTableEntry.flags (table.slotEntry m page.address)).contains parentFlags = true ∧
        ∃ word, page.mistakenEntry table m = some word ∧ PageTableEntry.isPresent word = true
  | @mapTo .size2MiB _ _ _ => True
  | @unmap .size4KiB page =>
      ∃ word, page.mistakenEntry table m = some word ∧ PageTableEntry.isPresent word = false
  | @translate .size4KiB page =>
      ∃ word, page.mistakenEntry table m = some word ∧ PageTableEntry.isPresent word = false
  | @unmap .size2MiB _ => False
  | @translate .size2MiB _ => False

/-- A call for a page of the wrong size is made only where it is rejected. -/
def Condition (table : MappedPageTable P) (m : ByteMemory) (call : MapperCall) : Prop :=
  call.Conflicts table m → call.RejectCondition table m

def Legal (table : MappedPageTable P) (s : Machine A) : MapperCall → Prop
  | mapTo frame _ _ => table.FreshFrame s frame ∧ frame.address < 2 ^ 48
  | _ => True

end MapperCall

/-- What happens to the machine: a call, a frame taken from the allocator, or a byte that the
program writes. -/
inductive PagingEvent where
  | call (call : MapperCall)
  | allocateFrame
  | store (x : Nat) (byte : UInt8)

namespace PagingEvent

def step (table : MappedPageTable P) (s : Machine A) : PagingEvent → Option (Machine A)
  | call c => (c.run table s).toOption
  | allocateFrame => (FrameAllocator.allocateFrame s.allocator).toOption.map fun result =>
      { s with allocator := result.2 }
  | store x byte => some { s with memory := s.memory.store x [byte] }

def Allowed (table : MappedPageTable P) (s : Machine A) : PagingEvent → Prop
  | call c => c.Legal table s ∧ c.Condition table s.memory
  | allocateFrame => True
  | store x _ => ¬ table.TableByte s.memory x

end PagingEvent

end Definitions

section Conflicts

variable {P A : Type} [PageTableFrameMapping P] [FrameAllocator A]
  {sizes : Nat → PageSize} {table : MappedPageTable P}
  {tables used : PhysicalFrame .size4KiB → Prop} {m : ByteMemory} {s s' : Machine A} {x : Nat}

/-! ## The walk to the entry of a slot -/

theorem getPagetables_concat {mapping : P} {path : List (Fin 512)} {i : Fin 512} {t next : Nat}
    (hpath : getPagetables mapping m t path = .ok (some next)) :
    getPagetables mapping m t (path ++ [i]) = getPagetable mapping (tableEntry m next i) := by
  induction path generalizing t with
  | nil =>
      obtain rfl : t = next := Option.some.inj (Except.ok.inj hpath)
      simp only [List.nil_append, getPagetables]
      cases getPagetable mapping (tableEntry m t i) with
      | error panic => rfl
      | ok result => cases result <;> rfl
  | cons j path ih =>
      simp only [List.cons_append, getPagetables] at hpath ⊢
      cases hfirst : getPagetable mapping (tableEntry m t j) with
      | error panic =>
          rw [hfirst] at hpath
          cases hpath
      | ok result =>
          rw [hfirst] at hpath
          cases result with
          | none => cases Except.ok.inj hpath
          | some first => exact ih hpath

theorem getOrAllocatePagetables_concat {mapping : P} {path : List (Fin 512)} {i : Fin 512}
    {t next : Nat}
    (hpath : getOrAllocatePagetables mapping parentFlags t path s = .ok (some next, s')) :
    getOrAllocatePagetables mapping parentFlags t (path ++ [i]) s =
      getOrAllocatePagetable mapping (entryAddress next i) parentFlags s' := by
  induction path generalizing t s with
  | nil =>
      obtain ⟨hnext, rfl⟩ := Prod.mk.inj (Except.ok.inj hpath)
      obtain rfl : t = next := Option.some.inj hnext
      simp only [List.nil_append, getOrAllocatePagetables]
      cases getOrAllocatePagetable mapping (entryAddress t i) parentFlags s with
      | error panic => rfl
      | ok result =>
          obtain ⟨result, s₁⟩ := result
          cases result <;> rfl
  | cons j path ih =>
      simp only [List.cons_append, getOrAllocatePagetables] at hpath ⊢
      cases hfirst : getOrAllocatePagetable mapping (entryAddress t j) parentFlags s with
      | error panic =>
          rw [hfirst] at hpath
          cases hpath
      | ok result =>
          obtain ⟨result, s₁⟩ := result
          rw [hfirst] at hpath
          cases result with
          | none => cases (Prod.mk.inj (Except.ok.inj hpath)).1
          | some first => exact ih hpath

theorem exists_slotTable (h : table.slotEntry m x ≠ PageTableEntry.unused) :
    ∃ t, table.tableAt m [l4Index x, l3Index x] = some t ∧
      tableEntry m t (l2Index x) = table.slotEntry m x := by
  unfold MappedPageTable.tableAt
  rw [slotEntry, dataAt, RadixTree.lookup] at h ⊢
  cases ht : RadixTree.walk (child table.mapping) (tableEntry m) table.pml4t
      [l4Index x, l3Index x] with
  | none =>
      rw [ht] at h
      exact absurd rfl h
  | some t => exact ⟨t, rfl, rfl⟩

theorem ne_unused_of_isHuge {entry : PageTableEntry} (h : PageTableEntry.isHuge entry = true) :
    entry ≠ PageTableEntry.unused := by
  intro hunused
  rw [hunused, PageTableEntry.isHuge_unused] at h
  cases h

/-! ## A small page in a large one -/

section Small

variable {page : Page .size4KiB}

/-- The frame of the large page is taken for the last table. -/
theorem WellFormed.getPagetables_huge (h : WellFormed sizes table tables m)
    (hhuge : PageTableEntry.isHuge (table.slotEntry m x) = true) :
    getPagetables table.mapping m table.pml4t [l4Index x, l3Index x, l2Index x] = do
      let address ← frameToVirtual table.mapping
        (PageTableEntry.physicalFrame (table.slotEntry m x))
      return some address := by
  have hne := ne_unused_of_isHuge hhuge
  obtain ⟨t, ht, hentry⟩ := exists_slotTable hne
  have hinterior : Interior sizes ([] ++ [l4Index x, l3Index x]) := trivial
  have hwalk := h.getPagetables_eq hinterior rfl
  rw [List.nil_append, ht] at hwalk
  have hlast := getPagetables_concat (i := l2Index x) hwalk
  have hused : PageTableEntry.isUnused (table.slotEntry m x) = false := beq_eq_false_iff_ne.mpr hne
  rw [hentry, getPagetable, hused] at hlast
  exact hlast

theorem WellFormed.translate_huge (h : WellFormed sizes table tables m)
    (hhuge : PageTableEntry.isHuge (table.slotEntry m page.address) = true) :
    table.translate page m = do
      let address ← frameToVirtual table.mapping
        (PageTableEntry.physicalFrame (table.slotEntry m page.address))
      return decode .size4KiB (tableEntry m address page.leafIndex) := by
  have hwalk : getPagetables table.mapping m table.pml4t page.tablePath = _ :=
    h.getPagetables_huge hhuge
  rw [MappedPageTable.translate, hwalk]
  cases frameToVirtual table.mapping
      (PageTableEntry.physicalFrame (table.slotEntry m page.address)) with
  | error panic => rfl
  | ok address =>
      simp only [Checked.ok_bind, Checked.pure_eq_ok, decode]
      split <;> rfl

theorem WellFormed.translate_rejected_iff (h : WellFormed sizes table tables m)
    (hhuge : PageTableEntry.isHuge (table.slotEntry m page.address) = true) :
    (∃ error, table.translate page m = .ok (.error error)) ↔
      ∃ word, page.mistakenEntry table m = some word ∧ PageTableEntry.isPresent word = false := by
  rw [h.translate_huge hhuge, Page.mistakenEntry]
  cases frameToVirtual table.mapping
      (PageTableEntry.physicalFrame (table.slotEntry m page.address)) with
  | error panic => simp [Except.toOption]
  | ok address =>
      simp only [Checked.ok_bind, Checked.pure_eq_ok, Except.toOption, Option.map_some,
        Option.some.injEq, Except.ok.injEq]
      cases hpresent : PageTableEntry.isPresent (tableEntry m address page.leafIndex) with
      | true => simp [decode_of_present hpresent, hpresent]
      | false => exact ⟨fun _ => ⟨_, rfl, hpresent⟩, fun _ => ⟨_, decode_of_absent hpresent⟩⟩

theorem WellFormed.unmap_rejected_iff (h : WellFormed sizes table tables m)
    (hhuge : PageTableEntry.isHuge (table.slotEntry m page.address) = true) :
    (∃ error, table.unmap page m = .ok (.error error, m)) ↔
      ∃ word, page.mistakenEntry table m = some word ∧ PageTableEntry.isPresent word = false := by
  have hwalk : getPagetables table.mapping m table.pml4t page.tablePath = _ :=
    h.getPagetables_huge hhuge
  rw [MappedPageTable.unmap, hwalk, Page.mistakenEntry]
  cases frameToVirtual table.mapping
      (PageTableEntry.physicalFrame (table.slotEntry m page.address)) with
  | error panic => simp [Except.toOption]
  | ok address =>
      simp only [Checked.ok_bind, Checked.pure_eq_ok, Except.toOption, Option.map_some,
        Option.some.injEq, Checked.unwrap, PageTableEntry.contains_present_flags]
      cases hpresent : PageTableEntry.isPresent (tableEntry m address page.leafIndex) with
      | true => simp [hpresent]
      | false => exact ⟨fun _ => ⟨_, rfl, hpresent⟩, fun _ => ⟨_, rfl⟩⟩

theorem WellFormed.getOrAllocatePagetables_huge (h : WellFormed sizes table tables s.memory)
    (hhuge : PageTableEntry.isHuge (table.slotEntry s.memory x) = true) :
    ∃ t, getOrAllocatePagetables table.mapping parentFlags table.pml4t
        [l4Index x, l3Index x, l2Index x] s =
          getOrAllocatePagetable table.mapping (entryAddress t (l2Index x)) parentFlags s ∧
      s.memory.readWord (entryAddress t (l2Index x)) = table.slotEntry s.memory x := by
  obtain ⟨t, ht, hentry⟩ := exists_slotTable (ne_unused_of_isHuge hhuge)
  have hinterior : Interior sizes ([] ++ [l4Index x, l3Index x]) := trivial
  have hlast := getOrAllocatePagetables_concat (i := l2Index x)
    (h.getOrAllocatePagetables_eq hinterior rfl ht)
  exact ⟨t, hlast, hentry⟩

/-- Where the entry of the large page has the flags of a link, the page is mapped in the data
unless the word there looks present. -/
theorem WellFormed.mapTo_huge {frame : PhysicalFrame .size4KiB} {flags : PageTableEntryFlags}
    (h : WellFormed sizes table tables s.memory)
    (hhuge : PageTableEntry.isHuge (table.slotEntry s.memory page.address) = true)
    (hflags : (PageTableEntry.flags
      (table.slotEntry s.memory page.address)).contains parentFlags = true) :
    table.mapTo frame page flags s = do
      let address ← frameToVirtual table.mapping
        (PageTableEntry.physicalFrame (table.slotEntry s.memory page.address))
      if PageTableEntry.isPresent (tableEntry s.memory address page.leafIndex) then
        return (.error .pageAlreadyMapped, s)
      else
        return (.ok ⟨page⟩, { s with
          memory := s.memory.writeWord (entryAddress address page.leafIndex)
            (PageTableEntry.setAddress frame.address flags) }) := by
  obtain ⟨t, hlast, hword⟩ := h.getOrAllocatePagetables_huge hhuge
  have hwalk : getOrAllocatePagetables table.mapping parentFlags table.pml4t page.tablePath s = _ :=
    hlast
  have hused : PageTableEntry.isUnused (table.slotEntry s.memory page.address) = false :=
    beq_eq_false_iff_ne.mpr (ne_unused_of_isHuge hhuge)
  rw [MappedPageTable.mapTo, hwalk, getOrAllocatePagetable]
  simp only [hword, hused, hflags, Bool.not_true, Bool.and_false, Bool.false_eq_true, if_false]
  cases frameToVirtual table.mapping
      (PageTableEntry.physicalFrame (table.slotEntry s.memory page.address)) with
  | error panic => rfl
  | ok address => rfl

theorem contains_of_addFlags_eq {entry : PageTableEntry} {flags : PageTableEntryFlags}
    (h : PageTableEntry.addFlags entry flags = entry) :
    (PageTableEntry.flags entry).contains flags = true := by
  have hand := or_and_right_self entry flags.bits
  rw [PageTableEntry.addFlags] at h
  rw [h] at hand
  refine beq_iff_eq.mpr ?_
  change (entry &&& allFlags) &&& flags.bits = flags.bits
  rw [BitVec.and_assoc, BitVec.and_comm allFlags, flags.known, hand]

/-- Where it does not, the flags are added to it. -/
theorem WellFormed.flags_of_mapTo_rejected {frame : PhysicalFrame .size4KiB}
    {flags : PageTableEntryFlags} {error : MappingError}
    (h : WellFormed sizes table tables s.memory)
    (hhuge : PageTableEntry.isHuge (table.slotEntry s.memory page.address) = true)
    (hrun : table.mapTo frame page flags s = .ok (.error error, s'))
    (hsame : s'.memory = s.memory) :
    (PageTableEntry.flags (table.slotEntry s.memory page.address)).contains parentFlags = true := by
  by_contra hflags
  obtain ⟨t, hlast, hword⟩ := h.getOrAllocatePagetables_huge hhuge
  have hwalk : getOrAllocatePagetables table.mapping parentFlags table.pml4t page.tablePath s = _ :=
    hlast
  have hused : PageTableEntry.isUnused (table.slotEntry s.memory page.address) = false :=
    beq_eq_false_iff_ne.mpr (ne_unused_of_isHuge hhuge)
  rw [Bool.not_eq_true] at hflags
  rw [MappedPageTable.mapTo, hwalk, getOrAllocatePagetable] at hrun
  simp only [hword, hused, hflags, show parentFlags.isEmpty = false from by decide, Bool.not_false,
    Bool.and_self, Bool.false_eq_true, if_false, if_true] at hrun
  obtain ⟨last, hlast, hrun⟩ := Checked.bind_eq_ok.mp hrun
  obtain ⟨address, _, hlast⟩ := Checked.bind_eq_ok.mp hlast
  obtain rfl := Except.ok.inj hlast
  change (if _ then _ else _) = _ at hrun
  split at hrun
  · obtain ⟨_, rfl⟩ := Prod.mk.inj (Except.ok.inj hrun)
    have hentry := ByteMemory.readWord_writeWord s.memory (entryAddress t (l2Index page.address))
      (PageTableEntry.addFlags (table.slotEntry s.memory page.address) parentFlags)
    have hmemory : s.memory.writeWord (entryAddress t (l2Index page.address))
        (PageTableEntry.addFlags (table.slotEntry s.memory page.address) parentFlags) = s.memory :=
      hsame
    rw [hmemory, hword] at hentry
    rw [contains_of_addFlags_eq hentry.symm] at hflags
    cases hflags
  · cases (Prod.mk.inj (Except.ok.inj hrun)).1

theorem mistakenEntry_eq_some {word : PageTableEntry} :
    page.mistakenEntry table m = some word ↔ ∃ address, frameToVirtual table.mapping
      (PageTableEntry.physicalFrame (table.slotEntry m page.address)) = .ok address ∧
        tableEntry m address page.leafIndex = word := by
  rw [Page.mistakenEntry]
  cases frameToVirtual table.mapping
      (PageTableEntry.physicalFrame (table.slotEntry m page.address)) with
  | error panic => simp [Except.toOption]
  | ok address => simp [Except.toOption]

theorem WellFormed.mapTo_of_mistaken {frame : PhysicalFrame .size4KiB}
    {flags : PageTableEntryFlags} {word : PageTableEntry}
    (h : WellFormed sizes table tables s.memory)
    (hhuge : PageTableEntry.isHuge (table.slotEntry s.memory page.address) = true)
    (hflags : (PageTableEntry.flags
      (table.slotEntry s.memory page.address)).contains parentFlags = true)
    (hword : page.mistakenEntry table s.memory = some word)
    (hpresent : PageTableEntry.isPresent word = true) :
    table.mapTo frame page flags s = .ok (.error .pageAlreadyMapped, s) := by
  obtain ⟨address, hvirtual, rfl⟩ := mistakenEntry_eq_some.mp hword
  rw [h.mapTo_huge hhuge hflags, hvirtual, Checked.ok_bind, if_pos hpresent]
  rfl

theorem WellFormed.mapTo_rejected_iff {frame : PhysicalFrame .size4KiB}
    {flags : PageTableEntryFlags} (h : WellFormed sizes table tables s.memory)
    (hhuge : PageTableEntry.isHuge (table.slotEntry s.memory page.address) = true) :
    (∃ error s', table.mapTo frame page flags s = .ok (.error error, s') ∧
        s'.memory = s.memory) ↔
      (PageTableEntry.flags (table.slotEntry s.memory page.address)).contains parentFlags = true ∧
        ∃ word, page.mistakenEntry table s.memory = some word ∧
          PageTableEntry.isPresent word = true := by
  constructor
  · intro hrejected
    obtain ⟨error, s', hrun, hsame⟩ := hrejected
    have hflags := h.flags_of_mapTo_rejected hhuge hrun hsame
    rw [h.mapTo_huge hhuge hflags] at hrun
    obtain ⟨address, hvirtual, hrun⟩ := Checked.bind_eq_ok.mp hrun
    refine ⟨hflags, _, mistakenEntry_eq_some.mpr ⟨address, hvirtual, rfl⟩, ?_⟩
    by_contra hpresent
    rw [if_neg hpresent] at hrun
    cases (Prod.mk.inj (Except.ok.inj hrun)).1
  · intro hcondition
    obtain ⟨hflags, word, hword, hpresent⟩ := hcondition
    exact ⟨_, s, h.mapTo_of_mistaken hhuge hflags hword hpresent, rfl⟩

end Small

/-! ## A large page where a table is linked -/

section Large

variable {page : Page .size2MiB}

/-- The tables above large pages alone. -/
theorem WellFormed.large (h : WellFormed sizes table tables m) :
    WellFormed (fun _ => .size2MiB) table tables m := by
  have hshort : ∀ path, Interior (fun _ => .size2MiB) path → Interior sizes path := by
    intro path hpath
    match path, hpath with
    | [], _ => trivial
    | [_], _ => trivial
    | [_, _], _ => trivial
    | [_, _, _], hpath => exact absurd hpath (by simp [Interior])
    | _ :: _ :: _ :: _ :: _, hpath => exact absurd hpath (by simp [Interior])
  constructor
  · intro p q t hp hq
    exact h.separated p q t (hshort p hp) (hshort q hq)
  · intro path i t hpath
    exact h.edges path i t (hshort _ hpath)

theorem WellFormed.present_of_conflict (h : WellFormed (table.slotSizes m) table tables m)
    (hconflict : page.Conflicts table m) :
    PageTableEntry.isPresent (table.pageEntry m page) = true := by
  cases h.slotEntry_isLink (slotSizes_of_not_huge hconflict.2) with
  | inl hunused => exact absurd hunused hconflict.1
  | inr hlink =>
      obtain ⟨frame, address, htable, hlinked⟩ := hlink
      have hentry : table.pageEntry m page =
          PageTableEntry.setAddress frame.address parentFlags := hlinked
      rw [hentry, PageTableEntry.isPresent_setAddress frame.aligned htable.lt]
      decide

end Large

/-! ## All calls -/

/-- A call for a page of the wrong size is rejected exactly under its condition. -/
theorem Sound.rejected_iff (h : Sound (table.slotSizes s.memory) table tables used s)
    {call : MapperCall} (hconflict : call.Conflicts table s.memory) :
    call.Rejected table s ↔ call.RejectCondition table s.memory := by
  cases call with
  | @mapTo S frame page flags =>
      cases S with
      | size4KiB => exact h.toWellFormed.mapTo_rejected_iff hconflict
      | size2MiB =>
          have hpresent := h.toWellFormed.present_of_conflict hconflict
          exact ⟨fun _ => trivial,
            fun _ => ⟨_, s, h.toWellFormed.large.mapTo_of_present rfl hpresent, rfl⟩⟩
  | @unmap S page =>
      cases S with
      | size4KiB => exact h.toWellFormed.unmap_rejected_iff hconflict
      | size2MiB =>
          refine ⟨fun hrejected => ?_, False.elim⟩
          obtain ⟨error, hrejected⟩ := hrejected
          have hpresent := h.toWellFormed.present_of_conflict hconflict
          obtain ⟨t, _, hunmap⟩ := h.toWellFormed.large.unmap_eq rfl hpresent
          rw [hunmap] at hrejected
          cases hrejected
  | @translate S page =>
      cases S with
      | size4KiB => exact h.toWellFormed.translate_rejected_iff hconflict
      | size2MiB =>
          refine ⟨fun hrejected => ?_, False.elim⟩
          obtain ⟨error, hrejected⟩ := hrejected
          have hpresent := h.toWellFormed.present_of_conflict hconflict
          rw [h.toWellFormed.large.translate_eq rfl, decode_of_present hpresent] at hrejected
          cases hrejected

/-! ## Calls for pages of the right size -/

section Fits

variable {S : PageSize} {page : Page S}

/-- The page fits the slots as they are, or when an unused slot is used with its size. -/
theorem Sound.fits_of_not_conflicts (h : Sound (table.slotSizes s.memory) table tables used s)
    (hfits : ¬ page.Conflicts table s.memory) :
    ∃ sizes, Sound sizes table tables used s ∧ page.Fits sizes := by
  cases S with
  | size4KiB => exact ⟨_, h, slotSizes_of_not_huge (Bool.not_eq_true _ ▸ hfits)⟩
  | size2MiB =>
      cases hhuge : PageTableEntry.isHuge (table.slotEntry s.memory page.address) with
      | true => exact ⟨_, h, slotSizes_of_huge hhuge⟩
      | false =>
          have hunused : table.slotEntry s.memory page.address = PageTableEntry.unused := by
            by_contra hne
            exact hfits ⟨hne, hhuge⟩
          let sizes := Function.update (table.slotSizes s.memory) (slotOf page.address) .size2MiB
          refine ⟨sizes, h.resize fun x => ?_, Function.update_self _ _ _⟩
          by_cases hslot : slotOf x = slotOf page.address
          · exact .inr ((slotEntry_congr hslot).trans hunused)
          · exact .inl (Function.update_of_ne hslot _ _)

theorem Sound.not_dataByte_entry (h : Sound (table.slotSizes s.memory) table tables used s)
    (hwell : WellFormed sizes table tables s.memory) (hpage : page.Fits sizes) {t : Nat}
    (ht : table.tableAt s.memory page.tablePath = some t) :
    ¬ table.DataByte s.memory (entryAddress t page.leafIndex) := by
  intro hdata
  obtain ⟨S', other, hother, hne, hframe⟩ := hdata
  have hin : InTables table tables (entryAddress t page.leafIndex) :=
    inTables_entry page.leafIndex.isLt (hwell.reached hpage.interior_tablePath ht).2
      ⟨Nat.le_refl _, Nat.lt_add_of_pos_right (by decide)⟩
  exact ((h.leaves other hother).frame_apart hne).2 _ hframe hin

theorem Sound.reportsPages_translate (h : Sound (table.slotSizes s.memory) table tables used s)
    (hfits : ¬ page.Conflicts table s.memory) :
    (MapperCall.translate page).ReportsPages table s.memory := by
  intro frame flags htranslate
  obtain ⟨sizes, hsound, hpage⟩ := h.fits_of_not_conflicts hfits
  have hpresent := hsound.present_of_translate hpage htranslate
  rw [hsound.toWellFormed.translate_eq hpage, decode_of_present hpresent] at htranslate
  obtain ⟨rfl, _⟩ := Prod.mk.inj (Except.ok.inj (Except.ok.inj htranslate))
  have hne : table.pageEntry s.memory page ≠ PageTableEntry.unused := by
    intro hunused
    rw [hunused] at hpresent
    cases hpresent
  refine ⟨fun t ht => h.not_dataByte_entry hsound.toWellFormed hpage ht, fun x hx htable => ?_⟩
  exact ((hsound.leaves page hpage).frame_apart hne).2 x hx
    (h.toWellFormed.inTables_of_tableByte htable)

end Fits

namespace MapperCall

variable {S : PageSize} {page : Page S}

theorem of_run_mapTo {frame : PhysicalFrame S} {flags : PageTableEntryFlags}
    (h : (mapTo frame page flags).run table s = .ok s') :
    ∃ result, table.mapTo frame page flags s = .ok (result, s') := by
  obtain ⟨⟨result, s₁⟩, hcall, hreturn⟩ := Checked.bind_eq_ok.mp h
  obtain rfl := Except.ok.inj hreturn
  exact ⟨result, hcall⟩

theorem of_run_unmap (h : (unmap page).run table s = .ok s') :
    ∃ result memory, table.unmap page s.memory = .ok (result, memory) ∧
      s' = { s with memory } := by
  obtain ⟨⟨result, memory⟩, hcall, hreturn⟩ := Checked.bind_eq_ok.mp h
  exact ⟨result, memory, hcall, (Except.ok.inj hreturn).symm⟩

theorem of_run_translate (h : (translate page).run table s = .ok s') : s' = s := by
  obtain ⟨result, _, hreturn⟩ := Checked.bind_eq_ok.mp h
  exact (Except.ok.inj hreturn).symm

end MapperCall

/-- A call for a page of the right size writes no data. -/
theorem Sound.keepsData (h : Sound (table.slotSizes s.memory) table tables used s)
    (hmapping : DisjointMapping table.mapping) {call : MapperCall}
    (hfits : ¬ call.Conflicts table s.memory) (hrun : call.run table s = .ok s')
    (hx : table.DataByte s.memory x) : s'.memory x = s.memory x := by
  cases call with
  | mapTo frame page flags =>
      obtain ⟨sizes, hsound, hpage⟩ := h.fits_of_not_conflicts hfits
      obtain ⟨result, hcall⟩ := MapperCall.of_run_mapTo hrun
      obtain ⟨tables', used', hextends, _⟩ :=
        hsound.toSeparate.mapTo_spec hmapping.injective hpage hcall
      exact h.dataByte_kept hextends hmapping hx
  | unmap page =>
      obtain ⟨sizes, hsound, hpage⟩ := h.fits_of_not_conflicts hfits
      obtain ⟨result, memory, hcall, rfl⟩ := MapperCall.of_run_unmap hrun
      cases hsound.toSeparate.unmap_spec hpage hcall with
      | inl hsame => exact congrFun hsame x
      | inr hcleared => exact h.dataByte_kept hcleared.1 hmapping hx
  | translate page => rw [MapperCall.of_run_translate hrun]

/-- A rejected call leaves the memory as it is. -/
theorem MapperCall.Rejected.memory_eq {call : MapperCall} (h : call.Rejected table s)
    (hrun : call.run table s = .ok s') : s'.memory = s.memory := by
  cases call with
  | mapTo frame page flags =>
      obtain ⟨error, s₁, hcall, hsame⟩ := h
      obtain ⟨result, hcall'⟩ := of_run_mapTo hrun
      rw [hcall] at hcall'
      rw [← (Prod.mk.inj (Except.ok.inj hcall')).2, hsame]
  | unmap page =>
      obtain ⟨error, hcall⟩ := h
      obtain ⟨result, memory, hcall', rfl⟩ := of_run_unmap hrun
      rw [hcall] at hcall'
      exact (Prod.mk.inj (Except.ok.inj hcall')).2.symm
  | translate page => rw [of_run_translate hrun]

theorem MapperCall.Rejected.reportsPages {call : MapperCall} (h : call.Rejected table s) :
    call.ReportsPages table s.memory := by
  cases call with
  | mapTo frame page flags => trivial
  | unmap page => trivial
  | translate page =>
      intro frame flags htranslate
      obtain ⟨error, hcall⟩ := h
      rw [hcall] at htranslate
      cases htranslate

theorem Sound.reportsPages (h : Sound (table.slotSizes s.memory) table tables used s)
    {call : MapperCall} (hfits : ¬ call.Conflicts table s.memory) :
    call.ReportsPages table s.memory := by
  cases call with
  | mapTo frame page flags => trivial
  | unmap page => trivial
  | translate page => exact h.reportsPages_translate hfits

theorem Sound.respects_iff (h : Sound (table.slotSizes s.memory) table tables used s)
    (hmapping : DisjointMapping table.mapping) (call : MapperCall) :
    call.Respects table s ↔ call.Condition table s.memory := by
  constructor
  · intro hrespects hconflict
    exact (h.rejected_iff hconflict).mp (hrespects.rejected hconflict)
  · intro hcondition
    by_cases hconflict : call.Conflicts table s.memory
    · have hrejected := (h.rejected_iff hconflict).mpr (hcondition hconflict)
      exact ⟨fun _ => hrejected, fun s' hrun x _ => congrFun (hrejected.memory_eq hrun) x,
        hrejected.reportsPages⟩
    · exact ⟨fun hc => absurd hc hconflict,
        fun s' hrun x hx => h.keepsData hmapping hconflict hrun hx, h.reportsPages hconflict⟩

/-! ## Runs -/

/-- A call for a page of the wrong size that meets its condition changes nothing at all. -/
theorem Sound.run_eq_self (h : Sound (table.slotSizes s.memory) table tables used s)
    {call : MapperCall} (hconflict : call.Conflicts table s.memory)
    (hcondition : call.RejectCondition table s.memory) (hrun : call.run table s = .ok s') :
    s' = s := by
  cases call with
  | @mapTo S frame page flags =>
      cases S with
      | size4KiB =>
          obtain ⟨hflags, word, hword, hpresent⟩ := hcondition
          have hmapTo : table.mapTo frame page flags s = .ok (.error .pageAlreadyMapped, s) :=
            h.toWellFormed.mapTo_of_mistaken hconflict hflags hword hpresent
          rw [MapperCall.run, hmapTo] at hrun
          exact (Except.ok.inj hrun).symm
      | size2MiB =>
          have hpresent := h.toWellFormed.present_of_conflict hconflict
          have hmapTo : table.mapTo frame page flags s = .ok (.error .pageAlreadyMapped, s) :=
            h.toWellFormed.large.mapTo_of_present rfl hpresent
          rw [MapperCall.run, hmapTo] at hrun
          exact (Except.ok.inj hrun).symm
  | unmap page =>
      obtain ⟨error, hunmap⟩ := (h.rejected_iff hconflict).mpr hcondition
      rw [MapperCall.run, hunmap] at hrun
      exact (Except.ok.inj hrun).symm
  | translate page => exact MapperCall.of_run_translate hrun

/-- A call that meets its condition keeps tables and data apart. -/
theorem Sound.of_call (h : Sound sizes table tables used s)
    (hmapping : DisjointMapping table.mapping) {call : MapperCall}
    (hlegal : call.Legal table s) (hcondition : call.Condition table s.memory)
    (hrun : call.run table s = .ok s') :
    ∃ sizes tables used, Sound sizes table tables used s' := by
  have hslots := h.bySlots hmapping.injective
  by_cases hconflict : call.Conflicts table s.memory
  · rw [hslots.run_eq_self hconflict (hcondition hconflict) hrun]
    exact ⟨_, _, _, h⟩
  · cases call with
    | mapTo frame page flags =>
        obtain ⟨sizes', hsound, hpage⟩ := hslots.fits_of_not_conflicts hconflict
        obtain ⟨result, hcall⟩ := MapperCall.of_run_mapTo hrun
        obtain ⟨hfresh, hlt⟩ := hlegal
        have hapart : ∀ x, FrameByte table.mapping frame x →
            ¬ InTables table (table.TableFrame s.memory) x :=
          fun x hx hin => hfresh.apart x hx (tableByte_of_inTables hin)
        obtain ⟨tables', used', hafter⟩ :=
          hsound.mapTo hmapping hpage hlt hfresh.unreturned hapart hcall
        exact ⟨sizes', tables', used', hafter⟩
    | unmap page =>
        obtain ⟨sizes', hsound, hpage⟩ := hslots.fits_of_not_conflicts hconflict
        obtain ⟨result, memory, hcall, rfl⟩ := MapperCall.of_run_unmap hrun
        exact ⟨sizes', _, _, hsound.unmap hmapping hpage hcall⟩
    | translate page =>
        rw [MapperCall.of_run_translate hrun]
        exact ⟨_, _, _, h⟩

theorem Sound.of_step (h : Sound sizes table tables used s)
    (hmapping : DisjointMapping table.mapping) {event : PagingEvent}
    (hallowed : event.Allowed table s) (hstep : event.step table s = some s') :
    ∃ sizes tables used, Sound sizes table tables used s' := by
  cases event with
  | call c =>
      have hrun : c.run table s = .ok s' := by
        change (c.run table s).toOption = some s' at hstep
        cases hresult : c.run table s with
        | error panic =>
            rw [hresult] at hstep
            cases hstep
        | ok s₁ =>
            rw [hresult] at hstep
            exact congrArg Except.ok (Option.some.inj hstep)
      exact h.of_call hmapping hallowed.1 hallowed.2 hrun
  | allocateFrame =>
      obtain ⟨⟨result, allocator⟩, hcall, rfl⟩ := Checked.exists_of_toOption hstep
      exact ⟨_, _, _, h.allocate hcall⟩
  | store x byte =>
      obtain rfl := Option.some.inj hstep
      have hslots := h.bySlots hmapping.injective
      refine ⟨_, _, _, hslots.congr fun y hy => ByteMemory.store_outside fun hin => hallowed ?_⟩
      obtain rfl : y = x := by
        simp only [List.length_singleton] at hin
        omega
      exact tableByte_of_inTables hy

theorem Fresh.sound (h : Fresh table s) :
    Sound (fun _ => .size4KiB) table (fun _ => False)
      (fun frame => frameToVirtual table.mapping frame = .ok table.pml4t) s where
  toSeparate := h.separate
  leaves := by
    intro S page _
    left
    cases S with
    | size4KiB =>
        have hnone := h.tableAt_cons (l4Index page.address)
          [l3Index page.address, l2Index page.address]
        exact pageEntry_eq_unused hnone
    | size2MiB =>
        have hnone := h.tableAt_cons (l4Index page.address) [l3Index page.address]
        exact pageEntry_eq_unused hnone

theorem exists_sound_of_reaches {start : Machine A} (hmapping : DisjointMapping table.mapping)
    (hstart : Fresh table start)
    (hreach : Transitions.Reaches (PagingEvent.step table) (PagingEvent.Allowed table) start s) :
    ∃ sizes tables used, Sound sizes table tables used s := by
  refine hreach.invariant (P := fun s => ∃ sizes tables used, Sound sizes table tables used s)
    ⟨_, _, _, hstart.sound⟩ fun t event u ht hallowed hstep => ?_
  obtain ⟨sizes, tables, used, h⟩ := ht
  exact h.of_step hmapping hallowed hstep

/-- In every state of a run whose calls meet their conditions, exactly the calls that meet
theirs reject pages of the wrong size and keep tables and data apart. -/
theorem respects_iff_of_reaches (table : MappedPageTable P) (start s : Machine A)
    (call : MapperCall) (hmapping : DisjointMapping table.mapping) (hstart : Fresh table start)
    (hreach : Transitions.Reaches (PagingEvent.step table) (PagingEvent.Allowed table) start s) :
    call.Respects table s ↔ call.Condition table s.memory := by
  obtain ⟨sizes, tables, used, h⟩ := exists_sound_of_reaches hmapping hstart hreach
  exact (h.bySlots hmapping.injective).respects_iff hmapping call

end Conflicts

/-! ## A large page and a small one -/

theorem PhysicalOffset.disjointMapping (mapping : PhysicalOffset) : DisjointMapping mapping := by
  intro f g a b hf hg hne
  have ha := (Checked.add_eq_ok.mp hf).2
  have hb := (Checked.add_eq_ok.mp hg).2
  have hmod := f.address_mod
  have hmod' := g.address_mod
  have haddress : f.address ≠ g.address := fun heq => hne (PhysicalFrame.ext heq)
  omega

theorem Fresh.eq_root_of_isTable {P A : Type} [PageTableFrameMapping P] [FrameAllocator A]
    {table : MappedPageTable P} {s : Machine A} (h : Fresh table s) {t : Nat}
    (ht : table.IsTable s.memory t) : t = table.pml4t := by
  obtain ⟨path, _, ht⟩ := ht
  cases path with
  | nil => exact (Option.some.inj ht).symm
  | cons i rest =>
      rw [h.tableAt_cons] at ht
      cases ht

/-- Frames from 2 MiB on are neither the root nor returned by the allocator. -/
theorem freshFrame_lowMachine {S : PageSize} {frame : PhysicalFrame S}
    (h : 0x200000 ≤ frame.address) : lowTable.FreshFrame lowMachine frame where
  apart := by
    intro x hx htable
    obtain ⟨part, address, hpart, hvirtual, hle, _⟩ := hx
    obtain ⟨t, ht, _, hlt⟩ := htable
    have haddress : address = 0 + part.address := (Checked.add_eq_ok.mp hvirtual).2
    have hroot : t = 0x1000 := fresh_lowMachine.eq_root_of_isTable ht
    have hlow := hpart.1
    omega
  unreturned := by
    intro part hpart n hcall
    have hframe := lowMachine_frame
      (List.mem_of_getElem? (BumpFrameAllocator.getElem?_of_nthCall hcall))
    have hlow := hpart.1
    omega

theorem Fresh.not_conflicts {P A : Type} [PageTableFrameMapping P] [FrameAllocator A]
    {table : MappedPageTable P} {s : Machine A} (h : Fresh table s) {S : PageSize} (page : Page S) :
    ¬ page.Conflicts table s.memory := by
  have hunused := h.slotEntry page.address
  intro hconflict
  cases S with
  | size4KiB => exact ne_unused_of_isHuge hconflict hunused
  | size2MiB => exact hconflict.1 hunused

theorem exists_reaches_mapTo {S : PageSize} {frame : PhysicalFrame S} {page : Page S}
    {flags : PageTableEntryFlags} {β : Type}
    {f : Machine (BumpFrameAllocator PhysicalMemoryRegion) → β} {b : β}
    (hframe : 0x200000 ≤ frame.address ∧ frame.address < 2 ^ 48)
    (hcall : ((MapperCall.mapTo frame page flags).run lowTable lowMachine).toOption.map f =
      some b) :
    ∃ s, Transitions.Reaches (PagingEvent.step lowTable) (PagingEvent.Allowed lowTable)
      lowMachine s ∧ f s = b := by
  obtain ⟨s, hrun, hs⟩ := Checked.exists_of_toOption hcall
  have hallowed : (PagingEvent.call (.mapTo frame page flags)).Allowed lowTable lowMachine :=
    ⟨⟨freshFrame_lowMachine hframe.1, hframe.2⟩,
      fun hconflict => absurd hconflict (fresh_lowMachine.not_conflicts page)⟩
  have hstep : (PagingEvent.call (.mapTo frame page flags)).step lowTable lowMachine = some s := by
    rw [PagingEvent.step, hrun]
    rfl
  exact ⟨s, .tail .refl hallowed hstep, hs⟩

theorem exists_reaches_large :
    ∃ s, Transitions.Reaches (PagingEvent.step lowTable) (PagingEvent.Allowed lowTable)
        lowMachine s ∧
      PageTableEntry.isPresent (lowTable.slotEntry s.memory 0x1000) = true ∧
      PageTableEntry.isHuge (lowTable.slotEntry s.memory 0x1000) = true ∧
      (Page.containingAddress .size4KiB 0x1000).mistakenEntry lowTable s.memory = some 0 := by
  have hcall : ((MapperCall.mapTo (.containingAddress .size2MiB 0x200000)
      (.containingAddress .size2MiB 0) parentFlags).run lowTable lowMachine).toOption.map
        (fun s => (PageTableEntry.isPresent (lowTable.slotEntry s.memory 0x1000),
          PageTableEntry.isHuge (lowTable.slotEntry s.memory 0x1000),
          (Page.containingAddress .size4KiB 0x1000).mistakenEntry lowTable s.memory)) =
      some (true, true, some 0) := by
    decide +kernel
  obtain ⟨s, hreach, hs⟩ := exists_reaches_mapTo (by decide) hcall
  simp only [Prod.mk.injEq] at hs
  exact ⟨s, hreach, hs⟩

/-- A small page in the large one is not translated, as the data looks like an empty table. -/
theorem respects_translate_in_large_page :
    ∃ s, Transitions.Reaches (PagingEvent.step lowTable) (PagingEvent.Allowed lowTable)
        lowMachine s ∧
      (MapperCall.translate (.containingAddress .size4KiB 0x1000)).Conflicts lowTable s.memory ∧
      (MapperCall.translate (.containingAddress .size4KiB 0x1000)).Respects lowTable s := by
  obtain ⟨s, hreach, _, hhuge, hword⟩ := exists_reaches_large
  exact ⟨s, hreach, hhuge, (respects_iff_of_reaches lowTable lowMachine s _
    (PhysicalOffset.disjointMapping _) fresh_lowMachine hreach).mpr
      fun _ => ⟨0, hword, by decide⟩⟩

/-- The same small page can be mapped, into the data; and where a table is linked a large page
is translated. -/
theorem not_rejected_wrong_size :
    (∃ s, Transitions.Reaches (PagingEvent.step lowTable) (PagingEvent.Allowed lowTable)
        lowMachine s ∧
      PageTableEntry.isPresent (lowTable.slotEntry s.memory 0x1000) = true ∧
      (MapperCall.mapTo (.containingAddress .size4KiB 0x400000)
        (.containingAddress .size4KiB 0x1000) .present).Conflicts lowTable s.memory ∧
      ¬ (MapperCall.mapTo (.containingAddress .size4KiB 0x400000)
        (.containingAddress .size4KiB 0x1000) .present).Rejected lowTable s) ∧
    ∃ s, Transitions.Reaches (PagingEvent.step lowTable) (PagingEvent.Allowed lowTable)
        lowMachine s ∧
      (MapperCall.translate (.containingAddress .size2MiB 0)).Conflicts lowTable s.memory ∧
      ¬ (MapperCall.translate (.containingAddress .size2MiB 0)).Rejected lowTable s := by
  have hmapping := PhysicalOffset.disjointMapping lowTable.mapping
  constructor
  · obtain ⟨s, hreach, hpresent, hhuge, hword⟩ := exists_reaches_large
    have hconflict : (MapperCall.mapTo (.containingAddress .size4KiB 0x400000)
        (.containingAddress .size4KiB 0x1000) .present).Conflicts lowTable s.memory := hhuge
    refine ⟨s, hreach, hpresent, hconflict, fun hrejected => ?_⟩
    obtain ⟨sizes, tables, used, h⟩ := exists_sound_of_reaches hmapping fresh_lowMachine hreach
    obtain ⟨_, word, hsame, hlooks⟩ :=
      ((h.bySlots hmapping.injective).rejected_iff hconflict).mp hrejected
    have hzero : word = 0 := Option.some.inj (hsame.symm.trans hword)
    rw [hzero] at hlooks
    exact absurd hlooks (by decide)
  · have hcall : ((MapperCall.mapTo (.containingAddress .size4KiB 0x200000)
        (.containingAddress .size4KiB 0x1000) .present).run lowTable lowMachine).toOption.map
          (fun s => (PageTableEntry.isUnused (lowTable.slotEntry s.memory 0),
            PageTableEntry.isHuge (lowTable.slotEntry s.memory 0))) = some (false, false) := by
      decide +kernel
    obtain ⟨s, hreach, hs⟩ := exists_reaches_mapTo (by decide) hcall
    obtain ⟨hused, hhuge⟩ := Prod.mk.inj hs
    have hconflict : (MapperCall.translate (.containingAddress .size2MiB 0)).Conflicts lowTable
        s.memory := ⟨beq_eq_false_iff_ne.mp hused, hhuge⟩
    refine ⟨s, hreach, hconflict, fun hrejected => ?_⟩
    obtain ⟨sizes, tables, used, h⟩ := exists_sound_of_reaches hmapping fresh_lowMachine hreach
    exact ((h.bySlots hmapping.injective).rejected_iff hconflict).mp hrejected

end MiniatureOs
