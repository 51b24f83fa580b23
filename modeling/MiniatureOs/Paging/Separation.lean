import MiniatureOs.Frames.Fresh
import MiniatureOs.Lib.RadixTree
import MiniatureOs.Paging.Mapped

/-! # Separation of the page tables

The tables form a tree in memory. `Interior` says which paths of indices lead to
tables, given the page size that each 2 MiB slot is used with. The invariant is
that different paths lead to different tables, that the entries on the way are
links to frames the allocator gave out, and that the allocator will not return
those frames again. Getting or allocating the tables of a path keeps it, and
changes no entry of a page.
-/

namespace MiniatureOs

open PageTableFrameMapping

/-! ## Paths -/

/-- The paths that lead to tables when slot `n` of 2 MiB is used with pages of
size `sizes n`. -/
def Interior (sizes : Nat → PageSize) : List (Fin 512) → Prop
  | [] => True
  | [_] => True
  | [_, _] => True
  | [i4, i3, i2] => sizes (i4.val * 2 ^ 18 + i3.val * 2 ^ 9 + i2.val) = .size4KiB
  | _ => False

def Page.Fits {S : PageSize} (sizes : Nat → PageSize) (page : Page S) : Prop :=
  sizes (slotOf page.address) = S

/-- A page table cannot tell the pages apart. -/
def Page.Aliases {S S' : PageSize} (page : Page S) (other : Page S') : Prop :=
  S = S' ∧ page.address % 2 ^ 48 = other.address % 2 ^ 48

theorem Page.Aliases.eq {S S' : PageSize} {page : Page S} {other : Page S'}
    (h : page.Aliases other) (hpage : Canonical page.address) (hother : Canonical other.address) :
    (⟨S, page⟩ : Σ S, Page S) = ⟨S', other⟩ := by
  obtain ⟨rfl, haddress⟩ := h
  rw [Page.ext (eq_of_canonical hpage hother haddress)]

theorem Page.Aliases.symm {S S' : PageSize} {page : Page S} {other : Page S'}
    (h : page.Aliases other) : other.Aliases page :=
  ⟨h.1.symm, h.2.symm⟩

theorem prefixClosed_interior (sizes : Nat → PageSize) :
    RadixTree.PrefixClosed (Interior sizes) := by
  intro path i h
  match path, h with
  | [], _ => trivial
  | [_], _ => trivial
  | [_, _], _ => trivial
  | [_, _, _], h => exact absurd h (by simp [Interior])
  | _ :: _ :: _ :: _ :: _, h => exact absurd h (by simp [Interior])

namespace Page.Fits

variable {S : PageSize} {sizes : Nat → PageSize} {page : Page S}

theorem interior_tablePath (h : page.Fits sizes) : Interior sizes page.tablePath := by
  cases S with
  | size4KiB =>
      rw [Fits, slotOf_eq] at h
      exact h
  | size2MiB => trivial

theorem not_interior_leaf (h : page.Fits sizes) :
    ¬ Interior sizes (page.tablePath ++ [page.leafIndex]) := by
  cases S with
  | size4KiB => exact id
  | size2MiB =>
      intro hinterior
      rw [Fits, slotOf_eq] at h
      cases h.symm.trans hinterior

end Page.Fits

theorem Page.aliases_of_path {S S' : PageSize} {page : Page S} {other : Page S'}
    (hpath : page.tablePath = other.tablePath) (hleaf : page.leafIndex = other.leafIndex) :
    page.Aliases other := by
  have ha := page.aligned
  have hb := other.aligned
  cases S with
  | size4KiB =>
      cases S' with
      | size4KiB =>
          simp only [tablePath, leafIndex, l4Index, l3Index, l2Index, l1Index, List.cons.injEq,
            Fin.mk.injEq, and_true] at hpath hleaf
          simp only [PageSize.size] at ha hb
          exact ⟨rfl, by omega⟩
      | size2MiB => exact absurd (congrArg List.length hpath) (by simp [tablePath])
  | size2MiB =>
      cases S' with
      | size4KiB => exact absurd (congrArg List.length hpath) (by simp [tablePath])
      | size2MiB =>
          simp only [tablePath, leafIndex, l4Index, l3Index, l2Index, List.cons.injEq,
            Fin.mk.injEq, and_true] at hpath hleaf
          simp only [PageSize.size] at ha hb
          exact ⟨rfl, by omega⟩

/-! ## Tables -/

section Tables

variable {P A : Type} [PageTableFrameMapping P] [FrameAllocator A]

def child (mapping : P) (entry : PageTableEntry) : Option Nat :=
  if PageTableEntry.isUnused entry then none
  else (frameToVirtual mapping (PageTableEntry.physicalFrame entry)).toOption

def MappedPageTable.tableAt (table : MappedPageTable P) (m : ByteMemory)
    (path : List (Fin 512)) : Option Nat :=
  RadixTree.walk (child table.mapping) (tableEntry m) table.pml4t path

def MappedPageTable.dataAt (table : MappedPageTable P) (m : ByteMemory)
    (path : List (Fin 512)) (i : Fin 512) : PageTableEntry :=
  RadixTree.lookup (child table.mapping) (tableEntry m) PageTableEntry.unused table.pml4t path i

/-- One of the frames in `tables` holds the table at `address`. -/
structure HoldsTable (mapping : P) (tables : PhysicalFrame .size4KiB → Prop)
    (frame : PhysicalFrame .size4KiB) (address : Nat) : Prop where
  isTable : tables frame
  lt : frame.address < 2 ^ 48
  virtual : frameToVirtual mapping frame = .ok address
  aligned : address % 4096 = 0

def IsLink (mapping : P) (tables : PhysicalFrame .size4KiB → Prop)
    (entry : PageTableEntry) : Prop :=
  entry = PageTableEntry.unused ∨ ∃ frame address, HoldsTable mapping tables frame address ∧
    entry = PageTableEntry.setAddress frame.address parentFlags

def InjectiveMapping (mapping : P) : Prop :=
  ∀ f g address, frameToVirtual mapping f = .ok address →
    frameToVirtual mapping g = .ok address → f = g

/-- The tables of a page table do not overlap, and lie in the frames `tables`. -/
structure WellFormed (sizes : Nat → PageSize) (table : MappedPageTable P)
    (tables : PhysicalFrame .size4KiB → Prop) (m : ByteMemory) : Prop where
  separated : RadixTree.Separated (child table.mapping) (tableEntry m) table.pml4t (Interior sizes)
  edges : RadixTree.Edges (IsLink table.mapping tables) (child table.mapping) (tableEntry m)
    table.pml4t (Interior sizes)

structure Separate (sizes : Nat → PageSize) (table : MappedPageTable P)
    (tables used : PhysicalFrame .size4KiB → Prop) (s : Machine A) : Prop
    extends WellFormed sizes table tables s.memory where
  tables_used : ∀ frame, tables frame → used frame
  root_used : ∀ frame, frameToVirtual table.mapping frame = .ok table.pml4t → used frame
  fresh : ReturnsFresh used s.allocator

def InTables (table : MappedPageTable P) (tables : PhysicalFrame .size4KiB → Prop)
    (x : Nat) : Prop :=
  ∃ address, address ≤ x ∧ x < address + 4096 ∧
    (address = table.pml4t ∨
      ∃ frame, tables frame ∧ frameToVirtual table.mapping frame = .ok address)

theorem isUnused_link (address : Nat) :
    PageTableEntry.isUnused (PageTableEntry.setAddress address parentFlags) = false := by
  have hbit : (PageTableEntry.setAddress address parentFlags).getLsbD 0 = true := by
    rw [PageTableEntry.setAddress, BitVec.getLsbD_or,
      show parentFlags.bits.getLsbD 0 = true from by decide, Bool.or_true]
  have hne : PageTableEntry.setAddress address parentFlags ≠ 0 := by
    intro hzero
    rw [hzero] at hbit
    exact absurd hbit (by decide)
  simpa [PageTableEntry.isUnused] using hne

theorem physicalFrame_setAddress {frame : PhysicalFrame .size4KiB} (h : frame.address < 2 ^ 48)
    (flags : PageTableEntryFlags) :
    PageTableEntry.physicalFrame (PageTableEntry.setAddress frame.address flags) = frame := by
  rw [PageTableEntry.physicalFrame, PageTableEntry.address_setAddress frame.aligned h,
    frame.containingAddress_self]

theorem child_unused (mapping : P) : child mapping PageTableEntry.unused = none := rfl

variable {sizes : Nat → PageSize} {table : MappedPageTable P}
  {tables used : PhysicalFrame .size4KiB → Prop} {m m' : ByteMemory} {s s' : Machine A}
  {path : List (Fin 512)} {i : Fin 512} {t : Nat}

theorem HoldsTable.child_eq {mapping : P} {frame : PhysicalFrame .size4KiB} {address : Nat}
    (h : HoldsTable mapping tables frame address) :
    child mapping (PageTableEntry.setAddress frame.address parentFlags) = some address := by
  rw [child, isUnused_link, physicalFrame_setAddress h.lt, h.virtual]
  rfl

/-- `get_pagetable` does not panic on a link. -/
theorem IsLink.getPagetable_eq {mapping : P} {entry : PageTableEntry}
    (h : IsLink mapping tables entry) : getPagetable mapping entry = .ok (child mapping entry) := by
  rcases h with rfl | ⟨frame, address, htable, rfl⟩
  · rfl
  · rw [htable.child_eq, getPagetable, isUnused_link, physicalFrame_setAddress htable.lt,
      htable.virtual]
    rfl

theorem MappedPageTable.tableAt_concat (path : List (Fin 512)) (i : Fin 512) :
    table.tableAt m (path ++ [i]) =
      (table.tableAt m path).bind fun t => child table.mapping (tableEntry m t i) :=
  RadixTree.walk_concat path i

namespace WellFormed

theorem reached (h : WellFormed sizes table tables m) (hpath : Interior sizes path)
    (ht : table.tableAt m path = some t) :
    t % 4096 = 0 ∧ (t = table.pml4t ∨
      ∃ frame, tables frame ∧ frameToVirtual table.mapping frame = .ok t) := by
  induction path using List.reverseRecOn with
  | nil =>
      obtain rfl : table.pml4t = t := Option.some.inj ht
      exact ⟨table.aligned, .inl rfl⟩
  | append_singleton path i _ =>
      rw [MappedPageTable.tableAt_concat] at ht
      obtain ⟨parent, hparent, hchild⟩ := Option.bind_eq_some_iff.mp ht
      rcases h.edges path i parent hpath hparent with hunused | ⟨frame, address, htable, hentry⟩
      · rw [hunused, child_unused] at hchild
        cases hchild
      · rw [hentry, htable.child_eq] at hchild
        obtain rfl : address = t := Option.some.inj hchild
        exact ⟨htable.aligned, .inr ⟨frame, htable.isTable, htable.virtual⟩⟩

theorem getPagetables_eq (h : WellFormed sizes table tables m) {rest : List (Fin 512)}
    (hpath : Interior sizes (path ++ rest)) (ht : table.tableAt m path = some t) :
    getPagetables table.mapping m t rest = .ok (table.tableAt m (path ++ rest)) := by
  induction rest generalizing path t with
  | nil => rw [List.append_nil, ht]; rfl
  | cons i rest ih =>
      have hsplit : path ++ i :: rest = (path ++ [i]) ++ rest := by simp
      rw [hsplit] at hpath ⊢
      have hnext := (prefixClosed_interior sizes).of_append hpath
      have hconcat := table.tableAt_concat (m := m) path i
      rw [ht, Option.bind_some] at hconcat
      simp only [getPagetables, (h.edges path i t hnext ht).getPagetable_eq, Checked.ok_bind]
      cases hchild : child table.mapping (tableEntry m t i) with
      | none =>
          have hnone : table.tableAt m ((path ++ [i]) ++ rest) = none := by
            rw [MappedPageTable.tableAt, RadixTree.walk_append]
            change (table.tableAt m (path ++ [i])).bind _ = none
            rw [hconcat, hchild]
            rfl
          rw [hnone]
          rfl
      | some next => exact ih hpath (hconcat.trans hchild)

end WellFormed

/-! ## Memory outside the tables -/

theorem inTables_entry (hi : i.val < 512)
    (ht : t = table.pml4t ∨ ∃ frame, tables frame ∧ frameToVirtual table.mapping frame = .ok t)
    {x : Nat} (hx : entryAddress t i ≤ x ∧ x < entryAddress t i + 8) :
    InTables table tables x := by
  unfold entryAddress at hx
  exact ⟨t, by omega, by omega, ht⟩

theorem WellFormed.tableEntry_congr (h : WellFormed sizes table tables m)
    (hsame : ∀ x, InTables table tables x → m' x = m x) (hpath : Interior sizes path)
    (ht : table.tableAt m path = some t) (i : Fin 512) : tableEntry m' t i = tableEntry m t i :=
  ByteMemory.readWord_congr fun x hle hlt =>
    hsame x (inTables_entry i.isLt (h.reached hpath ht).2 ⟨hle, hlt⟩)

theorem WellFormed.tableAt_congr (h : WellFormed sizes table tables m)
    (hsame : ∀ x, InTables table tables x → m' x = m x) (hpath : Interior sizes path) :
    table.tableAt m' path = table.tableAt m path := by
  have hclosed := prefixClosed_interior sizes
  exact RadixTree.walk_congr hclosed
    (fun q j t hq ht => h.tableEntry_congr hsame (hclosed q j hq) ht j) hpath

theorem WellFormed.dataAt_congr (h : WellFormed sizes table tables m)
    (hsame : ∀ x, InTables table tables x → m' x = m x) (hpath : Interior sizes path)
    (i : Fin 512) : table.dataAt m' path i = table.dataAt m path i := by
  have hwalk := h.tableAt_congr hsame hpath
  unfold MappedPageTable.tableAt at hwalk
  rw [MappedPageTable.dataAt, MappedPageTable.dataAt, RadixTree.lookup, RadixTree.lookup, hwalk]
  cases ht : RadixTree.walk (child table.mapping) (tableEntry m) table.pml4t path with
  | none => rfl
  | some t => exact h.tableEntry_congr hsame hpath ht i

/-- A page table is not affected by changes outside its tables. -/
theorem WellFormed.congr (h : WellFormed sizes table tables m)
    (hsame : ∀ x, InTables table tables x → m' x = m x) : WellFormed sizes table tables m' where
  separated := by
    intro p q t hp hq hpwalk hqwalk
    have hpwalk' := (h.tableAt_congr hsame hp).symm.trans hpwalk
    have hqwalk' := (h.tableAt_congr hsame hq).symm.trans hqwalk
    exact h.separated p q t hp hq hpwalk' hqwalk'
  edges := by
    intro q j t hq ht
    have hqi := (prefixClosed_interior sizes) q j hq
    have ht' := (h.tableAt_congr hsame hqi).symm.trans ht
    rw [h.tableEntry_congr hsame hqi ht' j]
    exact h.edges q j t hq ht'

/-! ## Writing an entry -/

theorem tableEntry_writeWord_other {t' : Nat} {j : Fin 512} (word : PageTableEntry)
    (ht : t % 4096 = 0) (ht' : t' % 4096 = 0) (hne : ¬ (t' = t ∧ j = i)) :
    tableEntry (m.writeWord (entryAddress t i) word) t' j = tableEntry m t' j := by
  refine ByteMemory.readWord_writeWord_of_disjoint m word ?_
  have hi := i.isLt
  have hj := j.isLt
  unfold entryAddress
  by_cases htt : t' = t
  · have hji : j.val ≠ i.val := fun h => hne ⟨htt, Fin.ext h⟩
    omega
  · omega

/-- Writing the entry of a page changes that entry alone. -/
theorem WellFormed.writesData (h : WellFormed sizes table tables m)
    (hpath : Interior sizes path) (hdata : ¬ Interior sizes (path ++ [i]))
    (ht : table.tableAt m path = some t) (word : PageTableEntry) :
    RadixTree.WritesData (child table.mapping) (tableEntry m)
      (tableEntry (m.writeWord (entryAddress t i) word)) table.pml4t (Interior sizes) path i
      word where
  isInterior := hpath
  isData := hdata
  written := by
    refine ⟨t, ht, ByteMemory.readWord_writeWord m _ word, fun q t' j hq ht' hne => ?_⟩
    exact tableEntry_writeWord_other word (h.reached hpath ht).1 (h.reached hq ht').1 hne

/-! ## Getting or allocating a table -/

/-- The page table stays well-formed, its new tables lie in fresh frames, and
memory changes in tables only. -/
structure Extends (sizes : Nat → PageSize) (table : MappedPageTable P)
    (tables used tables' used' : PhysicalFrame .size4KiB → Prop) (s s' : Machine A) : Prop where
  separate : Separate sizes table tables' used' s'
  tables_mono : ∀ frame, tables frame → tables' frame
  used_iff : ∀ frame, used' frame ↔ used frame ∨ tables' frame
  tables_new : ∀ frame, tables' frame → tables frame ∨ ¬ used frame
  outside : ∀ x, ¬ InTables table tables' x → s'.memory x = s.memory x

/-- What `get_or_allocate_pagetable` may do: add tables, and nothing else. -/
structure Grows (sizes : Nat → PageSize) (table : MappedPageTable P)
    (tables used tables' used' : PhysicalFrame .size4KiB → Prop) (s s' : Machine A) : Prop
    extends Extends sizes table tables used tables' used' s s' where
  keeps : ∀ path t, Interior sizes path → table.tableAt s.memory path = some t →
    table.tableAt s'.memory path = some t
  sameData : ∀ path i, Interior sizes path → ¬ Interior sizes (path ++ [i]) →
    table.dataAt s'.memory path i = table.dataAt s.memory path i

theorem InTables.mono {tables' : PhysicalFrame .size4KiB → Prop} {x : Nat}
    (hmono : ∀ frame, tables frame → tables' frame) (h : InTables table tables x) :
    InTables table tables' x := by
  obtain ⟨address, hle, hlt, hroot | ⟨frame, htable, hvirtual⟩⟩ := h
  · exact ⟨address, hle, hlt, .inl hroot⟩
  · exact ⟨address, hle, hlt, .inr ⟨frame, hmono frame htable, hvirtual⟩⟩

theorem Grows.of_memory_eq (h : Separate sizes table tables used s)
    (hmemory : s'.memory = s.memory) (hfresh : ReturnsFresh used s'.allocator) :
    Grows sizes table tables used tables used s s' where
  separate := by
    refine ⟨?_, h.tables_used, h.root_used, hfresh⟩
    rw [hmemory]
    exact h.toWellFormed
  tables_mono := fun _ => id
  used_iff := fun frame => ⟨.inl, fun h' => h'.elim id (h.tables_used frame)⟩
  tables_new := fun _ => .inl
  outside := by
    rw [hmemory]
    exact fun _ _ => rfl
  keeps := by
    rw [hmemory]
    exact fun _ _ _ => id
  sameData := by
    rw [hmemory]
    exact fun _ _ _ _ => rfl

section Trans

variable {tables' used' tables'' used'' : PhysicalFrame .size4KiB → Prop} {s'' : Machine A}

theorem Extends.trans (h : Extends sizes table tables used tables' used' s s')
    (h' : Extends sizes table tables' used' tables'' used'' s' s'') :
    Extends sizes table tables used tables'' used'' s s'' where
  separate := h'.separate
  tables_mono := fun frame hf => h'.tables_mono frame (h.tables_mono frame hf)
  used_iff := by
    intro frame
    have hmono := h'.tables_mono frame
    rw [h'.used_iff, h.used_iff]
    tauto
  tables_new := by
    intro frame hf
    rcases h'.tables_new frame hf with hold | hnew
    · exact h.tables_new frame hold
    · exact .inr fun hused => hnew ((h.used_iff frame).mpr (.inl hused))
  outside := fun x hx =>
    (h'.outside x hx).trans (h.outside x fun hin => hx (hin.mono h'.tables_mono))

theorem Grows.trans (h : Grows sizes table tables used tables' used' s s')
    (h' : Grows sizes table tables' used' tables'' used'' s' s'') :
    Grows sizes table tables used tables'' used'' s s'' where
  toExtends := h.toExtends.trans h'.toExtends
  keeps := fun path t hpath ht => h'.keeps path t hpath (h.keeps path t hpath ht)
  sameData := fun path i hpath hdata =>
    (h'.sameData path i hpath hdata).trans (h.sameData path i hpath hdata)

end Trans

/-- The state after a table in a fresh frame was linked at entry `i` of `t`. -/
def Machine.link (s : Machine A) (t : Nat) (i : Fin 512) (frame : PhysicalFrame .size4KiB)
    (address : Nat) (allocator : A) : Machine A where
  memory := (s.memory.writeWord (entryAddress t i)
    (PageTableEntry.setAddress frame.address parentFlags)).fill address 4096 0
  allocator := allocator

/-- A link carries the parent flags already, so nothing is written. -/
theorem getOrAllocatePagetable_of_link {frame : PhysicalFrame .size4KiB} {address : Nat}
    (htable : HoldsTable table.mapping tables frame address)
    (hentry : tableEntry s.memory t i = PageTableEntry.setAddress frame.address parentFlags) :
    getOrAllocatePagetable table.mapping (entryAddress t i) parentFlags s =
      .ok (some address, s) := by
  have hword : s.memory.readWord (entryAddress t i) =
      PageTableEntry.setAddress frame.address parentFlags := hentry
  have hflags : (PageTableEntry.flags
      (PageTableEntry.setAddress frame.address parentFlags)).contains parentFlags = true := by
    rw [PageTableEntry.flags_setAddress frame.aligned htable.lt]
    decide
  simp only [getOrAllocatePagetable, hword, isUnused_link, hflags,
    physicalFrame_setAddress htable.lt, htable.virtual, Bool.not_true, Bool.and_false,
    Bool.false_eq_true, if_false, Checked.ok_bind, Checked.pure_eq_ok]

theorem getOrAllocatePagetable_of_alloc {frame : PhysicalFrame .size4KiB} {address : Nat}
    {allocator : A} (hunused : tableEntry s.memory t i = PageTableEntry.unused)
    (halloc : FrameAllocator.allocateFrame s.allocator = .ok (some frame, allocator))
    (hvirtual : frameToVirtual table.mapping frame = .ok address) (haligned : address % 4096 = 0) :
    getOrAllocatePagetable table.mapping (entryAddress t i) parentFlags s =
      .ok (some address, s.link t i frame address allocator) := by
  have hword : s.memory.readWord (entryAddress t i) = 0 := hunused
  simp only [getOrAllocatePagetable, hword, show PageTableEntry.isUnused 0 = true from rfl,
    if_true, halloc, hvirtual, Checked.ok_bind, initializeEmptyAtAddress, Checked.assert,
    haligned, BEq.rfl, Checked.pure_eq_ok]
  rfl

/-- `get_or_allocate_pagetable` returns the table that is there, or fails to
allocate one, or links a new one. -/
theorem getOrAllocatePagetable_cases {result : Option Nat}
    (hlink : IsLink table.mapping tables (tableEntry s.memory t i))
    (hrun : getOrAllocatePagetable table.mapping (entryAddress t i) parentFlags s =
      .ok (result, s')) :
    (s' = s ∧ ∃ address, result = some address ∧
        child table.mapping (tableEntry s.memory t i) = some address) ∨
      (tableEntry s.memory t i = PageTableEntry.unused ∧ ∃ allocator,
        FrameAllocator.allocateFrame s.allocator = .ok (none, allocator) ∧
          result = none ∧ s' = { s with allocator }) ∨
      (tableEntry s.memory t i = PageTableEntry.unused ∧ ∃ frame address allocator,
        FrameAllocator.allocateFrame s.allocator = .ok (some frame, allocator) ∧
          frameToVirtual table.mapping frame = .ok address ∧ address % 4096 = 0 ∧
          result = some address ∧ s' = s.link t i frame address allocator) := by
  rcases hlink with hunused | ⟨frame, address, htable, hentry⟩
  · right
    have hword : s.memory.readWord (entryAddress t i) = 0 := hunused
    simp only [getOrAllocatePagetable, hword, show PageTableEntry.isUnused 0 = true from rfl,
      if_true] at hrun
    obtain ⟨⟨result', allocator⟩, halloc, hrun⟩ := Checked.bind_eq_ok.mp hrun
    cases result' with
    | none =>
        simp only [Checked.pure_eq_ok, Except.ok.injEq, Prod.mk.injEq] at hrun
        exact .inl ⟨hunused, allocator, halloc, hrun.1.symm, hrun.2.symm⟩
    | some frame =>
        obtain ⟨address, hvirtual, hrun⟩ := Checked.bind_eq_ok.mp hrun
        obtain ⟨memory, hinit, hrun⟩ := Checked.bind_eq_ok.mp hrun
        obtain ⟨_, hassert, hinit⟩ := Checked.bind_eq_ok.mp hinit
        have haligned : address % 4096 = 0 := by
          simpa using Checked.assert_eq_ok.mp hassert
        simp only [Checked.pure_eq_ok, Except.ok.injEq, Prod.mk.injEq] at hrun hinit
        refine .inr ⟨hunused, frame, address, allocator, halloc, hvirtual, haligned,
          hrun.1.symm, ?_⟩
        rw [← hrun.2, ← hinit]
        rfl
  · left
    simp only [getOrAllocatePagetable_of_link htable hentry, Except.ok.injEq,
      Prod.mk.injEq] at hrun
    exact ⟨hrun.2.symm, address, hrun.1.symm, by rw [hentry, htable.child_eq]⟩

/-- Where the tables of a path exist, they are returned and nothing changes. -/
theorem WellFormed.getOrAllocatePagetables_eq (h : WellFormed sizes table tables s.memory)
    {rest : List (Fin 512)} {last : Nat} (hpath : Interior sizes (path ++ rest))
    (ht : table.tableAt s.memory path = some t)
    (hlast : table.tableAt s.memory (path ++ rest) = some last) :
    getOrAllocatePagetables table.mapping parentFlags t rest s = .ok (some last, s) := by
  induction rest generalizing path t with
  | nil =>
      rw [List.append_nil, ht] at hlast
      obtain rfl : t = last := Option.some.inj hlast
      rfl
  | cons i rest ih =>
      have hsplit : path ++ i :: rest = (path ++ [i]) ++ rest := by simp
      rw [hsplit] at hpath hlast
      have hnext := (prefixClosed_interior sizes).of_append hpath
      have hconcat := table.tableAt_concat (m := s.memory) path i
      rw [ht, Option.bind_some] at hconcat
      rcases h.edges path i t hnext ht with hunused | ⟨frame, address, htable, hentry⟩
      · rw [MappedPageTable.tableAt, RadixTree.walk_append] at hlast
        change (table.tableAt s.memory (path ++ [i])).bind _ = some last at hlast
        rw [hconcat, hunused, child_unused] at hlast
        cases hlast
      · rw [hentry, htable.child_eq] at hconcat
        rw [getOrAllocatePagetables, getOrAllocatePagetable_of_link htable hentry]
        exact ih hpath hconcat hlast

theorem Separate.unreached (h : Separate sizes table tables used s)
    (hinj : InjectiveMapping table.mapping) {frame : PhysicalFrame .size4KiB} {address : Nat}
    (hfresh : ¬ used frame) (hvirtual : frameToVirtual table.mapping frame = .ok address)
    (hpath : Interior sizes path) : table.tableAt s.memory path ≠ some address := by
  intro ht
  rcases (h.reached hpath ht).2 with hroot | ⟨other, hother, hsame⟩
  · exact hfresh (h.root_used frame (hroot ▸ hvirtual))
  · exact hfresh (hinj other frame address hsame hvirtual ▸ h.tables_used other hother)

theorem Separate.linksTable (h : Separate sizes table tables used s)
    (hinj : InjectiveMapping table.mapping) {frame : PhysicalFrame .size4KiB} {address : Nat}
    (hfresh : ¬ used frame) (hlt : frame.address < 2 ^ 48)
    (hvirtual : frameToVirtual table.mapping frame = .ok address) (haligned : address % 4096 = 0)
    (hpath : Interior sizes (path ++ [i])) (ht : table.tableAt s.memory path = some t)
    (hunused : tableEntry s.memory t i = PageTableEntry.unused) (allocator : A) :
    RadixTree.LinksTable (child table.mapping) (tableEntry s.memory)
      (tableEntry (s.link t i frame address allocator).memory) PageTableEntry.unused table.pml4t
      (Interior sizes) path i address ∧
    tableEntry (s.link t i frame address allocator).memory t i =
      PageTableEntry.setAddress frame.address parentFlags := by
  have hparent := (prefixClosed_interior sizes) path i hpath
  have hunreached : ∀ q, Interior sizes q → table.tableAt s.memory q ≠ some address :=
    fun q hq => h.unreached hinj hfresh hvirtual hq
  -- the new table is filled with zeros, and that touches no table reached so far
  have hfill : ∀ t' j, t' % 4096 = 0 → t' ≠ address →
      tableEntry (s.link t i frame address allocator).memory t' j =
        tableEntry (s.memory.writeWord (entryAddress t i)
          (PageTableEntry.setAddress frame.address parentFlags)) t' j := by
    intro t' j ht' hne
    refine ByteMemory.readWord_congr fun x hle hlt' => ByteMemory.fill_outside ?_
    have hj := j.isLt
    unfold entryAddress at hle hlt'
    omega
  have htable := (h.reached hparent ht).1
  have hne : t ≠ address := fun heq => hunreached path hparent (heq ▸ ht)
  have hentry : tableEntry (s.link t i frame address allocator).memory t i =
      PageTableEntry.setAddress frame.address parentFlags := by
    rw [hfill t i htable hne]
    exact ByteMemory.readWord_writeWord _ _ _
  refine ⟨⟨hpath, hunreached, fun j => ?_, t, ht, ?_, ?_, fun q t' j hq ht' hcell => ?_⟩, hentry⟩
  · refine ByteMemory.readWord_of_zero fun x hle hlt' => ByteMemory.fill_inside ?_ ?_
    · unfold entryAddress at hle
      omega
    · have hj := j.isLt
      unfold entryAddress at hlt'
      omega
  · rw [hunused]
    rfl
  · rw [hentry]
    exact HoldsTable.child_eq ⟨rfl, hlt, hvirtual, haligned⟩
  · have ht'a := (h.reached hq ht').1
    rw [hfill t' j ht'a fun heq => hunreached q hq (heq ▸ ht')]
    exact tableEntry_writeWord_other _ htable ht'a hcell

theorem IsLink.mono {mapping : P} {tables' : PhysicalFrame .size4KiB → Prop}
    {entry : PageTableEntry} (hmono : ∀ frame, tables frame → tables' frame)
    (h : IsLink mapping tables entry) : IsLink mapping tables' entry := by
  rcases h with hunused | ⟨frame, address, htable, hentry⟩
  · exact .inl hunused
  · exact .inr ⟨frame, address, { htable with isTable := hmono frame htable.isTable }, hentry⟩

theorem Separate.grows_link (h : Separate sizes table tables used s)
    (hinj : InjectiveMapping table.mapping) {frame : PhysicalFrame .size4KiB} {address : Nat}
    {allocator : A}
    (halloc : FrameAllocator.allocateFrame s.allocator = .ok (some frame, allocator))
    (hvirtual : frameToVirtual table.mapping frame = .ok address) (haligned : address % 4096 = 0)
    (hpath : Interior sizes (path ++ [i])) (ht : table.tableAt s.memory path = some t)
    (hunused : tableEntry s.memory t i = PageTableEntry.unused) :
    Grows sizes table tables used (fun other => tables other ∨ other = frame)
      (fun other => used other ∨ other = frame) s (s.link t i frame address allocator) ∧
    table.tableAt (s.link t i frame address allocator).memory (path ++ [i]) = some address := by
  obtain ⟨hlt, hnew, hfresh⟩ := h.fresh.of_some halloc
  obtain ⟨hlinks, hentry⟩ :=
    h.linksTable hinj hnew hlt hvirtual haligned hpath ht hunused allocator
  have hclosed := prefixClosed_interior sizes
  have hnull : child table.mapping PageTableEntry.unused = none := child_unused table.mapping
  have hwalk : ∀ q, Interior sizes q →
      table.tableAt (s.link t i frame address allocator).memory q =
        if q = path ++ [i] then some address else table.tableAt s.memory q :=
    fun q hq => hlinks.walk_eq hnull h.separated hclosed hq
  have hedges : RadixTree.Edges (IsLink table.mapping fun other => tables other ∨ other = frame)
      (child table.mapping) (tableEntry s.memory) table.pml4t (Interior sizes) :=
    fun q j t' hq ht' => (h.edges q j t' hq ht').mono fun _ => .inl
  refine ⟨{
    separate := ⟨⟨hlinks.separated hnull h.separated hclosed, ?_⟩, ?_, ?_, hfresh⟩
    tables_mono := fun _ => .inl
    used_iff := ?_
    tables_new := ?_
    outside := ?_
    keeps := ?_
    sameData := fun q j hq hdata => hlinks.lookup_eq hnull h.separated hclosed hq hdata }, ?_⟩
  · refine hlinks.edges hnull h.separated hclosed hedges (.inl rfl) fun t' ht' => ?_
    obtain rfl : t = t' := Option.some.inj (ht.symm.trans ht')
    exact .inr ⟨frame, address, ⟨.inr rfl, hlt, hvirtual, haligned⟩, hentry⟩
  · exact fun other hother => hother.imp_left (h.tables_used other)
  · exact fun other hother => .inl (h.root_used other hother)
  · intro other
    have := h.tables_used other
    tauto
  · rintro other (hother | rfl)
    · exact .inl hother
    · exact .inr hnew
  · intro x hx
    have hnotNew : ¬ (address ≤ x ∧ x < address + 4096) := fun hin =>
      hx ⟨address, hin.1, hin.2, .inr ⟨frame, .inr rfl, hvirtual⟩⟩
    have hnotEntry : ¬ (entryAddress t i ≤ x ∧ x < entryAddress t i + 8) := fun hin =>
      hx ((inTables_entry i.isLt (h.reached (hclosed path i hpath) ht).2 hin).mono fun _ => .inl)
    exact (ByteMemory.fill_outside hnotNew).trans (ByteMemory.writeWord_outside hnotEntry)
  · intro q t' hq ht'
    rw [hwalk q hq, if_neg, ht']
    rintro rfl
    have hnone : table.tableAt s.memory (path ++ [i]) = none := by
      rw [MappedPageTable.tableAt_concat, ht, Option.bind_some, hunused, hnull]
    rw [hnone] at ht'
    cases ht'
  · rw [hwalk _ hpath, if_pos rfl]

theorem Separate.getOrAllocatePagetable (h : Separate sizes table tables used s)
    (hinj : InjectiveMapping table.mapping) {result : Option Nat}
    (hpath : Interior sizes (path ++ [i])) (ht : table.tableAt s.memory path = some t)
    (hrun : getOrAllocatePagetable table.mapping (entryAddress t i) parentFlags s =
      .ok (result, s')) :
    ∃ tables' used', Grows sizes table tables used tables' used' s s' ∧
      table.tableAt s'.memory (path ++ [i]) = result := by
  have hconcat := table.tableAt_concat (m := s.memory) path i
  rw [ht, Option.bind_some] at hconcat
  rcases getOrAllocatePagetable_cases (h.edges path i t hpath ht) hrun with
    ⟨rfl, address, rfl, hchild⟩ | ⟨hunused, allocator, halloc, rfl, rfl⟩ |
    ⟨hunused, frame, address, allocator, halloc, hvirtual, haligned, rfl, rfl⟩
  · exact ⟨tables, used, .of_memory_eq h rfl h.fresh, hconcat.trans hchild⟩
  · refine ⟨tables, used, .of_memory_eq h rfl (h.fresh.of_none halloc), ?_⟩
    rw [hconcat, hunused]
    rfl
  · exact ⟨_, _, h.grows_link hinj halloc hvirtual haligned hpath ht hunused⟩

theorem Separate.getOrAllocatePagetables (h : Separate sizes table tables used s)
    (hinj : InjectiveMapping table.mapping) {result : Option Nat} {rest : List (Fin 512)}
    (hpath : Interior sizes (path ++ rest)) (ht : table.tableAt s.memory path = some t)
    (hrun : getOrAllocatePagetables table.mapping parentFlags t rest s = .ok (result, s')) :
    ∃ tables' used', Grows sizes table tables used tables' used' s s' ∧
      table.tableAt s'.memory (path ++ rest) = result := by
  induction rest generalizing path t s tables used with
  | nil =>
      simp only [MiniatureOs.getOrAllocatePagetables, Checked.pure_eq_ok, Except.ok.injEq,
        Prod.mk.injEq] at hrun
      obtain ⟨rfl, rfl⟩ := hrun
      rw [List.append_nil]
      exact ⟨tables, used, .of_memory_eq h rfl h.fresh, ht⟩
  | cons i rest ih =>
      have hsplit : path ++ i :: rest = (path ++ [i]) ++ rest := by simp
      rw [hsplit] at hpath ⊢
      have hnext := (prefixClosed_interior sizes).of_append hpath
      obtain ⟨⟨next, s₁⟩, hfirst, hrun⟩ := Checked.bind_eq_ok.mp hrun
      obtain ⟨tables₁, used₁, hgrows, hwalk⟩ := h.getOrAllocatePagetable hinj hnext ht hfirst
      cases next with
      | none =>
          simp only [Checked.pure_eq_ok, Except.ok.injEq, Prod.mk.injEq] at hrun
          obtain ⟨rfl, rfl⟩ := hrun
          refine ⟨tables₁, used₁, hgrows, ?_⟩
          rw [MappedPageTable.tableAt, RadixTree.walk_append]
          change (table.tableAt s₁.memory (path ++ [i])).bind _ = none
          rw [hwalk]
          rfl
      | some next =>
          obtain ⟨tables₂, used₂, hgrows₂, hwalk₂⟩ := ih hgrows.separate hpath hwalk hrun
          exact ⟨tables₂, used₂, hgrows.trans hgrows₂, hwalk₂⟩

/-! ## With enough frames -/

def TotalMapping (mapping : P) : Prop :=
  ∀ frame : PhysicalFrame .size4KiB, frame.address < 2 ^ 48 →
    ∃ address, frameToVirtual mapping frame = .ok address ∧ address % 4096 = 0

/-- The number of tables that are missing below `path` along `rest`. -/
def MappedPageTable.missingTables (table : MappedPageTable P) (m : ByteMemory) :
    List (Fin 512) → List (Fin 512) → Nat
  | _, [] => 0
  | path, i :: rest =>
      (if (table.tableAt m (path ++ [i])).isSome then 0 else 1) +
        table.missingTables m (path ++ [i]) rest

theorem MappedPageTable.missingTables_nil : table.missingTables m path [] = 0 := rfl

theorem MappedPageTable.missingTables_cons (rest : List (Fin 512)) :
    table.missingTables m path (i :: rest) =
      (if (table.tableAt m (path ++ [i])).isSome then 0 else 1) +
        table.missingTables m (path ++ [i]) rest := rfl

-- a supply of `n + missingTables` frames would otherwise be unfolded down to the memory
attribute [irreducible] MappedPageTable.missingTables

theorem MappedPageTable.missingTables_le (rest : List (Fin 512)) :
    table.missingTables m path rest ≤ rest.length := by
  induction rest generalizing path with
  | nil => exact Nat.le_of_eq missingTables_nil
  | cons i rest ih =>
      have hrest := @ih (path ++ [i])
      rw [missingTables_cons, List.length_cons]
      split <;> omega

theorem MappedPageTable.missingTables_mono {rest : List (Fin 512)}
    (hkeeps : ∀ path t, Interior sizes path → table.tableAt m path = some t →
      table.tableAt m' path = some t) (hpath : Interior sizes (path ++ rest)) :
    table.missingTables m' path rest ≤ table.missingTables m path rest := by
  induction rest generalizing path with
  | nil => rw [missingTables_nil, missingTables_nil]
  | cons i rest ih =>
      have hsplit : path ++ i :: rest = (path ++ [i]) ++ rest := by simp
      rw [hsplit] at hpath
      have hrest := ih hpath
      rw [missingTables_cons, missingTables_cons]
      cases ht : table.tableAt m (path ++ [i]) with
      | none =>
          simp only [Option.isSome_none, Bool.false_eq_true, if_false]
          split <;> omega
      | some t =>
          rw [hkeeps _ t ((prefixClosed_interior sizes).of_append hpath) ht]
          simp only [Option.isSome_some, if_true]
          omega

/-- As many tables are allocated as are missing. -/
theorem Separate.getOrAllocatePagetables_total (h : Separate sizes table tables used s)
    (hinj : InjectiveMapping table.mapping) (htotal : TotalMapping table.mapping)
    {rest : List (Fin 512)} {n : Nat} (hpath : Interior sizes (path ++ rest))
    (ht : table.tableAt s.memory path = some t)
    (hsupply : Supplies (n + table.missingTables s.memory path rest) s.allocator) :
    ∃ last s', MiniatureOs.getOrAllocatePagetables table.mapping parentFlags t rest s =
        .ok (some last, s') ∧
      Supplies n s'.allocator := by
  induction rest generalizing path t s tables used with
  | nil =>
      rw [MappedPageTable.missingTables_nil] at hsupply
      exact ⟨t, s, rfl, hsupply⟩
  | cons i rest ih =>
      have hsplit : path ++ i :: rest = (path ++ [i]) ++ rest := by simp
      rw [hsplit] at hpath
      have hnext := (prefixClosed_interior sizes).of_append hpath
      have hconcat := table.tableAt_concat (m := s.memory) path i
      rw [ht, Option.bind_some] at hconcat
      cases h.edges path i t hnext ht with
      | inl hunused =>
          rw [hunused, child_unused] at hconcat
          have hcount : n + table.missingTables s.memory path (i :: rest) =
              n + table.missingTables s.memory (path ++ [i]) rest + 1 := by
            rw [MappedPageTable.missingTables_cons, hconcat]
            simp only [Option.isSome_none, Bool.false_eq_true, if_false]
            omega
          rw [hcount] at hsupply
          obtain ⟨frame, allocator, halloc, hrest⟩ := hsupply
          obtain ⟨hlt, _, _⟩ := h.fresh.of_some halloc
          obtain ⟨address, hvirtual, haligned⟩ := htotal frame hlt
          obtain ⟨hgrows, hwalk⟩ :=
            h.grows_link hinj halloc hvirtual haligned hnext ht hunused
          have hmissing := MappedPageTable.missingTables_mono hgrows.keeps hpath
          obtain ⟨last, s', hrun, hsupply'⟩ :=
            ih hgrows.separate hpath hwalk (hrest.mono (Nat.add_le_add_left hmissing n))
          refine ⟨last, s', ?_, hsupply'⟩
          rw [MiniatureOs.getOrAllocatePagetables,
            getOrAllocatePagetable_of_alloc hunused halloc hvirtual haligned]
          exact hrun
      | inr hlink =>
          obtain ⟨frame, address, htable, hentry⟩ := hlink
          rw [hentry, htable.child_eq] at hconcat
          rw [MappedPageTable.missingTables_cons, hconcat] at hsupply
          simp only [Option.isSome_some, if_true, Nat.zero_add] at hsupply
          obtain ⟨last, s', hrun, hsupply'⟩ := ih h hpath hconcat hsupply
          refine ⟨last, s', ?_, hsupply'⟩
          rw [MiniatureOs.getOrAllocatePagetables, getOrAllocatePagetable_of_link htable hentry]
          exact hrun

end Tables

end MiniatureOs
