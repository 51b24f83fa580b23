import MiniatureOs.Paging.Separation

/-! # The page table as a map from pages

One specification for each operation in terms of the entry of a page, and from
them what a run of operations may rely on: in every state reached from an empty
root table, mapping and unmapping a page act on the translation of that page
alone.
-/

namespace MiniatureOs

open PageTableFrameMapping

variable {P A : Type} [PageTableFrameMapping P] [FrameAllocator A]
  {sizes : Nat → PageSize} {table : MappedPageTable P}
  {tables used : PhysicalFrame .size4KiB → Prop} {m m' : ByteMemory} {s s' : Machine A}
  {S : PageSize} {page : Page S} {frame : PhysicalFrame S} {flags : PageTableEntryFlags}

namespace MappedPageTable

def pageEntry (table : MappedPageTable P) (m : ByteMemory) (page : Page S) : PageTableEntry :=
  table.dataAt m page.tablePath page.leafIndex

theorem contains_present_leafFlags (S : PageSize) (h : flags.contains .present) :
    (S.leafFlags flags).contains .present := by
  cases S with
  | size4KiB => exact h
  | size2MiB =>
      rw [PageTableEntry.contains_present_eq] at h ⊢
      change (flags.bits ||| PageTableEntryFlags.hugePage.bits).getLsbD 0 = true
      rw [BitVec.getLsbD_or, h, Bool.true_or]

/-- What `translate` makes of an entry. -/
def decode (S : PageSize) (entry : PageTableEntry) :
    Except TranslationError (PhysicalFrame S × PageTableEntryFlags) :=
  if PageTableEntry.isPresent entry then
    .ok (.containingAddress S (PageTableEntry.address entry), PageTableEntry.flags entry)
  else
    .error .notMapped

theorem decode_eq_ok {entry : PageTableEntry} {result : PhysicalFrame S × PageTableEntryFlags}
    (h : decode S entry = .ok result) : PageTableEntry.isPresent entry = true := by
  unfold decode at h
  split at h
  next hpresent => exact hpresent
  next => cases h

theorem decode_setAddress (hlt : frame.address < 2 ^ 48) (hpresent : flags.contains .present) :
    decode S (PageTableEntry.setAddress frame.address flags) = .ok (frame, flags) := by
  have haligned := frame.address_mod
  rw [decode, PageTableEntry.isPresent_setAddress haligned hlt, if_pos hpresent,
    PageTableEntry.address_setAddress haligned hlt, PageTableEntry.flags_setAddress haligned hlt,
    frame.containingAddress_self]

theorem pageEntry_eq {t : Nat} (ht : table.tableAt m page.tablePath = some t) :
    table.pageEntry m page = tableEntry m t page.leafIndex := by
  have hwalk : RadixTree.walk (child table.mapping) (tableEntry m) table.pml4t page.tablePath =
    some t := ht
  rw [pageEntry, dataAt, RadixTree.lookup, hwalk]

theorem pageEntry_eq_unused (ht : table.tableAt m page.tablePath = none) :
    table.pageEntry m page = PageTableEntry.unused := by
  have hwalk : RadixTree.walk (child table.mapping) (tableEntry m) table.pml4t page.tablePath =
    none := ht
  rw [pageEntry, dataAt, RadixTree.lookup, hwalk]

theorem exists_table_of_present (h : PageTableEntry.isPresent (table.pageEntry m page) = true) :
    ∃ t, table.tableAt m page.tablePath = some t := by
  cases ht : table.tableAt m page.tablePath with
  | none =>
      rw [pageEntry_eq_unused ht] at h
      exact absurd h (by decide)
  | some t => exact ⟨t, rfl⟩

end MappedPageTable

open MappedPageTable

/-! ## `translate` -/

theorem WellFormed.translate_eq (h : WellFormed sizes table tables m) (hpage : page.Fits sizes) :
    table.translate page m = .ok (decode S (table.pageEntry m page)) := by
  have hpath : Interior sizes ([] ++ page.tablePath) := hpage.interior_tablePath
  rw [MappedPageTable.translate, h.getPagetables_eq hpath rfl, List.nil_append]
  cases ht : table.tableAt m page.tablePath with
  | none =>
      rw [pageEntry_eq_unused ht]
      rfl
  | some t =>
      rw [pageEntry_eq ht, decode]
      simp only [Checked.ok_bind, Checked.pure_eq_ok]
      split <;> rfl

theorem WellFormed.present_of_translate (h : WellFormed sizes table tables m)
    (hpage : page.Fits sizes) {result : PhysicalFrame S × PageTableEntryFlags}
    (htranslate : table.translate page m = .ok (.ok result)) :
    PageTableEntry.isPresent (table.pageEntry m page) = true := by
  rw [h.translate_eq hpage, Except.ok.injEq] at htranslate
  exact decode_eq_ok htranslate

/-! ## Writing the entry of a page -/

/-- The entry of the page is `entry` afterwards, and no page with another entry
changed. -/
structure UpdatesPage (sizes : Nat → PageSize) (table : MappedPageTable P) (page : Page S)
    (entry : PageTableEntry) (m m' : ByteMemory) : Prop where
  self : table.pageEntry m' page = entry
  others : ∀ {S' : PageSize} (other : Page S'), other.Fits sizes → ¬ other.Aliases page →
    table.pageEntry m' other = table.pageEntry m other

theorem WellFormed.writeEntry (h : WellFormed sizes table tables m) (hpage : page.Fits sizes)
    {t : Nat} (ht : table.tableAt m page.tablePath = some t) (entry : PageTableEntry) :
    WellFormed sizes table tables (m.writeWord (entryAddress t page.leafIndex) entry) ∧
      UpdatesPage sizes table page entry m
        (m.writeWord (entryAddress t page.leafIndex) entry) := by
  have hclosed := prefixClosed_interior sizes
  have hwrites := h.writesData hpage.interior_tablePath hpage.not_interior_leaf ht entry
  refine ⟨⟨hwrites.separated h.separated hclosed, hwrites.edges h.separated hclosed h.edges⟩,
    hwrites.lookup_self h.separated hclosed, fun other hother hne => ?_⟩
  refine hwrites.lookup_other h.separated hclosed hother.interior_tablePath ?_
  rintro ⟨hpath, hleaf⟩
  exact hne (Page.aliases_of_path hpath hleaf)

/-! ## `map_to` -/

/-- `map_to` gets or allocates the tables of the page, and then fails to allocate
one of them, finds the page present, or writes its entry. -/
theorem Separate.mapTo_cases (h : Separate sizes table tables used s)
    (hinj : InjectiveMapping table.mapping) (hpage : page.Fits sizes)
    {result : Except MappingError (TlbFlusher S)}
    (hrun : table.mapTo frame page flags s = .ok (result, s')) :
    ∃ tables' used' s₁, Grows sizes table tables used tables' used' s s₁ ∧
      ((result = .error .frameAllocationFailed ∧ s' = s₁ ∧
          table.tableAt s₁.memory page.tablePath = none) ∨
        (result = .error .pageAlreadyMapped ∧ s' = s₁ ∧
          PageTableEntry.isPresent (table.pageEntry s₁.memory page) = true) ∨
        (result = .ok ⟨page⟩ ∧ PageTableEntry.isPresent (table.pageEntry s₁.memory page) = false ∧
          ∃ t, table.tableAt s₁.memory page.tablePath = some t ∧
            s' = { s₁ with
              memory := s₁.memory.writeWord (entryAddress t page.leafIndex)
                (PageTableEntry.setAddress frame.address (S.leafFlags flags)) })) := by
  have hpath : Interior sizes ([] ++ page.tablePath) := hpage.interior_tablePath
  obtain ⟨⟨last, s₁⟩, htables, hrun⟩ := Checked.bind_eq_ok.mp hrun
  obtain ⟨tables', used', hgrows, hlast⟩ := h.getOrAllocatePagetables hinj hpath rfl htables
  rw [List.nil_append] at hlast
  refine ⟨tables', used', s₁, hgrows, ?_⟩
  cases last with
  | none =>
      simp only [Checked.pure_eq_ok, Except.ok.injEq, Prod.mk.injEq] at hrun
      exact .inl ⟨hrun.1.symm, hrun.2.symm, hlast⟩
  | some t =>
      right
      rw [pageEntry_eq hlast]
      by_cases hpresent : PageTableEntry.isPresent (tableEntry s₁.memory t page.leafIndex)
      · simp only [hpresent, if_true, Checked.pure_eq_ok, Except.ok.injEq, Prod.mk.injEq] at hrun
        exact .inl ⟨hrun.1.symm, hrun.2.symm, hpresent⟩
      · simp only [hpresent, Bool.false_eq_true, if_false, Checked.pure_eq_ok, Except.ok.injEq,
          Prod.mk.injEq] at hrun
        exact .inr ⟨hrun.1.symm, Bool.not_eq_true _ ▸ hpresent, t, hlast, hrun.2.symm⟩

theorem Grows.pageEntry_eq {tables' used' : PhysicalFrame .size4KiB → Prop} {S' : PageSize}
    {other : Page S'} (h : Grows sizes table tables used tables' used' s s')
    (hother : other.Fits sizes) :
    table.pageEntry s'.memory other = table.pageEntry s.memory other :=
  h.sameData _ _ hother.interior_tablePath hother.not_interior_leaf

theorem Extends.writeEntry (h : Separate sizes table tables used s) (hpage : page.Fits sizes)
    {t : Nat} (ht : table.tableAt s.memory page.tablePath = some t) (entry : PageTableEntry) :
    Extends sizes table tables used tables used s
      { s with memory := s.memory.writeWord (entryAddress t page.leafIndex) entry } where
  separate := ⟨(h.toWellFormed.writeEntry hpage ht entry).1, h.tables_used, h.root_used, h.fresh⟩
  tables_mono := fun _ => id
  used_iff := fun frame => ⟨.inl, fun h' => h'.elim id (h.tables_used frame)⟩
  tables_new := fun _ => .inl
  outside := by
    intro x hx
    refine ByteMemory.writeWord_outside fun hin => hx ?_
    exact inTables_entry page.leafIndex.isLt (h.reached hpage.interior_tablePath ht).2 hin

/-- What a call of `map_to` that returns did. -/
inductive MapToOutcome (sizes : Nat → PageSize) (table : MappedPageTable P)
    (frame : PhysicalFrame S) (page : Page S) (flags : PageTableEntryFlags)
    (m m' : ByteMemory) : Except MappingError (TlbFlusher S) → Prop
  | failed (error : MappingError)
      (present_iff : error = .pageAlreadyMapped ↔
        PageTableEntry.isPresent (table.pageEntry m page) = true)
      (same : ∀ {S' : PageSize} (other : Page S'), other.Fits sizes →
        table.pageEntry m' other = table.pageEntry m other) :
      MapToOutcome sizes table frame page flags m m' (.error error)
  | mapped
      (absent : PageTableEntry.isPresent (table.pageEntry m page) = false)
      (updates : UpdatesPage sizes table page
        (PageTableEntry.setAddress frame.address (S.leafFlags flags)) m m') :
      MapToOutcome sizes table frame page flags m m' (.ok ⟨page⟩)

theorem Separate.mapTo_spec (h : Separate sizes table tables used s)
    (hinj : InjectiveMapping table.mapping) (hpage : page.Fits sizes)
    {result : Except MappingError (TlbFlusher S)}
    (hrun : table.mapTo frame page flags s = .ok (result, s')) :
    ∃ tables' used', Extends sizes table tables used tables' used' s s' ∧
      MapToOutcome sizes table frame page flags s.memory s'.memory result := by
  obtain ⟨tables', used', s₁, hgrows, hcases⟩ := h.mapTo_cases hinj hpage hrun
  refine ⟨tables', used', ?_⟩
  rcases hcases with ⟨rfl, rfl, hnone⟩ | ⟨rfl, rfl, hpresent⟩ | ⟨rfl, habsent, t, ht, rfl⟩
  · refine ⟨hgrows.toExtends, .failed _ ?_ fun other hother => hgrows.pageEntry_eq hother⟩
    have hunused := pageEntry_eq_unused hnone
    rw [hgrows.pageEntry_eq hpage] at hunused
    rw [hunused]
    decide
  · refine ⟨hgrows.toExtends, .failed _ ?_ fun other hother => hgrows.pageEntry_eq hother⟩
    rw [hgrows.pageEntry_eq hpage] at hpresent
    simp [hpresent]
  · have hwrite := hgrows.separate.toWellFormed.writeEntry hpage ht
      (PageTableEntry.setAddress frame.address (S.leafFlags flags))
    refine ⟨hgrows.toExtends.trans (Extends.writeEntry hgrows.separate hpage ht _), .mapped ?_ ?_⟩
    · rw [← hgrows.pageEntry_eq hpage, habsent]
    · refine ⟨hwrite.2.self, fun other hother hne => ?_⟩
      rw [hwrite.2.others other hother hne, hgrows.pageEntry_eq hother]

/-- A page that is not mapped can be mapped. -/
theorem Separate.mapTo_total (h : Separate sizes table tables used s)
    (hinj : InjectiveMapping table.mapping) (htotal : TotalMapping table.mapping)
    (frame : PhysicalFrame S) (flags : PageTableEntryFlags) (hpage : page.Fits sizes)
    (habsent : PageTableEntry.isPresent (table.pageEntry s.memory page) = false) {n : Nat}
    (hsupply : Supplies (n + table.missingTables s.memory [] page.tablePath) s.allocator) :
    ∃ s', table.mapTo frame page flags s = .ok (.ok ⟨page⟩, s') ∧ Supplies n s'.allocator ∧
      ∃ t, table.tableAt s'.memory page.tablePath = some t := by
  have hpath : Interior sizes ([] ++ page.tablePath) := hpage.interior_tablePath
  obtain ⟨last, s₁, htables, hsupply₁⟩ :=
    h.getOrAllocatePagetables_total hinj htotal hpath rfl hsupply
  obtain ⟨tables', used', hgrows, hlast⟩ := h.getOrAllocatePagetables hinj hpath rfl htables
  rw [List.nil_append] at hlast
  have hentry : PageTableEntry.isPresent (tableEntry s₁.memory last page.leafIndex) = false := by
    rw [← pageEntry_eq hlast, hgrows.pageEntry_eq hpage]
    exact habsent
  refine ⟨{ s₁ with
    memory := s₁.memory.writeWord (entryAddress last page.leafIndex)
      (PageTableEntry.setAddress frame.address (S.leafFlags flags)) }, ?_, hsupply₁, last, ?_⟩
  · simp only [MappedPageTable.mapTo, htables, Checked.ok_bind, hentry, Bool.false_eq_true,
      if_false, Checked.pure_eq_ok]
  · have hwrites := hgrows.separate.toWellFormed.writesData hpage.interior_tablePath
      hpage.not_interior_leaf hlast
      (PageTableEntry.setAddress frame.address (S.leafFlags flags))
    exact (hwrites.walk_eq hgrows.separate.separated (prefixClosed_interior sizes)
      hpage.interior_tablePath).trans hlast

/-! ## Page after page -/

/-- The first `k` pages of a sequence have their entries, and no page with another entry
changed. -/
structure FillsPages (sizes : Nat → PageSize) (table : MappedPageTable P) (pages : Nat → Page S)
    (entry : Nat → PageTableEntry) (k : Nat) (m m' : ByteMemory) : Prop where
  entries : ∀ j < k, table.pageEntry m' (pages j) = entry j
  others : ∀ {S' : PageSize} (other : Page S'), other.Fits sizes →
    (∀ j < k, ¬ other.Aliases (pages j)) → table.pageEntry m' other = table.pageEntry m other

section Fills

variable {pages : Nat → Page S} {entry entry' : Nat → PageTableEntry} {k : Nat}
  {m₁ m₂ : ByteMemory}

theorem FillsPages.zero : FillsPages sizes table pages entry 0 m m where
  entries := fun j hj => absurd hj (Nat.not_lt_zero j)
  others := fun _ _ _ => rfl

theorem FillsPages.succ (h : FillsPages sizes table pages entry k m m₁)
    (hupdates : UpdatesPage sizes table (pages k) (entry k) m₁ m₂)
    (hfits : ∀ j < k, (pages j).Fits sizes)
    (hapart : ∀ j < k, ¬ (pages j).Aliases (pages k)) :
    FillsPages sizes table pages entry (k + 1) m m₂ where
  entries := by
    intro j hj
    cases Nat.lt_or_eq_of_le (Nat.le_of_lt_succ hj) with
    | inl hlt =>
        rw [hupdates.others _ (hfits j hlt) (hapart j hlt)]
        exact h.entries j hlt
    | inr heq =>
        rw [heq]
        exact hupdates.self
  others := by
    intro S' other hother hne
    rw [hupdates.others other hother (hne k (Nat.lt_succ_self k))]
    exact h.others other hother fun j hj => hne j (Nat.lt_succ_of_lt hj)

theorem FillsPages.imp (h : FillsPages sizes table pages entry k m m₁)
    (hsame : ∀ j < k, entry j = entry' j) : FillsPages sizes table pages entry' k m m₁ where
  entries := fun j hj => (h.entries j hj).trans (hsame j hj)
  others := h.others

end Fills

/-! ## `unmap` -/

theorem WellFormed.unmap_eq (h : WellFormed sizes table tables m) (hpage : page.Fits sizes)
    (hpresent : PageTableEntry.isPresent (table.pageEntry m page) = true) :
    ∃ t, table.tableAt m page.tablePath = some t ∧
      table.unmap page m = .ok (.ok (.containingAddress S 0, ⟨page⟩),
        m.writeWord (entryAddress t page.leafIndex) PageTableEntry.unused) := by
  obtain ⟨t, ht⟩ := exists_table_of_present hpresent
  have hpath : Interior sizes ([] ++ page.tablePath) := hpage.interior_tablePath
  have hcleared : tableEntry (m.writeWord (entryAddress t page.leafIndex) PageTableEntry.unused) t
      page.leafIndex = PageTableEntry.unused := ByteMemory.readWord_writeWord _ _ _
  rw [pageEntry_eq ht] at hpresent
  refine ⟨t, ht, ?_⟩
  rw [MappedPageTable.unmap, h.getPagetables_eq hpath rfl, List.nil_append, ht]
  simp only [Checked.ok_bind, Checked.unwrap, PageTableEntry.contains_present_flags, hpresent,
    Bool.not_true, Bool.false_eq_true, if_false, hcleared, Checked.pure_eq_ok]
  rfl

theorem WellFormed.mapTo_of_present (h : WellFormed sizes table tables s.memory)
    (hpage : page.Fits sizes)
    (hpresent : PageTableEntry.isPresent (table.pageEntry s.memory page) = true) :
    table.mapTo frame page flags s = .ok (.error .pageAlreadyMapped, s) := by
  obtain ⟨t, ht⟩ := exists_table_of_present hpresent
  have hpath : Interior sizes ([] ++ page.tablePath) := hpage.interior_tablePath
  rw [pageEntry_eq ht] at hpresent
  rw [MappedPageTable.mapTo, h.getOrAllocatePagetables_eq hpath rfl ht]
  simp only [Checked.ok_bind, hpresent, if_true, Checked.pure_eq_ok]

theorem PhysicalOffset.injectiveMapping (mapping : PhysicalOffset) : InjectiveMapping mapping := by
  intro f g address hf hg
  have hf' := (Checked.add_eq_ok.mp hf).2
  have hg' := (Checked.add_eq_ok.mp hg).2
  ext
  omega

theorem PhysicalOffset.totalMapping {mapping : PhysicalOffset}
    (hfits : mapping.offset + 2 ^ 48 ≤ 2 ^ 64) (haligned : mapping.offset % 4096 = 0) :
    TotalMapping mapping := by
  intro frame hlt
  have hframe : frame.address % 4096 = 0 := frame.aligned
  exact ⟨_, Checked.add_of_lt (by omega), by omega⟩

/-! ## Runs of operations -/

/-- The states that sequences of `map_to` and `unmap` calls reach, when every
slot of 2 MiB is used with one page size, frames are below `2 ^ 48` and only
mapped pages are unmapped. -/
inductive MappedPageTable.Reaches (sizes : Nat → PageSize) (table : MappedPageTable P)
    (start : Machine A) :
    Machine A → Prop
  | start : Reaches sizes table start start
  | mapTo {s s' : Machine A} {S : PageSize} {frame : PhysicalFrame S} {page : Page S}
      {flags : PageTableEntryFlags} {result : Except MappingError (TlbFlusher S)}
      (before : Reaches sizes table start s) (fits : page.Fits sizes)
      (below : frame.address < 2 ^ 48)
      (call : table.mapTo frame page flags s = .ok (result, s')) :
      Reaches sizes table start s'
  | unmap {s : Machine A} {S : PageSize} {page : Page S} {memory : ByteMemory}
      {mapped : PhysicalFrame S × PageTableEntryFlags}
      {result : Except UnmappingError (PhysicalFrame S × TlbFlusher S)}
      (before : Reaches sizes table start s) (fits : page.Fits sizes)
      (isMapped : table.translate page s.memory = .ok (.ok mapped))
      (call : table.unmap page s.memory = .ok (result, memory)) :
      Reaches sizes table start { s with memory }

def OthersUnchanged (sizes : Nat → PageSize) (table : MappedPageTable P) (page : Page S)
    (m m' : ByteMemory) : Prop :=
  ∀ {S' : PageSize} (other : Page S'), Canonical other.address → other.Fits sizes →
    (⟨S', other⟩ : Σ S, Page S) ≠ ⟨S, page⟩ → table.translate other m' = table.translate other m

/-- The next operation acts on the translations as on a map from pages. -/
structure ActsAsMap (sizes : Nat → PageSize) (table : MappedPageTable P) (s : Machine A) :
    Prop where
  mapTo_ok : ∀ {S : PageSize} {frame : PhysicalFrame S} {page : Page S}
    {flags : PageTableEntryFlags} {flusher : TlbFlusher S} {s' : Machine A},
    Canonical page.address → page.Fits sizes → frame.address < 2 ^ 48 →
    flags.contains .present → table.mapTo frame page flags s = .ok (.ok flusher, s') →
    table.translate page s'.memory = .ok (.ok (frame, S.leafFlags flags)) ∧
      OthersUnchanged sizes table page s.memory s'.memory
  mapTo_present : ∀ {S : PageSize} {frame : PhysicalFrame S} {page : Page S}
    {flags : PageTableEntryFlags} {mapped : PhysicalFrame S × PageTableEntryFlags},
    page.Fits sizes → table.translate page s.memory = .ok (.ok mapped) →
    table.mapTo frame page flags s = .ok (.error .pageAlreadyMapped, s)
  mapTo_error : ∀ {S : PageSize} {frame : PhysicalFrame S} {page : Page S}
    {flags : PageTableEntryFlags} {error : MappingError} {s' : Machine A},
    page.Fits sizes → table.mapTo frame page flags s = .ok (.error error, s') →
    ∀ {S' : PageSize} (other : Page S'), other.Fits sizes →
      table.translate other s'.memory = table.translate other s.memory
  unmap_ok : ∀ {S : PageSize} {page : Page S} {mapped : PhysicalFrame S × PageTableEntryFlags},
    Canonical page.address → page.Fits sizes →
    table.translate page s.memory = .ok (.ok mapped) →
    ∃ result memory, table.unmap page s.memory = .ok (.ok result, memory) ∧
      table.translate page memory = .ok (.error .notMapped) ∧
      OthersUnchanged sizes table page s.memory memory

structure Fresh (table : MappedPageTable P) (s : Machine A) : Prop where
  empty : ∀ i, tableEntry s.memory table.pml4t i = PageTableEntry.unused
  fresh : ReturnsFresh (fun frame => frameToVirtual table.mapping frame = .ok table.pml4t)
    s.allocator

theorem Fresh.separate (h : Fresh table s) :
    Separate sizes table (fun _ => False)
      (fun frame => frameToVirtual table.mapping frame = .ok table.pml4t) s := by
  -- no entry of the root points anywhere, so only the empty path leads to a table
  have hnil : ∀ path t, table.tableAt s.memory path = some t → path = [] := by
    intro path t ht
    cases path with
    | nil => rfl
    | cons i rest =>
        simp only [MappedPageTable.tableAt, RadixTree.walk, h.empty, child_unused] at ht
        cases ht
  refine ⟨⟨?_, ?_⟩, fun _ => False.elim, fun _ => id, h.fresh⟩
  · intro p q t _ _ hp hq
    rw [hnil p t hp, hnil q t hq]
  · intro path i t _ ht
    obtain rfl := hnil path t ht
    obtain rfl : table.pml4t = t := Option.some.inj ht
    exact .inl (h.empty i)

theorem MappedPageTable.Reaches.separate {start : Machine A} (hinj : InjectiveMapping table.mapping)
    (hstart : Fresh table start) (hreach : Reaches sizes table start s) :
    ∃ tables used, Separate sizes table tables used s := by
  induction hreach with
  | start => exact ⟨_, _, hstart.separate⟩
  | mapTo _ fits _ call ih =>
      obtain ⟨tables, used, h⟩ := ih
      obtain ⟨tables', used', hextends, -⟩ := h.mapTo_spec hinj fits call
      exact ⟨tables', used', hextends.separate⟩
  | unmap _ fits isMapped call ih =>
      obtain ⟨tables, used, h⟩ := ih
      obtain ⟨t, ht, hunmap⟩ := h.toWellFormed.unmap_eq fits (h.present_of_translate fits isMapped)
      rw [hunmap, Except.ok.injEq, Prod.mk.injEq] at call
      obtain ⟨-, rfl⟩ := call
      exact ⟨tables, used, (Extends.writeEntry h fits ht _).separate⟩

theorem UpdatesPage.othersUnchanged {tables' : PhysicalFrame .size4KiB → Prop}
    {entry : PageTableEntry} (h : UpdatesPage sizes table page entry m m')
    (hm : WellFormed sizes table tables m) (hm' : WellFormed sizes table tables' m')
    (hpage : Canonical page.address) : OthersUnchanged sizes table page m m' := by
  intro S' other hcanonical hother hne
  have halias : ¬ other.Aliases page := fun halias => hne (halias.eq hcanonical hpage)
  rw [hm.translate_eq hother, hm'.translate_eq hother, h.others other hother halias]

theorem Separate.actsAsMap (h : Separate sizes table tables used s)
    (hinj : InjectiveMapping table.mapping) : ActsAsMap sizes table s where
  mapTo_ok := by
    intro S frame page flags flusher s' hcanonical hpage hlt hpresent hrun
    obtain ⟨tables', used', hextends, houtcome⟩ := h.mapTo_spec hinj hpage hrun
    have hs' := hextends.separate.toWellFormed
    cases houtcome with
    | mapped absent updates =>
        refine ⟨?_, updates.othersUnchanged h.toWellFormed hs' hcanonical⟩
        rw [hs'.translate_eq hpage, updates.self, decode_setAddress hlt]
        exact contains_present_leafFlags S hpresent
  mapTo_present := fun hpage hmapped =>
    h.toWellFormed.mapTo_of_present hpage (h.present_of_translate hpage hmapped)
  mapTo_error := by
    intro S frame page flags error s' hpage hrun S' other hother
    obtain ⟨tables', used', hextends, houtcome⟩ := h.mapTo_spec hinj hpage hrun
    cases houtcome with
    | failed _ _ same =>
        rw [h.translate_eq hother, hextends.separate.translate_eq hother, same other hother]
  unmap_ok := by
    intro S page mapped hcanonical hpage hmapped
    obtain ⟨t, ht, hunmap⟩ :=
      h.toWellFormed.unmap_eq hpage (h.present_of_translate hpage hmapped)
    obtain ⟨hwell, hupdates⟩ := h.toWellFormed.writeEntry hpage ht PageTableEntry.unused
    refine ⟨_, _, hunmap, ?_, hupdates.othersUnchanged h.toWellFormed hwell hcanonical⟩
    rw [hwell.translate_eq hpage, hupdates.self]
    rfl

/-- The page table refines a map from pages to frames and flags. -/
theorem actsAsMap_of_reaches {start : Machine A} (hinj : InjectiveMapping table.mapping)
    (hstart : Fresh table start) (hreach : Reaches sizes table start s) :
    ActsAsMap sizes table s := by
  obtain ⟨tables, used, h⟩ := hreach.separate hinj hstart
  exact h.actsAsMap hinj

/-! ## A run -/

def lowTable : MappedPageTable PhysicalOffset := ⟨⟨0⟩, 0x1000, rfl⟩

/-- Zeroed memory, and `count` free frames from 1 MiB on. -/
def zeroedMachine (count : Nat) : Machine (BumpFrameAllocator PhysicalMemoryRegion) :=
  ⟨fun _ => 0, .new [⟨0x100000, count * 0x1000, .free⟩]⟩

def lowMachine : Machine (BumpFrameAllocator PhysicalMemoryRegion) :=
  ⟨fun _ => 0, .new [⟨0x100000, 0x10000, .free⟩]⟩

theorem pageAligned_frames (count : Nat) : MemoryRegion.PageAligned
    (⟨0x100000, count * 0x1000, .free⟩ : PhysicalMemoryRegion) := by
  change 0x100000 % 0x1000 = 0 ∧ count * 0x1000 % 0x1000 = 0
  exact ⟨rfl, Nat.mul_mod_left _ _⟩

theorem zeroedMachine_frame {count : Nat} {frame : PhysicalFrame .size4KiB}
    (h : frame ∈ BumpFrameAllocator.usableFrames
      (BumpFrameAllocator.reachable (zeroedMachine count).allocator.memoryMap)) :
    0x100000 ≤ frame.address ∧ frame.address + 0x1000 ≤ 0x100000 + count * 0x1000 := by
  obtain ⟨region, hregion, -, hframe⟩ := BumpFrameAllocator.mem_usableFrames.mp h
  obtain rfl := List.mem_singleton.mp ((List.takeWhile_sublist _).subset hregion)
  exact (BumpFrameAllocator.mem_regionFrames_of_aligned (pageAligned_frames count)).mp hframe

theorem fresh_zeroedMachine {count : Nat} (h : count ≤ 2 ^ 20) :
    Fresh lowTable (zeroedMachine count) where
  empty := fun _ => ByteMemory.readWord_of_zero fun _ _ _ => rfl
  fresh := by
    refine BumpFrameAllocator.returnsFresh ?_ fun frame hframe => ?_
    · refine BumpFrameAllocator.usableFrames_nodup ?_ fun region hregion _ _ => ?_
      · exact (List.pairwise_singleton _ _).sublist (List.takeWhile_sublist _)
      · obtain rfl := List.mem_singleton.mp ((List.takeWhile_sublist _).subset hregion)
        exact pageAligned_frames count
    · obtain ⟨hlow, hhigh⟩ := zeroedMachine_frame hframe
      refine ⟨by omega, fun hvirtual => ?_⟩
      have haddress : 0x1000 = 0 + frame.address := (Checked.add_eq_ok.mp hvirtual).2
      omega

theorem lowMachine_frame {frame : PhysicalFrame .size4KiB}
    (h : frame ∈ BumpFrameAllocator.usableFrames
      (BumpFrameAllocator.reachable lowMachine.allocator.memoryMap)) :
    0x100000 ≤ frame.address ∧ frame.address + 0x1000 ≤ 0x110000 :=
  @zeroedMachine_frame 16 frame h

theorem fresh_lowMachine : Fresh lowTable lowMachine :=
  @fresh_zeroedMachine 16 (by decide)

theorem actsAsMap_after_one_page :
    ∃ s flusher, lowTable.mapTo (.containingAddress .size4KiB 0x200000)
        (.containingAddress .size4KiB 0xffffffff80000000) .present lowMachine =
          .ok (.ok flusher, s) ∧
      ActsAsMap (fun _ => .size4KiB) lowTable s := by
  have hcall : (lowTable.mapTo (.containingAddress .size4KiB 0x200000)
      (.containingAddress .size4KiB 0xffffffff80000000) .present lowMachine).toOption.map (·.1) =
        some (.ok ⟨.containingAddress .size4KiB 0xffffffff80000000⟩) := by
    decide +kernel
  obtain ⟨⟨result, s⟩, hrun, rfl⟩ := Checked.exists_of_toOption hcall
  exact ⟨s, _, hrun, actsAsMap_of_reaches (PhysicalOffset.injectiveMapping _) fresh_lowMachine
    (.mapTo .start rfl (by decide) hrun)⟩

end MiniatureOs
