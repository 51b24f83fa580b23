import MiniatureOs.Boot.Start
import MiniatureOs.Elf.Returns
import MiniatureOs.Paging.Slots

/-! # All of physical memory at an offset

`map_complete_physical_memory_space_into_kernel` maps one large page after another.
What a round may rely on is that the earlier ones changed no entry but their own, and
that the tables it needs are there or a frame for them is. Through the pages the kernel
sees the tables at an offset, with the entries that stage 4 sees at their own addresses.
-/

namespace MiniatureOs

open PageTableFrameMapping MappedPageTable

/-! ## Pages and tables of the range -/

/-- The sizes of the slots when those of `[offset, offset + highest]` have large pages. -/
def completeSizes (sizes : Nat → PageSize) (offset highest slot : Nat) : PageSize :=
  if offset / 2 ^ 21 ≤ slot ∧ slot ≤ (offset + highest) / 2 ^ 21 then .size2MiB else sizes slot

/-- One for each table of level 3 and level 2 that covers a part of the range. -/
def tablesOver (offset highest : Nat) : Nat :=
  ((offset + highest) / 2 ^ 39 - offset / 2 ^ 39 + 1) +
    ((offset + highest) / 2 ^ 30 - offset / 2 ^ 30 + 1)

def tablesBehind (offset highest k : Nat) : Nat :=
  ((offset + highest) / 2 ^ 39 - (offset + k * 2 ^ 21) / 2 ^ 39) +
    ((offset + highest) / 2 ^ 30 - (offset + k * 2 ^ 21) / 2 ^ 30)

def offsetPage (offset k : Nat) : Page .size2MiB :=
  .containingAddress .size2MiB (offset + k * 2 ^ 21)

def largeFrame (k : Nat) : PhysicalFrame .size2MiB := .containingAddress .size2MiB (k * 2 ^ 21)

structure OffsetRange (offset highest : Nat) : Prop where
  aligned : offset % 2 ^ 21 = 0
  fits : offset + highest + 2 ^ 21 ≤ 2 ^ 47

section Pages

variable {offset highest k p : Nat}

theorem offsetPage_address (h : offset % 2 ^ 21 = 0) :
    (offsetPage offset k).address = offset + k * 2 ^ 21 :=
  alignDown_of_mod (by simp only [PageSize.size]; omega)

theorem largeFrame_address (k : Nat) : (largeFrame k).address = k * 2 ^ 21 :=
  alignDown_of_mod (Nat.mul_mod_left k _)

theorem containingAddress_offset (h : offset % 2 ^ 21 = 0) :
    Page.containingAddress .size2MiB (offset + p) = offsetPage offset (p / 2 ^ 21) := by
  ext
  rw [offsetPage_address h]
  simp only [Page.containingAddress_address, alignDown, PageSize.size]
  omega

theorem containingAddress_frame :
    PhysicalFrame.containingAddress .size2MiB p = largeFrame (p / 2 ^ 21) := by
  ext
  rw [largeFrame_address]
  simp only [PhysicalFrame.containingAddress_address, alignDown, PageSize.size]
  omega

namespace OffsetRange

theorem page_le (h : OffsetRange offset highest) (hk : k ≤ highest / 2 ^ 21) :
    offset + k * 2 ^ 21 ≤ offset + highest ∧ offset + highest < 2 ^ 47 := by
  have hfits := h.fits
  omega

theorem slotOf_page (h : OffsetRange offset highest) (hk : k ≤ highest / 2 ^ 21) :
    slotOf (offsetPage offset k).address = offset / 2 ^ 21 + k := by
  have hle := h.page_le hk
  have haligned := h.aligned
  rw [offsetPage_address haligned, slotOf]
  omega

theorem page_fits (h : OffsetRange offset highest) (hk : k ≤ highest / 2 ^ 21)
    (sizes : Nat → PageSize) :
    (offsetPage offset k).Fits (completeSizes sizes offset highest) := by
  have haligned := h.aligned
  rw [Page.Fits, h.slotOf_page hk, completeSizes, if_pos]
  omega

theorem not_aliases (h : OffsetRange offset highest) {j : Nat} (hj : j < k)
    (hk : k ≤ highest / 2 ^ 21) : ¬ (offsetPage offset k).Aliases (offsetPage offset j) := by
  intro halias
  have hslot := h.slotOf_page hk
  rw [halias.slotOf_eq, h.slotOf_page (by omega)] at hslot
  omega

end OffsetRange

end Pages

/-! ## The tables that are still needed -/

section Supply

variable {P : Type} [PageTableFrameMapping P] {table : MappedPageTable P} {m : ByteMemory}
  {i j : Fin 512} {t : Nat}

theorem tableAt_of_concat (h : table.tableAt m [i, j] = some t) :
    ∃ t', table.tableAt m [i] = some t' := by
  have hconcat := table.tableAt_concat (m := m) [i] j
  rw [List.singleton_append, h] at hconcat
  obtain ⟨t', ht', _⟩ := Option.bind_eq_some_iff.mp hconcat.symm
  exact ⟨t', ht'⟩

theorem missingTables_pair : table.missingTables m [] [i, j] =
    (if (table.tableAt m [i]).isSome then 0 else 1) +
      (if (table.tableAt m [i, j]).isSome then 0 else 1) := by
  rw [missingTables_cons, missingTables_cons, missingTables_nil, Nat.add_zero, List.nil_append,
    List.singleton_append]

/-- Behind a page whose tables are there, only the tables that begin are missing. -/
theorem missingTables_next {offset highest k : Nat} (h : OffsetRange offset highest)
    (hk : k + 1 ≤ highest / 2 ^ 21)
    (ht : table.tableAt m (offsetPage offset k).tablePath = some t) :
    tablesBehind offset highest (k + 1) +
      table.missingTables m [] (offsetPage offset (k + 1)).tablePath ≤
        tablesBehind offset highest k := by
  have haligned := h.aligned
  have hle := h.page_le hk
  have hnext : offset + (k + 1) * 2 ^ 21 = offset + k * 2 ^ 21 + 2 ^ 21 := by omega
  have hpath : ∀ k, (offsetPage offset k).tablePath =
      [l4Index (offset + k * 2 ^ 21), l3Index (offset + k * 2 ^ 21)] := by
    intro k
    rw [Page.tablePath, offsetPage_address haligned]
  have hbound := @missingTables_le _ _ table m [] (offsetPage offset (k + 1)).tablePath
  rw [hpath] at ht
  rw [hpath, List.length_cons, List.length_singleton] at hbound
  rw [hpath, tablesBehind, tablesBehind, hnext]
  rw [hnext] at hle hbound
  obtain ⟨x, hx⟩ : ∃ x, x = offset + k * 2 ^ 21 := ⟨_, rfl⟩
  rw [← hx] at ht hle hbound ⊢
  obtain ⟨t', ht'⟩ := tableAt_of_concat ht
  by_cases hl3 : (x + 2 ^ 21) / 2 ^ 30 = x / 2 ^ 30
  · have hl4 : (x + 2 ^ 21) / 2 ^ 39 = x / 2 ^ 39 := by omega
    have h3 : l3Index (x + 2 ^ 21) = l3Index x := Fin.ext (by simp only [l3Index, hl3])
    have h4 : l4Index (x + 2 ^ 21) = l4Index x := Fin.ext (by simp only [l4Index, hl4])
    rw [missingTables_pair, h3, h4, ht, ht', hl3, hl4]
    exact Nat.le_refl _
  · by_cases hl4 : (x + 2 ^ 21) / 2 ^ 39 = x / 2 ^ 39
    · have h4 : l4Index (x + 2 ^ 21) = l4Index x := Fin.ext (by simp only [l4Index, hl4])
      rw [missingTables_pair, h4, ht', hl4]
      simp only [Option.isSome_some, if_true]
      split <;> omega
    · omega

end Supply

/-! ## The loop -/

section Loop

variable {A : Type} [FrameAllocator A] {sizes : Nat → PageSize}
  {table : MappedPageTable PhysicalOffset} {tables used : PhysicalFrame .size4KiB → Prop}
  {s s₁ : Machine A} {offset highest k : Nat}

def physicalFlags : PageTableEntryFlags := .present ||| .writable ||| .noExecute

def largeEntry (k : Nat) : PageTableEntry :=
  .setAddress (largeFrame k).address (PageSize.size2MiB.leafFlags physicalFlags)

/-- The first `k` pages are mapped, and nothing else has changed. -/
structure MappedUpTo (sizes : Nat → PageSize) (table : MappedPageTable PhysicalOffset)
    (tables used : PhysicalFrame .size4KiB → Prop) (offset highest k : Nat)
    (s s₁ : Machine A) : Prop where
  grown : ∃ tables' used', Extends sizes table tables used tables' used' s s₁
  filled : FillsPages sizes table (offsetPage offset) largeEntry k s.memory s₁.memory
  supply : k ≤ highest / 2 ^ 21 → ∃ n, Supplies n s₁.allocator ∧
    tablesBehind offset highest k +
      table.missingTables s₁.memory [] (offsetPage offset k).tablePath ≤ n

theorem MappedUpTo.zero (h : Separate sizes table tables used s) {n : Nat}
    (hsupply : Supplies n s.allocator) (hn : tablesOver offset highest ≤ n) :
    MappedUpTo sizes table tables used offset highest 0 s s where
  grown := ⟨tables, used, (Grows.of_memory_eq h rfl h.fresh).toExtends⟩
  filled := .zero
  supply := by
    intro _
    have hmissing := @missingTables_le _ _ table s.memory [] (offsetPage offset 0).tablePath
    have hlength : (offsetPage offset 0).tablePath.length = 2 := rfl
    have hbehind : tablesBehind offset highest 0 + 2 = tablesOver offset highest := by
      rw [tablesBehind, tablesOver, Nat.zero_mul, Nat.add_zero]
      omega
    exact ⟨n, hsupply, by omega⟩

theorem MappedUpTo.step (h : MappedUpTo (completeSizes sizes offset highest) table tables used
      offset highest k s s₁)
    (hrange : OffsetRange offset highest) (hzero : table.mapping.offset = 0)
    (hk : k ≤ highest / 2 ^ 21)
    (habsent : PageTableEntry.isPresent
      (table.pageEntry s.memory (offsetPage offset k)) = false) :
    ∃ s₂, mapPhysicalFrame table offset (largeFrame k) s₁ = .ok s₂ ∧
      MappedUpTo (completeSizes sizes offset highest) table tables used offset highest (k + 1)
        s s₂ := by
  obtain ⟨tables₁, used₁, hextends₁⟩ := h.grown
  have hinj := PhysicalOffset.injectiveMapping table.mapping
  have htotal : TotalMapping table.mapping :=
    PhysicalOffset.totalMapping (by omega) (by omega)
  have hfits := hrange.page_fits hk sizes
  have hsame := h.filled.others (offsetPage offset k) hfits fun j hj => hrange.not_aliases hj hk
  obtain ⟨n, hn, hle⟩ := h.supply hk
  obtain ⟨rest, hrest⟩ : ∃ rest, rest = tablesBehind offset highest k := ⟨_, rfl⟩
  rw [← hrest] at hle
  obtain ⟨s₂, hmap, hsupply, t, ht⟩ := hextends₁.separate.mapTo_total hinj htotal (largeFrame k)
    physicalFlags hfits (by rw [hsame]; exact habsent) (hn.mono hle)
  obtain ⟨tables₂, used₂, hextends₂, houtcome⟩ := hextends₁.separate.mapTo_spec hinj hfits hmap
  refine ⟨s₂, ?_, ?_⟩
  · have hadd : Checked.add 64 offset (largeFrame k).address = .ok (offset + k * 2 ^ 21) := by
      have hle := hrange.page_le hk
      rw [largeFrame_address]
      exact Checked.add_of_lt (by omega)
    have hrun : table.mapTo (largeFrame k) (.containingAddress .size2MiB (offset + k * 2 ^ 21))
        (.present ||| .writable ||| .noExecute) s₁ = .ok (.ok ⟨offsetPage offset k⟩, s₂) := hmap
    simp only [mapPhysicalFrame, hadd, Checked.ok_bind, MappedPageTable.expectMapTo, hrun,
      expectOk, Checked.pure_eq_ok]
  · cases houtcome with
    | mapped _ updates =>
        constructor
        · exact ⟨tables₂, used₂, hextends₁.trans hextends₂⟩
        · apply h.filled.succ updates
          · exact fun j hj => hrange.page_fits (by omega) sizes
          · exact fun j hj halias => hrange.not_aliases hj hk halias.symm
        · intro hnext
          refine ⟨rest, hsupply, ?_⟩
          rw [hrest]
          exact missingTables_next hrange hnext ht

theorem mapComplete_upTo
    (h : Separate (completeSizes sizes offset highest) table tables used s)
    (hrange : OffsetRange offset highest) (hzero : table.mapping.offset = 0)
    (habsent : ∀ k ≤ highest / 2 ^ 21, PageTableEntry.isPresent
      (table.pageEntry s.memory (offsetPage offset k)) = false)
    {n : Nat} (hsupply : Supplies n s.allocator) (hn : tablesOver offset highest ≤ n) :
    ∃ s', mapCompletePhysicalMemorySpaceIntoKernel table highest offset s = .ok s' ∧
      MappedUpTo (completeSizes sizes offset highest) table tables used offset highest
        (highest / 2 ^ 21 + 1) s s' := by
  have hfits := hrange.fits
  have hfirst : (PhysicalFrame.containingAddress .size2MiB 0).address = 0 := rfl
  have hlast : (PhysicalFrame.containingAddress .size2MiB highest).address =
      highest / 2 ^ 21 * 2 ^ 21 := by
    rw [containingAddress_frame, largeFrame_address]
  have hcount : RangeOf .size2MiB 0 (highest / 2 ^ 21 * 2 ^ 21) (highest / 2 ^ 21 + 1) := by
    simp only [RangeOf, PageSize.size]
    omega
  have hassert : (offset % PageSize.size2MiB.size == 0) = true := by
    simpa [PageSize.size] using hrange.aligned
  rw [mapCompletePhysicalMemorySpaceIntoKernel, Checked.assert, if_pos hassert, Checked.ok_bind,
    PhysicalFrame.forRange, hfirst, hlast]
  have hstart := MappedUpTo.zero h hsupply hn
  apply rangeLoop_total (I := fun k s₁ => MappedUpTo (completeSizes sizes offset highest) table
    tables used offset highest k s s₁) hcount _ (by simp only [PageSize.size]; omega) hstart
  intro k s₁ hk hmapped
  have hframe : PhysicalFrame.containingAddress .size2MiB (0 + k * PageSize.size2MiB.size) =
      largeFrame k := by
    rw [Nat.zero_add]
    rfl
  rw [hframe]
  exact hmapped.step hrange hzero (by omega) (habsent k (by omega))

end Loop

/-! ## What the kernel sees -/

section View

variable {A : Type} [FrameAllocator A] {sizes : Nat → PageSize}
  {table : MappedPageTable PhysicalOffset} {tables used : PhysicalFrame .size4KiB → Prop}
  {m view : ByteMemory} {offset highest : Nat}

def pageByte (S : PageSize) (table : MappedPageTable PhysicalOffset) (m : ByteMemory)
    (address : Nat) : UInt8 :=
  match table.translate (.containingAddress S address) m with
  | .ok (.ok (frame, _)) => m (frame.address + address % S.size)
  | _ => 0

def virtualMemory (sizes : Nat → PageSize) (table : MappedPageTable PhysicalOffset)
    (m : ByteMemory) : ByteMemory :=
  fun address => pageByte (sizes (slotOf address)) table m address

/-- The tables along a path through `PhysicalOffset(offset)` are those through
`PhysicalOffset(0)`, and so are their entries. -/
def SameWalk (sizes : Nat → PageSize) (table : MappedPageTable PhysicalOffset) (offset : Nat)
    (m : ByteMemory) : Prop :=
  ∀ path, Interior sizes path → ∃ last,
    getPagetables table.mapping m table.pml4t path = .ok last ∧
    getPagetables (⟨offset⟩ : PhysicalOffset) (virtualMemory sizes table m)
      (offset + table.pml4t) path = .ok (last.map (offset + ·)) ∧
    ∀ t, last = some t → ∀ i,
      tableEntry (virtualMemory sizes table m) (offset + t) i = tableEntry m t i

theorem virtualMemory_of_translate {page : Page .size2MiB} (hfits : page.Fits sizes)
    {frame : PhysicalFrame .size2MiB} {flags : PageTableEntryFlags}
    (h : table.translate page m = .ok (.ok (frame, flags))) {i : Nat} (hi : i < 2 ^ 21) :
    virtualMemory sizes table m (page.address + i) = m (frame.address + i) := by
  have haligned := page.aligned
  have hslot : slotOf (page.address + i) = slotOf page.address := by
    simp only [PageSize.size] at haligned
    unfold slotOf
    omega
  have hpage : Page.containingAddress .size2MiB (page.address + i) = page := by
    ext
    simp only [Page.containingAddress_address, alignDown, PageSize.size] at haligned ⊢
    omega
  have hoffset : (page.address + i) % PageSize.size2MiB.size = i := by
    simp only [PageSize.size] at haligned ⊢
    omega
  rw [virtualMemory, hslot, hfits, pageByte, hpage, h]
  simp only [hoffset]

theorem tableEntry_seen (haligned : offset % 2 ^ 21 = 0) {t : Nat} (ht : t % 4096 = 0)
    (hseen : ∀ i < 2 ^ 21, view ((offsetPage offset (t / 2 ^ 21)).address + i) =
      m ((largeFrame (t / 2 ^ 21)).address + i)) (i : Fin 512) :
    tableEntry view (offset + t) i = tableEntry m t i := by
  have hi := i.isLt
  rw [offsetPage_address haligned, largeFrame_address] at hseen
  have hbytes : view.bytes (entryAddress (offset + t) i) 8 = m.bytes (entryAddress t i) 8 := by
    refine ByteMemory.bytes_eq_iff.mpr fun j hj => ?_
    have hbyte := hseen (t % 2 ^ 21 + 8 * i + j) (by omega)
    have hview : offset + t / 2 ^ 21 * 2 ^ 21 + (t % 2 ^ 21 + 8 * i + j) =
        entryAddress (offset + t) i + j := by
      unfold entryAddress
      omega
    have hmemory : t / 2 ^ 21 * 2 ^ 21 + (t % 2 ^ 21 + 8 * i + j) = entryAddress t i + j := by
      unfold entryAddress
      omega
    rwa [hview, hmemory] at hbyte
  rw [tableEntry, tableEntry, ByteMemory.readWord, ByteMemory.readWord, hbytes]

theorem WellFormed.getPagetables_seen (h : WellFormed sizes table tables m)
    (hzero : table.mapping.offset = 0) (hfits : offset + highest < 2 ^ 64)
    (hbelow : ∀ path t, Interior sizes path → table.tableAt m path = some t → t ≤ highest)
    (hseen : ∀ t ≤ highest, t % 4096 = 0 → ∀ i,
      tableEntry view (offset + t) i = tableEntry m t i)
    {path rest : List (Fin 512)} {t : Nat} (hpath : Interior sizes (path ++ rest))
    (ht : table.tableAt m path = some t) :
    getPagetables (⟨offset⟩ : PhysicalOffset) view (offset + t) rest =
      .ok ((table.tableAt m (path ++ rest)).map (offset + ·)) := by
  induction rest generalizing path t with
  | nil => rw [List.append_nil, ht]; rfl
  | cons i rest ih =>
      have hsplit : path ++ i :: rest = (path ++ [i]) ++ rest := by simp
      rw [hsplit] at hpath ⊢
      have hnext := (prefixClosed_interior sizes).of_append hpath
      have hprefix := (prefixClosed_interior sizes) path i hnext
      have hconcat := table.tableAt_concat (m := m) path i
      rw [ht, Option.bind_some] at hconcat
      have hentry := hseen t (hbelow path t hprefix ht) (h.reached hprefix ht).1 i
      cases h.edges path i t hnext ht with
      | inl hunused =>
          have hnone : table.tableAt m ((path ++ [i]) ++ rest) = none := by
            rw [MappedPageTable.tableAt, RadixTree.walk_append]
            change (table.tableAt m (path ++ [i])).bind _ = none
            rw [hconcat, hunused, child_unused]
            rfl
          rw [getPagetables, hentry, hunused, hnone]
          rfl
      | inr hlink =>
          obtain ⟨frame, address, htable, hlinked⟩ := hlink
          rw [hlinked, htable.child_eq] at hconcat
          obtain ⟨_, rfl⟩ := (frameToVirtual_eq_ok hzero).mp htable.virtual
          have hle := hbelow (path ++ [i]) _ hnext hconcat
          have hvirtual : frameToVirtual (⟨offset⟩ : PhysicalOffset) frame =
              .ok (offset + frame.address) := Checked.add_of_lt (by simp only; omega)
          rw [getPagetables, hentry, hlinked, getPagetable, isUnused_link,
            physicalFrame_setAddress htable.lt, hvirtual]
          exact ih hpath hconcat

end View

/-! ## The complete mapping -/

/-- Every physical address is reached at the offset, no page outside the range changed,
and the tables can be walked at the offset as soon as they lie in the mapped memory. -/
structure MapsComplete (sizes : Nat → PageSize) (table : MappedPageTable PhysicalOffset)
    (highest offset : Nat) (m m' : ByteMemory) : Prop where
  reached : ∀ p ≤ highest, table.translate (.containingAddress .size2MiB (offset + p)) m' =
    .ok (.ok (.containingAddress .size2MiB p,
      .present ||| .writable ||| .noExecute ||| .hugePage))
  others : ∀ {S : PageSize} (other : Page S), other.Fits sizes →
    (∀ p ≤ highest, slotOf other.address ≠ slotOf (offset + p)) →
    table.translate other m' = table.translate other m
  walk : (∀ path t, Interior (completeSizes sizes offset highest) path →
      table.tableAt m' path = some t → t ≤ highest) →
    SameWalk (completeSizes sizes offset highest) table offset m'

section Complete

variable {A : Type} [FrameAllocator A] {sizes : Nat → PageSize}
  {table : MappedPageTable PhysicalOffset} {tables used : PhysicalFrame .size4KiB → Prop}
  {s s' : Machine A} {offset highest : Nat}

/-- Slots in which nothing is mapped may be used with large pages. -/
theorem Separate.resizeComplete (h : Separate sizes table tables used s)
    (hrange : OffsetRange offset highest)
    (hempty : ∀ p ≤ highest, PageTableEntry.isPresent
      (table.slotEntry s.memory (offset + p)) = false) :
    Separate (completeSizes sizes offset highest) table tables used s := by
  refine ⟨h.toWellFormed.resize fun x => ?_, h.tables_used, h.root_used, h.fresh⟩
  by_cases hin : offset / 2 ^ 21 ≤ slotOf x ∧ slotOf x ≤ (offset + highest) / 2 ^ 21
  · cases hsize : sizes (slotOf x) with
    | size2MiB => exact .inl (if_pos hin)
    | size4KiB =>
        right
        have haligned := hrange.aligned
        have hfits := hrange.fits
        -- the slot of `x` is that of an address of the range
        have hslot : slotOf x = slotOf (offset + (slotOf x * 2 ^ 21 - offset)) := by
          unfold slotOf at hin ⊢
          omega
        have habsent := hempty (slotOf x * 2 ^ 21 - offset) (by omega)
        rw [← slotEntry_congr hslot] at habsent
        cases h.toWellFormed.slotEntry_isLink hsize with
        | inl hunused => exact hunused
        | inr hlink =>
            obtain ⟨frame, address, htable, hentry⟩ := hlink
            rw [hentry, PageTableEntry.isPresent_setAddress frame.aligned htable.lt] at habsent
            exact absurd habsent (by decide)
  · exact .inl (if_neg hin)

theorem MappedUpTo.translate_eq (hrange : OffsetRange offset highest)
    (hmapped : MappedUpTo (completeSizes sizes offset highest) table tables used offset
      highest (highest / 2 ^ 21 + 1) s s') {p : Nat} (hp : p ≤ highest) :
    table.translate (.containingAddress .size2MiB (offset + p)) s'.memory =
      .ok (.ok (.containingAddress .size2MiB p, PageSize.size2MiB.leafFlags physicalFlags)) := by
  obtain ⟨tables', used', hextends⟩ := hmapped.grown
  have hfits := hrange.fits
  have hk : p / 2 ^ 21 ≤ highest / 2 ^ 21 := Nat.div_le_div_right hp
  have hlt : (largeFrame (p / 2 ^ 21)).address < 2 ^ 48 := by
    rw [largeFrame_address]
    omega
  rw [containingAddress_offset hrange.aligned, containingAddress_frame,
    hextends.separate.translate_eq (hrange.page_fits hk sizes),
    hmapped.filled.entries _ (by omega), largeEntry, decode_setAddress hlt (by decide)]

/-- A page in another slot has its own size, and none of the entries that were written. -/
theorem OffsetRange.other_fits (hrange : OffsetRange offset highest) {S : PageSize}
    {other : Page S} (hother : other.Fits sizes)
    (hslots : ∀ p ≤ highest, slotOf other.address ≠ slotOf (offset + p)) :
    other.Fits (completeSizes sizes offset highest) ∧
      ∀ j < highest / 2 ^ 21 + 1, ¬ other.Aliases (offsetPage offset j) := by
  have haligned := hrange.aligned
  constructor
  · have hsize : completeSizes sizes offset highest (slotOf other.address) =
        sizes (slotOf other.address) := by
      apply if_neg
      intro hin
      refine hslots (slotOf other.address * 2 ^ 21 - offset) (by omega) ?_
      unfold slotOf at hin ⊢
      omega
    exact hsize.trans hother
  · intro j hj halias
    have hle := hrange.page_le (show j ≤ highest / 2 ^ 21 by omega)
    refine hslots (j * 2 ^ 21) (by omega) ?_
    rw [halias.slotOf_eq, offsetPage_address haligned]

/-- The tables in the mapped memory are seen at the offset. -/
theorem MappedUpTo.sameWalk (hrange : OffsetRange offset highest)
    (hzero : table.mapping.offset = 0)
    (hmapped : MappedUpTo (completeSizes sizes offset highest) table tables used offset
      highest (highest / 2 ^ 21 + 1) s s')
    (hbelow : ∀ path t, Interior (completeSizes sizes offset highest) path →
      table.tableAt s'.memory path = some t → t ≤ highest) :
    SameWalk (completeSizes sizes offset highest) table offset s'.memory := by
  obtain ⟨tables', used', hextends⟩ := hmapped.grown
  have hwell := hextends.separate.toWellFormed
  have hfits := hrange.fits
  have hseen : ∀ t ≤ highest, t % 4096 = 0 → ∀ i, tableEntry (virtualMemory
      (completeSizes sizes offset highest) table s'.memory) (offset + t) i =
        tableEntry s'.memory t i := by
    intro t ht haligned
    have hk : t / 2 ^ 21 ≤ highest / 2 ^ 21 := Nat.div_le_div_right ht
    have htranslate := hmapped.translate_eq hrange ht
    rw [containingAddress_offset hrange.aligned, containingAddress_frame] at htranslate
    exact tableEntry_seen hrange.aligned haligned fun i hi =>
      virtualMemory_of_translate (hrange.page_fits hk sizes) htranslate hi
  have hroot : table.tableAt s'.memory [] = some table.pml4t := rfl
  intro path hpath
  rw [← List.nil_append path] at hpath
  refine ⟨table.tableAt s'.memory path, hwell.getPagetables_eq hpath hroot, ?_, fun t ht i => ?_⟩
  · exact hwell.getPagetables_seen hzero (by omega) hbelow hseen hpath hroot
  · exact hseen t (hbelow path t hpath ht) (hwell.reached hpath ht).1 i

theorem MappedUpTo.mapsComplete (hrange : OffsetRange offset highest)
    (hzero : table.mapping.offset = 0)
    (h : Separate (completeSizes sizes offset highest) table tables used s)
    (hmapped : MappedUpTo (completeSizes sizes offset highest) table tables used offset
      highest (highest / 2 ^ 21 + 1) s s') :
    MapsComplete sizes table highest offset s.memory s'.memory where
  reached := fun _ hp => hmapped.translate_eq hrange hp
  others := by
    intro S other hother hslots
    obtain ⟨tables', used', hextends⟩ := hmapped.grown
    obtain ⟨hfits, hapart⟩ := hrange.other_fits hother hslots
    rw [hextends.separate.translate_eq hfits, h.translate_eq hfits,
      hmapped.filled.others other hfits hapart]
  walk := hmapped.sameWalk hrange hzero

end Complete

/-- With nothing mapped in the slots of the range and a frame for every table over it, all
of physical memory is mapped at the offset. -/
theorem mapsComplete_of_empty {A : Type} [FrameAllocator A] (sizes : Nat → PageSize)
    (table : MappedPageTable PhysicalOffset) (hzero : table.mapping.offset = 0)
    (tables used : PhysicalFrame .size4KiB → Prop) (s : Machine A)
    (hseparate : Separate sizes table tables used s) (highest offset : Nat)
    (haligned : offset % 2 ^ 21 = 0) (hfits : offset + highest + 2 ^ 21 ≤ 2 ^ 47)
    (hempty : ∀ p ≤ highest, PageTableEntry.isPresent
      (table.slotEntry s.memory (offset + p)) = false)
    (n : Nat) (hsupply : Supplies n s.allocator) (hn : tablesOver offset highest ≤ n) :
    ∃ s', mapCompletePhysicalMemorySpaceIntoKernel table highest offset s = .ok s' ∧
      MapsComplete sizes table highest offset s.memory s'.memory := by
  have hrange : OffsetRange offset highest := ⟨haligned, hfits⟩
  have hcomplete := hseparate.resizeComplete hrange hempty
  have habsent : ∀ k ≤ highest / 2 ^ 21, PageTableEntry.isPresent
      (table.pageEntry s.memory (offsetPage offset k)) = false := by
    intro k hk
    have hslot : table.pageEntry s.memory (offsetPage offset k) =
        table.slotEntry s.memory (offset + k * 2 ^ 21) := by
      rw [← offsetPage_address haligned]
      rfl
    rw [hslot]
    exact hempty _ (by omega)
  obtain ⟨s', hrun, hmapped⟩ := mapComplete_upTo hcomplete hrange hzero habsent hsupply hn
  exact ⟨s', hrun, hmapped.mapsComplete hrange hzero hcomplete⟩

/-- 4 GiB at the offset that stage 4 uses, with sixteen frames for tables. -/
theorem mapsComplete_lowMachine :
    ∃ s', mapCompletePhysicalMemorySpaceIntoKernel lowTable 0xffffffff physicalMemoryOffset
        lowMachine = .ok s' ∧
      MapsComplete (fun _ => .size4KiB) lowTable 0xffffffff physicalMemoryOffset
        lowMachine.memory s'.memory := by
  have hempty : ∀ p ≤ 0xffffffff, PageTableEntry.isPresent
      (lowTable.slotEntry lowMachine.memory (physicalMemoryOffset + p)) = false := by
    intro p _
    rw [fresh_lowMachine.slotEntry]
    decide
  exact mapsComplete_of_empty (fun _ => .size4KiB) lowTable rfl _ _ lowMachine
    fresh_lowMachine.separate 0xffffffff physicalMemoryOffset (by decide) (by decide) hempty 16
    (BumpFrameAllocator.supplies (by decide +kernel)) (by decide)

/-- The first 4 KiB page at the offset, mapped to the frame at 2 MiB and unmapped again. -/
def mapThenUnmap : Checked (Machine (BumpFrameAllocator PhysicalMemoryRegion)) := do
  let page := Page.containingAddress .size4KiB physicalMemoryOffset
  let (_, s) ← lowTable.mapTo (.containingAddress .size4KiB 0x200000) page .present lowMachine
  let (_, memory) ← lowTable.unmap page s.memory
  return { s with memory }

theorem Fresh.translate_eq {P A : Type} [PageTableFrameMapping P] [FrameAllocator A]
    {table : MappedPageTable P} {s : Machine A} (h : Fresh table s) (page : Page .size4KiB) :
    table.translate page s.memory = .ok (.error .notMapped) := by
  have hwell : WellFormed (fun _ => .size4KiB) table _ s.memory := h.separate.toWellFormed
  have hnone : table.tableAt s.memory page.tablePath = none := by
    rw [Page.tablePath]
    exact h.tableAt_cons _ _
  rw [hwell.translate_eq rfl, pageEntry_eq_unused hnone]
  rfl

/-- Nothing is mapped in the table any more, but an empty table of level 1 is left in the
slot. -/
theorem mapThenUnmap_spec {s : Machine (BumpFrameAllocator PhysicalMemoryRegion)}
    (h : mapThenUnmap = .ok s) :
    MappedPageTable.Reaches (fun _ => .size4KiB) lowTable lowMachine s ∧
      ∀ page : Page .size4KiB, Canonical page.address →
        lowTable.translate page s.memory = .ok (.error .notMapped) := by
  have hresult : (lowTable.mapTo (.containingAddress .size4KiB 0x200000)
      (Page.containingAddress .size4KiB physicalMemoryOffset) .present lowMachine).toOption.map
        (·.1) = some (.ok ⟨Page.containingAddress .size4KiB physicalMemoryOffset⟩) := by
    decide +kernel
  obtain ⟨⟨result, mapped⟩, hmap, rfl⟩ := Checked.exists_of_toOption hresult
  have hreaches : MappedPageTable.Reaches (fun _ => .size4KiB) lowTable lowMachine mapped :=
    .mapTo .start rfl (by decide) hmap
  have hcanonical : Canonical (Page.containingAddress .size4KiB physicalMemoryOffset).address := by
    decide
  have hacts : ActsAsMap (fun _ => .size4KiB) lowTable lowMachine :=
    fresh_lowMachine.separate.actsAsMap (PhysicalOffset.injectiveMapping _)
  obtain ⟨htranslate, hothers⟩ := hacts.mapTo_ok hcanonical rfl (by decide) (by decide) hmap
  obtain ⟨tables, used, hseparate⟩ :=
    hreaches.separate (PhysicalOffset.injectiveMapping _) fresh_lowMachine
  obtain ⟨result, memory, hunmap, hgone, hothers'⟩ :=
    (hseparate.actsAsMap (PhysicalOffset.injectiveMapping _)).unmap_ok hcanonical rfl htranslate
  simp only [mapThenUnmap, hmap, hunmap, Checked.ok_bind, Checked.pure_eq_ok, Except.ok.injEq] at h
  subst h
  refine ⟨.unmap hreaches rfl htranslate hunmap, fun page hpage => ?_⟩
  by_cases hsame : page = Page.containingAddress .size4KiB physicalMemoryOffset
  · rw [hsame]
    exact hgone
  · have hne : (⟨.size4KiB, page⟩ : Σ S, Page S) ≠
        ⟨.size4KiB, .containingAddress .size4KiB physicalMemoryOffset⟩ := by
      intro heq
      exact hsame (eq_of_heq (Sigma.mk.inj heq).2)
    rw [hothers' page hpage rfl hne, hothers page hpage rfl hne, fresh_lowMachine.translate_eq]

/-- The mapping of the first 2 MiB panics in a well-formed table in which nothing is mapped,
with frames left for every table that it needs. -/
theorem not_mapsComplete_after_unmap :
    ∃ s, MappedPageTable.Reaches (fun _ => .size4KiB) lowTable lowMachine s ∧
      (∃ tables used, Separate (fun _ => .size4KiB) lowTable tables used s) ∧
      (∀ page : Page .size4KiB, Canonical page.address →
        lowTable.translate page s.memory = .ok (.error .notMapped)) ∧
      Supplies (tablesOver physicalMemoryOffset 0x1fffff) s.allocator ∧
      (mapCompletePhysicalMemorySpaceIntoKernel lowTable 0x1fffff physicalMemoryOffset s).map
          (fun _ => ()) =
        .error (.message "Failed to map all of RAM to kernel space") := by
  have hresult : mapThenUnmap.toOption.map (fun s => (s.allocator,
      (mapCompletePhysicalMemorySpaceIntoKernel lowTable 0x1fffff physicalMemoryOffset s).map
        fun _ => ())) =
      some (⟨[⟨0x100000, 0x10000, .free⟩], 3⟩,
        .error (.message "Failed to map all of RAM to kernel space")) := by
    decide +kernel
  obtain ⟨s, hrun, hs⟩ := Checked.exists_of_toOption hresult
  obtain ⟨hallocator, hpanics⟩ := Prod.mk.inj hs
  obtain ⟨hreaches, hnothing⟩ := mapThenUnmap_spec hrun
  refine ⟨s, hreaches, hreaches.separate (PhysicalOffset.injectiveMapping _) fresh_lowMachine,
    hnothing, ?_, hpanics⟩
  rw [hallocator]
  exact BumpFrameAllocator.supplies (by decide +kernel)

end MiniatureOs
