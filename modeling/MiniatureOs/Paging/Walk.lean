import MiniatureOs.Paging.Conflicts

/-! # The walk of the processor

With paging enabled the processor walks the four levels of tables from `CR3` on. It looks at
the bits of the entries that the code writes as flags: an entry that is not present ends the
walk, one with `HUGE_PAGE` above the last level maps a large page, and what may be done at an
address is what every entry on the way permits. The tables of `MappedPageTable` mean the same
to the processor as to `translate`.
-/

namespace MiniatureOs

open PageTableFrameMapping MappedPageTable

/-! ## The processor -/

structure Rights where
  writable : Bool
  executable : Bool
  user : Bool
  deriving DecidableEq

def Rights.within (rights : Rights) (entry : PageTableEntry) : Rights :=
  ⟨rights.writable && entry.getLsbD 1, rights.executable && !entry.getLsbD 63,
    rights.user && entry.getLsbD 2⟩

def Rights.all : Rights := ⟨true, true, true⟩

def PageTableEntry.hardwareAddress (entry : PageTableEntry) : Nat :=
  (entry.extractLsb' 12 40).toNat * 2 ^ 12

/-- A level of the walk: the index in its table, and the size of what an entry spans. -/
structure WalkLevel where
  index : Fin 512
  bits : Nat

/-- The walk through the levels that are left. The last level has pages only, and the first
has none. -/
def walkTables (m : ByteMemory) (address : Nat) :
    Nat → List WalkLevel → Rights → Option (Nat × Rights)
  | _, [], _ => none
  | table, level :: levels, rights =>
      let entry := tableEntry m table level.index
      if entry.getLsbD 0 = false then none
      else if level.bits = 12 ∨ entry.getLsbD 7 = true then
        if level.bits = 39 then none
        else
          some (PageTableEntry.hardwareAddress entry / 2 ^ level.bits * 2 ^ level.bits +
            address % 2 ^ level.bits, rights.within entry)
      else
        walkTables m address (PageTableEntry.hardwareAddress entry) levels (rights.within entry)

def mmuWalk (m : ByteMemory) (cr3 address : Nat) : Option (Nat × Rights) :=
  if Canonical address then
    walkTables m address cr3 [⟨l4Index address, 39⟩, ⟨l3Index address, 30⟩, ⟨l2Index address, 21⟩,
      ⟨l1Index address, 12⟩] .all
  else none

/-! ## Entries -/

def PageTableEntryFlags.rights (flags : PageTableEntryFlags) : Rights :=
  ⟨flags.contains .writable, !flags.contains .noExecute, flags.contains .userAccessible⟩

theorem and_bit_beq (word : BitVec 64) {i : Nat} (hi : i < 64) :
    (word &&& 1#64 <<< i == 1#64 <<< i) = word.getLsbD i := by
  have hand : word &&& 1#64 <<< i = if word.getLsbD i then 1#64 <<< i else 0 := by
    rw [← BitVec.twoPow_eq, BitVec.and_twoPow]
    rfl
  have hne : (0 : BitVec 64) ≠ 1#64 <<< i := by
    intro heq
    have hbit := congrArg (BitVec.getLsbD · i) heq
    rw [← BitVec.twoPow_eq] at hbit
    simp [hi] at hbit
  rw [hand]
  cases word.getLsbD i with
  | true => simp
  | false => simpa using hne

namespace PageTableEntry

variable {address : Nat} {entryFlags : PageTableEntryFlags}

/-- A flag is a bit of the entry. -/
theorem getLsbD_setAddress (haligned : address % 4096 = 0) (hlt : address < 2 ^ 48) {i : Nat}
    (h : i < 12 ∨ 48 ≤ i) :
    (setAddress address entryFlags).getLsbD i = entryFlags.bits.getLsbD i := by
  rw [setAddress, BitVec.getLsbD_or, ofNat_getLsbD haligned hlt h, Bool.false_or]

theorem hardwareAddress_setAddress (haligned : address % 4096 = 0) (hlt : address < 2 ^ 48) :
    hardwareAddress (setAddress address entryFlags) = address := by
  have hflags : entryFlags.bits.extractLsb' 12 40 = 0#40 := by
    refine BitVec.eq_of_getLsbD_eq fun i hi => ?_
    rw [BitVec.getLsbD_extractLsb', entryFlags.bits_getLsbD (by omega) (by omega)]
    simp
  have haddress : ((BitVec.ofNat 64 address).extractLsb' 12 40).toNat = address / 4096 := by
    rw [BitVec.extractLsb'_toNat, BitVec.toNat_ofNat, Nat.shiftRight_eq_div_pow]
    omega
  rw [hardwareAddress, setAddress, BitVec.extractLsb'_or, hflags, BitVec.or_zero, haddress]
  omega

/-- The rights of a page are those of its flags. -/
theorem within_setAddress (haligned : address % 4096 = 0) (hlt : address < 2 ^ 48) :
    Rights.all.within (setAddress address entryFlags) = entryFlags.rights := by
  have hwritable : entryFlags.contains .writable = entryFlags.bits.getLsbD 1 :=
    and_bit_beq entryFlags.bits (by decide)
  have hnoExecute : entryFlags.contains .noExecute = entryFlags.bits.getLsbD 63 :=
    and_bit_beq entryFlags.bits (by decide)
  have huser : entryFlags.contains .userAccessible = entryFlags.bits.getLsbD 2 :=
    and_bit_beq entryFlags.bits (by decide)
  rw [Rights.within, getLsbD_setAddress haligned hlt (by omega),
    getLsbD_setAddress haligned hlt (by omega), getLsbD_setAddress haligned hlt (by omega),
    PageTableEntryFlags.rights, hwritable, hnoExecute, huser]
  rfl

end PageTableEntry

/-! ## Steps of the walk -/

section Walk

variable {m : ByteMemory} {address table : Nat} {index : Fin 512} {bits : Nat}
  {levels : List WalkLevel}
  {rights : Rights} {flags : PageTableEntryFlags} {t : Nat}

theorem walkTables_of_absent (h : (tableEntry m table index).getLsbD 0 = false) :
    walkTables m address table (⟨index, bits⟩ :: levels) rights = none :=
  if_pos h

theorem walkTables_of_pointer
    (h : tableEntry m table index = PageTableEntry.setAddress t flags)
    (haligned : t % 4096 = 0) (hlt : t < 2 ^ 48) (hbits : bits ≠ 12)
    (hpresent : flags.bits.getLsbD 0 = true) (hlarge : flags.bits.getLsbD 7 = false) :
    walkTables m address table (⟨index, bits⟩ :: levels) rights =
      walkTables m address t levels (rights.within (PageTableEntry.setAddress t flags)) := by
  have hbit : ∀ {i : Nat}, i < 12 ∨ 48 ≤ i →
      (PageTableEntry.setAddress t flags).getLsbD i = flags.bits.getLsbD i :=
    PageTableEntry.getLsbD_setAddress haligned hlt
  have hset : ¬ flags.bits.getLsbD 0 = false := by rw [hpresent]; decide
  have hclear : ¬ flags.bits.getLsbD 7 = true := by rw [hlarge]; decide
  rw [walkTables, h, hbit (by omega), if_neg hset, hbit (by omega),
    if_neg (not_or.mpr ⟨hbits, hclear⟩), PageTableEntry.hardwareAddress_setAddress haligned hlt]

/-- The links of `MappedPageTable` leave all rights that there were. -/
theorem walkTables_of_link
    (h : tableEntry m table index = PageTableEntry.setAddress t parentFlags)
    (haligned : t % 4096 = 0) (hlt : t < 2 ^ 48) (hbits : bits ≠ 12) :
    walkTables m address table (⟨index, bits⟩ :: levels) rights =
      walkTables m address t levels rights := by
  have hbit : ∀ {i : Nat}, i < 12 ∨ 48 ≤ i →
      (PageTableEntry.setAddress t parentFlags).getLsbD i = parentFlags.bits.getLsbD i :=
    PageTableEntry.getLsbD_setAddress haligned hlt
  have hrights : rights.within (PageTableEntry.setAddress t parentFlags) = rights := by
    have hwritable : parentFlags.bits.getLsbD 1 = true := by decide
    have hnoExecute : parentFlags.bits.getLsbD 63 = false := by decide
    have huser : parentFlags.bits.getLsbD 2 = true := by decide
    rw [Rights.within, hbit (by omega), hbit (by omega), hbit (by omega), hwritable, hnoExecute,
      huser, Bool.and_true, Bool.not_false, Bool.and_true, Bool.and_true]
  rw [walkTables_of_pointer h haligned hlt hbits (by decide) (by decide), hrights]

theorem walkTables_of_leaf {S : PageSize} {frame : PhysicalFrame S}
    (h : tableEntry m table index = PageTableEntry.setAddress frame.address flags)
    (hlt : frame.address < 2 ^ 48) (hpresent : flags.bits.getLsbD 0 = true)
    (hsize : S.size = 2 ^ bits) (hlevel : bits ≠ 39)
    (hleaf : bits = 12 ∨ flags.bits.getLsbD 7 = true) :
    walkTables m address table (⟨index, bits⟩ :: levels) rights =
      some (frame.address + address % S.size,
        rights.within (PageTableEntry.setAddress frame.address flags)) := by
  have haligned := frame.address_mod
  have hframe : frame.address / 2 ^ bits * 2 ^ bits = frame.address := by
    rw [← hsize]
    exact Nat.div_mul_cancel (Nat.dvd_of_mod_eq_zero frame.aligned)
  have hset : ¬ flags.bits.getLsbD 0 = false := by rw [hpresent]; decide
  have hbit : ∀ {i : Nat}, i < 12 ∨ 48 ≤ i →
      (PageTableEntry.setAddress frame.address flags).getLsbD i = flags.bits.getLsbD i :=
    PageTableEntry.getLsbD_setAddress haligned hlt
  rw [walkTables, h, hbit (by omega), if_neg hset, hbit (by omega), if_pos hleaf, if_neg hlevel,
    PageTableEntry.hardwareAddress_setAddress haligned hlt, hframe, hsize]

end Walk

/-! ## The same as `translate` -/

section Translate

variable {A : Type} [FrameAllocator A] {sizes : Nat → PageSize}
  {table : MappedPageTable PhysicalOffset} {tables used : PhysicalFrame .size4KiB → Prop}
  {m : ByteMemory} {s : Machine A} {path : List (Fin 512)} {t address : Nat} {level : WalkLevel}
  {levels : List WalkLevel} {rights : Rights}

theorem WellFormed.walkTables_next (h : WellFormed sizes table tables m)
    (hzero : table.mapping.offset = 0) (hpath : Interior sizes (path ++ [level.index]))
    (ht : table.tableAt m path = some t) (hbits : level.bits ≠ 12) :
    walkTables m address t (level :: levels) rights =
      (table.tableAt m (path ++ [level.index])).bind fun next =>
        walkTables m address next levels rights := by
  have hnext : table.tableAt m (path ++ [level.index]) =
      child table.mapping (tableEntry m t level.index) := by
    rw [tableAt_concat, ht, Option.bind_some]
  rw [hnext]
  cases h.edges path level.index t hpath ht with
  | inl hunused =>
      rw [hunused, child_unused]
      exact walkTables_of_absent (by rw [hunused]; decide)
  | inr hlink =>
      obtain ⟨frame, next, htable, hentry⟩ := hlink
      have hvirtual := (Checked.add_eq_ok.mp htable.virtual).2
      rw [hzero, Nat.zero_add] at hvirtual
      rw [hentry, htable.child_eq, hvirtual, Option.bind_some]
      exact walkTables_of_link hentry frame.aligned htable.lt hbits

theorem WellFormed.walkTables_path (h : WellFormed sizes table tables m)
    (hzero : table.mapping.offset = 0) (front : List WalkLevel)
    (hpath : Interior sizes (path ++ front.map WalkLevel.index))
    (ht : table.tableAt m path = some t) (hbits : ∀ level ∈ front, level.bits ≠ 12) :
    walkTables m address t (front ++ levels) rights =
      (table.tableAt m (path ++ front.map WalkLevel.index)).bind fun next =>
        walkTables m address next levels rights := by
  induction front generalizing path t with
  | nil =>
      rw [List.map_nil, List.append_nil, ht, Option.bind_some]
      rfl
  | cons level front ih =>
      have hsplit : path ++ (level :: front).map WalkLevel.index =
          path ++ [level.index] ++ front.map WalkLevel.index := by
        rw [List.map_cons, List.append_assoc]
        rfl
      rw [hsplit] at hpath ⊢
      rw [List.cons_append, h.walkTables_next hzero ((prefixClosed_interior sizes).of_append hpath)
        ht (hbits level List.mem_cons_self)]
      cases hnext : table.tableAt m (path ++ [level.index]) with
      | none =>
          have hnone : table.tableAt m (path ++ [level.index] ++ front.map WalkLevel.index) =
              none := by
            rw [MappedPageTable.tableAt, RadixTree.walk_append]
            rw [MappedPageTable.tableAt] at hnext
            rw [hnext]
            rfl
          rw [hnone]
          rfl
      | some next =>
          exact ih hpath hnext fun other hmem => hbits other (List.mem_cons_of_mem _ hmem)

def mappedAt (S : PageSize) (address : Nat) :
    Except TranslationError (PhysicalFrame S × PageTableEntryFlags) → Option (Nat × Rights)
  | .ok (frame, flags) => some (frame.address + address % S.size, flags.rights)
  | .error _ => none

/-- An entry that `map_to` or `unmap` leaves for a page: unused, or a frame with flags. -/
def IsPageEntry (S : PageSize) (entry : PageTableEntry) : Prop :=
  entry = PageTableEntry.unused ∨ ∃ (frame : PhysicalFrame S) (flags : PageTableEntryFlags),
    frame.address < 2 ^ 48 ∧
    entry = PageTableEntry.setAddress frame.address (S.leafFlags flags)

theorem IsLeaf.isPageEntry {S : PageSize} {entry : PageTableEntry}
    (h : IsLeaf table tables used S entry) : IsPageEntry S entry := by
  cases h with
  | inl hunused => exact .inl hunused
  | inr hmapped =>
      obtain ⟨frame, flags, hlt, heq, -, -⟩ := hmapped
      exact .inr ⟨frame, flags, hlt, heq⟩

theorem IsPageEntry.walkTables {S : PageSize} {entry : PageTableEntry}
    (h : IsPageEntry S entry) (hentry : tableEntry m t level.index = entry)
    (hsize : S.size = 2 ^ level.bits) (hlevel : level.bits ≠ 39)
    (hleaf : level.bits = 12 ∨ ∀ flags, (S.leafFlags flags).bits.getLsbD 7 = true) :
    walkTables m address t (level :: levels) .all = mappedAt S address (decode S entry) := by
  cases h with
  | inl hunused =>
      rw [hunused] at hentry ⊢
      exact walkTables_of_absent (by rw [hentry]; decide)
  | inr hmapped =>
      obtain ⟨frame, flags, hlt, heq⟩ := hmapped
      have haligned := frame.address_mod
      rw [heq] at hentry ⊢
      cases hpresent : (S.leafFlags flags).contains .present with
      | true =>
          rw [decode_setAddress hlt hpresent]
          rw [PageTableEntry.contains_present_eq] at hpresent
          rw [walkTables_of_leaf hentry hlt hpresent hsize hlevel
            (hleaf.imp_right fun hlarge => hlarge flags),
            PageTableEntry.within_setAddress haligned hlt]
          rfl
      | false =>
          rw [decode, PageTableEntry.isPresent_setAddress haligned hlt, hpresent]
          rw [PageTableEntry.contains_present_eq] at hpresent
          refine walkTables_of_absent ?_
          rw [hentry, PageTableEntry.getLsbD_setAddress haligned hlt (by omega), hpresent]

theorem leafFlags_large (flags : PageTableEntryFlags) :
    (PageSize.size2MiB.leafFlags flags).bits.getLsbD 7 = true := by
  have hbit : PageTableEntryFlags.hugePage.bits.getLsbD 7 = true := by decide
  change (flags.bits ||| PageTableEntryFlags.hugePage.bits).getLsbD 7 = true
  rw [BitVec.getLsbD_or, hbit, Bool.or_true]

/-- The indices of the page of an address are those of the address. -/
theorem containingAddress_indices (S : PageSize) (address : Nat) :
    l4Index (Page.containingAddress S address).address = l4Index address ∧
      l3Index (Page.containingAddress S address).address = l3Index address ∧
      l2Index (Page.containingAddress S address).address = l2Index address := by
  cases S <;>
    simp only [Page.containingAddress_address, alignDown, PageSize.size, l4Index, l3Index, l2Index,
      Fin.mk.injEq] <;> omega

theorem containingAddress_l1Index (address : Nat) :
    l1Index (Page.containingAddress .size4KiB address).address = l1Index address := by
  simp only [Page.containingAddress_address, alignDown, PageSize.size, l1Index, Fin.mk.injEq]
  omega

theorem containingAddress_fits {S : PageSize} (h : sizes (slotOf address) = S) :
    (Page.containingAddress S address).Fits sizes := by
  obtain ⟨h4, h3, h2⟩ := containingAddress_indices S address
  rw [Page.Fits, slotOf_eq, h4, h3, h2, ← slotOf_eq]
  exact h

/-- The walk through the tables of a page ends at the page's entry. -/
theorem WellFormed.walkTables_page {S : PageSize} {page : Page S}
    (h : WellFormed sizes table tables m) (hzero : table.mapping.offset = 0)
    (hfits : page.Fits sizes) (hentry : IsPageEntry S (table.pageEntry m page))
    {front : List WalkLevel} (htables : page.tablePath = front.map WalkLevel.index)
    (hindex : page.leafIndex = level.index) (hbits : ∀ level ∈ front, level.bits ≠ 12)
    (hsize : S.size = 2 ^ level.bits) (hlevel : level.bits ≠ 39)
    (hleaf : level.bits = 12 ∨ ∀ flags, (S.leafFlags flags).bits.getLsbD 7 = true) :
    walkTables m address table.pml4t (front ++ level :: levels) .all =
      mappedAt S address (decode S (table.pageEntry m page)) := by
  have hpath : Interior sizes ([] ++ front.map WalkLevel.index) := by
    rw [← htables]
    exact hfits.interior_tablePath
  rw [h.walkTables_path hzero front hpath rfl hbits, List.nil_append, ← htables]
  cases ht : table.tableAt m page.tablePath with
  | none =>
      rw [pageEntry_eq_unused ht]
      rfl
  | some t =>
      have hread := pageEntry_eq ht
      rw [hindex] at hread
      exact hentry.walkTables hread.symm hsize hlevel hleaf

/-- The walk of an address is the translation of its page. -/
theorem WellFormed.mmuWalk_eq (h : WellFormed sizes table tables m)
    (hzero : table.mapping.offset = 0) (hcanonical : Canonical address) {S : PageSize}
    (hS : sizes (slotOf address) = S)
    (hentry : IsPageEntry S (table.pageEntry m (.containingAddress S address))) :
    mmuWalk m table.pml4t address =
      mappedAt S address (decode S (table.pageEntry m (.containingAddress S address))) := by
  have hfits := containingAddress_fits hS
  obtain ⟨h4, h3, h2⟩ := containingAddress_indices S address
  rw [mmuWalk, if_pos hcanonical]
  cases S with
  | size4KiB =>
      let front : List WalkLevel :=
        [⟨l4Index address, 39⟩, ⟨l3Index address, 30⟩, ⟨l2Index address, 21⟩]
      have htables : (Page.containingAddress .size4KiB address).tablePath =
          front.map WalkLevel.index := by
        rw [Page.tablePath, h4, h3, h2]
        rfl
      exact h.walkTables_page hzero hfits hentry htables (containingAddress_l1Index address)
        (by simp [front]) rfl (show 12 ≠ 39 by decide) (.inl rfl)
  | size2MiB =>
      let front : List WalkLevel := [⟨l4Index address, 39⟩, ⟨l3Index address, 30⟩]
      have htables : (Page.containingAddress .size2MiB address).tablePath =
          front.map WalkLevel.index := by
        rw [Page.tablePath, h4, h3]
        rfl
      exact h.walkTables_page hzero hfits hentry htables h2 (by simp [front]) rfl
        (show 21 ≠ 39 by decide) (.inr leafFlags_large)

/-- In every state of a run whose calls meet their conditions, an address means to the
processor what `translate` says of its page, and the rights there are the page's flags. -/
theorem mmuWalk_of_reaches (table : MappedPageTable PhysicalOffset)
    (hzero : table.mapping.offset = 0) (start s : Machine A) (hstart : Fresh table start)
    (hreach : Transitions.Reaches (PagingEvent.step table) (PagingEvent.Allowed table) start s)
    (address : Nat) (hcanonical : Canonical address) :
    ∃ result, table.translate (.containingAddress (table.slotSizes s.memory (slotOf address))
        address) s.memory = .ok result ∧
      mmuWalk s.memory table.pml4t address =
        mappedAt (table.slotSizes s.memory (slotOf address)) address result := by
  have hmapping := PhysicalOffset.disjointMapping table.mapping
  obtain ⟨sizes, tables, used, h⟩ := exists_sound_of_reaches hmapping hstart hreach
  have hslots := h.bySlots hmapping.injective
  exact ⟨_, hslots.toWellFormed.translate_eq (containingAddress_fits rfl),
    hslots.toWellFormed.mmuWalk_eq hzero hcanonical rfl
      (hslots.leaves _ (containingAddress_fits rfl)).isPageEntry⟩

end Translate

/-- A large page at zero. -/
theorem mmuWalk_large_page :
    ∃ s, Transitions.Reaches (PagingEvent.step lowTable) (PagingEvent.Allowed lowTable)
        lowMachine s ∧
      mmuWalk s.memory lowTable.pml4t 0x1234 = some (0x201234, .all) ∧
      ∃ result, lowTable.translate (.containingAddress (lowTable.slotSizes s.memory
          (slotOf 0x1234)) 0x1234) s.memory = .ok result ∧
        mmuWalk s.memory lowTable.pml4t 0x1234 =
          mappedAt (lowTable.slotSizes s.memory (slotOf 0x1234)) 0x1234 result := by
  have hcall : ((MapperCall.mapTo (.containingAddress .size2MiB 0x200000)
      (.containingAddress .size2MiB 0) parentFlags).run lowTable lowMachine).toOption.map
        (fun s => mmuWalk s.memory lowTable.pml4t 0x1234) = some (some (0x201234, .all)) := by
    decide +kernel
  obtain ⟨s, hreach, hwalk⟩ := exists_reaches_mapTo (by decide) hcall
  exact ⟨s, hreach, hwalk, mmuWalk_of_reaches lowTable rfl lowMachine s fresh_lowMachine hreach
    0x1234 (by decide)⟩

end MiniatureOs
