import MiniatureOs.Elf.Loader

/-! # Relative relocations

`handle_relative_relocation` stores a word at a virtual address page by page. The last page
of its loop is that of the byte behind the word, not that of its last byte: a word that
ends with its page makes the loop translate the next page too, and a word near the end of
the address space makes it compute an address that is not there. The second page is
translated after the part of the word on the first one is stored.
-/

namespace MiniatureOs

open MappedPageTable

variable {P : Type} [PageTableFrameMapping P]

theorem PageTableEntry.address_lt (entry : PageTableEntry) :
    PageTableEntry.address entry < 2 ^ 48 := by
  have hlt := (entry.extractLsb' 12 36).isLt
  rw [PageTableEntry.address, Nat.shiftLeft_eq]
  omega

theorem MappedPageTable.translate_lt {table : MappedPageTable P} {page : Page .size4KiB}
    {m : ByteMemory} {frame : PhysicalFrame .size4KiB} {flags : PageTableEntryFlags}
    (h : table.translate page m = .ok (.ok (frame, flags))) : frame.address < 2 ^ 48 := by
  obtain ⟨last, _, h⟩ := Checked.bind_eq_ok.mp h
  cases last with
  | none => cases h
  | some last =>
      change (if _ then _ else _) = _ at h
      split at h
      · obtain ⟨rfl, _⟩ := Prod.mk.inj (Except.ok.inj (Except.ok.inj h))
        exact Nat.lt_of_le_of_lt (alignDown_le _ _) (PageTableEntry.address_lt _)
      · cases Except.ok.inj h

namespace KernelLoader

variable {loader : KernelLoader P} {m m' : ByteMemory} {virtualAddress value location : Nat}

/-- A virtual byte is mapped in a page of 4 KiB, and lies at this physical address. -/
def LocatedAt (loader : KernelLoader P) (m : ByteMemory) (x location : Nat) : Prop :=
  ∃ frame flags, loader.pageTable.translate (.containingAddress .size4KiB x) m =
    .ok (.ok (frame, flags)) ∧ location = frame.address + x % 0x1000

/-- The bytes of the word lie where its virtual bytes are mapped, and no other byte has
changed. -/
structure WordStored (loader : KernelLoader P) (m : ByteMemory) (virtualAddress value : Nat)
    (m' : ByteMemory) : Prop where
  stored : ∀ i < 8, ∀ location, loader.LocatedAt m (virtualAddress + i) location →
    (toLittleEndian 8 value)[i]? = some (m' location)
  kept : ∀ x, (∀ i < 8, ¬ loader.LocatedAt m (virtualAddress + i) x) → m' x = m x

def Relocates (loader : KernelLoader P) (entry : RelocationEntry) (value : Nat)
    (m : ByteMemory) : Prop :=
  ∃ m', loader.handleRelativeRelocation entry m = .ok m' ∧
    loader.WordStored m (loader.virtualBase + entry.offset) value m'

def firstCount (virtualAddress : Nat) : Nat :=
  min 8 (0x1000 - virtualAddress % 0x1000)

/-- The page of the byte behind the word is not the last one. If it is not the page of the
word's first byte, it is mapped when the part of the word on the first page is stored, and
the rest goes to the frame that it was mapped to before (or makes no difference there). -/
structure RelocationCondition (loader : KernelLoader P) (m : ByteMemory)
    (virtualAddress value : Nat) : Prop where
  inside : alignDown (virtualAddress + 8) 0x1000 + 0x1000 < 2 ^ 64
  next : 0x1000 ≤ virtualAddress % 0x1000 + 8 →
    ∀ location, loader.LocatedAt m virtualAddress location →
      let bytes := toLittleEndian 8 value
      let first := m.store location (bytes.take (firstCount virtualAddress))
      ∃ frame flags, loader.pageTable.translate
          (.containingAddress .size4KiB (virtualAddress + 8)) first = .ok (.ok (frame, flags)) ∧
        ∀ other, loader.LocatedAt m (alignDown (virtualAddress + 8) 0x1000) other →
          first.store frame.address (bytes.drop (firstCount virtualAddress)) =
            first.store other (bytes.drop (firstCount virtualAddress))

/-! ## Where the bytes lie -/

theorem LocatedAt.unique {x other : Nat} (h : loader.LocatedAt m x location)
    (h' : loader.LocatedAt m x other) : location = other := by
  obtain ⟨frame, flags, htranslated, rfl⟩ := h
  obtain ⟨frame', flags', htranslated', rfl⟩ := h'
  rw [htranslated] at htranslated'
  rw [(Prod.mk.inj (Except.ok.inj (Except.ok.inj htranslated'))).1]

/-- Bytes of one page lie next to each other. -/
theorem LocatedAt.add {x i : Nat} (h : loader.LocatedAt m x location)
    (hpage : x % 0x1000 + i < 0x1000) : loader.LocatedAt m (x + i) (location + i) := by
  obtain ⟨frame, flags, htranslated, rfl⟩ := h
  have hsame : Page.containingAddress .size4KiB (x + i) = Page.containingAddress .size4KiB x := by
    ext
    change x + i - (x + i) % 0x1000 = x - x % 0x1000
    omega
  refine ⟨frame, flags, ?_, by omega⟩
  rw [hsame]
  exact htranslated

theorem LocatedAt.mod {x : Nat} (h : loader.LocatedAt m x location) :
    location % 0x1000 = x % 0x1000 := by
  obtain ⟨frame, flags, _, rfl⟩ := h
  have haligned : frame.address % 0x1000 = 0 := frame.aligned
  omega

theorem WordStored.unique {first second : ByteMemory}
    (h : loader.WordStored m virtualAddress value first)
    (h' : loader.WordStored m virtualAddress value second) : first = second := by
  funext x
  by_cases hx : ∃ i, i < 8 ∧ loader.LocatedAt m (virtualAddress + i) x
  · obtain ⟨i, hi, hlocated⟩ := hx
    exact Option.some.inj ((h.stored i hi x hlocated).symm.trans (h'.stored i hi x hlocated))
  · have hnone : ∀ i < 8, ¬ loader.LocatedAt m (virtualAddress + i) x :=
      fun i hi hlocated => hx ⟨i, hi, hlocated⟩
    rw [h.kept x hnone, h'.kept x hnone]

theorem wordStored_of_one_page (hpage : virtualAddress % 0x1000 + 8 ≤ 0x1000)
    (hlocated : loader.LocatedAt m virtualAddress location) :
    loader.WordStored m virtualAddress value (m.store location (toLittleEndian 8 value)) := by
  have hlength := toLittleEndian_length 8 value
  constructor
  · intro i hi other hother
    rw [hother.unique (hlocated.add (by omega)),
      ByteMemory.store_inside (show i < (toLittleEndian 8 value).length by omega)]
    exact List.getElem?_eq_getElem _
  · intro x hx
    refine ByteMemory.store_outside fun hin => ?_
    refine hx (x - location) (by omega) ?_
    have hat := hlocated.add (show virtualAddress % 0x1000 + (x - location) < 0x1000 by omega)
    rwa [Nat.add_sub_of_le hin.1] at hat

theorem wordStored_of_two_pages {other : Nat} (hpage : 0x1000 < virtualAddress % 0x1000 + 8)
    (hlocated : loader.LocatedAt m virtualAddress location)
    (hother : loader.LocatedAt m (alignDown (virtualAddress + 8) 0x1000) other) :
    loader.WordStored m virtualAddress value
      ((m.store location ((toLittleEndian 8 value).take (firstCount virtualAddress))).store other
        ((toLittleEndian 8 value).drop (firstCount virtualAddress))) := by
  have hlength := toLittleEndian_length 8 value
  have hmod : virtualAddress % 0x1000 < 0x1000 := Nat.mod_lt _ (by decide)
  have hlow := hlocated.mod
  have hhigh := hother.mod
  rw [alignDown_mod] at hhigh
  have hcount : firstCount virtualAddress = 0x1000 - virtualAddress % 0x1000 := by
    unfold firstCount
    omega
  have hsecond : alignDown (virtualAddress + 8) 0x1000 =
      virtualAddress + firstCount virtualAddress := by
    unfold alignDown
    omega
  generalize hk : firstCount virtualAddress = k at *
  have htake : ((toLittleEndian 8 value).take k).length = k := by
    rw [List.length_take, hlength]
    omega
  have hdrop : ((toLittleEndian 8 value).drop k).length = 8 - k := by
    rw [List.length_drop, hlength]
  rw [hsecond] at hother
  have hzero : (virtualAddress + k) % 0x1000 = 0 := by omega
  constructor
  · intro i hi address haddress
    by_cases hfirst : i < k
    · -- the offsets of the two parts in their frames differ
      rw [haddress.unique (hlocated.add (by omega)), ByteMemory.store_outside (by omega),
        ByteMemory.store_inside (show i < ((toLittleEndian 8 value).take k).length by omega),
        List.getElem_take]
      exact List.getElem?_eq_getElem _
    · have hat := hother.add (show (virtualAddress + k) % 0x1000 + (i - k) < 0x1000 by omega)
      rw [show virtualAddress + k + (i - k) = virtualAddress + i by omega] at hat
      rw [haddress.unique hat,
        ByteMemory.store_inside (show i - k < ((toLittleEndian 8 value).drop k).length by omega),
        List.getElem_drop]
      simp only [Nat.add_sub_of_le (Nat.not_lt.mp hfirst)]
      exact List.getElem?_eq_getElem _
  · intro x hx
    rw [ByteMemory.store_outside, ByteMemory.store_outside]
    · intro hin
      have hat := hlocated.add (show virtualAddress % 0x1000 + (x - location) < 0x1000 by omega)
      rw [Nat.add_sub_of_le hin.1] at hat
      exact hx (x - location) (by omega) hat
    · intro hin
      have hat := hother.add (show (virtualAddress + k) % 0x1000 + (x - other) < 0x1000 by omega)
      rw [Nat.add_sub_of_le hin.1, Nat.add_assoc] at hat
      exact hx (k + (x - other)) (by omega) hat

/-! ## One page -/

section Round

variable {bytes : List UInt8} {valueEnd written offset count : Nat} {page : Page .size4KiB}

/-- A round on a mapped page, for the offset and the number of bytes that it computes. -/
theorem relocatePage_of_translate {frame : PhysicalFrame .size4KiB} {flags : PageTableEntryFlags}
    (hoffset : (if virtualAddress > page.address then virtualAddress - page.address else 0) =
      offset)
    (hcount : (if valueEnd > page.address + 0x1000 then
        checkedSub (page.address + 0x1000) virtualAddress
      else Checked.sub bytes.length written) = .ok count)
    (hsmall : offset ≤ 0x1000) (hlength : written + count ≤ bytes.length)
    (hfits : page.address + 0x1000 < 2 ^ 64)
    (htranslated : loader.pageTable.translate page m = .ok (.ok (frame, flags))) :
    loader.relocatePage bytes virtualAddress valueEnd page (m, written) =
      .ok (m.store (frame.address + offset) ((bytes.drop written).take count),
        written + count) := by
  have hend : page.endAddress = .ok (page.address + 0x1000) := Checked.add_of_lt hfits
  have haddress : Checked.add 64 frame.address offset = .ok (frame.address + offset) := by
    have hlt := translate_lt htranslated
    exact Checked.add_of_lt (by omega)
  unfold relocatePage
  by_cases hlate : valueEnd > page.address + 0x1000
  · rw [if_pos hlate] at hcount
    simp [htranslated, expectOk, hend, hoffset, hlate, hcount, haddress, hlength]
  · rw [if_neg hlate] at hcount
    simp [htranslated, expectOk, hend, hoffset, hlate, hcount, haddress, hlength]

/-- A round that returns met a mapped page that is not the last one. -/
theorem translate_of_relocatePage {result : ByteMemory × Nat}
    (h : loader.relocatePage bytes virtualAddress valueEnd page (m, written) = .ok result) :
    page.address + 0x1000 < 2 ^ 64 ∧
      ∃ frame flags, loader.pageTable.translate page m = .ok (.ok (frame, flags)) := by
  unfold relocatePage at h
  obtain ⟨translated, htranslated, h⟩ := Checked.bind_eq_ok.mp h
  obtain ⟨found, hfound, h⟩ := Checked.bind_eq_ok.mp h
  obtain ⟨pageEnd, hend, _⟩ := Checked.bind_eq_ok.mp h
  cases translated with
  | error error => cases hfound
  | ok pair => exact ⟨(Checked.add_eq_ok.mp hend).1, pair.1, pair.2, htranslated⟩

end Round

/-! ## The parts of the word -/

theorem checkedSub_of_le {a b : Nat} (h : b ≤ a) : checkedSub a b = .ok (a - b) := by
  rw [checkedSub, if_pos h]
  rfl

theorem relocatePage_first (hlocated : loader.LocatedAt m virtualAddress location)
    (hfits : alignDown virtualAddress 0x1000 + 0x1000 < 2 ^ 64) :
    loader.relocatePage (toLittleEndian 8 value) virtualAddress (virtualAddress + 8)
        (.containingAddress .size4KiB virtualAddress) (m, 0) =
      .ok (m.store location ((toLittleEndian 8 value).take (firstCount virtualAddress)),
        firstCount virtualAddress) := by
  obtain ⟨frame, flags, htranslated, rfl⟩ := hlocated
  have haddress : (Page.containingAddress .size4KiB virtualAddress).address =
      virtualAddress - virtualAddress % 0x1000 := rfl
  have hmod : virtualAddress % 0x1000 ≤ virtualAddress := Nat.mod_le _ _
  have hcount : (if virtualAddress + 8 >
      (Page.containingAddress .size4KiB virtualAddress).address + 0x1000 then
      checkedSub ((Page.containingAddress .size4KiB virtualAddress).address + 0x1000)
        virtualAddress
      else Checked.sub (toLittleEndian 8 value).length 0) = .ok (firstCount virtualAddress) := by
    rw [haddress, firstCount]
    by_cases hlate : virtualAddress + 8 > virtualAddress - virtualAddress % 0x1000 + 0x1000
    · have hmin : virtualAddress - virtualAddress % 0x1000 + 0x1000 - virtualAddress =
          min 8 (0x1000 - virtualAddress % 0x1000) := by omega
      rw [if_pos hlate, checkedSub_of_le (by omega), hmin]
    · have hmin : 8 = min 8 (0x1000 - virtualAddress % 0x1000) := by omega
      rw [if_neg hlate, toLittleEndian_length, Checked.sub_of_le (by omega), Nat.sub_zero, ← hmin]
  have hoffset : (if virtualAddress > (Page.containingAddress .size4KiB virtualAddress).address
      then virtualAddress - (Page.containingAddress .size4KiB virtualAddress).address else 0) =
      virtualAddress % 0x1000 := by
    rw [haddress]
    split <;> omega
  have hlength : 0 + firstCount virtualAddress ≤ (toLittleEndian 8 value).length := by
    rw [toLittleEndian_length, firstCount]
    omega
  have hround := relocatePage_of_translate hoffset hcount (by omega) hlength hfits htranslated
  have hzero : 0 + firstCount virtualAddress = firstCount virtualAddress := Nat.zero_add _
  rw [List.drop_zero, hzero] at hround
  exact hround

theorem relocatePage_second {page : Page .size4KiB} {written : Nat}
    {frame : PhysicalFrame .size4KiB} {flags : PageTableEntryFlags}
    (hle : virtualAddress ≤ page.address) (hwritten : written ≤ 8)
    (hfits : page.address + 0x1000 < 2 ^ 64)
    (htranslated : loader.pageTable.translate page m = .ok (.ok (frame, flags))) :
    loader.relocatePage (toLittleEndian 8 value) virtualAddress (virtualAddress + 8) page
        (m, written) =
      .ok (m.store frame.address ((toLittleEndian 8 value).drop written), 8) := by
  have hlength := toLittleEndian_length 8 value
  have hcount : (if virtualAddress + 8 > page.address + 0x1000 then
      checkedSub (page.address + 0x1000) virtualAddress
      else Checked.sub (toLittleEndian 8 value).length written) = .ok (8 - written) := by
    rw [if_neg (by omega), hlength, Checked.sub_of_le hwritten]
  have hoffset : (if virtualAddress > page.address then virtualAddress - page.address else 0) =
      0 := if_neg (Nat.not_lt.mpr hle)
  have hround := relocatePage_of_translate hoffset hcount (by omega) (by omega) hfits htranslated
  have hrest : ((toLittleEndian 8 value).drop written).take (8 - written) =
      (toLittleEndian 8 value).drop written := by
    apply List.take_of_length_le
    rw [List.length_drop, hlength]
  rw [hrest, Nat.add_zero, Nat.add_sub_of_le hwritten] at hround
  exact hround

/-! ## The whole word -/

section Handle

variable {entry : RelocationEntry} {addend : Nat}

theorem handleRelativeRelocation_eq_ok (haddend : entry.addend = some addend)
    (hsum : loader.virtualBase + addend < 2 ^ 64)
    (htarget : loader.virtualBase + entry.offset < 2 ^ 64) :
    loader.handleRelativeRelocation entry m = .ok m' ↔
      loader.virtualBase + entry.offset + 8 < 2 ^ 64 ∧ ∃ written,
        (Page.containingAddress .size4KiB (loader.virtualBase + entry.offset)).forRange
          (Page.containingAddress .size4KiB (loader.virtualBase + entry.offset + 8))
          (loader.relocatePage (toLittleEndian 8 (loader.virtualBase + addend))
            (loader.virtualBase + entry.offset) (loader.virtualBase + entry.offset + 8))
          (m, 0) = .ok (m', written) := by
  unfold handleRelativeRelocation
  simp only [haddend, Checked.expect, Checked.ok_bind, Checked.add_of_lt hsum,
    Checked.add_of_lt htarget, toLittleEndian_length]
  by_cases hend : loader.virtualBase + entry.offset + 8 < 2 ^ 64
  · simp only [Checked.add_of_lt hend, Checked.ok_bind, hend, true_and]
    constructor
    · intro h
      obtain ⟨result, hloop, h⟩ := Checked.bind_eq_ok.mp h
      obtain rfl := Except.ok.inj h
      exact ⟨result.2, hloop⟩
    · intro h
      obtain ⟨written, hloop⟩ := h
      rw [hloop]
      rfl
  · have hadd : Checked.add 64 (loader.virtualBase + entry.offset) 8 = .error .overflow :=
      if_neg hend
    simp only [hadd, Checked.error_bind]
    constructor
    · intro h
      cases h
    · intro h
      exact absurd h.1 hend

theorem handleRelativeRelocation_of_one_page (haddend : entry.addend = some addend)
    (hsum : loader.virtualBase + addend < 2 ^ 64)
    (htarget : loader.virtualBase + entry.offset < 2 ^ 64)
    (hshort : (loader.virtualBase + entry.offset) % 0x1000 + 8 < 0x1000)
    (hlocated : loader.LocatedAt m (loader.virtualBase + entry.offset) location) :
    loader.handleRelativeRelocation entry m = .ok m' ↔
      alignDown (loader.virtualBase + entry.offset + 8) 0x1000 + 0x1000 < 2 ^ 64 ∧
        m' = m.store location (toLittleEndian 8 (loader.virtualBase + addend)) := by
  rw [handleRelativeRelocation_eq_ok haddend hsum htarget]
  generalize loader.virtualBase + entry.offset = virtualAddress at *
  have hpage : Page.containingAddress .size4KiB (virtualAddress + 8) =
      Page.containingAddress .size4KiB virtualAddress := by
    ext
    change virtualAddress + 8 - (virtualAddress + 8) % 0x1000 =
      virtualAddress - virtualAddress % 0x1000
    omega
  have halign : alignDown (virtualAddress + 8) 0x1000 = alignDown virtualAddress 0x1000 :=
    congrArg Page.address hpage
  have htake : (toLittleEndian 8 (loader.virtualBase + addend)).take
      (firstCount virtualAddress) = toLittleEndian 8 (loader.virtualBase + addend) := by
    apply List.take_of_length_le
    rw [toLittleEndian_length, firstCount]
    omega
  rw [hpage, halign]
  constructor
  · intro h
    obtain ⟨_, written, hloop⟩ := h
    obtain ⟨hfits, hround⟩ := Page.forRange_self_eq_ok.mp hloop
    rw [relocatePage_first hlocated hfits, htake] at hround
    exact ⟨hfits, (Prod.mk.inj (Except.ok.inj hround)).1.symm⟩
  · intro h
    obtain ⟨hfits, rfl⟩ := h
    refine ⟨?_, firstCount virtualAddress, Page.forRange_self_eq_ok.mpr ⟨hfits, ?_⟩⟩
    · unfold alignDown at hfits
      omega
    · rw [relocatePage_first hlocated hfits, htake]

theorem handleRelativeRelocation_of_two_pages (haddend : entry.addend = some addend)
    (hsum : loader.virtualBase + addend < 2 ^ 64)
    (htarget : loader.virtualBase + entry.offset < 2 ^ 64)
    (hlong : 0x1000 ≤ (loader.virtualBase + entry.offset) % 0x1000 + 8)
    (hlocated : loader.LocatedAt m (loader.virtualBase + entry.offset) location) :
    let bytes := toLittleEndian 8 (loader.virtualBase + addend)
    let count := firstCount (loader.virtualBase + entry.offset)
    loader.handleRelativeRelocation entry m = .ok m' ↔
      alignDown (loader.virtualBase + entry.offset + 8) 0x1000 + 0x1000 < 2 ^ 64 ∧
        ∃ frame flags, loader.pageTable.translate
          (.containingAddress .size4KiB (loader.virtualBase + entry.offset + 8))
            (m.store location (bytes.take count)) = .ok (.ok (frame, flags)) ∧
          m' = (m.store location (bytes.take count)).store frame.address (bytes.drop count) := by
  intro bytes count
  rw [handleRelativeRelocation_eq_ok haddend hsum htarget]
  subst bytes count
  generalize loader.virtualBase + entry.offset = virtualAddress at *
  have hcount : firstCount virtualAddress ≤ 8 := Nat.min_le_left _ _
  have hmod : virtualAddress % 0x1000 < 0x1000 := Nat.mod_lt _ (by decide)
  have hnext : (Page.containingAddress .size4KiB (virtualAddress + 8)).address =
      (Page.containingAddress .size4KiB virtualAddress).address + PageSize.size4KiB.size := by
    change virtualAddress + 8 - (virtualAddress + 8) % 0x1000 =
      virtualAddress - virtualAddress % 0x1000 + 0x1000
    omega
  have hle : virtualAddress ≤ (Page.containingAddress .size4KiB (virtualAddress + 8)).address := by
    rw [hnext]
    change virtualAddress ≤ virtualAddress - virtualAddress % 0x1000 + 0x1000
    omega
  have halign : alignDown virtualAddress 0x1000 + 0x1000 =
      alignDown (virtualAddress + 8) 0x1000 := hnext.symm
  constructor
  · intro h
    obtain ⟨_, written, hloop⟩ := h
    obtain ⟨hfits, state, hfirst, hsecond⟩ := (Page.forRange_next_eq_ok hnext).mp hloop
    have hbelow : alignDown (virtualAddress + 8) 0x1000 + 0x1000 < 2 ^ 64 := hfits
    rw [relocatePage_first hlocated (by omega)] at hfirst
    obtain rfl := Except.ok.inj hfirst
    obtain ⟨_, frame, flags, htranslated⟩ := translate_of_relocatePage hsecond
    rw [relocatePage_second hle hcount hfits htranslated] at hsecond
    exact ⟨hfits, frame, flags, htranslated, (Prod.mk.inj (Except.ok.inj hsecond)).1.symm⟩
  · intro h
    obtain ⟨hfits, frame, flags, htranslated, rfl⟩ := h
    have hend : virtualAddress + 8 < 2 ^ 64 := by
      unfold alignDown at hfits
      omega
    have hbelow : alignDown virtualAddress 0x1000 + 0x1000 < 2 ^ 64 := by omega
    exact ⟨hend, 8, (Page.forRange_next_eq_ok hnext).mpr ⟨hfits, _,
      relocatePage_first hlocated hbelow, relocatePage_second hle hcount hfits htranslated⟩⟩

/-- What is stored of a word that reaches the end of its page is right exactly when the rest
goes where it belongs. -/
theorem wordStored_iff {address : Nat} (hlong : 0x1000 ≤ virtualAddress % 0x1000 + 8)
    (hmapped : ∀ i < 8, ∃ location, loader.LocatedAt m (virtualAddress + i) location)
    (hlocated : loader.LocatedAt m virtualAddress location) :
    let bytes := toLittleEndian 8 value
    let first := m.store location (bytes.take (firstCount virtualAddress))
    loader.WordStored m virtualAddress value
        (first.store address (bytes.drop (firstCount virtualAddress))) ↔
      ∀ other, loader.LocatedAt m (alignDown (virtualAddress + 8) 0x1000) other →
        first.store address (bytes.drop (firstCount virtualAddress)) =
          first.store other (bytes.drop (firstCount virtualAddress)) := by
  intro bytes first
  have hlength : bytes.length = 8 := toLittleEndian_length 8 value
  have hmod : virtualAddress % 0x1000 < 0x1000 := Nat.mod_lt _ (by decide)
  by_cases hend : virtualAddress % 0x1000 + 8 = 0x1000
  · -- all of the word lies on the first page
    have hcount : firstCount virtualAddress = 8 := by
      unfold firstCount
      omega
    have hdrop : bytes.drop 8 = [] := List.drop_eq_nil_of_le (by omega)
    have hfirst : first = m.store location bytes := by
      subst first
      rw [hcount, List.take_of_length_le (by omega)]
    rw [hcount, hdrop, ByteMemory.store_nil, hfirst]
    constructor
    · intro _ other _
      exact (ByteMemory.store_nil _ _).symm
    · intro _
      exact wordStored_of_one_page (Nat.le_of_eq hend) hlocated
  · constructor
    · intro hstored other hother
      exact hstored.unique (wordStored_of_two_pages (by omega) hlocated hother)
    · intro hsame
      have hlast : alignDown (virtualAddress + 8) 0x1000 =
          virtualAddress + firstCount virtualAddress := by
        unfold alignDown firstCount
        omega
      obtain ⟨other, hother⟩ := hmapped (firstCount virtualAddress) (by
        unfold firstCount
        omega)
      rw [← hlast] at hother
      rw [hsame other hother]
      exact wordStored_of_two_pages (by omega) hlocated hother

/-- The relocated word is stored exactly under the condition. -/
theorem relocates_iff (haddend : entry.addend = some addend)
    (hsum : loader.virtualBase + addend < 2 ^ 64)
    (hmapped : ∀ i < 8, loader.virtualBase + entry.offset + i < 2 ^ 64 ∧
      ∃ location, loader.LocatedAt m (loader.virtualBase + entry.offset + i) location) :
    loader.Relocates entry (loader.virtualBase + addend) m ↔
      loader.RelocationCondition m (loader.virtualBase + entry.offset)
        (loader.virtualBase + addend) := by
  obtain ⟨htarget, location, hlocated⟩ := hmapped 0 (by decide)
  rw [Nat.add_zero] at htarget hlocated
  by_cases hshort : (loader.virtualBase + entry.offset) % 0x1000 + 8 < 0x1000
  · constructor
    · intro hrelocates
      obtain ⟨m', hrun, _⟩ := hrelocates
      have hresult := (handleRelativeRelocation_of_one_page haddend hsum htarget hshort
        hlocated).mp hrun
      exact ⟨hresult.1, fun hlong => absurd hshort (Nat.not_lt.mpr hlong)⟩
    · intro hcondition
      exact ⟨_, (handleRelativeRelocation_of_one_page haddend hsum htarget hshort
        hlocated).mpr ⟨hcondition.inside, rfl⟩, wordStored_of_one_page (by omega) hlocated⟩
  · have hlong : 0x1000 ≤ (loader.virtualBase + entry.offset) % 0x1000 + 8 :=
      Nat.not_lt.mp hshort
    have hbytes := fun i hi => (hmapped i hi).2
    constructor
    · intro hrelocates
      obtain ⟨m', hrun, hstored⟩ := hrelocates
      obtain ⟨hinside, frame, flags, htranslated, rfl⟩ :=
        (handleRelativeRelocation_of_two_pages haddend hsum htarget hlong hlocated).mp hrun
      refine ⟨hinside, fun _ other hother => ?_⟩
      rw [hother.unique hlocated]
      exact ⟨frame, flags, htranslated, (wordStored_iff hlong hbytes hlocated).mp hstored⟩
    · intro hcondition
      obtain ⟨frame, flags, htranslated, hsame⟩ := hcondition.next hlong location hlocated
      exact ⟨_, (handleRelativeRelocation_of_two_pages haddend hsum htarget hlong
        hlocated).mpr ⟨hcondition.inside, frame, flags, htranslated, rfl⟩,
        (wordStored_iff hlong hbytes hlocated).mpr hsame⟩

/-- For a word apart from the tables that map the page behind it, the condition is that a word
that ends with its page is followed by a mapped page. -/
theorem relocationCondition_iff_of_apart
    (hmapped : ∀ i < 8, ∃ location, loader.LocatedAt m (virtualAddress + i) location)
    (hapart : ∀ location, loader.LocatedAt m virtualAddress location →
      loader.pageTable.translate (.containingAddress .size4KiB (virtualAddress + 8))
          (m.store location ((toLittleEndian 8 value).take (firstCount virtualAddress))) =
        loader.pageTable.translate (.containingAddress .size4KiB (virtualAddress + 8)) m) :
    loader.RelocationCondition m virtualAddress value ↔
      alignDown (virtualAddress + 8) 0x1000 + 0x1000 < 2 ^ 64 ∧
        (virtualAddress % 0x1000 + 8 = 0x1000 →
          ∃ location, loader.LocatedAt m (virtualAddress + 8) location) := by
  obtain ⟨location, hlocated⟩ := hmapped 0 (by decide)
  rw [Nat.add_zero] at hlocated
  constructor
  · intro hcondition
    refine ⟨hcondition.inside, fun hend => ?_⟩
    obtain ⟨frame, flags, htranslated, _⟩ := hcondition.next (Nat.le_of_eq hend.symm) _ hlocated
    rw [hapart location hlocated] at htranslated
    exact ⟨_, frame, flags, htranslated, rfl⟩
  · intro hnext
    refine ⟨hnext.1, fun hlong other hother => ?_⟩
    -- the page behind the first one is mapped, by the word or by the condition
    have hbehind : ∃ location, loader.LocatedAt m (virtualAddress + 8) location := by
      by_cases hend : virtualAddress % 0x1000 + 8 = 0x1000
      · exact hnext.2 hend
      · have hmod : virtualAddress % 0x1000 < 0x1000 := Nat.mod_lt _ (by decide)
        obtain ⟨last, hlast⟩ := hmapped 7 (by decide)
        have hpage : (virtualAddress + 7) % 0x1000 + 1 < 0x1000 := by omega
        have hat := LocatedAt.add hlast hpage
        rw [Nat.add_assoc virtualAddress] at hat
        exact ⟨last + 1, hat⟩
    obtain ⟨_, frame, flags, htranslated, _⟩ := hbehind
    refine ⟨frame, flags, (hapart other hother).trans htranslated, fun found hfound => ?_⟩
    obtain ⟨frame', flags', htranslated', rfl⟩ := hfound
    have hpage : Page.containingAddress .size4KiB (alignDown (virtualAddress + 8) 0x1000) =
        Page.containingAddress .size4KiB (virtualAddress + 8) := by
      ext
      exact alignDown_of_mod (alignDown_mod (virtualAddress + 8) 0x1000)
    rw [hpage, htranslated] at htranslated'
    rw [(Prod.mk.inj (Except.ok.inj (Except.ok.inj htranslated'))).1,
      alignDown_mod (virtualAddress + 8) 0x1000, Nat.add_zero]

end Handle

theorem exists_translate_of_address {page : Page .size4KiB} {address : Nat}
    (h : (loader.pageTable.translate page m).toOption.map (fun result =>
      result.toOption.map fun found => found.1.address) = some (some address)) :
    ∃ frame flags, loader.pageTable.translate page m = .ok (.ok (frame, flags)) ∧
      frame.address = address := by
  obtain ⟨result, htranslated, hresult⟩ := Checked.exists_of_toOption h
  cases result with
  | error error => cases hresult
  | ok found => exact ⟨found.1, found.2, htranslated, Option.some.inj hresult⟩

def onePageTables : ByteMemory :=
  let m := ByteMemory.writeWord (fun _ => 0) 0x1000 0x2007
  let m := m.writeWord 0x2000 0x3007
  let m := m.writeWord 0x3000 0x4007
  m.writeWord 0x4000 0x10003

def twoPageTables : ByteMemory := onePageTables.writeWord 0x4008 0x20003

def onePageLoader : KernelLoader PhysicalOffset :=
  ⟨0, 0, ⟨⟨0⟩, 0x1000, by decide⟩⟩

theorem locatedAt_onePageTables {x : Nat} (h : x < 0x1000) :
    onePageLoader.LocatedAt onePageTables x (0x10000 + x) := by
  obtain ⟨frame, flags, htranslated, haddress⟩ := @exists_translate_of_address _ _ onePageLoader
    onePageTables (.containingAddress .size4KiB 0) 0x10000 (by decide +kernel)
  have hzero : onePageLoader.LocatedAt onePageTables 0 0x10000 :=
    ⟨frame, flags, htranslated, haddress.symm⟩
  have hat := hzero.add (show 0 % 0x1000 + x < 0x1000 by omega)
  rwa [Nat.zero_add] at hat

theorem locatedAt_twoPageTables {x : Nat} (h : x < 0x2000) :
    onePageLoader.LocatedAt twoPageTables x
      (if x < 0x1000 then 0x10000 + x else 0x1F000 + x) := by
  by_cases hfirst : x < 0x1000
  · obtain ⟨frame, flags, htranslated, haddress⟩ := @exists_translate_of_address _ _ onePageLoader
      twoPageTables (.containingAddress .size4KiB 0) 0x10000 (by decide +kernel)
    have hzero : onePageLoader.LocatedAt twoPageTables 0 0x10000 :=
      ⟨frame, flags, htranslated, haddress.symm⟩
    have hat := hzero.add (show 0 % 0x1000 + x < 0x1000 by omega)
    rw [if_pos hfirst]
    rwa [Nat.zero_add] at hat
  · obtain ⟨frame, flags, htranslated, haddress⟩ := @exists_translate_of_address _ _ onePageLoader
      twoPageTables (.containingAddress .size4KiB 0x1000) 0x20000 (by decide +kernel)
    have hstart : onePageLoader.LocatedAt twoPageTables 0x1000 0x20000 :=
      ⟨frame, flags, htranslated, haddress.symm⟩
    have hat := hstart.add (show 0x1000 % 0x1000 + (x - 0x1000) < 0x1000 by omega)
    rw [if_neg hfirst]
    rwa [show 0x1000 + (x - 0x1000) = x by omega,
      show 0x20000 + (x - 0x1000) = 0x1F000 + x by omega] at hat

def entryAt (offset : Nat) : RelocationEntry :=
  ⟨.x86_64 .relative, offset, some 0x1234⟩

/-- The word lies half in one frame and half in the other. -/
theorem relocates_across_frames :
    onePageLoader.Relocates (entryAt 0xffc) 0x1234 twoPageTables := by
  have hbase : onePageLoader.virtualBase + 0x1234 = 0x1234 := rfl
  have htarget : onePageLoader.virtualBase + (entryAt 0xffc).offset = 0xffc := rfl
  rw [← hbase]
  refine (relocates_iff rfl (by decide) ?_).mpr ?_
  · intro i hi
    rw [htarget]
    exact ⟨by omega, _, locatedAt_twoPageTables (by omega)⟩
  · rw [htarget]
    refine ⟨by decide, fun _ location hlocated => ?_⟩
    obtain rfl : location = 0x10ffc := hlocated.unique (locatedAt_twoPageTables (by decide))
    -- the first half is not stored in the tables, so the second page is where it was
    obtain ⟨frame, flags, htranslated, haddress⟩ := @exists_translate_of_address _ _ onePageLoader
      (twoPageTables.store 0x10ffc ((toLittleEndian 8 0x1234).take (firstCount 0xffc)))
      (.containingAddress .size4KiB (0xffc + 8)) 0x20000 (by decide +kernel)
    refine ⟨frame, flags, htranslated, fun other hother => ?_⟩
    obtain rfl : other = 0x20000 := hother.unique (locatedAt_twoPageTables (by decide))
    rw [haddress]

/-- The word ends with the mapped page, and the page behind it is not mapped. -/
theorem not_relocates_at_page_end :
    (∀ i < 8, onePageLoader.virtualBase + (entryAt 0xff8).offset + i < 2 ^ 64 ∧
      ∃ location, onePageLoader.LocatedAt onePageTables
        (onePageLoader.virtualBase + (entryAt 0xff8).offset + i) location) ∧
      ¬ onePageLoader.Relocates (entryAt 0xff8) 0x1234 onePageTables := by
  have htarget : onePageLoader.virtualBase + (entryAt 0xff8).offset = 0xff8 := rfl
  constructor
  · intro i hi
    rw [htarget]
    exact ⟨by omega, _, locatedAt_onePageTables (by omega)⟩
  · intro hrelocates
    obtain ⟨m', hrun, _⟩ := hrelocates
    have hpanics : (onePageLoader.handleRelativeRelocation (entryAt 0xff8)
        onePageTables).toOption.isSome = false := by
      decide +kernel
    rw [hrun] at hpanics
    cases hpanics

end KernelLoader

end MiniatureOs
