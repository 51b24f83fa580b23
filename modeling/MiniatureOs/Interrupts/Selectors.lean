import MiniatureOs.Boot.Descriptors

/-! # Selectors

`add_entry` of `x86_64/src/gdt.rs` returns a selector for each descriptor, and `load` gives
the processor the address of the table and the offset of its last byte. The processor finds
a descriptor by its selector in memory, a system descriptor in two entries.
-/

namespace MiniatureOs

/-! ## `add_entry` -/

namespace SegmentSelector

def index (selector : SegmentSelector) : Nat := (selector >>> 3).toNat

def privilege (selector : SegmentSelector) : BitVec 2 := selector.extractLsb' 0 2

end SegmentSelector

namespace SegmentDescriptor

def words : SegmentDescriptor → List (BitVec 64)
  | .user word => [word]
  | .system low high => [low, high]

def privilege : SegmentDescriptor → BitVec 2
  | .user word => word.extractLsb' 45 2
  | .system low _ => low.extractLsb' 45 2

end SegmentDescriptor

namespace GlobalDescriptorTable

/-- Calls of `add_entry`, with the selectors that they return. -/
def addEntries : List SegmentDescriptor → GlobalDescriptorTable →
    Checked (List SegmentSelector × GlobalDescriptorTable)
  | [], table => .ok ([], table)
  | entry :: entries, table => do
      let (selector, table) ← table.addEntry entry
      let (selectors, table) ← addEntries entries table
      return (selector :: selectors, table)

end GlobalDescriptorTable

/-- The contents of `GDTR` or `IDTR`. -/
structure TableRegister where
  limit : Nat
  base : Nat
  deriving DecidableEq

/-- `GlobalDescriptorTableDescriptor::new`, for the address of the table. -/
def GlobalDescriptorTable.descriptor (table : GlobalDescriptorTable) (address : Nat) :
    Checked TableRegister := do
  let limit ← Checked.sub (table.size * 8) 1
  return ⟨limit % 2 ^ 16, address⟩

/-! ## The processor -/

def TableRegister.entry (gdtr : TableRegister) (m : ByteMemory) (i : Nat) : Option (BitVec 64) :=
  if i * 8 + 7 ≤ gdtr.limit then some (m.readWord (gdtr.base + i * 8)) else none

/-- The descriptor of a selector. The entry says whether it takes two; the selector with
index zero has none. -/
def TableRegister.lookup (gdtr : TableRegister) (m : ByteMemory) (selector : SegmentSelector) :
    Option SegmentDescriptor :=
  if selector.index = 0 then none
  else
    (gdtr.entry m selector.index).bind fun low =>
      if low &&& SegmentDescriptorFlags.userSegment ≠ 0 then some (.user low)
      else (gdtr.entry m (selector.index + 1)).map fun high => .system low high

/-! ## The table in memory -/

namespace GlobalDescriptorTable

variable {table table' : GlobalDescriptorTable} {words : List (BitVec 64)} {word : BitVec 64}
  {entry : SegmentDescriptor} {entries : List SegmentDescriptor}

structure Holds (table : GlobalDescriptorTable) (words : List (BitVec 64)) : Prop where
  entries : table.entries = 0 :: words ++ List.replicate (7 - words.length) 0
  size : table.size = words.length + 1
  fits : words.length ≤ 7

theorem holds_new : Holds new [] := ⟨rfl, rfl, by decide⟩

theorem Holds.length_entries (h : Holds table words) : table.entries.length = 8 := by
  have hfits := h.fits
  rw [h.entries, List.length_append, List.length_cons, List.length_replicate]
  omega

theorem Holds.push (h : Holds table words) (hroom : words.length < 7) (word : BitVec 64) :
    ∃ table', table.push word = .ok table' ∧ Holds table' (words ++ [word]) := by
  have hlt : table.size < table.entries.length := by
    rw [h.length_entries, h.size]
    omega
  refine ⟨_, if_pos hlt, ?_, ?_, ?_⟩
  · obtain ⟨free, hfree⟩ : ∃ free, 7 - words.length = free + 1 := ⟨6 - words.length, by omega⟩
    have hafter : 7 - (words ++ [word]).length = free := by
      rw [List.length_append, List.length_singleton]
      omega
    have hused : (0 :: words).length = words.length + 1 := rfl
    rw [h.entries, h.size, hafter, hfree, List.replicate_succ, ← hused,
      List.set_append_right _ _ (Nat.le_refl _), Nat.sub_self, List.set_cons_zero]
    simp
  · simp [h.size]
  · rw [List.length_append, List.length_singleton]
    omega

theorem Holds.push_full (h : Holds table words) (hfull : words.length = 7) (word : BitVec 64) :
    table.push word = .error (.message "GDT full") := by
  apply if_neg
  rw [h.length_entries, h.size, hfull]
  decide

end GlobalDescriptorTable

theorem SegmentDescriptor.descriptorPrivilegeLevel_ok (entry : SegmentDescriptor) :
    ∃ level, entry.descriptorPrivilegeLevel = .ok level ∧
      level.toBits.extractLsb' 0 2 = entry.privilege := by
  have hlevel : ∀ low : BitVec 64, ∃ level,
      PrivilegeLevel.fromByte ((low >>> 45) &&& 0b11).toNat = .ok level ∧
        level.toBits.extractLsb' 0 2 = low.extractLsb' 45 2 := by
    intro low
    have hbits : (low >>> 45) &&& 0b11 = (low.extractLsb' 45 2).setWidth 64 := by
      apply BitVec.eq_of_getLsbD_eq
      intro i hi
      have hmask : ∀ i < 64, (0b11 : BitVec 64).getLsbD i = decide (i < 2) := by decide
      rw [BitVec.getLsbD_and, BitVec.getLsbD_ushiftRight, hmask i hi, BitVec.getLsbD_setWidth,
        BitVec.getLsbD_extractLsb', decide_eq_true hi, Bool.true_and, Bool.and_comm]
    have hfour : ∀ b : BitVec 2, b = 0 ∨ b = 1 ∨ b = 2 ∨ b = 3 := by decide
    rw [hbits]
    rcases hfour (low.extractLsb' 45 2) with h | h | h | h
    · exact ⟨.ring0, by rw [h]; rfl, by rw [h]; rfl⟩
    · exact ⟨.ring1, by rw [h]; rfl, by rw [h]; rfl⟩
    · exact ⟨.ring2, by rw [h]; rfl, by rw [h]; rfl⟩
    · exact ⟨.ring3, by rw [h]; rfl, by rw [h]; rfl⟩
  cases entry with
  | user word => exact hlevel word
  | system low high => exact hlevel low

theorem SegmentSelector.index_new :
    ∀ idx < 8, ∀ level, (new (BitVec.ofNat 16 idx) level).index = idx := by
  intro idx hidx level
  cases level <;> revert idx <;> decide

theorem SegmentSelector.privilege_new :
    ∀ idx < 8, ∀ level, (new (BitVec.ofNat 16 idx) level).privilege =
      level.toBits.extractLsb' 0 2 := by
  intro idx hidx level
  cases level <;> revert idx <;> decide

namespace GlobalDescriptorTable

variable {table table' : GlobalDescriptorTable} {words : List (BitVec 64)} {m : ByteMemory}
  {entry : SegmentDescriptor} {entries : List SegmentDescriptor} {address i : Nat}

structure Selects (selector : SegmentSelector) (index : Nat) (entry : SegmentDescriptor) :
    Prop where
  index : selector.index = index
  privilege : selector.privilege = entry.privilege

theorem Holds.addEntry (h : Holds table words)
    (hroom : words.length + entry.words.length ≤ 7) :
    ∃ selector table', table.addEntry entry = .ok (selector, table') ∧
      Selects selector (words.length + 1) entry ∧ Holds table' (words ++ entry.words) := by
  obtain ⟨level, hlevel, hprivilege⟩ := entry.descriptorPrivilegeLevel_ok
  have hselects : words.length + 1 < 8 →
      Selects (.new (BitVec.ofNat 16 table.size) level) (words.length + 1) entry := by
    intro hlt
    rw [h.size]
    exact ⟨SegmentSelector.index_new _ hlt level,
      (SegmentSelector.privilege_new _ hlt level).trans hprivilege⟩
  cases entry with
  | user word =>
      have hroom' : words.length + 1 ≤ 7 := hroom
      obtain ⟨table', hpush, hholds⟩ := h.push (by omega) word
      refine ⟨_, table', ?_, hselects (by omega), hholds⟩
      simp only [GlobalDescriptorTable.addEntry, hpush, hlevel, Checked.ok_bind,
        Checked.pure_eq_ok]
  | system low high =>
      have hroom' : words.length + 2 ≤ 7 := hroom
      obtain ⟨table₁, hlow, hholds₁⟩ := h.push (by omega) low
      obtain ⟨table', hhigh, hholds⟩ := hholds₁.push (by simp; omega) high
      refine ⟨_, table', ?_, hselects (by omega), ?_⟩
      · simp only [GlobalDescriptorTable.addEntry, hlow, hhigh, hlevel, Checked.ok_bind,
          Checked.pure_eq_ok]
      · rw [List.append_assoc] at hholds
        exact hholds

theorem Holds.addEntry_full (h : Holds table words)
    (hfull : 7 < words.length + entry.words.length) :
    table.addEntry entry = .error (.message "GDT full") := by
  have hfits := h.fits
  cases entry with
  | user word =>
      have hlast : 7 < words.length + 1 := hfull
      simp only [GlobalDescriptorTable.addEntry, h.push_full (by omega) word, Checked.error_bind]
  | system low high =>
      have hlast : 7 < words.length + 2 := hfull
      by_cases hroom : words.length < 7
      · obtain ⟨table₁, hlow, hholds₁⟩ := h.push hroom low
        have hhigh := hholds₁.push_full (by simp; omega) high
        simp only [GlobalDescriptorTable.addEntry, hlow, hhigh, Checked.ok_bind,
          Checked.error_bind]
      · simp only [GlobalDescriptorTable.addEntry, h.push_full (by omega) low, Checked.error_bind]

def allWords (entries : List SegmentDescriptor) : List (BitVec 64) :=
  entries.flatMap SegmentDescriptor.words

theorem Holds.addEntries (h : Holds table words)
    (hroom : words.length + (allWords entries).length ≤ 7) :
    ∃ selectors table', addEntries entries table = .ok (selectors, table') ∧
      Holds table' (words ++ allWords entries) ∧ selectors.length = entries.length ∧
      ∀ front entry back, entries = front ++ entry :: back →
        ∃ selector, selectors[front.length]? = some selector ∧
          Selects selector (words.length + (allWords front).length + 1) entry := by
  induction entries generalizing table words with
  | nil =>
      refine ⟨[], table, rfl, ?_, rfl, fun front entry back hsplit => ?_⟩
      · simpa [allWords] using h
      · simp at hsplit
  | cons entry entries ih =>
      have hwords : allWords (entry :: entries) = entry.words ++ allWords entries := rfl
      rw [hwords, List.length_append] at hroom
      have hfirst : words.length + entry.words.length ≤ 7 := by omega
      obtain ⟨selector, table₁, hadd, hselects, hholds₁⟩ := h.addEntry hfirst
      obtain ⟨selectors, table', hrest, hholds, hlength, hall⟩ :=
        ih hholds₁ (by rw [List.length_append]; omega)
      refine ⟨selector :: selectors, table', ?_, ?_, by simp [hlength],
        fun front entry' back hsplit => ?_⟩
      · rw [GlobalDescriptorTable.addEntries, hadd]
        simp only [Checked.ok_bind, hrest, Checked.pure_eq_ok]
      · rw [hwords, ← List.append_assoc]
        exact hholds
      · cases front with
        | nil =>
            obtain ⟨rfl, rfl⟩ := List.cons.inj hsplit
            exact ⟨selector, rfl, hselects⟩
        | cons first front =>
            obtain ⟨rfl, hbehind⟩ := List.cons.inj hsplit
            obtain ⟨selector', hget, hselects'⟩ := hall front entry' back hbehind
            refine ⟨selector', hget, ?_⟩
            have hfront : allWords (entry :: front) = entry.words ++ allWords front := rfl
            rw [List.length_append] at hselects'
            rw [hfront, List.length_append, ← Nat.add_assoc]
            exact hselects'

theorem Holds.addEntries_full (h : Holds table words)
    (hfull : 7 < words.length + (allWords entries).length) :
    GlobalDescriptorTable.addEntries entries table = .error (.message "GDT full") := by
  induction entries generalizing table words with
  | nil =>
      have hfits := h.fits
      simp [allWords] at hfull
      omega
  | cons entry entries ih =>
      have hwords : allWords (entry :: entries) = entry.words ++ allWords entries := rfl
      rw [hwords, List.length_append] at hfull
      rw [GlobalDescriptorTable.addEntries]
      by_cases hroom : words.length + entry.words.length ≤ 7
      · obtain ⟨selector, table₁, hadd, _, hholds₁⟩ := h.addEntry hroom
        have hrest := ih hholds₁ (by rw [List.length_append]; omega)
        simp only [hadd, Checked.ok_bind, hrest, Checked.error_bind]
      · rw [h.addEntry_full (by omega), Checked.error_bind]

/-! ## What the processor finds -/

/-- Bit 44 tells the kinds of descriptors apart. -/
def Kinded : SegmentDescriptor → Prop
  | .user word => word &&& SegmentDescriptorFlags.userSegment ≠ 0
  | .system low _ => low &&& SegmentDescriptorFlags.userSegment = 0

instance : (entry : SegmentDescriptor) → Decidable (Kinded entry)
  | .user _ => inferInstanceAs (Decidable (_ ≠ _))
  | .system _ _ => inferInstanceAs (Decidable (_ = _))

theorem kinded_tss (ptr : BitVec 64) :
    Kinded (.system (SegmentDescriptor.tssLow ptr) (SegmentDescriptor.tssHigh ptr)) := by
  apply BitVec.eq_of_getLsbD_eq
  intro i hi
  have hbit : ∀ i < 64, SegmentDescriptorFlags.userSegment.getLsbD i = decide (i = 44) := by decide
  rw [BitVec.getLsbD_and, hbit i hi]
  refine Eq.trans ?_ BitVec.getLsbD_zero.symm
  by_cases heq : i = 44
  · rw [heq, SegmentDescriptor.getLsbD_tssLow_constant ptr (by decide) (by decide)]
    rfl
  · rw [decide_eq_false heq, Bool.and_false]

theorem kinded_user {flags : SegmentDescriptorFlags} (hflags : flags.Declared)
    (huser : BitVec.getLsbD flags 44 = true) (limit base : BitVec 32) :
    Kinded (.user (userWord flags limit base)) := by
  intro hzero
  have hbit := congrArg (BitVec.getLsbD · 44) hzero
  rw [BitVec.getLsbD_and, getLsbD_userWord hflags (by decide), if_neg (by decide),
    if_neg (by decide), if_neg (by decide), if_neg (by decide), huser] at hbit
  exact absurd hbit (by decide)

/-- What the constructors build: `new_user` for a code or data segment, and
`new_tss_segment`. -/
def Built (entry : SegmentDescriptor) : Prop :=
  (∃ (flags : SegmentDescriptorFlags) (limit base : BitVec 32), flags.Declared ∧
    BitVec.getLsbD flags 44 = true ∧ SegmentDescriptor.newUser flags limit base = .ok entry) ∨
  ∃ ptr, SegmentDescriptor.newTssSegment ptr = .ok entry

theorem Built.kinded (h : Built entry) : Kinded entry := by
  cases h with
  | inl huser =>
      obtain ⟨flags, limit, base, hflags, hbit, hnew⟩ := huser
      rw [newUser_eq] at hnew
      obtain rfl := Except.ok.inj hnew
      exact kinded_user hflags hbit limit base
  | inr htss =>
      obtain ⟨ptr, hnew⟩ := htss
      rw [SegmentDescriptor.newTssSegment_eq] at hnew
      obtain rfl := Except.ok.inj hnew
      exact kinded_tss ptr

theorem Holds.descriptor (h : Holds table words) (address : Nat) :
    table.descriptor address = .ok ⟨words.length * 8 + 7, address⟩ := by
  have hfits := h.fits
  rw [GlobalDescriptorTable.descriptor, h.size, Checked.sub_of_le (by omega), Checked.ok_bind]
  have hlimit : ((words.length + 1) * 8 - 1) % 2 ^ 16 = words.length * 8 + 7 := by omega
  rw [hlimit]
  rfl

theorem Holds.readWord (h : Holds table words) {front back : List (BitVec 64)} {word : BitVec 64}
    (hsplit : words = front ++ word :: back) (m : ByteMemory) (address : Nat) :
    (m.store address table.toBytes).readWord (address + (front.length + 1) * 8) = word := by
  let encode : BitVec 64 → List UInt8 := fun entry => toLittleEndian 8 entry.toNat
  let behind := back.flatMap encode ++
    ((List.replicate (7 - words.length) 0).flatMap encode ++ toLittleEndian 8 table.size)
  have hbytes : table.toBytes =
      (0 :: front).flatMap encode ++ toLittleEndian 8 word.toNat ++ behind := by
    rw [toBytes, h.entries]
    simp only [hsplit, behind, encode, List.flatMap_append, List.flatMap_cons, List.append_assoc,
      List.cons_append]
  have hlength : ((0 :: front).flatMap encode).length = (front.length + 1) * 8 := by
    simp [encode, List.length_flatMap]
    omega
  rw [hbytes, ← hlength]
  exact ByteMemory.readWord_store_part m address _ _ word

theorem Holds.getEntry (h : Holds table words) {front back : List (BitVec 64)} {word : BitVec 64}
    (hsplit : words = front ++ word :: back) (m : ByteMemory) (address : Nat) :
    TableRegister.entry ⟨words.length * 8 + 7, address⟩ (m.store address table.toBytes)
      (front.length + 1) = some word := by
  have hlength : words.length = front.length + (back.length + 1) := by
    rw [hsplit, List.length_append, List.length_cons]
  rw [TableRegister.entry, if_pos (by simp only; omega)]
  exact congrArg some (h.readWord hsplit m address)

theorem Holds.lookup (h : Holds table words) {front back : List (BitVec 64)}
    (hsplit : words = front ++ entry.words ++ back) (hkind : Kinded entry)
    {selector : SegmentSelector} (hselects : Selects selector (front.length + 1) entry)
    (m : ByteMemory) (address : Nat) :
    TableRegister.lookup ⟨words.length * 8 + 7, address⟩ (m.store address table.toBytes)
      selector = some entry := by
  have hindex := hselects.index
  have hpos : selector.index ≠ 0 := by omega
  rw [TableRegister.lookup, if_neg hpos, hindex]
  cases entry with
  | user word =>
      rw [h.getEntry (by rw [hsplit, List.append_assoc]; rfl), Option.bind_some,
        if_pos (show word &&& SegmentDescriptorFlags.userSegment ≠ 0 from hkind)]
  | system low high =>
      have hlow : words = front ++ low :: high :: back := by
        rw [hsplit, List.append_assoc]
        rfl
      have hhigh : words = (front ++ [low]) ++ high :: back := by
        rw [hlow, List.append_assoc]
        rfl
      have hnext := h.getEntry hhigh m address
      rw [List.length_append, List.length_singleton] at hnext
      rw [h.getEntry hlow, Option.bind_some, if_neg (by rw [not_ne_iff]; exact hkind), hnext]
      rfl

/-- Every descriptor is found by its own selector, wherever the table lies. -/
structure FindsAll (entries : List SegmentDescriptor) (selectors : List SegmentSelector)
    (table : GlobalDescriptorTable) : Prop where
  length : selectors.length = entries.length
  distinct : selectors.Nodup
  found : ∀ (m : ByteMemory) (address : Nat), ∃ gdtr, table.descriptor address = .ok gdtr ∧
    ∀ (i : Nat) (entry : SegmentDescriptor), entries[i]? = some entry →
      ∃ selector, selectors[i]? = some selector ∧
      selector.privilege = entry.privilege ∧
      gdtr.lookup (m.store address table.toBytes) selector = some entry

theorem allWords_take_lt {i j : Nat} (hij : i < j) (hj : j < entries.length) :
    (allWords (entries.take i)).length < (allWords (entries.take j)).length := by
  have hi : i < entries.length := by omega
  have hnext : allWords (entries.take (i + 1)) =
      allWords (entries.take i) ++ entries[i].words := by
    rw [List.take_add_one, List.getElem?_eq_getElem hi, allWords, List.flatMap_append]
    simp [allWords]
  have hpos : 0 < entries[i].words.length := by
    cases entries[i] <;> exact Nat.succ_pos _
  have hprefix : entries.take (i + 1) <+: entries.take j := List.take_prefix_take_left hij
  have hle : (allWords (entries.take (i + 1))).length ≤ (allWords (entries.take j)).length := by
    obtain ⟨rest, hrest⟩ := hprefix
    rw [← hrest, allWords, allWords, List.flatMap_append, List.length_append]
    omega
  rw [hnext, List.length_append] at hle
  omega

/-- A table has room for seven entries. Descriptors that take no more can be found by the
selectors that `add_entry` returned, and with more it panics. -/
theorem addEntries_findsAll (entries : List SegmentDescriptor)
    (hkind : ∀ entry ∈ entries, Kinded entry) :
    ((allWords entries).length ≤ 7 → ∃ selectors table,
      addEntries entries new = .ok (selectors, table) ∧ FindsAll entries selectors table) ∧
    (7 < (allWords entries).length →
      addEntries entries new = .error (.message "GDT full")) := by
  constructor
  · intro hroom
    have hroom' : ([] : List (BitVec 64)).length + (allWords entries).length ≤ 7 := by
      rw [List.length_nil, Nat.zero_add]
      exact hroom
    obtain ⟨selectors, table, hrun, hholds, hlength, hall⟩ := holds_new.addEntries hroom'
    rw [List.nil_append] at hholds
    -- the descriptor number `i` and those in front of it
    have hselects : ∀ i (hi : i < entries.length), ∃ selector, selectors[i]? = some selector ∧
        Selects selector ((allWords (entries.take i)).length + 1) entries[i] := by
      intro i hi
      have hsplit : entries = entries.take i ++ entries[i] :: entries.drop (i + 1) := by
        rw [← List.drop_eq_getElem_cons hi, List.take_append_drop]
      obtain ⟨selector, hget, hselects⟩ := hall _ _ _ hsplit
      rw [List.length_take_of_le (by omega)] at hget
      rw [List.length_nil, Nat.zero_add] at hselects
      exact ⟨selector, hget, hselects⟩
    refine ⟨selectors, table, hrun, hlength, ?_, fun m address => ?_⟩
    · refine List.pairwise_iff_getElem.mpr fun i j hi hj hij hsame => ?_
      obtain ⟨selector, hget, hselected⟩ := hselects i (by omega)
      obtain ⟨selector', hget', hselected'⟩ := hselects j (by omega)
      obtain ⟨_, rfl⟩ := List.getElem?_eq_some_iff.mp hget
      obtain ⟨_, rfl⟩ := List.getElem?_eq_some_iff.mp hget'
      have hindex := hselected.index
      rw [hsame, hselected'.index] at hindex
      have hlast : j < entries.length := by omega
      have hlt := allWords_take_lt hij hlast
      omega
    · refine ⟨_, hholds.descriptor address, fun i entry hentry => ?_⟩
      obtain ⟨hi, rfl⟩ := List.getElem?_eq_some_iff.mp hentry
      obtain ⟨selector, hget, hselected⟩ := hselects i hi
      refine ⟨selector, hget, hselected.privilege, ?_⟩
      have hwords : allWords entries = allWords (entries.take i) ++ entries[i].words ++
          allWords (entries.drop (i + 1)) := by
        have hsplit : entries = entries.take i ++ entries[i] :: entries.drop (i + 1) := by
          rw [← List.drop_eq_getElem_cons hi, List.take_append_drop]
        refine (congrArg allWords hsplit).trans ?_
        rw [allWords, List.flatMap_append, List.flatMap_cons, ← List.append_assoc]
        rfl
      exact hholds.lookup hwords (hkind _ (List.getElem_mem hi)) hselected m address
  · intro hfull
    exact holds_new.addEntries_full (by rw [List.length_nil, Nat.zero_add]; exact hfull)

def kernelEntries (tss : BitVec 64) : List SegmentDescriptor :=
  [.system (SegmentDescriptor.tssLow tss) (SegmentDescriptor.tssHigh tss),
    .user SegmentDescriptor.kernelCode, .user SegmentDescriptor.kernelData]

theorem built_kernelEntries {tss : BitVec 64} (h : entry ∈ kernelEntries tss) : Built entry := by
  simp only [kernelEntries, List.mem_cons, List.not_mem_nil, or_false] at h
  rcases h with rfl | rfl | rfl
  · exact .inr ⟨tss, SegmentDescriptor.newTssSegment_eq tss⟩
  · exact .inl ⟨_, 0, 0, by decide, by decide, SegmentDescriptor.kernelCodeSegment_eq⟩
  · exact .inl ⟨_, 0, 0, by decide, by decide, SegmentDescriptor.kernelDataSegment_eq⟩

theorem addEntries_findsAll_kernelEntries :
    ∃ selectors table, addEntries (kernelEntries 0x4000) new = .ok (selectors, table) ∧
      FindsAll (kernelEntries 0x4000) selectors table :=
  (addEntries_findsAll (kernelEntries 0x4000) fun _ hentry =>
    (built_kernelEntries hentry).kinded).1 (by decide)

end GlobalDescriptorTable

end MiniatureOs
