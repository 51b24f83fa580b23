import MiniatureOs.Lib.Stored
import MiniatureOs.Paging.Walk

/-! # Long mode

`bootloader/x86_64/bios/stage3/src/paging.rs`: stage 3 fills three static tables with large
pages and switches to long mode. What it runs on afterwards, and stage 4 after it, are
physical addresses as long as they are below 10 GiB.
-/

namespace MiniatureOs

/-! ## The tables -/

/-- The addresses of `PML4T`, `PDPT` and `PDT`, the last of ten tables. Stage 3 runs in the
lower 4 GiB. -/
structure Stage3Tables where
  pml4t : Nat
  pdpt : Nat
  pdt : Nat
  pml4t_aligned : pml4t % 4096 = 0
  pdpt_aligned : pdpt % 4096 = 0
  pdt_aligned : pdt % 4096 = 0
  pml4t_fits : pml4t < 2 ^ 32
  pdpt_fits : pdpt < 2 ^ 32
  pdt_fits : pdt + 10 * 4096 ≤ 2 ^ 32
  pml4t_apart_pdpt : pml4t ≠ pdpt
  pml4t_apart_pdt : pml4t < pdt ∨ pdt + 10 * 4096 ≤ pml4t
  pdpt_apart_pdt : pdpt < pdt ∨ pdt + 10 * 4096 ≤ pdpt

namespace Stage3Tables

def linkFlags : PageTableEntryFlags := .writable ||| .present

def linkEntry (address : Nat) : PageTableEntry := BitVec.ofNat 64 address ||| linkFlags.bits

def hugeEntry (address : Nat) : PageTableEntry :=
  BitVec.ofNat 64 address ||| linkFlags.bits ||| PageTableEntryFlags.hugePage.bits

/-- The inner loop of `create_mappings`: the entries `js` of a table. -/
def mapHugePages (table offset : Nat) : List Nat → ByteMemory → Checked ByteMemory
  | [], m => .ok m
  | j :: js, m => do
      let start ← Checked.mul 64 j (2 * 2 ^ 20)
      let address ← Checked.add 64 offset start
      mapHugePages table offset js (m.writeWord (table + 8 * j) (hugeEntry address))

/-- The outer loop: the tables `is`. -/
def mapTables (t : Stage3Tables) : List Nat → ByteMemory → Checked ByteMemory
  | [], m => .ok m
  | i :: is, m => do
      let l2 := t.pdt + 4096 * i
      let m := m.writeWord (t.pdpt + 8 * i) (linkEntry l2)
      let offset ← Checked.mul 64 i (1 * 2 ^ 30)
      let m ← mapHugePages l2 offset (List.range 512) m
      t.mapTables is m

def createMappings (t : Stage3Tables) (m : ByteMemory) : Checked ByteMemory :=
  t.mapTables (List.range 10) (m.writeWord (t.pml4t + 8 * 0) (linkEntry t.pdpt))

end Stage3Tables

/-! ## The switch -/

/-- The registers that `enable_paging` writes, and the lower half of `EFER`. -/
structure ControlRegisters where
  cr0 : BitVec 32
  cr3 : BitVec 32
  cr4 : BitVec 32
  efer : BitVec 32

namespace ControlRegisters

/-- A write to `CR0`. Paging needs protected mode and, when long mode is enabled, the
physical address extension; otherwise the processor raises an exception. -/
def writeCr0 (r : ControlRegisters) (value : BitVec 32) : Option ControlRegisters :=
  if value.getLsbD 31 then
    if value.getLsbD 0 then
      if r.efer.getLsbD 8 then
        if r.cr4.getLsbD 5 then some { r with cr0 := value, efer := r.efer ||| 1#32 <<< 10 }
        else none
      else some { r with cr0 := value }
    else none
  else some { r with cr0 := value }

/-- A write to `EFER`. Long mode is enabled and disabled only while paging is off. -/
def writeEfer (r : ControlRegisters) (value : BitVec 32) : Option ControlRegisters :=
  if r.cr0.getLsbD 31 = true ∧ value.getLsbD 8 ≠ r.efer.getLsbD 8 then none
  else some { r with efer := value }

def enablePaging (r : ControlRegisters) (pml4t : Nat) : Option ControlRegisters := do
  let r := { r with cr3 := BitVec.ofNat 32 pml4t }
  let r := { r with cr4 := r.cr4 ||| 1#32 <<< 5 }
  let r ← r.writeEfer (r.efer ||| 1#32 <<< 8)
  r.writeCr0 (r.cr0 ||| 1#32 <<< 31)

structure LongModeActive (r : ControlRegisters) : Prop where
  paging : r.cr0.getLsbD 31 = true
  extension : r.cr4.getLsbD 5 = true
  active : r.efer.getLsbD 10 = true

theorem enablePaging_ok (r : ControlRegisters) (hprotected : r.cr0.getLsbD 0 = true)
    (hunpaged : r.cr0.getLsbD 31 = false) {pml4t : Nat} (hfits : pml4t < 2 ^ 32) :
    ∃ r', r.enablePaging pml4t = some r' ∧ r'.LongModeActive ∧ r'.cr3.toNat = pml4t := by
  have hset : ∀ (word : BitVec 32) (i : Nat), i < 32 →
      (word ||| 1#32 <<< i).getLsbD i = true := by
    intro word i hi
    rw [← BitVec.twoPow_eq]
    simp [hi]
  have hpaging := hset r.cr0 31 (by decide)
  have hpae := hset r.cr4 5 (by decide)
  have hlme := hset r.efer 8 (by decide)
  have hpe : (r.cr0 ||| 1#32 <<< 31).getLsbD 0 = true := by
    rw [BitVec.getLsbD_or, hprotected, Bool.true_or]
  refine ⟨⟨r.cr0 ||| 1#32 <<< 31, BitVec.ofNat 32 pml4t, r.cr4 ||| 1#32 <<< 5,
    r.efer ||| 1#32 <<< 8 ||| 1#32 <<< 10⟩, ?_, ⟨hpaging, hpae, hset _ 10 (by decide)⟩, ?_⟩
  · simp only [enablePaging, writeEfer, hunpaged, Bool.false_eq_true, false_and, if_false,
      Option.bind_eq_bind, Option.bind_some, writeCr0, hpaging, hpe, hlme, hpae, if_true]
  · rw [BitVec.toNat_ofNat, Nat.mod_eq_of_lt hfits]

end ControlRegisters

namespace Stage3Tables

def initAndSwitchToLongMode (t : Stage3Tables) (m : ByteMemory) (r : ControlRegisters) :
    Checked (Option (ByteMemory × ControlRegisters)) := do
  let m ← t.createMappings m
  return (r.enablePaging t.pml4t).map fun r => (m, r)

/-! ## What the loops write -/

variable {t : Stage3Tables} {m m' : ByteMemory}

def hugeWrites (table offset : Nat) (js : List Nat) : List (Nat × BitVec 64) :=
  js.map fun j => (table + 8 * j, hugeEntry (offset + j * (2 * 2 ^ 20)))

theorem mapHugePages_eq (table : Nat) {offset : Nat} (hoffset : offset ≤ 10 * 2 ^ 30)
    {js : List Nat} (hjs : ∀ j ∈ js, j < 512) :
    mapHugePages table offset js m = .ok (m.writeWords (hugeWrites table offset js)) := by
  induction js generalizing m with
  | nil => rfl
  | cons j js ih =>
      have hj := hjs j List.mem_cons_self
      rw [mapHugePages, Checked.mul_of_lt (by omega), Checked.ok_bind,
        Checked.add_of_lt (by omega), Checked.ok_bind,
        ih fun k hk => hjs k (List.mem_cons_of_mem _ hk)]
      rfl

def tableWrites (t : Stage3Tables) (i : Nat) : List (Nat × BitVec 64) :=
  (t.pdpt + 8 * i, linkEntry (t.pdt + 4096 * i)) ::
    hugeWrites (t.pdt + 4096 * i) (i * (1 * 2 ^ 30)) (List.range 512)

theorem mapTables_eq {is : List Nat} (his : ∀ i ∈ is, i < 10) :
    t.mapTables is m = .ok (m.writeWords (is.flatMap t.tableWrites)) := by
  induction is generalizing m with
  | nil => rfl
  | cons i is ih =>
      have hi := his i List.mem_cons_self
      rw [mapTables, Checked.mul_of_lt (by omega), Checked.ok_bind,
        mapHugePages_eq _ (by omega) fun j hj => List.mem_range.mp hj, Checked.ok_bind,
        ih fun k hk => his k (List.mem_cons_of_mem _ hk), List.flatMap_cons,
        ByteMemory.writeWords_append, tableWrites, ByteMemory.writeWords]

def writes (t : Stage3Tables) : List (Nat × BitVec 64) :=
  (t.pml4t + 8 * 0, linkEntry t.pdpt) :: (List.range 10).flatMap t.tableWrites

theorem createMappings_eq : t.createMappings m = .ok (m.writeWords t.writes) := by
  rw [createMappings, mapTables_eq fun _ hi => List.mem_range.mp hi, writes, ByteMemory.writeWords]

theorem mem_writes {write : Nat × BitVec 64} : write ∈ t.writes ↔
    write = (t.pml4t, linkEntry t.pdpt) ∨
      ∃ i < 10, write = (t.pdpt + 8 * i, linkEntry (t.pdt + 4096 * i)) ∨
        ∃ j < 512, write = (t.pdt + 4096 * i + 8 * j,
          hugeEntry (i * (1 * 2 ^ 30) + j * (2 * 2 ^ 20))) := by
  simp only [writes, tableWrites, hugeWrites, List.mem_cons, List.mem_flatMap, List.mem_range,
    List.mem_map, Nat.mul_zero, Nat.add_zero, eq_comm]

def Inside (t : Stage3Tables) (x : Nat) : Prop :=
  (t.pml4t ≤ x ∧ x < t.pml4t + 4096) ∨ (t.pdpt ≤ x ∧ x < t.pdpt + 4096) ∨
    (t.pdt ≤ x ∧ x < t.pdt + 10 * 4096)

/-- `PageTable::empty`, for the two tables of which not every entry is written. -/
structure Empty (t : Stage3Tables) (m : ByteMemory) : Prop where
  pml4t : ∀ i, tableEntry m t.pml4t i = PageTableEntry.unused
  pdpt : ∀ i, tableEntry m t.pdpt i = PageTableEntry.unused

theorem writes_aligned : ∀ write ∈ t.writes, write.1 % 8 = 0 := by
  intro write hwrite
  have hpml4t := t.pml4t_aligned
  have hpdpt := t.pdpt_aligned
  have hpdt := t.pdt_aligned
  rcases mem_writes.mp hwrite with rfl | ⟨i, hi, rfl | ⟨j, hj, rfl⟩⟩
  · simp only
    omega
  · simp only
    omega
  · simp only
    omega

theorem createMappings_outside {x : Nat} (hx : ¬ t.Inside x) : m.writeWords t.writes x = m x := by
  refine ByteMemory.writeWords_outside fun write hwrite hin => hx ?_
  rcases mem_writes.mp hwrite with rfl | ⟨i, hi, rfl | ⟨j, hj, rfl⟩⟩
  · exact .inl ⟨hin.1, by simp only at hin; omega⟩
  · refine .inr (.inl ?_)
    simp only at hin
    omega
  · refine .inr (.inr ?_)
    simp only at hin
    omega

structure Filled (t : Stage3Tables) (m : ByteMemory) : Prop where
  pml4t : ∀ i : Fin 512, tableEntry m t.pml4t i =
    if i.val = 0 then linkEntry t.pdpt else PageTableEntry.unused
  pdpt : ∀ i : Fin 512, tableEntry m t.pdpt i =
    if i.val < 10 then linkEntry (t.pdt + 4096 * i) else PageTableEntry.unused
  pdt : ∀ i < 10, ∀ j : Fin 512, tableEntry m (t.pdt + 4096 * i) j =
    hugeEntry (i * (1 * 2 ^ 30) + j * (2 * 2 ^ 20))

theorem writes_unique {write write' : Nat × BitVec 64} (h : write ∈ t.writes)
    (h' : write' ∈ t.writes) (heq : write.1 = write'.1) : write = write' := by
  have hpml4t := t.pml4t_aligned
  have hpdpt := t.pdpt_aligned
  have hpdt := t.pdt_aligned
  have hapart₁ := t.pml4t_apart_pdpt
  have hapart₂ := t.pml4t_apart_pdt
  have hapart₃ := t.pdpt_apart_pdt
  rcases mem_writes.mp h with rfl | ⟨i, hi, rfl | ⟨j, hj, rfl⟩⟩ <;>
    rcases mem_writes.mp h' with rfl | ⟨i', hi', rfl | ⟨j', hj', rfl⟩⟩ <;> simp only at heq
  · rfl
  · omega
  · omega
  · omega
  · obtain rfl : i = i' := by omega
    rfl
  · omega
  · omega
  · omega
  · obtain rfl : i = i' := by omega
    obtain rfl : j = j' := by omega
    rfl

theorem tableEntry_of_mem {table : Nat} {i : Fin 512} {word : PageTableEntry}
    (h : (entryAddress table i, word) ∈ t.writes) :
    tableEntry (m.writeWords t.writes) table i = word :=
  ByteMemory.readWord_writeWords_of_mem writes_aligned (writes_aligned _ h) h
    fun _ hwrite heq => congrArg Prod.snd (writes_unique hwrite h heq)

theorem tableEntry_of_unwritten {table : Nat} {i : Fin 512}
    (h : table = t.pml4t ∧ i.val ≠ 0 ∨ table = t.pdpt ∧ 10 ≤ i.val) :
    tableEntry (m.writeWords t.writes) table i = tableEntry m table i := by
  have hpml4t := t.pml4t_aligned
  have hpdpt := t.pdpt_aligned
  have hpdt := t.pdt_aligned
  have hapart₁ := t.pml4t_apart_pdpt
  have hapart₂ := t.pml4t_apart_pdt
  have hapart₃ := t.pdpt_apart_pdt
  have hi := i.isLt
  refine ByteMemory.readWord_writeWords_of_not_mem writes_aligned ?_ fun write hwrite heq => ?_
  · unfold entryAddress
    omega
  · rcases mem_writes.mp hwrite with rfl | ⟨k, hk, rfl | ⟨j, hj, rfl⟩⟩ <;>
      simp only [entryAddress] at heq <;> omega

theorem filled_createMappings (h : t.Empty m) : t.Filled (m.writeWords t.writes) := by
  refine ⟨fun i => ?_, fun i => ?_, fun i hi j => ?_⟩
  · by_cases hzero : i.val = 0
    · rw [if_pos hzero]
      refine tableEntry_of_mem (mem_writes.mpr (.inl ?_))
      rw [entryAddress, hzero, Nat.mul_zero, Nat.add_zero]
    · rw [if_neg hzero, tableEntry_of_unwritten (.inl ⟨rfl, hzero⟩), h.pml4t i]
  · by_cases hten : i.val < 10
    · rw [if_pos hten]
      exact tableEntry_of_mem (mem_writes.mpr (.inr ⟨i, hten, .inl rfl⟩))
    · rw [if_neg hten, tableEntry_of_unwritten (.inr ⟨rfl, by omega⟩), h.pdpt i]
  · exact tableEntry_of_mem (mem_writes.mpr (.inr ⟨i, hi, .inr ⟨j, j.isLt, rfl⟩⟩))

theorem Filled.congr (h : t.Filled m) (hsame : ∀ x, t.Inside x → m' x = m x) : t.Filled m' := by
  have hentry : ∀ table (i : Fin 512), (∀ x, table ≤ x → x < table + 4096 → t.Inside x) →
      tableEntry m' table i = tableEntry m table i := by
    intro table i hinside
    have hi := i.isLt
    refine ByteMemory.readWord_congr fun x hle hlt => hsame x (hinside x ?_ ?_)
    · unfold entryAddress at hle
      omega
    · unfold entryAddress at hlt
      omega
  refine ⟨fun i => ?_, fun i => ?_, fun i hi j => ?_⟩
  · rw [hentry _ i fun x hle hlt => .inl ⟨hle, hlt⟩, h.pml4t i]
  · rw [hentry _ i fun x hle hlt => .inr (.inl ⟨hle, hlt⟩), h.pdpt i]
  · rw [hentry _ j fun x hle hlt => .inr (.inr ⟨by omega, by omega⟩), h.pdt i hi j]

/-! ## The walk -/

def kernelRights : Rights := ⟨true, true, false⟩

theorem within_linkEntry {address : Nat} (haligned : address % 4096 = 0)
    (hlt : address < 2 ^ 48) {flags : PageTableEntryFlags} {rights : Rights}
    (hrights : rights = .all ∨ rights = kernelRights)
    (hflags : flags.bits.getLsbD 1 = true ∧ flags.bits.getLsbD 2 = false ∧
      flags.bits.getLsbD 63 = false) :
    rights.within (PageTableEntry.setAddress address flags) = kernelRights := by
  have hbit : ∀ {i : Nat}, i < 12 ∨ 48 ≤ i →
      (PageTableEntry.setAddress address flags).getLsbD i = flags.bits.getLsbD i :=
    PageTableEntry.getLsbD_setAddress haligned hlt
  rw [Rights.within, hbit (by omega), hbit (by omega), hbit (by omega), hflags.1, hflags.2.1,
    hflags.2.2]
  cases hrights with
  | inl hall => rw [hall]; rfl
  | inr hkernel => rw [hkernel]; rfl

theorem hugeEntry_eq (address : Nat) :
    hugeEntry address = PageTableEntry.setAddress address (linkFlags ||| .hugePage) :=
  BitVec.or_assoc _ _ _

def gibibyteFrame (i j : Nat) : PhysicalFrame .size2MiB :=
  .containingAddress .size2MiB (i * (1 * 2 ^ 30) + j * (2 * 2 ^ 20))

theorem gibibyteFrame_address (i j : Nat) :
    (gibibyteFrame i j).address = i * (1 * 2 ^ 30) + j * (2 * 2 ^ 20) := by
  simp only [gibibyteFrame, PhysicalFrame.containingAddress_address, alignDown, PageSize.size]
  omega

/-- Below 10 GiB the walk ends in a large page. -/
theorem Filled.walk_low (h : t.Filled m) {address : Nat} (hlow : address < 10 * 2 ^ 30) :
    walkTables m address t.pml4t [⟨l4Index address, 39⟩, ⟨l3Index address, 30⟩,
      ⟨l2Index address, 21⟩, ⟨l1Index address, 12⟩] .all = some (address, kernelRights) := by
  have hpdpt := t.pdpt_aligned
  have hpdt := t.pdt_aligned
  have hpdptFits := t.pdpt_fits
  have hpdtFits := t.pdt_fits
  have hfour : (l4Index address).val = 0 := by
    simp only [l4Index]
    omega
  have hthree : (l3Index address).val < 10 := by
    simp only [l3Index]
    omega
  have hfirst : tableEntry m t.pml4t (l4Index address) =
      PageTableEntry.setAddress t.pdpt linkFlags := by
    rw [h.pml4t, if_pos hfour]
    rfl
  have hsecond : tableEntry m t.pdpt (l3Index address) =
      PageTableEntry.setAddress (t.pdt + 4096 * (l3Index address)) linkFlags := by
    rw [h.pdpt, if_pos hthree]
    rfl
  have hthird : tableEntry m (t.pdt + 4096 * (l3Index address)) (l2Index address) =
      PageTableEntry.setAddress (gibibyteFrame (l3Index address) (l2Index address)).address
        (linkFlags ||| .hugePage) := by
    rw [h.pdt _ hthree, hugeEntry_eq, gibibyteFrame_address]
  have hframe : (gibibyteFrame (l3Index address) (l2Index address)).address +
      address % PageSize.size2MiB.size = address := by
    rw [gibibyteFrame_address]
    simp only [l3Index, l2Index, PageSize.size]
    omega
  have hbelow : (gibibyteFrame (l3Index address) (l2Index address)).address < 2 ^ 48 := by
    omega
  rw [walkTables_of_pointer hfirst hpdpt (by omega) (by decide) (by decide) (by decide),
    walkTables_of_pointer hsecond (by omega) (by omega) (by decide) (by decide) (by decide),
    walkTables_of_leaf hthird hbelow (by decide) rfl (by decide) (.inr (by decide)), hframe,
    within_linkEntry hpdpt (by omega) (.inl rfl) (by decide),
    within_linkEntry (by omega) (by omega) (.inr rfl) (by decide),
    within_linkEntry (PhysicalFrame.address_mod _) hbelow (.inr rfl) (by decide)]

/-- The first 10 GiB are mapped to themselves, and nothing else is mapped. -/
theorem Filled.mmuWalk_eq (h : t.Filled m) (address : Nat) : mmuWalk m t.pml4t address =
    if address < 10 * 2 ^ 30 then some (address, kernelRights) else none := by
  have hpdpt := t.pdpt_aligned
  have hpdptFits := t.pdpt_fits
  by_cases hlow : address < 10 * 2 ^ 30
  · have hcanonical : Canonical address := .inl (by omega)
    rw [mmuWalk, if_pos hcanonical, if_pos hlow, h.walk_low hlow]
  · rw [if_neg hlow, mmuWalk]
    split
    next hcanonical =>
      unfold Canonical at hcanonical
      by_cases hfour : (l4Index address).val = 0
      · -- the address is below 512 GiB, in one of the other entries of the second level
        have hthree : ¬ (l3Index address).val < 10 := by
          simp only [l4Index] at hfour
          simp only [l3Index]
          omega
        have hfirst : tableEntry m t.pml4t (l4Index address) =
            PageTableEntry.setAddress t.pdpt linkFlags := by
          rw [h.pml4t, if_pos hfour]
          rfl
        rw [walkTables_of_pointer hfirst hpdpt (by omega) (by decide) (by decide) (by decide)]
        refine walkTables_of_absent ?_
        rw [h.pdpt, if_neg hthree]
        decide
      · refine walkTables_of_absent ?_
        rw [h.pml4t, if_neg hfour]
        decide
    next => rfl

/-- Stage 3, which runs in protected mode without paging, switches to long mode and changes no
other memory. As long as nothing writes to
the tables, the processor then maps the first 10 GiB to themselves, and nothing else. -/
theorem longMode_identity (t : Stage3Tables) (m : ByteMemory) (r : ControlRegisters)
    (hempty : t.Empty m) (hprotected : r.cr0.getLsbD 0 = true)
    (hunpaged : r.cr0.getLsbD 31 = false) :
    ∃ m' r', t.initAndSwitchToLongMode m r = .ok (some (m', r')) ∧ r'.LongModeActive ∧
      (∀ x, ¬ t.Inside x → m' x = m x) ∧
      ∀ m'', (∀ x, t.Inside x → m'' x = m' x) → ∀ address, mmuWalk m'' r'.cr3.toNat address =
        if address < 10 * 2 ^ 30 then some (address, kernelRights) else none := by
  obtain ⟨r', hpaging, hactive, hcr3⟩ := r.enablePaging_ok hprotected hunpaged t.pml4t_fits
  refine ⟨m.writeWords t.writes, r', ?_, hactive, fun x hx => createMappings_outside hx, ?_⟩
  · rw [initAndSwitchToLongMode, createMappings_eq, Checked.ok_bind, hpaging]
    rfl
  · intro m'' hsame address
    rw [hcr3]
    exact ((filled_createMappings hempty).congr hsame).mmuWalk_eq address

def stage3Statics : Stage3Tables :=
  ⟨0x101000, 0x102000, 0x103000, by decide, by decide, by decide, by decide, by decide, by decide,
    by decide, by decide, by decide⟩

theorem longMode_identity_stage3Statics :
    ∃ m' r', stage3Statics.initAndSwitchToLongMode (fun _ => 0) ⟨1, 0, 0, 0⟩ = .ok (some (m', r')) ∧
      r'.LongModeActive ∧ mmuWalk m' r'.cr3.toNat 0x120000 = some (0x120000, kernelRights) ∧
      mmuWalk m' r'.cr3.toNat (10 * 2 ^ 30) = none := by
  have hempty : stage3Statics.Empty (fun _ => 0) :=
    ⟨fun _ => ByteMemory.readWord_of_zero fun _ _ _ => rfl,
      fun _ => ByteMemory.readWord_of_zero fun _ _ _ => rfl⟩
  obtain ⟨m', r', hrun, hactive, -, hwalk⟩ :=
    longMode_identity stage3Statics (fun _ => 0) ⟨1, 0, 0, 0⟩ hempty (by decide) (by decide)
  refine ⟨m', r', hrun, hactive, ?_, ?_⟩
  · rw [hwalk m' (fun _ _ => rfl), if_pos (by decide)]
  · rw [hwalk m' (fun _ _ => rfl), if_neg (by decide)]

end Stage3Tables

end MiniatureOs
