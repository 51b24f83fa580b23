import MiniatureOs.Disk.Transfers
import MiniatureOs.Fat.Geometry
import MiniatureOs.Lib.Packing

/-! # Reading table entries through the BIOS

The disk of stage 2 is a `DiskAccess` on the memory of the machine. Its
`read_bytes` fetches the two sectors around a byte offset, so an entry of the
allocation table is read whole even where it lies across a sector boundary, and
`get_entry` recovers the values that the format packs into the table.
-/

namespace MiniatureOs

/-! ## The disk of stage 2 -/

/-- A `DiskAccess` with the disk behind it and the memory it writes to: the static
`TMP_BUF`, which stage 2 has in its image below 1 MiB, and the slice of the
caller. -/
structure BiosDisk where
  image : ByteMemory
  memory : ByteMemory
  access : DiskAccess
  tmpBuf : Nat
  tmpBuf_le : tmpBuf + defaultSectorSize * 2 ≤ 2 ^ 20
  buffer : Nat

instance : FatDisk BiosDisk where
  seek d pos := do
    let (offset, access) ← d.access.seek pos
    return (offset, { d with access })
  readBytes d len := do
    let (bytes, access, memory) ← d.access.readBytes d.image d.memory d.tmpBuf len
    return (bytes, { d with access, memory })
  readSectors d n len := do
    let (access, memory) ← d.access.readSectors d.image d.memory n ⟨d.buffer, len⟩
    return (memory.bytes d.buffer (n * defaultSectorSize), { d with access, memory })
  setSectorSize d size := { d with access := { d.access with sectorSize := size } }
  sectorSize d := d.access.sectorSize
  setClusterSize d size := { d with access := { d.access with clusterSize := size } }
  clusterSize d := d.access.clusterSize
  sectorsPerCluster d := Checked.div d.access.clusterSize d.access.sectorSize

namespace DiskAccess

/-- Two sectors are enough for the bytes at any offset into the first. -/
theorem readBytes_eq {image memory : ByteMemory} {disk : DiskAccess} {tmpBuf len : Nat}
    (hsize : disk.sectorSize = defaultSectorSize)
    (hbase : disk.baseOffset % defaultSectorSize = 0)
    (hbuf : tmpBuf + defaultSectorSize * 2 ≤ 2 ^ 20) (hlen : len ≤ defaultSectorSize)
    (hend : disk.baseOffset + disk.offset + defaultSectorSize * 2 < 2 ^ 64) :
    ∃ disk' memory', disk.readBytes image memory tmpBuf len =
      .ok (image.bytes (disk.baseOffset + disk.offset) len, disk', memory') := by
  have hpos : 0 < defaultSectorSize := by decide
  obtain ⟨rest, hrest⟩ : ∃ r, r = disk.offset % 2 ^ 32 % defaultSectorSize := ⟨_, rfl⟩
  -- the cut to 32 bits keeps the remainder, and so does the base
  have hwindow : (disk.baseOffset + disk.offset) / defaultSectorSize * defaultSectorSize + rest =
      disk.baseOffset + disk.offset := by
    unfold defaultSectorSize at hbase hrest ⊢
    omega
  have hlast : rest + len ≤ defaultSectorSize * 2 := by
    unfold defaultSectorSize at hrest hlen ⊢
    omega
  have hissue := @issue_eq disk 2 ⟨tmpBuf, defaultSectorSize * 2⟩ hsize (Nat.mul_mod_right _ _)
    (by simp only [Nat.mul_div_cancel_left 2 hpos, Nat.le_refl]) hbuf hend
  have hread : disk.read image memory ⟨tmpBuf, defaultSectorSize * 2⟩ =
      disk.readSectors image memory 2 ⟨tmpBuf, defaultSectorSize * 2⟩ := by
    simp only [read, hsize, Checked.div_of_pos hpos, Checked.ok_bind]
    rfl
  rw [readSectors_eq_issue, hissue] at hread
  obtain ⟨disk', memory', hresult⟩ : ∃ disk' memory',
      disk.read image memory ⟨tmpBuf, defaultSectorSize * 2⟩ = .ok (disk', memory') :=
    ⟨_, _, hread⟩
  have hspec := (readSectors_spec hsize (by rw [← hresult, hread, readSectors_eq_issue, hissue])).1
  refine ⟨disk', memory', ?_⟩
  have hadd : rest + len < 2 ^ 32 := Nat.lt_of_le_of_lt hlast (by decide)
  simp only [readBytes, hsize, Checked.mod_of_pos hpos, ← hrest, Checked.ok_bind,
    Checked.add_of_lt hadd, hlast, decide_true, Checked.assert, if_true, hresult,
    Checked.pure_eq_ok]
  congr 2
  rw [hspec, ← ByteMemory.bytes_slice _ _ hlast, Nat.mul_comm, ByteMemory.bytes_copy,
    ByteMemory.bytes_slice _ _ (by rw [Nat.mul_comm]; exact hlast), hwindow]

end DiskAccess

/-! ## Tables of the format -/

def FatType.cellBits : FatType → Nat
  | fat12 => 12
  | fat16 => 16
  | fat32 => 32

/-- The bits of its value; the upper bits of a FAT32 cell are reserved. -/
def FatType.valueBits : FatType → Nat
  | fat12 => 12
  | fat16 => 16
  | fat32 => 28

/-- The entry values of a table. No format has tables of more than 4 GiB: the
largest, of 2 ^ 28 entries, takes 1 GiB. -/
structure FatTable (typ : FatType) where
  values : List Nat
  value_lt : ∀ value ∈ values, value < 2 ^ typ.valueBits
  size_le : typ.cellBits * values.length ≤ 8 * 2 ^ 32

structure FatTable.PackedIn {typ : FatType} (table : FatTable typ) (bytes : List UInt8) :
    Prop where
  length : typ.cellBits * table.values.length ≤ 8 * bytes.length
  cell : ∀ c, ∀ h : c < table.values.length,
    ofLittleEndian bytes / 2 ^ (typ.cellBits * c) % 2 ^ typ.valueBits = table.values.get ⟨c, h⟩

def encodePairs : List Nat → List UInt8
  | [] => []
  | [cell] => toLittleEndian 2 cell
  | even :: odd :: rest => toLittleEndian 3 (even + 2 ^ 12 * odd) ++ encodePairs rest

def FatType.encode : FatType → List Nat → List UInt8
  | fat12, cells => encodePairs cells
  | fat16, cells => cells.flatMap (toLittleEndian 2)
  | fat32, cells => cells.flatMap (toLittleEndian 4)

theorem ofLittleEndian_encodePairs {cells : List Nat} (hlt : ∀ cell ∈ cells, cell < 2 ^ 12) :
    ofLittleEndian (encodePairs cells) = packCells 12 cells := by
  induction cells using encodePairs.induct with
  | case1 => rfl
  | case2 cell =>
      have hcell : cell < 2 ^ 12 := hlt cell List.mem_cons_self
      rw [encodePairs, ofLittleEndian_toLittleEndian (by omega)]
      rfl
  | case3 even odd rest ih =>
      have heven : even < 2 ^ 12 := hlt even List.mem_cons_self
      have hodd : odd < 2 ^ 12 := hlt odd (List.mem_cons_of_mem _ List.mem_cons_self)
      have hrest := ih fun c hc => hlt c (List.mem_cons_of_mem _ (List.mem_cons_of_mem _ hc))
      rw [encodePairs, ofLittleEndian_append, toLittleEndian_length,
        ofLittleEndian_toLittleEndian (by omega), hrest]
      simp only [packCells]
      omega

theorem encodePairs_length (cells : List Nat) :
    12 * cells.length ≤ 8 * (encodePairs cells).length := by
  induction cells using encodePairs.induct with
  | case1 => simp [encodePairs]
  | case2 cell => simp [encodePairs]
  | case3 even odd rest ih =>
      simp only [encodePairs, List.length_append, toLittleEndian_length, List.length_cons]
      omega

theorem FatType.ofLittleEndian_encode (typ : FatType) {cells : List Nat}
    (hlt : ∀ cell ∈ cells, cell < 2 ^ typ.cellBits) :
    ofLittleEndian (typ.encode cells) = packCells typ.cellBits cells := by
  cases typ with
  | fat12 => exact ofLittleEndian_encodePairs hlt
  | fat16 => exact ofLittleEndian_flatMap hlt
  | fat32 => exact ofLittleEndian_flatMap hlt

theorem FatType.encode_length (typ : FatType) (cells : List Nat) :
    typ.cellBits * cells.length ≤ 8 * (typ.encode cells).length := by
  have hbytes : ∀ length, (cells.flatMap (toLittleEndian length)).length =
      length * cells.length := by
    intro length
    induction cells with
    | nil => rfl
    | cons cell rest ih =>
        rw [List.flatMap_cons, List.length_append, toLittleEndian_length, ih, List.length_cons,
          Nat.mul_succ, Nat.add_comm]
  cases typ with
  | fat12 => exact encodePairs_length cells
  | fat16 => simp only [encode, cellBits, hbytes]; omega
  | fat32 => simp only [encode, cellBits, hbytes]; omega

/-- Encoded cells hold a table, whatever the reserved bits of a FAT32 cell are. -/
theorem FatTable.packedIn_encode {typ : FatType} (table : FatTable typ) {cells : List Nat}
    (hlt : ∀ cell ∈ cells, cell < 2 ^ typ.cellBits)
    (hcells : cells.map (· % 2 ^ typ.valueBits) = table.values) :
    table.PackedIn (typ.encode cells) := by
  have hlength : table.values.length = cells.length := by rw [← hcells, List.length_map]
  have hdvd : 2 ^ typ.valueBits ∣ 2 ^ typ.cellBits := by cases typ <;> decide
  constructor
  · rw [hlength]
    exact typ.encode_length cells
  · intro c hc
    have hwindow := packCells_window hlt (hlength ▸ hc)
    rw [typ.ofLittleEndian_encode hlt, ← Nat.mod_mod_of_dvd _ hdvd, hwindow]
    simp only [← hcells, List.get_eq_getElem, List.getElem_map]

/-! ## Decoding -/

/-- The window that `get_entry` cuts out of the bytes it reads is the cell of the
cluster. -/
theorem FatType.entryValue_window (typ : FatType) (cluster number : Nat) :
    typ.entryValue cluster (number / 256 ^ typ.entryOffset cluster % 256 ^ typ.entryLength) =
      number / 2 ^ (typ.cellBits * cluster) % 2 ^ typ.valueBits := by
  have hbyte : ∀ n, 256 ^ n = 2 ^ (8 * n) := fun n => (Nat.pow_mul 2 8 n).symm
  cases typ with
  | fat12 =>
      simp only [entryValue, entryOffset, entryLength, cellBits, valueBits, hbyte]
      by_cases hodd : cluster % 2 = 1
      · -- an odd entry starts in the upper half of its first byte
        have hstart : 8 * (cluster + cluster / 2) + 4 = 12 * cluster := by omega
        rw [if_pos hodd, show 2 ^ (8 * 2) = 2 ^ 4 * 2 ^ 12 by decide, Nat.mod_mul_right_div_self,
          Nat.div_div_eq_div_mul, ← Nat.pow_add, hstart]
      · have hstart : 8 * (cluster + cluster / 2) = 12 * cluster := by omega
        rw [if_neg hodd, Nat.mod_mod_of_dvd _ (by decide), hstart]
  | fat16 =>
      simp only [entryValue, entryOffset, entryLength, cellBits, valueBits, hbyte]
      rw [show 8 * (cluster * 2) = 16 * cluster by omega]
  | fat32 =>
      simp only [entryValue, entryOffset, entryLength, cellBits, valueBits, hbyte]
      rw [Nat.mod_mod_of_dvd _ (by decide), show 8 * (cluster * 4) = 32 * cluster by omega]

structure Classifies (typ : FatType) (value : Nat) (entry : FatEntry) : Prop where
  reserved : value = 0 ∨ value = 1 → entry = .reservedCluster
  bad : value = typ.classificationThreshold → entry = .badCluster
  last : typ.classificationThreshold < value → entry = .endOfFile
  next : 2 ≤ value → value < typ.classificationThreshold → entry = .cluster value

theorem classifies_parse (typ : FatType) (value : Nat) :
    Classifies typ value (FatEntry.parse value typ) := by
  have hthreshold : 2 ≤ typ.classificationThreshold := by cases typ <;> decide
  unfold FatEntry.parse
  constructor
  · intro hvalue
    rw [if_pos hvalue]
  · intro hvalue
    rw [if_neg (by omega), if_neg (by omega), if_pos hvalue]
  · intro hvalue
    rw [if_neg (by omega), if_pos hvalue]
  · intro htwo hvalue
    rw [if_neg (by omega), if_neg (by omega), if_neg (by omega)]

def BiosDisk.tableBytes (d : BiosDisk) (baseLba firstSector : UInt32) (length : Nat) :
    List UInt8 :=
  d.image.bytes ((baseLba.toNat + firstSector.toNat) * defaultSectorSize) length

/-- The entry of a cluster lies in the table, and its offset has 32 bits. -/
theorem FatTable.PackedIn.entry_inside {typ : FatType} {table : FatTable typ}
    {bytes : List UInt8} (h : table.PackedIn bytes) {c : Nat} (hc : c < table.values.length) :
    typ.entryOffset c + typ.entryLength ≤ bytes.length ∧ typ.entryOffset c < 2 ^ 32 := by
  have hbytes := h.length
  have hcells : typ.cellBits * (c + 1) ≤ typ.cellBits * table.values.length :=
    Nat.mul_le_mul_left _ hc
  have hsize := table.size_le
  cases typ with
  | fat12 => simp only [FatType.cellBits, FatType.entryOffset, FatType.entryLength] at *; omega
  | fat16 => simp only [FatType.cellBits, FatType.entryOffset, FatType.entryLength] at *; omega
  | fat32 => simp only [FatType.cellBits, FatType.entryOffset, FatType.entryLength] at *; omega

theorem BiosDisk.readEntry_eq {d : BiosDisk} {typ : FatType} {baseLba firstSector : UInt32}
    {start length c : Nat} (hbase : d.access.baseOffset = baseLba.toNat * defaultSectorSize)
    (hsize : d.access.sectorSize = defaultSectorSize)
    (hstart : start = firstSector.toNat * defaultSectorSize)
    (hinside : typ.entryOffset c + typ.entryLength ≤ length)
    (hoffset : typ.entryOffset c < 2 ^ 32) :
    ∃ access memory, (FileAllocationTable.mk typ start).readEntry d (typ.entryOffset c)
      typ.entryLength = .ok (ofLittleEndian (d.tableBytes baseLba firstSector length) /
        256 ^ typ.entryOffset c % 256 ^ typ.entryLength, { d with access, memory }) := by
  have hlba := baseLba.toNat_lt
  have hfirst := firstSector.toNat_lt
  have hlen : typ.entryLength ≤ defaultSectorSize := by cases typ <;> decide
  have hread := @DiskAccess.readBytes_eq d.image d.memory
    { d.access with offset := start + typ.entryOffset c } d.tmpBuf typ.entryLength hsize
    (by rw [hbase, Nat.mul_mod_left]) d.tmpBuf_le hlen
    (by simp only [hbase]; unfold defaultSectorSize at hstart ⊢; omega)
  obtain ⟨access, memory, hread⟩ := hread
  refine ⟨access, memory, ?_⟩
  have hslice : d.image.bytes (d.access.baseOffset + (start + typ.entryOffset c))
      typ.entryLength = ((d.tableBytes baseLba firstSector length).drop
        (typ.entryOffset c)).take typ.entryLength := by
    rw [BiosDisk.tableBytes, ByteMemory.bytes_slice _ _ hinside, hbase, hstart, Nat.add_mul,
      Nat.add_assoc]
  have hlength : typ.entryOffset c + typ.entryLength ≤
      (d.tableBytes baseLba firstSector length).length := by
    rw [BiosDisk.tableBytes, ByteMemory.bytes_length]
    exact hinside
  rw [← ofLittleEndian_slice hlength, ← hslice]
  simp only [FileAllocationTable.readEntry, FatDisk.seek, FatDisk.readBytes, DiskAccess.seek,
    Checked.add_of_lt (show start + typ.entryOffset c < 2 ^ 64 by
      unfold defaultSectorSize at hstart; omega),
    Checked.ok_bind, Checked.pure_eq_ok, hread, ByteMemory.bytes_length, if_true,
    Checked.unwrap]

/-- `get_entry` of stage 2's disk classifies the value of the cluster's entry, for
a table at any sector of a partition at any sector of the disk. -/
theorem getEntry_packed (typ : FatType) (table : FatTable typ) (baseLba firstSector : UInt32)
    (d : BiosDisk) (hbase : d.access.baseOffset = baseLba.toNat * defaultSectorSize)
    (hsize : d.access.sectorSize = defaultSectorSize) (length : Nat)
    (hpacked : table.PackedIn (d.tableBytes baseLba firstSector length)) (c : Nat)
    (hc : c < table.values.length) :
    ∃ fat entry d', FileAllocationTable.new typ firstSector.toNat defaultSectorSize = .ok fat ∧
      fat.getEntry d c = .ok (entry, d') ∧ Classifies typ (table.values.get ⟨c, hc⟩) entry := by
  have hfirst := firstSector.toNat_lt
  obtain ⟨start, hstart⟩ : ∃ s, s = firstSector.toNat * defaultSectorSize := ⟨_, rfl⟩
  have hmul : firstSector.toNat * defaultSectorSize < 2 ^ 64 := by
    unfold defaultSectorSize
    omega
  obtain ⟨hinside, hoffset⟩ := hpacked.entry_inside hc
  rw [BiosDisk.tableBytes, ByteMemory.bytes_length] at hinside
  obtain ⟨access, memory, hentry⟩ := BiosDisk.readEntry_eq hbase hsize hstart hinside hoffset
  refine ⟨⟨typ, start⟩, _, _, ?_, FileAllocationTable.getEntry_of_readEntry hoffset hentry, ?_⟩
  · simp only [FileAllocationTable.new, Checked.mul_of_lt hmul, Checked.ok_bind, hstart,
      Checked.pure_eq_ok]
  · rw [typ.entryValue_window, hpacked.cell c hc]
    exact classifies_parse typ _

/-- A table whose last entry lies across the end of its first sector. -/
def straddlingTable : FatTable .fat12 where
  values := List.replicate 341 0xFF8 ++ [0xFF7]
  value_lt := by
    intro value hmem
    cases List.mem_append.mp hmem with
    | inl hmem => rw [List.eq_of_mem_replicate hmem]; decide
    | inr hmem => rw [List.mem_singleton.mp hmem]; decide
  size_le := by
    rw [List.length_append, List.length_replicate, List.length_singleton]
    decide

def straddlingDisk : BiosDisk where
  image := ByteMemory.store (fun _ => 0) 1024 (FatType.fat12.encode straddlingTable.values)
  memory := fun _ => 0
  access := ⟨0x80, 512, 0, 512, 0⟩
  tmpBuf := 0x9000
  tmpBuf_le := by decide
  buffer := 0xA000

theorem getEntry_packed_straddling :
    ∃ fat entry d', FileAllocationTable.new .fat12 1 512 = .ok fat ∧
      fat.getEntry straddlingDisk 341 = .ok (entry, d') ∧ Classifies .fat12 0xFF7 entry := by
  have hlength : 341 < straddlingTable.values.length := by
    rw [straddlingTable, List.length_append, List.length_replicate, List.length_singleton]
    decide
  have hcells : straddlingTable.values.map (· % 2 ^ FatType.fat12.valueBits) =
      straddlingTable.values := by
    rw [straddlingTable, List.map_append, List.map_replicate]
    rfl
  have hbytes : straddlingDisk.tableBytes 1 1
      (FatType.fat12.encode straddlingTable.values).length =
        FatType.fat12.encode straddlingTable.values := ByteMemory.bytes_store _ _ _
  have hpacked := straddlingTable.packedIn_encode straddlingTable.value_lt hcells
  rw [← hbytes] at hpacked
  have hvalue : straddlingTable.values.get ⟨341, hlength⟩ = 0xFF7 := by
    rw [List.get_eq_getElem]
    exact List.getElem_concat_length (by rw [List.length_replicate]) _
  have hget := getEntry_packed .fat12 straddlingTable 1 1 straddlingDisk rfl rfl _ hpacked 341
    hlength
  rw [hvalue] at hget
  exact hget

end MiniatureOs
