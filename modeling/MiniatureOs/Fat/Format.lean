import MiniatureOs.Fat.Geometry
import MiniatureOs.Fat.LoadCorrect
import MiniatureOs.Lib.Packing

/-! # The geometry of the format

The layout that the FAT specification gives a volume, computed from the fields of
its boot sector, and the geometry functions of the parameter block against it.
Which field holds the size of a table is decided twice: `parse` reads the 32-bit
field when the 32-bit sector count is used, and `fat_size` prefers it when it is
not zero. On a FAT12 or FAT16 volume with the 32-bit sector count these bytes are
other fields of the boot sector.
-/

namespace MiniatureOs

open FatDisk LawfulDisk

/-! ## The specification -/

structure BootSector where
  bytsPerSec : Nat
  secPerClus : Nat
  rsvdSecCnt : Nat
  numFATs : Nat
  rootEntCnt : Nat
  totSec16 : Nat
  fatSz16 : Nat
  totSec32 : Nat
  fatSz32 : Nat

namespace BootSector

def ofRaw (raw : List UInt8) : BootSector where
  bytsPerSec := fieldAt raw 11 2
  secPerClus := fieldAt raw 13 1
  rsvdSecCnt := fieldAt raw 14 2
  numFATs := fieldAt raw 16 1
  rootEntCnt := fieldAt raw 17 2
  totSec16 := fieldAt raw 19 2
  fatSz16 := fieldAt raw 22 2
  totSec32 := fieldAt raw 32 4
  fatSz32 := fieldAt raw 36 4

section Layout

variable (sector : BootSector)

def fatSz : Nat := if sector.fatSz16 ≠ 0 then sector.fatSz16 else sector.fatSz32

def totSec : Nat := if sector.totSec16 ≠ 0 then sector.totSec16 else sector.totSec32

def rootDirSectors : Nat :=
  (sector.rootEntCnt * 32 + (sector.bytsPerSec - 1)) / sector.bytsPerSec

def firstRootDirSecNum : Nat := sector.rsvdSecCnt + sector.numFATs * sector.fatSz

def firstDataSector : Nat := sector.firstRootDirSecNum + sector.rootDirSectors

def countOfClusters : Nat := (sector.totSec - sector.firstDataSector) / sector.secPerClus

def fatType : FatType :=
  if sector.countOfClusters < 4085 then .fat12
  else if sector.countOfClusters < 65525 then .fat16 else .fat32

def tableBits : Nat :=
  (sector.countOfClusters + 2) *
    match sector.fatType with
    | .fat12 => 12
    | .fat16 => 16
    | .fat32 => 32

structure Valid : Prop where
  bytsPerSec : sector.bytsPerSec ∈ [512, 1024, 2048, 4096]
  secPerClus : sector.secPerClus ∈ [1, 2, 4, 8, 16, 32, 64, 128]
  rsvdSecCnt : 1 ≤ sector.rsvdSecCnt
  numFATs : 1 ≤ sector.numFATs
  total : sector.totSec16 = 0 ∧ sector.totSec32 ≠ 0 ∨ sector.totSec16 ≠ 0 ∧ sector.totSec32 = 0
  areas : sector.firstDataSector + sector.secPerClus ≤ sector.totSec
  tables : sector.tableBits ≤ sector.fatSz * sector.bytsPerSec * 8
  small : sector.fatType ≠ .fat32 → sector.fatSz16 ≠ 0 ∧ sector.rootEntCnt ≠ 0
  large : sector.fatType = .fat32 →
    sector.fatSz16 = 0 ∧ sector.rootEntCnt = 0 ∧ sector.totSec16 = 0

end Layout

end BootSector

/-! ## The fields that `parse` reads -/

theorem fieldAt_lt (raw : List UInt8) (i n : Nat) : fieldAt raw i n < 256 ^ n := by
  have hlength : ((raw.drop i).take n).length ≤ n := List.length_take_le _ _
  exact Nat.lt_of_lt_of_le (ofLittleEndian_lt _) (Nat.pow_le_pow_right (by decide) hlength)

/-- The parameter block holds the fields of the boot sector, and the 32-bit table
size when the 32-bit sector count is used. -/
structure BiosParameterBlock.Holds (bpb : BiosParameterBlock) (sector : BootSector) : Prop where
  bytesPerSector : bpb.bytesPerSector.toNat = sector.bytsPerSec
  sectorsPerCluster : bpb.sectorsPerCluster.toNat = sector.secPerClus
  reservedSectorCount : bpb.reservedSectorCount.toNat = sector.rsvdSecCnt
  fatCount : bpb.fatCount.toNat = sector.numFATs
  rootEntryCount : bpb.rootEntryCount.toNat = sector.rootEntCnt
  totalSectors16 : bpb.totalSectors16.toNat = sector.totSec16
  totalSectors32 : bpb.totalSectors32.toNat = sector.totSec32
  fat16Size : bpb.fat16Size.toNat = sector.fatSz16
  fat32Size : bpb.fat32Size.toNat = if sector.totSec16 ≠ 0 then 0 else sector.fatSz32

theorem toNat_field16 (raw : List UInt8) (i : Nat) :
    (UInt16.ofNat (fieldAt raw i 2)).toNat = fieldAt raw i 2 :=
  UInt16.toNat_ofNat_of_lt' (fieldAt_lt raw i 2)

theorem toNat_field32 (raw : List UInt8) (i : Nat) :
    (UInt32.ofNat (fieldAt raw i 4)).toNat = fieldAt raw i 4 :=
  UInt32.toNat_ofNat_of_lt' (fieldAt_lt raw i 4)

theorem toNat_field8 (raw : List UInt8) (i : Nat) :
    (UInt8.ofNat (fieldAt raw i 1)).toNat = fieldAt raw i 1 :=
  UInt8.toNat_ofNat_of_lt' (fieldAt_lt raw i 1)

theorem ofBytes_holds {raw : List UInt8} (htotal : (BootSector.ofRaw raw).totSec16 = 0 ∧
      (BootSector.ofRaw raw).totSec32 ≠ 0 ∨
      (BootSector.ofRaw raw).totSec16 ≠ 0 ∧ (BootSector.ofRaw raw).totSec32 = 0) :
    ∃ bpb, BiosParameterBlock.ofBytes raw = .ok bpb ∧ bpb.Holds (BootSector.ofRaw raw) := by
  have hzero16 : UInt16.ofNat (fieldAt raw 19 2) = 0 ↔ fieldAt raw 19 2 = 0 := by
    rw [← UInt16.toNat_inj, toNat_field16]
    rfl
  have hzero32 : UInt32.ofNat (fieldAt raw 32 4) = 0 ↔ fieldAt raw 32 4 = 0 := by
    rw [← UInt32.toNat_inj, toNat_field32]
    rfl
  cases htotal with
  | inl hlarge =>
      obtain ⟨h16, h32⟩ := hlarge
      simp only [BootSector.ofRaw] at h16 h32
      have hbranch : ¬ (UInt16.ofNat (fieldAt raw 19 2) ≠ 0 ∧
          UInt32.ofNat (fieldAt raw 32 4) = 0) := fun h => h.1 (hzero16.mpr h16)
      have hbranch' : UInt32.ofNat (fieldAt raw 32 4) ≠ 0 ∧
          UInt16.ofNat (fieldAt raw 19 2) = 0 := ⟨mt hzero32.mp h32, hzero16.mpr h16⟩
      simp only [BiosParameterBlock.ofBytes, if_neg hbranch, if_pos hbranch', Checked.ok_bind,
        Checked.pure_eq_ok]
      refine ⟨_, rfl, ?_⟩
      exact ⟨toNat_field16 raw 11, toNat_field8 raw 13, toNat_field16 raw 14, toNat_field8 raw 16,
        toNat_field16 raw 17, toNat_field16 raw 19, toNat_field32 raw 32, toNat_field16 raw 22,
        (toNat_field32 raw 36).trans (if_neg (not_not_intro h16)).symm⟩
  | inr hsmall =>
      obtain ⟨h16, h32⟩ := hsmall
      simp only [BootSector.ofRaw] at h16 h32
      have hbranch : UInt16.ofNat (fieldAt raw 19 2) ≠ 0 ∧
          UInt32.ofNat (fieldAt raw 32 4) = 0 := ⟨mt hzero16.mp h16, hzero32.mpr h32⟩
      simp only [BiosParameterBlock.ofBytes, if_pos hbranch, Checked.ok_bind, Checked.pure_eq_ok]
      refine ⟨_, rfl, ?_⟩
      exact ⟨toNat_field16 raw 11, toNat_field8 raw 13, toNat_field16 raw 14, toNat_field8 raw 16,
        toNat_field16 raw 17, toNat_field16 raw 19, toNat_field32 raw 32, toNat_field16 raw 22,
        (if_pos h16).symm⟩

/-! ## The geometry functions -/

structure BiosParameterBlock.Agrees (bpb : BiosParameterBlock) (sector : BootSector) : Prop where
  fatSize : bpb.fatSize = sector.fatSz
  countOfClusters : bpb.countOfClusters = .ok sector.countOfClusters
  fatType : bpb.fatType = .ok sector.fatType
  firstRootDirSector : bpb.firstRootDirSector = .ok sector.firstRootDirSecNum
  firstDataSector : bpb.firstDataSector = .ok sector.firstDataSector

section Agreement

variable {bpb : BiosParameterBlock} {sector : BootSector}

theorem fatSize_eq_iff (hholds : bpb.Holds sector)
    (hsmall : sector.totSec16 ≠ 0 → sector.fatSz16 ≠ 0) :
    bpb.fatSize = sector.fatSz ↔ sector.totSec16 ≠ 0 ∨ sector.fatSz16 = 0 ∨
      sector.fatSz32 = 0 ∨ sector.fatSz32 = sector.fatSz16 := by
  have h16 : bpb.fat16Size ≠ 0 ↔ sector.fatSz16 ≠ 0 := by
    rw [← hholds.fat16Size, not_iff_not, ← UInt16.toNat_inj]
    rfl
  have h32 : bpb.fat32Size = 0 ↔ bpb.fat32Size.toNat = 0 := by
    rw [← UInt32.toNat_inj]
    rfl
  simp only [BiosParameterBlock.fatSize, h16, h32, hholds.fat16Size, hholds.fat32Size,
    BootSector.fatSz]
  by_cases htotal : sector.totSec16 = 0
  · by_cases hfat : sector.fatSz16 = 0
    · simp [htotal, hfat]
    · by_cases hzero : sector.fatSz32 = 0
      · simp [htotal, hfat, hzero]
      · simp [htotal, hfat, hzero]
  · simp [htotal, hsmall htotal]

/-- With the right size of a table everything else is right. -/
theorem agrees_of_fatSize (hholds : bpb.Holds sector) (hvalid : sector.Valid)
    (hsize : bpb.fatSize = sector.fatSz) : bpb.Agrees sector := by
  have hbytes : 0 < bpb.bytesPerSector.toNat := by
    have hmem := hvalid.bytsPerSec
    rw [hholds.bytesPerSector]
    simp only [List.mem_cons, List.not_mem_nil, or_false] at hmem
    omega
  have hper : 0 < bpb.sectorsPerCluster.toNat := by
    have hmem := hvalid.secPerClus
    rw [hholds.sectorsPerCluster]
    simp only [List.mem_cons, List.not_mem_nil, or_false] at hmem
    omega
  have hroot : bpb.rootSectors = sector.rootDirSectors := by
    rw [BiosParameterBlock.rootSectors, hholds.rootEntryCount, hholds.bytesPerSector]
    rfl
  have hfirstRoot : bpb.reservedSectorCount.toNat + bpb.fatCount.toNat * bpb.fatSize =
      sector.firstRootDirSecNum := by
    rw [hholds.reservedSectorCount, hholds.fatCount, hsize]
    rfl
  have hareas : bpb.areasEnd = sector.firstDataSector := by
    rw [BiosParameterBlock.areasEnd, hfirstRoot, hroot]
    rfl
  have htotal : bpb.totalSectors = sector.totSec := by
    have hzero : bpb.totalSectors16 ≠ 0 ↔ sector.totSec16 ≠ 0 := by
      rw [← hholds.totalSectors16, not_iff_not, ← UInt16.toNat_inj]
      rfl
    simp only [BiosParameterBlock.totalSectors, BootSector.totSec, hzero, hholds.totalSectors16,
      hholds.totalSectors32]
  have hfit : bpb.areasEnd ≤ bpb.totalSectors := by
    rw [hareas, htotal]
    exact Nat.le_of_add_right_le hvalid.areas
  have hlt : bpb.areasEnd < 2 ^ 32 :=
    Nat.lt_of_le_of_lt hfit BiosParameterBlock.totalSectors_lt
  have hcount : bpb.countOfClusters = .ok sector.countOfClusters := by
    rw [BiosParameterBlock.countOfClusters_eq_ok hbytes]
    refine ⟨hfit, hper, ?_⟩
    rw [hareas, htotal, hholds.sectorsPerCluster]
    rfl
  constructor
  · exact hsize
  · exact hcount
  · simp only [BiosParameterBlock.fatType, hcount, Checked.ok_bind, Checked.pure_eq_ok,
      BootSector.fatType]
  · rw [BiosParameterBlock.firstRootDirSector_eq hbytes hlt, hfirstRoot]
  · rw [BiosParameterBlock.firstDataSector_eq_ok hbytes]
    exact ⟨hlt, hareas.symm⟩

end Agreement

section Parse

variable {D : Type} [FatDisk D] [LawfulDisk D]

def bootSector (d : D) : BootSector :=
  BootSector.ofRaw ((image d).bytes 0 defaultSectorSize)

/-- `BiosParameterBlock::parse` and then the geometry functions. -/
def GeometryAgrees (d : D) : Prop :=
  ∃ bpb d', BiosParameterBlock.parse d = .ok (bpb, d') ∧ bpb.Agrees (bootSector d)

theorem parse_holds (d : D)
    (htotal : (bootSector d).totSec16 = 0 ∧ (bootSector d).totSec32 ≠ 0 ∨
      (bootSector d).totSec16 ≠ 0 ∧ (bootSector d).totSec32 = 0) :
    ∃ bpb d', BiosParameterBlock.parse d = .ok (bpb, d') ∧ bpb.Holds (bootSector d) := by
  obtain ⟨d₁, hseek, hposition, himage, _⟩ := seek_start d (show 0 < 2 ^ 64 by decide)
  obtain ⟨d₂, hread, _⟩ := readBytes_eq d₁ (Nat.le_refl defaultSectorSize)
    (by rw [hposition]; decide)
  rw [hposition, himage] at hread
  obtain ⟨bpb, hbytes, hholds⟩ := ofBytes_holds htotal
  refine ⟨bpb, d₂, ?_, hholds⟩
  simp only [BiosParameterBlock.parse, hseek, hread, hbytes, Checked.ok_bind, Checked.pure_eq_ok]

/-- On a valid volume the geometry is that of the specification unless a 16-bit
table size meets other non-zero bytes at the place of the 32-bit one. -/
theorem geometryAgrees_iff (d : D) (hvalid : (bootSector d).Valid) :
    GeometryAgrees d ↔ (bootSector d).totSec16 ≠ 0 ∨ (bootSector d).fatSz16 = 0 ∨
      (bootSector d).fatSz32 = 0 ∨ (bootSector d).fatSz32 = (bootSector d).fatSz16 := by
  obtain ⟨bpb, d', hrun, hholds⟩ := parse_holds d hvalid.total
  have hsmall : (bootSector d).totSec16 ≠ 0 → (bootSector d).fatSz16 ≠ 0 := by
    intro htotal
    exact (hvalid.small fun hlarge => htotal (hvalid.large hlarge).2.2).1
  have hiff := fatSize_eq_iff hholds hsmall
  constructor
  · intro hagrees
    obtain ⟨bpb', d'', hrun', hagrees⟩ := hagrees
    obtain ⟨rfl, _⟩ := Prod.mk.inj (Except.ok.inj (hrun.symm.trans hrun'))
    exact hiff.mp hagrees.fatSize
  · intro hcondition
    exact ⟨bpb, d', hrun, agrees_of_fatSize hholds hvalid (hiff.mpr hcondition)⟩

end Parse

/-! ## Two volumes -/

theorem bootSector_ramDisk (volume : ByteMemory) (position sectorSize clusterSize : Nat) :
    bootSector (RamDisk.mk volume position sectorSize clusterSize) =
      ⟨ofLittleEndian (volume.bytes 11 2), ofLittleEndian (volume.bytes 13 1),
        ofLittleEndian (volume.bytes 14 2), ofLittleEndian (volume.bytes 16 1),
        ofLittleEndian (volume.bytes 17 2), ofLittleEndian (volume.bytes 19 2),
        ofLittleEndian (volume.bytes 22 2), ofLittleEndian (volume.bytes 32 4),
        ofLittleEndian (volume.bytes 36 4)⟩ := by
  change BootSector.ofRaw (volume.bytes 0 defaultSectorSize) = _
  simp only [BootSector.ofRaw, fieldAt_bytes volume (show 11 + 2 ≤ defaultSectorSize by decide),
    fieldAt_bytes volume (show 13 + 1 ≤ defaultSectorSize by decide),
    fieldAt_bytes volume (show 14 + 2 ≤ defaultSectorSize by decide),
    fieldAt_bytes volume (show 16 + 1 ≤ defaultSectorSize by decide),
    fieldAt_bytes volume (show 17 + 2 ≤ defaultSectorSize by decide),
    fieldAt_bytes volume (show 19 + 2 ≤ defaultSectorSize by decide),
    fieldAt_bytes volume (show 22 + 2 ≤ defaultSectorSize by decide),
    fieldAt_bytes volume (show 32 + 4 ≤ defaultSectorSize by decide),
    fieldAt_bytes volume (show 36 + 4 ≤ defaultSectorSize by decide)]

theorem geometryAgrees_smallVolume : GeometryAgrees (RamDisk.mk smallVolume 0 512 0) := by
  have hsector : bootSector (RamDisk.mk smallVolume 0 512 0) =
      ⟨512, 16, 1, 1, 512, 98, 1, 0, 0⟩ := by
    rw [bootSector_ramDisk]
    rfl
  have hiff := geometryAgrees_iff (RamDisk.mk smallVolume 0 512 0)
    (by rw [hsector]; constructor <;> decide)
  rw [hiff, hsector]
  decide

/-- A FAT16 volume of 64 MiB with the 32-bit sector count. From byte 36 on it has
the drive number, the boot signature and the volume id. -/
def sixteenVolume : ByteMemory := fun x =>
  if x = 12 then 2 else if x = 13 then 4 else if x = 14 then 1 else if x = 16 then 2
  else if x = 18 then 2 else if x = 22 then 128 else if x = 34 then 2
  else if x = 36 then 0x80 else if x = 38 then 0x29 else if x = 39 then 0x12 else 0

/-- Its drive number, signature and id are taken for the size of a table. -/
theorem not_geometryAgrees_sixteenVolume :
    (bootSector (RamDisk.mk sixteenVolume 0 512 0)).Valid ∧
      (bootSector (RamDisk.mk sixteenVolume 0 512 0)).fatType = .fat16 ∧
      ¬ GeometryAgrees (RamDisk.mk sixteenVolume 0 512 0) := by
  have hsector : bootSector (RamDisk.mk sixteenVolume 0 512 0) =
      ⟨512, 4, 1, 2, 512, 0, 128, 0x20000, 0x12290080⟩ := by
    rw [bootSector_ramDisk]
    rfl
  have hvalid : (bootSector (RamDisk.mk sixteenVolume 0 512 0)).Valid := by
    rw [hsector]
    constructor <;> decide
  refine ⟨hvalid, by rw [hsector]; decide, fun hagrees => ?_⟩
  obtain ⟨bpb, d', hparse, hagrees⟩ := hagrees
  obtain ⟨bpb', d'', hparse', hholds⟩ := parse_holds _ hvalid.total
  obtain ⟨rfl, _⟩ := Prod.mk.inj (Except.ok.inj (hparse'.symm.trans hparse))
  have hsize := hagrees.fatSize
  rw [hsector] at hholds hsize
  exact absurd ((fatSize_eq_iff hholds (by decide)).mp hsize) (by decide)

end MiniatureOs
