import MiniatureOs.Disk.Access

/-! # FAT volumes

`bootloader/x86_64/bios/stage2/src/fat.rs`: the BIOS parameter block with the
geometry computed from it, and the file allocation table. The file system is
generic in its disk; what it may assume of one is the class `LawfulDisk`.
-/

namespace MiniatureOs

/-! ## Disks -/

/-- The traits `Read`, `Seek` and `Disk`. A read into a slice gets the length of
the slice and returns the bytes that replace its front. -/
class FatDisk (D : Type) where
  seek : D → SeekFrom → Checked (Nat × D)
  readBytes : D → Nat → Checked (List UInt8 × D)
  readSectors : D → Nat → Nat → Checked (List UInt8 × D)
  setSectorSize : D → Nat → D
  sectorSize : D → Nat
  setClusterSize : D → Nat → D
  clusterSize : D → Nat
  sectorsPerCluster : D → Checked Nat

open FatDisk

/-- The contracts of the traits: a disk has contents and a position, a seek sets
the position, `read_sectors` returns the next sectors and moves past them, and
`read_bytes` returns the bytes at the position. -/
class LawfulDisk (D : Type) [FatDisk D] where
  image : D → ByteMemory
  position : D → Nat
  seek_start (d : D) {off : Nat} (h : off < 2 ^ 64) :
    ∃ d', seek d (.start off) = .ok (off, d') ∧ position d' = off ∧ image d' = image d ∧
      sectorSize d' = sectorSize d ∧ clusterSize d' = clusterSize d
  seek_startInSectors (d : D) {off : Nat} (h : off * sectorSize d < 2 ^ 64) :
    ∃ d', seek d (.startInSectors off) = .ok (off * sectorSize d, d') ∧
      position d' = off * sectorSize d ∧ image d' = image d ∧
      sectorSize d' = sectorSize d ∧ clusterSize d' = clusterSize d
  readSectors_eq (d : D) {n len : Nat} (hsize : 0 < sectorSize d)
    (hposition : position d % sectorSize d = 0) (hlen : len % sectorSize d = 0)
    (hn : n ≤ len / sectorSize d) (hend : position d + len < 2 ^ 64) :
    ∃ d', readSectors d n len =
        .ok ((image d).bytes (position d) (n * sectorSize d), d') ∧
      position d' = position d + n * sectorSize d ∧ image d' = image d ∧
      sectorSize d' = sectorSize d ∧ clusterSize d' = clusterSize d
  readBytes_eq (d : D) {len : Nat} (hlen : len ≤ defaultSectorSize)
    (hend : position d + len < 2 ^ 64) :
    ∃ d', readBytes d len = .ok ((image d).bytes (position d) len, d') ∧ image d' = image d ∧
      sectorSize d' = sectorSize d ∧ clusterSize d' = clusterSize d
  image_setSectorSize (d : D) (size : Nat) : image (setSectorSize d size) = image d
  sectorSize_setSectorSize (d : D) (size : Nat) : sectorSize (setSectorSize d size) = size
  image_setClusterSize (d : D) (size : Nat) : image (setClusterSize d size) = image d
  sectorSize_setClusterSize (d : D) (size : Nat) :
    sectorSize (setClusterSize d size) = sectorSize d
  clusterSize_setClusterSize (d : D) (size : Nat) : clusterSize (setClusterSize d size) = size
  sectorsPerCluster_eq (d : D) (h : 0 < sectorSize d) :
    sectorsPerCluster d = .ok (clusterSize d / sectorSize d)

/-! ## The BIOS parameter block -/

inductive FatError where
  | fileNotFound
  | dirEntryError
  | fileReadError
  deriving Repr, DecidableEq

inductive FatType where
  | fat12
  | fat16
  | fat32
  deriving Repr, DecidableEq

def FatType.classificationThreshold : FatType → Nat
  | fat12 => 0xFF7
  | fat16 => 0xFFF7
  | fat32 => 0xFFFFFF7

def rootDirEntrySize : Nat := 0x20

structure BiosParameterBlock where
  bytesPerSector : UInt16
  sectorsPerCluster : UInt8
  reservedSectorCount : UInt16
  fatCount : UInt8
  rootEntryCount : UInt16
  totalSectors16 : UInt16
  totalSectors32 : UInt32
  fat16Size : UInt16
  fat32Size : UInt32
  rootCluster : UInt32

/-- The little-endian number in `raw[i..i + n]`. -/
def fieldAt (raw : List UInt8) (i n : Nat) : Nat := ofLittleEndian ((raw.drop i).take n)

namespace BiosParameterBlock

def ofBytes (raw : List UInt8) : Checked BiosParameterBlock := do
  let totalSectors16 := UInt16.ofNat (fieldAt raw 19 2)
  let totalSectors32 := UInt32.ofNat (fieldAt raw 32 4)
  let (fat32Size, rootCluster) ←
    if totalSectors16 ≠ 0 ∧ totalSectors32 = 0 then
      .ok (0, 0)
    else if totalSectors32 ≠ 0 ∧ totalSectors16 = 0 then
      .ok (UInt32.ofNat (fieldAt raw 36 4), UInt32.ofNat (fieldAt raw 44 4))
    else
      .error (.message "Exactly one total sector field must be zero")
  return {
    bytesPerSector := UInt16.ofNat (fieldAt raw 11 2)
    sectorsPerCluster := UInt8.ofNat (fieldAt raw 13 1)
    reservedSectorCount := UInt16.ofNat (fieldAt raw 14 2)
    fatCount := UInt8.ofNat (fieldAt raw 16 1)
    rootEntryCount := UInt16.ofNat (fieldAt raw 17 2)
    totalSectors16
    totalSectors32
    fat16Size := UInt16.ofNat (fieldAt raw 22 2)
    fat32Size
    rootCluster }

/-- `BiosParameterBlock::parse`. -/
def parse {D : Type} [FatDisk D] (disk : D) : Checked (BiosParameterBlock × D) := do
  let (_, disk) ← seek disk (.start 0)
  let (raw, disk) ← readBytes disk defaultSectorSize
  let bpb ← ofBytes raw
  return (bpb, disk)

section Geometry

variable (bpb : BiosParameterBlock)

def rootDirSectors : Checked Nat := do
  let bytes ← Checked.mul 32 bpb.rootEntryCount.toNat rootDirEntrySize
  let round ← Checked.sub bpb.bytesPerSector.toNat 1
  let sum ← Checked.add 32 bytes round
  Checked.div sum bpb.bytesPerSector.toNat

/-- `fat_size`; its `debug_assert` is off in the profile of stage 2. -/
def fatSize : Nat :=
  if bpb.fat16Size ≠ 0 ∧ bpb.fat32Size = 0 then bpb.fat16Size.toNat else bpb.fat32Size.toNat

def firstDataSector : Checked Nat := do
  let fats ← Checked.mul 32 bpb.fatCount.toNat bpb.fatSize
  let firstRoot ← Checked.add 32 bpb.reservedSectorCount.toNat fats
  let root ← bpb.rootDirSectors
  Checked.add 32 firstRoot root

def countOfClusters : Checked Nat := do
  let totalSectors :=
    if bpb.totalSectors16 ≠ 0 then bpb.totalSectors16.toNat else bpb.totalSectors32.toNat
  let used ← bpb.firstDataSector
  let dataSectors ← Checked.sub totalSectors used
  Checked.div dataSectors bpb.sectorsPerCluster.toNat

def fatType : Checked FatType := do
  let count ← bpb.countOfClusters
  return if count < 4085 then .fat12 else if count < 65525 then .fat16 else .fat32

def firstRootDirSector : Checked Nat := do
  let data ← bpb.firstDataSector
  let root ← bpb.rootDirSectors
  Checked.sub data root

def rootDirSize : Checked Nat := Checked.mul 16 bpb.rootEntryCount.toNat rootDirEntrySize

def firstFatSector : Nat := bpb.reservedSectorCount.toNat

def firstClusterSector (clusterNumber : Nat) : Checked Nat := do
  let index ← Checked.sub clusterNumber 2
  let sectors ← Checked.mul 32 index bpb.sectorsPerCluster.toNat
  let data ← bpb.firstDataSector
  Checked.add 32 sectors data

def bytesPerCluster : Checked Nat :=
  Checked.mul 32 bpb.bytesPerSector.toNat bpb.sectorsPerCluster.toNat

end Geometry

end BiosParameterBlock

/-! ## The file allocation table -/

inductive FatEntry where
  | endOfFile
  | cluster (number : Nat)
  | badCluster
  | reservedCluster
  deriving Repr, DecidableEq

/-- `FatEntry::parse`. -/
def FatEntry.parse (val : Nat) (typ : FatType) : FatEntry :=
  if val = 0 ∨ val = 1 then .reservedCluster
  else if typ.classificationThreshold < val then .endOfFile
  else if val = typ.classificationThreshold then .badCluster
  else .cluster val

structure FileAllocationTable where
  typ : FatType
  start : Nat

namespace FileAllocationTable

def new (typ : FatType) (firstSector sectorSize : Nat) : Checked FileAllocationTable := do
  let start ← Checked.mul 64 firstSector sectorSize
  return ⟨typ, start⟩

def readEntry {D : Type} [FatDisk D] (table : FileAllocationTable) (disk : D)
    (offsetIntoFat len : Nat) : Checked (Nat × D) := do
  let position ← Checked.add 64 table.start offsetIntoFat
  let (_, disk) ← seek disk (.start position)
  let (buf, disk) ← readBytes disk len
  Checked.unwrap (if buf.length = len then some () else none)
  return (ofLittleEndian buf, disk)

/-- `FileAllocationTable::get_entry`. -/
def getEntry {D : Type} [FatDisk D] (table : FileAllocationTable) (disk : D) (cluster : Nat) :
    Checked (FatEntry × D) := do
  let (val, disk) ← match table.typ with
    | .fat12 => do
        let offsetIntoFat ← Checked.add 32 cluster (cluster / 2)
        let (value, disk) ← table.readEntry disk offsetIntoFat 2
        .ok (if cluster &&& 1 = 1 then value >>> 4 else value &&& 0xfff, disk)
    | .fat16 => do
        let offsetIntoFat ← Checked.mul 32 cluster 2
        table.readEntry disk offsetIntoFat 2
    | .fat32 => do
        let offsetIntoFat ← Checked.mul 32 cluster 4
        let (value, disk) ← table.readEntry disk offsetIntoFat 4
        .ok (value &&& 0x0FFFFFFF, disk)
  return (FatEntry.parse val table.typ, disk)

end FileAllocationTable

/-! ## The file system -/

structure File where
  startSector : Nat
  size : Nat

/-- `File::size_in_sectors`. -/
def File.sizeInSectors (file : File) : Checked Nat := do
  let sum ← Checked.add 32 file.size (defaultSectorSize - 1)
  Checked.div sum defaultSectorSize

structure FATFileSystem (D : Type) where
  disk : D
  bpb : BiosParameterBlock

/-- `FATFileSystem::parse`. -/
def FATFileSystem.parse {D : Type} [FatDisk D] (disk : D) : Checked (FATFileSystem D) := do
  let (bpb, disk) ← BiosParameterBlock.parse disk
  Checked.assert (bpb.bytesPerSector.toNat = defaultSectorSize)
    "bpb.bytes_per_sector() == DEFAULT_SECTOR_SIZE as u32"
  let disk := setSectorSize disk bpb.bytesPerSector.toNat
  let bytesPerCluster ← bpb.bytesPerCluster
  return ⟨setClusterSize disk bytesPerCluster, bpb⟩

end MiniatureOs
