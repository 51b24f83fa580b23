import MiniatureOs.Fat.Load

/-! # Reading a volume through a lawful disk

The geometry functions return exactly when the sector numbers they compute fit
their width, and then return the numbers of the format; in particular they do so
for a volume whose areas fit its 16-bit sector count. `get_entry` returns the
entry of the table on the disk.
-/

namespace MiniatureOs

open FatDisk LawfulDisk

namespace BiosParameterBlock

variable (bpb : BiosParameterBlock)

def totalSectors : Nat :=
  if bpb.totalSectors16 ≠ 0 then bpb.totalSectors16.toNat else bpb.totalSectors32.toNat

def rootSectors : Nat :=
  (bpb.rootEntryCount.toNat * rootDirEntrySize + (bpb.bytesPerSector.toNat - 1)) /
    bpb.bytesPerSector.toNat

def areasEnd : Nat :=
  bpb.reservedSectorCount.toNat + bpb.fatCount.toNat * bpb.fatSize + bpb.rootSectors

/-! ## When the geometry is computed -/

section Exact

variable {bpb}

theorem totalSectors_lt : bpb.totalSectors < 2 ^ 32 := by
  have h16 := bpb.totalSectors16.toNat_lt
  have h32 := bpb.totalSectors32.toNat_lt
  unfold totalSectors
  split <;> omega

theorem rootDirSectors_eq (h : 0 < bpb.bytesPerSector.toNat) :
    bpb.rootDirSectors = .ok bpb.rootSectors := by
  have hentries := bpb.rootEntryCount.toNat_lt
  have hbytes := bpb.bytesPerSector.toNat_lt
  have hmul : bpb.rootEntryCount.toNat * rootDirEntrySize < 2 ^ 32 := by
    unfold rootDirEntrySize
    omega
  have hadd : bpb.rootEntryCount.toNat * rootDirEntrySize +
      (bpb.bytesPerSector.toNat - 1) < 2 ^ 32 := by
    unfold rootDirEntrySize
    omega
  simp only [rootDirSectors, Checked.mul_of_lt hmul, Checked.sub_of_le h,
    Checked.add_of_lt hadd, Checked.div_of_pos h, Checked.ok_bind, rootSectors]

/-- The sums inside `first_data_sector` only grow, so the last one decides. -/
theorem firstDataSector_eq_ok (h : 0 < bpb.bytesPerSector.toNat) {sector : Nat} :
    bpb.firstDataSector = .ok sector ↔ bpb.areasEnd < 2 ^ 32 ∧ sector = bpb.areasEnd := by
  simp only [firstDataSector, Checked.bind_eq_ok, Checked.mul_eq_ok, Checked.add_eq_ok,
    rootDirSectors_eq h, Except.ok.injEq, areasEnd]
  constructor
  · intro hrun
    obtain ⟨_, ⟨_, rfl⟩, _, ⟨_, rfl⟩, _, rfl, hlt, rfl⟩ := hrun
    exact ⟨hlt, rfl⟩
  · intro hlt
    exact ⟨_, ⟨by omega, rfl⟩, _, ⟨by omega, rfl⟩, _, rfl, hlt⟩

theorem countOfClusters_eq_ok (h : 0 < bpb.bytesPerSector.toNat) {count : Nat} :
    bpb.countOfClusters = .ok count ↔ bpb.areasEnd ≤ bpb.totalSectors ∧
      0 < bpb.sectorsPerCluster.toNat ∧
      count = (bpb.totalSectors - bpb.areasEnd) / bpb.sectorsPerCluster.toNat := by
  have htotal := @totalSectors_lt bpb
  simp only [countOfClusters, Checked.bind_eq_ok, firstDataSector_eq_ok h, Checked.sub_eq_ok,
    Checked.div_eq_ok]
  constructor
  · intro hrun
    obtain ⟨_, ⟨_, rfl⟩, _, ⟨hle, rfl⟩, hpos, rfl⟩ := hrun
    exact ⟨hle, hpos, rfl⟩
  · intro hrun
    obtain ⟨hle, hpos, rfl⟩ := hrun
    exact ⟨_, ⟨by omega, rfl⟩, _, ⟨hle, rfl⟩, hpos, rfl⟩

theorem firstClusterSector_eq_ok (h : 0 < bpb.bytesPerSector.toNat) {cluster sector : Nat} :
    bpb.firstClusterSector cluster = .ok sector ↔ 2 ≤ cluster ∧
      (cluster - 2) * bpb.sectorsPerCluster.toNat + bpb.areasEnd < 2 ^ 32 ∧
      sector = (cluster - 2) * bpb.sectorsPerCluster.toNat + bpb.areasEnd := by
  simp only [firstClusterSector, Checked.bind_eq_ok, Checked.sub_eq_ok, Checked.mul_eq_ok,
    firstDataSector_eq_ok h, Checked.add_eq_ok]
  constructor
  · intro hrun
    obtain ⟨_, ⟨hle, rfl⟩, _, ⟨_, rfl⟩, _, ⟨_, rfl⟩, hlt, rfl⟩ := hrun
    exact ⟨hle, hlt, rfl⟩
  · intro hrun
    obtain ⟨hle, hlt, rfl⟩ := hrun
    exact ⟨_, ⟨hle, rfl⟩, _, ⟨by omega, rfl⟩, _, ⟨by omega, rfl⟩, hlt, rfl⟩

theorem firstRootDirSector_eq (h : 0 < bpb.bytesPerSector.toNat) (hfit : bpb.areasEnd < 2 ^ 32) :
    bpb.firstRootDirSector =
      .ok (bpb.reservedSectorCount.toNat + bpb.fatCount.toNat * bpb.fatSize) := by
  have hdata := (firstDataSector_eq_ok h).mpr ⟨hfit, rfl⟩
  have hle : bpb.rootSectors ≤ bpb.areasEnd := Nat.le_add_left _ _
  simp only [firstRootDirSector, hdata, rootDirSectors_eq h, Checked.ok_bind,
    Checked.sub_of_le hle]
  unfold areasEnd
  rw [Nat.add_sub_cancel]

end Exact

/-! ## Volumes with the 16-bit sector count -/

def dataStart : Nat :=
  bpb.reservedSectorCount.toNat + bpb.fatCount.toNat * bpb.fatSize +
    (bpb.rootEntryCount.toNat * rootDirEntrySize + (defaultSectorSize - 1)) / defaultSectorSize

def clusterCount : Nat :=
  (bpb.totalSectors16.toNat - bpb.dataStart) / bpb.sectorsPerCluster.toNat

structure InRange : Prop where
  bytesPerSector : bpb.bytesPerSector.toNat = defaultSectorSize
  totalSectors : bpb.totalSectors16 ≠ 0
  sectorsPerCluster : 1 ≤ bpb.sectorsPerCluster.toNat
  areas : bpb.dataStart ≤ bpb.totalSectors16.toNat

def IsCluster (cluster : Nat) : Prop := 2 ≤ cluster ∧ cluster < bpb.clusterCount + 2

variable {bpb}

theorem areasEnd_eq (h : bpb.bytesPerSector.toNat = defaultSectorSize) :
    bpb.areasEnd = bpb.dataStart := by
  simp only [areasEnd, rootSectors, h, dataStart]

theorem InRange.clusters_le (h : bpb.InRange) :
    bpb.dataStart + bpb.clusterCount * bpb.sectorsPerCluster.toNat ≤
      bpb.totalSectors16.toNat := by
  have hdiv := Nat.div_mul_le_self (bpb.totalSectors16.toNat - bpb.dataStart)
    bpb.sectorsPerCluster.toNat
  have hareas := h.areas
  unfold clusterCount
  omega

theorem InRange.cluster_end_le (h : bpb.InRange) {cluster : Nat} (hc : bpb.IsCluster cluster) :
    (cluster - 2) * bpb.sectorsPerCluster.toNat + bpb.sectorsPerCluster.toNat + bpb.dataStart ≤
      bpb.totalSectors16.toNat := by
  have hle : (cluster - 2 + 1) * bpb.sectorsPerCluster.toNat ≤
      bpb.clusterCount * bpb.sectorsPerCluster.toNat :=
    Nat.mul_le_mul_right _ (by have := hc.2; have := hc.1; omega)
  have hclusters := h.clusters_le
  rw [Nat.add_mul, Nat.one_mul] at hle
  omega

theorem InRange.clusterCount_lt (h : bpb.InRange) : bpb.clusterCount < 2 ^ 16 := by
  have hle := h.clusters_le
  have hmul : bpb.clusterCount ≤ bpb.clusterCount * bpb.sectorsPerCluster.toNat :=
    Nat.le_mul_of_pos_right _ h.sectorsPerCluster
  have htotal := bpb.totalSectors16.toNat_lt
  omega

end BiosParameterBlock

theorem fieldAt_bytes (volume : ByteMemory) {i n : Nat} (h : i + n ≤ defaultSectorSize) :
    fieldAt (volume.bytes 0 defaultSectorSize) i n = ofLittleEndian (volume.bytes i n) := by
  rw [fieldAt, ByteMemory.bytes_slice _ _ h, Nat.zero_add]

/-! ## The table on the disk -/

def FatType.entryOffset : FatType → Nat → Nat
  | fat12, cluster => cluster + cluster / 2
  | fat16, cluster => cluster * 2
  | fat32, cluster => cluster * 4

def FatType.entryLength : FatType → Nat
  | fat12 => 2
  | fat16 => 2
  | fat32 => 4

def FatType.entryValue (typ : FatType) (cluster stored : Nat) : Nat :=
  match typ with
  | .fat12 => if cluster % 2 = 1 then stored / 2 ^ 4 else stored % 2 ^ 12
  | .fat16 => stored
  | .fat32 => stored % 2 ^ 28

theorem FatType.entryOffset_lt (typ : FatType) {cluster : Nat} (h : cluster < 2 ^ 28) :
    typ.entryOffset cluster < 2 ^ 32 := by
  cases typ <;> simp only [entryOffset] <;> omega

namespace FileAllocationTable

variable {D : Type} [FatDisk D] {table : FileAllocationTable} {d d' : D} {cluster stored : Nat}

theorem getEntry_of_readEntry (hfit : table.typ.entryOffset cluster < 2 ^ 32)
    (hread : table.readEntry d (table.typ.entryOffset cluster) table.typ.entryLength =
      .ok (stored, d')) :
    table.getEntry d cluster =
      .ok (FatEntry.parse (table.typ.entryValue cluster stored) table.typ, d') := by
  cases table with
  | mk typ start =>
      cases typ with
      | fat12 =>
          simp only [FatType.entryOffset, FatType.entryLength] at hfit hread
          have hodd : cluster &&& 1 = cluster % 2 := Nat.and_one_is_mod cluster
          have hlow : stored &&& 0xfff = stored % 2 ^ 12 :=
            Nat.and_two_pow_sub_one_eq_mod stored 12
          simp only [getEntry, Checked.add_of_lt hfit, hread, Checked.ok_bind, hodd, hlow,
            Nat.shiftRight_eq_div_pow, Checked.pure_eq_ok, FatType.entryValue]
      | fat16 =>
          simp only [FatType.entryOffset, FatType.entryLength] at hfit hread
          simp only [getEntry, Checked.mul_of_lt hfit, hread, Checked.ok_bind,
            Checked.pure_eq_ok, FatType.entryValue]
      | fat32 =>
          simp only [FatType.entryOffset, FatType.entryLength] at hfit hread
          have hlow : stored &&& 0x0FFFFFFF = stored % 2 ^ 28 :=
            Nat.and_two_pow_sub_one_eq_mod stored 28
          simp only [getEntry, Checked.mul_of_lt hfit, hread, Checked.ok_bind, hlow,
            Checked.pure_eq_ok, FatType.entryValue]

theorem getEntry_of_overflow (hover : 2 ^ 32 ≤ table.typ.entryOffset cluster) :
    table.getEntry d cluster = .error .overflow := by
  cases table with
  | mk typ start =>
      cases typ with
      | fat12 =>
          have hadd : Checked.add 32 cluster (cluster / 2) = .error .overflow :=
            if_neg (Nat.not_lt.mpr hover)
          simp only [getEntry, hadd, Checked.error_bind]
      | fat16 =>
          have hmul : Checked.mul 32 cluster 2 = .error .overflow :=
            if_neg (Nat.not_lt.mpr hover)
          simp only [getEntry, hmul, Checked.error_bind]
      | fat32 =>
          have hmul : Checked.mul 32 cluster 4 = .error .overflow :=
            if_neg (Nat.not_lt.mpr hover)
          simp only [getEntry, hmul, Checked.error_bind]

end FileAllocationTable

def fatValue (image : ByteMemory) (bpb : BiosParameterBlock) (typ : FatType) (cluster : Nat) :
    Nat :=
  let start := bpb.reservedSectorCount.toNat * defaultSectorSize
  match typ with
  | .fat12 =>
      let pair := ofLittleEndian (image.bytes (start + (cluster + cluster / 2)) 2)
      if cluster % 2 = 1 then pair / 2 ^ 4 else pair % 2 ^ 12
  | .fat16 => ofLittleEndian (image.bytes (start + cluster * 2) 2)
  | .fat32 => ofLittleEndian (image.bytes (start + cluster * 4) 4) % 2 ^ 28

theorem fatValue_eq (image : ByteMemory) (bpb : BiosParameterBlock) (typ : FatType)
    (cluster : Nat) : fatValue image bpb typ cluster = typ.entryValue cluster (ofLittleEndian
      (image.bytes (bpb.reservedSectorCount.toNat * defaultSectorSize + typ.entryOffset cluster)
        typ.entryLength)) := by
  cases typ <;> rfl

def entryAt (image : ByteMemory) (bpb : BiosParameterBlock) (typ : FatType) (cluster : Nat) :
    FatEntry :=
  FatEntry.parse (fatValue image bpb typ cluster) typ

/-- The sector of the cluster and the place of its entry fit the 32 bits they are
computed in. -/
def BiosParameterBlock.Usable (bpb : BiosParameterBlock) (typ : FatType) (cluster : Nat) : Prop :=
  2 ≤ cluster ∧
  (cluster - 2) * bpb.sectorsPerCluster.toNat + bpb.areasEnd < 2 ^ 32 ∧
  typ.entryOffset cluster < 2 ^ 32

instance (bpb : BiosParameterBlock) (typ : FatType) (cluster : Nat) :
    Decidable (bpb.Usable typ cluster) :=
  inferInstanceAs (Decidable (_ ∧ _ ∧ _))

theorem BiosParameterBlock.InRange.usable {bpb : BiosParameterBlock} (h : bpb.InRange)
    (typ : FatType) {cluster : Nat} (hc : bpb.IsCluster cluster) : bpb.Usable typ cluster := by
  have hend := h.cluster_end_le hc
  have htotal := bpb.totalSectors16.toNat_lt
  have hcount := h.clusterCount_lt
  refine ⟨hc.1, ?_, typ.entryOffset_lt (by have := hc.2; omega)⟩
  rw [areasEnd_eq h.bytesPerSector]
  omega

def clusterContents (image : ByteMemory) (bpb : BiosParameterBlock) (cluster : Nat) :
    List UInt8 :=
  image.bytes
    (((cluster - 2) * bpb.sectorsPerCluster.toNat + bpb.dataStart) * defaultSectorSize)
    (bpb.sectorsPerCluster.toNat * defaultSectorSize)

section Reading

variable {D : Type} [FatDisk D] [LawfulDisk D]

/-- The file system's operations leave the contents and the sizes of a disk. -/
structure SameVolume (d d' : D) : Prop where
  image : image d' = image d
  sectorSize : sectorSize d' = sectorSize d
  clusterSize : clusterSize d' = clusterSize d

theorem SameVolume.trans {d d' d'' : D} (h : SameVolume d d') (h' : SameVolume d' d'') :
    SameVolume d d'' :=
  ⟨h'.image.trans h.image, h'.sectorSize.trans h.sectorSize, h'.clusterSize.trans h.clusterSize⟩

theorem readEntry_spec (table : FileAllocationTable) (d : D) {offset len : Nat}
    (hend : table.start + offset + len < 2 ^ 64) (hlen : len ≤ defaultSectorSize) :
    ∃ d', table.readEntry d offset len =
      .ok (ofLittleEndian ((image d).bytes (table.start + offset) len), d') ∧ SameVolume d d' := by
  obtain ⟨d₁, hseek, hposition, himage, hsector, hcluster⟩ :=
    seek_start d (show table.start + offset < 2 ^ 64 by omega)
  obtain ⟨d₂, hread, himage', hsector', hcluster'⟩ :=
    readBytes_eq d₁ hlen (by rw [hposition]; exact hend)
  refine ⟨d₂, ?_, SameVolume.trans ⟨himage, hsector, hcluster⟩ ⟨himage', hsector', hcluster'⟩⟩
  simp only [FileAllocationTable.readEntry,
    Checked.add_of_lt (show table.start + offset < 2 ^ 64 by omega), hseek, hread,
    Checked.ok_bind, ByteMemory.bytes_length, if_true, Checked.unwrap, himage, hposition,
    Checked.pure_eq_ok]

/-- `get_entry` returns the entry on the disk. -/
theorem getEntry_spec {bpb : BiosParameterBlock} {typ : FatType} (d : D) {cluster : Nat}
    (hcluster : typ.entryOffset cluster < 2 ^ 32) :
    ∃ d', FileAllocationTable.getEntry
        ⟨typ, bpb.reservedSectorCount.toNat * defaultSectorSize⟩ d cluster =
      .ok (entryAt (image d) bpb typ cluster, d') ∧ SameVolume d d' := by
  have hreserved := bpb.reservedSectorCount.toNat_lt
  have hstart : bpb.reservedSectorCount.toNat * defaultSectorSize < 2 ^ 25 := by
    unfold defaultSectorSize
    omega
  have hlen : typ.entryLength ≤ 4 := by cases typ <;> decide
  have hword : 4 ≤ defaultSectorSize := by decide
  obtain ⟨d', hread, hsame⟩ := readEntry_spec
    ⟨typ, bpb.reservedSectorCount.toNat * defaultSectorSize⟩ d
    (show _ + typ.entryOffset cluster + typ.entryLength < 2 ^ 64 by simp only; omega)
    (Nat.le_trans hlen hword)
  refine ⟨d', ?_, hsame⟩
  rw [FileAllocationTable.getEntry_of_readEntry hcluster hread, entryAt, fatValue_eq]

/-- The sizes that `parse` sets, and nothing after it changes. -/
structure FATFileSystem.Mounted (fs : FATFileSystem D) : Prop where
  bytesPerSector : fs.bpb.bytesPerSector.toNat = defaultSectorSize
  sectorSize : FatDisk.sectorSize fs.disk = defaultSectorSize
  clusterSize :
    FatDisk.clusterSize fs.disk = defaultSectorSize * fs.bpb.sectorsPerCluster.toNat

omit [LawfulDisk D] in
theorem FATFileSystem.Mounted.bytesPerSector_pos {fs : FATFileSystem D} (h : fs.Mounted) :
    0 < fs.bpb.bytesPerSector.toNat := by
  rw [h.bytesPerSector]
  decide

theorem FATFileSystem.Mounted.of_sameVolume {fs : FATFileSystem D} (h : fs.Mounted) {disk : D}
    (hsame : SameVolume fs.disk disk) : FATFileSystem.Mounted { fs with disk } :=
  ⟨h.bytesPerSector, hsame.sectorSize.trans h.sectorSize, hsame.clusterSize.trans h.clusterSize⟩

/-- A parsed file system has the sectors its parameter block asserts. -/
theorem mounted_of_parse {d : D} {fs : FATFileSystem D} (h : FATFileSystem.parse d = .ok fs) :
    fs.Mounted := by
  obtain ⟨⟨bpb, d₁⟩, _, h⟩ := Checked.bind_eq_ok.mp h
  obtain ⟨_, hassert, h⟩ := Checked.bind_eq_ok.mp h
  have hbytes : bpb.bytesPerSector.toNat = defaultSectorSize := by
    simpa using Checked.assert_eq_ok.mp hassert
  obtain ⟨size, hsize, h⟩ := Checked.bind_eq_ok.mp h
  obtain ⟨_, rfl⟩ := Checked.mul_eq_ok.mp hsize
  obtain rfl := Except.ok.inj h
  refine ⟨hbytes, ?_, ?_⟩
  · rw [sectorSize_setClusterSize, sectorSize_setSectorSize, hbytes]
  · rw [clusterSize_setClusterSize, hbytes]

end Reading

end MiniatureOs
