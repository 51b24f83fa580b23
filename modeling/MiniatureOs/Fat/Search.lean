import MiniatureOs.Fat.Geometry
import MiniatureOs.Fat.RootDir

/-! # Finding a file

`find_file_in_root_dir` reads the root directory into a buffer of fixed size and
searches it. It gets to the search exactly when the volume is not FAT32, its areas
fit the sector count and its root directory fills the buffer; any other volume
stops the boot. The search runs over the directory on the disk, so the items of the
iteration decide which file `try_load_file` loads.
-/

namespace MiniatureOs

open FatDisk LawfulDisk

/-! ## Volumes that are searched -/

namespace BiosParameterBlock

variable (bpb : BiosParameterBlock)

def dataClusters : Nat := (bpb.totalSectors - bpb.areasEnd) / bpb.sectorsPerCluster.toNat

def volumeType : FatType :=
  if bpb.dataClusters < 4085 then .fat12 else if bpb.dataClusters < 65525 then .fat16 else .fat32

def rootStart : Nat := bpb.reservedSectorCount.toNat + bpb.fatCount.toNat * bpb.fatSize

/-- What `read_root_dir` needs of a volume. -/
structure GeometryFits : Prop where
  rootEntries : bpb.rootEntryCount.toNat = 512
  areas : bpb.areasEnd ≤ bpb.totalSectors
  sectorsPerCluster : 0 < bpb.sectorsPerCluster.toNat
  volumeType : bpb.volumeType ≠ .fat32

variable {bpb}

theorem fatType_eq_ok (hpos : 0 < bpb.bytesPerSector.toNat) {typ : FatType} :
    bpb.fatType = .ok typ ↔ bpb.areasEnd ≤ bpb.totalSectors ∧
      0 < bpb.sectorsPerCluster.toNat ∧ typ = bpb.volumeType := by
  simp only [fatType, Checked.bind_eq_ok, countOfClusters_eq_ok hpos, Checked.pure_eq_ok,
    Except.ok.injEq]
  constructor
  · rintro ⟨count, ⟨hareas, hper, rfl⟩, rfl⟩
    exact ⟨hareas, hper, rfl⟩
  · rintro ⟨hareas, hper, rfl⟩
    exact ⟨_, ⟨hareas, hper, rfl⟩, rfl⟩

theorem rootDirSize_eq_ok {size : Nat} : bpb.rootDirSize = .ok size ↔
    bpb.rootEntryCount.toNat < 2048 ∧ size = bpb.rootEntryCount.toNat * 32 := by
  rw [rootDirSize, Checked.mul_eq_ok, rootDirEntrySize]
  omega

theorem rootStart_le_areasEnd : bpb.rootStart ≤ bpb.areasEnd := Nat.le_add_right _ _

end BiosParameterBlock

/-! ## Reading the directory -/

/-- The buffer of `find_file_in_root_dir`. -/
abbrev rootDirBuffer : List UInt8 := List.replicate (defaultSectorSize * rootDirEntrySize) 0

section Search

variable {D : Type} [FatDisk D] [LawfulDisk D]

def FATFileSystem.rootDir (fs : FATFileSystem D) : List UInt8 :=
  (image fs.disk).bytes (fs.bpb.rootStart * defaultSectorSize)
    (fs.bpb.rootEntryCount.toNat * rootDirEntrySize)

variable {fs fs' : FATFileSystem D}

omit [LawfulDisk D] in
theorem geometryFits_of_readRootDir (hfs : fs.Mounted) {entries : RootDirIter}
    (h : fs.readRootDir rootDirBuffer = .ok (entries, fs')) : fs.bpb.GeometryFits := by
  obtain ⟨size, hsize, h⟩ := Checked.bind_eq_ok.mp h
  obtain ⟨_, rfl⟩ := BiosParameterBlock.rootDirSize_eq_ok.mp hsize
  obtain ⟨_, hassert, h⟩ := Checked.bind_eq_ok.mp h
  have hlength : defaultSectorSize * rootDirEntrySize = fs.bpb.rootEntryCount.toNat * 32 := by
    simpa using Checked.assert_eq_ok.mp hassert
  obtain ⟨typ, htyp, h⟩ := Checked.bind_eq_ok.mp h
  obtain ⟨hareas, hper, rfl⟩ :=
    (BiosParameterBlock.fatType_eq_ok hfs.bytesPerSector_pos).mp htyp
  refine ⟨?_, hareas, hper, fun hfat => ?_⟩
  · unfold defaultSectorSize rootDirEntrySize at hlength
    omega
  · rw [if_pos hfat] at h
    cases h

theorem readBuffer_spec {d : D} {sector sectors : Nat} (hsize : sectorSize d = defaultSectorSize)
    (hposition : position d = sector * defaultSectorSize)
    (hend : (sector + sectors) * defaultSectorSize < 2 ^ 64) :
    ∃ d', readBuffer d (sectors * defaultSectorSize) = .ok ((image d).bytes
        (sector * defaultSectorSize) (sectors * defaultSectorSize), d') ∧ SameVolume d d' := by
  have hpos : 0 < defaultSectorSize := by decide
  have hcount : sectors * defaultSectorSize / defaultSectorSize = sectors :=
    Nat.mul_div_cancel _ hpos
  obtain ⟨d', hread, _, himage, hsize', hcluster⟩ :=
    @readSectors_eq D _ _ d sectors (sectors * defaultSectorSize) (by rw [hsize]; exact hpos)
      (by rw [hsize, hposition, Nat.mul_mod_left]) (by rw [hsize, Nat.mul_mod_left])
      (by rw [hsize, hcount]) (by rw [hposition, ← Nat.add_mul]; exact hend)
  rw [hsize, hposition] at hread
  refine ⟨d', ?_, ⟨himage, hsize', hcluster⟩⟩
  rw [readBuffer, hsize, Checked.div_of_pos hpos, Checked.ok_bind, hcount, hread]

theorem rootDir_length (hfits : fs.bpb.GeometryFits) :
    fs.rootDir.length = defaultSectorSize * rootDirEntrySize := by
  rw [FATFileSystem.rootDir, ByteMemory.bytes_length, hfits.rootEntries]
  rfl

theorem readRootDir_spec (hfs : fs.Mounted) (hfits : fs.bpb.GeometryFits) :
    ∃ disk, fs.readRootDir rootDirBuffer = .ok (RootDirIter.new fs.rootDir, { fs with disk }) ∧
      SameVolume fs.disk disk := by
  have hpos := hfs.bytesPerSector_pos
  have hareas := hfits.areas
  have htotal := @BiosParameterBlock.totalSectors_lt fs.bpb
  have hroot := @BiosParameterBlock.rootStart_le_areasEnd fs.bpb
  have hsize := BiosParameterBlock.rootDirSize_eq_ok.mpr
    ⟨by rw [hfits.rootEntries]; decide, rfl⟩
  have hassert : Checked.assert
      (decide (defaultSectorSize * rootDirEntrySize = fs.bpb.rootEntryCount.toNat * 32))
      "buffer.len() == self.bpb.root_dir_size() as usize" = .ok () := by
    rw [hfits.rootEntries]
    rfl
  have htyp := (BiosParameterBlock.fatType_eq_ok hpos).mpr ⟨hareas, hfits.sectorsPerCluster, rfl⟩
  have hsector : fs.bpb.firstRootDirSector = .ok fs.bpb.rootStart :=
    BiosParameterBlock.firstRootDirSector_eq hpos (by omega)
  obtain ⟨d₁, hseek, hposition, himage, hsize₁, hcluster⟩ :=
    @seek_startInSectors D _ _ fs.disk fs.bpb.rootStart
      (by rw [hfs.sectorSize]; unfold defaultSectorSize; omega)
  rw [hfs.sectorSize] at hposition
  obtain ⟨d₂, hread, hsame⟩ := @readBuffer_spec D _ _ d₁ fs.bpb.rootStart 32
    (hsize₁.trans hfs.sectorSize) hposition (by unfold defaultSectorSize; omega)
  have hdata : (image fs.disk).bytes (fs.bpb.rootStart * defaultSectorSize)
      (32 * defaultSectorSize) = fs.rootDir := by
    rw [FATFileSystem.rootDir, hfits.rootEntries]
    rfl
  rw [himage, hdata, show 32 * defaultSectorSize = defaultSectorSize * rootDirEntrySize by rfl]
    at hread
  refine ⟨d₂, ?_, SameVolume.trans ⟨himage, hsize₁, hcluster⟩ hsame⟩
  simp only [FATFileSystem.readRootDir, List.length_replicate, hsize, hassert, htyp,
    hfits.volumeType, if_false, hsector, hseek, hread, Checked.ok_bind, Checked.pure_eq_ok,
    rootDir_length hfits, List.drop_replicate, Nat.sub_self, List.replicate_zero, List.append_nil]

/-! ## The search -/

/-- The file that an entry stands for; a directory stands for none. -/
def DirectoryEntry.file (entry : DirectoryEntry) : Option File :=
  if entry.isDir then none else some ⟨entry.firstCluster, entry.fileSize⟩

def FATFileSystem.Holds (fs : FATFileSystem D) (name : List Char) (file : File) : Prop :=
  ∃ entry : DirectoryEntry, RootDirIter.find (fun e => e.eqName name) (fs.rootDir.length + 1)
    (RootDirIter.new fs.rootDir) = .ok (some (some entry)) ∧ entry.file = some file

/-- Where the search ends, `find_file_in_root_dir` returns what it found. -/
theorem findFileInRootDir_of_find (hfs : fs.Mounted) (hfits : fs.bpb.GeometryFits)
    {name : List Char} {found : Option DirectoryEntry}
    (hfind : RootDirIter.find (fun e => e.eqName name) (fs.rootDir.length + 1)
      (RootDirIter.new fs.rootDir) = .ok (some found)) :
    ∃ disk, fs.findFileInRootDir name =
        .ok (some (found.bind DirectoryEntry.file), { fs with disk }) ∧
      SameVolume fs.disk disk := by
  obtain ⟨disk, hread, hsame⟩ := readRootDir_spec hfs hfits
  rw [rootDir_length hfits] at hfind
  refine ⟨disk, ?_, hsame⟩
  simp only [FATFileSystem.findFileInRootDir, hread, Checked.ok_bind, List.length_replicate, hfind]
  cases found with
  | none => rfl
  | some entry => rfl

/-- A file in the directory is loaded from the volume that the search leaves. -/
theorem tryLoadFile_of_holds (hfs : fs.Mounted) (hfits : fs.bpb.GeometryFits) {name : List Char}
    {file : File} (hholds : fs.Holds name file) :
    ∃ disk, SameVolume fs.disk disk ∧
      fs.findFileInRootDir name = .ok (some (some file), { fs with disk }) ∧
      ∀ fuel dest memory, fs.tryLoadFile fuel name dest memory =
        FATFileSystem.loadFile fuel { fs with disk } file dest memory := by
  obtain ⟨entry, hfind, hfile⟩ := hholds
  obtain ⟨disk, hfound, hsame⟩ := findFileInRootDir_of_find hfs hfits hfind
  rw [Option.bind_some, hfile] at hfound
  refine ⟨disk, hsame, hfound, fun fuel dest memory => ?_⟩
  simp only [FATFileSystem.tryLoadFile, hfound, Checked.ok_bind]

omit [LawfulDisk D] in
/-- No other volume is loaded from. -/
theorem geometryFits_of_tryLoadFile (hfs : fs.Mounted) {fuel : Nat} {name : List Char}
    {dest : BitVec 32} {memory : WrappedMemory 32}
    {r : Option (Except FatError Nat × WrappedMemory 32)}
    (h : fs.tryLoadFile fuel name dest memory = .ok r) : fs.bpb.GeometryFits := by
  obtain ⟨_, hfound, _⟩ := Checked.bind_eq_ok.mp h
  obtain ⟨⟨entries, fs'⟩, hread, _⟩ := Checked.bind_eq_ok.mp hfound
  exact geometryFits_of_readRootDir hfs hread

/-- In a directory whose slots come to an end, the first item with the name decides
what is loaded. -/
theorem tryLoadFile_of_reachesEnd (hfs : fs.Mounted) (hfits : fs.bpb.GeometryFits)
    (hreaches : reachesEnd none (chunks 32 fs.rootDir) = true) :
    ∃ found : List (Except FatError DirectoryEntry),
      (runsClosed false (chunks 32 fs.rootDir) = true → ∃ entries : List DirectoryEntry,
        found = entries.map .ok ∧
          entries.map (·.describe) = (liveItems false (chunks 32 fs.rootDir)).map some) ∧
      ∀ name, ∃ disk, SameVolume fs.disk disk ∧ ∀ fuel dest memory,
        fs.tryLoadFile fuel name dest memory =
          match ((found.filterMap Except.toOption).find? fun e => e.eqName name).bind
            DirectoryEntry.file with
          | none => .ok (some (.error .fileNotFound, memory))
          | some file => FATFileSystem.loadFile fuel { fs with disk } file dest memory := by
  have hmod : fs.rootDir.length % 32 = 0 := by
    rw [rootDir_length hfits]
    rfl
  obtain ⟨found, hitems, hlive⟩ := RootDirIter.items_new_of_reachesEnd hmod hreaches
  have hrun := hitems fs.rootDir.length (chunks_length_le_length (by decide) _)
  refine ⟨found, hlive, fun name => ?_⟩
  have hfind := @RootDirIter.find_of_items (fun e => e.eqName name) _ _ _ hrun
  obtain ⟨disk, hfound, hsame⟩ := findFileInRootDir_of_find hfs hfits hfind
  refine ⟨disk, hsame, fun fuel dest memory => ?_⟩
  simp only [FATFileSystem.tryLoadFile, hfound, Checked.ok_bind]
  cases ((found.filterMap Except.toOption).find? fun e => e.eqName name).bind
    DirectoryEntry.file <;> rfl

end Search

end MiniatureOs
