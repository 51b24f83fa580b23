import MiniatureOs.Fat.Load
import MiniatureOs.Lib.Chunks
import MiniatureOs.Lib.Utf16

/-! # The root directory

Directory entries of `fat.rs`, the iterator over the root directory, and the
search for a file in it. A long name is spread over entries of 32 bytes in front of
the 8.3 entry of its file; `DirectoryEntry::parse` reads such a group as one entry.
-/

namespace MiniatureOs

open FatDisk

/-! ## Slices -/

def byteAt (raw : List UInt8) (i : Nat) : Checked UInt8 :=
  match raw[i]? with
  | some b => .ok b
  | none => .error .outOfBounds

def sliceAt (raw : List UInt8) (i n : Nat) : Checked (List UInt8) :=
  if i + n ≤ raw.length then .ok ((raw.drop i).take n) else .error .outOfBounds

/-! ## Directory entries -/

namespace FileAttributes

def directory : UInt8 := 0x10

/-- `READ_ONLY | HIDDEN | SYSTEM | VOLUME_ID`. -/
def longFileName : UInt8 := 0x1 ||| 0x2 ||| 0x4 ||| 0x8

def isSet (attributes flag : UInt8) : Bool := attributes &&& flag ≠ 0

end FileAttributes

structure NormalDirectoryEntry where
  filename : List Char
  attributes : UInt8
  firstClusterNumber : Nat
  sizeInBytes : Nat
  deriving Repr, DecidableEq

/-- The array of 255 characters that `filename` is, from its front. -/
def nameArray (cs : List Char) : List Char := cs ++ List.replicate (255 - cs.length) '\x00'

structure LongNameDirectoryEntry where
  filename : List Char := nameArray []
  firstClusterNumber : Nat := 0
  attributes : UInt8 := 0
  sizeInBytes : Nat := 0
  deriving Repr, DecidableEq

inductive DirectoryEntry where
  | unused
  | endOfDir
  | normalDirEntry (entry : NormalDirectoryEntry)
  | longNameDirEntry (entry : LongNameDirectoryEntry)
  deriving Repr, DecidableEq

namespace DirectoryEntry

def endOfDirectory : UInt8 := 0x0

def unusedEntry : UInt8 := 0xe5

def normalEntrySize : Nat := 0x20

/-- The first cluster in bytes 20..22 and 26..28 and the size in bytes 28..32. -/
def readFile (raw : List UInt8) : Checked (Nat × Nat) := do
  let high ← sliceAt raw 20 2
  let low ← sliceAt raw 26 2
  let size ← sliceAt raw 28 4
  return (ofLittleEndian high <<< 16 ||| ofLittleEndian low, ofLittleEndian size)

def writeName : List Char → List Char → Nat → Checked (List Char × Nat)
  | [], filename, nameIdx => .ok (filename, nameIdx)
  | c :: rest, filename, nameIdx =>
      if nameIdx < filename.length then writeName rest (filename.set nameIdx c) (nameIdx + 1)
      else .error .outOfBounds

def nameUnits (name1 name2 name3 : List UInt8) : List Nat :=
  ((chunks 2 name1 ++ chunks 2 name2 ++ chunks 2 name3).map ofLittleEndian).takeWhile (· ≠ 0)

/-- The loop over the chunks of a long name. It returns the total size as well,
which stays zero when no 8.3 entry is found. -/
def longNameLoop : List (List UInt8) → Nat → LongNameDirectoryEntry → Nat →
    Checked (LongNameDirectoryEntry × Nat)
  | [], _, longNameEntry, _ => .ok (longNameEntry, 0)
  | entry :: rest, i, longNameEntry, nameIdx => do
      let attributes ← byteAt entry 11
      if attributes = FileAttributes.longFileName then do
        let name1 ← sliceAt entry 1 10
        let name2 ← sliceAt entry 14 12
        let name3 ← sliceAt entry 28 4
        let chars := Utf16.decodeLossy (nameUnits name1 name2 name3)
        let (filename, nameIdx) ← writeName chars longNameEntry.filename nameIdx
        longNameLoop rest (i + 1) { longNameEntry with filename } nameIdx
      else do
        let (firstClusterNumber, sizeInBytes) ← readFile entry
        return ({ longNameEntry with firstClusterNumber, sizeInBytes, attributes },
          (i + 1) * normalEntrySize)

/-- `DirectoryEntry::parse`. -/
def parse (raw : List UInt8) : Checked (Except FatError (Nat × DirectoryEntry)) := do
  let first ← byteAt raw 0
  if first = endOfDirectory then return .ok (normalEntrySize, endOfDir)
  else if first = unusedEntry then return .ok (normalEntrySize, unused)
  else do
    let attributes ← byteAt raw 11
    if attributes = FileAttributes.longFileName then do
      let (longNameEntry, totalSize) ← longNameLoop (chunks 0x20 raw) 0 {} 0
      Checked.assert (totalSize ≠ 0) "total_size != 0"
      return .ok (totalSize, longNameDirEntry longNameEntry)
    else do
      let name ← sliceAt raw 0 11
      let (firstClusterNumber, sizeInBytes) ← readFile raw
      return .ok (normalEntrySize, normalDirEntry
        ⟨name.map fun b => Char.ofNat b.toNat, attributes, firstClusterNumber, sizeInBytes⟩)

def eqName (entry : DirectoryEntry) (name : List Char) : Bool :=
  match entry with
  | normalDirEntry e => e.filename.takeWhile (· ≠ '\x00') = name
  | longNameDirEntry e => e.filename.takeWhile (· ≠ '\x00') = name
  | _ => false

def isDir : DirectoryEntry → Bool
  | normalDirEntry e => FileAttributes.isSet e.attributes FileAttributes.directory
  | longNameDirEntry e => FileAttributes.isSet e.attributes FileAttributes.directory
  | _ => false

def firstCluster : DirectoryEntry → Nat
  | normalDirEntry e => e.firstClusterNumber
  | longNameDirEntry e => e.firstClusterNumber
  | _ => 0

def fileSize : DirectoryEntry → Nat
  | normalDirEntry e => e.sizeInBytes
  | longNameDirEntry e => e.sizeInBytes
  | _ => 0

end DirectoryEntry

/-! ## The iterator -/

structure RootDirIter where
  buf : List UInt8
  offset : Nat

namespace RootDirIter

def new (buf : List UInt8) : RootDirIter := ⟨buf, 0⟩

/-- `RootDirIter::next_entry`. -/
def nextEntry (iter : RootDirIter) :
    Checked (Except FatError DirectoryEntry × RootDirIter) := do
  let raw ← if iter.offset ≤ iter.buf.length then .ok (iter.buf.drop iter.offset)
    else .error .outOfBounds
  match ← DirectoryEntry.parse raw with
  | .ok (size, entry) => return (.ok entry, { iter with offset := iter.offset + size })
  | .error e => return (.error e, iter)

/-- `Iterator::next`, which calls itself behind an unused entry; `none` when the
fuel is used up. -/
def next : Nat → RootDirIter →
    Checked (Option (Option (Except FatError DirectoryEntry) × RootDirIter))
  | 0, _ => .ok none
  | fuel + 1, iter => do
      let (entry, iter) ← iter.nextEntry
      match entry with
      | .ok .endOfDir => return some (none, iter)
      | .ok .unused => next fuel iter
      | .ok entry => return some (some (.ok entry), iter)
      | .error e => return some (some (.error e), iter)

def items : Nat → RootDirIter → Checked (Option (List (Except FatError DirectoryEntry)))
  | 0, _ => .ok none
  | fuel + 1, iter => do
      match ← next (fuel + 1) iter with
      | none => return none
      | some (none, _) => return some []
      | some (some item, iter) =>
          match ← items fuel iter with
          | none => return none
          | some rest => return some (item :: rest)

/-- `entries.filter_map(|e| e.ok()).find(..)`. -/
def find (p : DirectoryEntry → Bool) :
    Nat → RootDirIter → Checked (Option (Option DirectoryEntry))
  | 0, _ => .ok none
  | fuel + 1, iter => do
      match ← next (fuel + 1) iter with
      | none => return none
      | some (none, _) => return some none
      | some (some (.error _), iter) => find p fuel iter
      | some (some (.ok entry), iter) =>
          if p entry then return some (some entry) else find p fuel iter

end RootDirIter

/-! ## Finding a file -/

section Search

variable {D : Type} [FatDisk D]

/-- `Read::read` of `DiskAccess`: as many sectors as the buffer holds. -/
def readBuffer (disk : D) (len : Nat) : Checked (List UInt8 × D) := do
  let sectors ← Checked.div len (sectorSize disk)
  readSectors disk sectors len

/-- `FATFileSystem::read_root_dir` into a buffer of `len` bytes. -/
def FATFileSystem.readRootDir (fs : FATFileSystem D) (buffer : List UInt8) :
    Checked (RootDirIter × FATFileSystem D) := do
  let size ← fs.bpb.rootDirSize
  Checked.assert (buffer.length = size) "buffer.len() == self.bpb.root_dir_size() as usize"
  let typ ← fs.bpb.fatType
  if typ = .fat32 then .error (.message "not implemented")
  else do
    let sector ← fs.bpb.firstRootDirSector
    let (_, disk) ← seek fs.disk (.startInSectors sector)
    let (data, disk) ← readBuffer disk buffer.length
    return (RootDirIter.new (data ++ buffer.drop data.length), { fs with disk })

/-- `FATFileSystem::find_file_in_root_dir`. -/
def FATFileSystem.findFileInRootDir (fs : FATFileSystem D) (name : List Char) :
    Checked (Option (Option File) × FATFileSystem D) := do
  let buffer := List.replicate (defaultSectorSize * rootDirEntrySize) 0
  let (entries, fs) ← fs.readRootDir buffer
  match ← RootDirIter.find (fun e => e.eqName name) (buffer.length + 1) entries with
  | none => return (none, fs)
  | some none => return (some none, fs)
  | some (some entry) =>
      return (some (if entry.isDir then none else some ⟨entry.firstCluster, entry.fileSize⟩), fs)

/-- `FATFileSystem::try_load_file`; `none` when the fuel of the loading loop is used
up. -/
def FATFileSystem.tryLoadFile (fuel : Nat) (fs : FATFileSystem D) (name : List Char)
    (dest : BitVec 32) (memory : WrappedMemory 32) :
    Checked (Option (Except FatError Nat × WrappedMemory 32)) := do
  match ← fs.findFileInRootDir name with
  | (none, _) => return none
  | (some none, _) => return some (.error .fileNotFound, memory)
  | (some (some file), fs) => fs.loadFile fuel file dest memory

end Search

end MiniatureOs
