import MiniatureOs.Fat.Volume

/-! # Loading a file

The cluster iterator and the loading loop of `try_load_file`. The iterator reads
the allocation table through the disk of the file system; the loop reads the
clusters through a clone of it. A cyclic chain makes the loop run forever, so the
outer loop takes fuel and says when it ran out.
-/

namespace MiniatureOs

open FatDisk

structure Cluster where
  startSector : Nat
  sizeInSectors : Nat

structure FileIter (D : Type) where
  disk : D
  currentEntry : FatEntry
  bpb : BiosParameterBlock
  fatTable : FileAllocationTable

namespace FileIter

variable {D : Type} [FatDisk D]

/-- `FileIter::new`. -/
def new (disk : D) (startCluster : Nat) (bpb : BiosParameterBlock) : Checked (FileIter D) := do
  let typ ← bpb.fatType
  let fatTable ← FileAllocationTable.new typ bpb.firstFatSector bpb.bytesPerSector.toNat
  return ⟨disk, .cluster startCluster, bpb, fatTable⟩

/-- `FileIter::next_cluster`. -/
def nextCluster (iter : FileIter D) :
    Checked (Except FatError (Option Cluster) × FileIter D) :=
  match iter.currentEntry with
  | .badCluster => .ok (.error .fileReadError, iter)
  | .reservedCluster => .ok (.error .fileReadError, iter)
  | .endOfFile => .ok (.ok none, iter)
  | .cluster clusterNumber => do
      let startSector ← iter.bpb.firstClusterSector clusterNumber
      let cluster := Cluster.mk startSector iter.bpb.sectorsPerCluster.toNat
      let (currentEntry, disk) ← iter.fatTable.getEntry iter.disk clusterNumber
      return (.ok (some cluster), { iter with currentEntry, disk })

end FileIter

structure LoadState (D : Type) where
  disk : D
  buffer : List UInt8
  memory : WrappedMemory 32
  totalSectorsRead : Nat

section Loop

variable {D : Type} [FatDisk D]

/-- The inner loop over the sectors of a cluster. The buffer holds eight sectors,
so every iteration reads at least one. -/
def readClusterLoop (dest : BitVec 32) : Nat → LoadState D → Nat → Checked (LoadState D)
  | 0, state, _ => .ok state
  | fuel + 1, state, sectorsLeft =>
      if 0 < sectorsLeft then do
        let capacity ← Checked.div state.buffer.length (sectorSize state.disk)
        let sectorsToRead := min sectorsLeft capacity
        let (data, disk) ← readSectors state.disk sectorsToRead state.buffer.length
        let buffer := data ++ state.buffer.drop data.length
        let offset ← Checked.mul 32 state.totalSectorsRead (sectorSize disk)
        let length ← Checked.mul 32 sectorsToRead (sectorSize disk)
        let memory := state.memory.store (dest + BitVec.ofNat 32 offset) (buffer.take length)
        let totalSectorsRead ← Checked.add 32 state.totalSectorsRead sectorsToRead
        readClusterLoop dest fuel ⟨disk, buffer, memory, totalSectorsRead⟩
          (sectorsLeft - sectorsToRead)
      else .ok state

/-- The outer loop over the clusters; `none` when the fuel is used up. -/
def loadLoop (dest : BitVec 32) : Nat → FileIter D → LoadState D →
    Checked (Option (Except FatError Unit × LoadState D))
  | 0, _, _ => .ok none
  | fuel + 1, iter, state => do
      let (next, iter) ← iter.nextCluster
      match next with
      | .error e => return some (.error e, state)
      | .ok none => return some (.ok (), state)
      | .ok (some cluster) =>
          let (_, disk) ← seek state.disk (.startInSectors cluster.startSector)
          let sectorsLeft ← sectorsPerCluster disk
          let state ← readClusterLoop dest sectorsLeft { state with disk } sectorsLeft
          loadLoop dest fuel iter state

/-- `try_load_file` from the file it found on, with the memory it leaves. -/
def FATFileSystem.loadFile (fuel : Nat) (fs : FATFileSystem D) (file : File) (dest : BitVec 32)
    (memory : WrappedMemory 32) : Checked (Option (Except FatError Nat × WrappedMemory 32)) := do
  let buffer := List.replicate (defaultSectorSize * 0x8) 0
  let iter ← FileIter.new fs.disk file.startSector fs.bpb
  match ← loadLoop dest fuel iter ⟨fs.disk, buffer, memory, 0⟩ with
  | none => return none
  | some (.error e, state) => return some (.error e, state.memory)
  | some (.ok _, state) =>
      let sizeInSectors ← file.sizeInSectors
      if state.totalSectorsRead < sizeInSectors then
        return some (.error .fileReadError, state.memory)
      else
        return some (.ok file.size, state.memory)

end Loop

end MiniatureOs
