import Mathlib.Data.List.Perm.Subperm
import MiniatureOs.Fat.Geometry

/-! # Loading follows the chain

On a lawful disk the loading loop reads the clusters of a finite chain one after
the other into the destination. What it returns is decided by the last entry of
the chain and by the size of the file, whose rounding to sectors is computed in
32 bits.
-/

namespace MiniatureOs

open FatDisk LawfulDisk

/-! ## Chains in the allocation table -/

/-- The clusters from `c` on, linked through `entry`, and the entry that ends
them. -/
inductive Chain (entry : Nat → FatEntry) (valid : Nat → Prop) :
    Nat → List Nat → FatEntry → Prop
  | stop {c : Nat} {e : FatEntry} (hc : valid c) (he : entry c = e)
      (hend : ∀ n, e ≠ .cluster n) : Chain entry valid c [c] e
  | link {c next : Nat} {cs : List Nat} {e : FatEntry} (hc : valid c)
      (he : entry c = .cluster next) (h : Chain entry valid next cs e) :
      Chain entry valid c (c :: cs) e

namespace Chain

variable {entry : Nat → FatEntry} {valid : Nat → Prop} {c : Nat} {cs : List Nat} {e : FatEntry}

theorem unique (h : Chain entry valid c cs e) {cs' : List Nat} {e' : FatEntry}
    (h' : Chain entry valid c cs' e') : cs = cs' := by
  induction h generalizing cs' with
  | stop hc he hend =>
      cases h' with
      | stop => rfl
      | link _ he' _ => exact absurd (he.symm.trans he') (hend _)
  | link hc he h ih =>
      cases h' with
      | stop _ he' hend => exact absurd (he'.symm.trans he) (hend _)
      | link _ he' h' =>
          obtain rfl := FatEntry.cluster.inj (he.symm.trans he')
          rw [ih h']

theorem valid_of_mem (h : Chain entry valid c cs e) : ∀ d ∈ cs, valid d := by
  induction h with
  | stop hc => simpa using hc
  | link hc _ _ ih => exact List.forall_mem_cons.mpr ⟨hc, ih⟩

theorem exists_of_mem (h : Chain entry valid c cs e) {d : Nat} (hd : d ∈ cs) :
    ∃ cs', Chain entry valid d cs' e ∧ cs'.length ≤ cs.length := by
  induction h with
  | @stop c e hc he hend =>
      obtain rfl : d = c := by simpa using hd
      exact ⟨[d], .stop hc he hend, Nat.le_refl _⟩
  | @link c next cs e hc he h ih =>
      rcases List.mem_cons.mp hd with rfl | hd
      · exact ⟨d :: cs, .link hc he h, Nat.le_refl _⟩
      · obtain ⟨cs', h', hle⟩ := ih hd
        exact ⟨cs', h', Nat.le_succ_of_le hle⟩

/-- A finite chain visits no cluster twice. -/
theorem nodup (h : Chain entry valid c cs e) : cs.Nodup := by
  induction h with
  | stop => simp
  | @link c next cs e hc he h ih =>
      refine List.nodup_cons.mpr ⟨fun hmem => ?_, ih⟩
      obtain ⟨cs', h', hle⟩ := h.exists_of_mem hmem
      have heq := (Chain.link hc he h).unique h'
      rw [← heq, List.length_cons] at hle
      omega

end Chain

theorem BiosParameterBlock.chain_length_le {bpb : BiosParameterBlock} {entry : Nat → FatEntry}
    {c : Nat} {cs : List Nat} {e : FatEntry} (h : Chain entry bpb.IsCluster c cs e) :
    cs.length ≤ bpb.clusterCount := by
  have hsubset : cs ⊆ List.range' 2 bpb.clusterCount := by
    intro d hd
    have hvalid := h.valid_of_mem d hd
    exact List.mem_range'_1.mpr ⟨hvalid.1, by have := hvalid.2; omega⟩
  have hlength := (h.nodup.subperm hsubset).length_le
  simpa using hlength

/-! ## The inner loop -/

section Loop

variable {D : Type} [FatDisk D] [LawfulDisk D]

/-- The loop's disk and buffer have the sizes that `parse` set. -/
structure LoadState.Ready (bpb : BiosParameterBlock) (contents : ByteMemory)
    (state : LoadState D) : Prop where
  image : image state.disk = contents
  sectorSize : sectorSize state.disk = defaultSectorSize
  clusterSize : clusterSize state.disk = defaultSectorSize * bpb.sectorsPerCluster.toNat
  buffer : state.buffer.length = defaultSectorSize * 0x8

/-- One iteration reads up to eight sectors and stores them behind those read
before. -/
theorem readClusterLoop_step (dest : BitVec 32) {bpb : BiosParameterBlock}
    {contents : ByteMemory} {fuel left n : Nat} {state : LoadState D}
    (hready : state.Ready bpb contents) (hleft : 0 < left) (hn : n = min left 8)
    (haligned : position state.disk % defaultSectorSize = 0)
    (hend : position state.disk + left * defaultSectorSize < 2 ^ 63)
    (htotal : state.totalSectorsRead < 2 ^ 23) :
    ∃ next : LoadState D, readClusterLoop dest (fuel + 1) state left =
        readClusterLoop dest fuel next (left - n) ∧ next.Ready bpb contents ∧
      next.totalSectorsRead = state.totalSectorsRead + n ∧
      position next.disk = position state.disk + n * defaultSectorSize ∧
      next.memory = state.memory.store
        (dest + BitVec.ofNat 32 (state.totalSectorsRead * defaultSectorSize))
        (contents.bytes (position state.disk) (n * defaultSectorSize)) := by
  have hpos : 0 < defaultSectorSize := by decide
  have hcapacity : defaultSectorSize * 0x8 / defaultSectorSize = 8 := by decide
  have hoffset : state.totalSectorsRead * defaultSectorSize < 2 ^ 32 := by
    unfold defaultSectorSize
    omega
  have hlength : n * defaultSectorSize ≤ defaultSectorSize * 0x8 := by
    unfold defaultSectorSize
    omega
  have hsize := hready.sectorSize
  obtain ⟨d', hread, hposition, himage, hsector, hcluster⟩ :=
    @readSectors_eq D _ _ state.disk n (defaultSectorSize * 0x8) (by rw [hsize]; exact hpos)
      (by rw [hsize]; exact haligned) (by rw [hsize]; decide) (by rw [hsize, hcapacity]; omega)
      (by unfold defaultSectorSize at hend ⊢; omega)
  rw [hsize, hready.image] at hread
  rw [hsize] at hposition hsector
  have hdata : (contents.bytes (position state.disk) (n * defaultSectorSize)).length =
      n * defaultSectorSize := ByteMemory.bytes_length _ _ _
  refine ⟨⟨d', contents.bytes (position state.disk) (n * defaultSectorSize) ++
      state.buffer.drop (n * defaultSectorSize), state.memory.store
        (dest + BitVec.ofNat 32 (state.totalSectorsRead * defaultSectorSize))
        (contents.bytes (position state.disk) (n * defaultSectorSize)),
      state.totalSectorsRead + n⟩, ?_,
    ⟨himage.trans hready.image, hsector, hcluster.trans hready.clusterSize, ?_⟩, rfl, hposition,
    rfl⟩
  · simp only [readClusterLoop, hleft, if_true, hready.buffer, hsize, hsector,
      Checked.div_of_pos hpos, hcapacity, ← hn, hread, Checked.mul_of_lt hoffset,
      Checked.mul_of_lt (show n * defaultSectorSize < 2 ^ 32 from
        Nat.lt_of_le_of_lt hlength (by decide)),
      Checked.add_of_lt (show state.totalSectorsRead + n < 2 ^ 32 by omega),
      Checked.ok_bind, hdata, List.take_left' hdata]
  · rw [List.length_append, hdata, List.length_drop, hready.buffer, Nat.add_sub_cancel' hlength]

/-- The sectors of a cluster are stored one after the other as long as the last
read starts below the 4 GiB that a 32-bit byte offset reaches. -/
theorem readClusterLoop_spec (dest : BitVec 32) {bpb : BiosParameterBlock}
    {contents : ByteMemory} {fuel left : Nat} {state : LoadState D}
    (hready : state.Ready bpb contents) (hfuel : left ≤ fuel)
    (haligned : position state.disk % defaultSectorSize = 0)
    (hend : position state.disk + left * defaultSectorSize < 2 ^ 63)
    (htotal : state.totalSectorsRead + (left - 1) / 8 * 8 < 2 ^ 23) :
    ∃ state', readClusterLoop dest fuel state left = .ok state' ∧ state'.Ready bpb contents ∧
      state'.totalSectorsRead = state.totalSectorsRead + left ∧
      state'.memory = state.memory.store
        (dest + BitVec.ofNat 32 (state.totalSectorsRead * defaultSectorSize))
        (contents.bytes (position state.disk) (left * defaultSectorSize)) := by
  induction fuel generalizing left state with
  | zero =>
      obtain rfl : left = 0 := by omega
      exact ⟨state, rfl, hready, rfl, by simp [ByteMemory.bytes]⟩
  | succ fuel ih =>
      by_cases hleft : 0 < left
      · obtain ⟨n, hn⟩ : ∃ n, n = min left 8 := ⟨_, rfl⟩
        obtain ⟨next, hstep, hnext, hcount, hposition, hstored⟩ :=
          @readClusterLoop_step D _ _ dest bpb contents fuel left n state hready hleft hn haligned
            hend (by omega)
        have hsplit : left * defaultSectorSize =
            n * defaultSectorSize + (left - n) * defaultSectorSize := by
          rw [← Nat.add_mul]
          congr 1
          omega
        by_cases hlast : left ≤ 8
        · -- the first read was the only one
          obtain rfl : n = left := by omega
          rw [Nat.sub_self] at hstep
          have hdone : readClusterLoop dest fuel next 0 = .ok next := by
            cases fuel with
            | zero => rfl
            | succ fuel => simp [readClusterLoop]
          exact ⟨next, hstep.trans hdone, hnext, hcount, hstored⟩
        obtain ⟨state', hloop, hfinal, htotal', hmemory⟩ := @ih (left - n) next hnext (by omega)
          (by rw [hposition, Nat.add_mul_mod_self_right]; exact haligned)
          (by rw [hposition, Nat.add_assoc, ← hsplit]; exact hend) (by omega)
        refine ⟨state', hstep.trans hloop, hfinal, by omega, ?_⟩
        -- the rest of the cluster is stored right behind what was stored
        have hpointer : dest + BitVec.ofNat 32 ((state.totalSectorsRead + n) *
            defaultSectorSize) = dest + BitVec.ofNat 32 (state.totalSectorsRead *
            defaultSectorSize) + BitVec.ofNat 32 (contents.bytes (position state.disk)
            (n * defaultSectorSize)).length := by
          rw [ByteMemory.bytes_length, Nat.add_mul, BitVec.ofNat_add, BitVec.add_assoc]
        rw [hmemory, hstored, hcount, hposition, hpointer, WrappedMemory.store_store, hsplit,
          ByteMemory.bytes_add]
        rw [ByteMemory.bytes_length, ByteMemory.bytes_length, ← hsplit]
        unfold defaultSectorSize
        omega
      · obtain rfl : left = 0 := by omega
        exact ⟨state, by simp [readClusterLoop], hready, rfl, by simp [ByteMemory.bytes]⟩

/-! ## The outer loop -/

structure FileIter.Ready (bpb : BiosParameterBlock) (typ : FatType) (contents : ByteMemory)
    (iter : FileIter D) : Prop where
  image : image iter.disk = contents
  block : iter.bpb = bpb
  fatTable : iter.fatTable = ⟨typ, bpb.reservedSectorCount.toNat * defaultSectorSize⟩

def startCluster (iter : FileIter D) (state : LoadState D) :
    Checked (Option (FileIter D × LoadState D × Nat)) := do
  let (next, iter) ← iter.nextCluster
  match next with
  | .error _ => return none
  | .ok none => return none
  | .ok (some cluster) =>
      let (_, disk) ← seek state.disk (.startInSectors cluster.startSector)
      let sectorsLeft ← sectorsPerCluster disk
      return some (iter, { state with disk }, sectorsLeft)

/-- An iteration over a whole cluster; `none` when there is no further one. -/
def loadCluster (dest : BitVec 32) (iter : FileIter D) (state : LoadState D) :
    Checked (Option (FileIter D × LoadState D)) := do
  match ← startCluster iter state with
  | none => return none
  | some (iter, state, sectorsLeft) =>
      let state ← readClusterLoop dest sectorsLeft state sectorsLeft
      return some (iter, state)

omit [LawfulDisk D] in
theorem loadLoop_succ (dest : BitVec 32) (fuel : Nat) (iter : FileIter D) (state : LoadState D) :
    loadLoop dest (fuel + 1) iter state = (do
      match ← loadCluster dest iter state with
      | none =>
          return some (if iter.currentEntry = .endOfFile then .ok () else .error .fileReadError,
            state)
      | some (iter, state) => loadLoop dest fuel iter state) := by
  cases hentry : iter.currentEntry with
  | endOfFile => simp [loadLoop, loadCluster, startCluster, FileIter.nextCluster, hentry]
  | badCluster => simp [loadLoop, loadCluster, startCluster, FileIter.nextCluster, hentry]
  | reservedCluster => simp [loadLoop, loadCluster, startCluster, FileIter.nextCluster, hentry]
  | cluster number =>
      simp only [loadLoop, loadCluster, startCluster, FileIter.nextCluster, hentry, bind_assoc,
        pure_bind]

omit [LawfulDisk D] in
theorem loadLoop_of_loadCluster {dest : BitVec 32} {fuel : Nat} {iter iter' : FileIter D}
    {state state' : LoadState D} (h : loadCluster dest iter state = .ok (some (iter', state'))) :
    loadLoop dest (fuel + 1) iter state = loadLoop dest fuel iter' state' := by
  simp only [loadLoop_succ, h, Checked.ok_bind]

variable {bpb : BiosParameterBlock} {typ : FatType} {contents : ByteMemory}

/-- At a usable cluster the iterator moves on to its entry and the disk stands at
its first sector. -/
theorem startCluster_spec (hbytes : bpb.bytesPerSector.toNat = defaultSectorSize) {cluster : Nat}
    (husable : bpb.Usable typ cluster) {iter : FileIter D} (hiter : iter.Ready bpb typ contents)
    (hentry : iter.currentEntry = .cluster cluster) {state : LoadState D}
    (hready : state.Ready bpb contents) :
    ∃ iter' disk, startCluster iter state =
        .ok (some (iter', { state with disk }, bpb.sectorsPerCluster.toNat)) ∧
      iter'.Ready bpb typ contents ∧ iter'.currentEntry = entryAt contents bpb typ cluster ∧
      ({ state with disk } : LoadState D).Ready bpb contents ∧
      position disk = ((cluster - 2) * bpb.sectorsPerCluster.toNat + bpb.dataStart) *
        defaultSectorSize := by
  obtain ⟨htwo, hsector, hoffset⟩ := husable
  have hpos : 0 < bpb.bytesPerSector.toNat := by rw [hbytes]; decide
  have hfirst := (BiosParameterBlock.firstClusterSector_eq_ok hpos).mpr ⟨htwo, hsector, rfl⟩
  rw [BiosParameterBlock.areasEnd_eq hbytes] at hsector hfirst
  obtain ⟨disk, hget, hsame⟩ := @getEntry_spec D _ _ bpb typ iter.disk cluster hoffset
  rw [hiter.image] at hget
  obtain ⟨d, hseek, hposition, himage, hsector', hsize⟩ := @seek_startInSectors D _ _ state.disk
    ((cluster - 2) * bpb.sectorsPerCluster.toNat + bpb.dataStart)
    (by rw [hready.sectorSize]; unfold defaultSectorSize; omega)
  rw [hready.sectorSize] at hposition hsector'
  have hready' : ({ state with disk := d } : LoadState D).Ready bpb contents :=
    ⟨himage.trans hready.image, hsector', hsize.trans hready.clusterSize, hready.buffer⟩
  have hper : sectorsPerCluster d = .ok bpb.sectorsPerCluster.toNat := by
    rw [sectorsPerCluster_eq d (by rw [hsector']; decide), hsector', hready'.clusterSize,
      Nat.mul_div_cancel_left _ (by decide)]
  refine ⟨{ iter with currentEntry := entryAt contents bpb typ cluster, disk }, d, ?_,
    ⟨hsame.image.trans hiter.image, hiter.block, hiter.fatTable⟩, rfl, hready', hposition⟩
  simp only [startCluster, FileIter.nextCluster, hentry, hiter.block, hfirst, hiter.fatTable,
    hget, Checked.ok_bind, Checked.pure_eq_ok, hseek, hper]

theorem loadCluster_spec (dest : BitVec 32)
    (hbytes : bpb.bytesPerSector.toNat = defaultSectorSize) {cluster : Nat}
    (husable : bpb.Usable typ cluster) {iter : FileIter D} (hiter : iter.Ready bpb typ contents)
    (hentry : iter.currentEntry = .cluster cluster) {state : LoadState D}
    (hready : state.Ready bpb contents)
    (htotal : state.totalSectorsRead + (bpb.sectorsPerCluster.toNat - 1) / 8 * 8 < 2 ^ 23) :
    ∃ iter' state', loadCluster dest iter state = .ok (some (iter', state')) ∧
      iter'.Ready bpb typ contents ∧ iter'.currentEntry = entryAt contents bpb typ cluster ∧
      state'.Ready bpb contents ∧
      state'.totalSectorsRead = state.totalSectorsRead + bpb.sectorsPerCluster.toNat ∧
      state'.memory = state.memory.store
        (dest + BitVec.ofNat 32 (state.totalSectorsRead * defaultSectorSize))
        (clusterContents contents bpb cluster) := by
  obtain ⟨iter', disk, hstart, hiter', hentry', hready', hposition⟩ :=
    startCluster_spec hbytes husable hiter hentry hready
  have hsector := husable.2.1
  have hper := bpb.sectorsPerCluster.toNat_lt
  rw [BiosParameterBlock.areasEnd_eq hbytes] at hsector
  obtain ⟨state', hloop, hfinal, htotal', hmemory⟩ := readClusterLoop_spec dest hready'
    (Nat.le_refl bpb.sectorsPerCluster.toNat)
    (by simp only [hposition, Nat.mul_mod_left])
    (by simp only [hposition]; unfold defaultSectorSize; omega) htotal
  refine ⟨iter', state', ?_, hiter', hentry', hfinal, htotal', ?_⟩
  · simp only [loadCluster, hstart, hloop, Checked.ok_bind, Checked.pure_eq_ok]
  · rw [hmemory]
    simp only [hposition, clusterContents]

theorem flatMap_clusterContents_length (contents : ByteMemory) (bpb : BiosParameterBlock)
    (cs : List Nat) : (cs.flatMap (clusterContents contents bpb)).length =
      cs.length * bpb.sectorsPerCluster.toNat * defaultSectorSize := by
  have hall : ∀ d ∈ cs, (clusterContents contents bpb d).length =
      bpb.sectorsPerCluster.toNat * defaultSectorSize := fun d _ =>
    ByteMemory.bytes_length _ _ _
  rw [List.length_flatMap, List.map_congr_left hall, List.map_const', List.sum_replicate_nat,
    Nat.mul_assoc]

/-- The outer loop stores the clusters of the chain in order and ends with what
the last entry says. -/
theorem loadLoop_spec (dest : BitVec 32) (hrange : bpb.InRange) {c : Nat} {cs : List Nat}
    {e : FatEntry} (hchain : Chain (entryAt contents bpb typ) bpb.IsCluster c cs e)
    {fuel : Nat} (hfuel : cs.length < fuel) {iter : FileIter D}
    (hiter : iter.Ready bpb typ contents) (hentry : iter.currentEntry = .cluster c)
    {state : LoadState D} (hready : state.Ready bpb contents)
    (htotal : state.totalSectorsRead + cs.length * bpb.sectorsPerCluster.toNat < 2 ^ 23) :
    ∃ state', loadLoop dest fuel iter state =
        .ok (some (if e = .endOfFile then .ok () else .error .fileReadError, state')) ∧
      state'.totalSectorsRead =
        state.totalSectorsRead + cs.length * bpb.sectorsPerCluster.toNat ∧
      state'.memory = state.memory.store
        (dest + BitVec.ofNat 32 (state.totalSectorsRead * defaultSectorSize))
        (cs.flatMap (clusterContents contents bpb)) := by
  induction hchain generalizing fuel iter state with
  | @stop c e hc he hend =>
      obtain ⟨fuel, rfl⟩ : ∃ k, fuel = k + 2 := ⟨fuel - 2, by simp at hfuel; omega⟩
      rw [List.length_singleton, Nat.one_mul] at htotal
      obtain ⟨iter', state', hstep, _, hentry', _, htotal', hmemory⟩ :=
        loadCluster_spec dest hrange.bytesPerSector (hrange.usable typ hc) hiter hentry hready
          (by omega)
      rw [he] at hentry'
      refine ⟨state', ?_, by simpa using htotal', by simpa using hmemory⟩
      rw [loadLoop_of_loadCluster hstep]
      cases e with
      | endOfFile => simp [loadLoop, FileIter.nextCluster, hentry']
      | cluster n => exact absurd rfl (hend n)
      | badCluster => simp [loadLoop, FileIter.nextCluster, hentry']
      | reservedCluster => simp [loadLoop, FileIter.nextCluster, hentry']
  | @link c next cs e hc he hchain ih =>
      obtain ⟨fuel, rfl⟩ : ∃ k, fuel = k + 1 := ⟨fuel - 1, by omega⟩
      rw [List.length_cons, Nat.add_mul, Nat.one_mul] at htotal
      obtain ⟨iter', middle, hstep, hiter', hentry', hready', hmiddle, hstored⟩ :=
        loadCluster_spec dest hrange.bytesPerSector (hrange.usable typ hc) hiter hentry hready
          (by omega)
      obtain ⟨state', hloop, htotal', hmemory⟩ := ih (by simpa using hfuel) hiter'
        (hentry'.trans he) hready' (by omega)
      refine ⟨state', (loadLoop_of_loadCluster hstep).trans hloop, ?_, ?_⟩
      · rw [List.length_cons, Nat.add_mul, Nat.one_mul]
        omega
      · have hlength : (clusterContents contents bpb c).length =
            bpb.sectorsPerCluster.toNat * defaultSectorSize := ByteMemory.bytes_length _ _ _
        have hpointer : dest + BitVec.ofNat 32 (middle.totalSectorsRead * defaultSectorSize) =
            dest + BitVec.ofNat 32 (state.totalSectorsRead * defaultSectorSize) +
              BitVec.ofNat 32 (clusterContents contents bpb c).length := by
          rw [hlength, hmiddle, Nat.add_mul, BitVec.ofNat_add, BitVec.add_assoc]
        rw [hmemory, hstored, hpointer, WrappedMemory.store_store, List.flatMap_cons]
        rw [hlength, flatMap_clusterContents_length]
        unfold defaultSectorSize
        omega

/-! ## The whole load -/

/-- `memory'` is `memory` with the bytes written at `dest` and nothing else
changed. -/
def WrittenExactly (memory memory' : WrappedMemory 32) (dest : BitVec 32)
    (bytes : List UInt8) : Prop :=
  (∀ i, ∀ h : i < bytes.length, memory' (dest + BitVec.ofNat 32 i) = bytes.get ⟨i, h⟩) ∧
  ∀ x, (∀ i < bytes.length, x ≠ dest + BitVec.ofNat 32 i) → memory' x = memory x

/-- A file whose chain ends well and is long enough is loaded; any other load
ends with `FileReadError`. -/
structure LoadsCorrectly (fs : FATFileSystem D) (file : File) (cs : List Nat) (e : FatEntry)
    (dest : BitVec 32) (memory : WrappedMemory 32) : Prop where
  loads : e = .endOfFile →
    (file.size + 511) / 512 ≤ cs.length * fs.bpb.sectorsPerCluster.toNat →
    ∃ memory' n, (∀ fuel, n ≤ fuel →
        fs.loadFile fuel file dest memory = .ok (some (.ok file.size, memory'))) ∧
      WrittenExactly memory memory' dest
        (cs.flatMap (clusterContents (image fs.disk) fs.bpb))
  fails : e ≠ .endOfFile ∨
      cs.length * fs.bpb.sectorsPerCluster.toNat < (file.size + 511) / 512 →
    ∃ memory' n, ∀ fuel, n ≤ fuel →
      fs.loadFile fuel file dest memory = .ok (some (.error .fileReadError, memory'))

section Load

variable {fs : FATFileSystem D} {file : File} {cs : List Nat} {e : FatEntry}

abbrev FileChain (fs : FATFileSystem D) (typ : FatType) (file : File) (cs : List Nat)
    (e : FatEntry) : Prop :=
  Chain (entryAt (image fs.disk) fs.bpb typ) fs.bpb.IsCluster file.startSector cs e

theorem sectors_lt (hrange : fs.bpb.InRange) (hchain : FileChain fs typ file cs e) :
    cs.length * fs.bpb.sectorsPerCluster.toNat < 2 ^ 16 := by
  have hlength := Nat.mul_le_mul_right fs.bpb.sectorsPerCluster.toNat
    (BiosParameterBlock.chain_length_le hchain)
  have hclusters := hrange.clusters_le
  have htotal := fs.bpb.totalSectors16.toNat_lt
  omega

def FATFileSystem.loadStart (fs : FATFileSystem D) (memory : WrappedMemory 32) : LoadState D :=
  ⟨fs.disk, List.replicate (defaultSectorSize * 0x8) 0, memory, 0⟩

theorem loadStart_ready (hfs : fs.Mounted) (memory : WrappedMemory 32) :
    (fs.loadStart memory).Ready fs.bpb (image fs.disk) :=
  ⟨rfl, hfs.sectorSize, hfs.clusterSize, List.length_replicate⟩

/-- The iterator of a file starts at its first cluster and reads the first table. -/
theorem fileIter_new (hfs : fs.Mounted) (htyp : fs.bpb.fatType = .ok typ)
    (startCluster : Nat) :
    ∃ iter, FileIter.new fs.disk startCluster fs.bpb = .ok iter ∧
      iter.Ready fs.bpb typ (image fs.disk) ∧ iter.currentEntry = .cluster startCluster := by
  have hreserved := fs.bpb.reservedSectorCount.toNat_lt
  have hmul : fs.bpb.reservedSectorCount.toNat * defaultSectorSize < 2 ^ 64 := by
    unfold defaultSectorSize
    omega
  refine ⟨⟨fs.disk, .cluster startCluster, fs.bpb,
    ⟨typ, fs.bpb.reservedSectorCount.toNat * defaultSectorSize⟩⟩, ?_, ⟨rfl, rfl, rfl⟩, rfl⟩
  simp only [FileIter.new, htyp, FileAllocationTable.new, BiosParameterBlock.firstFatSector,
    hfs.bytesPerSector, Checked.mul_of_lt hmul, Checked.ok_bind, Checked.pure_eq_ok]

/-- With fuel for the chain, the load comes down to the last entry and the
comparison of sizes. -/
theorem loadFile_eq (hfs : fs.Mounted) (hrange : fs.bpb.InRange)
    (htyp : fs.bpb.fatType = .ok typ) (hchain : FileChain fs typ file cs e) (dest : BitVec 32)
    (memory : WrappedMemory 32) {fuel : Nat} (hfuel : cs.length < fuel) :
    fs.loadFile fuel file dest memory =
      let stored := memory.store dest (cs.flatMap (clusterContents (image fs.disk) fs.bpb))
      if e = .endOfFile then do
        let sizeInSectors ← file.sizeInSectors
        if cs.length * fs.bpb.sectorsPerCluster.toNat < sizeInSectors then
          return some (.error .fileReadError, stored)
        else
          return some (.ok file.size, stored)
      else .ok (some (.error .fileReadError, stored)) := by
  obtain ⟨iter, hnew, hiter, hentry⟩ := fileIter_new hfs htyp file.startSector
  obtain ⟨state, hloop, htotal, hmemory⟩ := loadLoop_spec dest hrange hchain hfuel hiter hentry
    (loadStart_ready hfs memory)
    (by have := sectors_lt hrange hchain; simp only [FATFileSystem.loadStart]; omega)
  have hdest : dest + BitVec.ofNat 32 (0 * defaultSectorSize) = dest := by simp
  simp only [FATFileSystem.loadStart, hdest, Nat.zero_add] at hloop hmemory htotal
  simp only [FATFileSystem.loadFile, hnew, Checked.ok_bind, hloop]
  by_cases hend : e = .endOfFile
  · simp only [hend, if_true, htotal, hmemory]
  · simp only [hend, if_false, hmemory, Checked.pure_eq_ok]

theorem sizeInSectors_of_lt (h : file.size + 511 < 2 ^ 32) :
    file.sizeInSectors = .ok ((file.size + 511) / 512) := by
  have hadd : Checked.add 32 file.size (defaultSectorSize - 1) = .ok (file.size + 511) :=
    Checked.add_of_lt h
  simp only [File.sizeInSectors, hadd, Checked.ok_bind]
  exact Checked.div_of_pos (by decide)

theorem sizeInSectors_of_le (h : 2 ^ 32 ≤ file.size + 511) :
    file.sizeInSectors = .error .overflow := by
  have hadd : Checked.add 32 file.size (defaultSectorSize - 1) = .error .overflow :=
    if_neg (Nat.not_lt.mpr h)
  simp only [File.sizeInSectors, hadd, Checked.error_bind]

theorem loadFile_of_overflow (hfs : fs.Mounted)
    (hrange : fs.bpb.InRange) (htyp : fs.bpb.fatType = .ok typ)
    (hchain : FileChain fs typ file cs .endOfFile) (hsize : 2 ^ 32 ≤ file.size + 511)
    (dest : BitVec 32) (memory : WrappedMemory 32) {fuel : Nat} (hfuel : cs.length < fuel) :
    fs.loadFile fuel file dest memory = .error .overflow := by
  rw [loadFile_eq hfs hrange htyp hchain dest memory hfuel, sizeInSectors_of_le hsize]
  rfl

/-- The rounding of so large a size overflows although no chain is that long. -/
theorem not_loadsCorrectly_of_overflow (hfs : fs.Mounted)
    (hrange : fs.bpb.InRange) (htyp : fs.bpb.fatType = .ok typ)
    (hchain : FileChain fs typ file cs .endOfFile) (hsize : 2 ^ 32 ≤ file.size + 511)
    (dest : BitVec 32) (memory : WrappedMemory 32) :
    ¬ LoadsCorrectly fs file cs .endOfFile dest memory := by
  intro hcorrect
  have hsectors := sectors_lt hrange hchain
  obtain ⟨memory', n, hload⟩ := hcorrect.fails (.inr (by omega))
  have hoverflow := loadFile_of_overflow hfs hrange htyp hchain hsize dest memory
    (show cs.length < max n (cs.length + 1) by omega)
  rw [hload _ (Nat.le_max_left _ _)] at hoverflow
  simp at hoverflow

theorem writtenExactly_store (hrange : fs.bpb.InRange) (hchain : FileChain fs typ file cs e)
    (dest : BitVec 32) (memory : WrappedMemory 32) :
    WrittenExactly memory
      (memory.store dest (cs.flatMap (clusterContents (image fs.disk) fs.bpb))) dest
      (cs.flatMap (clusterContents (image fs.disk) fs.bpb)) := by
  have hlength := flatMap_clusterContents_length (image fs.disk) fs.bpb cs
  have hsectors := sectors_lt hrange hchain
  have hfit : (cs.flatMap (clusterContents (image fs.disk) fs.bpb)).length ≤ 2 ^ 32 := by
    rw [hlength]
    unfold defaultSectorSize
    omega
  exact ⟨fun i hi => WrappedMemory.store_inside hi hfit,
    fun x hx => WrappedMemory.store_outside hx⟩

end Load

/-- Loading a file of a volume with the 16-bit sector count over a finite chain
does what the chain and the size say exactly when the chain ends in a bad or reserved entry or
the size can be rounded up to sectors in 32 bits. -/
theorem loadsCorrectly_iff (d : D) (fs : FATFileSystem D)
    (hparse : FATFileSystem.parse d = .ok fs) (hrange : fs.bpb.InRange) (typ : FatType)
    (htyp : fs.bpb.fatType = .ok typ) (file : File) (cs : List Nat)
    (e : FatEntry) (hchain : FileChain fs typ file cs e) (dest : BitVec 32)
    (memory : WrappedMemory 32) :
    LoadsCorrectly fs file cs e dest memory ↔
      e ≠ .endOfFile ∨ file.size + 511 < 2 ^ 32 := by
  have hfs := mounted_of_parse hparse
  constructor
  · intro hcorrect
    by_contra hnot
    obtain ⟨hend, hsize⟩ := not_or.mp hnot
    obtain rfl := not_not.mp hend
    exact not_loadsCorrectly_of_overflow hfs hrange htyp hchain (Nat.le_of_not_lt hsize) dest
      memory hcorrect
  · intro hok
    constructor
    · intro hend hlong
      have hsize := hok.resolve_left (not_not_intro hend)
      refine ⟨_, cs.length + 1, fun fuel hfuel => ?_,
        writtenExactly_store hrange hchain dest memory⟩
      rw [loadFile_eq hfs hrange htyp hchain dest memory hfuel, sizeInSectors_of_lt hsize]
      simp only [hend, if_true, Checked.ok_bind, if_neg (Nat.not_lt.mpr hlong),
        Checked.pure_eq_ok]
    · intro hfail
      refine ⟨memory.store dest (cs.flatMap (clusterContents (image fs.disk) fs.bpb)),
        cs.length + 1, fun fuel hfuel => ?_⟩
      rw [loadFile_eq hfs hrange htyp hchain dest memory hfuel]
      by_cases hend : e = .endOfFile
      · have hsize := hok.resolve_left (not_not_intro hend)
        have hshort := hfail.resolve_left (not_not_intro hend)
        simp only [hend, if_true, sizeInSectors_of_lt hsize, Checked.ok_bind, if_pos hshort,
          Checked.pure_eq_ok]
      · simp only [hend, if_false]

end Loop

/-! ## A disk in memory -/

structure RamDisk where
  contents : ByteMemory
  position : Nat
  sectorSize : Nat
  clusterSize : Nat

instance : FatDisk RamDisk where
  seek d pos := do
    let position ← match pos with
      | .start off => .ok off
      | .startInSectors off => Checked.mul 64 off d.sectorSize
      | .fromEnd _ => .error (.message "not implemented")
      | .current _ => .error (.message "not implemented")
    return (position, { d with position })
  readBytes d len :=
    .ok (d.contents.bytes d.position len, { d with position := d.position + len })
  readSectors d n _ := .ok (d.contents.bytes d.position (n * d.sectorSize),
    { d with position := d.position + n * d.sectorSize })
  setSectorSize d size := { d with sectorSize := size }
  sectorSize d := d.sectorSize
  setClusterSize d size := { d with clusterSize := size }
  clusterSize d := d.clusterSize
  sectorsPerCluster d := Checked.div d.clusterSize d.sectorSize

instance : LawfulDisk RamDisk where
  image d := d.contents
  position d := d.position
  seek_start d off _ := ⟨{ d with position := off }, rfl, rfl, rfl, rfl, rfl⟩
  seek_startInSectors d off h := by
    refine ⟨{ d with position := off * d.sectorSize }, ?_, rfl, rfl, rfl, rfl⟩
    have hmul : Checked.mul 64 off d.sectorSize = .ok (off * d.sectorSize) := Checked.mul_of_lt h
    simp only [seek, hmul, Checked.ok_bind]
    rfl
  readSectors_eq d n _ _ _ _ _ _ :=
    ⟨{ d with position := d.position + n * d.sectorSize }, rfl, rfl, rfl, rfl, rfl⟩
  readBytes_eq d len _ _ := ⟨{ d with position := d.position + len }, rfl, rfl, rfl, rfl⟩
  image_setSectorSize _ _ := rfl
  sectorSize_setSectorSize _ _ := rfl
  image_setClusterSize _ _ := rfl
  sectorSize_setClusterSize _ _ := rfl
  clusterSize_setClusterSize _ _ := rfl
  sectorsPerCluster_eq _ h := Checked.div_of_pos h

/-- The boot sector, one FAT12 table in which a file takes the clusters 2 and 3, an
empty root directory of 512 slots, and four clusters of 16 sectors. -/
def smallVolume : ByteMemory := fun x =>
  if x = 12 then 2 else if x = 13 then 16 else if x = 14 then 1 else if x = 16 then 1
  else if x = 18 then 2 else if x = 19 then 98 else if x = 22 then 1
  else if x = 512 + 3 then 0x03 else if x = 512 + 4 then 0xF0 else if x = 512 + 5 then 0xFF
  else if 50 * 512 ≤ x then 0xCD else if 34 * 512 ≤ x then 0xAB else 0

def smallBpb : BiosParameterBlock where
  bytesPerSector := 512
  sectorsPerCluster := 16
  reservedSectorCount := 1
  fatCount := 1
  rootEntryCount := 512
  totalSectors16 := 98
  totalSectors32 := 0
  fat16Size := 1
  fat32Size := 0
  rootCluster := 0

def smallFileSystem : FATFileSystem RamDisk := ⟨⟨smallVolume, 512, 512, 8192⟩, smallBpb⟩

theorem smallBpb_inRange : smallBpb.InRange :=
  ⟨by decide, by decide, by decide, by decide⟩

theorem parse_of_boot_sector {volume : ByteMemory}
    (h : volume.bytes 0 defaultSectorSize = smallVolume.bytes 0 defaultSectorSize) :
    FATFileSystem.parse (RamDisk.mk volume 0 512 0) =
      .ok ⟨⟨volume, 512, 512, 8192⟩, smallBpb⟩ := by
  have hfield := @fieldAt_bytes smallVolume
  have hfields : BiosParameterBlock.ofBytes (volume.bytes 0 defaultSectorSize) =
      .ok smallBpb := by
    rw [h]
    simp only [BiosParameterBlock.ofBytes, @hfield 11 2 (by decide), @hfield 13 1 (by decide),
      @hfield 14 2 (by decide), @hfield 16 1 (by decide), @hfield 17 2 (by decide),
      @hfield 19 2 (by decide), @hfield 22 2 (by decide), @hfield 32 4 (by decide)]
    rfl
  have hread : BiosParameterBlock.parse (RamDisk.mk volume 0 512 0) =
      .ok (smallBpb, RamDisk.mk volume 512 512 0) := by
    simp only [BiosParameterBlock.parse, seek, readBytes, Checked.ok_bind, Checked.pure_eq_ok,
      hfields, Nat.zero_add]
    rfl
  simp only [FATFileSystem.parse, hread, Checked.ok_bind]
  rfl

theorem parse_smallVolume :
    FATFileSystem.parse (RamDisk.mk smallVolume 0 512 0) = .ok smallFileSystem :=
  parse_of_boot_sector rfl

theorem fileChain_smallVolume (size : Nat) :
    FileChain smallFileSystem .fat12 ⟨2, size⟩ [2, 3] .endOfFile := by
  have hlink : entryAt smallVolume smallBpb .fat12 2 = .cluster 3 := by decide
  have hend : entryAt smallVolume smallBpb .fat12 3 = .endOfFile := by decide
  have hfirst : smallBpb.IsCluster 2 := ⟨by decide, by decide⟩
  have hsecond : smallBpb.IsCluster 3 := ⟨by decide, by decide⟩
  exact .link hfirst hlink (.stop hsecond hend (by simp))

/-- A file of two clusters, each read in two pieces of eight sectors. -/
theorem loadsCorrectly_two_clusters :
    LoadsCorrectly smallFileSystem ⟨2, 12000⟩ [2, 3] .endOfFile 0x10000#32 (fun _ => 0) :=
  (loadsCorrectly_iff (RamDisk.mk smallVolume 0 512 0) smallFileSystem parse_smallVolume
    smallBpb_inRange .fat12 rfl ⟨2, 12000⟩ [2, 3] .endOfFile (fileChain_smallVolume 12000) _
    _).mpr (.inr (by decide))

/-- A directory entry with the largest size stops the loader instead of ending in
`FileReadError`. -/
theorem not_loadsCorrectly_largest_size :
    smallFileSystem.loadFile 3 ⟨2, 0xFFFFFFFF⟩ 0x10000#32 (fun _ => 0) = .error .overflow ∧
      ¬ LoadsCorrectly smallFileSystem ⟨2, 0xFFFFFFFF⟩ [2, 3] .endOfFile 0x10000#32
        (fun _ => 0) := by
  have hfs := mounted_of_parse parse_smallVolume
  have hsize : 2 ^ 32 ≤ 0xFFFFFFFF + 511 := by decide
  exact ⟨loadFile_of_overflow hfs smallBpb_inRange rfl (fileChain_smallVolume 0xFFFFFFFF) hsize _ _
      (by decide),
    not_loadsCorrectly_of_overflow hfs smallBpb_inRange rfl (fileChain_smallVolume 0xFFFFFFFF)
      hsize _ _⟩

end MiniatureOs
