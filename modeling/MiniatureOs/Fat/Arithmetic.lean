import MiniatureOs.Fat.LongName
import MiniatureOs.Fat.Search
import MiniatureOs.Fat.Walk

/-! # The arithmetic of a load

Numbers from the boot sector, the directory and the allocation table go into the
sector and byte numbers of a load without being checked first. The arithmetic is
checked, so a number that does not fit stops the boot where the load should fail,
and a number that fits by chance is followed out of the volume. A load is safe
exactly when the geometry is one that `read_root_dir` accepts, the chain stays in
the volume, and the size can be rounded up where the chain ends.
-/

namespace MiniatureOs

open FatDisk LawfulDisk

/-! ## Values that a load can use -/

namespace BiosParameterBlock

variable (bpb : BiosParameterBlock)

def HasCluster (cluster : Nat) : Prop := 2 ≤ cluster ∧ cluster < bpb.dataClusters + 2

instance (cluster : Nat) : Decidable (bpb.HasCluster cluster) :=
  inferInstanceAs (Decidable (_ ∧ _))

/-- An entry behind which there is nothing to load, although the file has not ended. -/
def Unusable : FatEntry → Prop
  | .cluster c => ¬ bpb.HasCluster c
  | .endOfFile => False
  | .badCluster => True
  | .reservedCluster => True

/-- What has to hold at an entry: its cluster is one of the volume, or the size of
the file that ends can be rounded up to sectors. -/
def EntryFits (size : Nat) : FatEntry → Prop
  | .cluster c => bpb.HasCluster c
  | .endOfFile => size + 511 < 2 ^ 32
  | .badCluster => True
  | .reservedCluster => True

variable {bpb}

/-- The sectors and the entries of the clusters of a searched volume fit 32 bits. -/
theorem GeometryFits.usable (h : bpb.GeometryFits) {cluster : Nat}
    (hc : bpb.HasCluster cluster) : bpb.Usable bpb.volumeType cluster := by
  obtain ⟨htwo, hlt⟩ := hc
  have hareas := h.areas
  have htotal := @totalSectors_lt bpb
  have hclusters : bpb.dataClusters * bpb.sectorsPerCluster.toNat ≤
      bpb.totalSectors - bpb.areasEnd := Nat.div_mul_le_self _ _
  have hbelow : (cluster - 2 + 1) * bpb.sectorsPerCluster.toNat ≤
      bpb.dataClusters * bpb.sectorsPerCluster.toNat := Nat.mul_le_mul_right _ (by omega)
  rw [Nat.add_mul, Nat.one_mul] at hbelow
  have hper := h.sectorsPerCluster
  have hcount : bpb.dataClusters < 65525 := by
    by_contra hmany
    exact h.volumeType (by rw [BiosParameterBlock.volumeType, if_neg (by omega), if_neg hmany])
  exact ⟨htwo, by omega, FatType.entryOffset_lt _ (by omega)⟩

end BiosParameterBlock

/-! ## Safe loads -/

section Safe

variable {D : Type} [FatDisk D] [LawfulDisk D]

/-- The loop of `try_load_file` stands at the iterator behind `n` clusters. -/
def LoadStands (fs : FATFileSystem D) (name : List Char) (file : File) (dest : BitVec 32)
    (memory : WrappedMemory 32) (n : Nat) (iter' : FileIter D) : Prop :=
  ∃ fs' iter state', fs.findFileInRootDir name = .ok (some (some file), fs') ∧
    FileIter.new fs'.disk file.startSector fs'.bpb = .ok iter ∧
    loadClusters dest n iter (fs'.loadStart memory) = .ok (some (iter', state'))

/-- With enough fuel `try_load_file` returns this result. -/
def LoadReturns (fs : FATFileSystem D) (name : List Char) (dest : BitVec 32)
    (memory : WrappedMemory 32) (result : Except FatError Nat) : Prop :=
  ∃ memory' n, ∀ fuel, n ≤ fuel →
    fs.tryLoadFile fuel name dest memory = .ok (some (result, memory'))

/-- Behind `n` clusters of the volume, the last of which is written below 4 GiB, the
chain of the file comes to the entry. -/
def ChainReaches (fs : FATFileSystem D) (file : File) (n : Nat) (e : FatEntry) : Prop :=
  FollowsTable (entryAt (image fs.disk) fs.bpb fs.bpb.volumeType) fs.bpb.HasCluster n
    (.cluster file.startSector) ∧
  entryAfter (entryAt (image fs.disk) fs.bpb fs.bpb.volumeType) n
    (.cluster file.startSector) = e ∧
  WritesBelow fs.bpb n 0

def File.IsEmpty (file : File) : Prop := file.startSector = 0 ∧ file.size = 0

/-- The volume is not one that is searched, or the file has clusters and its chain
comes to an unusable value or ends before the size is reached. -/
def CannotLoad (fs : FATFileSystem D) (file : File) : Prop :=
  ¬ fs.bpb.GeometryFits ∨
  ¬ file.IsEmpty ∧ ∃ n e, ChainReaches fs file n e ∧ (fs.bpb.Unusable e ∨
    e = .endOfFile ∧ n * fs.bpb.sectorsPerCluster.toNat < (file.size + 511) / 512)

/-- The geometry is computed, every step of the iterator returns, with an error at an
unusable value, and the size is computed at the end. A file that cannot be loaded
gives an `Err`, and an empty one `Ok(0)`. -/
structure ArithmeticSafe (fs : FATFileSystem D) (name : List Char) (file : File)
    (dest : BitVec 32) (memory : WrappedMemory 32) : Prop where
  rootDirSize : ∃ size, fs.bpb.rootDirSize = .ok size
  rootDirSectors : ∃ sectors, fs.bpb.rootDirSectors = .ok sectors
  countOfClusters : ∃ count, fs.bpb.countOfClusters = .ok count
  nextCluster : ∀ n iter, LoadStands fs name file dest memory n iter →
    ∃ r iter', iter.nextCluster = .ok (r, iter') ∧
      (¬ file.IsEmpty → fs.bpb.Unusable iter.currentEntry → ∃ e, r = .error e)
  sizeInSectors : ∀ n iter, LoadStands fs name file dest memory n iter →
    iter.currentEntry = .endOfFile → ∃ sectors, file.sizeInSectors = .ok sectors
  unusable : CannotLoad fs file → ∃ e, LoadReturns fs name dest memory (.error e)
  empty : fs.bpb.GeometryFits → file.size = 0 →
    file.startSector = 0 ∨ (∃ n, ChainReaches fs file n .endOfFile) →
    LoadReturns fs name dest memory (.ok 0)

def ChainFits (fs : FATFileSystem D) (file : File) : Prop :=
  ∀ n e, ChainReaches fs file n e → fs.bpb.EntryFits file.size e

end Safe

/-! ## Where the loop stops -/

section Stop

variable {D : Type} [FatDisk D] {dest : BitVec 32} {iter iter' : FileIter D}
  {state state' : LoadState D}

theorem loadLoop_of_stop {n fuel : Nat}
    (hload : loadClusters dest n iter state = .ok (some (iter', state')))
    (hstop : ∀ c, iter'.currentEntry ≠ .cluster c) (hfuel : n < fuel) :
    loadLoop dest fuel iter state = .ok (some
      (if iter'.currentEntry = .endOfFile then .ok () else .error .fileReadError, state')) := by
  obtain ⟨fuel, rfl⟩ : ∃ k, fuel = k + 1 := ⟨fuel - 1, by omega⟩
  induction n generalizing iter state fuel with
  | zero =>
      obtain ⟨rfl, rfl⟩ : iter = iter' ∧ state = state' := by simpa [loadClusters] using hload
      have hnone : loadCluster dest iter state = .ok none := by
        rw [loadCluster, startCluster_of_no_cluster hstop]
        rfl
      rw [loadLoop_succ, hnone, Checked.ok_bind]
      rfl
  | succ n ih =>
      obtain ⟨iter₁, state₁, hfirst, hrest⟩ := loadClusters_succ_eq_some.mp hload
      obtain ⟨fuel, rfl⟩ : ∃ k, fuel = k + 1 := ⟨fuel - 1, by omega⟩
      rw [loadLoop_of_loadCluster hfirst]
      exact ih hrest fuel (by omega)

variable {fs : FATFileSystem D} {file : File} {memory : WrappedMemory 32} {n fuel : Nat}

/-- At an entry that neither leads on nor ends the file the load fails. -/
theorem loadFile_of_bad (hnew : FileIter.new fs.disk file.startSector fs.bpb = .ok iter)
    (hload : loadClusters dest n iter (fs.loadStart memory) = .ok (some (iter', state')))
    (hstop : ∀ c, iter'.currentEntry ≠ .cluster c) (hend : iter'.currentEntry ≠ .endOfFile)
    (hfuel : n < fuel) : fs.loadFile fuel file dest memory =
      .ok (some (.error .fileReadError, state'.memory)) := by
  have hloop := loadLoop_of_stop hload hstop hfuel
  rw [if_neg hend] at hloop
  simp only [FATFileSystem.loadFile, hnew, Checked.ok_bind]
  rw [FATFileSystem.loadStart] at hloop
  simp only [hloop, Checked.ok_bind, Checked.pure_eq_ok]

/-- At the end of the file the sectors are compared with the size. -/
theorem loadFile_of_end (hnew : FileIter.new fs.disk file.startSector fs.bpb = .ok iter)
    (hload : loadClusters dest n iter (fs.loadStart memory) = .ok (some (iter', state')))
    (hend : iter'.currentEntry = .endOfFile) (hsize : file.size + 511 < 2 ^ 32)
    (hfuel : n < fuel) : fs.loadFile fuel file dest memory =
      .ok (some (if state'.totalSectorsRead < (file.size + 511) / 512 then
        .error .fileReadError else .ok file.size, state'.memory)) := by
  have hloop := loadLoop_of_stop hload (by simp [hend]) hfuel
  rw [if_pos hend] at hloop
  simp only [FATFileSystem.loadFile, hnew, Checked.ok_bind]
  rw [FATFileSystem.loadStart] at hloop
  simp only [hloop, Checked.ok_bind, sizeInSectors_of_lt hsize, Checked.pure_eq_ok]
  split <;> rfl

end Stop

theorem sizeInSectors_iff {file : File} :
    (∃ sectors, file.sizeInSectors = .ok sectors) ↔ file.size + 511 < 2 ^ 32 := by
  constructor
  · rintro ⟨sectors, h⟩
    by_contra hover
    rw [sizeInSectors_of_le (Nat.le_of_not_lt hover)] at h
    cases h
  · intro h
    exact ⟨_, sizeInSectors_of_lt h⟩

/-! ## The chain and the loop -/

section Exact

variable {D : Type} [FatDisk D] [LawfulDisk D] {fs : FATFileSystem D} {name : List Char}
  {file : File} {dest : BitVec 32} {memory : WrappedMemory 32}

theorem exists_loadStart (hfs : fs.Mounted) (hfits : fs.bpb.GeometryFits)
    (hholds : fs.Holds name file) (memory : WrappedMemory 32) :
    ∃ fs' iter, fs.findFileInRootDir name = .ok (some (some file), fs') ∧
      FileIter.new fs'.disk file.startSector fs'.bpb = .ok iter ∧
      iter.Ready fs.bpb fs.bpb.volumeType (image fs.disk) ∧
      iter.currentEntry = .cluster file.startSector ∧
      (fs'.loadStart memory).Ready fs.bpb (image fs.disk) ∧
      ∀ fuel dest, fs.tryLoadFile fuel name dest memory = fs'.loadFile fuel file dest memory := by
  obtain ⟨disk, hsame, hfound, htry⟩ := tryLoadFile_of_holds hfs hfits hholds
  have hfs' := hfs.of_sameVolume hsame
  have htyp := (BiosParameterBlock.fatType_eq_ok hfs.bytesPerSector_pos).mpr
    ⟨hfits.areas, hfits.sectorsPerCluster, rfl⟩
  obtain ⟨iter, hnew, hiter, hentry⟩ := fileIter_new hfs' htyp file.startSector
  have hready := loadStart_ready hfs' memory
  simp only [hsame.image] at hiter hready
  exact ⟨_, iter, hfound, hnew, hiter, hentry, hready, fun fuel dest => htry fuel dest memory⟩

theorem exists_of_chainReaches (hfs : fs.Mounted) (hfits : fs.bpb.GeometryFits)
    {iter : FileIter D} (hiter : iter.Ready fs.bpb fs.bpb.volumeType (image fs.disk))
    (hentry : iter.currentEntry = .cluster file.startSector) {state : LoadState D}
    (hready : state.Ready fs.bpb (image fs.disk)) (htotal : state.totalSectorsRead = 0) {n : Nat}
    {e : FatEntry} (h : ChainReaches fs file n e) :
    ∃ iter' state', loadClusters dest n iter state = .ok (some (iter', state')) ∧
      iter'.currentEntry = e ∧ state'.totalSectorsRead = n * fs.bpb.sectorsPerCluster.toNat := by
  obtain ⟨hfollows, hafter, hbelow⟩ := h
  have hbytes := hfs.bytesPerSector
  have hper := hfits.sectorsPerCluster
  obtain ⟨⟨iter', state'⟩, hload⟩ := (@loadClusters_iff D _ _ fs.bpb _ _ dest _ _ hbytes hper n
    hiter hready).mpr ⟨by rw [hentry]; exact hfollows.mono fun _ => hfits.usable,
      by rw [htotal]; exact hbelow⟩
  obtain ⟨_, _, htotal', hentry'⟩ := loadClusters_spec hbytes hper hiter hready hload
  rw [hentry, hafter] at hentry'
  rw [htotal, Nat.zero_add] at htotal'
  exact ⟨iter', state', hload, hentry', htotal'⟩

/-- Where the entries fit, the clusters that the loop can compute are those of the
volume. -/
theorem follows_hasCluster (hchain : ChainFits fs file) {n : Nat} (hbelow : WritesBelow fs.bpb n 0)
    (h : FileFollows fs fs.bpb.volumeType n file) :
    FollowsTable (entryAt (image fs.disk) fs.bpb fs.bpb.volumeType) fs.bpb.HasCluster n
      (.cluster file.startSector) := by
  induction n with
  | zero => trivial
  | succ n ih =>
      have hbelow' := hbelow.of_le (Nat.le_succ n)
      have hfront := ih hbelow' h.of_add
      obtain ⟨c, hc, _⟩ := follows_succ.mp ((follows_add h.of_add).mp h)
      have hcluster := hchain n (.cluster c) ⟨hfront, hc, hbelow'⟩
      exact (follows_add hfront).mpr (follows_succ.mpr ⟨c, hc, hcluster, trivial⟩)

/-- The loop stands only at entries that the chain reaches. -/
theorem LoadStands.chainReaches (hfs : fs.Mounted) (hfits : fs.bpb.GeometryFits)
    (hholds : fs.Holds name file) (hchain : ChainFits fs file) {n : Nat} {iter : FileIter D}
    (h : LoadStands fs name file dest memory n iter) :
    ChainReaches fs file n iter.currentEntry ∧
      iter.Ready fs.bpb fs.bpb.volumeType (image fs.disk) := by
  obtain ⟨fs', first, hfound, hnew, hfirst, hentry, hready, _⟩ :=
    exists_loadStart hfs hfits hholds memory
  obtain ⟨fs₁, iter₁, state, hfound₁, hnew₁, hload⟩ := h
  obtain rfl : fs' = fs₁ := by simpa [hfound] using hfound₁
  obtain rfl := Except.ok.inj (hnew.symm.trans hnew₁)
  have hbytes := hfs.bytesPerSector
  have hper := hfits.sectorsPerCluster
  obtain ⟨hfollows, hbelow⟩ := (loadClusters_iff hbytes hper hfirst hready).mp ⟨_, hload⟩
  obtain ⟨hiter, _, _, hafter⟩ := loadClusters_spec hbytes hper hfirst hready hload
  rw [hentry] at hfollows hafter
  exact ⟨⟨follows_hasCluster hchain hbelow hfollows, hafter.symm, hbelow⟩, hiter⟩

omit [LawfulDisk D] in
/-- At a cluster number the iterator computes its sector and returns it. -/
theorem nextCluster_of_cluster (hfs : fs.Mounted) {typ : FatType} {start c : Nat}
    {iter iter' : FileIter D} (hblock : iter.bpb = fs.bpb) (htable : iter.fatTable = ⟨typ, start⟩)
    (hentry : iter.currentEntry = .cluster c) {r : Except FatError (Option Cluster)}
    (h : iter.nextCluster = .ok (r, iter')) :
    fs.bpb.Usable typ c ∧ ∃ cluster, r = .ok (some cluster) := by
  refine ⟨usable_of_nextCluster hfs.bytesPerSector hblock htable hentry h, ?_⟩
  simp only [FileIter.nextCluster, hentry] at h
  obtain ⟨sector, _, h⟩ := Checked.bind_eq_ok.mp h
  obtain ⟨_, _, h⟩ := Checked.bind_eq_ok.mp h
  exact ⟨_, (Prod.mk.inj (Except.ok.inj h)).1.symm⟩

theorem nextCluster_of_usable (hfs : fs.Mounted) {typ : FatType} {contents : ByteMemory} {c : Nat}
    {iter : FileIter D} (hiter : iter.Ready fs.bpb typ contents)
    (hentry : iter.currentEntry = .cluster c) (husable : fs.bpb.Usable typ c) :
    ∃ r iter', iter.nextCluster = .ok (r, iter') := by
  obtain ⟨htwo, hsector, hoffset⟩ := husable
  have hfirst := (BiosParameterBlock.firstClusterSector_eq_ok hfs.bytesPerSector_pos).mpr
    ⟨htwo, hsector, rfl⟩
  obtain ⟨disk, hget, _⟩ := @getEntry_spec D _ _ fs.bpb typ iter.disk c hoffset
  simp only [FileIter.nextCluster, hentry, hiter.block, hfirst, hiter.fatTable, hget,
    Checked.ok_bind, Checked.pure_eq_ok]
  exact ⟨_, _, rfl⟩

/-! ## Exactly the safe loads -/

/-- A safe load says that the volume is searched: nothing else gives an `Err`. -/
theorem ArithmeticSafe.geometryFits (hfs : fs.Mounted)
    (h : ArithmeticSafe fs name file dest memory) : fs.bpb.GeometryFits := by
  by_contra hno
  obtain ⟨e, memory', n, hrun⟩ := h.unusable (.inl hno)
  exact hno (geometryFits_of_tryLoadFile hfs (hrun n (Nat.le_refl n)))

theorem ArithmeticSafe.chainFits (hfs : fs.Mounted) (hholds : fs.Holds name file)
    (h : ArithmeticSafe fs name file dest memory) : ChainFits fs file := by
  have hfits := h.geometryFits hfs
  obtain ⟨fs', first, hfound, hnew, hfirst, hentry, hready, _⟩ :=
    exists_loadStart hfs hfits hholds memory
  have hnonempty : ¬ file.IsEmpty := by
    intro hempty
    obtain ⟨r, iter', hnext, _⟩ := h.nextCluster 0 first ⟨fs', first, _, hfound, hnew, rfl⟩
    have hzero := (nextCluster_of_cluster hfs hfirst.block hfirst.fatTable hentry hnext).1.1
    rw [hempty.1] at hzero
    omega
  intro n e hreaches
  obtain ⟨iter, state, hload, hcurrent, _⟩ :=
    @exists_of_chainReaches D _ _ fs file dest hfs hfits first hfirst hentry _ hready rfl n e
      hreaches
  have hstands : LoadStands fs name file dest memory n iter :=
    ⟨fs', first, state, hfound, hnew, hload⟩
  obtain ⟨hiter, _⟩ :=
    loadClusters_spec hfs.bytesPerSector hfits.sectorsPerCluster hfirst hready hload
  cases e with
  | cluster c =>
      obtain ⟨r, iter', hnext, herror⟩ := h.nextCluster n iter hstands
      obtain ⟨_, cluster, rfl⟩ :=
        nextCluster_of_cluster hfs hiter.block hiter.fatTable hcurrent hnext
      by_contra hno
      obtain ⟨e, he⟩ := herror hnonempty (by rw [hcurrent]; exact hno)
      cases he
  | endOfFile => exact sizeInSectors_iff.mp (h.sizeInSectors n iter hstands hcurrent)
  | badCluster => trivial
  | reservedCluster => trivial

theorem loadReturns_of_chainFits (hfs : fs.Mounted) (hfits : fs.bpb.GeometryFits)
    (hholds : fs.Holds name file) (hchain : ChainFits fs file) {n : Nat} {e : FatEntry}
    (hreaches : ChainReaches fs file n e) (hstop : ∀ c, e ≠ .cluster c) :
    LoadReturns fs name dest memory (if e = .endOfFile ∧
      (file.size + 511) / 512 ≤ n * fs.bpb.sectorsPerCluster.toNat then .ok file.size
      else .error .fileReadError) := by
  obtain ⟨fs', first, _, hnew, hfirst, hentry, hready, htry⟩ :=
    exists_loadStart hfs hfits hholds memory
  obtain ⟨iter, state, hload, hcurrent, htotal⟩ :=
    @exists_of_chainReaches D _ _ fs file dest hfs hfits first hfirst hentry _ hready rfl n e
      hreaches
  refine ⟨state.memory, n + 1, fun fuel hfuel => ?_⟩
  rw [htry]
  by_cases hend : e = .endOfFile
  · have hsize : file.size + 511 < 2 ^ 32 := by
      have hfit := hchain n e hreaches
      rwa [hend] at hfit
    rw [loadFile_of_end hnew hload (hcurrent.trans hend) hsize (by omega), htotal]
    by_cases hshort : n * fs.bpb.sectorsPerCluster.toNat < (file.size + 511) / 512
    · rw [if_pos hshort, if_neg fun h => by omega]
    · rw [if_neg hshort, if_pos ⟨hend, by omega⟩]
  · rw [loadFile_of_bad hnew hload (by rw [hcurrent]; exact hstop) (by rw [hcurrent]; exact hend)
      (by omega), if_neg fun h => hend h.1]

/-- In a chain that fits, the only unusable entries are bad and reserved ones. -/
theorem LoadStands.exists_nextCluster (hfs : fs.Mounted) (hfits : fs.bpb.GeometryFits)
    (hholds : fs.Holds name file) (hchain : ChainFits fs file) {n : Nat} {iter : FileIter D}
    (h : LoadStands fs name file dest memory n iter) :
    ∃ r iter', iter.nextCluster = .ok (r, iter') ∧
      (fs.bpb.Unusable iter.currentEntry → ∃ e, r = .error e) := by
  obtain ⟨hreaches, hiter⟩ := h.chainReaches hfs hfits hholds hchain
  have hentryFits := hchain n _ hreaches
  cases hentry : iter.currentEntry with
  | cluster c =>
      rw [hentry] at hentryFits
      obtain ⟨r, iter', hnext⟩ := nextCluster_of_usable hfs hiter hentry (hfits.usable hentryFits)
      exact ⟨r, iter', hnext, fun hunusable => absurd hentryFits hunusable⟩
  | endOfFile => exact ⟨_, _, by rw [FileIter.nextCluster, hentry], fun hunusable => hunusable.elim⟩
  | badCluster => exact ⟨_, _, by rw [FileIter.nextCluster, hentry], fun _ => ⟨_, rfl⟩⟩
  | reservedCluster => exact ⟨_, _, by rw [FileIter.nextCluster, hentry], fun _ => ⟨_, rfl⟩⟩

theorem CannotLoad.loadReturns (hfs : fs.Mounted) (hfits : fs.bpb.GeometryFits)
    (hholds : fs.Holds name file) (hchain : ChainFits fs file) (h : CannotLoad fs file) :
    LoadReturns fs name dest memory (.error .fileReadError) := by
  obtain ⟨_, n, e, hreaches, hvalue⟩ := h.resolve_left (not_not_intro hfits)
  have hentryFits := hchain n e hreaches
  have hstop : ∀ c, e ≠ .cluster c := by
    rintro c rfl
    cases hvalue with
    | inl hunusable => exact hunusable hentryFits
    | inr hshort => cases hshort.1
  have hreturns : LoadReturns fs name dest memory _ :=
    loadReturns_of_chainFits hfs hfits hholds hchain hreaches hstop
  rw [if_neg] at hreturns
  · exact hreturns
  · rintro ⟨rfl, hlong⟩
    cases hvalue with
    | inl hunusable => exact hunusable
    | inr hshort => omega

theorem loadReturns_of_empty (hfs : fs.Mounted) (hfits : fs.bpb.GeometryFits)
    (hholds : fs.Holds name file) (hchain : ChainFits fs file) (hsize : file.size = 0)
    (hends : file.startSector = 0 ∨ ∃ n, ChainReaches fs file n .endOfFile) :
    LoadReturns fs name dest memory (.ok 0) := by
  cases hends with
  | inl hzero =>
      -- cluster 0 is not one of the volume
      have hfirst : fs.bpb.HasCluster file.startSector := hchain 0 _ ⟨trivial, rfl, .inl rfl⟩
      have htwo := hfirst.1
      omega
  | inr hends =>
      obtain ⟨n, hreaches⟩ := hends
      have hreturns : LoadReturns fs name dest memory _ :=
        loadReturns_of_chainFits hfs hfits hholds hchain hreaches (by simp)
      rwa [if_pos ⟨rfl, by rw [hsize]; exact Nat.zero_le _⟩, hsize] at hreturns

theorem ArithmeticSafe.of_fits (hfs : fs.Mounted) (hfits : fs.bpb.GeometryFits)
    (hholds : fs.Holds name file) (hchain : ChainFits fs file) :
    ArithmeticSafe fs name file dest memory where
  rootDirSize := ⟨_, BiosParameterBlock.rootDirSize_eq_ok.mpr
    ⟨by rw [hfits.rootEntries]; decide, rfl⟩⟩
  rootDirSectors := ⟨_, BiosParameterBlock.rootDirSectors_eq hfs.bytesPerSector_pos⟩
  countOfClusters := ⟨_, (BiosParameterBlock.countOfClusters_eq_ok hfs.bytesPerSector_pos).mpr
    ⟨hfits.areas, hfits.sectorsPerCluster, rfl⟩⟩
  nextCluster := by
    intro n iter hstands
    obtain ⟨r, iter', hnext, herror⟩ := hstands.exists_nextCluster hfs hfits hholds hchain
    exact ⟨r, iter', hnext, fun _ => herror⟩
  sizeInSectors := by
    intro n iter hstands hend
    have hentryFits := hchain n _ (hstands.chainReaches hfs hfits hholds hchain).1
    rw [hend] at hentryFits
    exact sizeInSectors_iff.mpr hentryFits
  unusable := fun h => ⟨_, h.loadReturns hfs hfits hholds hchain⟩
  empty := fun _ => loadReturns_of_empty hfs hfits hholds hchain

/-- The load of a file in the root directory is safe exactly when the volume is one
that is searched and the chain of the file fits. -/
theorem arithmeticSafe_iff (d : D) (fs : FATFileSystem D) (hparse : FATFileSystem.parse d = .ok fs)
    (name : List Char) (file : File) (hholds : fs.Holds name file) (dest : BitVec 32)
    (memory : WrappedMemory 32) :
    ArithmeticSafe fs name file dest memory ↔ fs.bpb.GeometryFits ∧ ChainFits fs file := by
  have hfs := mounted_of_parse hparse
  constructor
  · intro h
    exact ⟨h.geometryFits hfs, h.chainFits hfs hholds⟩
  · rintro ⟨hfits, hchain⟩
    exact .of_fits hfs hfits hholds hchain

end Exact

/-! ## A volume with files -/

def emptySlot : List UInt8 :=
  [0x45, 0x4D, 0x50, 0x54, 0x59, 0x20, 0x20, 0x20, 0x20, 0x20, 0x20, 0x20] ++ List.replicate 20 0

def emptyName : List Char := ['E', 'M', 'P', 'T', 'Y', ' ', ' ', ' ', ' ', ' ', ' ']

/-- An empty file and the file `stage3` with its long name. -/
def stageDirectory : List (List UInt8) :=
  [emptySlot] ++ (longNameSlots 0x5A stageName ++ [stageSlot])

def stageVolume : ByteMemory := fun x =>
  if 1024 ≤ x ∧ x < 1120 then stageDirectory.flatten.getD (x - 1024) 0 else smallVolume x

def stageFileSystem : FATFileSystem RamDisk := ⟨⟨stageVolume, 512, 512, 8192⟩, smallBpb⟩

theorem parse_stageVolume :
    FATFileSystem.parse (RamDisk.mk stageVolume 0 512 0) = .ok stageFileSystem := by
  apply parse_of_boot_sector
  refine ByteMemory.bytes_eq_iff.mpr fun i hi => ?_
  have hlow : ¬ (1024 ≤ 0 + i ∧ 0 + i < 1120) := by
    unfold defaultSectorSize at hi
    omega
  simp only [stageVolume, hlow, if_false]

theorem geometryFits_smallBpb : smallBpb.GeometryFits :=
  ⟨by decide, by decide, by decide, by decide⟩

def freeSlots : List (List UInt8) := chunks 32 (stageVolume.bytes 1120 16288)

theorem freeSlots_length : ∀ s ∈ freeSlots, s.length = 32 :=
  chunks_slots (by rw [ByteMemory.bytes_length])

theorem rootDir_stage : stageFileSystem.rootDir = (stageDirectory ++ freeSlots).flatten := by
  have hfront : stageVolume.bytes 1024 96 = stageDirectory.flatten := by decide +kernel
  have hrest : freeSlots.flatten = stageVolume.bytes 1120 16288 := flatten_chunks (by decide) _
  have hsplit : stageVolume.bytes 1024 (96 + 16288) =
      stageVolume.bytes 1024 96 ++ stageVolume.bytes (1024 + 96) 16288 :=
    ByteMemory.bytes_add _ _ _ _
  rw [List.flatten_append, hrest, ← hfront]
  exact hsplit

def emptyEntry : DirectoryEntry := .normalDirEntry (DirectoryEntry.ofSlot emptySlot)

def stageEntry : DirectoryEntry := .longNameDirEntry ⟨nameArray stageName, 2, 0x20, 12000⟩

theorem parse_stageEntry : DirectoryEntry.parse
      (longNameSlots 0x5A stageName ++ [stageSlot] ++ freeSlots).flatten =
    .ok (.ok ((longNameSlots 0x5A stageName ++ [stageSlot]).length * 32, stageEntry)) := by
  have hparse := @parse_longNameSlots stageName stageSlot freeSlots (by decide) (by decide)
    (by decide) 0x5A (by decide) (by decide) freeSlots_length
  have hname : (chunks 13 (Utf16.encode stageName)).reverse.flatMap Utf16.decodeLossy =
      stageName := by decide
  have hfile : slotFile stageSlot = (2, 12000) := by decide
  have hattr : slotByte stageSlot 11 = 0x20 := by decide
  rw [hname, hfile, hattr] at hparse
  rw [List.append_assoc, List.singleton_append, List.length_append, List.length_singleton, hparse,
    stageEntry]

theorem find_stageDirectory {p : DirectoryEntry → Bool} {found : DirectoryEntry}
    (h : [emptyEntry, stageEntry].find? p = some found) :
    RootDirIter.find p (stageFileSystem.rootDir.length + 1)
      (RootDirIter.new stageFileSystem.rootDir) = .ok (some (some found)) := by
  have hlength : stageFileSystem.rootDir.length + 1 = 16383 + 1 + 1 :=
    congrArg (· + 1) (ByteMemory.bytes_length _ _ _)
  have hstart : RootDirIter.new stageFileSystem.rootDir = RootDirIter.between []
      ([emptySlot] ++ (longNameSlots 0x5A stageName ++ [stageSlot] ++ freeSlots)) := by
    rw [rootDir_stage, stageDirectory, List.append_assoc]
    rfl
  have hslots : ∀ s ∈ longNameSlots 0x5A stageName ++ [stageSlot], s.length = 32 := by decide
  have hempty : DirectoryEntry.parse ([emptySlot] ++
      (longNameSlots 0x5A stageName ++ [stageSlot] ++ freeSlots)).flatten =
      .ok (.ok ([emptySlot].length * 32, emptyEntry)) :=
    DirectoryEntry.parse_file (by decide) (by decide)
  rw [hlength, hstart, RootDirIter.find_of_parse (by decide) hempty rfl,
    RootDirIter.find_of_parse hslots parse_stageEntry rfl]
  cases hfirst : p emptyEntry with
  | true =>
      rw [List.find?_cons_of_pos hfirst] at h
      rw [if_pos rfl, Option.some.inj h]
  | false =>
      rw [List.find?_cons_of_neg (by rw [hfirst]; decide)] at h
      cases hsecond : p stageEntry with
      | true =>
          rw [List.find?_cons_of_pos hsecond] at h
          rw [if_neg (by decide), if_pos rfl, Option.some.inj h]
      | false =>
          rw [List.find?_cons_of_neg (by rw [hsecond]; decide)] at h
          cases h

theorem holds_stage : stageFileSystem.Holds stageName ⟨2, 12000⟩ := by
  have hfirst : [emptyEntry, stageEntry].find? (fun e => e.eqName stageName) = some stageEntry := by
    decide +kernel
  exact ⟨stageEntry, find_stageDirectory hfirst, rfl⟩

theorem holds_empty : stageFileSystem.Holds emptyName ⟨0, 0⟩ := by
  have hfirst : [emptyEntry, stageEntry].find? (fun e => e.eqName emptyName) = some emptyEntry := by
    decide
  exact ⟨emptyEntry, find_stageDirectory hfirst, rfl⟩

theorem chainFits_stage : ChainFits stageFileSystem ⟨2, 12000⟩ := by
  have hlink : entryAt stageVolume smallBpb smallBpb.volumeType 2 = .cluster 3 := by decide
  have hend : entryAt stageVolume smallBpb smallBpb.volumeType 3 = .endOfFile := by decide
  rintro n e ⟨_, rfl, _⟩
  change smallBpb.EntryFits 12000
    (entryAfter (entryAt stageVolume smallBpb smallBpb.volumeType) n (.cluster 2))
  match n with
  | 0 => exact show smallBpb.HasCluster 2 by decide
  | 1 =>
      rw [entryAfter, hlink]
      exact show smallBpb.HasCluster 3 by decide
  | n + 2 =>
      rw [entryAfter, hlink, entryAfter, hend, entryAfter_of_no_cluster (by simp)]
      exact show 12000 + 511 < 2 ^ 32 by decide

theorem arithmeticSafe_stage :
    ArithmeticSafe stageFileSystem stageName ⟨2, 12000⟩ 0x10000#32 (fun _ => 0) :=
  (arithmeticSafe_iff (RamDisk.mk stageVolume 0 512 0) stageFileSystem parse_stageVolume stageName
    ⟨2, 12000⟩ holds_stage 0x10000#32 (fun _ => 0)).mpr ⟨geometryFits_smallBpb, chainFits_stage⟩

/-- An empty file has no cluster; its number 0 underflows in `first_cluster_sector`. -/
theorem not_arithmeticSafe_empty_file :
    stageFileSystem.tryLoadFile 1 emptyName 0x10000#32 (fun _ => 0) = .error .overflow ∧
      ¬ ArithmeticSafe stageFileSystem emptyName ⟨0, 0⟩ 0x10000#32 (fun _ => 0) := by
  have hfs := mounted_of_parse parse_stageVolume
  constructor
  · obtain ⟨fs', iter, _, hnew, hiter, hentry, _, htry⟩ :=
      exists_loadStart hfs geometryFits_smallBpb holds_empty (fun _ => 0)
    have hsector : stageFileSystem.bpb.firstClusterSector 0 = .error .overflow := rfl
    simp only [htry, FATFileSystem.loadFile, hnew, loadLoop, FileIter.nextCluster, hentry,
      hiter.block, hsector, Checked.ok_bind, Checked.error_bind]
  · intro h
    have hzero : smallBpb.HasCluster 0 :=
      h.chainFits hfs holds_empty 0 _ ⟨trivial, rfl, .inl rfl⟩
    exact absurd hzero (by decide)

end MiniatureOs
