import MiniatureOs.Fat.LoadCorrect

/-! # How far the loader follows a chain

The cluster iterator follows the links of the allocation table without counting
them, and the loop around it does not look at the size of the file before the
chain has ended. How many clusters a load reads and writes is therefore the number
of usable clusters on the chain, up to the 4 GiB at which the 32-bit byte offset
of the next write overflows.
-/

namespace MiniatureOs

open FatDisk LawfulDisk

/-- The chain from an entry on has at least `n` usable clusters. -/
def FollowsTable (entry : Nat → FatEntry) (usable : Nat → Prop) : Nat → FatEntry → Prop
  | 0, _ => True
  | n + 1, .cluster c => usable c ∧ FollowsTable entry usable n (entry c)
  | _ + 1, _ => False

instance decidableFollows (entry : Nat → FatEntry) (usable : Nat → Prop)
    [DecidablePred usable] : (n : Nat) → (e : FatEntry) → Decidable (FollowsTable entry usable n e)
  | 0, _ => .isTrue trivial
  | n + 1, .cluster c =>
      have := decidableFollows entry usable n (entry c)
      inferInstanceAs (Decidable (usable c ∧ FollowsTable entry usable n (entry c)))
  | _ + 1, .endOfFile => .isFalse id
  | _ + 1, .badCluster => .isFalse id
  | _ + 1, .reservedCluster => .isFalse id

theorem follows_succ {entry : Nat → FatEntry} {usable : Nat → Prop} {n : Nat} {e : FatEntry} :
    FollowsTable entry usable (n + 1) e ↔
      ∃ c, e = .cluster c ∧ usable c ∧ FollowsTable entry usable n (entry c) := by
  cases e <;> simp [FollowsTable]

theorem FollowsTable.of_add {entry : Nat → FatEntry} {usable : Nat → Prop} {n m : Nat}
    {e : FatEntry} (h : FollowsTable entry usable (n + m) e) : FollowsTable entry usable n e := by
  induction n generalizing e with
  | zero => trivial
  | succ n ih =>
      rw [Nat.add_right_comm] at h
      obtain ⟨c, he, husable, hrest⟩ := follows_succ.mp h
      exact follows_succ.mpr ⟨c, he, husable, ih hrest⟩

theorem FollowsTable.mono {entry : Nat → FatEntry} {usable usable' : Nat → Prop}
    (himp : ∀ c, usable c → usable' c) {n : Nat} {e : FatEntry}
    (h : FollowsTable entry usable n e) : FollowsTable entry usable' n e := by
  induction n generalizing e with
  | zero => trivial
  | succ n ih =>
      obtain ⟨c, he, husable, hrest⟩ := follows_succ.mp h
      exact follows_succ.mpr ⟨c, he, himp c husable, ih hrest⟩

/-- The entry behind `n` clusters of a chain, or the one that ends it before. -/
def entryAfter (entry : Nat → FatEntry) : Nat → FatEntry → FatEntry
  | 0, e => e
  | n + 1, .cluster c => entryAfter entry n (entry c)
  | _ + 1, .endOfFile => .endOfFile
  | _ + 1, .badCluster => .badCluster
  | _ + 1, .reservedCluster => .reservedCluster

theorem entryAfter_of_no_cluster {entry : Nat → FatEntry} {e : FatEntry}
    (h : ∀ c, e ≠ .cluster c) (n : Nat) : entryAfter entry n e = e := by
  cases n with
  | zero => rfl
  | succ n =>
      cases e with
      | cluster c => exact absurd rfl (h c)
      | endOfFile => rfl
      | badCluster => rfl
      | reservedCluster => rfl

theorem follows_add {entry : Nat → FatEntry} {usable : Nat → Prop} {n m : Nat} {e : FatEntry}
    (h : FollowsTable entry usable n e) :
    FollowsTable entry usable (n + m) e ↔ FollowsTable entry usable m (entryAfter entry n e) := by
  induction n generalizing e with
  | zero => rw [Nat.zero_add, entryAfter]
  | succ n ih =>
      obtain ⟨c, rfl, husable, hrest⟩ := follows_succ.mp h
      rw [Nat.add_right_comm, FollowsTable, entryAfter, ← ih hrest]
      exact and_iff_right husable

abbrev FileFollows {D : Type} [FatDisk D] [LawfulDisk D] (fs : FATFileSystem D) (typ : FatType)
    (n : Nat) (file : File) : Prop :=
  FollowsTable (entryAt (image fs.disk) fs.bpb typ) (fs.bpb.Usable typ) n
    (.cluster file.startSector)

/-! ## Iterations that stop -/

section Iterations

variable {D : Type} [FatDisk D] [LawfulDisk D] {bpb : BiosParameterBlock} {typ : FatType}
  {contents : ByteMemory} {dest : BitVec 32} {iter iter' : FileIter D}
  {state state' : LoadState D}

omit [LawfulDisk D] in
theorem startCluster_of_no_cluster (h : ∀ c, iter.currentEntry ≠ .cluster c) :
    startCluster iter state = .ok none := by
  cases hentry : iter.currentEntry with
  | cluster c => exact absurd hentry (h c)
  | endOfFile => simp [startCluster, FileIter.nextCluster, hentry]
  | badCluster => simp [startCluster, FileIter.nextCluster, hentry]
  | reservedCluster => simp [startCluster, FileIter.nextCluster, hentry]

omit [LawfulDisk D] in
theorem usable_of_nextCluster (hbytes : bpb.bytesPerSector.toNat = defaultSectorSize)
    {start c : Nat} (hblock : iter.bpb = bpb) (htable : iter.fatTable = ⟨typ, start⟩)
    (hentry : iter.currentEntry = .cluster c) {r : Except FatError (Option Cluster) × FileIter D}
    (h : iter.nextCluster = .ok r) : bpb.Usable typ c := by
  simp only [FileIter.nextCluster, hentry, hblock, htable] at h
  obtain ⟨sector, hsector, h⟩ := Checked.bind_eq_ok.mp h
  obtain ⟨⟨entry, disk⟩, hget, _⟩ := Checked.bind_eq_ok.mp h
  have hpos : 0 < bpb.bytesPerSector.toNat := by rw [hbytes]; decide
  obtain ⟨htwo, hlt, _⟩ := (BiosParameterBlock.firstClusterSector_eq_ok hpos).mp hsector
  refine ⟨htwo, hlt, ?_⟩
  by_contra hover
  rw [FileAllocationTable.getEntry_of_overflow (Nat.le_of_not_lt hover)] at hget
  cases hget

theorem usable_of_startCluster (hbytes : bpb.bytesPerSector.toNat = defaultSectorSize)
    (hiter : iter.Ready bpb typ contents) {r : FileIter D × LoadState D × Nat}
    (h : startCluster iter state = .ok (some r)) :
    ∃ c, iter.currentEntry = .cluster c ∧ bpb.Usable typ c := by
  cases hentry : iter.currentEntry with
  | cluster c =>
      obtain ⟨next, hnext, _⟩ := Checked.bind_eq_ok.mp h
      exact ⟨c, rfl, usable_of_nextCluster hbytes hiter.block hiter.fatTable hentry hnext⟩
  | endOfFile => rw [startCluster_of_no_cluster (by simp [hentry])] at h; cases h
  | badCluster => rw [startCluster_of_no_cluster (by simp [hentry])] at h; cases h
  | reservedCluster => rw [startCluster_of_no_cluster (by simp [hentry])] at h; cases h

/-- The byte offset of a write behind 4 GiB overflows. -/
theorem readClusterLoop_of_full {fuel left : Nat} (hready : state.Ready bpb contents)
    (hleft : 0 < left) (haligned : position state.disk % defaultSectorSize = 0)
    (hend : position state.disk + left * defaultSectorSize < 2 ^ 63)
    (hfull : 2 ^ 23 ≤ state.totalSectorsRead) :
    readClusterLoop dest (fuel + 1) state left = .error .overflow := by
  have hpos : 0 < defaultSectorSize := by decide
  have hcapacity : defaultSectorSize * 0x8 / defaultSectorSize = 8 := by decide
  have hsize := hready.sectorSize
  obtain ⟨d', hread, _, _, hsector, _⟩ :=
    @readSectors_eq D _ _ state.disk (min left 8) (defaultSectorSize * 0x8)
      (by rw [hsize]; exact hpos) (by rw [hsize]; exact haligned) (by rw [hsize]; decide)
      (by rw [hsize, hcapacity]; omega) (by unfold defaultSectorSize at hend ⊢; omega)
  rw [hsize] at hsector
  have hmul : Checked.mul 32 state.totalSectorsRead defaultSectorSize = .error .overflow :=
    if_neg (by unfold defaultSectorSize; omega)
  simp only [readClusterLoop, hleft, if_true, hready.buffer, hsize, Checked.div_of_pos hpos,
    hcapacity, hread, hsector, hmul, Checked.ok_bind, Checked.error_bind]

/-- A cluster whose last read starts behind 4 GiB is not loaded. -/
theorem readClusterLoop_of_overflow {fuel left : Nat} (hready : state.Ready bpb contents)
    (hleft : 0 < left) (hfuel : left ≤ fuel)
    (haligned : position state.disk % defaultSectorSize = 0)
    (hend : position state.disk + left * defaultSectorSize < 2 ^ 63)
    (hover : 2 ^ 23 ≤ state.totalSectorsRead + (left - 1) / 8 * 8) :
    readClusterLoop dest fuel state left = .error .overflow := by
  induction fuel generalizing left state with
  | zero => omega
  | succ fuel ih =>
      by_cases hfull : 2 ^ 23 ≤ state.totalSectorsRead
      · exact readClusterLoop_of_full hready hleft haligned hend hfull
      · obtain ⟨n, hn⟩ : ∃ n, n = min left 8 := ⟨_, rfl⟩
        obtain ⟨next, hstep, hnext, hcount, hposition, _⟩ :=
          @readClusterLoop_step D _ _ dest bpb contents fuel left n state hready hleft hn haligned
            hend (by omega)
        -- the rest of the cluster is not empty, or its first read would be the last
        have hsplit : left * defaultSectorSize =
            n * defaultSectorSize + (left - n) * defaultSectorSize := by
          rw [← Nat.add_mul]
          congr 1
          omega
        rw [hstep]
        apply ih hnext
        · omega
        · omega
        · rw [hposition, Nat.add_mul_mod_self_right]
          exact haligned
        · rw [hposition, Nat.add_assoc, ← hsplit]
          exact hend
        · omega

/-- A whole cluster is loaded only below 4 GiB. -/
theorem total_lt_of_loadCluster (hbytes : bpb.bytesPerSector.toNat = defaultSectorSize)
    (hper : 0 < bpb.sectorsPerCluster.toNat) (hiter : iter.Ready bpb typ contents)
    (hready : state.Ready bpb contents) {c : Nat} (hentry : iter.currentEntry = .cluster c)
    (husable : bpb.Usable typ c) {r : FileIter D × LoadState D}
    (h : loadCluster dest iter state = .ok (some r)) :
    state.totalSectorsRead + (bpb.sectorsPerCluster.toNat - 1) / 8 * 8 < 2 ^ 23 := by
  obtain ⟨iter₁, disk, hstart, _, _, hready', hposition⟩ :=
    startCluster_spec hbytes husable hiter hentry hready
  have hsector := husable.2.1
  have hlt := bpb.sectorsPerCluster.toNat_lt
  rw [BiosParameterBlock.areasEnd_eq hbytes] at hsector
  by_contra hover
  have hfail : readClusterLoop dest bpb.sectorsPerCluster.toNat { state with disk }
      bpb.sectorsPerCluster.toNat = .error .overflow :=
    readClusterLoop_of_overflow hready' hper (Nat.le_refl _)
      (by simp only [hposition, Nat.mul_mod_left])
      (by simp only [hposition]; unfold defaultSectorSize; omega) (Nat.le_of_not_lt hover)
  simp only [loadCluster, hstart, hfail, Checked.ok_bind, Checked.error_bind] at h
  cases h

/-! ## Many iterations -/

/-- The first `n` iterations of the outer loop; `none` when there are fewer. -/
def loadClusters (dest : BitVec 32) :
    Nat → FileIter D → LoadState D → Checked (Option (FileIter D × LoadState D))
  | 0, iter, state => .ok (some (iter, state))
  | n + 1, iter, state => do
      match ← loadCluster dest iter state with
      | none => return none
      | some (iter, state) => loadClusters dest n iter state

omit [LawfulDisk D] in
/-- The loop runs out of fuel when there are as many iterations. -/
theorem loadLoop_eq_none {fuel : Nat} : loadLoop dest fuel iter state = .ok none ↔
    ∃ r, loadClusters dest fuel iter state = .ok (some r) := by
  induction fuel generalizing iter state with
  | zero => simp [loadLoop, loadClusters]
  | succ fuel ih =>
      rw [loadLoop_succ, loadClusters]
      cases hload : loadCluster dest iter state with
      | error panic => simp
      | ok next =>
          cases next with
          | none => simp
          | some next => exact ih

omit [LawfulDisk D] in
theorem loadClusters_succ_eq_some {n : Nat} {r : FileIter D × LoadState D} :
    loadClusters dest (n + 1) iter state = .ok (some r) ↔ ∃ iter' state',
      loadCluster dest iter state = .ok (some (iter', state')) ∧
      loadClusters dest n iter' state' = .ok (some r) := by
  rw [loadClusters]
  cases hload : loadCluster dest iter state with
  | error panic => simp
  | ok next =>
      cases next with
      | none => simp
      | some next =>
          obtain ⟨iter₁, state₁⟩ := next
          simp

/-- Every read of `n` clusters, behind `total` sectors, starts below 4 GiB. -/
def WritesBelow (bpb : BiosParameterBlock) (n total : Nat) : Prop :=
  n = 0 ∨ total + (n - 1) * bpb.sectorsPerCluster.toNat +
    (bpb.sectorsPerCluster.toNat - 1) / 8 * 8 < 2 ^ 23

theorem writesBelow_succ {n total : Nat} : WritesBelow bpb (n + 1) total ↔
    total + (bpb.sectorsPerCluster.toNat - 1) / 8 * 8 < 2 ^ 23 ∧
      WritesBelow bpb n (total + bpb.sectorsPerCluster.toNat) := by
  cases n with
  | zero => simp [WritesBelow]
  | succ n =>
      simp only [WritesBelow, Nat.add_sub_cancel, Nat.add_mul, Nat.one_mul]
      omega

theorem WritesBelow.of_le {n m total : Nat} (h : WritesBelow bpb m total) (hle : n ≤ m) :
    WritesBelow bpb n total := by
  cases h with
  | inl hzero => exact .inl (by omega)
  | inr hlt =>
      have hmul : (n - 1) * bpb.sectorsPerCluster.toNat ≤ (m - 1) * bpb.sectorsPerCluster.toNat :=
        Nat.mul_le_mul_right _ (by omega)
      exact .inr (by omega)

/-- The loop gets through `n` clusters exactly when the chain has as many and
their sectors stay below 4 GiB. -/
theorem loadClusters_iff (hbytes : bpb.bytesPerSector.toNat = defaultSectorSize)
    (hper : 0 < bpb.sectorsPerCluster.toNat) {n : Nat} (hiter : iter.Ready bpb typ contents)
    (hready : state.Ready bpb contents) :
    (∃ r, loadClusters dest n iter state = .ok (some r)) ↔
      FollowsTable (entryAt contents bpb typ) (bpb.Usable typ) n iter.currentEntry ∧
        WritesBelow bpb n state.totalSectorsRead := by
  induction n generalizing iter state with
  | zero => simp [loadClusters, FollowsTable, WritesBelow]
  | succ n ih =>
      rw [follows_succ, writesBelow_succ]
      constructor
      · intro h
        obtain ⟨r, h⟩ := h
        obtain ⟨iter', state', hload, hrest⟩ := loadClusters_succ_eq_some.mp h
        obtain ⟨started, hstart, _⟩ := Checked.bind_eq_ok.mp hload
        cases started with
        | none => simp [loadCluster, hstart] at hload
        | some started =>
            obtain ⟨c, hentry, husable⟩ := usable_of_startCluster hbytes hiter hstart
            have htotal := total_lt_of_loadCluster hbytes hper hiter hready hentry husable hload
            obtain ⟨iter₁, state₁, hload₁, hiter₁, hentry₁, hready₁, htotal₁, _⟩ :=
              loadCluster_spec dest hbytes husable hiter hentry hready htotal
            obtain ⟨rfl, rfl⟩ : iter₁ = iter' ∧ state₁ = state' := by simpa [hload₁] using hload
            have hih := (ih hiter₁ hready₁).mp ⟨r, hrest⟩
            rw [hentry₁, htotal₁] at hih
            exact ⟨⟨c, hentry, husable, hih.1⟩, htotal, hih.2⟩
      · intro h
        obtain ⟨⟨c, hentry, husable, hfollows⟩, htotal, hbelow⟩ := h
        obtain ⟨iter', state', hload, hiter', hentry', hready', htotal', _⟩ :=
          loadCluster_spec dest hbytes husable hiter hentry hready htotal
        obtain ⟨r, hrest⟩ := (ih hiter' hready').mpr (by
          rw [hentry', htotal']
          exact ⟨hfollows, hbelow⟩)
        exact ⟨r, loadClusters_succ_eq_some.mpr ⟨iter', state', hload, hrest⟩⟩

theorem loadClusters_spec (hbytes : bpb.bytesPerSector.toNat = defaultSectorSize)
    (hper : 0 < bpb.sectorsPerCluster.toNat) {n : Nat} (hiter : iter.Ready bpb typ contents)
    (hready : state.Ready bpb contents)
    (h : loadClusters dest n iter state = .ok (some (iter', state'))) :
    iter'.Ready bpb typ contents ∧ state'.Ready bpb contents ∧
      state'.totalSectorsRead = state.totalSectorsRead + n * bpb.sectorsPerCluster.toNat ∧
      iter'.currentEntry = entryAfter (entryAt contents bpb typ) n iter.currentEntry := by
  induction n generalizing iter state with
  | zero =>
      obtain ⟨rfl, rfl⟩ : iter = iter' ∧ state = state' := by simpa [loadClusters] using h
      exact ⟨hiter, hready, by simp, rfl⟩
  | succ n ih =>
      have hbounds := (loadClusters_iff hbytes hper hiter hready).mp ⟨_, h⟩
      obtain ⟨c, hentry, husable, _⟩ := follows_succ.mp hbounds.1
      obtain ⟨iter₁, state₁, hload, hrest⟩ := loadClusters_succ_eq_some.mp h
      obtain ⟨iter₂, state₂, hload₂, hiter₂, hentry₂, hready₂, htotal₂, _⟩ :=
        loadCluster_spec dest hbytes husable hiter hentry hready (writesBelow_succ.mp hbounds.2).1
      obtain ⟨rfl, rfl⟩ : iter₂ = iter₁ ∧ state₂ = state₁ := by simpa [hload₂] using hload
      obtain ⟨hiter', hready', htotal', hentry'⟩ := ih hiter₂ hready₂ hrest
      refine ⟨hiter', hready', ?_, ?_⟩
      · rw [htotal', htotal₂, Nat.add_mul, Nat.one_mul]
        omega
      · rw [hentry', hentry₂, hentry, entryAfter]

/-! ## Clusters handed out and clusters written -/

/-- Behind `n` loaded clusters the loop gets another one. -/
def GetsCluster (dest : BitVec 32) (n : Nat) (iter : FileIter D) (state : LoadState D) : Prop :=
  ∃ iter' state' r, loadClusters dest n iter state = .ok (some (iter', state')) ∧
    startCluster iter' state' = .ok (some r)

/-- Behind `n` loaded clusters, sectors of another one reach the destination. -/
def WritesCluster (dest : BitVec 32) (n : Nat) (iter : FileIter D) (state : LoadState D) : Prop :=
  ∃ iter' state' iter'' state'' left written,
    loadClusters dest n iter state = .ok (some (iter', state')) ∧
    startCluster iter' state' = .ok (some (iter'', state'', left)) ∧ 0 < left ∧
    readClusterLoop dest 1 state'' left = .ok written

theorem getsCluster_iff (hbytes : bpb.bytesPerSector.toNat = defaultSectorSize)
    (hper : 0 < bpb.sectorsPerCluster.toNat) {n : Nat} (hiter : iter.Ready bpb typ contents)
    (hready : state.Ready bpb contents) :
    GetsCluster dest n iter state ↔
      FollowsTable (entryAt contents bpb typ) (bpb.Usable typ) (n + 1) iter.currentEntry ∧
        WritesBelow bpb n state.totalSectorsRead := by
  constructor
  · intro h
    obtain ⟨iter', state', r, hload, hstart⟩ := h
    obtain ⟨hfollows, hbelow⟩ := (loadClusters_iff hbytes hper hiter hready).mp ⟨_, hload⟩
    obtain ⟨hiter', _, _, hentry'⟩ := loadClusters_spec hbytes hper hiter hready hload
    obtain ⟨c, hentry, husable⟩ := usable_of_startCluster hbytes hiter' hstart
    rw [hentry'] at hentry
    exact ⟨(follows_add hfollows).mpr (follows_succ.mpr ⟨c, hentry, husable, trivial⟩), hbelow⟩
  · intro h
    obtain ⟨hfollow, hbelow⟩ := h
    obtain ⟨⟨iter', state'⟩, hload⟩ :=
      (loadClusters_iff hbytes hper hiter hready).mpr ⟨hfollow.of_add, hbelow⟩
    obtain ⟨hiter', hready', _, hentry'⟩ := loadClusters_spec hbytes hper hiter hready hload
    obtain ⟨c, hentry, husable, _⟩ := follows_succ.mp ((follows_add hfollow.of_add).mp hfollow)
    rw [← hentry'] at hentry
    obtain ⟨iter'', disk, hstart, _⟩ := startCluster_spec hbytes husable hiter' hentry hready'
    exact ⟨iter', state', _, hload, hstart⟩

theorem writesCluster_iff (hbytes : bpb.bytesPerSector.toNat = defaultSectorSize)
    (hper : 0 < bpb.sectorsPerCluster.toNat) {n : Nat} (hiter : iter.Ready bpb typ contents)
    (hready : state.Ready bpb contents) :
    WritesCluster dest n iter state ↔
      FollowsTable (entryAt contents bpb typ) (bpb.Usable typ) (n + 1) iter.currentEntry ∧
        state.totalSectorsRead + n * bpb.sectorsPerCluster.toNat < 2 ^ 23 := by
  have hlt := bpb.sectorsPerCluster.toNat_lt
  constructor
  · intro h
    obtain ⟨iter', state', iter'', state'', left, written, hload, hstart, _, hwrite⟩ := h
    have hgets := (getsCluster_iff hbytes hper hiter hready).mp ⟨_, _, _, hload, hstart⟩
    refine ⟨hgets.1, ?_⟩
    obtain ⟨hiter', hready', htotal, _⟩ := loadClusters_spec hbytes hper hiter hready hload
    obtain ⟨c, hentry, husable⟩ := usable_of_startCluster hbytes hiter' hstart
    obtain ⟨iter₁, disk, hstart₁, _, _, hready₁, hposition⟩ :=
      startCluster_spec hbytes husable hiter' hentry hready'
    rw [hstart₁] at hstart
    obtain ⟨rfl, rfl, rfl⟩ : iter₁ = iter'' ∧ { state' with disk } = state'' ∧
        bpb.sectorsPerCluster.toNat = left := by simpa using hstart
    have hsector := husable.2.1
    rw [BiosParameterBlock.areasEnd_eq hbytes] at hsector
    by_contra hfull
    have hfail := @readClusterLoop_of_full D _ _ bpb contents dest _ 0 _ hready₁ hper
      (by simp only [hposition, Nat.mul_mod_left])
      (by simp only [hposition]; unfold defaultSectorSize; omega)
      (by simp only [htotal]; omega)
    rw [hwrite] at hfail
    cases hfail
  · intro h
    obtain ⟨hfollow, htotal⟩ := h
    have hbelow : WritesBelow bpb n state.totalSectorsRead := by
      cases n with
      | zero => exact .inl rfl
      | succ n =>
          refine .inr ?_
          rw [Nat.add_mul, Nat.one_mul] at htotal
          rw [Nat.add_sub_cancel]
          omega
    obtain ⟨iter', state', r, hload, _⟩ :=
      (getsCluster_iff hbytes hper hiter hready).mpr ⟨hfollow, hbelow⟩
    obtain ⟨hiter', hready', htotal', hentry'⟩ := loadClusters_spec hbytes hper hiter hready hload
    obtain ⟨c, hentry, husable, _⟩ := follows_succ.mp ((follows_add hfollow.of_add).mp hfollow)
    rw [← hentry'] at hentry
    obtain ⟨iter'', disk, hstart, _, _, hready'', hposition⟩ :=
      startCluster_spec hbytes husable hiter' hentry hready'
    have hsector := husable.2.1
    rw [BiosParameterBlock.areasEnd_eq hbytes] at hsector
    obtain ⟨next, hstep, _⟩ := readClusterLoop_step dest hready'' hper rfl
      (by simp only [hposition, Nat.mul_mod_left])
      (by simp only [hposition]; unfold defaultSectorSize; omega)
      (by simp only [htotal']; exact htotal)
    exact ⟨iter', state', iter'', _, _, next, hload, hstart, hper, hstep⟩

end Iterations

/-! ## Bounded loads -/

section Bounded

variable {D : Type} [FatDisk D] [LawfulDisk D]

def FATFileSystem.clustersOf (fs : FATFileSystem D) (size : Nat) : Nat :=
  (size + (defaultSectorSize * fs.bpb.sectorsPerCluster.toNat - 1)) /
    (defaultSectorSize * fs.bpb.sectorsPerCluster.toNat)

/-- The loop ends, gets no more clusters than the volume has, and writes no more
than the file takes. -/
structure LoadBounded (fs : FATFileSystem D) (file : File) (count : Nat) (dest : BitVec 32)
    (memory : WrappedMemory 32) : Prop where
  ends : ∀ fuel, count < fuel → fs.loadFile fuel file dest memory ≠ .ok none
  clusters : ∀ iter, FileIter.new fs.disk file.startSector fs.bpb = .ok iter →
    ¬ GetsCluster dest count iter (fs.loadStart memory)
  writes : ∀ iter, FileIter.new fs.disk file.startSector fs.bpb = .ok iter →
    ¬ WritesCluster dest (fs.clustersOf file.size) iter (fs.loadStart memory)

omit [LawfulDisk D] in
theorem loadFile_eq_none {fs : FATFileSystem D} {file : File} {iter : FileIter D} {fuel : Nat}
    (hnew : FileIter.new fs.disk file.startSector fs.bpb = .ok iter) {dest : BitVec 32}
    {memory : WrappedMemory 32} : fs.loadFile fuel file dest memory = .ok none ↔
      loadLoop dest fuel iter (fs.loadStart memory) = .ok none := by
  simp only [FATFileSystem.loadFile, hnew, Checked.ok_bind, FATFileSystem.loadStart]
  cases loadLoop dest fuel iter ⟨fs.disk, List.replicate (defaultSectorSize * 0x8) 0, memory, 0⟩
    with
  | error panic => simp
  | ok result =>
      cases result with
      | none => simp
      | some result =>
          obtain ⟨outcome, state⟩ := result
          cases outcome with
          | error e => simp
          | ok u =>
              cases hsize : file.sizeInSectors with
              | error panic => simp
              | ok size =>
                  by_cases hshort : state.totalSectorsRead < size
                  · simp [hshort]
                  · simp [hshort]

/-- A load stays in its bounds exactly when the chain in the table does: the loop
counts neither clusters nor bytes, and only the 4 GiB limit of its byte offset
stops it. -/
theorem loadBounded_iff (d : D) (fs : FATFileSystem D) (hparse : FATFileSystem.parse d = .ok fs)
    (typ : FatType) (htyp : fs.bpb.fatType = .ok typ) (count : Nat)
    (hcount : fs.bpb.countOfClusters = .ok count) (file : File) (dest : BitVec 32)
    (memory : WrappedMemory 32) :
    LoadBounded fs file count dest memory ↔
      ¬ (FileFollows fs typ (count + 1) file ∧ WritesBelow fs.bpb count 0) ∧
      ¬ (FileFollows fs typ (fs.clustersOf file.size + 1) file ∧
        fs.clustersOf file.size * fs.bpb.sectorsPerCluster.toNat < 2 ^ 23) := by
  have hfs := mounted_of_parse hparse
  have hbytes := hfs.bytesPerSector
  obtain ⟨_, hper, _⟩ :=
    (BiosParameterBlock.countOfClusters_eq_ok hfs.bytesPerSector_pos).mp hcount
  obtain ⟨iter, hnew, hiter, hentry⟩ := fileIter_new hfs htyp file.startSector
  have hready := loadStart_ready hfs memory
  have hgets : ∀ n, GetsCluster dest n iter (fs.loadStart memory) ↔
      FileFollows fs typ (n + 1) file ∧ WritesBelow fs.bpb n 0 := by
    intro n
    rw [getsCluster_iff hbytes hper hiter hready, hentry]
    rfl
  have hwrites : ∀ n, WritesCluster dest n iter (fs.loadStart memory) ↔
      FileFollows fs typ (n + 1) file ∧ n * fs.bpb.sectorsPerCluster.toNat < 2 ^ 23 := by
    intro n
    rw [writesCluster_iff hbytes hper hiter hready, hentry]
    simp only [FATFileSystem.loadStart, Nat.zero_add]
  constructor
  · intro h
    exact ⟨fun hmore => h.clusters iter hnew ((hgets count).mpr hmore),
      fun hmore => h.writes iter hnew ((hwrites _).mpr hmore)⟩
  · intro h
    constructor
    · intro fuel hfuel hnone
      -- as many iterations as fuel would get a cluster more than there are
      obtain ⟨r, hload⟩ := loadLoop_eq_none.mp ((loadFile_eq_none hnew).mp hnone)
      have hbounds := (loadClusters_iff hbytes hper hiter hready).mp ⟨r, hload⟩
      obtain ⟨more, rfl⟩ := Nat.exists_eq_add_of_le (Nat.succ_le_of_lt hfuel)
      have hfollows := hbounds.1.of_add
      rw [hentry] at hfollows
      exact h.1 ⟨hfollows, hbounds.2.of_le (by omega)⟩
    · intro iter' hnew' hget
      obtain rfl := Except.ok.inj (hnew.symm.trans hnew')
      exact h.1 ((hgets count).mp hget)
    · intro iter' hnew' hwrite
      obtain rfl := Except.ok.inj (hnew.symm.trans hnew')
      exact h.2 ((hwrites _).mp hwrite)

end Bounded

theorem loadBounded_two_clusters :
    LoadBounded smallFileSystem ⟨2, 12000⟩ 4 0x10000#32 (fun _ => 0) :=
  (loadBounded_iff (RamDisk.mk smallVolume 0 512 0) smallFileSystem parse_smallVolume .fat12 rfl 4
    rfl ⟨2, 12000⟩ 0x10000#32 (fun _ => 0)).mpr
    ⟨fun h => absurd h.1 (by decide), fun h => absurd h.1 (by decide)⟩

/-- The volume of before with a table in which cluster 2 links to itself. -/
def cyclicVolume : ByteMemory := fun x => if x = 512 + 3 then 2 else smallVolume x

def cyclicFileSystem : FATFileSystem RamDisk := ⟨⟨cyclicVolume, 512, 512, 8192⟩, smallBpb⟩

theorem parse_cyclicVolume :
    FATFileSystem.parse (RamDisk.mk cyclicVolume 0 512 0) = .ok cyclicFileSystem := by
  apply parse_of_boot_sector
  refine ByteMemory.bytes_eq_iff.mpr fun i hi => ?_
  have hlow : ¬ 0 + i = 512 + 3 := by
    unfold defaultSectorSize at hi
    omega
  simp only [cyclicVolume, hlow, if_false]

theorem follows_cyclicVolume (n : Nat) : FileFollows cyclicFileSystem .fat12 n ⟨2, 100⟩ := by
  have hentry : entryAt cyclicVolume smallBpb .fat12 2 = .cluster 2 := by decide
  have husable : smallBpb.Usable .fat12 2 := by decide
  change FollowsTable (entryAt cyclicVolume smallBpb .fat12) (smallBpb.Usable .fat12) n (.cluster 2)
  induction n with
  | zero => trivial
  | succ n ih => exact ⟨husable, by rw [hentry]; exact ih⟩

/-- A file of 100 bytes whose only cluster links to itself is still being read
behind the 4 clusters of the volume, and behind the one it takes. -/
theorem not_loadBounded_cyclic :
    cyclicFileSystem.loadFile 1000 ⟨2, 100⟩ 0x10000#32 (fun _ => 0) = .ok none ∧
      cyclicFileSystem.bpb.countOfClusters = .ok 4 ∧
      ¬ LoadBounded cyclicFileSystem ⟨2, 100⟩ 4 0x10000#32 (fun _ => 0) := by
  have hfs := mounted_of_parse parse_cyclicVolume
  obtain ⟨iter, hnew, hiter, hentry⟩ := @fileIter_new RamDisk _ _ .fat12 _ hfs rfl 2
  have hrun : cyclicFileSystem.loadFile 1000 ⟨2, 100⟩ 0x10000#32 (fun _ => 0) = .ok none := by
    rw [loadFile_eq_none hnew, loadLoop_eq_none, loadClusters_iff (by rfl) (by decide) hiter
      (loadStart_ready hfs _), hentry]
    exact ⟨follows_cyclicVolume 1000, .inr (by decide)⟩
  exact ⟨hrun, rfl, fun h => h.ends 1000 (by decide) hrun⟩

end MiniatureOs
