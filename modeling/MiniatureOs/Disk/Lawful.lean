import MiniatureOs.Disk.Access

/-! # The disk as a seekable reader

A lawful reader keeps its offset relative to the partition: a seek sets it to the
target, and a read returns the partition's sectors from there on and moves past
them. `read_sectors` stores base plus offset plus length instead, so the offset
is right after a read exactly for a partition at the start of the disk.
-/

namespace MiniatureOs

inductive DiskOp where
  | seekStart (off : Nat)
  | seekStartInSectors (off : Nat)
  | read (buf : Buffer)
  | readSectors (sectorsAmount : Nat) (buf : Buffer)

namespace DiskOp

def request : DiskOp → Option (Nat × Buffer)
  | seekStart _ => none
  | seekStartInSectors _ => none
  | read buf => some (buf.len / defaultSectorSize, buf)
  | readSectors sectorsAmount buf => some (sectorsAmount, buf)

def target : DiskOp → Option Nat
  | seekStart off => some off
  | seekStartInSectors off => some (off * defaultSectorSize)
  | read _ => none
  | readSectors _ _ => none

end DiskOp

namespace DiskAccess

def step (image : ByteMemory) (state : DiskAccess × ByteMemory) :
    DiskOp → Checked (DiskAccess × ByteMemory)
  | .seekStart off => do
      let (_, disk) ← state.1.seek (.start off)
      return (disk, state.2)
  | .seekStartInSectors off => do
      let (_, disk) ← state.1.seek (.startInSectors off)
      return (disk, state.2)
  | .read buf => state.1.read image state.2 buf
  | .readSectors sectorsAmount buf => state.1.readSectors image state.2 sectorsAmount buf

def run (image : ByteMemory) (state : DiskAccess × ByteMemory) (ops : List DiskOp) :
    Checked (DiskAccess × ByteMemory) :=
  ops.foldlM (step image) state

/-! ## The law -/

section Law

variable (image : ByteMemory) (baseLba : Nat) (start : DiskAccess × ByteMemory)

/-- A seek sets the offset; a read of `n` sectors returns the `n` sectors of the
partition at the offset and advances it by their length. -/
def LawfulStep (op : DiskOp) (before after : DiskAccess × ByteMemory) : Prop :=
  (∀ off, op.target = some off → after.1.offset = off) ∧
  ∀ n buf, op.request = some (n, buf) →
    after.2.bytes buf.address (n * defaultSectorSize) =
      image.bytes ((baseLba + before.1.offset / defaultSectorSize) * defaultSectorSize)
        (n * defaultSectorSize) ∧
    after.1.offset = before.1.offset + n * defaultSectorSize

def SplitReads (first second : DiskOp) (before middle after : DiskAccess × ByteMemory) : Prop :=
  ∀ n buf m buf', first.request = some (n, buf) → second.request = some (m, buf') →
    ∀ whole joined, step image before (.readSectors (n + m) whole) = .ok joined →
      joined.2.bytes whole.address ((n + m) * defaultSectorSize) =
        middle.2.bytes buf.address (n * defaultSectorSize) ++
          after.2.bytes buf'.address (m * defaultSectorSize)

structure LawfulRun (ops : List DiskOp) : Prop where
  step_lawful : ∀ pre op post before after, ops = pre ++ op :: post →
    run image start pre = .ok before → step image before op = .ok after →
      LawfulStep image baseLba op before after
  split_reads : ∀ pre first second post before middle after,
    ops = pre ++ first :: second :: post → run image start pre = .ok before →
      step image before first = .ok middle → step image middle second = .ok after →
        SplitReads image first second before middle after

end Law

/-! ## Steps -/

theorem step_spec {image : ByteMemory} {op : DiskOp} {before after : DiskAccess × ByteMemory}
    (hsize : before.1.sectorSize = defaultSectorSize) (h : step image before op = .ok after) :
    after.1.baseOffset = before.1.baseOffset ∧ after.1.sectorSize = defaultSectorSize ∧
    (∀ off, op.target = some off → after.1.offset = off) ∧
    ∀ n buf, op.request = some (n, buf) →
      after.2 = before.2.copy buf.address (n * defaultSectorSize) image
        ((before.1.baseOffset + before.1.offset) / defaultSectorSize * defaultSectorSize) ∧
      after.1.offset = before.1.baseOffset + before.1.offset + n * defaultSectorSize := by
  have hread : ∀ n buf, before.1.readSectors image before.2 n buf = .ok after →
      after.1.baseOffset = before.1.baseOffset ∧ after.1.sectorSize = defaultSectorSize ∧
      after.2 = before.2.copy buf.address (n * defaultSectorSize) image
        ((before.1.baseOffset + before.1.offset) / defaultSectorSize * defaultSectorSize) ∧
      after.1.offset = before.1.baseOffset + before.1.offset + n * defaultSectorSize := by
    intro n buf hcall
    obtain ⟨hmemory, hdisk⟩ := readSectors_spec hsize hcall
    rw [hdisk]
    exact ⟨rfl, hsize, hmemory, rfl⟩
  cases op with
  | seekStart off =>
      obtain rfl : ({ before.1 with offset := off }, before.2) = after := by
        simpa [step, seek] using h
      simp [DiskOp.target, DiskOp.request, hsize]
  | seekStartInSectors off =>
      simp only [step, seek, hsize] at h
      obtain ⟨⟨_, disk⟩, hseek, h⟩ := Checked.bind_eq_ok.mp h
      obtain ⟨offset, hoffset, hseek⟩ := Checked.bind_eq_ok.mp hseek
      obtain ⟨_, rfl⟩ := Checked.mul_eq_ok.mp hoffset
      obtain rfl : (disk, before.2) = after := by simpa using h
      obtain ⟨_, rfl⟩ := Prod.mk.inj (Except.ok.inj hseek)
      simp [DiskOp.target, DiskOp.request]
  | read buf =>
      simp only [step, read, hsize, Checked.div_of_pos (show 0 < defaultSectorSize by decide),
        Checked.ok_bind] at h
      obtain ⟨hbase, hsize', hmemory, hoffset⟩ := hread _ buf h
      refine ⟨hbase, hsize', by simp [DiskOp.target], fun n buf' hrequest => ?_⟩
      obtain ⟨rfl, rfl⟩ : buf.len / defaultSectorSize = n ∧ buf = buf' := by
        simpa [DiskOp.request] using hrequest
      exact ⟨hmemory, hoffset⟩
  | readSectors sectorsAmount buf =>
      obtain ⟨hbase, hsize', hmemory, hoffset⟩ := hread sectorsAmount buf h
      refine ⟨hbase, hsize', by simp [DiskOp.target], fun n buf' hrequest => ?_⟩
      obtain ⟨rfl, rfl⟩ : sectorsAmount = n ∧ buf = buf' := by
        simpa [DiskOp.request] using hrequest
      exact ⟨hmemory, hoffset⟩

/-! ## Runs -/

theorem run_append {image : ByteMemory} {start final : DiskAccess × ByteMemory}
    {pre post : List DiskOp} :
    run image start (pre ++ post) = .ok final ↔
      ∃ middle, run image start pre = .ok middle ∧ run image middle post = .ok final := by
  simp only [run, List.foldlM_append]
  exact Checked.bind_eq_ok

theorem run_cons {image : ByteMemory} {start final : DiskAccess × ByteMemory} {op : DiskOp}
    {ops : List DiskOp} :
    run image start (op :: ops) = .ok final ↔
      ∃ middle, step image start op = .ok middle ∧ run image middle ops = .ok final := by
  simp only [run, List.foldlM_cons]
  exact Checked.bind_eq_ok

theorem run_keeps {image : ByteMemory} {start final : DiskAccess × ByteMemory}
    {ops : List DiskOp} (hsize : start.1.sectorSize = defaultSectorSize)
    (h : run image start ops = .ok final) :
    final.1.baseOffset = start.1.baseOffset ∧ final.1.sectorSize = defaultSectorSize := by
  induction ops generalizing start with
  | nil =>
      obtain rfl : start = final := by simpa [run] using h
      exact ⟨rfl, hsize⟩
  | cons op ops ih =>
      obtain ⟨middle, hstep, hrest⟩ := run_cons.mp h
      obtain ⟨hbase, hsize', _⟩ := step_spec hsize hstep
      obtain ⟨hfinal, hfinalSize⟩ := ih hsize' hrest
      exact ⟨hfinal.trans hbase, hfinalSize⟩

theorem new_spec {diskNumber baseLba offset : Nat} {disk : DiskAccess}
    (h : new diskNumber baseLba offset = .ok disk) :
    disk.baseOffset = baseLba * defaultSectorSize ∧ disk.sectorSize = defaultSectorSize := by
  obtain ⟨base, hbase, h⟩ := Checked.bind_eq_ok.mp h
  obtain ⟨_, rfl⟩ := Checked.mul_eq_ok.mp hbase
  obtain ⟨position, _, h⟩ := Checked.bind_eq_ok.mp h
  obtain rfl := Except.ok.inj h
  exact ⟨rfl, rfl⟩

theorem lawfulStep_of_base_zero {image : ByteMemory} {op : DiskOp}
    {before after : DiskAccess × ByteMemory} (hbase : before.1.baseOffset = 0)
    (hsize : before.1.sectorSize = defaultSectorSize) (h : step image before op = .ok after) :
    LawfulStep image 0 op before after := by
  obtain ⟨_, _, hseek, hread⟩ := step_spec hsize h
  refine ⟨hseek, fun n buf hrequest => ?_⟩
  obtain ⟨hmemory, hoffset⟩ := hread n buf hrequest
  rw [hbase, Nat.zero_add] at hmemory hoffset
  refine ⟨?_, hoffset⟩
  rw [hmemory, ByteMemory.bytes_copy, Nat.zero_add]

theorem splitReads_of_base_zero {image : ByteMemory} {first second : DiskOp}
    {before middle after : DiskAccess × ByteMemory} (hbase : before.1.baseOffset = 0)
    (hsize : before.1.sectorSize = defaultSectorSize)
    (hfirst : step image before first = .ok middle)
    (hsecond : step image middle second = .ok after) :
    SplitReads image first second before middle after := by
  intro n buf m buf' hn hm whole joined hjoined
  obtain ⟨hbase', hsize', _, _⟩ := step_spec hsize hfirst
  obtain ⟨hdata, hoffset⟩ := (lawfulStep_of_base_zero hbase hsize hfirst).2 n buf hn
  obtain ⟨hdata', _⟩ :=
    (lawfulStep_of_base_zero (hbase'.trans hbase) hsize' hsecond).2 m buf' hm
  obtain ⟨hwhole, _⟩ := (lawfulStep_of_base_zero hbase hsize hjoined).2 (n + m) whole rfl
  have hnext : (0 + middle.1.offset / defaultSectorSize) * defaultSectorSize =
      (0 + before.1.offset / defaultSectorSize) * defaultSectorSize + n * defaultSectorSize := by
    rw [hoffset, Nat.add_mul_div_right _ _ (by decide), ← Nat.add_assoc, Nat.add_mul]
  rw [hwhole, hdata, hdata', hnext, Nat.add_mul n m, ByteMemory.bytes_add]

/-- A run of a fresh disk is lawful exactly when the partition starts at sector
zero or nothing is read. -/
theorem lawfulRun_iff (image memory : ByteMemory) (diskNumber baseLba offset : Nat)
    (disk : DiskAccess) (ops : List DiskOp) (final : DiskAccess × ByteMemory)
    (hnew : new diskNumber baseLba offset = .ok disk)
    (hrun : run image (disk, memory) ops = .ok final) :
    LawfulRun image baseLba (disk, memory) ops ↔
      baseLba = 0 ∨ ∀ op ∈ ops, op.request = none := by
  obtain ⟨hbase, hsize⟩ := new_spec hnew
  have hreached : ∀ {pre : List DiskOp} {before : DiskAccess × ByteMemory},
      run image (disk, memory) pre = .ok before →
        before.1.baseOffset = baseLba * defaultSectorSize ∧
          before.1.sectorSize = defaultSectorSize := by
    intro pre before hpre
    obtain ⟨hkeep, hkeepSize⟩ := run_keeps hsize hpre
    exact ⟨hkeep.trans hbase, hkeepSize⟩
  constructor
  · intro hlawful
    by_contra hnot
    obtain ⟨hne, hreads⟩ := not_or.mp hnot
    refine hreads fun op hop => ?_
    obtain ⟨pre, post, rfl⟩ := List.append_of_mem hop
    obtain ⟨before, hpre, hrest⟩ := run_append.mp hrun
    obtain ⟨after, hstep, _⟩ := run_cons.mp hrest
    obtain ⟨hbase', hsize'⟩ := hreached hpre
    cases hrequest : op.request with
    | none => rfl
    | some request =>
        -- the stored offset is off by the base, which is not zero
        have hlaw := (hlawful.step_lawful pre op post before after rfl hpre hstep).2
          request.1 request.2 hrequest
        have hreal := (step_spec hsize' hstep).2.2.2 request.1 request.2 hrequest
        have hoffset := hlaw.2.symm.trans hreal.2
        have hpos : 0 < baseLba * defaultSectorSize :=
          Nat.mul_pos (Nat.pos_of_ne_zero hne) (by decide)
        omega
  · rintro (rfl | hnone)
    · have hzero : ∀ {pre : List DiskOp} {before : DiskAccess × ByteMemory},
          run image (disk, memory) pre = .ok before →
            before.1.baseOffset = 0 ∧ before.1.sectorSize = defaultSectorSize := by
        intro pre before hpre
        obtain ⟨hbase', hsize'⟩ := hreached hpre
        exact ⟨hbase'.trans (Nat.zero_mul _), hsize'⟩
      refine ⟨fun pre op post before after _ hpre hstep => ?_,
        fun pre first second post before middle after _ hpre hfirst hsecond => ?_⟩
      · exact lawfulStep_of_base_zero (hzero hpre).1 (hzero hpre).2 hstep
      · exact splitReads_of_base_zero (hzero hpre).1 (hzero hpre).2 hfirst hsecond
    · refine ⟨fun pre op post before after hops hpre hstep => ?_,
        fun pre first second post before middle after hops _ _ _ n buf m buf' hn => ?_⟩
      · refine ⟨(step_spec (hreached hpre).2 hstep).2.2.1, fun n buf hrequest => ?_⟩
        rw [hnone op (by simp [hops])] at hrequest
        simp at hrequest
      · rw [hnone first (by simp [hops])] at hn
        simp at hn

def numberedImage : ByteMemory := fun x => UInt8.ofNat (x / defaultSectorSize)

theorem lawfulRun_whole_disk :
    ∃ disk final, new 0x80 0 0 = .ok disk ∧
      run numberedImage (disk, fun _ => 0)
        [.readSectors 1 ⟨0x8000, 512⟩, .readSectors 1 ⟨0x8200, 512⟩] = .ok final ∧
      LawfulRun numberedImage 0 (disk, fun _ => 0)
        [.readSectors 1 ⟨0x8000, 512⟩, .readSectors 1 ⟨0x8200, 512⟩] :=
  ⟨_, _, rfl, rfl, (lawfulRun_iff _ _ 0x80 0 0 _ _ _ rfl rfl).mpr (.inl rfl)⟩

/-- In a partition at sector one, the second of two reads skips a sector. -/
theorem not_lawfulRun_partition :
    ∃ disk final, new 0x80 1 0 = .ok disk ∧
      run numberedImage (disk, fun _ => 0)
        [.readSectors 1 ⟨0x8000, 512⟩, .readSectors 1 ⟨0x8200, 512⟩] = .ok final ∧
      final.1.offset = 4 * 512 ∧ final.2 0x8000 = 1 ∧ final.2 0x8200 = 3 ∧
      ¬ LawfulRun numberedImage 1 (disk, fun _ => 0)
        [.readSectors 1 ⟨0x8000, 512⟩, .readSectors 1 ⟨0x8200, 512⟩] := by
  refine ⟨_, _, rfl, rfl, rfl, by decide, by decide, fun hlawful => ?_⟩
  have hfirst := hlawful.step_lawful [] _ [.readSectors 1 ⟨0x8200, 512⟩] _ _ rfl rfl rfl
  have hoffset := (hfirst.2 1 ⟨0x8000, 512⟩ rfl).2
  exact absurd hoffset (by decide)

end DiskAccess

end MiniatureOs
