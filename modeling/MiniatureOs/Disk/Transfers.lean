import MiniatureOs.Disk.Access

/-! # Cutting a request into packets

Stage 2 (`DiskAccess::read_sectors`) and the master boot record
(`bootloader/x86_64/bios/mbr/src/main.rs`) cut a request into disk address packets
with loops of their own. Below 1 MiB both loops cut it alike: into packets of at
most 32 sectors that lie end to end and cover the request once.
-/

namespace MiniatureOs

/-! ## The master boot record -/

namespace Mbr

structure PartitionTableEntry where
  bootable : Bool
  partitionType : UInt8
  logicalBlockAddress : UInt32
  sectorCount : UInt32

/-- `UnwrapOrFail::unwrap_or_fail`: without a value the code is printed and the
machine halts. -/
def unwrapOrFail {α : Type} (code : String) : Option α → Checked α
  | some value => .ok value
  | none => .error (.message code)

/-- `buffer.get(i..).and_then(|s| s.get(..4))` as a number. -/
def getNumber (buffer : List UInt8) (i : Nat) : Option UInt32 :=
  if i + 4 ≤ buffer.length then
    some (UInt32.ofNat (ofLittleEndian ((buffer.drop i).take 4)))
  else none

def getPartition (partitionTable : List UInt8) (index : Nat) : Checked PartitionTableEntry := do
  let offset := index * 16 % 2 ^ 32
  let buffer ← unwrapOrFail "c"
    (if offset ≤ partitionTable.length then some (partitionTable.drop offset) else none)
  let bootableRaw ← unwrapOrFail "d" buffer.head?
  let partitionType ← unwrapOrFail "e" buffer[4]?
  let lba ← unwrapOrFail "e" (getNumber buffer 8)
  let len ← unwrapOrFail "f" (getNumber buffer 12)
  return ⟨bootableRaw = 0x80, partitionType, lba, len⟩

/-- `DiskAddressPacket::new` of the master boot record. -/
def DiskAddressPacket.new (bufferAddress sectorCount startLba : Nat) :
    Checked DiskAddressPacket := do
  let segment ← unwrapOrFail "o"
    (if bufferAddress / 16 < 2 ^ 16 then some (bufferAddress / 16) else none)
  return ⟨sectorCount, bufferAddress % 16, segment, startLba⟩

/-- The transfer loop of `first_stage`, built without overflow checks. Every packet
moves at least one sector, so as many iterations as there are sectors are
enough. -/
def firstStageLoop : Nat → Nat → Nat → Nat → Checked (List DiskAddressPacket)
  | 0, _, _, _ => .ok []
  | fuel + 1, sectorCount, startLba, bufferAddress =>
      if 0 < sectorCount then do
        let sectors := min sectorCount 0x20
        let packet ← DiskAddressPacket.new bufferAddress sectors startLba
        let rest ← firstStageLoop fuel (sectorCount - sectors) ((startLba + sectors) % 2 ^ 64)
          ((bufferAddress + sectors * defaultSectorSize) % 2 ^ 32)
        return packet :: rest
      else .ok []

/-- The packets of `first_stage` for the partition table of the disk and the
linker's address of the second stage. -/
def firstStage (partitionTable : List UInt8) (secondStageStart : Nat) :
    Checked (List DiskAddressPacket) := do
  let pte ← getPartition partitionTable 0
  firstStageLoop pte.sectorCount.toNat pte.sectorCount.toNat pte.logicalBlockAddress.toNat
    secondStageStart

end Mbr

/-! ## Stage 2 -/

/-- The packets that `read_sectors` issues. -/
def DiskAccess.issue (disk : DiskAccess) (sectorsAmount : Nat) (buf : Buffer) :
    Checked (DiskAccess × List DiskAddressPacket) := do
  let rest ← Checked.mod buf.len disk.sectorSize
  Checked.assert (rest = 0) "buf.len() % self.sector_size == 0"
  let capacity ← Checked.div buf.len disk.sectorSize
  Checked.assert (sectorsAmount ≤ capacity) "buf.len() / self.sector_size >= sectors_amount"
  let position ← Checked.add 64 disk.baseOffset disk.offset
  let startLba ← Checked.div position disk.sectorSize
  let length ← Checked.mul 32 sectorsAmount disk.sectorSize
  let endAddr ← Checked.add 64 position length
  let packets ← packetLoop disk.sectorSize sectorsAmount sectorsAmount startLba buf.address
  return ({ disk with offset := endAddr }, packets)

/-- `read_sectors` loads the packets it issues, in order. -/
theorem DiskAccess.readSectors_eq_issue (image : ByteMemory) (disk : DiskAccess)
    (memory : ByteMemory) (n : Nat) (buf : Buffer) :
    disk.readSectors image memory n buf = (do
      let (disk', packets) ← disk.issue n buf
      return (disk', packets.foldl (DiskAddressPacket.load image) memory)) := by
  simp only [readSectors, issue, bind_assoc, pure_bind]

/-! ## The cut of a request -/

namespace DiskAddressPacket

/-- The sectors that a packet moves, each with the linear address it goes to. -/
def transfers (packet : DiskAddressPacket) : List (Nat × Nat) :=
  (List.range packet.sectorCount).map fun i =>
    (packet.startLba + i, packet.segment * 16 + packet.offset + defaultSectorSize * i)

def cut : Nat → Nat → Nat → Nat → List DiskAddressPacket
  | 0, _, _, _ => []
  | fuel + 1, n, startLba, address =>
      if 0 < n then
        ⟨min n 0x20, address % 16, address / 16, startLba⟩ ::
          cut fuel (n - min n 0x20) (startLba + min n 0x20)
            (address + min n 0x20 * defaultSectorSize)
      else []

/-- The packets move the sectors from `startLba` on to the addresses from `address`
on, each once and no other, in pieces that a BIOS call takes: 1 to 32 sectors
within the 64 KiB of a segment. -/
structure TransferExactly (packets : List DiskAddressPacket) (n startLba address : Nat) :
    Prop where
  sectors : packets.flatMap transfers =
    (List.range n).map fun i => (startLba + i, address + defaultSectorSize * i)
  count : ∀ packet ∈ packets, 1 ≤ packet.sectorCount ∧ packet.sectorCount ≤ 0x20
  segment : ∀ packet ∈ packets, packet.segment < 2 ^ 16 ∧
    packet.offset + packet.sectorCount * defaultSectorSize ≤ 2 ^ 16

theorem transfers_first (k startLba address : Nat) :
    transfers ⟨k, address % 16, address / 16, startLba⟩ =
      (List.range k).map fun i => (startLba + i, address + defaultSectorSize * i) := by
  simp only [transfers, Nat.div_add_mod' address 16]

theorem cut_transferExactly {fuel n startLba address : Nat} (hfuel : n ≤ fuel)
    (hfit : address + defaultSectorSize * n ≤ 2 ^ 20) :
    TransferExactly (cut fuel n startLba address) n startLba address := by
  unfold defaultSectorSize at hfit
  induction fuel generalizing n startLba address with
  | zero =>
      obtain rfl : n = 0 := by omega
      exact ⟨rfl, by simp [cut], by simp [cut]⟩
  | succ fuel ih =>
      by_cases hpos : 0 < n
      · obtain ⟨k, hk⟩ : ∃ k, k = min n 0x20 := ⟨_, rfl⟩
        simp only [cut, hpos, if_true, ← hk]
        have hrest := @ih (n - k) (startLba + k) (address + k * defaultSectorSize) (by omega)
          (by unfold defaultSectorSize; omega)
        refine ⟨?_, ?_, ?_⟩
        · -- the rest starts where the first packet ends
          obtain ⟨m, rfl⟩ := Nat.exists_eq_add_of_le (show k ≤ n by omega)
          rw [List.flatMap_cons, hrest.sectors, transfers_first, Nat.add_sub_cancel_left,
            List.range_add, List.map_append, List.map_map]
          congr 1
          apply List.map_congr_left
          intro i _
          simp only [Function.comp_apply, Nat.mul_add, Nat.add_assoc, Nat.mul_comm k]
        · intro packet hmem
          cases List.mem_cons.mp hmem with
          | inl hfirst => rw [hfirst]; exact ⟨by simp only; omega, by simp only; omega⟩
          | inr hmem => exact hrest.count packet hmem
        · intro packet hmem
          cases List.mem_cons.mp hmem with
          | inl hfirst =>
              rw [hfirst]
              unfold defaultSectorSize
              exact ⟨by simp only; omega, by simp only; omega⟩
          | inr hmem => exact hrest.segment packet hmem
      · obtain rfl : n = 0 := by omega
        exact ⟨rfl, by simp [cut], by simp [cut]⟩

end DiskAddressPacket

open DiskAddressPacket

/-! ## Both loops issue the cut -/

theorem packetLoop_eq_cut {fuel n startLba address : Nat} (hfuel : n ≤ fuel)
    (hfit : address + defaultSectorSize * n ≤ 2 ^ 20) (hlba : startLba + n < 2 ^ 64) :
    DiskAccess.packetLoop defaultSectorSize fuel n startLba address =
      .ok (cut fuel n startLba address) := by
  unfold defaultSectorSize at hfit
  induction fuel generalizing n startLba address with
  | zero => rfl
  | succ fuel ih =>
      by_cases hpos : 0 < n
      · obtain ⟨k, hk⟩ : ∃ k, k = min n 0x20 := ⟨_, rfl⟩
        have hsegment : address / 16 < 2 ^ 16 := by omega
        have hlength : k * defaultSectorSize < 2 ^ 32 := by unfold defaultSectorSize; omega
        have hnext : address + k * defaultSectorSize < 2 ^ 32 := by
          unfold defaultSectorSize
          omega
        have hrest := @ih (n - k) (startLba + k) (address + k * defaultSectorSize) (by omega)
          (by unfold defaultSectorSize; omega) (by omega)
        simp only [DiskAccess.packetLoop, cut, hpos, if_true, ← hk, DiskAddressPacket.new,
          hsegment, Checked.expect, Checked.ok_bind, Checked.pure_eq_ok,
          Checked.add_of_lt (show startLba + k < 2 ^ 64 by omega), Checked.mul_of_lt hlength,
          Checked.add_of_lt hnext, hrest]
      · simp only [DiskAccess.packetLoop, cut, hpos, if_false]

theorem firstStageLoop_eq_cut {fuel n startLba address : Nat} (hfuel : n ≤ fuel)
    (hfit : address + defaultSectorSize * n ≤ 2 ^ 20) (hlba : startLba + n < 2 ^ 64) :
    Mbr.firstStageLoop fuel n startLba address = .ok (cut fuel n startLba address) := by
  unfold defaultSectorSize at hfit
  induction fuel generalizing n startLba address with
  | zero => rfl
  | succ fuel ih =>
      by_cases hpos : 0 < n
      · obtain ⟨k, hk⟩ : ∃ k, k = min n 0x20 := ⟨_, rfl⟩
        have hsegment : address / 16 < 2 ^ 16 := by omega
        have hnext : (address + k * defaultSectorSize) % 2 ^ 32 =
            address + k * defaultSectorSize :=
          Nat.mod_eq_of_lt (by unfold defaultSectorSize; omega)
        have hlba' : (startLba + k) % 2 ^ 64 = startLba + k := Nat.mod_eq_of_lt (by omega)
        have hrest := @ih (n - k) (startLba + k) (address + k * defaultSectorSize) (by omega)
          (by unfold defaultSectorSize; omega) (by omega)
        simp only [Mbr.firstStageLoop, cut, hpos, if_true, ← hk, Mbr.DiskAddressPacket.new,
          hsegment, Mbr.unwrapOrFail, Checked.ok_bind, Checked.pure_eq_ok, hnext, hlba', hrest]
      · simp only [Mbr.firstStageLoop, cut, hpos, if_false]

/-- A request whose end has a 64-bit byte offset is cut and the offset moved past
it. -/
theorem DiskAccess.issue_eq {disk : DiskAccess} {n : Nat} {buf : Buffer}
    (hsize : disk.sectorSize = defaultSectorSize) (hlen : buf.len % defaultSectorSize = 0)
    (hn : n ≤ buf.len / defaultSectorSize)
    (hfit : buf.address + defaultSectorSize * n ≤ 2 ^ 20)
    (hend : disk.baseOffset + disk.offset + defaultSectorSize * n < 2 ^ 64) :
    disk.issue n buf = .ok
      ({ disk with offset := disk.baseOffset + disk.offset + n * defaultSectorSize },
        cut n n ((disk.baseOffset + disk.offset) / defaultSectorSize) buf.address) := by
  have hpos : 0 < defaultSectorSize := by decide
  have hlength : n * defaultSectorSize < 2 ^ 32 := by
    unfold defaultSectorSize at hfit ⊢
    omega
  have hcut := @packetLoop_eq_cut n n ((disk.baseOffset + disk.offset) / defaultSectorSize)
    buf.address (Nat.le_refl n) hfit (by unfold defaultSectorSize at hend ⊢; omega)
  rw [Nat.mul_comm] at hend
  simp only [issue, hsize, Checked.mod_of_pos hpos, Checked.div_of_pos hpos, Checked.ok_bind,
    hlen, decide_true, hn, Checked.assert, if_true, Checked.mul_of_lt hlength,
    Checked.add_of_lt (show disk.baseOffset + disk.offset < 2 ^ 64 by omega),
    Checked.add_of_lt hend, hcut, Checked.pure_eq_ok]

/-- Requests below 1 MiB are covered exactly, by `read_sectors` of a disk with
512-byte sectors and by the loop of `first_stage`. -/
theorem packets_transferExactly (n startLba address : Nat)
    (hfit : address + 512 * n ≤ 2 ^ 20) :
    (∀ (disk : DiskAccess) (len : Nat), disk.sectorSize = 512 →
      (disk.baseOffset + disk.offset) / 512 = startLba →
      disk.baseOffset + disk.offset + 512 * n < 2 ^ 64 → len % 512 = 0 → n ≤ len / 512 →
      ∃ disk' packets, disk.issue n ⟨address, len⟩ = .ok (disk', packets) ∧
        TransferExactly packets n startLba address) ∧
    (∀ (table : List UInt8) (pte : Mbr.PartitionTableEntry), Mbr.getPartition table 0 = .ok pte →
      pte.logicalBlockAddress.toNat = startLba → pte.sectorCount.toNat = n →
      ∃ packets, Mbr.firstStage table address = .ok packets ∧
        TransferExactly packets n startLba address) := by
  constructor
  · intro disk len hsize hstart hend hlen hn
    have hissue := @DiskAccess.issue_eq disk n ⟨address, len⟩ hsize hlen hn hfit hend
    refine ⟨_, _, hissue, ?_⟩
    have hcover := @cut_transferExactly n n ((disk.baseOffset + disk.offset) / defaultSectorSize)
      address (Nat.le_refl n) hfit
    exact hstart ▸ hcover
  · intro table pte hpte hstart hcount
    have hlba := pte.logicalBlockAddress.toNat_lt
    refine ⟨cut n n startLba address, ?_, cut_transferExactly (Nat.le_refl n) hfit⟩
    simp only [Mbr.firstStage, hpte, Checked.ok_bind, hstart, hcount]
    exact firstStageLoop_eq_cut (Nat.le_refl n) hfit (by omega)

def secondStageTable : List UInt8 :=
  [0x80, 0, 0, 0, 0x20, 0, 0, 0, 1, 0, 0, 0, 33, 0, 0, 0] ++ List.replicate 48 0

theorem packets_transferExactly_33_sectors :
    (∃ disk' packets, (DiskAccess.mk 0x80 512 0 512 0).issue 33 ⟨0x7e00, 33 * 512⟩ =
        .ok (disk', packets) ∧ TransferExactly packets 33 1 0x7e00) ∧
      ∃ packets, Mbr.firstStage secondStageTable 0x7e00 = .ok packets ∧
        TransferExactly packets 33 1 0x7e00 :=
  have hboth := packets_transferExactly 33 1 0x7e00 (by decide)
  ⟨hboth.1 ⟨0x80, 512, 0, 512, 0⟩ (33 * 512) rfl (by decide) (by decide) (by decide) (by decide),
    hboth.2 secondStageTable ⟨true, 0x20, 1, 33⟩ rfl rfl rfl⟩

end MiniatureOs
