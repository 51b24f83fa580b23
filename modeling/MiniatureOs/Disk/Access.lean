import MiniatureOs.Lib.ByteMemory
import MiniatureOs.Lib.Checked

/-! # Disk access through the BIOS

`bootloader/x86_64/bios/stage2/src/disk.rs` and `dap.rs`. A request is cut into
disk address packets of at most 32 sectors; the BIOS answers a packet by copying
the sectors of the disk image to the linear address of the packet. Stage 2 runs
with 32-bit `usize`.
-/

namespace MiniatureOs

/-- `DEFAULT_SECTOR_SIZE`, which is also the size of a BIOS sector. -/
def defaultSectorSize : Nat := 512

/-! ## Disk address packets -/

structure DiskAddressPacket where
  sectorCount : Nat
  offset : Nat
  segment : Nat
  startLba : Nat
  deriving Repr, DecidableEq

namespace DiskAddressPacket

/-- `DiskAddressPacket::new`. -/
def new (bufferAddress sectorCount startLba : Nat) : Checked DiskAddressPacket := do
  let segment := bufferAddress / 16
  Checked.expect "Buffer address too big" (if segment < 2 ^ 16 then some () else none)
  return ⟨sectorCount, bufferAddress % 16, segment, startLba⟩

/-- `DiskAddressPacket::load`, answered by the BIOS with the sectors of the
image. -/
def load (image : ByteMemory) (memory : ByteMemory) (packet : DiskAddressPacket) : ByteMemory :=
  memory.copy (packet.segment * 16 + packet.offset) (packet.sectorCount * defaultSectorSize)
    image (packet.startLba * defaultSectorSize)

end DiskAddressPacket

/-! ## The disk -/

inductive SeekFrom where
  | start (off : Nat)
  | startInSectors (off : Nat)
  | fromEnd (off : Int)
  | current (off : Int)

structure Buffer where
  address : Nat
  len : Nat

structure DiskAccess where
  diskNumber : Nat
  baseOffset : Nat
  offset : Nat
  sectorSize : Nat
  clusterSize : Nat

namespace DiskAccess

/-- `DiskAccess::new`. -/
def new (diskNumber baseLba offset : Nat) : Checked DiskAccess := do
  let baseOffset ← Checked.mul 64 baseLba defaultSectorSize
  let offset ← Checked.mul 64 offset defaultSectorSize
  return ⟨diskNumber, baseOffset, offset, defaultSectorSize, 0⟩

/-- `Seek::seek`, which also returns the new offset. -/
def seek (disk : DiskAccess) (pos : SeekFrom) : Checked (Nat × DiskAccess) := do
  let offset ← match pos with
    | .start off => .ok off
    | .startInSectors off => Checked.mul 64 off disk.sectorSize
    | .current off =>
        if 0 < off then .ok (min (disk.offset + off.toNat) (2 ^ 64 - 1))
        else if off = -2 ^ 63 then .error .overflow
        else .ok (disk.offset - (-off).toNat)
    | .fromEnd _ => .error (.message "not implemented")
  return (offset, { disk with offset })

/-- The packets of the transfer loop of `read_sectors`. Every packet moves at
least one sector, so as many iterations as there are sectors are enough. -/
def packetLoop (sectorSize : Nat) : Nat → Nat → Nat → Nat → Checked (List DiskAddressPacket)
  | 0, _, _, _ => .ok []
  | fuel + 1, remainingSectorCount, startLba, bufferAddress =>
      if 0 < remainingSectorCount then do
        let sectorCount := min remainingSectorCount 0x20
        let packet ← DiskAddressPacket.new bufferAddress sectorCount startLba
        let startLba ← Checked.add 64 startLba sectorCount
        let length ← Checked.mul 32 sectorCount sectorSize
        let bufferAddress ← Checked.add 32 bufferAddress length
        let rest ← packetLoop sectorSize fuel (remainingSectorCount - sectorCount) startLba
          bufferAddress
        return packet :: rest
      else .ok []

/-- `Read::read_sectors`. -/
def readSectors (image : ByteMemory) (disk : DiskAccess) (memory : ByteMemory)
    (sectorsAmount : Nat) (buf : Buffer) : Checked (DiskAccess × ByteMemory) := do
  let rest ← Checked.mod buf.len disk.sectorSize
  Checked.assert (rest = 0) "buf.len() % self.sector_size == 0"
  let capacity ← Checked.div buf.len disk.sectorSize
  Checked.assert (sectorsAmount ≤ capacity) "buf.len() / self.sector_size >= sectors_amount"
  let position ← Checked.add 64 disk.baseOffset disk.offset
  let startLba ← Checked.div position disk.sectorSize
  let length ← Checked.mul 32 sectorsAmount disk.sectorSize
  let endAddr ← Checked.add 64 position length
  let packets ← packetLoop disk.sectorSize sectorsAmount sectorsAmount startLba buf.address
  return ({ disk with offset := endAddr }, packets.foldl (DiskAddressPacket.load image) memory)

/-- `Read::read`. -/
def read (image : ByteMemory) (disk : DiskAccess) (memory : ByteMemory) (buf : Buffer) :
    Checked (DiskAccess × ByteMemory) := do
  let capacity ← Checked.div buf.len disk.sectorSize
  disk.readSectors image memory capacity buf

/-- `Read::read_bytes`, with the address of its static buffer of two sectors. The
offset is cut to the 32 bits of a `usize` before the remainder is taken. -/
def readBytes (image : ByteMemory) (disk : DiskAccess) (memory : ByteMemory)
    (tmpBuf len : Nat) : Checked (List UInt8 × DiskAccess × ByteMemory) := do
  let currentSectorOffset ← Checked.mod (disk.offset % 2 ^ 32) disk.sectorSize
  let last ← Checked.add 32 currentSectorOffset len
  Checked.assert (last ≤ defaultSectorSize * 2) "current_sector_offset + len <= buf.buffer.len()"
  let (disk, memory) ← disk.read image memory ⟨tmpBuf, defaultSectorSize * 2⟩
  return (memory.bytes (tmpBuf + currentSectorOffset) len, disk, memory)

/-! ## What a transfer does -/

theorem packetLoop_spec {fuel remaining startLba address : Nat}
    {packets : List DiskAddressPacket} (hfuel : remaining ≤ fuel)
    (h : packetLoop defaultSectorSize fuel remaining startLba address = .ok packets)
    (image memory : ByteMemory) :
    packets.foldl (DiskAddressPacket.load image) memory =
      memory.copy address (remaining * defaultSectorSize) image (startLba * defaultSectorSize) := by
  induction fuel generalizing remaining startLba address packets memory with
  | zero =>
      obtain rfl : remaining = 0 := by omega
      obtain rfl : packets = [] := by simpa [packetLoop, eq_comm] using h
      simp
  | succ fuel ih =>
      by_cases hpos : 0 < remaining
      · simp only [packetLoop, hpos, if_true] at h
        obtain ⟨packet, hpacket, h⟩ := Checked.bind_eq_ok.mp h
        obtain ⟨lba, hlba, h⟩ := Checked.bind_eq_ok.mp h
        obtain ⟨length, hlength, h⟩ := Checked.bind_eq_ok.mp h
        obtain ⟨next, hnext, h⟩ := Checked.bind_eq_ok.mp h
        obtain ⟨rest, hrest, h⟩ := Checked.bind_eq_ok.mp h
        obtain rfl : packet :: rest = packets := by simpa using h
        obtain ⟨_, rfl⟩ := Checked.add_eq_ok.mp hlba
        obtain ⟨_, rfl⟩ := Checked.mul_eq_ok.mp hlength
        obtain ⟨_, rfl⟩ := Checked.add_eq_ok.mp hnext
        obtain ⟨_, _, hnew⟩ := Checked.bind_eq_ok.mp hpacket
        obtain rfl : packet = ⟨min remaining 0x20, address % 16, address / 16, startLba⟩ := by
          simpa [eq_comm] using hnew
        have hlinear : address / 16 * 16 + address % 16 = address := Nat.div_add_mod' address 16
        have hsum : min remaining 0x20 + (remaining - min remaining 0x20) = remaining := by omega
        rw [List.foldl_cons, ih (by omega) hrest]
        simp only [DiskAddressPacket.load, hlinear]
        rw [Nat.add_mul, ByteMemory.copy_copy, ← Nat.add_mul, hsum]
      · obtain rfl : remaining = 0 := by omega
        obtain rfl : packets = [] := by simpa [packetLoop, eq_comm] using h
        simp

/-- A read of `n` sectors that returns has copied `n` image sectors, from the one
at base plus offset on, and has moved the offset to base plus offset plus their
length. -/
theorem readSectors_spec {image memory memory' : ByteMemory} {disk disk' : DiskAccess}
    {n : Nat} {buf : Buffer} (hsize : disk.sectorSize = defaultSectorSize)
    (h : disk.readSectors image memory n buf = .ok (disk', memory')) :
    memory' = memory.copy buf.address (n * defaultSectorSize) image
        ((disk.baseOffset + disk.offset) / defaultSectorSize * defaultSectorSize) ∧
      disk' = { disk with offset := disk.baseOffset + disk.offset + n * defaultSectorSize } := by
  have hpos : 0 < defaultSectorSize := by decide
  simp only [readSectors, hsize, Checked.mod_of_pos hpos, Checked.div_of_pos hpos,
    Checked.ok_bind] at h
  obtain ⟨_, _, h⟩ := Checked.bind_eq_ok.mp h
  obtain ⟨_, _, h⟩ := Checked.bind_eq_ok.mp h
  obtain ⟨position, hposition, h⟩ := Checked.bind_eq_ok.mp h
  obtain ⟨_, rfl⟩ := Checked.add_eq_ok.mp hposition
  obtain ⟨length, hlength, h⟩ := Checked.bind_eq_ok.mp h
  obtain ⟨_, rfl⟩ := Checked.mul_eq_ok.mp hlength
  obtain ⟨endAddr, hend, h⟩ := Checked.bind_eq_ok.mp h
  obtain ⟨_, rfl⟩ := Checked.add_eq_ok.mp hend
  obtain ⟨packets, hpackets, h⟩ := Checked.bind_eq_ok.mp h
  obtain ⟨hdisk, hmemory⟩ := Prod.mk.inj (Except.ok.inj h)
  rw [← hmemory, packetLoop_spec (Nat.le_refl n) hpackets]
  exact ⟨rfl, by rw [← hdisk, hsize]⟩

end DiskAccess

end MiniatureOs
