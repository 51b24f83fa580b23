import MiniatureOs.Boot.Vesa
import MiniatureOs.Memory.Region

/-! # The framebuffer of the selected mode

`to_framebuffer_info` in `stage2/src/vesa.rs` and the part of `start` in
`stage2/src/main.rs` that selects a video mode. The bytes of a pixel are the bits
divided by eight and rounded down, so a mode of 15 bits is described with one byte to a
pixel, and a mode of less than 8 bits ends in a division by zero. The search admits both.
-/

namespace MiniatureOs

inductive PixelFormat where
  | rgb
  | bgr
  | unknown (redPosition greenPosition bluePosition : UInt8)
  deriving Repr, DecidableEq

structure FramebufferInfo where
  region : PhysicalMemoryRegion
  width : Nat
  height : Nat
  bytesPerPixel : Nat
  stride : Nat
  pixelFormat : PixelFormat
  deriving Repr, DecidableEq

namespace VbeModeInfo

def getPixelFormat (info : VbeModeInfo) : PixelFormat :=
  match info.redPosition, info.greenPosition, info.bluePosition with
  | 0, 8, 16 => .rgb
  | 16, 8, 0 => .bgr
  | redPosition, greenPosition, bluePosition => .unknown redPosition greenPosition bluePosition

def toFramebufferInfo (info : VbeModeInfo) : Checked FramebufferInfo := do
  let bytesPerPixel := info.bitsPerPixel.toNat / 8
  let size ← Checked.mul 64 info.height.toNat info.bytesPerScanline.toNat
  let region := ⟨info.framebuffer.toNat, size, .reserved⟩
  let stride ← Checked.div info.bytesPerScanline.toNat bytesPerPixel
  return ⟨region, info.width.toNat, info.height.toNat, bytesPerPixel, stride, info.getPixelFormat⟩

end VbeModeInfo

/-! ## The video part of stage 2 -/

structure VideoBios where
  controllerStatus : UInt16
  controller : VbeInfo
  modes : VbeBios
  modeStatus : UInt16 → UInt16

/-- `VbeInfo::get`. -/
def VbeInfo.get (bios : VideoBios) : Except UInt16 VbeInfo :=
  if bios.controllerStatus = vesaSuccess then .ok bios.controller
  else .error bios.controllerStatus

/-- `set_mode`: with the linear framebuffer, and clearing the screen. -/
def VbeInfo.setMode (bios : VideoBios) (mode : UInt16) : Except UInt16 Unit :=
  let mode := mode ||| ((1 : UInt16) <<< 14)
  let mode := mode &&& ~~~((1 : UInt16) <<< 15)
  if bios.modeStatus mode = vesaSuccess then .ok () else .error (bios.modeStatus mode)

/-- The part of `start` between the memory map and the hand-over. -/
def startVideo (bios : VideoBios) (memory : ByteMemory) : Checked FramebufferInfo := do
  let vesaInfo ← Checked.expect "Error getting Vesa info" (VbeInfo.get bios).toOption
  let best ← VbeInfo.getBestMode bios.modes 1280 1024 24 vesaInfo memory
  let mode ← Checked.expect "Unable to get vesa mode" best
  let modeInfo ← Checked.expect "Failed to get vesa mode info"
    (VbeModeInfo.get bios.modes mode).toOption
  let _ ← Checked.expect "Failed to set vesa mode" (VbeInfo.setMode bios mode).toOption
  modeInfo.toFramebufferInfo

/-! ## Usable framebuffers -/

def VbeModeInfo.pixelBytes (info : VbeModeInfo) : Nat := (info.bitsPerPixel.toNat + 7) / 8

structure Selected (bios : VbeBios) (width height : UInt16) (depth : UInt8) (vbe : VbeInfo)
    (memory : ByteMemory) (mode : UInt16) (info : VbeModeInfo) : Prop where
  returned : VbeInfo.getBestMode bios width height depth vbe memory = .ok (some mode)
  described : VbeModeInfo.get bios mode = .ok info
  pitch : info.width.toNat * info.pixelBytes ≤ info.bytesPerScanline.toNat

structure FramebufferInfo.Covers (fb : FramebufferInfo) (info : VbeModeInfo) : Prop where
  pixel : info.bitsPerPixel.toNat ≤ fb.bytesPerPixel * 8
  row : info.width.toNat ≤ fb.stride
  inside : ∀ x < info.width.toNat, ∀ y < info.height.toNat, ∀ i < fb.bytesPerPixel,
    MemoryRegion.Holds fb.region (fb.region.start + (y * fb.stride + x) * fb.bytesPerPixel + i)

def Usable (info : VbeModeInfo) : Prop :=
  ∃ fb, info.toFramebufferInfo = .ok fb ∧ fb.Covers info

def WholeBytes (info : VbeModeInfo) : Prop :=
  0 < info.bitsPerPixel.toNat ∧ info.bitsPerPixel.toNat % 8 = 0

/-- The description fails for less than a byte to a pixel and not otherwise. -/
theorem toFramebufferInfo_eq_ok {info : VbeModeInfo} {fb : FramebufferInfo} :
    info.toFramebufferInfo = .ok fb ↔ 8 ≤ info.bitsPerPixel.toNat ∧
      fb = ⟨⟨info.framebuffer.toNat, info.height.toNat * info.bytesPerScanline.toNat, .reserved⟩,
        info.width.toNat, info.height.toNat, info.bitsPerPixel.toNat / 8,
        info.bytesPerScanline.toNat / (info.bitsPerPixel.toNat / 8), info.getPixelFormat⟩ := by
  have hsize : info.height.toNat * info.bytesPerScanline.toNat < 2 ^ 64 := by
    have hpixels := pixels_lt info.height info.bytesPerScanline
    omega
  rw [VbeModeInfo.toFramebufferInfo, Checked.mul_of_lt hsize, Checked.ok_bind, Checked.bind_eq_ok]
  constructor
  · intro h
    obtain ⟨stride, hstride, hret⟩ := h
    obtain ⟨hpos, rfl⟩ := Checked.div_eq_ok.mp hstride
    exact ⟨by omega, (Except.ok.inj hret).symm⟩
  · intro h
    exact ⟨_, Checked.div_of_pos (by omega), congrArg Except.ok h.2.symm⟩

/-- Pixel `x` of row `y` ends inside `height` rows of the pitch. -/
theorem pixel_end_le {x y width height stride bytes pitch : Nat} (hx : x < width)
    (hy : y < height) (hstride : width ≤ stride) (hpitch : stride * bytes ≤ pitch) :
    (y * stride + x) * bytes + bytes ≤ height * pitch := by
  calc (y * stride + x) * bytes + bytes = (y * stride + x + 1) * bytes := by
        rw [Nat.succ_mul]
    _ ≤ ((y + 1) * stride) * bytes := by
        apply Nat.mul_le_mul_right
        rw [Nat.succ_mul]
        omega
    _ = (y + 1) * (stride * bytes) := Nat.mul_assoc _ _ _
    _ ≤ height * pitch := Nat.mul_le_mul hy hpitch

/-- With scan lines that have room, a description is usable exactly for whole bytes. -/
theorem usable_iff_wholeBytes {info : VbeModeInfo}
    (hpitch : info.width.toNat * info.pixelBytes ≤ info.bytesPerScanline.toNat) :
    Usable info ↔ WholeBytes info := by
  constructor
  · intro h
    obtain ⟨fb, hfb, hcovers⟩ := h
    obtain ⟨hbyte, rfl⟩ := toFramebufferInfo_eq_ok.mp hfb
    have hpixel := hcovers.pixel
    simp only at hpixel
    exact ⟨by omega, by omega⟩
  · intro h
    obtain ⟨hpos, hwhole⟩ := h
    have hbytes : info.pixelBytes = info.bitsPerPixel.toNat / 8 := by
      unfold VbeModeInfo.pixelBytes
      omega
    have hbyte : 0 < info.bitsPerPixel.toNat / 8 := by omega
    have hrow : info.width.toNat ≤
        info.bytesPerScanline.toNat / (info.bitsPerPixel.toNat / 8) := by
      rw [Nat.le_div_iff_mul_le hbyte, ← hbytes]
      exact hpitch
    refine ⟨_, toFramebufferInfo_eq_ok.mpr ⟨by omega, rfl⟩, ?_, hrow, ?_⟩
    · simp only
      omega
    · intro x hx y hy i hi
      simp only at hi ⊢
      have hend := pixel_end_le hx hy hrow
        (Nat.div_mul_le_self info.bytesPerScanline.toNat (info.bitsPerPixel.toNat / 8))
      simp only [MemoryRegion.Holds, MemoryRegion.start, MemoryRegion.size]
      omega

/-- For every memory with its modes, all replies of the BIOS and every request: a mode that
the search returns has a usable framebuffer exactly if its depth is a whole number of bytes. -/
theorem usable_iff_of_selected {bios : VbeBios} {width height : UInt16} {depth : UInt8}
    {vbe : VbeInfo} {memory : ByteMemory} {mode : UInt16} {info : VbeModeInfo}
    (hselected : Selected bios width height depth vbe memory mode info) :
    Usable info ↔ WholeBytes info :=
  usable_iff_wholeBytes hselected.pitch

theorem usable_iff_of_selected_twoModes :
    Selected twoModesBios 1280 1024 24 twoModes twoModesMemory 0x11b (twoModesBios 0x11b).block ∧
      (Usable (twoModesBios 0x11b).block ↔ WholeBytes (twoModesBios 0x11b).block) := by
  have hselected : Selected twoModesBios 1280 1024 24 twoModes twoModesMemory 0x11b
      (twoModesBios 0x11b).block := by
    refine ⟨?_, by decide, by decide⟩
    rw [getBestMode_eq modeList_twoModes]
    rfl
  exact ⟨hselected, usable_iff_of_selected hselected⟩

def highColour : VbeModeInfo := ⟨0x9b, 2560, 1280, 1024, 15, 6, 10, 5, 0, 0xfd000000⟩

def highColourMemory : ByteMemory := ByteMemory.store (fun _ => 0) 0x8000 [0x19, 0x01, 0xff, 0xff]

theorem modeList_highColour : ModeList twoModes highColourMemory [0x119] :=
  ⟨by decide, by decide, by decide, by decide, by decide⟩

theorem not_usable_highColour :
    ModeList twoModes highColourMemory [0x119] ∧
      Selected (fun _ => ⟨vesaSuccess, highColour⟩) 1280 1024 24 twoModes highColourMemory 0x119
        highColour ∧ ¬ Usable highColour := by
  refine ⟨modeList_highColour, ⟨?_, rfl, by decide⟩, ?_⟩
  · rw [getBestMode_eq modeList_highColour]
    rfl
  · intro h
    obtain ⟨fb, hfb, hcovers⟩ := h
    obtain ⟨_, rfl⟩ := toFramebufferInfo_eq_ok.mp hfb
    exact absurd hcovers.pixel (by decide)

/-! ## Stage 2 -/

theorem expect_toOption_eq_ok {ε α : Type _} {message : String} {x : Except ε α} {a : α} :
    Checked.expect message x.toOption = .ok a ↔ x = .ok a := by
  cases x <;> simp [Checked.expect, Except.toOption]

/-- What stage 2 hands over describes the mode that the search returned, and covers its
pixels if the scan lines have room and the depth is a whole number of bytes. -/
theorem startVideo_covers {bios : VideoBios} {memory : ByteMemory} {fb : FramebufferInfo}
    (h : startVideo bios memory = .ok fb) :
    ∃ mode info, VbeInfo.getBestMode bios.modes 1280 1024 24 bios.controller memory =
        .ok (some mode) ∧ VbeModeInfo.get bios.modes mode = .ok info ∧
      (info.width.toNat * info.pixelBytes ≤ info.bytesPerScanline.toNat → WholeBytes info →
        fb.Covers info) := by
  obtain ⟨vbe, hvbe, h⟩ := Checked.bind_eq_ok.mp h
  obtain ⟨best, hbest, h⟩ := Checked.bind_eq_ok.mp h
  obtain ⟨mode, hmode, h⟩ := Checked.bind_eq_ok.mp h
  obtain ⟨info, hinfo, h⟩ := Checked.bind_eq_ok.mp h
  obtain ⟨_, _, hfb⟩ := Checked.bind_eq_ok.mp h
  have hcontroller : bios.controller = vbe := by
    have hget := expect_toOption_eq_ok.mp hvbe
    unfold VbeInfo.get at hget
    split at hget
    · exact Except.ok.inj hget
    · cases hget
  obtain rfl := Checked.expect_eq_ok.mp hmode
  refine ⟨mode, info, hcontroller ▸ hbest, expect_toOption_eq_ok.mp hinfo, ?_⟩
  intro hpitch hwhole
  obtain ⟨fb', hfb', hcovers⟩ := (usable_iff_wholeBytes hpitch).mpr hwhole
  obtain rfl : fb' = fb := Except.ok.inj (hfb'.symm.trans hfb)
  exact hcovers

end MiniatureOs
