import MiniatureOs.Memory.Region

/-! # The bump frame allocator

`x86_64/src/paging/bump_frame_allocator.rs`. The allocator keeps the remaining
regions of the memory map and the number of calls made so far; every call walks
the map again and takes the frame with that index. The iterators of the source
are lazy, so the end of a region is computed (and can overflow) only when the
walk reaches the region.
-/

namespace MiniatureOs

open MemoryRegion

/-- `FrameAllocator<Size4KiB>`: a call returns a frame or `None`, or panics. -/
class FrameAllocator (A : Type) where
  allocateFrame : A → Checked (Option (PhysicalFrame .size4KiB) × A)

structure BumpFrameAllocator (D : Type) where
  memoryMap : List D
  next : Nat
  deriving Repr, DecidableEq

namespace BumpFrameAllocator

variable {D : Type} [MemoryRegion D]

/-- `BumpFrameAllocator::new`. -/
def new (memoryMap : List D) : BumpFrameAllocator D :=
  ⟨memoryMap, 0⟩

/-- The `while let` loop of `new_starting_at`: regions are dropped until one
contains the frame, and that one is moved to begin at the frame. -/
def newStartingAt (frame : PhysicalFrame .size4KiB) : List D → Checked (BumpFrameAllocator D)
  | [] => .ok ⟨[], 0⟩
  | region :: rest => do
      if ← contains region frame.address then
        if isUsable region then
          return ⟨setStart region frame.address :: rest, 0⟩
        else
          throw (.message "Tried to initialize allocator at unusable address")
      else
        newStartingAt frame rest

/-- Number of addresses in `(first..last).step_by(0x1000)`. -/
def stepCount (first last : Nat) : Nat :=
  (last - first + 0xfff) / 0x1000

/-- `usable_frames().nth(index)`. -/
def nthUsableFrame : List D → Nat → Checked (Option (PhysicalFrame .size4KiB))
  | [], _ => .ok none
  | region :: rest, index =>
      if isUsable region then do
        let last ← endAddress region
        let count := stepCount (start region) last
        if index < count then
          return some (.containingAddress .size4KiB (start region + index * 0x1000))
        else
          nthUsableFrame rest (index - count)
      else
        nthUsableFrame rest index

/-- `allocate_frame`. The counter of calls is a natural number: no run makes
`2 ^ 64` of them. -/
def allocateFrame (allocator : BumpFrameAllocator D) :
    Checked (Option (PhysicalFrame .size4KiB) × BumpFrameAllocator D) := do
  let frame ← nthUsableFrame allocator.memoryMap allocator.next
  return (frame, { allocator with next := allocator.next + 1 })

instance : FrameAllocator (BumpFrameAllocator D) where
  allocateFrame := allocateFrame

def maxPhysicalAddress (allocator : BumpFrameAllocator D) : Checked Nat := do
  let ends ← allocator.memoryMap.mapM endAddress
  Checked.unwrap ends.max?

/-! ## The frames of a map -/

def regionFrames (region : D) : List (PhysicalFrame .size4KiB) :=
  (List.range (stepCount (start region) (start region + size region))).map fun index =>
    .containingAddress .size4KiB (start region + index * 0x1000)

def usableFrames (regions : List D) : List (PhysicalFrame .size4KiB) :=
  (regions.filter (isUsable ·)).flatMap regionFrames

def walkable (region : D) : Bool :=
  !isUsable region || decide (Fits region)

/-- The part of the map before the first usable region whose end overflows. -/
def reachable (regions : List D) : List D :=
  regions.takeWhile walkable

@[simp] theorem regionFrames_length (region : D) :
    (regionFrames region).length = stepCount (start region) (start region + size region) := by
  simp [regionFrames]

theorem usableFrames_cons (region : D) (rest : List D) :
    usableFrames (region :: rest) =
      if isUsable region then regionFrames region ++ usableFrames rest else usableFrames rest := by
  unfold usableFrames
  by_cases h : isUsable region = true
  · simp [h]
  · simp [h]

@[simp] theorem usableFrames_nil : usableFrames ([] : List D) = [] := rfl

theorem usableFrames_append (first second : List D) :
    usableFrames (first ++ second) = usableFrames first ++ usableFrames second := by
  simp [usableFrames]

theorem walkable_iff {region : D} :
    walkable region = true ↔ (isUsable region = true → Fits region) := by
  by_cases h : isUsable region = true
  · simp [walkable, h]
  · simp [walkable, h]

theorem all_walkable_iff {regions : List D} :
    regions.all walkable = true ↔ ∀ r ∈ regions, isUsable r = true → Fits r := by
  simp [List.all_eq_true, walkable_iff]

theorem reachable_of_all {regions : List D} (h : regions.all walkable = true) :
    reachable regions = regions := by
  induction regions with
  | nil => rfl
  | cons region rest ih =>
      simp only [List.all_cons, Bool.and_eq_true] at h
      simp only [reachable, List.takeWhile_cons, h.1, if_true, List.cons.injEq, true_and]
      exact ih h.2

/-- The walk in closed form: it reads off the frames of the reachable part, and
behind them it ends with `None` or stops at the overflowing end. -/
theorem nthUsableFrame_eq (regions : List D) (index : Nat) :
    nthUsableFrame regions index =
      match (usableFrames (reachable regions))[index]? with
      | some frame => .ok (some frame)
      | none => if regions.all walkable then .ok none else .error .overflow := by
  induction regions generalizing index with
  | nil => simp [nthUsableFrame, reachable]
  | cons region rest ih =>
      by_cases hwalk : walkable region = true
      · have hreach : reachable (region :: rest) = region :: reachable rest := by
          simp [reachable, hwalk]
        rw [hreach, usableFrames_cons]
        by_cases husable : isUsable region = true
        · have hfits := walkable_iff.mp hwalk husable
          simp only [nthUsableFrame, husable, if_true, endAddress_of_fits hfits, Checked.ok_bind]
          by_cases hindex : index < stepCount (start region) (start region + size region)
          · rw [List.getElem?_append_left (by simpa using hindex)]
            simp [hindex, regionFrames]
          · rw [List.getElem?_append_right (by simpa using hindex)]
            simp [hindex, ih, hwalk]
        · simp [nthUsableFrame, husable, ih, hwalk]
      · -- the first region that cannot be walked: nothing of the map is reachable
        have hstop : isUsable region = true ∧ ¬ Fits region := by
          simpa [walkable_iff] using hwalk
        simp [nthUsableFrame, reachable, hwalk, hstop.1, endAddress_of_not_fits hstop.2]

/-- A map whose usable regions all fit is walked without a panic. -/
theorem nthUsableFrame_of_fits {regions : List D}
    (h : ∀ r ∈ regions, isUsable r = true → Fits r) (index : Nat) :
    nthUsableFrame regions index = .ok (usableFrames regions)[index]? := by
  have hall := all_walkable_iff.mpr h
  rw [nthUsableFrame_eq, reachable_of_all hall]
  cases (usableFrames regions)[index]? <;> simp [hall]

end BumpFrameAllocator

end MiniatureOs
