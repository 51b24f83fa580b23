import MiniatureOs.Frames.Bump
import Mathlib.Data.List.Nodup
import Mathlib.Data.List.Pairwise

/-! # The frame allocator contract

A `FrameAllocator` must return each frame once and only unused memory. For a
map of disjoint regions the bump allocator keeps this contract exactly when the
usable regions it walks begin and end on page boundaries: the walk steps from
the region's own start and rounds down afterwards, so an unaligned region gives
a frame that sticks out of it.
-/

namespace MiniatureOs

open MemoryRegion

namespace BumpFrameAllocator

variable {D : Type} [MemoryRegion D]

def DisjointRegions (regions : List D) : Prop :=
  regions.Pairwise fun first second => ∀ byte, Holds first byte → ¬ Holds second byte

def FrameInside (frame : PhysicalFrame .size4KiB) (region : D) : Prop :=
  start region ≤ frame.address ∧ frame.address + 0x1000 ≤ start region + size region

/-- The frames that the first `calls` calls return. A panic ends the run. -/
def returned : Nat → BumpFrameAllocator D → List (PhysicalFrame .size4KiB)
  | 0, _ => []
  | calls + 1, allocator =>
      match allocator.allocateFrame with
      | .ok (some frame, next) => frame :: returned calls next
      | .ok (none, next) => returned calls next
      | .error _ => []

/-- The contract over whole runs: unique frames, each inside a usable region. -/
def KeepsContract (regions : List D) : Prop :=
  ∀ calls,
    (returned calls (new regions)).Nodup ∧
    ∀ frame ∈ returned calls (new regions),
      ∃ region ∈ regions, isUsable region = true ∧ FrameInside frame region

/-! ## Runs read off the walk -/

theorem allocateFrame_of_some {allocator : BumpFrameAllocator D}
    {frame : PhysicalFrame .size4KiB}
    (h : (usableFrames (reachable allocator.memoryMap))[allocator.next]? = some frame) :
    allocator.allocateFrame =
      .ok (some frame, { allocator with next := allocator.next + 1 }) := by
  simp [allocateFrame, nthUsableFrame_eq, h]

theorem returned_of_none (calls : Nat) {allocator : BumpFrameAllocator D}
    (h : (usableFrames (reachable allocator.memoryMap)).length ≤ allocator.next) :
    returned calls allocator = [] := by
  induction calls generalizing allocator with
  | zero => rfl
  | succ calls ih =>
      have hnone : (usableFrames (reachable allocator.memoryMap))[allocator.next]? = none :=
        List.getElem?_eq_none h
      by_cases hall : allocator.memoryMap.all walkable = true
      · have hnext := @ih { allocator with next := allocator.next + 1 } (Nat.le_succ_of_le h)
        simp only [returned, allocateFrame, nthUsableFrame_eq, hnone, hall, if_true]
        exact hnext
      · simp [returned, allocateFrame, nthUsableFrame_eq, hnone, hall]

theorem returned_eq (calls : Nat) (allocator : BumpFrameAllocator D) :
    returned calls allocator =
      ((usableFrames (reachable allocator.memoryMap)).drop allocator.next).take calls := by
  induction calls generalizing allocator with
  | zero => simp [returned]
  | succ calls ih =>
      cases hframe : (usableFrames (reachable allocator.memoryMap))[allocator.next]? with
      | some frame =>
          have hlt := (List.getElem?_eq_some_iff.mp hframe).choose
          have hget := (List.getElem?_eq_some_iff.mp hframe).choose_spec
          rw [List.drop_eq_getElem_cons hlt, List.take_succ_cons, hget]
          simp only [returned, allocateFrame_of_some hframe]
          rw [ih]
      | none =>
          have hle := List.getElem?_eq_none_iff.mp hframe
          rw [returned_of_none _ hle, List.drop_eq_nil_of_le hle, List.take_nil]

theorem returned_new (calls : Nat) (regions : List D) :
    returned calls (new regions) = (usableFrames (reachable regions)).take calls := by
  simp [returned_eq, new]

/-- Enough calls return every frame of the walk, so the contract is a statement
about one list. -/
theorem keepsContract_iff_frames (regions : List D) :
    KeepsContract regions ↔
      (usableFrames (reachable regions)).Nodup ∧
      ∀ frame ∈ usableFrames (reachable regions),
        ∃ region ∈ regions, isUsable region = true ∧ FrameInside frame region := by
  constructor
  · intro h
    have hfull := h (usableFrames (reachable regions)).length
    rwa [returned_new, List.take_length] at hfull
  · intro h calls
    obtain ⟨hnodup, hinside⟩ := h
    rw [returned_new]
    exact ⟨hnodup.sublist (List.take_sublist _ _),
      fun frame hframe => hinside frame (List.mem_of_mem_take hframe)⟩

theorem mem_usableFrames {regions : List D} {frame : PhysicalFrame .size4KiB} :
    frame ∈ usableFrames regions ↔
      ∃ region ∈ regions, isUsable region = true ∧ frame ∈ regionFrames region := by
  simp only [usableFrames, List.mem_flatMap, List.mem_filter, and_assoc]

theorem mem_regionFrames {region : D} {frame : PhysicalFrame .size4KiB} :
    frame ∈ regionFrames region ↔
      ∃ index, index < stepCount (start region) (start region + size region) ∧
        frame = .containingAddress .size4KiB (start region + index * 0x1000) := by
  simp only [regionFrames, List.mem_map, List.mem_range, eq_comm]

/-! ## Aligned regions keep the contract -/

theorem stepCount_of_aligned {region : D} (h : PageAligned region) :
    stepCount (start region) (start region + size region) = size region / 0x1000 := by
  have hsize := h.2
  unfold stepCount
  omega

theorem stepCount_of_empty {region : D} (h : size region = 0) :
    stepCount (start region) (start region + size region) = 0 := by
  simp [stepCount, h]

/-- In an aligned region the walk's addresses are frames already. -/
theorem mem_regionFrames_of_aligned {region : D} (h : PageAligned region)
    {frame : PhysicalFrame .size4KiB} :
    frame ∈ regionFrames region ↔ FrameInside frame region := by
  rw [mem_regionFrames, stepCount_of_aligned h]
  have hstart := h.1
  have hsize := h.2
  constructor
  · rintro ⟨index, hindex, rfl⟩
    have haddr : (start region + index * 0x1000) % 0x1000 = 0 := by omega
    simp only [FrameInside, PhysicalFrame.containingAddress_address, PageSize.size,
      alignDown_of_mod haddr]
    omega
  · intro hinside
    obtain ⟨hlow, hhigh⟩ := hinside
    have haligned : frame.address % 0x1000 = 0 := frame.aligned
    refine ⟨(frame.address - start region) / 0x1000, by omega, ?_⟩
    ext
    have haddr : start region + (frame.address - start region) / 0x1000 * 0x1000 =
        frame.address := by omega
    rw [haddr]
    exact (alignDown_of_mod haligned).symm

theorem regionFrames_nodup_of_aligned {region : D} (h : PageAligned region) :
    (regionFrames region).Nodup := by
  have hstart := h.1
  have haddr : ∀ index, (start region + index * 0x1000) % 0x1000 = 0 := by
    intro index
    omega
  refine List.Nodup.map_on ?_ List.nodup_range
  intro i _ j _ heq
  have hsame := congrArg PhysicalFrame.address heq
  simp only [PhysicalFrame.containingAddress_address, PageSize.size,
    alignDown_of_mod (haddr _)] at hsame
  exact Nat.eq_of_mul_eq_mul_right (by decide) (Nat.add_left_cancel hsame)

/-- An empty region contributes no frame, whatever its start. -/
theorem regionFrames_of_empty {region : D} (h : size region = 0) :
    regionFrames region = [] := by
  simp [regionFrames, stepCount_of_empty h]

theorem usableFrames_nodup {regions : List D} (hdisjoint : DisjointRegions regions)
    (haligned : ∀ r ∈ regions, isUsable r = true → 0 < size r → PageAligned r) :
    (usableFrames regions).Nodup := by
  unfold usableFrames
  rw [List.nodup_flatMap]
  constructor
  · intro region hregion
    obtain ⟨hmem, husable⟩ := List.mem_filter.mp hregion
    rcases Nat.eq_zero_or_pos (size region) with hzero | hpos
    · simp [regionFrames_of_empty hzero]
    · exact regionFrames_nodup_of_aligned (haligned region hmem husable hpos)
  · refine List.Pairwise.imp_of_mem ?_ (hdisjoint.filter (isUsable ·))
    intro first second hfirst hsecond hapart frame hmem₁ hmem₂
    obtain ⟨hfirst, husable₁⟩ := List.mem_filter.mp hfirst
    obtain ⟨hsecond, husable₂⟩ := List.mem_filter.mp hsecond
    have hpos₁ : 0 < size first := by
      by_contra hzero
      simp [regionFrames_of_empty (Nat.eq_zero_of_not_pos hzero)] at hmem₁
    have hpos₂ : 0 < size second := by
      by_contra hzero
      simp [regionFrames_of_empty (Nat.eq_zero_of_not_pos hzero)] at hmem₂
    obtain ⟨hlow₁, hhigh₁⟩ := (mem_regionFrames_of_aligned
      (haligned first hfirst husable₁ hpos₁)).mp hmem₁
    obtain ⟨hlow₂, hhigh₂⟩ := (mem_regionFrames_of_aligned
      (haligned second hsecond husable₂ hpos₂)).mp hmem₂
    exact hapart frame.address ⟨hlow₁, by omega⟩ ⟨hlow₂, by omega⟩

/-! ## Contained frames force aligned regions -/

theorem DisjointRegions.eq_of_holds {regions : List D} (h : DisjointRegions regions)
    {first second : D} (hfirst : first ∈ regions) (hsecond : second ∈ regions)
    {byte : Nat} (hbyte₁ : Holds first byte) (hbyte₂ : Holds second byte) :
    first = second := by
  by_contra hne
  have : Std.Symm fun a b : D => ∀ byte, Holds a byte → ¬ Holds b byte :=
    ⟨fun _ _ hab byte hb ha => hab byte ha hb⟩
  exact h.forall hfirst hsecond hne byte hbyte₁ hbyte₂

/-- The frame around a walked address lies in the region only if its own bytes
do, so the address is a page boundary with a whole page behind it. -/
theorem frame_of_walked_address {regions : List D} (hdisjoint : DisjointRegions regions)
    (hinside : ∀ frame ∈ usableFrames (reachable regions),
      ∃ region ∈ regions, isUsable region = true ∧ FrameInside frame region)
    {region : D} (hregion : region ∈ reachable regions) (husable : isUsable region = true)
    {index : Nat} (hindex : index < stepCount (start region) (start region + size region)) :
    FrameInside (.containingAddress .size4KiB (start region + index * 0x1000)) region := by
  have hmem : PhysicalFrame.containingAddress .size4KiB (start region + index * 0x1000) ∈
      usableFrames (reachable regions) :=
    mem_usableFrames.mpr ⟨region, hregion, husable, mem_regionFrames.mpr ⟨index, hindex, rfl⟩⟩
  obtain ⟨other, hother, -, hin⟩ := hinside _ hmem
  have hle := alignDown_le (start region + index * 0x1000) 0x1000
  have hlt := @lt_alignDown_add (start region + index * 0x1000) 0x1000 (by decide)
  have hwalked : start region + index * 0x1000 < start region + size region := by
    unfold stepCount at hindex
    omega
  have hsame : other = region := by
    have hbyte : Holds other (start region + index * 0x1000) := by
      obtain ⟨hlow, hhigh⟩ := hin
      simp only [PhysicalFrame.containingAddress_address, PageSize.size] at hlow hhigh
      exact ⟨by omega, by omega⟩
    exact hdisjoint.eq_of_holds hother ((List.takeWhile_sublist _).subset hregion) hbyte
      ⟨by omega, hwalked⟩
  rw [← hsame]
  simpa [hsame] using hin

theorem aligned_of_frames_inside {regions : List D} (hdisjoint : DisjointRegions regions)
    (hinside : ∀ frame ∈ usableFrames (reachable regions),
      ∃ region ∈ regions, isUsable region = true ∧ FrameInside frame region)
    {region : D} (hregion : region ∈ reachable regions) (husable : isUsable region = true)
    (hpos : 0 < size region) : PageAligned region := by
  have hcount : 0 < stepCount (start region) (start region + size region) := by
    unfold stepCount
    omega
  -- the first frame shows that the start is a boundary, the last one that the end is
  obtain ⟨hlow, -⟩ := frame_of_walked_address hdisjoint hinside hregion husable hcount
  have hle := alignDown_le (start region + 0 * 0x1000) 0x1000
  have hmod := alignDown_mod (start region + 0 * 0x1000) 0x1000
  simp only [PhysicalFrame.containingAddress_address, PageSize.size] at hlow
  have hstart : start region % 0x1000 = 0 := by
    have heq : alignDown (start region + 0 * 0x1000) 0x1000 = start region := by omega
    rwa [heq] at hmod
  have hlast : stepCount (start region) (start region + size region) - 1 <
      stepCount (start region) (start region + size region) := by omega
  obtain ⟨-, hhigh⟩ := frame_of_walked_address hdisjoint hinside hregion husable hlast
  have haddr : (start region +
      (stepCount (start region) (start region + size region) - 1) * 0x1000) % 0x1000 = 0 := by
    omega
  simp only [PhysicalFrame.containingAddress_address, PageSize.size,
    alignDown_of_mod haddr] at hhigh
  unfold stepCount at hhigh hcount
  exact ⟨hstart, by omega⟩

/-- For disjoint regions the allocator keeps its contract over every number of
calls exactly when each non-empty usable region it can walk is page-aligned. -/
theorem keepsContract_iff_aligned (regions : List D) (hdisjoint : DisjointRegions regions) :
    KeepsContract regions ↔
      ∀ region ∈ reachable regions,
        isUsable region = true → 0 < size region → PageAligned region := by
  rw [keepsContract_iff_frames]
  constructor
  · intro h region hregion husable hpos
    obtain ⟨_, hinside⟩ := h
    exact aligned_of_frames_inside hdisjoint hinside hregion husable hpos
  · intro haligned
    have hsub : (reachable regions).Sublist regions := List.takeWhile_sublist _
    refine ⟨usableFrames_nodup (hdisjoint.sublist hsub) haligned, ?_⟩
    intro frame hframe
    obtain ⟨region, hregion, husable, hmem⟩ := mem_usableFrames.mp hframe
    have hpos : 0 < size region := by
      by_contra hzero
      simp [regionFrames_of_empty (Nat.eq_zero_of_not_pos hzero)] at hmem
    exact ⟨region, hsub.subset hregion, husable,
      (mem_regionFrames_of_aligned (haligned region hregion husable hpos)).mp hmem⟩

theorem disjointRegions_of_ends_le {regions : List D}
    (h : regions.Pairwise fun first second => start first + size first ≤ start second) :
    DisjointRegions regions := by
  refine h.imp fun {first second} hends byte hfirst hsecond => ?_
  have hlast := hfirst.2
  have hfirst' := hsecond.1
  omega

def usableAroundReserved : List E820MemoryRegion :=
  [⟨0x1000, 0x3000, .normal, 0⟩, ⟨0x4000, 0x400, .reserved, 0⟩, ⟨0x8000, 0x5000, .normal, 0⟩]

theorem keepsContract_usableAroundReserved :
    (returned 9 (new usableAroundReserved)).map (·.address) =
        [0x1000, 0x2000, 0x3000, 0x8000, 0x9000, 0xa000, 0xb000, 0xc000] ∧
      KeepsContract usableAroundReserved :=
  ⟨by decide, (keepsContract_iff_aligned _ (disjointRegions_of_ends_le (by decide))).mpr
    (by decide)⟩

/-- Two usable regions that share a page: its frame is returned twice and lies
in neither. -/
theorem not_keepsContract_of_shared_page :
    DisjointRegions
      [(⟨0x1000, 0x800, .normal, 0⟩ : E820MemoryRegion), ⟨0x1800, 0x800, .normal, 0⟩] ∧
    ¬ KeepsContract
      [(⟨0x1000, 0x800, .normal, 0⟩ : E820MemoryRegion), ⟨0x1800, 0x800, .normal, 0⟩] := by
  constructor
  · exact disjointRegions_of_ends_le (by decide)
  · intro h
    exact absurd (h 2).1 (by decide)

end BumpFrameAllocator

end MiniatureOs
