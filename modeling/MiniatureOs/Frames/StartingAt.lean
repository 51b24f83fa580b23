import MiniatureOs.Frames.Contract

/-! # Starting the bump allocator inside the map

`new_starting_at` drops the regions in front of a frame and moves the start of
the region that contains it. The size of that region stays, so its end moves
along, and the containment test is inclusive, so the region in front of a
boundary is taken for the one behind it. The allocator therefore enumerates the
frames from the given one on exactly when the first region that reaches the
frame is usable and starts there.
-/

namespace MiniatureOs

open MemoryRegion

namespace BumpFrameAllocator

variable {D : Type} [MemoryRegion D]

def SortedRegions (regions : List D) : Prop :=
  regions.Pairwise fun first second => start first ≤ start second

def pageFrames (region : D) : List (PhysicalFrame .size4KiB) :=
  (List.range (size region / 0x1000)).map fun index =>
    .containingAddress .size4KiB (start region + index * 0x1000)

def framesFrom (frame : PhysicalFrame .size4KiB) (regions : List D) :
    List (PhysicalFrame .size4KiB) :=
  ((regions.filter (isUsable ·)).flatMap pageFrames).filter fun other =>
    decide (frame.address ≤ other.address)

/-- The result of call number `index` in a run of successive calls. -/
def call : Nat → BumpFrameAllocator D → Checked (Option (PhysicalFrame .size4KiB))
  | 0, allocator => do
      let (frame, _) ← allocator.allocateFrame
      return frame
  | index + 1, allocator => do
      let (_, next) ← allocator.allocateFrame
      call index next

/-- Construction returns, and the calls enumerate the usable frames from the
given one on, in increasing order, and then return `None`. -/
def EnumeratesFrom (frame : PhysicalFrame .size4KiB) (regions : List D) : Prop :=
  (framesFrom frame regions).Pairwise (fun first second => first.address < second.address) ∧
  ∃ allocator, newStartingAt frame regions = .ok allocator ∧
    ∀ index, call index allocator = .ok (framesFrom frame regions)[index]?

/-- The first region that reaches the frame is usable and starts at it, and no
usable region runs past the end of the address space. -/
def StartsRegion (frame : PhysicalFrame .size4KiB) (regions : List D) : Prop :=
  (∃ region, regions.find? (fun r => decide (Reaches r frame.address)) = some region ∧
    isUsable region = true ∧ start region = frame.address) ∧
  ∀ region ∈ regions, isUsable region = true → Fits region

/-! ## Successive calls -/

theorem nthUsableFrame_of_call {index : Nat} {allocator : BumpFrameAllocator D}
    {result : Option (PhysicalFrame .size4KiB)} (h : call index allocator = .ok result) :
    nthUsableFrame allocator.memoryMap (allocator.next + index) = .ok result := by
  induction index generalizing allocator with
  | zero =>
      simp only [call, allocateFrame, Checked.bind_eq_ok] at h
      obtain ⟨_, ⟨frame, hframe, hpair⟩, hresult⟩ := h
      cases hpair
      cases hresult
      simpa using hframe
  | succ index ih =>
      simp only [call, allocateFrame, Checked.bind_eq_ok] at h
      obtain ⟨_, ⟨frame, _, hpair⟩, hcall⟩ := h
      cases hpair
      have hnext := ih hcall
      rwa [Nat.add_right_comm, Nat.add_assoc] at hnext

theorem call_of_fits {allocator : BumpFrameAllocator D}
    (h : ∀ r ∈ allocator.memoryMap, isUsable r = true → Fits r) (index : Nat) :
    call index allocator = .ok (usableFrames allocator.memoryMap)[allocator.next + index]? := by
  induction index generalizing allocator with
  | zero => simp [call, allocateFrame, nthUsableFrame_of_fits h]
  | succ index ih =>
      have hnext := @ih { allocator with next := allocator.next + 1 } h
      simp only [call, allocateFrame, nthUsableFrame_of_fits h, Checked.ok_bind,
        Checked.pure_eq_ok, hnext]
      congr 2
      omega

/-- Calls that never panic and follow a list walk a map whose usable frames are
that list. -/
theorem usableFrames_of_calls {regions : List D} {frames : List (PhysicalFrame .size4KiB)}
    (h : ∀ index, call index (new regions) = .ok frames[index]?) :
    (∀ r ∈ regions, isUsable r = true → Fits r) ∧ usableFrames regions = frames := by
  have hwalk : ∀ index, nthUsableFrame regions index = .ok frames[index]? := by
    intro index
    simpa [new] using nthUsableFrame_of_call (h index)
  have hfits : ∀ r ∈ regions, isUsable r = true → Fits r := by
    rw [← all_walkable_iff]
    by_contra hall
    -- behind the reachable frames the walk would stop at the overflowing end
    have hend := hwalk (usableFrames (reachable regions)).length
    rw [nthUsableFrame_eq, List.getElem?_eq_none (Nat.le_refl _)] at hend
    simp [hall] at hend
  refine ⟨hfits, List.ext_getElem? fun index => ?_⟩
  have hindex := hwalk index
  rw [nthUsableFrame_of_fits hfits] at hindex
  exact Except.ok.inj hindex

/-! ## The search for the frame -/

theorem newStartingAt_split {frame : PhysicalFrame .size4KiB} {before after : List D} {region : D}
    (hbefore : ∀ r ∈ before, contains r frame.address = .ok false)
    (hregion : contains region frame.address = .ok true) (husable : isUsable region = true) :
    newStartingAt frame (before ++ region :: after) =
      .ok (new (setStart region frame.address :: after)) := by
  induction before with
  | nil => simp [newStartingAt, hregion, husable, new]
  | cons first rest ih =>
      have hfirst := hbefore first List.mem_cons_self
      have hrest := ih fun r hr => hbefore r (List.mem_cons_of_mem first hr)
      simpa [newStartingAt, hfirst] using hrest

/-- A search that returns either found a usable region or dropped the map. -/
theorem newStartingAt_cases {frame : PhysicalFrame .size4KiB} {regions : List D}
    {allocator : BumpFrameAllocator D} (h : newStartingAt frame regions = .ok allocator) :
    (∃ before region after, regions = before ++ region :: after ∧
      (∀ r ∈ before, contains r frame.address = .ok false) ∧
      contains region frame.address = .ok true ∧ isUsable region = true ∧
      allocator = new (setStart region frame.address :: after)) ∨
    ((∀ r ∈ regions, contains r frame.address = .ok false) ∧ allocator = new []) := by
  induction regions with
  | nil => exact .inr ⟨by simp, (Except.ok.inj h).symm⟩
  | cons first rest ih =>
      simp only [newStartingAt, Checked.bind_eq_ok] at h
      obtain ⟨found, hfound, h⟩ := h
      cases found with
      | true =>
          by_cases husable : isUsable first = true
          · refine .inl ⟨[], first, rest, rfl, by simp, hfound, husable, ?_⟩
            simpa [husable, new, eq_comm] using h
          · simp [husable, throw, throwThe, MonadExceptOf.throw] at h
      | false =>
          rcases ih (by simpa using h) with
            ⟨before, region, after, rfl, hbefore, hrest⟩ | ⟨hnone, hempty⟩
          · refine .inl ⟨first :: before, region, after, rfl, ?_, hrest⟩
            exact List.forall_mem_cons.mpr ⟨hfound, hbefore⟩
          · exact .inr ⟨List.forall_mem_cons.mpr ⟨hfound, hnone⟩, hempty⟩

theorem not_reaches_of_contains_false {region : D} {address : Nat}
    (h : contains region address = .ok false) : ¬ Reaches region address := by
  intro hreaches
  obtain ⟨hlow, hhigh⟩ := hreaches
  rcases contains_eq_false.mp h with hstart | ⟨_, hend⟩ <;> omega

/-! ## The expected frames of a split map -/

theorem pageFrames_eq_regionFrames {region : D} (h : PageAligned region) :
    pageFrames region = regionFrames region := by
  rw [pageFrames, regionFrames, stepCount_of_aligned h]

theorem framesFrom_eq {frame : PhysicalFrame .size4KiB} {regions : List D}
    (haligned : ∀ r ∈ regions, PageAligned r) :
    framesFrom frame regions =
      (usableFrames regions).filter fun other => decide (frame.address ≤ other.address) := by
  have hpages : (regions.filter (isUsable ·)).flatMap pageFrames =
      (regions.filter (isUsable ·)).flatMap regionFrames := by
    refine List.flatMap_congr fun r hr => ?_
    exact pageFrames_eq_regionFrames (haligned r (List.mem_filter.mp hr).1)
  rw [framesFrom, hpages, usableFrames]

theorem usableFrames_increasing {regions : List D} (hsorted : SortedRegions regions)
    (hdisjoint : DisjointRegions regions) (haligned : ∀ r ∈ regions, PageAligned r) :
    (usableFrames regions).Pairwise fun first second => first.address < second.address := by
  unfold usableFrames
  rw [List.pairwise_flatMap]
  constructor
  · intro region hregion
    have hstart := (haligned region (List.mem_filter.mp hregion).1).1
    have haddr : ∀ index, (start region + index * 0x1000) % 0x1000 = 0 := by
      intro index
      omega
    unfold regionFrames
    rw [List.pairwise_map]
    refine List.pairwise_lt_range.imp fun {i j} hij => ?_
    simp only [PhysicalFrame.containingAddress_address, PageSize.size, alignDown_of_mod (haddr _)]
    omega
  · refine List.Pairwise.imp_of_mem ?_ ((hsorted.and hdisjoint).filter (isUsable ·))
    intro first second hfirst hsecond hpair frame₁ hframe₁ frame₂ hframe₂
    have hle := hpair.1
    have hapart := hpair.2
    have hin₁ := (mem_regionFrames_of_aligned (haligned first
      (List.mem_filter.mp hfirst).1)).mp hframe₁
    have hin₂ := (mem_regionFrames_of_aligned (haligned second
      (List.mem_filter.mp hsecond).1)).mp hframe₂
    -- the second region starts behind the first, or its first byte would be shared
    have hbehind : start first + size first ≤ start second := by
      by_contra hinside
      exact hapart (start second) ⟨hle, by omega⟩
        ⟨Nat.le_refl _, by have := hin₂.1; have := hin₂.2; omega⟩
    have := hin₁.2
    have := hin₂.1
    omega

section Split

variable {frame : PhysicalFrame .size4KiB} {before after : List D} {region : D}

theorem filter_before_eq_nil (haligned : ∀ r ∈ before, PageAligned r)
    (hsorted : SortedRegions (before ++ region :: after))
    (hreach : start region ≤ frame.address)
    (hbefore : ∀ r ∈ before, ¬ Reaches r frame.address) :
    (usableFrames before).filter (fun other => decide (frame.address ≤ other.address)) = [] := by
  rw [List.filter_eq_nil_iff]
  intro other hother
  obtain ⟨r, hr, -, hmem⟩ := mem_usableFrames.mp hother
  obtain ⟨-, hhigh⟩ := (mem_regionFrames_of_aligned (haligned r hr)).mp hmem
  have hle : start r ≤ start region :=
    (List.pairwise_append.mp hsorted).2.2 r hr region List.mem_cons_self
  have hnot := hbefore r hr
  unfold Reaches at hnot
  simp only [decide_eq_true_eq]
  omega

/-- Moving the start forward adds frames: the expected ones from the region are
fewer than those of the moved region. -/
theorem start_eq_of_frames_eq (haligned : ∀ r ∈ before ++ region :: after, PageAligned r)
    (hsorted : SortedRegions (before ++ region :: after))
    (husable : isUsable region = true) (hreach : Reaches region frame.address)
    (hbefore : ∀ r ∈ before, ¬ Reaches r frame.address)
    (hframes : usableFrames (setStart region frame.address :: after) =
      framesFrom frame (before ++ region :: after)) :
    start region = frame.address := by
  by_contra hne
  have hstart : start region < frame.address := by
    have := hreach.1
    omega
  have hmem : region ∈ before ++ region :: after := by simp
  have hregion := haligned region hmem
  have hpos : 0 < size region / 0x1000 := by
    have hend := hreach.2
    have hmod := frame.aligned
    have hmods := hregion.1
    have hmodz := hregion.2
    simp only [PageSize.size] at hmod
    omega
  have hlength := congrArg List.length hframes
  rw [framesFrom_eq haligned, usableFrames_append, List.filter_append,
    filter_before_eq_nil (fun r hr => haligned r (by simp [hr])) hsorted hreach.1 hbefore,
    usableFrames_cons, usableFrames_cons, if_pos husable,
    if_pos (by simpa using husable)] at hlength
  simp only [List.filter_append, List.nil_append, List.length_append, regionFrames_length,
    start_setStart, size_setStart] at hlength
  have hmoved : stepCount frame.address (frame.address + size region) = size region / 0x1000 := by
    have := hregion.2
    unfold stepCount
    omega
  have hafter : ((usableFrames after).filter
      (fun other => decide (frame.address ≤ other.address))).length ≤
      (usableFrames after).length := List.length_filter_le _ _
  -- the region's own first frame lies below the given one
  have hfewer : ((regionFrames region).filter
      (fun other => decide (frame.address ≤ other.address))).length <
      (regionFrames region).length := by
    rw [List.length_filter_lt_length_iff_exists]
    refine ⟨.containingAddress .size4KiB (start region + 0 * 0x1000),
      mem_regionFrames.mpr ⟨0, by rwa [stepCount_of_aligned hregion], rfl⟩, ?_⟩
    have := alignDown_le (start region + 0 * 0x1000) 0x1000
    have hbelow : ¬ frame.address ≤ alignDown (start region + 0 * 0x1000) 0x1000 := by omega
    simpa [PageSize.size] using hbelow
  rw [regionFrames_length, stepCount_of_aligned hregion] at hfewer
  omega

/-- A region that starts at the frame is left as it is, and it and all later
regions lie behind the frame. -/
theorem framesFrom_of_start_eq (haligned : ∀ r ∈ before ++ region :: after, PageAligned r)
    (hsorted : SortedRegions (before ++ region :: after))
    (hstart : start region = frame.address)
    (hbefore : ∀ r ∈ before, ¬ Reaches r frame.address) :
    framesFrom frame (before ++ region :: after) = usableFrames (region :: after) := by
  rw [framesFrom_eq haligned, usableFrames_append, List.filter_append,
    filter_before_eq_nil (fun r hr => haligned r (by simp [hr])) hsorted
      (Nat.le_of_eq hstart) hbefore, List.nil_append, List.filter_eq_self]
  intro other hother
  obtain ⟨r, hr, -, hmem⟩ := mem_usableFrames.mp hother
  obtain ⟨hlow, -⟩ := (mem_regionFrames_of_aligned (haligned r (by simp [hr]))).mp hmem
  have hbehind : start region ≤ start r := by
    rcases List.mem_cons.mp hr with rfl | hr
    · exact Nat.le_refl _
    · exact (List.pairwise_cons.mp (List.pairwise_append.mp hsorted).2.1).1 r hr
  simp only [decide_eq_true_eq]
  omega

end Split

/-! ## The exact starting points -/

section Start

variable {frame : PhysicalFrame .size4KiB} {regions : List D}

theorem startsRegion_of_enumeratesFrom (hsorted : SortedRegions regions)
    (haligned : ∀ r ∈ regions, PageAligned r)
    (hframe : ∃ r ∈ regions, isUsable r = true ∧ FrameInside frame r)
    (h : EnumeratesFrom frame regions) : StartsRegion frame regions := by
  obtain ⟨-, allocator, hnew, hcalls⟩ := h
  rcases newStartingAt_cases hnew with
    ⟨before, region, after, rfl, hbefore, hregion, husable, rfl⟩ | ⟨hnone, -⟩
  · obtain ⟨hfits, hreach⟩ := contains_eq_true.mp hregion
    obtain ⟨hwalk, hframes⟩ := usableFrames_of_calls hcalls
    have hnot : ∀ r ∈ before, ¬ Reaches r frame.address :=
      fun r hr => not_reaches_of_contains_false (hbefore r hr)
    have hstart := start_eq_of_frames_eq haligned hsorted husable hreach hnot hframes
    refine ⟨⟨region, ?_, husable, hstart⟩, ?_⟩
    · rw [List.find?_eq_some_iff_append]
      refine ⟨by simpa using hreach, before, after, rfl, ?_⟩
      intro r hr
      simpa using hnot r hr
    · intro r hr hr_usable
      rcases List.mem_append.mp hr with hr | hr
      · -- a dropped region starts no later, so its end was computed
        have hle : start r ≤ start region :=
          (List.pairwise_append.mp hsorted).2.2 r hr region List.mem_cons_self
        rcases contains_eq_false.mp (hbefore r hr) with hlow | ⟨hr_fits, -⟩
        · have := hreach.1
          omega
        · exact hr_fits
      · rcases List.mem_cons.mp hr with rfl | hr
        · exact hfits
        · exact hwalk r (List.mem_cons_of_mem _ hr) hr_usable
  · obtain ⟨r, hr, -, hinside⟩ := hframe
    exact absurd ⟨hinside.1, by have := hinside.2; omega⟩
      (not_reaches_of_contains_false (hnone r hr))

theorem enumeratesFrom_of_startsRegion (hsorted : SortedRegions regions)
    (hdisjoint : DisjointRegions regions) (haligned : ∀ r ∈ regions, PageAligned r)
    (hframe : ∃ r ∈ regions, isUsable r = true ∧ FrameInside frame r)
    (h : StartsRegion frame regions) : EnumeratesFrom frame regions := by
  obtain ⟨⟨region, hfind, husable, hstart⟩, hfits⟩ := h
  have hincreasing : (framesFrom frame regions).Pairwise
      fun first second => first.address < second.address := by
    rw [framesFrom_eq haligned]
    exact (usableFrames_increasing hsorted hdisjoint haligned).filter _
  refine ⟨hincreasing, ?_⟩
  obtain ⟨hreach, before, after, rfl, hbefore⟩ := List.find?_eq_some_iff_append.mp hfind
  have hnot : ∀ r ∈ before, ¬ Reaches r frame.address := by
    intro r hr
    simpa using hbefore r hr
  -- a dropped region cannot wrap around: it would hold the frame's own bytes
  have hdropped : ∀ r ∈ before, contains r frame.address = .ok false := by
    intro r hr
    obtain ⟨holder, hholder, hholder_usable, hinside⟩ := hframe
    have hle : start r ≤ start region :=
      (List.pairwise_append.mp hsorted).2.2 r hr region List.mem_cons_self
    have hholder_fits := hfits holder hholder hholder_usable
    have hr_not := hnot r hr
    unfold Reaches at hr_not
    unfold FrameInside at hinside
    unfold Fits at hholder_fits
    refine contains_eq_false.mpr (.inr ⟨?_, by omega⟩)
    unfold Fits
    omega
  have hfound : contains region frame.address = .ok true :=
    contains_eq_true.mpr ⟨hfits region (by simp) husable, by simpa using hreach⟩
  refine ⟨_, newStartingAt_split hdropped hfound husable, ?_⟩
  intro index
  have hsame : setStart region frame.address = region := by
    rw [← hstart]
    exact setStart_start region
  rw [hsame, framesFrom_of_start_eq haligned hsorted hstart hnot]
  have hafter : ∀ r ∈ (new (region :: after)).memoryMap, isUsable r = true → Fits r :=
    fun r hr => hfits r (List.mem_append_right before hr)
  rw [call_of_fits hafter]
  simp [new]

/-- For a sorted map of disjoint page-aligned regions and a frame inside a
usable one, the allocator started at the frame enumerates the usable frames from
there on exactly when the frame starts the first region that reaches it. -/
theorem enumeratesFrom_iff_startsRegion (hsorted : SortedRegions regions)
    (hdisjoint : DisjointRegions regions) (haligned : ∀ r ∈ regions, PageAligned r)
    (hframe : ∃ r ∈ regions, isUsable r = true ∧ FrameInside frame r) :
    EnumeratesFrom frame regions ↔ StartsRegion frame regions :=
  ⟨startsRegion_of_enumeratesFrom hsorted haligned hframe,
    enumeratesFrom_of_startsRegion hsorted hdisjoint haligned hframe⟩

end Start

def threePages : List E820MemoryRegion :=
  [⟨0x100000, 0x3000, .normal, 0⟩]

theorem enumeratesFrom_first_of_threePages :
    EnumeratesFrom ⟨0x100000, by decide⟩ threePages :=
  (enumeratesFrom_iff_startsRegion (by simp [SortedRegions, threePages])
    (by simp [DisjointRegions, threePages]) (by decide)
    ⟨⟨0x100000, 0x3000, .normal, 0⟩, by decide, by decide, by decide, by decide⟩).mpr
    ⟨⟨⟨0x100000, 0x3000, .normal, 0⟩, by decide, by decide, by decide⟩, by decide⟩

/-- Started at the second of three pages, the third call still hands out a
frame, the one behind the region. -/
theorem not_enumeratesFrom_second_of_threePages :
    SortedRegions threePages ∧ DisjointRegions threePages ∧
    (∀ r ∈ threePages, PageAligned r) ∧
    (∃ r ∈ threePages, isUsable r = true ∧ FrameInside ⟨0x101000, by decide⟩ r) ∧
    ¬ EnumeratesFrom ⟨0x101000, by decide⟩ threePages := by
  refine ⟨by simp [SortedRegions, threePages], by simp [DisjointRegions, threePages], by decide,
    ⟨⟨0x100000, 0x3000, .normal, 0⟩, by decide, by decide, by decide, by decide⟩, ?_⟩
  rintro ⟨-, allocator, hnew, hcalls⟩
  have hstart : newStartingAt ⟨0x101000, by decide⟩ threePages =
      .ok (new [⟨0x101000, 0x3000, .normal, 0⟩]) := rfl
  rw [hstart] at hnew
  cases hnew
  exact absurd (hcalls 2) (by decide)

end BumpFrameAllocator

end MiniatureOs
