import MiniatureOs.Heap.Complete

/-! # The states of the allocator

The states that any sequence of calls reaches: regions are added to a new allocator, each
apart from those before it, and blocks are allocated and given back in between. `alloc`
computes a class from the size and the alignment of a layout, and a layout may ask for
more than the largest block. Then no list is searched, and the list that is read in the
end lies outside the array.
-/

namespace MiniatureOs

open DyadicBlock

namespace Heap

/-- The states reached by `new`, `init`, `alloc` and `dealloc`, with the regions added so
far; a block is given back only while it is live. -/
inductive Reachable : List HeapRegion → Heap → Prop
  | new : Reachable [] ⟨.new, []⟩
  | init {regions : List HeapRegion} {heap : Heap} {region : HeapRegion} {a : BuddyAllocator}
      (before : Reachable regions heap)
      (apart : ∀ r ∈ regions, SpansApart region.start region.size r.start r.size)
      (call : heap.allocator.init region.start region.size = .ok a) :
      Reachable (region :: regions) ⟨a, heap.live⟩
  | step {regions : List HeapRegion} {heap heap' : Heap} {op : HeapOp}
      (before : Reachable regions heap) (call : heap.step op = some heap') :
      Reachable regions heap'

def InRegions (regions : List HeapRegion) (x : Nat) : Prop :=
  ∃ r ∈ regions, r.start ≤ x ∧ x < r.start + r.size ∧ r.start + r.size < 2 ^ 64

variable {regions : List HeapRegion} {heap : Heap}

theorem init_tiles {a a' : BuddyAllocator} {start size : Nat} (hpos : 0 < start)
    (hsized : a.Sized) (h : a.init start size = .ok a') :
    start + size < 2 ^ 64 ∧ a'.Sized ∧ ∃ tiles, a'.freeBlocks.Perm (tiles ++ a.freeBlocks) ∧
      Packed tiles ∧ ∀ x, Covers tiles x ↔ start ≤ x ∧ x < start + size := by
  obtain ⟨stop, hstop, hadd⟩ := Checked.bind_eq_ok.mp h
  obtain ⟨hfits, rfl⟩ := Checked.add_eq_ok.mp hstop
  obtain ⟨_, _, hrun⟩ := Checked.bind_eq_ok.mp hadd
  obtain ⟨a₁, tiles, hloop, hsized₁, hperm, hpacked, hcovers, _⟩ :=
    BuddyAllocator.addRegionLoop_spec (start + size - start) a hpos (Nat.le_add_right _ _) hfits
      (Nat.le_refl _) hsized
  rw [hloop] at hrun
  obtain rfl : a₁ = a' := Except.ok.inj hrun
  exact ⟨hfits, hsized₁, tiles, hperm, hpacked, hcovers⟩

theorem Kept.of_init {region : HeapRegion} {a : BuddyAllocator}
    (hkept : Kept (InRegions regions) heap)
    (apart : ∀ r ∈ regions, SpansApart region.start region.size r.start r.size)
    (call : heap.allocator.init region.start region.size = .ok a) :
    Kept (InRegions (region :: regions)) ⟨a, heap.live⟩ := by
  obtain ⟨hfits, hsized, tiles, hperm, htiles, hcovers⟩ :=
    init_tiles region.start_pos hkept.sized call
  have hblocks : ((⟨a, heap.live⟩ : Heap).freeBlocks ++ (⟨a, heap.live⟩ : Heap).liveBlocks).Perm
      (tiles ++ (heap.freeBlocks ++ heap.liveBlocks)) := by
    rw [← List.append_assoc]
    exact hperm.append_right _
  refine ⟨hsized, hkept.classes, Packed.perm ⟨?_, ?_⟩ hblocks.symm, fun x hx => ?_⟩
  · intro b hb
    rcases List.mem_append.mp hb with hb | hb
    · exact htiles.aligned b hb
    · exact hkept.packed.aligned b hb
  · refine List.pairwise_append.mpr ⟨htiles.separate, hkept.packed.separate, ?_⟩
    -- a shared byte would lie in the new region and in an earlier one
    intro b hb c hc x hbx hcx
    have hnew := (hcovers x).mp ⟨b, hb, hbx⟩
    obtain ⟨r, hr, hlo, hhi, _⟩ := hkept.inside x ⟨c, hc, hcx⟩
    have happart := apart r hr
    unfold SpansApart at happart
    omega
  · rw [covers_perm hblocks, covers_append] at hx
    rcases hx with hx | hx
    · have hin := (hcovers x).mp hx
      exact ⟨region, List.mem_cons_self, hin.1, hin.2, hfits⟩
    · obtain ⟨r, hr, hin⟩ := hkept.inside x hx
      exact ⟨r, List.mem_cons_of_mem _ hr, hin⟩

/-- Every reachable state keeps its blocks packed inside the regions. -/
theorem Reachable.kept (h : Reachable regions heap) : Kept (InRegions regions) heap := by
  induction h with
  | new =>
      refine ⟨BuddyAllocator.sized_new, fun b hb => ?_, ?_, fun x hx => ?_⟩
      · cases hb
      · simp only [freeBlocks, BuddyAllocator.freeBlocks_new, liveBlocks, List.map_nil,
          List.append_nil]
        exact ⟨fun b hb => absurd hb List.not_mem_nil, List.Pairwise.nil⟩
      · obtain ⟨b, hb, _⟩ := hx
        simp [freeBlocks, liveBlocks] at hb
  | init _ apart call ih => exact ih.of_init apart call
  | step _ call ih => exact ih.of_step call

theorem Kept.inAddressSpace (hkept : Kept (InRegions regions) heap) :
    heap.allocator.InAddressSpace := by
  intro b hb
  have hmem : b ∈ heap.freeBlocks ++ heap.liveBlocks := List.mem_append_left _ hb
  have hpow := Nat.two_pow_pos b.cls
  obtain ⟨r, _, hlo, _, _⟩ := hkept.inside b.start ⟨b, hmem, holds_start b⟩
  obtain ⟨r', _, _, hhi, hfits⟩ := hkept.inside (b.start + 2 ^ b.cls - 1)
    ⟨b, hmem, by simp only [Holds]; omega⟩
  have hpos := r.start_pos
  constructor
  · omega
  · omega

end Heap

namespace BuddyAllocator

/-- The call returns, the loop that splits chunks is not left in the middle, and a failed
call leaves the lists as they were. -/
structure AllocTotal (a : BuddyAllocator) (layout : Layout) : Prop where
  returns : ∃ result a', a.alloc layout = .ok (result, a') ∧ (result = none → a' = a)
  splits : ∀ i, a.firstNonEmpty layout.cls = some i →
    ∃ a', splitLoop layout.cls (i - layout.cls) a = .ok (true, a')

/-- A layout beyond the largest block reads a list outside the array. -/
theorem alloc_of_le {layout : Layout} (a : BuddyAllocator) (h : maxOrder ≤ layout.cls) :
    a.alloc layout = .error .outOfBounds := by
  have hnone : a.firstNonEmpty layout.cls = none := by
    unfold firstNonEmpty
    rw [Nat.sub_eq_zero_of_le h]
    rfl
  simp only [alloc, hnone, popFront]
  exact if_neg (Nat.not_lt.mpr h)

end BuddyAllocator

/-- The class of a layout has a list when neither its size nor its alignment exceeds the
largest block. -/
theorem Layout.cls_lt_iff (layout : Layout) :
    layout.cls < maxOrder ↔
      layout.size ≤ 2 ^ (maxOrder - 1) ∧ layout.align ≤ 2 ^ (maxOrder - 1) := by
  have hpow := layout.two_pow_cls
  have hlt : layout.cls < maxOrder ↔ layout.alignLayoutSize ≤ 2 ^ (maxOrder - 1) := by
    rw [← hpow, Nat.pow_le_pow_iff_right (by decide)]
    unfold maxOrder
    omega
  rw [hlt, alignLayoutSize, Nat.max_le, Nat.max_le]
  constructor
  · rintro ⟨hsize, halign, _⟩
    exact ⟨Nat.le_trans (Bits.le_nextPowerOfTwo _) hsize, halign⟩
  · rintro ⟨hsize, halign⟩
    exact ⟨Bits.nextPowerOfTwo_le hsize, halign, by decide⟩

namespace Heap

/-- In every reachable state, `alloc` is total on the layouts whose size and alignment do
not exceed the largest block, and on no other. -/
theorem allocTotal_iff (regions : List HeapRegion) (heap : Heap) (layout : Layout)
    (h : Reachable regions heap) :
    heap.allocator.AllocTotal layout ↔
      layout.size ≤ 2 ^ (maxOrder - 1) ∧ layout.align ≤ 2 ^ (maxOrder - 1) := by
  have hspace := h.kept.inAddressSpace
  rw [← Layout.cls_lt_iff]
  constructor
  · intro htotal
    by_contra hge
    obtain ⟨result, a, hcall, _⟩ := htotal.returns
    rw [BuddyAllocator.alloc_of_le _ (Nat.le_of_not_lt hge)] at hcall
    cases hcall
  · intro hcls
    obtain ⟨result, a, hcall, _, hnone⟩ := BuddyAllocator.alloc_total hspace hcls
    refine ⟨⟨result, a, hcall, hnone⟩, fun i hfirst => ?_⟩
    obtain ⟨a', _, _, hsplit, _⟩ := BuddyAllocator.split_of_firstNonEmpty hspace hfirst
    exact ⟨a', hsplit⟩

theorem reachable_kernelHeap {a : BuddyAllocator}
    (h : BuddyAllocator.new.init kernelHeap.start kernelHeap.size = .ok a) :
    Reachable [kernelHeap] ⟨a, []⟩ :=
  .init .new (fun _ hr => absurd hr List.not_mem_nil) h

theorem allocTotal_page_kernelHeap :
    ∃ a, BuddyAllocator.new.init kernelHeap.start kernelHeap.size = .ok a ∧
      a.AllocTotal pageLayout := by
  have hinit : (boot kernelHeap).isSome = true := by decide
  cases hcall : BuddyAllocator.new.init kernelHeap.start kernelHeap.size with
  | error panic =>
      rw [boot, hcall] at hinit
      cases hinit
  | ok a =>
      exact ⟨a, rfl, (allocTotal_iff [kernelHeap] ⟨a, []⟩ pageLayout
        (reachable_kernelHeap hcall)).mpr (by decide)⟩

def mebibyteLayout : Layout := ⟨0x100000, 0x8, halfLayout.align_two_pow, by decide⟩

/-- A request for one mebibyte panics on the kernel's heap, and on every other. -/
theorem not_allocTotal_mebibyte :
    ∃ a, BuddyAllocator.new.init kernelHeap.start kernelHeap.size = .ok a ∧
      Reachable [kernelHeap] ⟨a, []⟩ ∧ a.alloc mebibyteLayout = .error .outOfBounds ∧
      ¬ a.AllocTotal mebibyteLayout := by
  have hinit : (boot kernelHeap).isSome = true := by decide
  cases hcall : BuddyAllocator.new.init kernelHeap.start kernelHeap.size with
  | error panic =>
      rw [boot, hcall] at hinit
      cases hinit
  | ok a =>
      have hpanic : a.alloc mebibyteLayout = .error .outOfBounds :=
        a.alloc_of_le (by decide)
      refine ⟨a, rfl, reachable_kernelHeap hcall, hpanic, fun htotal => ?_⟩
      obtain ⟨result, a', hreturns, _⟩ := htotal.returns
      rw [hpanic] at hreturns
      cases hreturns

end Heap

end MiniatureOs
