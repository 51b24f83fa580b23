import MiniatureOs.Heap.Conservation

/-! # History independence of the heap

In a region smaller than the largest block the free blocks are what the live
blocks leave of the region. They are coalesced, so they are determined by the
bytes they cover: the free lists depend on the live blocks and not on the calls
that led to them.
-/

namespace MiniatureOs

open DyadicBlock

namespace Heap

section Reading

variable {region : HeapRegion} {heap heap' : Heap}

/-- In a conserved heap a byte is free when it is in the region and not live. -/
theorem Inv.covers_free_iff (hinv : Inv region heap) (hconserved : Conserved region heap)
    (x : Nat) : Covers heap.freeBlocks x ↔
      (region.start ≤ x ∧ x < region.start + region.size) ∧ ¬ Covers heap.liveBlocks x := by
  constructor
  · intro hfree
    refine ⟨hinv.inside x (covers_append.mpr (.inl hfree)), fun hlive => ?_⟩
    obtain ⟨b, hb, hbx⟩ := hfree
    obtain ⟨c, hc, hcx⟩ := hlive
    exact (List.pairwise_append.mp hinv.packed.separate).2.2 b hb c hc x hbx hcx
  · rintro ⟨⟨hlo, hhi⟩, hnot⟩
    have hcover := hinv.conserved_iff.mp hconserved x hlo hhi
    exact (covers_append.mp hcover).resolve_right hnot

theorem Inv.mem_list_iff (hinv : Inv region heap) {cls : Nat} {chunk : Chunk} :
    chunk ∈ heap.allocator.list cls ↔
      ⟨cls, chunk.start⟩ ∈ heap.freeBlocks ∧ chunk.size = 2 ^ cls := by
  constructor
  · intro h
    exact ⟨mem_freeBlocks_of_mem_list h, hinv.sized cls chunk h⟩
  · rintro ⟨hblock, hsize⟩
    obtain ⟨other, hother, hstart⟩ := BuddyAllocator.mem_freeBlocks.mp hblock
    have heq : other = chunk := Chunk.ext hstart ((hinv.sized cls other hother).trans hsize.symm)
    rw [← heq]
    exact hother

theorem Inv.freeBlocks_eq (hinv : Inv region heap) (hinv' : Inv region heap')
    (hconserved : Conserved region heap) (hconserved' : Conserved region heap')
    (hlive : ∀ b, b ∈ heap.liveBlocks ↔ b ∈ heap'.liveBlocks) (b : DyadicBlock) :
    b ∈ heap.freeBlocks ↔ b ∈ heap'.freeBlocks := by
  have hpacked : Packed heap.freeBlocks := hinv.packed.sublist (List.sublist_append_left _ _)
  have hpacked' : Packed heap'.freeBlocks := hinv'.packed.sublist (List.sublist_append_left _ _)
  have hle : ∀ {h : Heap}, ∀ c ∈ h.freeBlocks, c.cls ≤ maxOrder - 1 := fun c hc =>
    Nat.le_pred_of_lt (BuddyAllocator.cls_lt_of_mem_freeBlocks hc)
  refine mem_iff_of_covers_iff hpacked hpacked' hinv.coalesced hinv'.coalesced hle hle
    (fun x => ?_) b
  rw [hinv.covers_free_iff hconserved, hinv'.covers_free_iff hconserved']
  simp only [Covers, hlive]

end Reading

/-- Two runs in a region below one mebibyte that end with the same live blocks
end with the same free lists; a run that has given everything back ends with the
lists that `init` made. -/
theorem freeLists_determined (region : HeapRegion) (hsize : region.size < 2 ^ 20)
    (ops ops' : List HeapOp) (heap heap' : Heap) (h : after region ops = some heap)
    (h' : after region ops' = some heap') :
    ((∀ b, b ∈ heap.liveBlocks ↔ b ∈ heap'.liveBlocks) →
      ∀ cls chunk, chunk ∈ heap.allocator.list cls ↔ chunk ∈ heap'.allocator.list cls) ∧
    (heap.live = [] → ∀ first, boot region = some first →
      ∀ cls chunk, chunk ∈ heap.allocator.list cls ↔ chunk ∈ first.allocator.list cls) := by
  have hcompare : ∀ {ops ops' : List HeapOp} {heap heap' : Heap},
      after region ops = some heap → after region ops' = some heap' →
      (∀ b, b ∈ heap.liveBlocks ↔ b ∈ heap'.liveBlocks) →
      ∀ cls chunk, chunk ∈ heap.allocator.list cls ↔ chunk ∈ heap'.allocator.list cls := by
    intro ops ops' heap heap' h h' hlive cls chunk
    have hinv := Inv.of_after h
    have hinv' := Inv.of_after h'
    rw [hinv.mem_list_iff, hinv'.mem_list_iff, hinv.freeBlocks_eq hinv'
      (conserved_of_neverCompletes (neverCompletes_of_size_lt hsize h) h)
      (conserved_of_neverCompletes (neverCompletes_of_size_lt hsize h') h') hlive]
  refine ⟨hcompare h h', fun hempty first hfirst => ?_⟩
  refine hcompare h (after_nil.mpr hfirst) fun b => ?_
  rw [liveBlocks, liveBlocks, hempty, (boot_spec hfirst).1]

theorem freeLists_determined_two_orders :
    ∃ heap heap',
      after kernelHeap [.alloc pageLayout, .alloc pageLayout,
        .dealloc ⟨0x444444458000, pageLayout⟩, .dealloc ⟨0x444444457000, pageLayout⟩] =
          some heap ∧
      after kernelHeap [.alloc pageLayout, .alloc pageLayout,
        .dealloc ⟨0x444444457000, pageLayout⟩, .dealloc ⟨0x444444458000, pageLayout⟩] =
          some heap' ∧
      ∀ cls chunk, chunk ∈ heap.allocator.list cls ↔ chunk ∈ heap'.allocator.list cls := by
  have hrun : (after kernelHeap [.alloc pageLayout, .alloc pageLayout,
      .dealloc ⟨0x444444458000, pageLayout⟩, .dealloc ⟨0x444444457000, pageLayout⟩]).map
        Heap.live = some [] := by decide
  have hrun' : (after kernelHeap [.alloc pageLayout, .alloc pageLayout,
      .dealloc ⟨0x444444457000, pageLayout⟩, .dealloc ⟨0x444444458000, pageLayout⟩]).map
        Heap.live = some [] := by decide
  obtain ⟨heap, hheap, hlive⟩ := Option.map_eq_some_iff.mp hrun
  obtain ⟨heap', hheap', hlive'⟩ := Option.map_eq_some_iff.mp hrun'
  refine ⟨heap, heap', hheap, hheap', ?_⟩
  exact (freeLists_determined kernelHeap (by decide) _ _ heap heap' hheap hheap').1 fun b => by
    rw [liveBlocks, liveBlocks, hlive, hlive']

end Heap

end MiniatureOs
