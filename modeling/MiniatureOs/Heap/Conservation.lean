import MiniatureOs.Heap.Safety

/-! # Conservation of heap memory

Every byte of the region is free or live as long as no deallocation completes a
top block: the `2 ^ MAX_ORDER` bytes around the returned block, all of them free
once it is back. The merge loop then leaves the array of lists with a block of
class `MAX_ORDER` in hand, and that block is filed nowhere.
-/

namespace MiniatureOs

open DyadicBlock

namespace Heap

def freeBytes (heap : Heap) : Nat :=
  ((List.range maxOrder).map fun cls => ((heap.allocator.list cls).map Chunk.size).sum).sum

def liveBytes (heap : Heap) : Nat := (heap.live.map fun b => b.layout.alignLayoutSize).sum

def FreeAt (heap : Heap) (x : Nat) : Prop :=
  ∃ cls, ∃ chunk ∈ heap.allocator.list cls, chunk.start ≤ x ∧ x < chunk.start + chunk.size

def LiveAt (heap : Heap) (x : Nat) : Prop :=
  ∃ b ∈ heap.live, b.ptr ≤ x ∧ x < b.ptr + b.layout.alignLayoutSize

/-- No byte of the region is lost, counted byte by byte and by sizes. -/
structure Conserved (region : HeapRegion) (heap : Heap) : Prop where
  covered : ∀ x, region.start ≤ x → x < region.start + region.size →
    heap.FreeAt x ∨ heap.LiveAt x
  total : heap.freeBytes + heap.liveBytes = region.size

/-- The aligned `2 ^ MAX_ORDER` bytes around the block are the block itself and
free chunks. -/
def CompletesTopBlock (heap : Heap) (block : LiveBlock) : Prop :=
  ∀ x, x / 2 ^ maxOrder = block.ptr / 2 ^ maxOrder →
    heap.FreeAt x ∨ (block.ptr ≤ x ∧ x < block.ptr + block.layout.alignLayoutSize)

section Reading

variable {region : HeapRegion} {heap : Heap}

theorem Inv.freeAt_iff (hinv : Inv region heap) (x : Nat) :
    heap.FreeAt x ↔ Covers heap.freeBlocks x := by
  constructor
  · rintro ⟨cls, chunk, hchunk, hx⟩
    rw [hinv.sized cls chunk hchunk] at hx
    exact ⟨⟨cls, chunk.start⟩, mem_freeBlocks_of_mem_list hchunk, hx⟩
  · rintro ⟨b, hb, hx⟩
    obtain ⟨chunk, hchunk, hstart⟩ := BuddyAllocator.mem_freeBlocks.mp hb
    refine ⟨b.cls, chunk, hchunk, ?_⟩
    rw [hinv.sized _ chunk hchunk, hstart]
    exact hx

theorem block_holds_iff (b : LiveBlock) (x : Nat) :
    b.block.Holds x ↔ b.ptr ≤ x ∧ x < b.ptr + b.layout.alignLayoutSize := by
  rw [← Layout.two_pow_cls]
  rfl

theorem liveAt_iff (x : Nat) : heap.LiveAt x ↔ Covers heap.liveBlocks x := by
  simp only [LiveAt, Covers, liveBlocks, List.mem_map, exists_exists_and_eq_and, block_holds_iff]

theorem Inv.totalSize_eq (hinv : Inv region heap) :
    totalSize (heap.freeBlocks ++ heap.liveBlocks) = heap.freeBytes + heap.liveBytes := by
  have hclass : ∀ cls, totalSize ((heap.allocator.list cls).map fun chunk =>
      ⟨cls, chunk.start⟩) = ((heap.allocator.list cls).map Chunk.size).sum := by
    intro cls
    rw [totalSize, List.map_map]
    exact congrArg List.sum (List.map_congr_left fun chunk hchunk =>
      (hinv.sized cls chunk hchunk).symm)
  have hlive : totalSize heap.liveBlocks = heap.liveBytes := by
    rw [totalSize, liveBlocks, List.map_map]
    exact congrArg List.sum (List.map_congr_left fun b _ => b.layout.two_pow_cls)
  rw [totalSize_append, hlive, freeBlocks, BuddyAllocator.freeBlocks, totalSize_flatMap]
  simp only [hclass, freeBytes]

theorem Inv.conserved_iff (hinv : Inv region heap) :
    Conserved region heap ↔ ∀ x, region.start ≤ x → x < region.start + region.size →
      Covers (heap.freeBlocks ++ heap.liveBlocks) x := by
  have hcovers : ∀ x, Covers (heap.freeBlocks ++ heap.liveBlocks) x ↔
      heap.FreeAt x ∨ heap.LiveAt x := fun x => by
    rw [covers_append, hinv.freeAt_iff, liveAt_iff]
  have hcount := hinv.packed.totalSize_eq_iff hinv.inside
  rw [hinv.totalSize_eq, Nat.add_sub_cancel_left] at hcount
  constructor
  · intro h x hlo hhi
    exact (hcovers x).mpr (h.covered x hlo hhi)
  · intro h
    exact ⟨fun x hlo hhi => (hcovers x).mp (h x hlo hhi), hcount.mpr h⟩

end Reading

/-! ## One call -/

theorem Inv.conserved_of_alloc {region : HeapRegion} {heap heap' : Heap} {layout : Layout}
    (hinv : Inv region heap) (h : heap.step (.alloc layout) = some heap')
    (hconserved : Conserved region heap) : Conserved region heap' := by
  refine (hinv.of_step h).conserved_iff.mpr fun x hlo hhi => ?_
  exact (hinv.kept.covers_of_alloc h x).mpr (hinv.conserved_iff.mp hconserved x hlo hhi)

/-- A merge that outgrows the lists has gathered a whole top block. -/
theorem Inv.completes_of_merges {region : HeapRegion} {heap : Heap} {block : LiveBlock}
    {c : DyadicBlock} {l : List DyadicBlock} (hinv : Inv region heap)
    (hb : block.block.Aligned) (hc : c.Aligned)
    (hmerges : Merges block.block heap.freeBlocks c l) (hcls : c.cls = maxOrder) :
    heap.CompletesTopBlock block := by
  intro x hx
  have hptr : c.Holds block.ptr := hmerges.holds hb (holds_start block.block)
  rw [holds_iff_div hc, hcls] at hptr
  have hcx : c.Holds x := by
    rw [holds_iff_div hc, hcls, hx, hptr]
  have hcover := (hmerges.covers hb x).mp (covers_cons.mpr (.inl hcx))
  rw [covers_cons, block_holds_iff, ← hinv.freeAt_iff] at hcover
  exact hcover.symm

/-- A merge that stops below the top class leaves some byte of the top block
taken. -/
theorem Inv.not_completes_of_merges {region : HeapRegion} {heap : Heap} {block : LiveBlock}
    {c : DyadicBlock} {l : List DyadicBlock} (hinv : Inv region heap)
    (hpacked : Packed (block.block :: heap.freeBlocks))
    (hmerges : Merges block.block heap.freeBlocks c l) (hcls : c.cls < maxOrder)
    (hbuddy : c.buddy ∉ l) : ¬ heap.CompletesTopBlock block := by
  intro hcompletes
  have hb : block.block.Aligned := hpacked.aligned _ List.mem_cons_self
  have hmerged : Packed (c :: l) := by
    have happend := hmerges.packed [] (by simpa using hpacked)
    simpa using happend
  have hc : c.Aligned := hmerged.aligned c List.mem_cons_self
  have hcoalesced : Coalesced (maxOrder - 1) (c :: l) :=
    (hinv.coalesced.subset fun d hd => hmerges.mem hd).cons hbuddy
  have hptr : c.Holds block.ptr := hmerges.holds hb (holds_start block.block)
  have htop : ∀ x, x / 2 ^ maxOrder = block.ptr / 2 ^ maxOrder → Covers (c :: l) x := by
    intro x hx
    rw [hmerges.covers hb, covers_cons, block_holds_iff, ← hinv.freeAt_iff]
    exact (hcompletes x hx).symm
  have hclasses : ∀ d ∈ c :: l, d.cls < maxOrder := by
    intro d hd
    rcases List.mem_cons.mp hd with rfl | hd
    · exact hcls
    · exact BuddyAllocator.cls_lt_of_mem_freeBlocks (hmerges.mem hd)
  -- the half of the top block around the pointer is one free block, which is `c`
  have hhalf : c.cls = maxOrder - 1 := by
    obtain ⟨d, hd, hdcls, hdsub⟩ := exists_superblock hmerged hcoalesced
      (around_aligned (maxOrder - 1) block.ptr) (Nat.le_refl _) fun x hx => by
        refine htop x ?_
        have hx := around_holds.mp hx
        rw [show maxOrder = maxOrder - 1 + 1 from rfl, Nat.pow_succ, ← Nat.div_div_eq_div_mul,
          ← Nat.div_div_eq_div_mul, hx]
    have hdc : d = c := hmerged.eq_of_holds hd List.mem_cons_self
      (hdsub _ (around_holds.mpr rfl)) hptr
    have hlt := hclasses d hd
    rw [hdc] at hdcls hlt
    simp only [around] at hdcls
    omega
  -- the other half is covered as well, so the buddy of `c` would be free
  obtain ⟨d, hd, hdcls, hdsub⟩ := exists_superblock hmerged hcoalesced (buddy_aligned hc)
    (by rw [buddy_cls, hhalf]) fun x hx => by
      refine htop x ?_
      have hparent := parent_aligned hc
      have hcls' : c.parent.cls = maxOrder := by rw [parent_cls, hhalf]; rfl
      have hxp := (holds_iff_div hparent x).mp ((parent_holds hc x).mpr (.inr hx))
      have hpp := (holds_iff_div hparent _).mp ((parent_holds hc _).mpr (.inl hptr))
      rw [hcls'] at hxp hpp
      rw [hxp, hpp]
  have hdcls' : d.cls = c.buddy.cls := by
    have hlt := hclasses d hd
    rw [buddy_cls] at hdcls ⊢
    omega
  have heq : d = c.buddy := DyadicBlock.eq_of_holds (hmerged.aligned d hd) (buddy_aligned hc)
    hdcls' (hdsub _ (holds_start _)) (holds_start _)
  rw [heq] at hd
  exact (List.mem_cons.mp hd).elim (buddy_ne c) hbuddy

theorem Inv.conserved_of_dealloc_iff {region : HeapRegion} {heap heap' : Heap}
    {block : LiveBlock} (hinv : Inv region heap) (h : heap.step (.dealloc block) = some heap')
    (hconserved : Conserved region heap) :
    Conserved region heap' ↔ ¬ heap.CompletesTopBlock block := by
  obtain ⟨_, hlive, c, l, hmerges, hend⟩ := step_dealloc h hinv.sized hinv.classes
  have hbefore := hinv.packed.perm (live_of_dealloc hlive)
  have hmerged : Packed (c :: (l ++ heap'.liveBlocks)) := hmerges.packed _ hbefore
  have hb : block.block.Aligned := hbefore.aligned _ List.mem_cons_self
  have hc : c.Aligned := hmerged.aligned c List.mem_cons_self
  have hall := hinv.conserved_iff.mp hconserved
  rcases hend with ⟨hcls, hbuddy, hperm⟩ | ⟨hcls, hfree⟩
  · have hnot : ¬ heap.CompletesTopBlock block := by
      refine hinv.not_completes_of_merges (hbefore.sublist ?_) hmerges hcls hbuddy
      exact (List.sublist_append_left _ _).cons_cons _
    refine iff_of_true ((hinv.of_step h).conserved_iff.mpr fun x hlo hhi => ?_) hnot
    have hcover := (hinv.kept.covers_of_merges hlive hmerges x).mpr (hall x hlo hhi)
    exact (covers_perm (hperm.append_right _)).mpr hcover
  · refine iff_of_false (fun hafter => ?_)
      (not_not_intro (hinv.completes_of_merges hb hc hmerges hcls))
    -- the first byte of the dropped block is in the region and in no other block
    have hbyte := hinv.inside c.start ((hinv.kept.covers_of_merges hlive hmerges _).mp
      (covers_cons.mpr (.inl (holds_start c))))
    have hcover := (hinv.of_step h).conserved_iff.mp hafter c.start hbyte.1 hbyte.2
    rw [hfree] at hcover
    obtain ⟨d, hd, hdx⟩ := hcover
    exact (packed_cons.mp hmerged).2.1 d hd _ (holds_start c) hdx

/-! ## Whole runs -/

theorem conserved_of_boot {region : HeapRegion} {heap : Heap} (h : boot region = some heap) :
    Conserved region heap := by
  obtain ⟨_, hinv, hcovers⟩ := boot_spec h
  refine hinv.conserved_iff.mpr fun x hlo hhi => ?_
  exact covers_append.mpr (.inl ((hcovers x).mpr ⟨hlo, hhi⟩))

theorem after_of_append {region : HeapRegion} {pre rest : List HeapOp} {last : Heap}
    (h : after region (pre ++ rest) = some last) : ∃ heap, after region pre = some heap := by
  simp only [after, List.foldlM_append] at h ⊢
  obtain ⟨first, hboot, hrun⟩ := Option.bind_eq_some_iff.mp h
  obtain ⟨heap, hheap, _⟩ := Option.bind_eq_some_iff.mp hrun
  exact ⟨heap, by simp [hboot, hheap]⟩

def NeverCompletes (region : HeapRegion) (ops : List HeapOp) : Prop :=
  ∀ pre block, pre ++ [.dealloc block] <+: ops → ∀ heap, after region pre = some heap →
    ¬ heap.CompletesTopBlock block

theorem conserved_of_neverCompletes {region : HeapRegion} {ops : List HeapOp}
    (h : NeverCompletes region ops) {heap : Heap} (hrun : after region ops = some heap) :
    Conserved region heap := by
  induction ops using List.reverseRecOn generalizing heap with
  | nil => exact conserved_of_boot (after_nil.mp hrun)
  | append_singleton ops op ih =>
      obtain ⟨before, hbefore, hstep⟩ := after_append.mp hrun
      have hinv := Inv.of_after hbefore
      have hconserved := ih (fun pre block hpre =>
        h pre block (hpre.trans (List.prefix_append _ _))) hbefore
      cases op with
      | alloc layout => exact hinv.conserved_of_alloc hstep hconserved
      | dealloc block =>
          exact (hinv.conserved_of_dealloc_iff hstep hconserved).mpr
            (h ops block (List.prefix_refl _) before hbefore)

theorem live_of_step_dealloc {heap heap' : Heap} {block : LiveBlock}
    (h : heap.step (.dealloc block) = some heap') : block ∈ heap.live := by
  simp only [step] at h
  split at h
  next hlive => exact hlive
  next => simp at h

/-- A region smaller than a top block cannot complete one. -/
theorem Inv.not_completes_of_size_lt {region : HeapRegion} {heap : Heap} {block : LiveBlock}
    (hinv : Inv region heap) (hsize : region.size < 2 ^ maxOrder) (hlive : block ∈ heap.live) :
    ¬ heap.CompletesTopBlock block := by
  intro hcompletes
  have hinside : ∀ x, (around maxOrder block.ptr).Holds x →
      region.start ≤ x ∧ x < region.start + region.size := by
    intro x hx
    refine hinv.inside x (covers_append.mpr ?_)
    rcases hcompletes x (around_holds.mp hx) with hfree | hblock
    · exact .inl ((hinv.freeAt_iff x).mp hfree)
    · exact .inr ⟨block.block, mem_liveBlocks_of_mem_live hlive, (block_holds_iff _ x).mpr hblock⟩
  have hfirst := hinside _ (holds_start _)
  have hlast := hinside ((around maxOrder block.ptr).start + 2 ^ maxOrder - 1) (by
    have hpos := Nat.two_pow_pos maxOrder
    simp only [Holds, around]
    omega)
  omega

theorem neverCompletes_of_size_lt {region : HeapRegion} (hsize : region.size < 2 ^ maxOrder)
    {ops : List HeapOp} {last : Heap} (h : after region ops = some last) :
    NeverCompletes region ops := by
  rintro pre block ⟨rest, hrest⟩ heap hheap
  obtain ⟨heap', hheap'⟩ := after_of_append (hrest.symm ▸ h)
  obtain ⟨before, hbefore, hstep⟩ := after_append.mp hheap'
  obtain rfl : before = heap := Option.some.inj (hbefore.symm.trans hheap)
  exact (Inv.of_after hbefore).not_completes_of_size_lt hsize (live_of_step_dealloc hstep)

/-- A run conserves the heap in every state it passes exactly when none of its
deallocations completes a top block. -/
theorem conserved_throughout_iff (region : HeapRegion) (ops : List HeapOp) (last : Heap)
    (h : after region ops = some last) :
    (∀ pre, pre <+: ops → ∀ heap, after region pre = some heap → Conserved region heap) ↔
      NeverCompletes region ops := by
  constructor
  · intro hall pre block hpre heap hheap
    obtain ⟨rest, hrest⟩ := hpre
    obtain ⟨heap', hheap'⟩ := after_of_append (hrest.symm ▸ h)
    obtain ⟨before, hbefore, hstep⟩ := after_append.mp hheap'
    obtain rfl : before = heap := Option.some.inj (hbefore.symm.trans hheap)
    have hpre : pre <+: ops := (List.prefix_append _ _).trans ⟨rest, hrest⟩
    exact ((Inv.of_after hbefore).conserved_of_dealloc_iff hstep (hall pre hpre _ hbefore)).mp
      (hall _ ⟨rest, hrest⟩ heap' hheap')
  · intro hnever pre hpre heap hheap
    exact conserved_of_neverCompletes
      (fun before block hbefore => hnever before block (hbefore.trans hpre)) hheap

def mebibyteHeap : HeapRegion := ⟨0x100000, 0x100000, by decide, by decide, by decide⟩

def halfLayout : Layout := ⟨0x80000, 0x8, ⟨3, by decide, rfl⟩, by decide⟩

theorem conserved_throughout_page_returned :
    (after kernelHeap [.alloc pageLayout,
        .dealloc ⟨0x444444458000, pageLayout⟩]).isSome = true ∧
      ∀ pre, pre <+: [HeapOp.alloc pageLayout, .dealloc ⟨0x444444458000, pageLayout⟩] →
        ∀ heap, after kernelHeap pre = some heap → Conserved kernelHeap heap := by
  have hrun : (after kernelHeap [.alloc pageLayout,
      .dealloc ⟨0x444444458000, pageLayout⟩]).isSome = true := by decide
  obtain ⟨last, hlast⟩ := Option.isSome_iff_exists.mp hrun
  exact ⟨hrun, (conserved_throughout_iff _ _ last hlast).mpr
    (neverCompletes_of_size_lt (by decide) hlast)⟩

/-- Allocating one half and giving it back loses the whole mebibyte. -/
theorem not_conserved_mebibyteHeap :
    ∃ heap, after mebibyteHeap [.alloc halfLayout, .dealloc ⟨0x180000, halfLayout⟩] = some heap ∧
      heap.live = [] ∧ heap.freeBytes = 0 ∧ ¬ Conserved mebibyteHeap heap := by
  have hrun : (after mebibyteHeap [.alloc halfLayout, .dealloc ⟨0x180000, halfLayout⟩]).map
      (fun heap => (heap.live, heap.freeBytes)) = some ([], 0) := by decide
  obtain ⟨heap, hheap, hpair⟩ := Option.map_eq_some_iff.mp hrun
  obtain ⟨hlive, hfree⟩ := Prod.mk.inj hpair
  refine ⟨heap, hheap, hlive, hfree, fun hconserved => ?_⟩
  have htotal := hconserved.total
  rw [hfree, liveBytes, hlive] at htotal
  exact absurd htotal (by decide)

end Heap

end MiniatureOs
