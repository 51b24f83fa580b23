import MiniatureOs.Heap.Blocks

/-! # Heap safety over whole runs

The free blocks and the live blocks of a heap are packed inside its region, and
the free blocks are coalesced. `init` establishes this, every call that returns
keeps it, and what the callers of the heap rely on is read off it.
-/

namespace MiniatureOs

open DyadicBlock

/-! ## Layouts and their classes -/

namespace Layout

theorem size_le (layout : Layout) : layout.size ≤ 2 ^ 63 := by
  obtain ⟨k, _, halign⟩ := layout.align_two_pow
  have hpos : 0 < layout.align := halign ▸ Nat.two_pow_pos k
  have hrounded := layout.rounded_le
  have hdiv := Nat.div_add_mod (layout.size + layout.align - 1) layout.align
  have hmod := Nat.mod_lt (layout.size + layout.align - 1) hpos
  rw [Nat.mul_comm] at hdiv
  omega

theorem two_pow_cls (layout : Layout) : 2 ^ layout.cls = layout.alignLayoutSize := by
  obtain ⟨k, hk, halign⟩ := layout.align_two_pow
  obtain ⟨n, hnext⟩ := Bits.nextPowerOfTwo_two_pow layout.size
  have hn : n ≤ 63 := by
    have hle := Bits.nextPowerOfTwo_le layout.size_le
    rw [hnext] at hle
    exact (Nat.pow_le_pow_iff_right (by decide)).mp hle
  have hsize : layout.alignLayoutSize = 2 ^ max n (max k 4) := by
    rw [alignLayoutSize, hnext, halign, Bits.two_pow_max, Bits.two_pow_max]
    rfl
  rw [cls, hsize, Bits.trailingZeros_two_pow (by omega)]

theorem four_le_cls (layout : Layout) : 4 ≤ layout.cls := by
  have hsize : 2 ^ 4 ≤ 2 ^ layout.cls := by
    rw [two_pow_cls, alignLayoutSize]
    exact Nat.le_trans (Nat.le_max_right _ _) (Nat.le_max_right _ _)
  exact (Nat.pow_le_pow_iff_right (by decide)).mp hsize

theorem align_dvd_two_pow_cls (layout : Layout) : layout.align ∣ 2 ^ layout.cls := by
  obtain ⟨k, _, halign⟩ := layout.align_two_pow
  have hle : 2 ^ k ≤ 2 ^ layout.cls := by
    rw [two_pow_cls, alignLayoutSize, ← halign]
    exact Nat.le_trans (Nat.le_max_left _ _) (Nat.le_max_right _ _)
  rw [halign]
  exact Nat.pow_dvd_pow 2 ((Nat.pow_le_pow_iff_right (by decide)).mp hle)

theorem size_le_alignLayoutSize (layout : Layout) : layout.size ≤ layout.alignLayoutSize :=
  Nat.le_trans (Bits.le_nextPowerOfTwo _) (Nat.le_max_left _ _)

end Layout

def LiveBlock.block (b : LiveBlock) : DyadicBlock := ⟨b.layout.cls, b.ptr⟩

namespace Heap

def freeBlocks (heap : Heap) : List DyadicBlock := heap.allocator.freeBlocks

def liveBlocks (heap : Heap) : List DyadicBlock := heap.live.map LiveBlock.block

/-! ## What a call does to the blocks -/

/-- An allocation that returns splits a free block and makes its last upper half
live. -/
theorem step_alloc {heap heap' : Heap} {layout : Layout}
    (h : heap.step (.alloc layout) = some heap') (hsized : heap.allocator.Sized) :
    heap'.allocator.Sized ∧ layout.cls < maxOrder ∧
      ∃ ptr b l, heap'.live = ⟨ptr, layout⟩ :: heap.live ∧ heap.freeBlocks.Perm (b :: l) ∧
        Splits b l ⟨layout.cls, ptr⟩ heap'.freeBlocks := by
  simp only [step] at h
  split at h
  next ptr a hcall =>
    obtain rfl := Option.some.inj h
    obtain ⟨⟨popped, a₁⟩, halloc, hcall⟩ := Checked.bind_eq_ok.mp hcall
    obtain ⟨chunk, hchunk, hret⟩ := Checked.bind_eq_ok.mp hcall
    obtain rfl := Checked.expect_eq_ok.mp hchunk
    obtain ⟨rfl, rfl⟩ : chunk.start = ptr ∧ a₁ = a := by simpa using hret
    obtain ⟨hsized', hcls, b, l, hperm, hsplits⟩ := BuddyAllocator.alloc_spec halloc hsized
    exact ⟨hsized', hcls, chunk.start, b, l, rfl, hperm, hsplits⟩
  next => simp at h

/-- A deallocation that returns merges a live block into the free ones, and files
the result unless it has outgrown the lists. -/
theorem step_dealloc {heap heap' : Heap} {block : LiveBlock}
    (h : heap.step (.dealloc block) = some heap') (hsized : heap.allocator.Sized)
    (hcls : ∀ b ∈ heap.live, b.layout.cls < maxOrder) :
    heap'.allocator.Sized ∧ heap.live.Perm (block :: heap'.live) ∧
      ∃ c l, Merges block.block heap.freeBlocks c l ∧
        ((c.cls < maxOrder ∧ c.buddy ∉ l ∧ heap'.freeBlocks.Perm (c :: l)) ∨
          (c.cls = maxOrder ∧ heap'.freeBlocks = l)) := by
  simp only [step] at h
  split at h
  next hlive =>
    split at h
    next a hcall =>
      obtain rfl := Option.some.inj h
      have hclass : Bits.trailingZeros 64 block.layout.alignLayoutSize = block.layout.cls := rfl
      simp only [BuddyAllocator.globalDealloc, BuddyAllocator.dealloc, hclass] at hcall
      obtain ⟨hsized', c, l, hmerges, hend⟩ :=
        BuddyAllocator.deallocLoop_spec hcall hsized block.layout.two_pow_cls.symm
          (Nat.le_of_lt (hcls block hlive)) (Nat.le_add_left _ _)
      exact ⟨hsized', List.perm_cons_erase hlive, c, l, hmerges, hend⟩
    next => simp at h
  next => simp at h

/-! ## The invariant -/

structure Inv (region : HeapRegion) (heap : Heap) : Prop where
  fits : region.start + region.size < 2 ^ 64
  sized : heap.allocator.Sized
  classes : ∀ b ∈ heap.live, b.layout.cls < maxOrder
  packed : Packed (heap.freeBlocks ++ heap.liveBlocks)
  inside : ∀ x, Covers (heap.freeBlocks ++ heap.liveBlocks) x →
    region.start ≤ x ∧ x < region.start + region.size
  coalesced : Coalesced (maxOrder - 1) heap.freeBlocks

theorem boot_spec {region : HeapRegion} {heap : Heap} (h : boot region = some heap) :
    heap.live = [] ∧ Inv region heap ∧
      ∀ x, Covers heap.freeBlocks x ↔ region.start ≤ x ∧ x < region.start + region.size := by
  simp only [boot] at h
  split at h
  next a hinit =>
    obtain rfl := Option.some.inj h
    obtain ⟨hfits, hsized, hpacked, hcovers, hcoalesced⟩ :=
      BuddyAllocator.init_spec region.start_pos hinit
    have hblocks : (Heap.mk a []).freeBlocks ++ (Heap.mk a []).liveBlocks = a.freeBlocks := by
      simp [freeBlocks, liveBlocks]
    refine ⟨rfl, ⟨hfits, hsized, by simp, hblocks ▸ hpacked, fun x hx => ?_, hcoalesced⟩, hcovers⟩
    rw [hblocks] at hx
    exact (hcovers x).mp hx
  next => simp at h

theorem live_of_alloc {heap heap' : Heap} {layout : Layout} {ptr : Nat}
    (h : heap'.live = ⟨ptr, layout⟩ :: heap.live) :
    (heap'.freeBlocks ++ heap'.liveBlocks).Perm
      (⟨layout.cls, ptr⟩ :: (heap'.freeBlocks ++ heap.liveBlocks)) := by
  have hlives : heap'.liveBlocks = ⟨layout.cls, ptr⟩ :: heap.liveBlocks := by
    simp [liveBlocks, h, LiveBlock.block]
  rw [hlives]
  exact List.perm_middle

theorem live_of_dealloc {heap heap' : Heap} {block : LiveBlock}
    (h : heap.live.Perm (block :: heap'.live)) :
    (heap.freeBlocks ++ heap.liveBlocks).Perm
      (block.block :: (heap.freeBlocks ++ heap'.liveBlocks)) :=
  ((h.map LiveBlock.block).append_left _).trans List.perm_middle

/-- The invariant without the coalescing: the blocks are packed and lie in the given bytes. -/
structure Kept (bytes : Nat → Prop) (heap : Heap) : Prop where
  sized : heap.allocator.Sized
  classes : ∀ b ∈ heap.live, b.layout.cls < maxOrder
  packed : Packed (heap.freeBlocks ++ heap.liveBlocks)
  inside : ∀ x, Covers (heap.freeBlocks ++ heap.liveBlocks) x → bytes x

namespace Kept

variable {bytes : Nat → Prop} {heap heap' : Heap}

/-- An allocation moves bytes from the free to the live blocks. -/
theorem covers_of_alloc {layout : Layout} (hkept : Kept bytes heap)
    (h : heap.step (.alloc layout) = some heap') (x : Nat) :
    Covers (heap'.freeBlocks ++ heap'.liveBlocks) x ↔
      Covers (heap.freeBlocks ++ heap.liveBlocks) x := by
  obtain ⟨_, _, ptr, b, l, hlive, hperm, hsplits⟩ := step_alloc h hkept.sized
  have hfree : Packed (b :: l) :=
    (hkept.packed.sublist (List.sublist_append_left _ _)).perm hperm
  rw [covers_perm (live_of_alloc hlive), ← List.cons_append, covers_append,
    hsplits.covers hfree, ← covers_perm hperm, ← covers_append]

/-- Merging a live block into the free ones keeps the bytes of all blocks. -/
theorem covers_of_merges {block : LiveBlock} {c : DyadicBlock} {l : List DyadicBlock}
    (hkept : Kept bytes heap) (hlive : heap.live.Perm (block :: heap'.live))
    (hmerges : Merges block.block heap.freeBlocks c l) (x : Nat) :
    Covers (c :: (l ++ heap'.liveBlocks)) x ↔
      Covers (heap.freeBlocks ++ heap.liveBlocks) x := by
  have haligned : block.block.Aligned := hkept.packed.aligned _
    ((live_of_dealloc hlive).mem_iff.mpr List.mem_cons_self)
  rw [covers_perm (live_of_dealloc hlive), ← List.cons_append, ← List.cons_append, covers_append,
    covers_append, hmerges.covers haligned]

theorem of_alloc {layout : Layout} (hkept : Kept bytes heap)
    (h : heap.step (.alloc layout) = some heap') : Kept bytes heap' := by
  obtain ⟨hsized, hcls, ptr, b, l, hlive, hperm, hsplits⟩ := step_alloc h hkept.sized
  have hpacked : Packed (b :: (l ++ heap.liveBlocks)) :=
    hkept.packed.perm (hperm.append_right _)
  refine ⟨hsized, ?_, (hsplits.packed _ hpacked).perm (live_of_alloc hlive).symm,
    fun x hx => hkept.inside x ((hkept.covers_of_alloc h x).mp hx)⟩
  rw [hlive]
  exact List.forall_mem_cons.mpr ⟨hcls, hkept.classes⟩

theorem of_dealloc {block : LiveBlock} (hkept : Kept bytes heap)
    (h : heap.step (.dealloc block) = some heap') : Kept bytes heap' := by
  obtain ⟨hsized, hlive, c, l, hmerges, hend⟩ := step_dealloc h hkept.sized hkept.classes
  have hmerged : Packed (c :: (l ++ heap'.liveBlocks)) :=
    hmerges.packed _ (hkept.packed.perm (live_of_dealloc hlive))
  have hclasses : ∀ b ∈ heap'.live, b.layout.cls < maxOrder :=
    fun b hb => hkept.classes b (hlive.mem_iff.mpr (List.mem_cons_of_mem _ hb))
  have hinside : ∀ x, Covers (c :: (l ++ heap'.liveBlocks)) x → bytes x := fun x hx =>
    hkept.inside x ((hkept.covers_of_merges hlive hmerges x).mp hx)
  rcases hend with ⟨_, _, hperm⟩ | ⟨_, hfree⟩
  · have happend : (heap'.freeBlocks ++ heap'.liveBlocks).Perm (c :: (l ++ heap'.liveBlocks)) :=
      hperm.append_right _
    refine ⟨hsized, hclasses, hmerged.perm happend.symm, fun x hx => ?_⟩
    exact hinside x ((covers_perm happend).mp hx)
  · -- the merged block is dropped, so the rest of the blocks is what stays
    refine ⟨hsized, hclasses, ?_, fun x hx => ?_⟩
    · rw [hfree]
      exact (packed_cons.mp hmerged).2.2
    · rw [hfree] at hx
      exact hinside x (covers_cons.mpr (.inr hx))

theorem of_step {op : HeapOp} (hkept : Kept bytes heap) (h : heap.step op = some heap') :
    Kept bytes heap' := by
  cases op with
  | alloc layout => exact hkept.of_alloc h
  | dealloc block => exact hkept.of_dealloc h

end Kept

theorem Inv.kept {region : HeapRegion} {heap : Heap} (hinv : Inv region heap) :
    Kept (fun x => region.start ≤ x ∧ x < region.start + region.size) heap :=
  ⟨hinv.sized, hinv.classes, hinv.packed, hinv.inside⟩

/-- Splitting and merging keep the free blocks coalesced. -/
theorem Inv.coalesced_of_step {region : HeapRegion} {heap heap' : Heap} {op : HeapOp}
    (hinv : Inv region heap) (h : heap.step op = some heap') :
    Coalesced (maxOrder - 1) heap'.freeBlocks := by
  cases op with
  | alloc layout =>
      obtain ⟨_, _, ptr, b, l, _, hperm, hsplits⟩ := step_alloc h hinv.sized
      have hpacked : Packed (b :: l) :=
        (hinv.packed.sublist (List.sublist_append_left _ _)).perm hperm
      refine hsplits.coalesced hpacked ?_
      exact hinv.coalesced.subset fun d hd => hperm.mem_iff.mpr (List.mem_cons_of_mem _ hd)
  | dealloc block =>
      obtain ⟨_, _, c, l, hmerges, hend⟩ := step_dealloc h hinv.sized hinv.classes
      have hl : Coalesced (maxOrder - 1) l :=
        hinv.coalesced.subset fun d hd => hmerges.mem hd
      rcases hend with ⟨_, hbuddy, hperm⟩ | ⟨_, hfree⟩
      · exact (hl.cons hbuddy).subset fun d hd => hperm.mem_iff.mp hd
      · rw [hfree]
        exact hl

theorem Inv.of_step {region : HeapRegion} {heap heap' : Heap} {op : HeapOp}
    (hinv : Inv region heap) (h : heap.step op = some heap') : Inv region heap' := by
  have hkept := hinv.kept.of_step h
  exact ⟨hinv.fits, hkept.sized, hkept.classes, hkept.packed, hkept.inside,
    hinv.coalesced_of_step h⟩

/-! ## Runs -/

theorem after_nil {region : HeapRegion} {heap : Heap} :
    after region [] = some heap ↔ boot region = some heap := by
  simp [after]

theorem after_append {region : HeapRegion} {ops : List HeapOp} {op : HeapOp} {heap' : Heap} :
    after region (ops ++ [op]) = some heap' ↔
      ∃ heap, after region ops = some heap ∧ heap.step op = some heap' := by
  simp only [after, Option.bind_eq_some_iff, List.foldlM_append, List.foldlM_cons,
    List.foldlM_nil, bind_pure]
  constructor
  · rintro ⟨first, hboot, hrun⟩
    obtain ⟨heap, hheap, hstep⟩ := Option.bind_eq_some_iff.mp hrun
    exact ⟨heap, ⟨first, hboot, hheap⟩, hstep⟩
  · rintro ⟨heap, ⟨first, hboot, hheap⟩, hstep⟩
    exact ⟨first, hboot, Option.bind_eq_some_iff.mpr ⟨heap, hheap, hstep⟩⟩

theorem Inv.of_after {region : HeapRegion} {ops : List HeapOp} {heap : Heap}
    (h : after region ops = some heap) : Inv region heap := by
  induction ops using List.reverseRecOn generalizing heap with
  | nil => exact (boot_spec (after_nil.mp h)).2.1
  | append_singleton ops op ih =>
      obtain ⟨before, hbefore, hstep⟩ := after_append.mp h
      exact (ih hbefore).of_step hstep

/-! ## What callers rely on -/

/-- The byte ranges of `n` bytes at `p` and `m` bytes at `q` do not meet. -/
def SpansApart (p n q m : Nat) : Prop := p + n ≤ q ∨ q + m ≤ p

structure Safe (region : HeapRegion) (heap : Heap) : Prop where
  pointer_aligned : ∀ b ∈ heap.live, b.ptr % b.layout.align = 0
  size_le : ∀ b ∈ heap.live, b.layout.size ≤ b.layout.alignLayoutSize
  live_inside : ∀ b ∈ heap.live, region.start ≤ b.ptr ∧
    b.ptr + b.layout.alignLayoutSize ≤ region.start + region.size
  live_apart : heap.live.Pairwise fun b c =>
    SpansApart b.ptr b.layout.alignLayoutSize c.ptr c.layout.alignLayoutSize
  live_free_apart : ∀ b ∈ heap.live, ∀ cls, ∀ chunk ∈ heap.allocator.list cls,
    SpansApart b.ptr b.layout.alignLayoutSize chunk.start chunk.size
  chunk_size : ∀ cls, ∀ chunk ∈ heap.allocator.list cls, chunk.size = 2 ^ cls
  chunk_aligned : ∀ cls, ∀ chunk ∈ heap.allocator.list cls, chunk.start % 2 ^ cls = 0
  chunk_inside : ∀ cls, ∀ chunk ∈ heap.allocator.list cls, region.start ≤ chunk.start ∧
    chunk.start + chunk.size ≤ region.start + region.size
  chunk_once : ∀ cls, (heap.allocator.list cls).Nodup
  free_apart : ∀ cls, ∀ chunk ∈ heap.allocator.list cls, ∀ cls',
    ∀ chunk' ∈ heap.allocator.list cls', (cls ≠ cls' ∨ chunk ≠ chunk') →
      SpansApart chunk.start chunk.size chunk'.start chunk'.size
  dealloc_returns : ∀ b ∈ heap.live, ∃ heap', heap.step (.dealloc b) = some heap'

section Reading

variable {region : HeapRegion} {heap : Heap}

theorem mem_freeBlocks_of_mem_list {cls : Nat} {chunk : Chunk}
    (h : chunk ∈ heap.allocator.list cls) : ⟨cls, chunk.start⟩ ∈ heap.freeBlocks :=
  BuddyAllocator.mem_freeBlocks_of_mem_list h

theorem mem_liveBlocks_of_mem_live {b : LiveBlock} (h : b ∈ heap.live) :
    b.block ∈ heap.liveBlocks :=
  List.mem_map_of_mem h

theorem Inv.block_inside (hinv : Inv region heap) {b : DyadicBlock}
    (hb : b ∈ heap.freeBlocks ++ heap.liveBlocks) :
    region.start ≤ b.start ∧ b.start + 2 ^ b.cls ≤ region.start + region.size := by
  have hpos := Nat.two_pow_pos b.cls
  have hfirst := hinv.inside b.start ⟨b, hb, holds_start b⟩
  have hlast := hinv.inside (b.start + 2 ^ b.cls - 1) ⟨b, hb, by simp only [Holds]; omega⟩
  omega

theorem Inv.list_nodup (hinv : Inv region heap) (cls : Nat) :
    (heap.allocator.list cls).Nodup := by
  have hfree : heap.freeBlocks.Nodup :=
    hinv.packed.nodup.sublist (List.sublist_append_left _ _)
  rcases Nat.lt_or_ge cls maxOrder with hlt | hge
  · have hclass := (List.nodup_flatMap.mp hfree).1 cls (List.mem_range.mpr hlt)
    exact hclass.of_map
  · rw [BuddyAllocator.list_of_le _ hge]
    exact List.nodup_nil

theorem Inv.live_apart (hinv : Inv region heap) : heap.live.Pairwise fun b c =>
    SpansApart b.ptr b.layout.alignLayoutSize c.ptr c.layout.alignLayoutSize := by
  have hsep := (List.pairwise_append.mp hinv.packed.separate).2.1
  refine (List.pairwise_map.mp hsep).imp fun {b c} hbc => ?_
  have happart := hbc.le_or_le
  simpa only [SpansApart, LiveBlock.block, Layout.two_pow_cls] using happart

theorem Inv.live_free_apart (hinv : Inv region heap) {b : LiveBlock} (hb : b ∈ heap.live)
    {cls : Nat} {chunk : Chunk} (hchunk : chunk ∈ heap.allocator.list cls) :
    SpansApart b.ptr b.layout.alignLayoutSize chunk.start chunk.size := by
  have hsep := (List.pairwise_append.mp hinv.packed.separate).2.2 _
    (mem_freeBlocks_of_mem_list hchunk) _ (mem_liveBlocks_of_mem_live hb)
  have happart := hsep.symm.le_or_le
  simpa only [SpansApart, LiveBlock.block, Layout.two_pow_cls, hinv.sized cls chunk hchunk]
    using happart

theorem Inv.free_apart (hinv : Inv region heap) {cls cls' : Nat} {chunk chunk' : Chunk}
    (hchunk : chunk ∈ heap.allocator.list cls) (hchunk' : chunk' ∈ heap.allocator.list cls')
    (hne : cls ≠ cls' ∨ chunk ≠ chunk') :
    SpansApart chunk.start chunk.size chunk'.start chunk'.size := by
  have hsize := hinv.sized cls chunk hchunk
  have hsize' := hinv.sized cls' chunk' hchunk'
  have hblocks : (⟨cls, chunk.start⟩ : DyadicBlock) ≠ ⟨cls', chunk'.start⟩ := by
    intro heq
    obtain ⟨rfl, hstart⟩ := DyadicBlock.mk.inj heq
    exact hne.elim (fun h => h rfl) fun h => h (Chunk.ext hstart (hsize.trans hsize'.symm))
  have hsep := (List.pairwise_append.mp hinv.packed.separate).1.forall
    (mem_freeBlocks_of_mem_list hchunk) (mem_freeBlocks_of_mem_list hchunk') hblocks
  have happart := hsep.le_or_le
  simpa only [SpansApart, hsize, hsize'] using happart

theorem Inv.dealloc_returns (hinv : Inv region heap) {b : LiveBlock} (hb : b ∈ heap.live) :
    ∃ heap', heap.step (.dealloc b) = some heap' := by
  have hpos := region.start_pos
  have hfree : ∀ c ∈ heap.allocator.freeBlocks, 0 < c.start := fun c hc =>
    Nat.lt_of_lt_of_le hpos (hinv.block_inside (List.mem_append_left _ hc)).1
  have hptr := (hinv.block_inside (List.mem_append_right _ (mem_liveBlocks_of_mem_live hb))).1
  obtain ⟨a, ha⟩ := BuddyAllocator.deallocLoop_returns maxOrder heap.allocator hinv.sized
    b.layout.two_pow_cls.symm (Nat.le_of_lt (hinv.classes b hb)) (Nat.lt_of_lt_of_le hpos hptr)
    hfree
  have hcall : heap.allocator.globalDealloc b.ptr b.layout = .ok a := ha
  exact ⟨⟨a, heap.live.erase b⟩, by simp [step, hb, hcall]⟩

end Reading

/-- After `init` and any calls that return, every live block is aligned, large
enough, inside the region, apart from all other live and free memory, and can be
given back, and the free lists hold disjoint aligned chunks of their classes. -/
theorem safe_of_after (region : HeapRegion) (ops : List HeapOp) (heap : Heap)
    (h : after region ops = some heap) : Safe region heap := by
  have hinv := Inv.of_after h
  have hlive : ∀ b ∈ heap.live, b.block ∈ heap.freeBlocks ++ heap.liveBlocks := fun b hb =>
    List.mem_append_right _ (mem_liveBlocks_of_mem_live hb)
  have hfree : ∀ cls, ∀ chunk ∈ heap.allocator.list cls,
      ⟨cls, chunk.start⟩ ∈ heap.freeBlocks ++ heap.liveBlocks := fun cls chunk hchunk =>
    List.mem_append_left _ (mem_freeBlocks_of_mem_list hchunk)
  refine ⟨fun b hb => ?_, fun b _ => b.layout.size_le_alignLayoutSize, fun b hb => ?_,
    hinv.live_apart, fun b hb cls chunk => hinv.live_free_apart hb, hinv.sized,
    fun cls chunk hchunk => ?_, fun cls chunk hchunk => ?_, hinv.list_nodup,
    fun cls chunk hchunk cls' chunk' => hinv.free_apart hchunk, fun b => hinv.dealloc_returns⟩
  · have haligned : 2 ^ b.layout.cls ∣ b.ptr := hinv.packed.aligned _ (hlive b hb)
    exact Nat.mod_eq_zero_of_dvd (Nat.dvd_trans b.layout.align_dvd_two_pow_cls haligned)
  · have hinside := hinv.block_inside (hlive b hb)
    simpa only [LiveBlock.block, Layout.two_pow_cls] using hinside
  · exact Nat.mod_eq_zero_of_dvd (hinv.packed.aligned _ (hfree cls chunk hchunk))
  · rw [hinv.sized cls chunk hchunk]
    exact hinv.block_inside (hfree cls chunk hchunk)

/-- The kernel's own heap: 100 KiB at `HEAP_START`. -/
def kernelHeap : HeapRegion := ⟨0x444444440000, 100 * 1024, by decide, by decide, by decide⟩

def pageLayout : Layout := ⟨0x1000, 0x1000, ⟨12, by decide, rfl⟩, by decide⟩

theorem safe_of_two_pages :
    ∃ heap, after kernelHeap [.alloc pageLayout, .alloc pageLayout,
        .dealloc ⟨0x444444458000, pageLayout⟩] = some heap ∧
      heap.live = [⟨0x444444457000, pageLayout⟩] ∧ Safe kernelHeap heap := by
  have hlive : (after kernelHeap [.alloc pageLayout, .alloc pageLayout,
      .dealloc ⟨0x444444458000, pageLayout⟩]).map Heap.live =
        some [⟨0x444444457000, pageLayout⟩] := by decide
  obtain ⟨heap, hheap, hlive⟩ := Option.map_eq_some_iff.mp hlive
  exact ⟨heap, hheap, hlive, safe_of_after _ _ heap hheap⟩

end Heap

end MiniatureOs
