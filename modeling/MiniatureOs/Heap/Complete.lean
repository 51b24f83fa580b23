import MiniatureOs.Heap.Conservation

/-! # Completeness of the buddy allocator

A call of `alloc` for a class that has a list always returns, and it fails only when no
list from that class on holds a chunk. The free blocks of a heap are coalesced, so there
is then no aligned block of the class among the free bytes either: memory is refused for
want of memory, never for want of a merge.
-/

namespace MiniatureOs

open DyadicBlock

namespace BuddyAllocator

variable {a : BuddyAllocator}

/-- Splitting the front chunk of a list reaches the class below: every list on the way
got two chunks in the round before it is read. -/
theorem splitLoop_total {cls count : Nat} {chunk : Chunk} {rest : LinkedList}
    (hlist : a.list (cls + count) = chunk :: rest) (hcls : cls + count < maxOrder)
    (hpos : 0 < chunk.start) (hfits : chunk.start + 2 ^ (cls + count) < 2 ^ 64) :
    ∃ a' last below, splitLoop cls count a = .ok (true, a') ∧ a'.list cls = last :: below := by
  induction count generalizing a chunk rest with
  | zero => exact ⟨a, chunk, rest, rfl, hlist⟩
  | succ count ih =>
      have hpow : 2 ^ (cls + (count + 1)) = 2 ^ (cls + count) + 2 ^ (cls + count) := by
        rw [← Nat.add_assoc, Nat.pow_succ, Nat.mul_two]
      rw [hpow] at hfits
      have hlower : cls + count < maxOrder := by omega
      have hpop := popFront_of_cons hcls hlist
      obtain ⟨a₂, hlow⟩ := @pushFront_of_pos (a.setList (cls + count + 1) rest) (cls + count)
        ⟨chunk.start, 2 ^ (cls + count)⟩ hlower hpos
      obtain ⟨a₃, hhigh⟩ := @pushFront_of_pos a₂ (cls + count)
        ⟨chunk.start + 2 ^ (cls + count), 2 ^ (cls + count)⟩ hlower (Nat.add_pos_left hpos _)
      obtain ⟨_, hlist₃, _⟩ := pushFront_spec hhigh
      obtain ⟨a', last, below, hloop, hlast⟩ :=
        ih hlist₃ hlower (Nat.add_pos_left hpos _) (by rwa [Nat.add_assoc])
      refine ⟨a', last, below, ?_, hlast⟩
      have hpop' : a.popFront (cls + count + 1) =
          .ok (some chunk, a.setList (cls + count + 1) rest) := hpop
      have haddress : Checked.add 64 chunk.start (2 ^ (cls + count)) =
          .ok (chunk.start + 2 ^ (cls + count)) :=
        Checked.add_of_lt (Nat.lt_of_le_of_lt (Nat.le_add_right _ (2 ^ (cls + count)))
          (by rwa [Nat.add_assoc]))
      simp only [splitLoop, hpop', hlow, haddress, hhigh, Checked.ok_bind]
      exact hloop

/-- The chunks on the lists lie above address zero and end below `2 ^ 64`. -/
def InAddressSpace (a : BuddyAllocator) : Prop :=
  ∀ b ∈ a.freeBlocks, 0 < b.start ∧ b.start + 2 ^ b.cls < 2 ^ 64

/-- The chosen list is split without a panic, and the loop is not left early. -/
theorem split_of_firstNonEmpty (hspace : a.InAddressSpace) {cls i : Nat}
    (hfirst : a.firstNonEmpty cls = some i) :
    ∃ a' last below, splitLoop cls (i - cls) a = .ok (true, a') ∧ a'.list cls = last :: below := by
  obtain ⟨hge, hlt, hne, _⟩ := firstNonEmpty_some hfirst
  obtain ⟨chunk, rest, hlist⟩ := List.exists_cons_of_ne_nil hne
  have hi : cls + (i - cls) = i := by omega
  have hmem : ⟨i, chunk.start⟩ ∈ a.freeBlocks :=
    mem_freeBlocks_of_mem_list (hlist ▸ List.mem_cons_self)
  obtain ⟨hpos, hfits⟩ := hspace _ hmem
  exact splitLoop_total (hi.symm ▸ hlist) (by omega) hpos (hi.symm ▸ hfits)

theorem alloc_of_some (hspace : a.InAddressSpace) {layout : Layout} {i : Nat}
    (hfirst : a.firstNonEmpty layout.cls = some i) :
    ∃ chunk a', a.alloc layout = .ok (some chunk, a') := by
  obtain ⟨hge, hlt, _, _⟩ := firstNonEmpty_some hfirst
  obtain ⟨a₁, last, below, hsplit, hlist⟩ := split_of_firstNonEmpty hspace hfirst
  refine ⟨last, a₁.setList layout.cls below, ?_⟩
  simp only [alloc, hfirst, hsplit, Checked.ok_bind, if_true]
  exact popFront_of_cons (by omega) hlist

theorem alloc_of_none {layout : Layout} (hcls : layout.cls < maxOrder)
    (hfirst : a.firstNonEmpty layout.cls = none) : a.alloc layout = .ok (none, a) := by
  simp only [alloc, hfirst]
  exact popFront_of_nil hcls (firstNonEmpty_none hfirst)

/-- What a call of `alloc` returns is decided by the lists from its class on. -/
theorem alloc_total (hspace : a.InAddressSpace) {layout : Layout} (hcls : layout.cls < maxOrder) :
    ∃ result a', a.alloc layout = .ok (result, a') ∧
      (result.isSome ↔ (a.firstNonEmpty layout.cls).isSome) ∧ (result = none → a' = a) := by
  cases hfirst : a.firstNonEmpty layout.cls with
  | none => exact ⟨none, a, alloc_of_none hcls hfirst, Iff.rfl, fun _ => rfl⟩
  | some i =>
      obtain ⟨chunk, a', hcall⟩ := alloc_of_some hspace hfirst
      refine ⟨some chunk, a', hcall, ⟨fun _ => rfl, fun _ => rfl⟩, fun hnone => ?_⟩
      cases hnone

theorem firstNonEmpty_isSome_iff {cls : Nat} :
    (a.firstNonEmpty cls).isSome ↔ ∃ b ∈ a.freeBlocks, cls ≤ b.cls := by
  constructor
  · intro hsome
    obtain ⟨i, hfirst⟩ := Option.isSome_iff_exists.mp hsome
    obtain ⟨hge, _, hne, _⟩ := firstNonEmpty_some hfirst
    obtain ⟨chunk, rest, hlist⟩ := List.exists_cons_of_ne_nil hne
    exact ⟨⟨i, chunk.start⟩, mem_freeBlocks_of_mem_list (hlist ▸ List.mem_cons_self), hge⟩
  · rintro ⟨b, hb, hge⟩
    obtain ⟨chunk, hchunk, _⟩ := mem_freeBlocks.mp hb
    have hlt := cls_lt_of_mem_freeBlocks hb
    unfold firstNonEmpty
    rw [List.find?_isSome]
    refine ⟨b.cls, List.mem_range'_1.mpr (by omega), ?_⟩
    cases hlist : a.list b.cls with
    | nil =>
        rw [hlist] at hchunk
        cases hchunk
    | cons first rest => rfl

end BuddyAllocator

namespace Heap

variable {region : HeapRegion} {heap : Heap}

theorem Inv.inAddressSpace (hinv : Inv region heap) : heap.allocator.InAddressSpace := by
  intro b hb
  have hinside := hinv.block_inside (List.mem_append_left _ hb)
  have hpos := region.start_pos
  have hfits := hinv.fits
  constructor
  · omega
  · omega

/-- Whether some list from a class on holds a chunk can be read off the free bytes. -/
theorem Inv.exists_class_iff (hinv : Inv region heap) {c : Nat} (hc : c < maxOrder) :
    (∃ b ∈ heap.freeBlocks, c ≤ b.cls) ↔
      ∃ start, 2 ^ c ∣ start ∧ ∀ x, start ≤ x → x < start + 2 ^ c → heap.FreeAt x := by
  have hpacked : Packed heap.freeBlocks := hinv.packed.sublist (List.sublist_append_left _ _)
  constructor
  · rintro ⟨b, hb, hcls⟩
    have hpow : 2 ^ c ≤ 2 ^ b.cls := Nat.pow_le_pow_right (by decide) hcls
    refine ⟨b.start, Nat.dvd_trans (Nat.pow_dvd_pow 2 hcls) (hpacked.aligned b hb), ?_⟩
    intro x hlo hhi
    rw [hinv.freeAt_iff]
    exact ⟨b, hb, hlo, by omega⟩
  · rintro ⟨start, hdvd, hfree⟩
    have hcover : ∀ x, (⟨c, start⟩ : DyadicBlock).Holds x → Covers heap.freeBlocks x :=
      fun x hx => (hinv.freeAt_iff x).mp (hfree x hx.1 hx.2)
    obtain ⟨b, hb, hcls, _⟩ := exists_superblock hpacked hinv.coalesced (b := ⟨c, start⟩) hdvd
      (Nat.le_pred_of_lt hc) hcover
    exact ⟨b, hb, hcls⟩

/-- In every state that a run of calls reaches, an allocation succeeds exactly when the
free chunks cover an aligned block of its size, a failed one changes nothing, and no list
below the last holds a chunk together with its buddy. -/
theorem alloc_complete (region : HeapRegion) (ops : List HeapOp) (heap : Heap)
    (h : after region ops = some heap) :
    (∀ layout c, layout.alignLayoutSize = 2 ^ c → c < maxOrder →
      ∃ result a, heap.allocator.alloc layout = .ok (result, a) ∧
        (result.isSome ↔
          ∃ start, 2 ^ c ∣ start ∧ ∀ x, start ≤ x → x < start + 2 ^ c → heap.FreeAt x) ∧
        (result = none → a = heap.allocator)) ∧
    ∀ c < maxOrder - 1, ∀ chunk ∈ heap.allocator.list c, ∀ other ∈ heap.allocator.list c,
      other.start ≠ chunk.start ^^^ 2 ^ c := by
  have hinv := Inv.of_after h
  constructor
  · intro layout c hsize hc
    have hcls : layout.cls = c := by
      have hpow := layout.two_pow_cls.trans hsize
      exact Nat.pow_right_injective (Nat.le_refl 2) hpow
    obtain ⟨result, a, hcall, hsome, hnone⟩ :=
      BuddyAllocator.alloc_total hinv.inAddressSpace (hcls.symm ▸ hc)
    refine ⟨result, a, hcall, ?_, hnone⟩
    rw [hsome, hcls, BuddyAllocator.firstNonEmpty_isSome_iff]
    exact hinv.exists_class_iff hc
  · intro c hc chunk hchunk other hother hbuddy
    have hblock := mem_freeBlocks_of_mem_list hchunk
    refine hinv.coalesced ⟨c, chunk.start⟩ hblock hc ?_
    have hmem := mem_freeBlocks_of_mem_list hother
    rw [hbuddy] at hmem
    exact hmem

theorem alloc_complete_second_page :
    ∃ heap result a, after kernelHeap [.alloc pageLayout] = some heap ∧
      heap.allocator.alloc pageLayout = .ok (result, a) ∧
      (result.isSome ↔
        ∃ start, 2 ^ 12 ∣ start ∧ ∀ x, start ≤ x → x < start + 2 ^ 12 → heap.FreeAt x) := by
  have hrun : (after kernelHeap [.alloc pageLayout]).isSome = true := by decide
  obtain ⟨heap, hheap⟩ := Option.isSome_iff_exists.mp hrun
  obtain ⟨result, a, hcall, hiff, _⟩ :=
    (alloc_complete kernelHeap [.alloc pageLayout] heap hheap).1 pageLayout 12 (by decide)
      (by decide)
  exact ⟨heap, result, a, hheap, hcall, hiff⟩

end Heap

end MiniatureOs
