import MiniatureOs.Heap.ThreadedLists

/-! # The threaded allocator in lockstep

The allocator with its lists in memory and the one with lists of chunks return and panic
together, with the same addresses. Whatever the first writes is the header of a block that
the second has just taken from its lists or was just given: a half of a popped chunk, a
merged or a returned block. The headers on the lists stay as they are.
-/

namespace MiniatureOs

open DyadicBlock Checked
open Chunk (readAt)

/-! ## Blocks with headers -/

structure HoldsHeader (b : DyadicBlock) : Prop where
  room : 4 ≤ b.cls
  pos : 0 < b.start
  fits : b.start + 2 ^ b.cls ≤ 2 ^ 64

namespace HoldsHeader

variable {b c : DyadicBlock}

theorem minSize_le (h : HoldsHeader b) : minSize ≤ 2 ^ b.cls := by
  change 2 ^ 4 ≤ 2 ^ b.cls
  exact Nat.pow_le_pow_right (by decide) h.room

theorem lt (h : HoldsHeader b) : b.start < 2 ^ 64 := by
  have hpos := Nat.two_pow_pos b.cls
  have hfits := h.fits
  omega

def pointer (h : HoldsHeader b) : NonNull := ⟨b.start, Nat.ne_of_gt h.pos, h.lt⟩

theorem apart (hb : HoldsHeader b) (hc : HoldsHeader c) (h : Separate b c) :
    Heap.SpansApart b.start minSize c.start minSize := by
  have hroom := hb.minSize_le
  have hroom' := hc.minSize_le
  have hapart := h.le_or_le
  unfold Heap.SpansApart
  omega

end HoldsHeader

structure Headers (blocks : List DyadicBlock) : Prop where
  packed : Packed blocks
  holds : ∀ b ∈ blocks, HoldsHeader b

namespace Headers

variable {b : DyadicBlock} {l k : List DyadicBlock}

theorem perm (h : Headers l) (hperm : l.Perm k) : Headers k :=
  ⟨h.packed.perm hperm, fun b hb => h.holds b (hperm.mem_iff.mpr hb)⟩

theorem tail (h : Headers (b :: l)) : Headers l :=
  ⟨(packed_cons.mp h.packed).2.2, fun c hc => h.holds c (List.mem_cons_of_mem b hc)⟩

theorem halves {cls start : Nat} (h : Headers (⟨cls + 1, start⟩ :: l)) (hcls : 4 ≤ cls) :
    Headers (⟨cls, start + 2 ^ cls⟩ :: ⟨cls, start⟩ :: l) := by
  obtain ⟨⟨_, hpos, hfits⟩, hl⟩ := List.forall_mem_cons.mp h.holds
  have hpow : 2 ^ (cls + 1) = 2 ^ cls + 2 ^ cls := by rw [Nat.pow_succ, Nat.mul_two]
  have hhalf := Nat.two_pow_pos cls
  simp only at hpos hfits
  have hlow : HoldsHeader ⟨cls, start⟩ := ⟨hcls, hpos, by simp only; omega⟩
  have hhigh : HoldsHeader ⟨cls, start + 2 ^ cls⟩ :=
    ⟨hcls, Nat.add_pos_left hpos _, by simp only; omega⟩
  exact ⟨(packed_halves (h.packed.aligned _ List.mem_cons_self)).mp h.packed,
    List.forall_mem_cons.mpr ⟨hhigh, List.forall_mem_cons.mpr ⟨hlow, hl⟩⟩⟩

theorem parent (h : Headers (b :: b.buddy :: l)) : Headers (b.parent :: l) := by
  obtain ⟨hb, hrest⟩ := List.forall_mem_cons.mp h.holds
  obtain ⟨hbuddy, hl⟩ := List.forall_mem_cons.mp hrest
  have haligned := h.packed.aligned b List.mem_cons_self
  have hpow : 2 ^ (b.cls + 1) = 2 ^ b.cls + 2 ^ b.cls := by rw [Nat.pow_succ, Nat.mul_two]
  refine ⟨(packed_parent haligned).mpr h.packed, List.forall_mem_cons.mpr ⟨?_, hl⟩⟩
  have hroom : 4 ≤ b.parent.cls := Nat.le_succ_of_le hb.room
  cases buddy_cases haligned with
  | inl hlow =>
      obtain ⟨_, hbuddyEq, hparent⟩ := hlow
      have hfits := hbuddy.fits
      rw [hbuddyEq] at hfits
      simp only at hfits
      rw [hparent] at hroom ⊢
      exact ⟨hroom, hb.pos, by simp only; omega⟩
  | inr hhigh =>
      obtain ⟨low, hstart, _, hbuddyEq, hparent⟩ := hhigh
      have hfits := hb.fits
      have hpos := hbuddy.pos
      rw [hbuddyEq] at hpos
      rw [hparent] at hroom ⊢
      exact ⟨hroom, hpos, by simp only; omega⟩

theorem apart {a : BuddyAllocator} (h : Headers (b :: a.freeBlocks)) (d : Nat) :
    ∀ chunk ∈ a.list d, Heap.SpansApart b.start minSize chunk.start minSize := by
  intro chunk hchunk
  have hmem := BuddyAllocator.mem_freeBlocks_of_mem_list hchunk
  exact (h.holds b List.mem_cons_self).apart (h.holds _ (List.mem_cons_of_mem b hmem))
    ((packed_cons.mp h.packed).2.1 _ hmem)

theorem headersApart {a : BuddyAllocator} (h : Headers a.freeBlocks) :
    ThreadedAllocator.HeadersApart a.list := by
  intro cls chunk hchunk cls' chunk' hchunk' hne
  have hmem := BuddyAllocator.mem_freeBlocks_of_mem_list hchunk
  have hmem' := BuddyAllocator.mem_freeBlocks_of_mem_list hchunk'
  have hblocks : (⟨cls, chunk.start⟩ : DyadicBlock) ≠ ⟨cls', chunk'.start⟩ := by
    intro heq
    obtain ⟨hcls, hstart⟩ := DyadicBlock.mk.inj heq
    exact hne.elim (fun h => h hcls) fun h => h hstart
  exact (h.holds _ hmem).apart (h.holds _ hmem') (h.packed.separate.forall hmem hmem' hblocks)

end Headers

/-! ## The list operations in lockstep -/

namespace ThreadedAllocator

structure Refines (t : ThreadedAllocator) (a : BuddyAllocator) : Prop where
  threads : t.Threads a.list
  sized : a.Sized
  headers : Headers a.freeBlocks

variable {t : ThreadedAllocator} {a : BuddyAllocator} {cls start : Nat}

/-- A block beside the free ones gets a header and is pushed. -/
theorem Refines.push (h : t.Refines a) (hheaders : Headers (⟨cls, start⟩ :: a.freeBlocks)) :
    Lockstep Refines ((t.newAtAddress start (2 ^ cls)).pushFront cls start)
      (a.pushFront cls ⟨start, 2 ^ cls⟩) := by
  by_cases hcls : cls < maxOrder
  · have hblock := hheaders.holds _ List.mem_cons_self
    have hsize : 2 ^ cls < 2 ^ 64 :=
      Nat.pow_lt_pow_right (by decide) (by unfold maxOrder at hcls; omega)
    obtain ⟨t', hpush, hthreads⟩ := (h.threads.newAtAddress hheaders.apart (2 ^ cls)).pushFront
      hblock.pointer hcls hheaders.apart
    have habstract := @BuddyAllocator.pushFront_eq_ok a cls ⟨start, 2 ^ cls⟩ hcls hblock.pos
    have hread : readAt (t.newAtAddress start (2 ^ cls)).memory hblock.pointer =
        ⟨start, 2 ^ cls⟩ :=
      Chunk.ext rfl (Chunk.sizeAt_newAtAddress t.memory start hsize)
    rw [hread, ← a.list_setList_eq_update hcls] at hthreads
    have hcall : (t.newAtAddress start (2 ^ cls)).pushFront cls start = .ok t' := hpush
    rw [hcall, habstract]
    exact .returns ⟨hthreads, BuddyAllocator.pushFront_sized habstract h.sized rfl,
      hheaders.perm (BuddyAllocator.pushFront_perm habstract).symm⟩
  · rw [ThreadedAllocator.pushFront, if_neg hcls, BuddyAllocator.pushFront, if_neg hcls]
    exact .panics _

theorem Refines.popFront (h : t.Refines a) (cls : Nat) :
    Lockstep (fun p q => p.1.map NonNull.address = q.1.map Chunk.start ∧ p.2.Refines q.2)
      (t.popFront cls) (a.popFront cls) := by
  by_cases hcls : cls < maxOrder
  · cases hlist : a.list cls with
    | nil =>
        rw [h.threads.popFront_nil hcls hlist, BuddyAllocator.popFront_of_nil hcls hlist]
        exact .returns ⟨rfl, h⟩
    | cons chunk rest =>
        have habstract := BuddyAllocator.popFront_of_cons hcls hlist
        obtain ⟨node, t', hpop, hread, hthreads⟩ :=
          h.threads.popFront_cons hcls h.headers.headersApart hlist
        have hheaders := h.headers.perm (BuddyAllocator.popFront_perm habstract)
        rw [← a.list_setList_eq_update hcls] at hthreads
        rw [hpop, habstract]
        exact .returns ⟨congrArg some (congrArg Chunk.start hread),
          hthreads, BuddyAllocator.popFront_sized habstract h.sized, hheaders.tail⟩
  · rw [ThreadedAllocator.popFront, if_neg hcls, BuddyAllocator.popFront, if_neg hcls]
    exact .panics _

theorem Refines.remove (h : t.Refines a) (cls start : Nat) :
    Lockstep (fun p q => ∃ found t', p = some (found, t') ∧ found.isSome = q.1.isSome ∧
      t'.Refines q.2) (t.remove cls start) (a.remove cls start) := by
  by_cases hcls : cls < maxOrder
  · by_cases hfound : ∃ chunk ∈ a.list cls, chunk.start = start
    · obtain ⟨chunk, hchunk, rfl⟩ := hfound
      obtain ⟨before, behind, hlist⟩ := List.append_of_mem hchunk
      have hat := h.threads cls
      rw [hlist] at hat
      have hbefore : ∀ other ∈ before, other.start ≠ chunk.start := fun other hother =>
        hat.start_ne other (List.mem_append_left _ hother)
      have habstract : a.remove cls chunk.start =
          .ok (some chunk, a.setList cls (before ++ behind)) := by
        rw [BuddyAllocator.remove, if_pos hcls, hlist, LinkedList.remove_append hbefore]
      obtain ⟨node, t', hremove, _, hthreads⟩ :=
        h.threads.remove_found hcls h.headers.headersApart hlist
      obtain ⟨hsized, hperm, _⟩ := BuddyAllocator.remove_spec habstract h.sized
      rw [← a.list_setList_eq_update hcls] at hthreads
      rw [hremove, habstract]
      exact .returns ⟨some node, t', rfl, rfl, hthreads, hsized,
        (h.headers.perm (hperm rfl)).tail⟩
    · have habsent : ∀ chunk ∈ a.list cls, chunk.start ≠ start := fun chunk hchunk heq =>
        hfound ⟨chunk, hchunk, heq⟩
      have habstract : a.remove cls start = .ok (none, a) := by
        rw [BuddyAllocator.remove, if_pos hcls, LinkedList.remove_of_absent habsent]
        dsimp only
        rw [a.setList_list]
      rw [h.threads.remove_absent hcls habsent, habstract]
      exact .returns ⟨none, t, rfl, rfl, h⟩
  · rw [ThreadedAllocator.remove, if_neg hcls, BuddyAllocator.remove, if_neg hcls]
    exact .panics _

/-! ## Adding a region in lockstep -/

theorem refines_new (memory : ByteMemory) : (new memory).Refines BuddyAllocator.new := by
  refine ⟨fun cls => ?_, BuddyAllocator.sized_new, ?_⟩
  · have hhead : (new memory).head cls = none := by
      simp only [head, new, Vector.getElem?_replicate]
      split <;> rfl
    rw [hhead, BuddyAllocator.list_new]
    exact Represents.empty memory
  · rw [BuddyAllocator.freeBlocks_new]
    exact ⟨⟨by simp, List.Pairwise.nil⟩, by simp⟩

/-- The invariant of the loop: the chunks so far end where the next one starts. -/
theorem addRegionLoop_lockstep (fuel : Nat) {start stop : Nat} (h : t.Refines a)
    (hpos : 0 < start) (hstop : stop < 2 ^ 64) (hstart : minSize ∣ start)
    (hstop' : minSize ∣ stop) (hbelow : ∀ b ∈ a.freeBlocks, b.start + 2 ^ b.cls ≤ start) :
    Lockstep Refines (addRegionLoop fuel t start stop)
      (BuddyAllocator.addRegionLoop fuel a start stop) := by
  induction fuel generalizing t a start with
  | zero => exact .returns h
  | succ fuel ih =>
      rw [addRegionLoop, BuddyAllocator.addRegionLoop]
      by_cases hlt : start < stop
      · obtain ⟨c, hroom, hsize, hcls, hdvd, hfit⟩ :=
          BuddyAllocator.chunkSize_room hpos hlt hstop hstart hstop'
        have hheaders : Headers (⟨c, start⟩ :: a.freeBlocks) := by
          refine ⟨packed_cons.mpr ⟨hdvd, fun b hb x hx hbx => ?_, h.headers.packed⟩, ?_⟩
          · have hend := hbelow b hb
            have hfirst := hx.1
            have hlast := hbx.2
            simp only at hfirst
            omega
          · exact List.forall_mem_cons.mpr ⟨⟨hroom, hpos, Nat.le_of_lt (by simp only; omega)⟩,
              h.headers.holds⟩
        have hdvdSize : minSize ∣ 2 ^ c := by
          change 2 ^ 4 ∣ 2 ^ c
          exact Nat.pow_dvd_pow 2 hroom
        rw [if_pos hlt, if_pos hlt, hsize]
        dsimp only
        rw [Bits.trailingZeros_two_pow (by unfold maxOrder at hcls; omega)]
        apply (h.push hheaders).bind
        intro t₁ a₁ _ hpush hrefines
        apply Lockstep.bind_same
        intro next hnext
        obtain ⟨_, rfl⟩ := Checked.add_eq_ok.mp hnext
        apply ih hrefines (Nat.add_pos_left hpos _) (Nat.dvd_add hstart hdvdSize)
        intro b hb
        cases List.mem_cons.mp ((BuddyAllocator.pushFront_perm hpush).mem_iff.mp hb) with
        | inl heq =>
            rw [heq]
        | inr hmem =>
            have hend := hbelow b hmem
            omega
      · rw [if_neg hlt, if_neg hlt]
        exact .returns h

theorem init_lockstep (region : HeapRegion) (memory : ByteMemory) :
    Lockstep Refines ((new memory).init region.start region.size)
      (BuddyAllocator.new.init region.start region.size) := by
  have hstart : minSize ∣ region.start := Nat.dvd_of_mod_eq_zero region.start_aligned
  have hsize : minSize ∣ region.size := Nat.dvd_of_mod_eq_zero region.size_aligned
  apply Lockstep.bind_same
  intro stop hstop
  obtain ⟨hlt, rfl⟩ := Checked.add_eq_ok.mp hstop
  apply Lockstep.bind_same
  intro _ _
  apply addRegionLoop_lockstep _ (refines_new memory) region.start_pos hlt hstart
    (Nat.dvd_add hstart hsize)
  simp

/-! ## Allocation in lockstep -/

theorem Refines.firstNonEmpty_eq (h : t.Refines a) (cls : Nat) :
    t.firstNonEmpty cls = a.firstNonEmpty cls := by
  have hempty : ∀ i, (t.list i).isEmpty = (a.list i).isEmpty := by
    intro i
    have hi := h.threads i
    rw [ThreadedList.isEmpty, list]
    cases hlist : a.list i with
    | nil =>
        rw [hlist] at hi
        rw [hi.head_eq_none]
        rfl
    | cons chunk rest =>
        rw [hlist] at hi
        obtain ⟨node, hhead, _⟩ := hi.uncons
        rw [hhead]
        rfl
  simp only [firstNonEmpty, BuddyAllocator.firstNonEmpty, hempty]

/-- Both halve the same chunks; the headers of the halves are inside the popped one. -/
theorem splitLoop_lockstep (count : Nat) (h : t.Refines a) (hcls : 4 ≤ cls) :
    Lockstep (fun p q => p.1 = q.1 ∧ p.2.Refines q.2) (splitLoop cls count t)
      (BuddyAllocator.splitLoop cls count a) := by
  induction count generalizing t a with
  | zero => exact .returns ⟨rfl, h⟩
  | succ count ih =>
      rw [splitLoop, BuddyAllocator.splitLoop]
      apply (h.popFront (cls + count + 1)).bind
      intro p q _ hpop hrel
      obtain ⟨popped, t₁⟩ := p
      obtain ⟨chunk, a₁⟩ := q
      obtain ⟨hsame, hrefines⟩ := hrel
      cases chunk with
      | none =>
          obtain rfl : popped = none := Option.map_eq_none_iff.mp hsame
          exact .returns ⟨rfl, hrefines⟩
      | some chunk =>
          obtain ⟨node, rfl, hstart⟩ := Option.map_eq_some_iff.mp hsame
          dsimp only
          rw [hstart]
          -- the popped chunk is off its list, so its halves are beside the free blocks
          have hhalves := (h.headers.perm (BuddyAllocator.popFront_perm hpop)).halves
            (Nat.le_add_right_of_le hcls)
          apply (hrefines.push hhalves.tail).bind
          intro t₂ a₂ _ hlow hrefines₂
          apply Lockstep.bind_same
          intro address haddress
          obtain ⟨_, rfl⟩ := Checked.add_eq_ok.mp haddress
          have hhigh := hhalves.perm ((BuddyAllocator.pushFront_perm hlow).symm.cons _)
          apply (hrefines₂.push hhigh).bind
          intro t₃ a₃ _ _ hrefines₃
          exact ih hrefines₃

theorem globalAlloc_lockstep (h : t.Refines a) (layout : Layout) :
    Lockstep (fun p q => p.1 = q.1 ∧ p.2.Refines q.2) (t.globalAlloc layout)
      (a.globalAlloc layout) := by
  have halloc : Lockstep
      (fun p q => p.1.map NonNull.address = q.1.map Chunk.start ∧ p.2.Refines q.2)
      (t.alloc layout) (a.alloc layout) := by
    rw [alloc, BuddyAllocator.alloc, h.firstNonEmpty_eq]
    cases a.firstNonEmpty layout.cls with
    | none => exact h.popFront layout.cls
    | some i =>
        apply (splitLoop_lockstep (i - layout.cls) h layout.four_le_cls).bind
        intro p q _ _ hrel
        obtain ⟨split, t₁⟩ := p
        obtain ⟨split', a₁⟩ := q
        obtain ⟨rfl, hrefines⟩ : split = split' ∧ t₁.Refines a₁ := hrel
        cases split with
        | false => exact .returns ⟨rfl, hrefines⟩
        | true => exact hrefines.popFront layout.cls
  apply halloc.bind
  intro p q _ _ hrel
  obtain ⟨popped, t₁⟩ := p
  obtain ⟨chunk, a₁⟩ := q
  obtain ⟨hsame, hrefines⟩ := hrel
  cases chunk with
  | none =>
      obtain rfl : popped = none := Option.map_eq_none_iff.mp hsame
      exact .panics _
  | some chunk =>
      obtain ⟨node, rfl, hstart⟩ := Option.map_eq_some_iff.mp hsame
      exact .returns ⟨hstart, hrefines⟩

/-! ## Deallocation in lockstep -/

/-- Both merge with the same buddies; the header of the result is inside the merged block. -/
theorem deallocLoop_lockstep (fuel : Nat) (h : t.Refines a)
    (hheaders : Headers (⟨cls, start⟩ :: a.freeBlocks)) :
    Lockstep (fun p q => ∃ t', p = some t' ∧ t'.Refines q)
      (deallocLoop fuel t ⟨start, 2 ^ cls⟩ cls)
      (BuddyAllocator.deallocLoop fuel a ⟨start, 2 ^ cls⟩ cls) := by
  induction fuel generalizing t a start cls with
  | zero => exact .returns ⟨t, rfl, h⟩
  | succ fuel ih =>
      rw [deallocLoop, BuddyAllocator.deallocLoop]
      by_cases hcls : cls < maxOrder
      · rw [if_pos hcls, if_pos hcls]
        apply (h.remove cls (start ^^^ 2 ^ cls)).bind
        intro p q _ hremove hrel
        obtain ⟨buddy, a₁⟩ := q
        obtain ⟨found, t₁, rfl, hsame, hrefines⟩ := hrel
        obtain ⟨_, hsome, hnone⟩ := BuddyAllocator.remove_spec hremove h.sized
        cases buddy with
        | none =>
            obtain rfl : found = none := Option.isNone_iff_eq_none.mp (by simpa using hsame)
            dsimp only
            rw [← (hnone rfl).2] at hheaders
            apply (hrefines.push hheaders).bind_left
            intro t₂ a₂ hrefines₂
            exact .returns ⟨t₂, rfl, hrefines₂⟩
        | some buddy =>
            obtain ⟨node, rfl⟩ := Option.isSome_iff_exists.mp hsame
            dsimp only
            apply Lockstep.bind_same
            intro size hsize
            obtain ⟨_, rfl⟩ := Checked.mul_eq_ok.mp hsize
            -- the parent takes the place of the block and of the removed buddy
            rw [← Nat.pow_succ]
            exact ih hrefines (hheaders.perm ((hsome rfl).cons _)).parent
      · rw [if_neg hcls, if_neg hcls]
        exact .returns ⟨t, rfl, h⟩

theorem dealloc_eq {chunk : NonNull} {size : Nat}
    (h : Chunk.sizeAt t.memory chunk.address = size) :
    t.dealloc chunk =
      deallocLoop maxOrder t ⟨chunk.address, size⟩ (Bits.trailingZeros 64 size) := by
  rw [dealloc, h]

/-- The header that is written into the returned block says its size. -/
theorem globalDealloc_lockstep {ptr : Nat} {layout : Layout} (h : t.Refines a)
    (hheaders : Headers (⟨layout.cls, ptr⟩ :: a.freeBlocks)) :
    Lockstep (fun p q => ∃ t', p = some t' ∧ t'.Refines q) (t.globalDealloc ptr layout)
      (a.globalDealloc ptr layout) := by
  have hblock := hheaders.holds _ List.mem_cons_self
  have hpos := hblock.pos
  have hfits := hblock.fits
  simp only at hpos hfits
  have hsize : Chunk.sizeAt (t.newAtAddress ptr (2 ^ layout.cls)).memory
      hblock.pointer.address = 2 ^ layout.cls :=
    Chunk.sizeAt_newAtAddress t.memory ptr (by omega)
  have hclass : Bits.trailingZeros 64 (2 ^ layout.cls) = layout.cls := by
    rw [layout.two_pow_cls, Layout.cls]
  have hrefines : (t.newAtAddress ptr (2 ^ layout.cls)).Refines a :=
    ⟨h.threads.newAtAddress hheaders.apart _, h.sized, h.headers⟩
  have hnew : NonNull.new ptr = some hblock.pointer := NonNull.new_of_pos hpos hblock.lt
  rw [globalDealloc, ← layout.two_pow_cls, hnew, Checked.unwrap, Checked.ok_bind,
    dealloc_eq hsize, BuddyAllocator.globalDealloc, ← layout.two_pow_cls,
    BuddyAllocator.dealloc, hclass]
  exact deallocLoop_lockstep maxOrder hrefines hheaders

end ThreadedAllocator

end MiniatureOs
