import MiniatureOs.Heap.ThreadedCalls

/-! # The threaded heap over whole runs

The heap with its lists in memory refines the heap with lists of chunks call by call, and
the bytes that callers write are outside the free chunks. After every run the links lead
through the free chunks of each class as the lists of chunks say.
-/

namespace MiniatureOs

open DyadicBlock LinkChain
open Chunk (nextAt readAt)

/-! ## Calls and writes -/

namespace ThreadedHeap

structure Refines (region : HeapRegion) (heap : ThreadedHeap) (spec : Heap) : Prop where
  live : heap.live = spec.live
  inv : Heap.Inv region spec
  allocator : heap.allocator.Refines spec.allocator

variable {region : HeapRegion} {memory : ByteMemory} {heap heap' : ThreadedHeap} {spec : Heap}

theorem boot_rel (region : HeapRegion) (memory : ByteMemory) :
    Option.Rel (Refines region) (boot region memory) (Heap.boot region) := by
  cases (ThreadedAllocator.init_lockstep region memory).outcomes with
  | inl hpanic =>
      obtain ⟨panic, hthreaded, hspec⟩ := hpanic
      rw [boot, hthreaded, Heap.boot, hspec]
      exact .none
  | inr hreturn =>
      obtain ⟨t, a, hthreaded, hspec, hrefines⟩ := hreturn
      have hboot : Heap.boot region = some ⟨a, []⟩ := by rw [Heap.boot, hspec]
      rw [boot, hthreaded, hboot]
      exact .some ⟨rfl, (Heap.boot_spec hboot).2.1, hrefines⟩

theorem headers_of_live {block : LiveBlock} (hinv : Heap.Inv region spec)
    (hheaders : Headers spec.allocator.freeBlocks) (hlive : block ∈ spec.live) :
    Headers (⟨block.layout.cls, block.ptr⟩ :: spec.allocator.freeBlocks) := by
  have hblock : block.block ∈ spec.liveBlocks := Heap.mem_liveBlocks_of_mem_live hlive
  have hinside := hinv.block_inside (List.mem_append_right _ hblock)
  have hpos := region.start_pos
  have hfits := hinv.fits
  have hholds : HoldsHeader block.block :=
    ⟨block.layout.four_le_cls, Nat.lt_of_lt_of_le hpos hinside.1,
      Nat.le_trans hinside.2 (Nat.le_of_lt hfits)⟩
  have hperm := @Heap.live_of_dealloc spec ⟨spec.allocator, spec.live.erase block⟩ block
    (List.perm_cons_erase hlive)
  have hpacked : Packed (block.block :: spec.freeBlocks) :=
    (hinv.packed.perm hperm).sublist ((List.sublist_append_left _ _).cons_cons _)
  exact ⟨hpacked, List.forall_mem_cons.mpr ⟨hholds, hheaders.holds⟩⟩

/-- A call returns on one side when it returns on the other. -/
theorem call_rel (h : Refines region heap spec) (op : HeapOp) :
    Option.Rel (Refines region) (heap.call op) (spec.step op) := by
  cases op with
  | alloc layout =>
      cases (ThreadedAllocator.globalAlloc_lockstep h.allocator layout).outcomes with
      | inl hpanic =>
          obtain ⟨panic, hthreaded, hspec⟩ := hpanic
          rw [call, hthreaded, Heap.step, hspec]
          exact .none
      | inr hreturn =>
          obtain ⟨⟨ptr, t⟩, ⟨ptr', a⟩, hthreaded, hspec, hsame, hrefines⟩ := hreturn
          obtain rfl : ptr = ptr' := hsame
          have hstep : spec.step (.alloc layout) = some ⟨a, ⟨ptr, layout⟩ :: spec.live⟩ := by
            rw [Heap.step, hspec]
          rw [call, hthreaded, hstep]
          exact .some ⟨congrArg _ h.live, h.inv.of_step hstep, hrefines⟩
  | dealloc block =>
      rw [call, h.live]
      by_cases hlive : block ∈ spec.live
      · have hheaders := headers_of_live h.inv h.allocator.headers hlive
        cases (ThreadedAllocator.globalDealloc_lockstep h.allocator hheaders).outcomes with
        | inl hpanic =>
            obtain ⟨panic, hthreaded, hspec⟩ := hpanic
            rw [if_pos hlive, hthreaded, Heap.step, if_pos hlive, hspec]
            exact .none
        | inr hreturn =>
            obtain ⟨_, a, hthreaded, hspec, t, rfl, hrefines⟩ := hreturn
            have hstep : spec.step (.dealloc block) = some ⟨a, spec.live.erase block⟩ := by
              rw [Heap.step, if_pos hlive, hspec]
            rw [if_pos hlive, hthreaded, hstep]
            exact .some ⟨rfl, h.inv.of_step hstep, hrefines⟩
      · rw [if_neg hlive, Heap.step, if_neg hlive]
        exact .none

/-- What a caller writes into its block is not in the header of a free chunk. -/
theorem Refines.write {address : Nat} {byte : UInt8} (h : Refines region heap spec)
    (hwrite : heap.write address byte = some heap') : Refines region heap' spec := by
  rw [ThreadedHeap.write] at hwrite
  split at hwrite
  next hblock =>
    obtain rfl := Option.some.inj hwrite
    obtain ⟨b, hb, hholds⟩ := hblock
    rw [h.live] at hb
    refine ⟨h.live, h.inv, ⟨fun cls => ?_, h.allocator.sized, h.allocator.headers⟩⟩
    apply (h.allocator.threads cls).congr
    intro chunk hchunk x hle hlt
    have hmem := Heap.mem_freeBlocks_of_mem_list hchunk
    have hroom := (h.allocator.headers.holds _ hmem).minSize_le
    have hapart := h.inv.live_free_apart hb hchunk
    rw [h.inv.sized cls chunk hchunk] at hapart
    -- the header is at the front of the chunk, and the byte is in a block apart from it
    apply Function.update_of_ne
    unfold Heap.SpansApart at hapart
    unfold LiveBlock.Holds at hholds
    simp only at hroom
    omega
  next => cases hwrite

/-! ## Runs -/

theorem Refines.run {ops : List ThreadedOp} (h : Refines region heap spec)
    (hrun : ops.foldlM step heap = some heap') :
    ∃ spec', (ThreadedOp.calls ops).foldlM Heap.step spec = some spec' ∧
      Refines region heap' spec' := by
  induction ops generalizing heap spec with
  | nil =>
      obtain rfl : heap = heap' := Option.some.inj hrun
      exact ⟨spec, rfl, h⟩
  | cons op ops ih =>
      rw [List.foldlM_cons] at hrun
      obtain ⟨next, hstep, hrest⟩ := Option.bind_eq_some_iff.mp hrun
      cases op with
      | call op =>
          have hrel := call_rel h op
          generalize hspec : spec.step op = result at hrel
          have hcall : heap.call op = some next := hstep
          rw [hcall] at hrel
          cases hrel with
          | some hrefines =>
              obtain ⟨spec', hspec', hrefines'⟩ := ih hrefines hrest
              refine ⟨spec', ?_, hrefines'⟩
              change (op :: ThreadedOp.calls ops).foldlM Heap.step spec = some spec'
              rw [List.foldlM_cons, hspec]
              exact hspec'
      | write address byte =>
          -- on the lists of chunks nothing happens
          exact ih (h.write hstep) hrest

theorem exists_refines_of_after {ops : List ThreadedOp}
    (h : after region memory ops = some heap) :
    ∃ spec, Heap.after region (ThreadedOp.calls ops) = some spec ∧ Refines region heap spec := by
  obtain ⟨first, hboot, hrun⟩ := Option.bind_eq_some_iff.mp h
  have hrel := boot_rel region memory
  generalize hspec : Heap.boot region = result at hrel
  rw [hboot] at hrel
  cases hrel with
  | some hrefines =>
      obtain ⟨spec, hrun', hrefines'⟩ := hrefines.run hrun
      refine ⟨spec, ?_, hrefines'⟩
      rw [Heap.after, hspec]
      exact hrun'

/-- After any run the next call returns exactly when it does on the lists of chunks: no
walk along the links fails to end. -/
theorem isSome_call_of_after {ops : List ThreadedOp} (op : HeapOp)
    (h : after region memory ops = some heap) :
    ∃ spec, Heap.after region (ThreadedOp.calls ops) = some spec ∧
      (heap.call op).isSome = (spec.step op).isSome := by
  obtain ⟨spec, hspec, hrefines⟩ := exists_refines_of_after h
  refine ⟨spec, hspec, ?_⟩
  have hrel := call_rel hrefines op
  generalize heap.call op = result at hrel ⊢
  generalize spec.step op = result' at hrel ⊢
  cases hrel with
  | some _ => rfl
  | none => rfl

end ThreadedHeap

/-! ## Faithful lists -/

structure Faithful (t : ThreadedAllocator) (lists : Nat → LinkedList) : Prop where
  chains : ∃ nodes : Nat → List NonNull,
    (∀ cls, Follows (nextAt t.memory) (t.head cls) (nodes cls) ∧ (nodes cls).Nodup ∧
      (nodes cls).map (readAt t.memory) = lists cls) ∧
    ∀ cls cls', cls ≠ cls' → (nodes cls).Disjoint (nodes cls')
  push_front : ∀ cls < maxOrder, ∀ block : NonNull,
    (∀ d, ∀ chunk ∈ lists d, Heap.SpansApart block.address minSize chunk.start minSize) →
      ∃ t', t.pushFront cls block.address = .ok t' ∧
        t'.Threads (Function.update lists cls (readAt t.memory block :: lists cls))
  pop_front_empty : ∀ cls < maxOrder, lists cls = [] → t.popFront cls = .ok (none, t)
  pop_front : ∀ cls < maxOrder, ∀ chunk rest, lists cls = chunk :: rest →
    ∃ node t', t.popFront cls = .ok (some node, t') ∧ readAt t.memory node = chunk ∧
      t'.Threads (Function.update lists cls rest)
  remove_absent : ∀ cls < maxOrder, ∀ start, (∀ chunk ∈ lists cls, chunk.start ≠ start) →
    t.remove cls start = .ok (some (none, t))
  remove : ∀ cls < maxOrder, ∀ before chunk behind, lists cls = before ++ chunk :: behind →
    (∀ other ∈ before ++ behind, other.start ≠ chunk.start) ∧
      ∃ node t', t.remove cls chunk.start = .ok (some (some node, t')) ∧
        readAt t.memory node = chunk ∧ t'.Threads (Function.update lists cls (before ++ behind))

namespace ThreadedAllocator

variable {t : ThreadedAllocator} {a : BuddyAllocator}

/-- The chains of two classes share no chunk, because their headers do not overlap. -/
theorem Refines.chains (h : t.Refines a) : ∃ nodes : Nat → List NonNull,
    (∀ cls, Follows (nextAt t.memory) (t.head cls) (nodes cls) ∧ (nodes cls).Nodup ∧
      (nodes cls).map (readAt t.memory) = a.list cls) ∧
    ∀ cls cls', cls ≠ cls' → (nodes cls).Disjoint (nodes cls') := by
  choose nodes hnodes using h.threads
  refine ⟨nodes, fun cls => ⟨(hnodes cls).1, (hnodes cls).1.nodup, (hnodes cls).2⟩, ?_⟩
  intro cls cls' hne node hnode hnode'
  have hmem : readAt t.memory node ∈ a.list cls :=
    (hnodes cls).2 ▸ List.mem_map_of_mem hnode
  have hmem' : readAt t.memory node ∈ a.list cls' :=
    (hnodes cls').2 ▸ List.mem_map_of_mem hnode'
  have hapart := h.headers.headersApart cls _ hmem cls' _ hmem' (.inl hne)
  unfold Heap.SpansApart minSize at hapart
  omega

theorem Refines.faithful (h : t.Refines a) : Faithful t a.list where
  chains := h.chains
  push_front _ hcls block := h.threads.pushFront block hcls
  pop_front_empty _ hcls := h.threads.popFront_nil hcls
  pop_front _ hcls _ _ := h.threads.popFront_cons hcls h.headers.headersApart
  remove_absent _ hcls _ := h.threads.remove_absent hcls
  remove cls hcls _ _ _ hlist :=
    ⟨(hlist ▸ h.threads cls).start_ne,
      h.threads.remove_found hcls h.headers.headersApart hlist⟩

end ThreadedAllocator

namespace ThreadedHeap

/-- After `init` on any memory, calls that return and writes into live blocks, the links in
memory lead through the free chunks of every class exactly as the lists of chunks do
after the same calls. -/
theorem faithful_of_after (region : HeapRegion) (memory : ByteMemory) (ops : List ThreadedOp)
    (heap : ThreadedHeap) (h : after region memory ops = some heap) :
    ∃ spec, Heap.after region (ThreadedOp.calls ops) = some spec ∧ heap.live = spec.live ∧
      Faithful heap.allocator spec.allocator.list := by
  obtain ⟨spec, hspec, hrefines⟩ := exists_refines_of_after h
  exact ⟨spec, hspec, hrefines.live, hrefines.allocator.faithful⟩

def fourChunks : HeapRegion := ⟨0x1000, 64, by decide, by decide, by decide⟩

def chunkLayout : Layout := ⟨0x10, 0x10, ⟨4, by decide, rfl⟩, by decide⟩

/-- The caller overwrites the link in the first block before it gives the block back. -/
theorem faithful_of_after_overwritten :
    ∃ heap spec, after fourChunks (fun _ => 0xff)
        [.call (.alloc chunkLayout), .call (.alloc chunkLayout), .write 0x1030 0x07,
          .call (.dealloc ⟨0x1030, chunkLayout⟩)] = some heap ∧
      heap.live = [⟨0x1020, chunkLayout⟩] ∧
      Heap.after fourChunks [.alloc chunkLayout, .alloc chunkLayout,
        .dealloc ⟨0x1030, chunkLayout⟩] = some spec ∧
      Faithful heap.allocator spec.allocator.list := by
  have hlive : (after fourChunks (fun _ => 0xff)
      [.call (.alloc chunkLayout), .call (.alloc chunkLayout), .write 0x1030 0x07,
        .call (.dealloc ⟨0x1030, chunkLayout⟩)]).map live = some [⟨0x1020, chunkLayout⟩] := by
    decide +kernel
  obtain ⟨heap, hheap, hlive⟩ := Option.map_eq_some_iff.mp hlive
  obtain ⟨spec, hspec, _, hfaithful⟩ := faithful_of_after _ _ _ heap hheap
  exact ⟨heap, spec, hheap, hlive, hspec, hfaithful⟩

end ThreadedHeap

end MiniatureOs
