import MiniatureOs.Heap.Safety
import MiniatureOs.Sync.Mutex

/-! # The heap behind its lock

`GlobalAlloc for Locked<BuddyAllocator>` of `kernel/src/allocator/buddy_allocator.rs` takes
the lock, works on the free lists, and drops the guard when the call returns. The search of
a list, a round of a loop and the last operation on a list are accesses of their own, so
other threads run between them. A call that panics never drops its guard.
-/

namespace MiniatureOs

inductive AllocatorPoint where
  | search (layout : Layout)
  | split (layout : Layout) (count : Nat)
  | merge (region : Region) (currentClass : Nat)

namespace LockedHeap

open BuddyAllocator

/-- `GlobalAlloc::alloc` and `GlobalAlloc::dealloc` behind `self.lock()`. -/
def enter : HeapOp → AllocatorPoint
  | .alloc layout => .search layout
  | .dealloc block =>
      .merge ⟨block.ptr, block.layout.alignLayoutSize⟩
        (Bits.trailingZeros 64 block.layout.alignLayoutSize)

def access (a : BuddyAllocator) :
    AllocatorPoint → Checked (Access AllocatorPoint (Option Nat) × BuddyAllocator)
  | .search layout =>
      .ok (.next (.split layout ((a.firstNonEmpty layout.cls).elim 0 (· - layout.cls))), a)
  | .split layout (count + 1) => do
      let (popped, a) ← a.popFront (layout.cls + count + 1)
      let chunk ← Checked.expect "Allocator ran out of memory" popped
      let size := 2 ^ (layout.cls + count)
      let a ← a.pushFront (layout.cls + count) ⟨chunk.start, size⟩
      let address ← Checked.add 64 chunk.start size
      let a ← a.pushFront (layout.cls + count) ⟨address, size⟩
      return (.next (.split layout count), a)
  | .split layout 0 => do
      let (popped, a) ← a.popFront layout.cls
      let chunk ← Checked.expect "Allocator ran out of memory" popped
      return (.done (some chunk.start), a)
  | .merge region currentClass =>
      if currentClass < maxOrder then do
        let buddyStart := region.start ^^^ 2 ^ currentClass
        let (found, a) ← a.remove currentClass buddyStart
        match found with
        | some _ =>
            let size ← Checked.mul 64 region.size 2
            return (.next (.merge ⟨min region.start buddyStart, size⟩ (currentClass + 1)), a)
        | none =>
            let a ← a.pushFront currentClass ⟨region.start, region.size⟩
            return (.done none, a)
      else return (.done none, a)

def code : GuardedCode HeapOp AllocatorPoint (Option Nat) BuddyAllocator where
  enter := enter
  access := fun point a result a' => access a point = .ok (result, a')

/-! ## A call that nothing interrupts -/

/-- What is left of `alloc` when the lists are split. -/
def popLast (layout : Layout) (split : Bool × BuddyAllocator) :
    Checked (Option Nat × BuddyAllocator) := do
  let (popped, a) ← if split.1 then split.2.popFront layout.cls else pure (none, split.2)
  let chunk ← Checked.expect "Allocator ran out of memory" popped
  return (some chunk.start, a)

def rest : AllocatorPoint → BuddyAllocator → Checked (Option Nat × BuddyAllocator)
  | .search layout, a => do
      let (ptr, a) ← a.globalAlloc layout
      return (some ptr, a)
  | .split layout count, a => do popLast layout (← splitLoop layout.cls count a)
  | .merge region currentClass, a => do
      let a ← deallocLoop (maxOrder - currentClass) a region currentClass
      return (none, a)

variable {a a' : BuddyAllocator} {point point' : AllocatorPoint} {result : Option Nat}

theorem rest_search (layout : Layout) (a : BuddyAllocator) :
    rest (.search layout) a =
      rest (.split layout ((a.firstNonEmpty layout.cls).elim 0 (· - layout.cls))) a := by
  cases h : a.firstNonEmpty layout.cls with
  | none => simp [rest, globalAlloc, alloc, h, splitLoop, popLast]
  | some i =>
      simp only [rest, globalAlloc, alloc, h, Option.elim_some, popLast, bind_assoc]
      congr 1
      funext split
      cases split.1 <;> rfl

theorem rest_split {layout : Layout} {count : Nat}
    (h : access a (.split layout (count + 1)) = .ok (.next point', a')) :
    rest (.split layout (count + 1)) a = rest point' a' := by
  simp only [access, Checked.bind_eq_ok, Prod.exists] at h
  obtain ⟨popped, a₁, hpop, chunk, hchunk, a₂, hfirst, address, haddress, a₃, hsecond, h⟩ := h
  obtain rfl := Checked.expect_eq_ok.mp hchunk
  cases h
  simp only [rest, splitLoop, hpop, Checked.ok_bind, hfirst, haddress, hsecond]

theorem rest_merge {region : Region} {currentClass : Nat}
    (h : access a (.merge region currentClass) = .ok (.next point', a')) :
    rest (.merge region currentClass) a = rest point' a' := by
  simp only [access] at h
  split at h
  next hlt =>
    obtain ⟨⟨found, a₁⟩, hremove, h⟩ := Checked.bind_eq_ok.mp h
    cases found with
    | none =>
        obtain ⟨a₂, _, h⟩ := Checked.bind_eq_ok.mp h
        cases h
    | some chunk =>
        obtain ⟨size, hsize, h⟩ := Checked.bind_eq_ok.mp h
        cases h
        have hfuel : maxOrder - currentClass = (maxOrder - (currentClass + 1)) + 1 := by omega
        simp only [rest, hfuel, deallocLoop, if_pos hlt, hremove, hsize, Checked.ok_bind]
  next => cases h

theorem rest_next (h : access a point = .ok (.next point', a')) :
    rest point a = rest point' a' := by
  cases point with
  | search layout =>
      cases h
      exact rest_search layout a
  | split layout count =>
      cases count with
      | zero =>
          obtain ⟨⟨popped, a₁⟩, _, h⟩ := Checked.bind_eq_ok.mp h
          obtain ⟨chunk, _, h⟩ := Checked.bind_eq_ok.mp h
          cases h
      | succ count => exact rest_split h
  | merge region currentClass => exact rest_merge h

theorem rest_done (h : access a point = .ok (.done result, a')) :
    rest point a = .ok (result, a') := by
  cases point with
  | search layout => cases h
  | split layout count =>
      cases count with
      | zero =>
          obtain ⟨⟨popped, a₁⟩, hpop, h⟩ := Checked.bind_eq_ok.mp h
          obtain ⟨chunk, hchunk, h⟩ := Checked.bind_eq_ok.mp h
          obtain rfl := Checked.expect_eq_ok.mp hchunk
          cases h
          simp [rest, splitLoop, popLast, hpop, Checked.expect]
      | succ count =>
          simp only [access, Checked.bind_eq_ok, Prod.exists] at h
          obtain ⟨_, _, _, _, _, _, _, _, _, _, _, h⟩ := h
          cases h
  | merge region currentClass =>
      simp only [access] at h
      split at h
      next hlt =>
        obtain ⟨⟨found, a₁⟩, hremove, h⟩ := Checked.bind_eq_ok.mp h
        cases found with
        | some chunk =>
            obtain ⟨size, _, h⟩ := Checked.bind_eq_ok.mp h
            cases h
        | none =>
            obtain ⟨a₂, hpush, h⟩ := Checked.bind_eq_ok.mp h
            cases h
            have hfuel : maxOrder - currentClass = (maxOrder - (currentClass + 1)) + 1 := by omega
            simp only [rest, hfuel, deallocLoop, if_pos hlt, hremove, hpush, Checked.ok_bind,
              Checked.pure_eq_ok]
      next hge =>
        cases h
        rw [rest, Nat.sub_eq_zero_of_le (Nat.le_of_not_lt hge)]
        rfl

/-- The array has no more than `maxOrder` lists, so more rounds make no difference. -/
theorem deallocLoop_fuel {fuel currentClass : Nat} (a : BuddyAllocator) (region : Region)
    (h : maxOrder - currentClass ≤ fuel) :
    deallocLoop fuel a region currentClass =
      deallocLoop (maxOrder - currentClass) a region currentClass := by
  induction fuel generalizing a region currentClass with
  | zero => rw [Nat.eq_zero_of_le_zero h]
  | succ fuel ih =>
      by_cases hlt : currentClass < maxOrder
      · have hfuel : maxOrder - currentClass = (maxOrder - (currentClass + 1)) + 1 := by omega
        rw [hfuel, deallocLoop, deallocLoop, if_pos hlt, if_pos hlt]
        dsimp only
        congr 1
        funext found
        cases found.1 with
        | none => rfl
        | some chunk =>
            simp only
            congr 1
            funext size
            exact ih _ _ (by omega)
      · rw [Nat.sub_eq_zero_of_le (Nat.le_of_not_lt hlt), deallocLoop, deallocLoop, if_neg hlt]

def call (a : BuddyAllocator) : HeapOp → Checked (Option Nat × BuddyAllocator)
  | .alloc layout => do
      let (ptr, a) ← a.globalAlloc layout
      return (some ptr, a)
  | .dealloc block => do
      let a ← a.globalDealloc block.ptr block.layout
      return (none, a)

theorem call_of_runs {op : HeapOp} (h : code.Runs op a result a') :
    call a op = .ok (result, a') := by
  have hmeaning : rest (enter op) a = .ok (result, a') :=
    h.meaning (fun _ _ _ _ => rest_next) (fun _ _ _ _ => rest_done)
  cases op with
  | alloc layout => exact hmeaning
  | dealloc block =>
      rw [call, globalDealloc, dealloc, deallocLoop_fuel _ _ (Nat.sub_le _ _)]
      exact hmeaning

/-! ## Threads -/

abbrev HeapThreads (ι : Type) :=
  Threads ι HeapOp AllocatorPoint (Option Nat) BuddyAllocator

section Threads

variable {ι : Type} {s s' : HeapThreads ι} {region : HeapRegion} {block : LiveBlock}
  {history : List (ι × HeapOp × Option Nat)}

def heldAfter (held : List LiveBlock) : HeapOp × Option Nat → List LiveBlock
  | (.alloc layout, some ptr) => ⟨ptr, layout⟩ :: held
  | (.alloc _, none) => held
  | (.dealloc block, _) => held.erase block

def held (history : List (ι × HeapOp × Option Nat)) : List LiveBlock :=
  history.foldl (fun held entry => heldAfter held entry.2) []

theorem held_concat (thread : ι) (op : HeapOp) :
    held (history ++ [(thread, op, result)]) = heldAfter (held history) (op, result) := by
  rw [held, List.foldl_append]
  rfl

/-- Only a block that is held is given back, and only by one thread. -/
def Contract (s : HeapThreads ι) : HeapOp → Prop
  | .alloc _ => True
  | .dealloc block => block ∈ held s.history ∧ ∀ i, (s.phase i).call ≠ some (.dealloc block)

def ops (history : List (ι × HeapOp × Option Nat)) : List HeapOp :=
  history.map fun entry => entry.2.1

structure Ran (region : HeapRegion) (val : BuddyAllocator)
    (history : List (ι × HeapOp × Option Nat)) (heap : Heap) : Prop where
  after : Heap.after region (ops history) = some heap
  live : heap.live = held history
  serial : code.Serial val history heap.allocator

theorem serial_unique {val t t' : BuddyAllocator} (h : code.Serial val history t)
    (h' : code.Serial val history t') : t = t' := by
  induction h generalizing t' with
  | nil => exact (GuardedCode.serial_nil.mp h').symm
  | concat _ hrun ih =>
      obtain ⟨u, hbefore, hrun'⟩ := GuardedCode.serial_concat.mp h'
      rw [← ih hbefore] at hrun'
      have hsame := (call_of_runs hrun).symm.trans (call_of_runs hrun')
      exact (Prod.mk.inj (Except.ok.inj hsame)).2

theorem Ran.concat {val t t' : BuddyAllocator} {heap : Heap} {op : HeapOp}
    (h : Ran region val history heap) (thread : ι) (hserial : code.Serial val history t)
    (hrun : code.Runs op t result t')
    (hheld : ∀ block, op = .dealloc block → block ∈ held history) :
    Ran region val (history ++ [(thread, op, result)])
      ⟨t', heldAfter (held history) (op, result)⟩ := by
  obtain rfl := serial_unique h.serial hserial
  have hstep : heap.step op = some ⟨t', heldAfter (held history) (op, result)⟩ := by
    have hcall := call_of_runs hrun
    cases op with
    | alloc layout =>
        obtain ⟨⟨ptr, a⟩, halloc, hret⟩ := Checked.bind_eq_ok.mp hcall
        cases hret
        simp only [Heap.step, halloc, h.live, heldAfter]
    | dealloc block =>
        obtain ⟨a, hdealloc, hret⟩ := Checked.bind_eq_ok.mp hcall
        cases hret
        simp only [Heap.step, h.live, if_pos (hheld block rfl), hdealloc, heldAfter]
  refine ⟨?_, (held_concat thread op).symm, .concat h.serial hrun⟩
  rw [ops, List.map_append]
  exact Heap.after_append.mpr ⟨heap, h.after, hstep⟩

structure Lawful (region : HeapRegion) (val : BuddyAllocator) (s : HeapThreads ι) : Prop where
  owned : Threads.Owned code val s
  ran : ∃ heap, Ran region val s.history heap
  pending : ∀ i block, (s.phase i).call = some (.dealloc block) → block ∈ held s.history
  distinct : ∀ i j block, (s.phase i).call = some (.dealloc block) →
    (s.phase j).call = some (.dealloc block) → i = j

theorem Lawful.initial {val : BuddyAllocator} (hboot : Heap.boot region = some ⟨val, []⟩) :
    Lawful region val (.initial val : HeapThreads ι) where
  owned := .initial code val
  ran := ⟨⟨val, []⟩, Heap.after_nil.mpr hboot, rfl, .nil⟩
  pending := fun _ _ h => nomatch h
  distinct := fun _ _ _ h => nomatch h

/-- A call that returns leaves the blocks of the other calls held. -/
theorem Lawful.pending_ends {val : BuddyAllocator} {op : HeapOp} {i j : ι}
    (h : Lawful region val s) (hcall : (s.phase i).call = some op) (hji : j ≠ i)
    (hpending : (s.phase j).call = some (.dealloc block)) :
    block ∈ heldAfter (held s.history) (op, result) := by
  have hheld := h.pending j block hpending
  cases op with
  | alloc layout =>
      cases result with
      | none => exact hheld
      | some ptr => exact List.mem_cons_of_mem _ hheld
  | dealloc other =>
      have hne : block ≠ other := by
        rintro rfl
        exact hji (h.distinct j i block hpending hcall)
      exact (List.mem_erase_of_ne hne).mpr hheld

variable [DecidableEq ι]

theorem Lawful.step {val : BuddyAllocator} (h : Lawful region val s)
    (hstep : Threads.Step code Contract s s') : Lawful region val s' := by
  have howned := h.owned.step hstep
  cases hstep.cases with
  | begins i op allowed hhistory calls =>
      refine ⟨howned, hhistory ▸ h.ran, fun j block hcall => ?_, fun j k block hj hk => ?_⟩
      · rw [calls] at hcall
        rw [hhistory]
        split at hcall
        next =>
          obtain rfl := Option.some.inj hcall
          exact allowed.1
        next => exact h.pending j block hcall
      · rw [calls] at hj hk
        split at hj <;> split at hk
        next hji hki => exact hji.trans hki.symm
        next hji hki =>
          obtain rfl := Option.some.inj hj
          exact absurd hk (allowed.2 k)
        next hji hki =>
          obtain rfl := Option.some.inj hk
          exact absurd hj (allowed.2 j)
        next => exact h.distinct j k block hj hk
  | goes hhistory calls =>
      refine ⟨howned, hhistory ▸ h.ran, fun j block hcall => ?_, fun j k block hj hk => ?_⟩
      · rw [calls] at hcall
        rw [hhistory]
        exact h.pending j block hcall
      · rw [calls] at hj hk
        exact h.distinct j k block hj hk
  | ends i op result hphase hhistory calls =>
      have hcall : (s.phase i).call = some op := by rw [hphase]; rfl
      obtain ⟨t, -, -, hserial, hworks⟩ := h.owned.taken_by (i := i) (by rw [hphase]; trivial)
      rw [hphase] at hworks
      obtain ⟨heap, hran⟩ := h.ran
      refine ⟨howned, ?_, fun j block hpending => ?_, fun j k block hj hk => ?_⟩
      · rw [hhistory]
        refine ⟨_, hran.concat i hserial hworks fun block hop => ?_⟩
        rw [hop] at hcall
        exact h.pending i block hcall
      · rw [calls] at hpending
        rw [hhistory, held_concat]
        split at hpending
        next => cases hpending
        next hji => exact h.pending_ends hcall hji hpending
      · rw [calls] at hj hk
        split at hj
        next => cases hj
        next =>
          split at hk
          next => cases hk
          next => exact h.distinct j k block hj hk

theorem Lawful.of_reachable {val : BuddyAllocator} (hboot : Heap.boot region = some ⟨val, []⟩)
    (h : Threads.Reachable code Contract val s) : Lawful region val s := by
  induction h with
  | refl => exact .initial hboot
  | tail _ hstep ih => exact ih.step hstep

/-- The calls that have returned are a run of the heap, a free lock guards its lists, and
no two blocks that callers hold share a byte. -/
structure SafelyShared (region : HeapRegion) (s : HeapThreads ι) (heap : Heap) : Prop where
  run : Heap.after region (ops s.history) = some heap
  live : heap.live = held s.history
  lists : s.mutex.lockStatus = false → s.mutex.inner = heap.allocator
  apart : (held s.history).Pairwise fun b c =>
    Heap.SpansApart b.ptr b.layout.alignLayoutSize c.ptr c.layout.alignLayoutSize
  inside : ∀ b ∈ held s.history, region.start ≤ b.ptr ∧
    b.ptr + b.layout.alignLayoutSize ≤ region.start + region.size

/-- However the calls of the threads are interleaved, the heap serves them as if they ran
one after the other. -/
theorem safelyShared_of_reachable (region : HeapRegion) (val : BuddyAllocator)
    (hboot : Heap.boot region = some ⟨val, []⟩) (s : HeapThreads ι)
    (h : Threads.Reachable code Contract val s) : ∃ heap, SafelyShared region s heap := by
  have hlawful := Lawful.of_reachable hboot h
  obtain ⟨heap, hran⟩ := hlawful.ran
  have hinv := Heap.Inv.of_after hran.after
  refine ⟨heap, hran.after, hran.live, fun hfree => ?_, ?_, fun b hb => ?_⟩
  · cases hlawful.owned with
    | taken _ _ status _ _ _ => rw [hfree] at status; cases status
    | free _ _ serial => exact serial_unique serial hran.serial
  · rw [← hran.live]
    exact hinv.live_apart
  · rw [← hran.live] at hb
    have hinside := hinv.block_inside
      (List.mem_append_right _ (Heap.mem_liveBlocks_of_mem_live hb))
    simpa only [LiveBlock.block, Layout.two_pow_cls] using hinside

end Threads

def onePage : HeapRegion := ⟨0x3000, 0x1000, Nat.succ_pos _, rfl, rfl⟩

/-- One thread has the page, and another one spins for a third that looks for a page. -/
theorem safelyShared_onePage :
    ∃ (val : BuddyAllocator) (s : HeapThreads (Fin 3)) (heap : Heap),
      Heap.boot onePage = some ⟨val, []⟩ ∧ Threads.Reachable code Contract val s ∧
      held s.history = [⟨0x3000, Heap.pageLayout⟩] ∧
      s.phase 1 = .guarded (.alloc Heap.pageLayout) (.split Heap.pageLayout 0) ∧
      s.phase 2 = .locking (.alloc Heap.pageLayout) ∧ SafelyShared onePage s heap := by
  let op : HeapOp := .alloc Heap.pageLayout
  let val : BuddyAllocator := BuddyAllocator.new.setList 12 [⟨0x3000, 0x1000⟩]
  have hboot : Heap.boot onePage = some ⟨val, []⟩ := rfl
  let s₁ : HeapThreads (Fin 3) := (Threads.initial val).setPhase 0 (.locking op)
  let s₂ := s₁.setPhase 1 (.locking op)
  let s₃ := s₂.setPhase 2 (.locking op)
  let s₄ := s₃.lockRound code 0 op
  let s₅ := s₄.setPhase 0 (.guarded op (.split Heap.pageLayout 0))
  let s₆ := { s₅ with mutex.inner := val.setList 12 [] }.setPhase 0 (.leaving op (some 0x3000))
  let s₇ := { s₆ with
    mutex := s₆.mutex.drop
    history := s₆.history ++ [(0, op, some 0x3000)] }.setPhase 0 .idle
  let s₈ := s₇.lockRound code 1 op
  let s₉ := s₈.setPhase 1 (.guarded op (.split Heap.pageLayout 0))
  have hsearch : access val (.search Heap.pageLayout) =
      .ok (.next (.split Heap.pageLayout 0), val) := rfl
  have hpop : access val (.split Heap.pageLayout 0) =
      .ok (.done (some 0x3000), val.setList 12 []) := rfl
  have hempty : access (val.setList 12 []) (.search Heap.pageLayout) =
      .ok (.next (.split Heap.pageLayout 0), val.setList 12 []) := rfl
  have hrun : Threads.Reachable code Contract val s₉ := by
    apply Relation.ReflTransGen.tail (b := s₈) _ (.access (i := 1) rfl hempty)
    apply Relation.ReflTransGen.tail (b := s₇) _ (.lock rfl)
    apply Relation.ReflTransGen.tail (b := s₆) _ (.drop rfl)
    apply Relation.ReflTransGen.tail (b := s₅) _ (.finish (i := 0) rfl hpop)
    apply Relation.ReflTransGen.tail (b := s₄) _ (.access (i := 0) rfl hsearch)
    apply Relation.ReflTransGen.tail (b := s₃) _ (.lock rfl)
    apply Relation.ReflTransGen.tail (b := s₂) _ (.call rfl trivial)
    apply Relation.ReflTransGen.tail (b := s₁) _ (.call rfl trivial)
    exact .single (.call rfl trivial)
  obtain ⟨heap, hsafe⟩ := safelyShared_of_reachable onePage val hboot s₉ hrun
  exact ⟨val, s₉, heap, hboot, hrun, rfl, rfl, rfl, hsafe⟩

end LockedHeap

end MiniatureOs
