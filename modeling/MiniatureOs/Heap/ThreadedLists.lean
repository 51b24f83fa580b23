import MiniatureOs.Heap.Safety
import MiniatureOs.Heap.Threaded
import MiniatureOs.Lib.Chain

/-! # Chains of headers as lists of chunks

A head represents a list of chunks when the links lead from one of them to the next and
then to nothing. That depends on the bytes of their headers only. As long as no two
headers overlap, the list operations of the source do to the represented list what the
operations on lists of chunks do, and leave the lists of the other classes as they are.
-/

namespace MiniatureOs

open LinkChain

/-! ## Headers in memory -/

namespace Chunk

def readAt (m : ByteMemory) (chunk : NonNull) : Chunk :=
  ⟨chunk.address, sizeAt m chunk.address⟩

/-- The bytes of the header at `start` are the same in both memories. -/
def HeaderKept (m m' : ByteMemory) (start : Nat) : Prop :=
  ∀ x, start ≤ x → x < start + minSize → m' x = m x

variable {m m' : ByteMemory} {node other : NonNull} {start address size : Nat}
  {next : Option NonNull}

theorem HeaderKept.nextAt_eq (h : HeaderKept m m' node.address) :
    nextAt m' node = nextAt m node := by
  have hword : m'.readWord node.address = m.readWord node.address :=
    ByteMemory.readWord_congr fun x hle hlt => h x hle (by unfold minSize; omega)
  rw [nextAt, nextAt, hword]

theorem HeaderKept.sizeAt_eq (h : HeaderKept m m' start) : sizeAt m' start = sizeAt m start := by
  have hword : m'.readWord (start + 8) = m.readWord (start + 8) :=
    ByteMemory.readWord_congr fun x hle hlt => h x (by omega) (by unfold minSize; omega)
  rw [sizeAt, sizeAt, hword]

theorem nextAt_setNextAt (m : ByteMemory) (node : NonNull) (next : Option NonNull) :
    nextAt (setNextAt m node.address next) node = next := by
  rw [nextAt, setNextAt, ByteMemory.readWord_writeWord, NonNull.ofWord_toWord]

/-- The link stands before the size. -/
theorem sizeAt_setNextAt (m : ByteMemory) (address : Nat) (next : Option NonNull) :
    sizeAt (setNextAt m address next) address = sizeAt m address := by
  rw [sizeAt, sizeAt, setNextAt,
    ByteMemory.readWord_writeWord_of_disjoint _ _ (.inr (Nat.le_refl _))]

theorem sizeAt_newAtAddress (m : ByteMemory) (address : Nat) (hsize : size < 2 ^ 64) :
    sizeAt (newAtAddress m address size) address = size := by
  rw [newAtAddress, sizeAt_setNextAt, sizeAt, ByteMemory.readWord_writeWord,
    BitVec.toNat_ofNat, Nat.mod_eq_of_lt hsize]

theorem headerKept_setNextAt (h : Heap.SpansApart address minSize start minSize) :
    HeaderKept m (setNextAt m address next) start := by
  intro x hle hlt
  apply ByteMemory.writeWord_outside
  unfold Heap.SpansApart minSize at h
  unfold minSize at hlt
  omega

theorem headerKept_newAtAddress (h : Heap.SpansApart address minSize start minSize) :
    HeaderKept m (newAtAddress m address size) start := by
  intro x hle hlt
  have hsize : m.writeWord (address + 8) (BitVec.ofNat 64 size) x = m x := by
    apply ByteMemory.writeWord_outside
    unfold Heap.SpansApart minSize at h
    unfold minSize at hlt
    omega
  rw [newAtAddress, headerKept_setNextAt h x hle hlt, hsize]

end Chunk

open Chunk (nextAt setNextAt sizeAt readAt HeaderKept)

/-! ## One list -/

/-- Following the links from the head visits the headers of the chunks, in order. -/
def Represents (m : ByteMemory) (head : Option NonNull) (chunks : LinkedList) : Prop :=
  ∃ nodes, Follows (nextAt m) head nodes ∧ nodes.map (readAt m) = chunks

namespace Represents

variable {m m' : ByteMemory} {head : Option NonNull} {chunks : LinkedList} {chunk : Chunk}
  {block : NonNull}

theorem empty (m : ByteMemory) : Represents m none [] := ⟨[], rfl, rfl⟩

theorem congr (h : Represents m head chunks)
    (hkept : ∀ chunk ∈ chunks, HeaderKept m m' chunk.start) : Represents m' head chunks := by
  obtain ⟨nodes, hfollows, rfl⟩ := h
  have hnodes : ∀ node ∈ nodes, HeaderKept m m' node.address := fun node hnode =>
    hkept (readAt m node) (List.mem_map_of_mem hnode)
  refine ⟨nodes, hfollows.congr fun node hnode => (hnodes node hnode).nextAt_eq, ?_⟩
  apply List.map_congr_left
  intro node hnode
  rw [readAt, readAt, (hnodes node hnode).sizeAt_eq]

theorem cons (h : Represents m (nextAt m block) chunks) :
    Represents m (some block) (readAt m block :: chunks) := by
  obtain ⟨nodes, hfollows, rfl⟩ := h
  exact ⟨block :: nodes, ⟨rfl, hfollows⟩, rfl⟩

theorem uncons (h : Represents m head (chunk :: chunks)) :
    ∃ block, head = some block ∧ readAt m block = chunk ∧
      Represents m (nextAt m block) chunks := by
  obtain ⟨nodes, hfollows, hchunks⟩ := h
  cases nodes with
  | nil => cases hchunks
  | cons block nodes =>
      obtain ⟨hblock, hrest⟩ := List.cons.inj hchunks
      exact ⟨block, hfollows.1, hblock, nodes, hfollows.2, hrest⟩

theorem head_eq_none (h : Represents m head []) : head = none := by
  obtain ⟨nodes, hfollows, hchunks⟩ := h
  obtain rfl := List.map_eq_nil_iff.mp hchunks
  exact hfollows

theorem starts_nodup (h : Represents m head chunks) : (chunks.map Chunk.start).Nodup := by
  obtain ⟨nodes, hfollows, rfl⟩ := h
  rw [List.map_map]
  exact hfollows.nodup.map fun _ _ heq => NonNull.ext heq

theorem start_ne {before behind : LinkedList}
    (h : Represents m head (before ++ chunk :: behind)) :
    ∀ other ∈ before ++ behind, other.start ≠ chunk.start := by
  have hstarts := h.starts_nodup
  rw [List.map_append, List.map_cons, List.nodup_middle, List.nodup_cons,
    ← List.map_append] at hstarts
  intro other hother heq
  exact hstarts.1 (List.mem_map.mpr ⟨other, hother, heq⟩)

theorem push (h : Represents m head chunks)
    (hapart : ∀ chunk ∈ chunks, Heap.SpansApart block.address minSize chunk.start minSize) :
    Represents (setNextAt m block.address head) (some block) (readAt m block :: chunks) := by
  have hkept : Represents (setNextAt m block.address head) head chunks :=
    h.congr fun chunk hchunk => Chunk.headerKept_setNextAt (hapart chunk hchunk)
  have hblock : readAt (setNextAt m block.address head) block = readAt m block :=
    Chunk.ext rfl (Chunk.sizeAt_setNextAt m block.address head)
  rw [← hblock]
  apply cons
  rw [Chunk.nextAt_setNextAt]
  exact hkept

end Represents

namespace ThreadedList

variable {list : ThreadedList} {start fuel : Nat} {lastChunk curChunk : Option NonNull}
  {node : NonNull} {skipped rest nodes : List NonNull}

/-- A walk that meets no chunk at the address ends at the end of the chain. -/
theorem removeLoop_absent (h : Follows (nextAt list.memory) curChunk nodes)
    (habsent : ∀ node ∈ nodes, node.address ≠ start) (hfuel : nodes.length < fuel) :
    list.removeLoop start fuel lastChunk curChunk = some (none, list) := by
  induction nodes generalizing fuel lastChunk curChunk with
  | nil =>
      obtain rfl : curChunk = none := h
      cases fuel with
      | zero => exact absurd hfuel (Nat.not_lt_zero _)
      | succ fuel => rfl
  | cons node nodes ih =>
      obtain ⟨rfl, hrest⟩ := h
      obtain ⟨hnode, habsent⟩ := List.forall_mem_cons.mp habsent
      cases fuel with
      | zero => exact absurd hfuel (Nat.not_lt_zero _)
      | succ fuel =>
          rw [removeLoop, if_neg hnode]
          exact ih hrest habsent (Nat.lt_of_succ_lt_succ hfuel)

/-- A walk stops at the first chunk at the address, with the one before it in hand. -/
theorem removeLoop_found
    (h : Follows (nextAt list.memory) curChunk (skipped ++ node :: rest))
    (hskipped : ∀ node ∈ skipped, node.address ≠ start) (hnode : node.address = start)
    (hfuel : skipped.length < fuel) :
    list.removeLoop start fuel lastChunk curChunk =
      some (some node,
        list.unlink (skipped.getLast?.or lastChunk) (nextAt list.memory node)) := by
  induction skipped generalizing fuel lastChunk curChunk with
  | nil =>
      obtain ⟨rfl, _⟩ := h
      cases fuel with
      | zero => exact absurd hfuel (Nat.not_lt_zero _)
      | succ fuel =>
          rw [removeLoop, if_pos hnode]
          rfl
  | cons first skipped ih =>
      obtain ⟨rfl, hrest⟩ := h
      obtain ⟨hfirst, hskipped⟩ := List.forall_mem_cons.mp hskipped
      cases fuel with
      | zero => exact absurd hfuel (Nat.not_lt_zero _)
      | succ fuel =>
          have hlast : (first :: skipped).getLast?.or lastChunk =
              skipped.getLast?.or (some first) := by
            rw [List.getLast?_cons]
            cases skipped.getLast? <;> rfl
          rw [removeLoop, if_neg hfirst, hlast]
          exact ih hrest hskipped (Nat.lt_of_succ_lt_succ hfuel)

/-- Without the removed chunk the chain goes on from the one before it. -/
theorem represents_unlink (h : Follows (nextAt list.memory) list.head (skipped ++ node :: rest))
    (hapart : ∀ x ∈ skipped ++ node :: rest, ∀ y ∈ skipped ++ node :: rest, x ≠ y →
      Heap.SpansApart x.address minSize y.address minSize) :
    Represents (list.unlink skipped.getLast? (nextAt list.memory node)).memory
      (list.unlink skipped.getLast? (nextAt list.memory node)).head
      ((skipped ++ rest).map (readAt list.memory)) := by
  cases skipped using List.reverseRecOn with
  | nil => exact ⟨rest, h.behind, rfl⟩
  | append_singleton skipped last =>
      rw [List.append_assoc] at h hapart
      rw [List.getLast?_concat, List.append_assoc]
      have hmem : ∀ x ∈ skipped ++ last :: rest, x ∈ skipped ++ last :: node :: rest := by
        intro x hx
        simp only [List.mem_append, List.mem_cons] at hx ⊢
        tauto
      have hlast : last ∈ skipped ++ last :: node :: rest :=
        List.mem_append_right _ List.mem_cons_self
      refine ⟨skipped ++ last :: rest, h.unlink.congr fun x hx => ?_, ?_⟩
      · by_cases hx' : x = last
        · subst hx'
          rw [Function.update_self]
          exact Chunk.nextAt_setNextAt _ _ _
        · rw [Function.update_of_ne hx']
          exact (Chunk.headerKept_setNextAt
            (hapart last hlast x (hmem x hx) (Ne.symm hx'))).nextAt_eq
      · apply List.map_congr_left
        intro x hx
        have hsize : sizeAt (setNextAt list.memory last.address (nextAt list.memory node))
            x.address = sizeAt list.memory x.address := by
          by_cases hx' : x = last
          · rw [hx', Chunk.sizeAt_setNextAt]
          · exact (Chunk.headerKept_setNextAt
              (hapart last hlast x (hmem x hx) (Ne.symm hx'))).sizeAt_eq
        exact Chunk.ext rfl hsize

/-- A list without the chunk before the removed one is left as it is. -/
theorem represents_unlink_other {head next : Option NonNull} {chunks : LinkedList}
    (h : Represents list.memory head chunks)
    (hapart : ∀ node ∈ skipped, ∀ chunk ∈ chunks,
      Heap.SpansApart node.address minSize chunk.start minSize) :
    Represents (list.unlink skipped.getLast? next).memory head chunks := by
  cases hlast : skipped.getLast? with
  | none => exact h
  | some last =>
      have hmem : last ∈ skipped := List.mem_of_getLast? hlast
      exact h.congr fun chunk hchunk => Chunk.headerKept_setNextAt (hapart last hmem chunk hchunk)

end ThreadedList

/-! ## The lists of the allocator -/

namespace ThreadedAllocator

variable {t : ThreadedAllocator} {lists : Nat → LinkedList} {cls : Nat}

theorem head_setList (t : ThreadedAllocator) {cls : Nat} (hcls : cls < maxOrder)
    (list : ThreadedList) (d : Nat) :
    (t.setList cls list).head d = if d = cls then list.head else t.head d := by
  by_cases hd : d = cls
  · subst hd
    simp [head, setList, hcls]
  · simp [head, setList, hd, Ne.symm hd]

theorem setList_list (t : ThreadedAllocator) (cls : Nat) : t.setList cls (t.list cls) = t := by
  have hbuddies : t.buddies.setIfInBounds cls (t.head cls) = t.buddies := by
    ext1 i hi
    by_cases hic : cls = i
    · subst hic
      simp [head, hi]
    · rw [Vector.getElem_setIfInBounds_ne hi hic]
  rw [setList, list, hbuddies]

def Threads (t : ThreadedAllocator) (lists : Nat → LinkedList) : Prop :=
  ∀ cls, Represents t.memory (t.head cls) (lists cls)

def HeadersApart (lists : Nat → LinkedList) : Prop :=
  ∀ cls, ∀ chunk ∈ lists cls, ∀ cls', ∀ chunk' ∈ lists cls',
    (cls ≠ cls' ∨ chunk.start ≠ chunk'.start) →
      Heap.SpansApart chunk.start minSize chunk'.start minSize

theorem Threads.setList {list : ThreadedList} {chunks : LinkedList} (hcls : cls < maxOrder)
    (hat : Represents list.memory list.head chunks)
    (hother : ∀ d, d ≠ cls → Represents list.memory (t.head d) (lists d)) :
    Threads (t.setList cls list) (Function.update lists cls chunks) := by
  intro d
  rw [head_setList t hcls]
  by_cases hd : d = cls
  · subst hd
    rw [if_pos rfl, Function.update_self]
    exact hat
  · rw [if_neg hd, Function.update_of_ne hd]
    exact hother d hd

/-- A header that is written apart from those on the lists changes none of them. -/
theorem Threads.newAtAddress {address : Nat} (h : Threads t lists)
    (hapart : ∀ d, ∀ chunk ∈ lists d, Heap.SpansApart address minSize chunk.start minSize)
    (size : Nat) : Threads (t.newAtAddress address size) lists :=
  fun d => (h d).congr fun chunk hchunk => Chunk.headerKept_newAtAddress (hapart d chunk hchunk)

theorem Threads.pushFront (h : Threads t lists) (block : NonNull) (hcls : cls < maxOrder)
    (hapart : ∀ d, ∀ chunk ∈ lists d,
      Heap.SpansApart block.address minSize chunk.start minSize) :
    ∃ t', t.pushFront cls block.address = .ok t' ∧
      Threads t' (Function.update lists cls (readAt t.memory block :: lists cls)) := by
  refine ⟨t.setList cls ⟨some block, setNextAt t.memory block.address (t.head cls)⟩, ?_, ?_⟩
  · rw [ThreadedAllocator.pushFront, if_pos hcls, ThreadedList.pushFront, NonNull.new_address]
    rfl
  · apply Threads.setList hcls ((h cls).push (hapart cls))
    intro d _
    exact (h d).congr fun chunk hchunk => Chunk.headerKept_setNextAt (hapart d chunk hchunk)

theorem Threads.popFront_nil (h : Threads t lists) (hcls : cls < maxOrder)
    (hlist : lists cls = []) : t.popFront cls = .ok (none, t) := by
  have hhead : t.head cls = none := Represents.head_eq_none (hlist ▸ h cls)
  have hpop : (t.list cls).popFront = (none, t.list cls) := by
    rw [ThreadedList.popFront, list, hhead]
  rw [ThreadedAllocator.popFront, if_pos hcls, hpop]
  dsimp only
  rw [setList_list]

/-- The popped chunk loses its link, and the chain behind it keeps its own. -/
theorem Threads.popFront_cons {chunk : Chunk} {rest : LinkedList} (h : Threads t lists)
    (hcls : cls < maxOrder) (hheaders : HeadersApart lists) (hlist : lists cls = chunk :: rest) :
    ∃ node t', t.popFront cls = .ok (some node, t') ∧ readAt t.memory node = chunk ∧
      Threads t' (Function.update lists cls rest) := by
  have hat := h cls
  rw [hlist] at hat
  have hstarts := (List.nodup_cons.mp hat.starts_nodup).1
  obtain ⟨node, hhead, rfl, hrest⟩ := hat.uncons
  have hmem : readAt t.memory node ∈ lists cls := hlist ▸ List.mem_cons_self
  refine ⟨node, t.setList cls ⟨nextAt t.memory node, setNextAt t.memory node.address none⟩,
    ?_, rfl, ?_⟩
  · rw [ThreadedAllocator.popFront, if_pos hcls, ThreadedList.popFront, list, hhead]
  · apply Threads.setList hcls
    · apply hrest.congr
      intro other hother
      have hne : node.address ≠ other.start := fun heq =>
        hstarts (List.mem_map.mpr ⟨other, hother, heq.symm⟩)
      exact Chunk.headerKept_setNextAt (hheaders cls _ hmem cls other
        (hlist ▸ List.mem_cons_of_mem _ hother) (.inr hne))
    · intro d hd
      apply (h d).congr
      intro other hother
      exact Chunk.headerKept_setNextAt (hheaders cls _ hmem d other hother (.inl (Ne.symm hd)))

theorem Threads.remove_absent {start : Nat} (h : Threads t lists) (hcls : cls < maxOrder)
    (habsent : ∀ chunk ∈ lists cls, chunk.start ≠ start) :
    t.remove cls start = .ok (some (none, t)) := by
  obtain ⟨nodes, hfollows, hchunks⟩ := h cls
  have hnodes : ∀ node ∈ nodes, node.address ≠ start := fun node hnode =>
    habsent (readAt t.memory node) (hchunks ▸ List.mem_map_of_mem hnode)
  have hremove : (t.list cls).remove start = some (none, t.list cls) :=
    ThreadedList.removeLoop_absent hfollows hnodes
      (NonNull.length_lt_of_nodup hfollows.nodup)
  rw [ThreadedAllocator.remove, if_pos hcls, hremove, Option.map_some]
  dsimp only
  rw [setList_list]

/-- The one chunk at the address leaves its list. -/
theorem Threads.remove_found {chunk : Chunk} {before behind : LinkedList} (h : Threads t lists)
    (hcls : cls < maxOrder) (hheaders : HeadersApart lists)
    (hlist : lists cls = before ++ chunk :: behind) :
    ∃ node t', t.remove cls chunk.start = .ok (some (some node, t')) ∧
      readAt t.memory node = chunk ∧ Threads t' (Function.update lists cls (before ++ behind)) := by
  obtain ⟨nodes, hfollows, hchunks⟩ := h cls
  have hsplit := hchunks.trans hlist
  obtain ⟨skipped, found, rfl, hskipped, hfound⟩ := List.map_eq_append_iff.mp hsplit
  obtain ⟨node, rest, rfl, hnode, hrest⟩ := List.map_eq_cons_iff.mp hfound
  have hnodup := hfollows.nodup
  have hmem : ∀ x ∈ skipped ++ node :: rest, readAt t.memory x ∈ lists cls := fun x hx =>
    hchunks ▸ List.mem_map_of_mem hx
  have hdistinct : ∀ x ∈ skipped, x.address ≠ chunk.start := by
    intro x hx heq
    have hx' : x = node := NonNull.ext (heq.trans (congrArg Chunk.start hnode).symm)
    exact (List.nodup_append.mp hnodup).2.2 x hx node List.mem_cons_self hx'
  have hfuel : skipped.length < 2 ^ 64 := by
    have hlt := NonNull.length_lt_of_nodup hnodup
    rw [List.length_append] at hlt
    omega
  have hremove : (t.list cls).remove chunk.start =
      some (some node, (t.list cls).unlink skipped.getLast? (nextAt t.memory node)) := by
    rw [← Option.or_none (o := skipped.getLast?)]
    exact ThreadedList.removeLoop_found hfollows hdistinct (congrArg Chunk.start hnode) hfuel
  refine ⟨node, t.setList cls ((t.list cls).unlink skipped.getLast? (nextAt t.memory node)),
    ?_, hnode, ?_⟩
  · rw [ThreadedAllocator.remove, if_pos hcls, hremove, Option.map_some]
  · apply Threads.setList hcls
    · rw [← hskipped, ← hrest, ← List.map_append]
      apply ThreadedList.represents_unlink hfollows
      intro x hx y hy hne
      exact hheaders cls _ (hmem x hx) cls _ (hmem y hy)
        (.inr fun heq => hne (NonNull.ext heq))
    · intro d hd
      apply ThreadedList.represents_unlink_other (h d)
      intro x hx other hother
      exact hheaders cls _ (hmem x (List.mem_append_left _ hx)) d other hother (.inl (Ne.symm hd))

end ThreadedAllocator

end MiniatureOs
