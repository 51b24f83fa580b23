import MiniatureOs.Heap.Buddy

/-! # The free lists as dyadic blocks

Each list operation of the buddy allocator is a permutation of the list of its
free blocks. Allocation halves one free block down to the class of the layout,
and deallocation merges the returned block upwards until its buddy is not free
or the array of lists ends.
-/

namespace MiniatureOs

open DyadicBlock

namespace BuddyAllocator

theorem list_setList (a : BuddyAllocator) {cls : Nat} (h : cls < maxOrder) (l : LinkedList)
    (d : Nat) : (a.setList cls l).list d = if d = cls then l else a.list d := by
  by_cases hd : d = cls
  · subst hd
    simp [list, setList, h]
  · simp [list, setList, hd, Ne.symm hd]

theorem list_setList_eq_update (a : BuddyAllocator) {cls : Nat}
    (hcls : cls < maxOrder) (chunks : LinkedList) :
    (a.setList cls chunks).list = Function.update a.list cls chunks := by
  funext d
  rw [list_setList a hcls, Function.update_apply]

theorem setList_list (a : BuddyAllocator) (cls : Nat) : a.setList cls (a.list cls) = a := by
  have hbuddies : a.buddies.setIfInBounds cls (a.list cls) = a.buddies := by
    ext i hi
    by_cases hic : cls = i
    · subst hic
      simp [list, hi]
    · rw [Vector.getElem_setIfInBounds_ne hi hic]
  rw [setList, hbuddies]

theorem list_of_le (a : BuddyAllocator) {cls : Nat} (h : maxOrder ≤ cls) : a.list cls = [] := by
  have hnone : a.buddies[cls]? = none := Vector.getElem?_eq_none h
  rw [list, hnone]
  rfl

@[simp] theorem list_new (cls : Nat) : new.list cls = [] := by
  simp only [list, new, Vector.getElem?_replicate]
  split <;> rfl

def freeBlocks (a : BuddyAllocator) : List DyadicBlock :=
  (List.range maxOrder).flatMap fun cls => (a.list cls).map fun chunk => ⟨cls, chunk.start⟩

def Sized (a : BuddyAllocator) : Prop := ∀ cls, ∀ chunk ∈ a.list cls, chunk.size = 2 ^ cls

theorem mem_freeBlocks {a : BuddyAllocator} {b : DyadicBlock} :
    b ∈ a.freeBlocks ↔ ∃ chunk ∈ a.list b.cls, chunk.start = b.start := by
  simp only [freeBlocks, List.mem_flatMap, List.mem_range, List.mem_map]
  constructor
  · rintro ⟨cls, _, chunk, hchunk, rfl⟩
    exact ⟨chunk, hchunk, rfl⟩
  · rintro ⟨chunk, hchunk, hstart⟩
    refine ⟨b.cls, ?_, chunk, hchunk, by rw [hstart]⟩
    by_contra hge
    rw [list_of_le a (Nat.le_of_not_lt hge)] at hchunk
    exact List.not_mem_nil hchunk

theorem mem_freeBlocks_of_mem_list {a : BuddyAllocator} {cls : Nat} {chunk : Chunk}
    (h : chunk ∈ a.list cls) : ⟨cls, chunk.start⟩ ∈ a.freeBlocks :=
  mem_freeBlocks.mpr ⟨chunk, h, rfl⟩

theorem cls_lt_of_mem_freeBlocks {a : BuddyAllocator} {b : DyadicBlock}
    (h : b ∈ a.freeBlocks) : b.cls < maxOrder := by
  simp only [freeBlocks, List.mem_flatMap, List.mem_range, List.mem_map] at h
  obtain ⟨cls, hcls, _, _, rfl⟩ := h
  exact hcls

/-! ## List operations as permutations -/

theorem flatMap_perm_cons {α β : Type _} {is : List α} {f g : α → List β} {i : α} {x : β}
    (hnodup : is.Nodup) (hi : i ∈ is) (hat : (g i).Perm (x :: f i))
    (hother : ∀ j ∈ is, j ≠ i → g j = f j) : (is.flatMap g).Perm (x :: is.flatMap f) := by
  induction is with
  | nil => exact absurd hi List.not_mem_nil
  | cons j is ih =>
      obtain ⟨hj, hnodup⟩ := List.nodup_cons.mp hnodup
      simp only [List.flatMap_cons]
      by_cases hji : j = i
      · subst hji
        have hrest : is.flatMap g = is.flatMap f := List.flatMap_congr fun k hk =>
          hother k (List.mem_cons_of_mem _ hk) fun heq => hj (heq ▸ hk)
        rw [hrest]
        exact hat.append_right _
      · have hmem : i ∈ is := (List.mem_cons.mp hi).resolve_left fun heq => hji heq.symm
        rw [hother j List.mem_cons_self hji]
        have hrest := ih hnodup hmem fun k hk => hother k (List.mem_cons_of_mem _ hk)
        exact (hrest.append_left _).trans List.perm_middle

theorem freeBlocks_perm_cons {a a' : BuddyAllocator} {cls : Nat} {chunk : Chunk}
    (hcls : cls < maxOrder) (hat : (a'.list cls).Perm (chunk :: a.list cls))
    (hother : ∀ d, d ≠ cls → a'.list d = a.list d) :
    a'.freeBlocks.Perm (⟨cls, chunk.start⟩ :: a.freeBlocks) := by
  refine flatMap_perm_cons List.nodup_range (List.mem_range.mpr hcls) (hat.map _) ?_
  intro d _ hd
  rw [hother d hd]

theorem pushFront_spec {a a' : BuddyAllocator} {cls : Nat} {chunk : Chunk}
    (h : a.pushFront cls chunk = .ok a') :
    cls < maxOrder ∧ a'.list cls = chunk :: a.list cls ∧
      ∀ d, d ≠ cls → a'.list d = a.list d := by
  unfold pushFront at h
  split at h
  next hcls =>
    obtain ⟨list, hlist, hset⟩ := Checked.bind_eq_ok.mp h
    obtain rfl : a.setList cls list = a' := by simpa using hset
    unfold LinkedList.pushFront at hlist
    split at hlist
    next => simp at hlist
    next =>
      obtain rfl : chunk :: a.list cls = list := by simpa using hlist
      exact ⟨hcls, by simp [list_setList, hcls], fun d hd => by simp [list_setList, hcls, hd]⟩
  next => simp at h

theorem pushFront_perm {a a' : BuddyAllocator} {cls : Nat} {chunk : Chunk}
    (h : a.pushFront cls chunk = .ok a') :
    a'.freeBlocks.Perm (⟨cls, chunk.start⟩ :: a.freeBlocks) := by
  obtain ⟨hcls, hat, hother⟩ := pushFront_spec h
  exact freeBlocks_perm_cons hcls (hat ▸ List.Perm.refl _) hother

theorem pushFront_sized {a a' : BuddyAllocator} {cls : Nat} {chunk : Chunk}
    (h : a.pushFront cls chunk = .ok a') (hsized : a.Sized) (hsize : chunk.size = 2 ^ cls) :
    a'.Sized := by
  obtain ⟨_, hat, hother⟩ := pushFront_spec h
  intro d c hc
  by_cases hd : d = cls
  · subst hd
    rw [hat] at hc
    rcases List.mem_cons.mp hc with rfl | hc
    · exact hsize
    · exact hsized d c hc
  · rw [hother d hd] at hc
    exact hsized d c hc

theorem popFront_spec {a a' : BuddyAllocator} {cls : Nat} {popped : Option Chunk}
    (h : a.popFront cls = .ok (popped, a')) :
    cls < maxOrder ∧ a.list cls = popped.toList ++ a'.list cls ∧
      ∀ d, d ≠ cls → a'.list d = a.list d := by
  unfold popFront at h
  split at h
  next hcls =>
    obtain ⟨hpop, rfl⟩ : (a.list cls).popFront.1 = popped ∧
        a.setList cls (a.list cls).popFront.2 = a' := by simpa using h
    refine ⟨hcls, ?_, fun d hd => by simp [list_setList, hcls, hd]⟩
    rw [list_setList a hcls, if_pos rfl, ← hpop]
    cases a.list cls <;> rfl
  next => simp at h

theorem popFront_perm {a a' : BuddyAllocator} {cls : Nat} {chunk : Chunk}
    (h : a.popFront cls = .ok (some chunk, a')) :
    a.freeBlocks.Perm (⟨cls, chunk.start⟩ :: a'.freeBlocks) := by
  obtain ⟨hcls, hat, hother⟩ := popFront_spec h
  refine freeBlocks_perm_cons hcls ?_ fun d hd => (hother d hd).symm
  rw [hat]
  exact List.Perm.refl _

theorem sized_of_sublists {a a' : BuddyAllocator} (hsized : a.Sized)
    (hsub : ∀ d, ∀ chunk ∈ a'.list d, chunk ∈ a.list d) : a'.Sized :=
  fun d chunk hchunk => hsized d chunk (hsub d chunk hchunk)

theorem popFront_sized {a a' : BuddyAllocator} {cls : Nat} {popped : Option Chunk}
    (h : a.popFront cls = .ok (popped, a')) (hsized : a.Sized) : a'.Sized := by
  obtain ⟨_, hat, hother⟩ := popFront_spec h
  refine sized_of_sublists hsized fun d chunk hchunk => ?_
  by_cases hd : d = cls
  · subst hd
    rw [hat]
    exact List.mem_append_right _ hchunk
  · rw [← hother d hd]
    exact hchunk

theorem popFront_of_nil {a : BuddyAllocator} {cls : Nat} (hcls : cls < maxOrder)
    (hlist : a.list cls = []) :
    a.popFront cls = .ok (none, a) := by
  have hsame := a.setList_list cls
  rw [hlist] at hsame
  simp only [popFront, hcls, if_true, hlist, LinkedList.popFront, hsame]

theorem popFront_of_cons {a : BuddyAllocator} {cls : Nat} {chunk : Chunk} {rest : LinkedList}
    (hcls : cls < maxOrder) (hlist : a.list cls = chunk :: rest) :
    a.popFront cls = .ok (some chunk, a.setList cls rest) := by
  simp only [popFront, hcls, if_true, hlist, LinkedList.popFront]

/-- A removal takes out the block at the given address, or finds none there. -/
theorem remove_spec {a a' : BuddyAllocator} {cls start : Nat} {found : Option Chunk}
    (h : a.remove cls start = .ok (found, a')) (hsized : a.Sized) :
    a'.Sized ∧ (found.isSome → a.freeBlocks.Perm (⟨cls, start⟩ :: a'.freeBlocks)) ∧
      (found = none → ⟨cls, start⟩ ∉ a.freeBlocks ∧ a'.freeBlocks = a.freeBlocks) := by
  unfold remove at h
  split at h
  next hcls =>
    obtain ⟨hfound, rfl⟩ : ((a.list cls).remove start).1 = found ∧
        a.setList cls ((a.list cls).remove start).2 = a' := by simpa using h
    have hremove : (a.list cls).remove start = (found, ((a.list cls).remove start).2) :=
      Prod.ext hfound rfl
    generalize ((a.list cls).remove start).2 = rest at hremove ⊢
    have hother : ∀ d, d ≠ cls → (a.setList cls rest).list d = a.list d :=
      fun d hd => by simp [list_setList, hcls, hd]
    have hself : (a.setList cls rest).list cls = rest := by simp [list_setList, hcls]
    cases found with
    | none =>
        obtain ⟨rfl, habsent⟩ := LinkedList.remove_none hremove
        rw [setList_list]
        refine ⟨hsized, by simp, fun _ => ⟨?_, rfl⟩⟩
        rw [mem_freeBlocks]
        rintro ⟨chunk, hchunk, hstart⟩
        exact habsent chunk hchunk hstart
    | some chunk =>
        obtain ⟨hstart, hperm⟩ := LinkedList.remove_some hremove
        refine ⟨sized_of_sublists hsized fun d c hc => ?_, fun _ => ?_, by simp⟩
        · by_cases hd : d = cls
          · rw [hd, hself] at hc
            rw [hd]
            exact hperm.mem_iff.mpr (List.mem_cons_of_mem _ hc)
          · rw [← hother d hd]
            exact hc
        · rw [← hstart]
          exact freeBlocks_perm_cons hcls (hself.symm ▸ hperm) fun d hd => (hother d hd).symm
  next => simp at h

/-! ## Adding a region -/

/-- The next chunk is aligned, fits, and could not have been larger. -/
theorem chunkSize_spec {start stop : Nat} (hpos : 0 < start) (hlt : start < stop)
    (hstop : stop < 2 ^ 64) :
    ∃ c, chunkSize start stop = 2 ^ c ∧ c < maxOrder ∧ 2 ^ c ∣ start ∧ start + 2 ^ c ≤ stop ∧
      (maxOrder - 1 ≤ c ∨ ¬ 2 ^ (c + 1) ∣ start ∨ stop < start + 2 ^ (c + 1)) := by
  obtain ⟨t, hlow, hdvd, hmax⟩ := Bits.lowBit_spec hpos (Nat.lt_trans hlt hstop)
  have hprev := Bits.previousPowerOfTwo_le (Nat.sub_pos_of_lt hlt)
  have hnext := Bits.lt_two_mul_previousPowerOfTwo (stop - start)
  unfold Bits.previousPowerOfTwo at hprev hnext
  have hsize : chunkSize start stop =
      2 ^ min (min t (Nat.log2 (stop - start))) (maxOrder - 1) := by
    rw [chunkSize, if_pos hpos, hlow, Bits.previousPowerOfTwo, Bits.two_pow_min,
      Bits.two_pow_min]
  refine ⟨_, hsize, by unfold maxOrder; omega, ?_, ?_, ?_⟩
  · exact Nat.dvd_trans (Nat.pow_dvd_pow 2 (by omega)) hdvd
  · have hle : 2 ^ min (min t (Nat.log2 (stop - start))) (maxOrder - 1) ≤
        2 ^ Nat.log2 (stop - start) := Nat.pow_le_pow_right (by decide) (by omega)
    omega
  · -- the minimum is the cap, the alignment or the remaining length
    rcases (by omega : min (min t (Nat.log2 (stop - start))) (maxOrder - 1) = maxOrder - 1 ∨
      min (min t (Nat.log2 (stop - start))) (maxOrder - 1) = t ∨
      min (min t (Nat.log2 (stop - start))) (maxOrder - 1) = Nat.log2 (stop - start))
      with hcap | halign | hlength
    · exact .inl (Nat.le_of_eq hcap.symm)
    · rw [halign]
      exact .inr (.inl hmax)
    · rw [hlength, Nat.pow_succ]
      exact .inr (.inr (by omega))

/-- Between multiples of the size of a header no chunk is smaller than that. -/
theorem chunkSize_room {start stop : Nat} (hpos : 0 < start) (hlt : start < stop)
    (hstop : stop < 2 ^ 64) (hstart : minSize ∣ start) (hstop' : minSize ∣ stop) :
    ∃ c, 4 ≤ c ∧ chunkSize start stop = 2 ^ c ∧ c < maxOrder ∧ 2 ^ c ∣ start ∧
      start + 2 ^ c ≤ stop := by
  obtain ⟨c, hsize, hcls, hdvd, hfit, hgreedy⟩ := chunkSize_spec hpos hlt hstop
  refine ⟨c, ?_, hsize, hcls, hdvd, hfit⟩
  by_contra hsmall
  have hheader : 2 ^ (c + 1) ∣ minSize := Nat.pow_dvd_pow (n := 4) 2 (by omega)
  have hle : 2 ^ (c + 1) ≤ minSize := Nat.le_of_dvd (by decide) hheader
  have hrest : minSize ≤ stop - start :=
    Nat.le_of_dvd (Nat.sub_pos_of_lt hlt) (Nat.dvd_sub hstop' hstart)
  cases hgreedy with
  | inl hcap =>
      unfold maxOrder at hcap
      omega
  | inr hgreedy =>
      cases hgreedy with
      | inl halign => exact halign (Nat.dvd_trans hheader hstart)
      | inr hlength => omega

theorem pushFront_eq_ok (a : BuddyAllocator) {cls : Nat} {chunk : Chunk}
    (hcls : cls < maxOrder) (hstart : 0 < chunk.start) :
    a.pushFront cls chunk = .ok (a.setList cls (chunk :: a.list cls)) := by
  have hne : chunk.start ≠ 0 := Nat.ne_of_gt hstart
  simp [pushFront, LinkedList.pushFront, hcls, hne]

theorem pushFront_of_pos (a : BuddyAllocator) {cls : Nat} {chunk : Chunk}
    (hcls : cls < maxOrder) (hstart : 0 < chunk.start) :
    ∃ a', a.pushFront cls chunk = .ok a' :=
  ⟨_, pushFront_eq_ok a hcls hstart⟩

/-- `add_region` tiles the region with the largest aligned blocks that fit. -/
theorem addRegionLoop_spec (fuel : Nat) (a : BuddyAllocator) {start stop : Nat}
    (hpos : 0 < start) (hle : start ≤ stop) (hstop : stop < 2 ^ 64)
    (hfuel : stop - start ≤ fuel) (hsized : a.Sized) :
    ∃ a' tiles, addRegionLoop fuel a start stop = .ok a' ∧ a'.Sized ∧
      a'.freeBlocks.Perm (tiles ++ a.freeBlocks) ∧ Packed tiles ∧
      (∀ x, Covers tiles x ↔ start ≤ x ∧ x < stop) ∧
      ∀ b ∈ tiles, b.start + 2 ^ b.cls ≤ stop ∧ (maxOrder - 1 ≤ b.cls ∨
        ¬ 2 ^ (b.cls + 1) ∣ b.start ∨ stop < b.start + 2 ^ (b.cls + 1)) := by
  induction fuel generalizing a start with
  | zero =>
      refine ⟨a, [], rfl, hsized, List.Perm.refl _, ⟨by simp, List.Pairwise.nil⟩, ?_, by simp⟩
      intro x
      simp only [Covers, List.not_mem_nil, false_and, exists_false, false_iff]
      omega
  | succ fuel ih =>
      by_cases hlt : start < stop
      · obtain ⟨c, hsize, hcls, hdvd, hfit, hgreedy⟩ := chunkSize_spec hpos hlt hstop
        have hsizePos := Nat.two_pow_pos c
        have hc : c ≤ 64 := by unfold maxOrder at hcls; omega
        obtain ⟨a₁, hpush⟩ := @pushFront_of_pos a c ⟨start, 2 ^ c⟩ hcls hpos
        obtain ⟨a', tiles, hloop, hsized', hperm, hpacked, hcovers, htiles⟩ :=
          @ih a₁ (start + 2 ^ c) (by omega) hfit (by omega) (pushFront_sized hpush hsized rfl)
        refine ⟨a', ⟨c, start⟩ :: tiles, ?_, hsized', ?_, ?_, ?_, ?_⟩
        · simp only [addRegionLoop, hlt, if_true, hsize, Bits.trailingZeros_two_pow hc, hpush,
            Checked.ok_bind, Checked.add_of_lt (Nat.lt_of_le_of_lt hfit hstop)]
          exact hloop
        · exact hperm.trans (((pushFront_perm hpush).append_left tiles).trans List.perm_middle)
        · refine packed_cons.mpr ⟨hdvd, fun b hb x hx hbx => ?_, hpacked⟩
          have hafter := (hcovers x).mp ⟨b, hb, hbx⟩
          have hbefore := hx.2
          simp only at hbefore
          omega
        · intro x
          rw [covers_cons, hcovers, Holds]
          simp only
          omega
        · exact List.forall_mem_cons.mpr ⟨⟨hfit, hgreedy⟩, htiles⟩
      · refine ⟨a, [], by simp [addRegionLoop, hlt], hsized, List.Perm.refl _,
          ⟨by simp, List.Pairwise.nil⟩, ?_, by simp⟩
        intro x
        simp only [Covers, List.not_mem_nil, false_and, exists_false, false_iff]
        omega

@[simp] theorem freeBlocks_new : new.freeBlocks = [] := by
  simp [freeBlocks]

theorem sized_new : new.Sized := by
  intro cls chunk hchunk
  simp at hchunk

/-- A fresh allocator after `init`: its free blocks tile the region. -/
theorem init_spec {a : BuddyAllocator} {start size : Nat} (hpos : 0 < start)
    (h : new.init start size = .ok a) :
    start + size < 2 ^ 64 ∧ a.Sized ∧ Packed a.freeBlocks ∧
      (∀ x, Covers a.freeBlocks x ↔ start ≤ x ∧ x < start + size) ∧
      Coalesced (maxOrder - 1) a.freeBlocks := by
  obtain ⟨stop, hstop, hadd⟩ := Checked.bind_eq_ok.mp h
  obtain ⟨hfits, rfl⟩ := Checked.add_eq_ok.mp hstop
  obtain ⟨a', tiles, hloop, hsized, hperm, hpacked, hcovers, htiles⟩ :=
    addRegionLoop_spec (start + size - start) new hpos (Nat.le_add_right _ _) hfits
      (Nat.le_refl _) sized_new
  obtain ⟨_, _, hrun⟩ := Checked.bind_eq_ok.mp hadd
  obtain rfl : a' = a := by
    rw [hloop] at hrun
    simpa using hrun
  rw [freeBlocks_new, List.append_nil] at hperm
  refine ⟨hfits, hsized, hpacked.perm hperm.symm, fun x => ?_, ?_⟩
  · rw [covers_perm hperm, hcovers]
  · have htilesCoalesced : Coalesced (maxOrder - 1) tiles :=
      coalesced_of_greedy hpacked.aligned (fun b hb => (htiles b hb).1)
        fun b hb => (htiles b hb).2
    exact htilesCoalesced.subset fun b hb => hperm.mem_iff.mp hb

theorem exists_init {start size : Nat} (hpos : 0 < start) (hfits : start + size < 2 ^ 64) :
    ∃ a, new.init start size = .ok a := by
  obtain ⟨a, _, hloop, _⟩ := addRegionLoop_spec (start + size - start) new hpos
    (Nat.le_add_right _ _) hfits (Nat.le_refl _) sized_new
  refine ⟨a, ?_⟩
  rw [init, Checked.add_of_lt hfits, Checked.ok_bind, addRegion, hloop, Checked.assert,
    if_pos (decide_eq_true (Nat.le_add_right _ _)), Checked.ok_bind]

/-! ## Allocation -/

theorem firstNonEmpty_some {a : BuddyAllocator} {cls i : Nat} (h : a.firstNonEmpty cls = some i) :
    cls ≤ i ∧ i < maxOrder ∧ a.list i ≠ [] ∧ ∀ d, cls ≤ d → d < i → a.list d = [] := by
  obtain ⟨hi, before, after, hsplit, hbefore⟩ := List.find?_eq_some_iff_append.mp h
  have hmem : i ∈ List.range' cls (maxOrder - cls) := by simp [hsplit]
  obtain ⟨hge, hlt⟩ := List.mem_range'_1.mp hmem
  refine ⟨hge, by omega, by simpa using hi, fun d hd hdi => ?_⟩
  have hdmem : d ∈ List.range' cls (maxOrder - cls) := List.mem_range'_1.mpr (by omega)
  have hsorted : (List.range' cls (maxOrder - cls)).Pairwise (· < ·) := List.pairwise_lt_range'
  rw [hsplit] at hdmem hsorted
  rcases List.mem_append.mp hdmem with hd | hd
  · simpa using hbefore d hd
  · -- everything from the hit on is at least as large as the hit
    rcases List.mem_cons.mp hd with rfl | hd
    · omega
    · have := List.rel_of_pairwise_cons (List.pairwise_append.mp hsorted).2.1 hd
      omega

theorem firstNonEmpty_none {a : BuddyAllocator} {cls : Nat} (h : a.firstNonEmpty cls = none) :
    a.list cls = [] := by
  rcases Nat.lt_or_ge cls maxOrder with hlt | hge
  · have hnot := List.find?_eq_none.mp h cls (List.mem_range'_1.mpr (by omega))
    simpa using hnot
  · exact a.list_of_le hge

/-- One level of splitting: the front chunk of the upper list is replaced by its
halves, the upper half in front. -/
theorem splitLoop_succ {cls count : Nat} {a a' : BuddyAllocator} {chunk : Chunk}
    {rest : LinkedList} (hlist : a.list (cls + count + 1) = chunk :: rest)
    (h : splitLoop cls (count + 1) a = .ok (true, a')) :
    ∃ a₁ a₂ a₃, a.popFront (cls + count + 1) = .ok (some chunk, a₁) ∧
      a₁.pushFront (cls + count) ⟨chunk.start, 2 ^ (cls + count)⟩ = .ok a₂ ∧
      a₂.pushFront (cls + count) ⟨chunk.start + 2 ^ (cls + count), 2 ^ (cls + count)⟩ = .ok a₃ ∧
      splitLoop cls count a₃ = .ok (true, a') := by
  simp only [splitLoop] at h
  obtain ⟨⟨popped, a₁⟩, hpop, hsplit⟩ := Checked.bind_eq_ok.mp h
  obtain ⟨_, hat, _⟩ := popFront_spec hpop
  cases popped with
  | none => simp at hsplit
  | some first =>
      obtain ⟨rfl, -⟩ : chunk = first ∧ rest = a₁.list (cls + count + 1) := by
        rw [hlist] at hat
        simpa using hat
      obtain ⟨a₂, hlow, hsplit⟩ := Checked.bind_eq_ok.mp hsplit
      obtain ⟨address, haddress, hsplit⟩ := Checked.bind_eq_ok.mp hsplit
      obtain ⟨_, rfl⟩ := Checked.add_eq_ok.mp haddress
      obtain ⟨a₃, hhigh, hsplit⟩ := Checked.bind_eq_ok.mp hsplit
      exact ⟨a₁, a₂, a₃, hpop, hlow, hhigh, hsplit⟩

/-- The split loop halves the front chunk of the first list it can use down to
the requested class, where the last upper half is in front. -/
theorem splitLoop_spec {cls count : Nat} {a a' : BuddyAllocator} {chunk : Chunk}
    {rest : LinkedList} (h : splitLoop cls count a = .ok (true, a')) (hsized : a.Sized)
    (hlist : a.list (cls + count) = chunk :: rest) (hcls : cls + count < maxOrder) :
    a'.Sized ∧ ∃ last below l k, a'.list cls = last :: below ∧
      a.freeBlocks.Perm (⟨cls + count, chunk.start⟩ :: l) ∧
      a'.freeBlocks.Perm (⟨cls, last.start⟩ :: k) ∧
      Splits ⟨cls + count, chunk.start⟩ l ⟨cls, last.start⟩ k := by
  induction count generalizing a chunk rest with
  | zero =>
      obtain ⟨_, rfl⟩ : true = true ∧ a = a' := by simpa [splitLoop] using h
      have hperm := popFront_perm (popFront_of_cons hcls hlist)
      exact ⟨hsized, chunk, rest, _, _, hlist, hperm, hperm, .refl _ (List.Perm.refl _)⟩
  | succ count ih =>
      obtain ⟨a₁, a₂, a₃, hpop, hlow, hhigh, hloop⟩ := splitLoop_succ hlist h
      have hsized₃ : a₃.Sized :=
        pushFront_sized hhigh (pushFront_sized hlow (popFront_sized hpop hsized) rfl) rfl
      obtain ⟨_, hlist₃, _⟩ := pushFront_spec hhigh
      obtain ⟨hsized', last, below, l, k, hlast, hperm₃, hperm', hsplits⟩ :=
        ih hloop hsized₃ hlist₃ (by omega)
      -- the blocks left beside the upper half are the lower half and the rest
      have hrest : l.Perm (⟨cls + count, chunk.start⟩ :: a₁.freeBlocks) :=
        (hperm₃.symm.trans ((pushFront_perm hhigh).trans ((pushFront_perm hlow).cons _))).cons_inv
      exact ⟨hsized', last, below, a₁.freeBlocks, k, hlast, popFront_perm hpop, hperm',
        .half (hsplits.perm hrest (List.Perm.refl k))⟩

/-- An allocation takes one free block, halves it down to the class of the
layout and hands out the last upper half. -/
theorem alloc_spec {a a' : BuddyAllocator} {layout : Layout} {chunk : Chunk}
    (h : a.alloc layout = .ok (some chunk, a')) (hsized : a.Sized) :
    a'.Sized ∧ layout.cls < maxOrder ∧ ∃ b l, a.freeBlocks.Perm (b :: l) ∧
      Splits b l ⟨layout.cls, chunk.start⟩ a'.freeBlocks := by
  unfold alloc at h
  cases hfirst : a.firstNonEmpty layout.cls with
  | none =>
      simp only [hfirst] at h
      obtain ⟨_, hat, _⟩ := popFront_spec h
      rw [firstNonEmpty_none hfirst] at hat
      simp at hat
  | some i =>
      simp only [hfirst] at h
      obtain ⟨hge, hlt, hne, _⟩ := firstNonEmpty_some hfirst
      obtain ⟨⟨split, a₁⟩, hloop, hpop⟩ := Checked.bind_eq_ok.mp h
      cases split with
      | false => simp at hpop
      | true =>
          obtain ⟨first, rest, hlist⟩ := List.exists_cons_of_ne_nil hne
          have hi : layout.cls + (i - layout.cls) = i := by omega
          obtain ⟨hsized₁, last, below, l, k, hlast, hperm, hperm₁, hsplits⟩ :=
            splitLoop_spec hloop hsized (hi.symm ▸ hlist) (by omega)
          simp only [if_true] at hpop
          obtain ⟨hcls, hat, _⟩ := popFront_spec hpop
          obtain ⟨rfl, -⟩ : last = chunk ∧ below = a'.list layout.cls := by
            rw [hlast] at hat
            simpa using hat
          have hk : k.Perm a'.freeBlocks :=
            (hperm₁.symm.trans (popFront_perm hpop)).cons_inv
          exact ⟨popFront_sized hpop hsized₁, hcls, _, l, hperm, hsplits.perm (List.Perm.refl l) hk⟩

/-! ## Deallocation -/

/-- The merge loop joins the block with its free buddies. The result is filed,
unless it has outgrown the last list: then it is on no list. -/
theorem deallocLoop_spec {fuel start size cls : Nat} {a a' : BuddyAllocator}
    (h : deallocLoop fuel a ⟨start, size⟩ cls = .ok a') (hsized : a.Sized)
    (hsize : size = 2 ^ cls) (hcls : cls ≤ maxOrder) (hfuel : maxOrder ≤ cls + fuel) :
    a'.Sized ∧ ∃ c l, Merges ⟨cls, start⟩ a.freeBlocks c l ∧
      ((c.cls < maxOrder ∧ c.buddy ∉ l ∧ a'.freeBlocks.Perm (c :: l)) ∨
        (c.cls = maxOrder ∧ a'.freeBlocks = l)) := by
  induction fuel generalizing a start size cls with
  | zero =>
      obtain rfl : a = a' := by simpa [deallocLoop] using h
      exact ⟨hsized, _, _, .refl _ (List.Perm.refl _), .inr ⟨Nat.le_antisymm hcls hfuel, rfl⟩⟩
  | succ fuel ih =>
      by_cases hlt : cls < maxOrder
      · simp only [deallocLoop, hlt, if_true] at h
        obtain ⟨⟨found, a₁⟩, hremove, hrest⟩ := Checked.bind_eq_ok.mp h
        obtain ⟨hsized₁, hsome, hnone⟩ := remove_spec hremove hsized
        cases found with
        | none =>
            obtain ⟨hbuddy, hfree⟩ := hnone rfl
            have hperm := pushFront_perm hrest
            rw [hfree] at hperm
            exact ⟨pushFront_sized hrest hsized₁ hsize, _, _, .refl _ (List.Perm.refl _),
              .inl ⟨hlt, hbuddy, hperm⟩⟩
        | some buddy =>
            obtain ⟨double, hdouble, hloop⟩ := Checked.bind_eq_ok.mp hrest
            obtain ⟨_, rfl⟩ := Checked.mul_eq_ok.mp hdouble
            obtain ⟨hsized', c, l, hmerges, hend⟩ :=
              ih hloop hsized₁ (by rw [hsize, Nat.pow_succ]) hlt (by omega)
            exact ⟨hsized', c, l, .join (hsome rfl) hmerges, hend⟩
      · obtain rfl : a = a' := by simpa [deallocLoop, hlt] using h
        exact ⟨hsized, _, _, .refl _ (List.Perm.refl _),
          .inr ⟨Nat.le_antisymm hcls (Nat.le_of_not_lt hlt), rfl⟩⟩

theorem remove_of_lt (a : BuddyAllocator) {cls : Nat} (start : Nat) (hcls : cls < maxOrder) :
    ∃ found a', a.remove cls start = .ok (found, a') :=
  ⟨_, _, if_pos hcls⟩

/-- Merging never panics on chunks above address zero. -/
theorem deallocLoop_returns (fuel : Nat) (a : BuddyAllocator) {start size cls : Nat}
    (hsized : a.Sized) (hsize : size = 2 ^ cls) (hcls : cls ≤ maxOrder) (hpos : 0 < start)
    (hfree : ∀ b ∈ a.freeBlocks, 0 < b.start) :
    ∃ a', deallocLoop fuel a ⟨start, size⟩ cls = .ok a' := by
  induction fuel generalizing a start size cls with
  | zero => exact ⟨a, rfl⟩
  | succ fuel ih =>
      by_cases hlt : cls < maxOrder
      · obtain ⟨found, a₁, hremove⟩ := a.remove_of_lt (start ^^^ 2 ^ cls) hlt
        obtain ⟨hsized₁, hsome, hnone⟩ := remove_spec hremove hsized
        simp only [deallocLoop, hlt, if_true, hremove, Checked.ok_bind]
        cases found with
        | none => exact @pushFront_of_pos a₁ cls ⟨start, size⟩ hlt hpos
        | some buddy =>
            have hperm := hsome rfl
            have hbuddy : 0 < start ^^^ 2 ^ cls :=
              hfree ⟨cls, start ^^^ 2 ^ cls⟩ (hperm.mem_iff.mpr List.mem_cons_self)
            have hdouble : size * 2 = 2 ^ (cls + 1) := by rw [hsize, Nat.pow_succ]
            have hfits : size * 2 < 2 ^ 64 := by
              rw [hdouble]
              exact Nat.pow_lt_pow_right (by decide) (by unfold maxOrder at hlt; omega)
            simp only [Checked.mul_of_lt hfits, Checked.ok_bind]
            refine ih a₁ hsized₁ hdouble hlt (by omega) fun b hb => ?_
            exact hfree b (hperm.mem_iff.mpr (List.mem_cons_of_mem _ hb))
      · exact ⟨a, by simp [deallocLoop, hlt]⟩

end BuddyAllocator

end MiniatureOs
