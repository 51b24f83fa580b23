import MiniatureOs.Frames.StartingAt

/-! # Fresh frames

Code that builds tables in allocated frames relies on an allocator that returns
no frame twice and none that is in use. The bump allocator is one, over a map
whose frames are distinct and unused.
-/

namespace MiniatureOs

/-- The result of call number `n` in a run of successive calls. -/
def FrameAllocator.nthCall {A : Type} [FrameAllocator A] :
    Nat → A → Checked (Option (PhysicalFrame .size4KiB))
  | 0, allocator => do
      let (frame, _) ← FrameAllocator.allocateFrame allocator
      return frame
  | n + 1, allocator => do
      let (_, next) ← FrameAllocator.allocateFrame allocator
      nthCall n next

variable {A : Type} [FrameAllocator A] {used : PhysicalFrame .size4KiB → Prop}
  {allocator next : A}

/-- Every frame the allocator will return is below `2 ^ 48`, is not in use, and
was not returned before. -/
def ReturnsFresh (used : PhysicalFrame .size4KiB → Prop) (allocator : A) : Prop :=
  ∀ n frame, FrameAllocator.nthCall n allocator = .ok (some frame) →
    frame.address < 2 ^ 48 ∧ ¬ used frame ∧
      ∀ k < n, FrameAllocator.nthCall k allocator ≠ .ok (some frame)

theorem nthCall_succ {result : Option (PhysicalFrame .size4KiB)}
    (h : FrameAllocator.allocateFrame allocator = .ok (result, next)) (n : Nat) :
    FrameAllocator.nthCall (n + 1) allocator = FrameAllocator.nthCall n next := by
  simp [FrameAllocator.nthCall, h]

theorem nthCall_zero {result : Option (PhysicalFrame .size4KiB)}
    (h : FrameAllocator.allocateFrame allocator = .ok (result, next)) :
    FrameAllocator.nthCall 0 allocator = .ok result := by
  simp [FrameAllocator.nthCall, h]

namespace ReturnsFresh

theorem mono {used' : PhysicalFrame .size4KiB → Prop} (hfresh : ReturnsFresh used allocator)
    (hmono : ∀ frame, used' frame → used frame) : ReturnsFresh used' allocator := by
  intro n frame hcall
  obtain ⟨hlt, hused, hbefore⟩ := hfresh n frame hcall
  exact ⟨hlt, fun hframe => hused (hmono frame hframe), hbefore⟩

theorem union {new : PhysicalFrame .size4KiB → Prop} (hfresh : ReturnsFresh used allocator)
    (hnew : ∀ frame, new frame → ∀ n, FrameAllocator.nthCall n allocator ≠ .ok (some frame)) :
    ReturnsFresh (fun frame => used frame ∨ new frame) allocator := by
  intro n frame hcall
  obtain ⟨hlt, hused, hbefore⟩ := hfresh n frame hcall
  exact ⟨hlt, fun hframe => hframe.elim hused fun h => hnew frame h n hcall, hbefore⟩

theorem of_none (hfresh : ReturnsFresh used allocator)
    (h : FrameAllocator.allocateFrame allocator = .ok (none, next)) :
    ReturnsFresh used next := by
  intro n frame hcall
  rw [← nthCall_succ h] at hcall
  obtain ⟨hlt, hused, hbefore⟩ := hfresh (n + 1) frame hcall
  refine ⟨hlt, hused, fun k hk => ?_⟩
  rw [← nthCall_succ h]
  exact hbefore (k + 1) (by omega)

theorem of_some {frame : PhysicalFrame .size4KiB} (hfresh : ReturnsFresh used allocator)
    (h : FrameAllocator.allocateFrame allocator = .ok (some frame, next)) :
    frame.address < 2 ^ 48 ∧ ¬ used frame ∧
      ReturnsFresh (fun other => used other ∨ other = frame) next := by
  have hfirst := hfresh 0 frame (nthCall_zero h)
  refine ⟨hfirst.1, hfirst.2.1, fun n other hcall => ?_⟩
  rw [← nthCall_succ h] at hcall
  obtain ⟨hlt, hused, hbefore⟩ := hfresh (n + 1) other hcall
  refine ⟨hlt, ?_, fun k hk => ?_⟩
  · rintro (hother | rfl)
    · exact hused hother
    · exact hbefore 0 (by omega) (nthCall_zero h)
  · rw [← nthCall_succ h]
    exact hbefore (k + 1) (by omega)

end ReturnsFresh

def Supplies : Nat → A → Prop
  | 0, _ => True
  | n + 1, allocator => ∃ frame next,
      FrameAllocator.allocateFrame allocator = .ok (some frame, next) ∧ Supplies n next

theorem Supplies.mono {n k : Nat} (h : Supplies n allocator) (hle : k ≤ n) :
    Supplies k allocator := by
  induction k generalizing n allocator with
  | zero => trivial
  | succ k ih =>
      cases n with
      | zero => omega
      | succ n =>
          obtain ⟨frame, next, hcall, hrest⟩ := h
          exact ⟨frame, next, hcall, ih hrest (by omega)⟩

namespace BumpFrameAllocator

variable {D : Type} [MemoryRegion D]

theorem nthCall_eq_call (n : Nat) (allocator : BumpFrameAllocator D) :
    FrameAllocator.nthCall n allocator = call n allocator := by
  induction n generalizing allocator with
  | zero => rfl
  | succ n ih =>
      simp only [FrameAllocator.nthCall, call, ih]
      rfl

theorem getElem?_of_nthCall {n : Nat} {allocator : BumpFrameAllocator D}
    {frame : PhysicalFrame .size4KiB}
    (h : FrameAllocator.nthCall n allocator = .ok (some frame)) :
    (usableFrames (reachable allocator.memoryMap))[allocator.next + n]? = some frame := by
  rw [nthCall_eq_call] at h
  have hwalk := nthUsableFrame_of_call h
  rw [nthUsableFrame_eq] at hwalk
  cases hframe : (usableFrames (reachable allocator.memoryMap))[allocator.next + n]? with
  | some other =>
      rw [hframe] at hwalk
      exact congrArg some (Option.some.inj (Except.ok.inj hwalk))
  | none =>
      rw [hframe] at hwalk
      by_cases hall : allocator.memoryMap.all walkable = true
      · simp [hall] at hwalk
      · simp [hall] at hwalk

theorem returnsFresh {used : PhysicalFrame .size4KiB → Prop} {allocator : BumpFrameAllocator D}
    (hnodup : (usableFrames (reachable allocator.memoryMap)).Nodup)
    (hunused : ∀ frame ∈ usableFrames (reachable allocator.memoryMap),
      frame.address < 2 ^ 48 ∧ ¬ used frame) :
    ReturnsFresh used allocator := by
  intro n frame hcall
  have hget := getElem?_of_nthCall hcall
  obtain ⟨hlt, hframe⟩ := List.getElem?_eq_some_iff.mp hget
  obtain ⟨hbelow, hnot⟩ := hunused frame (hframe ▸ List.getElem_mem hlt)
  refine ⟨hbelow, hnot, fun k hk hagain => ?_⟩
  obtain ⟨hlt', hframe'⟩ := List.getElem?_eq_some_iff.mp (getElem?_of_nthCall hagain)
  have hindex := hnodup.getElem_inj_iff.mp (hframe'.trans hframe.symm)
  omega

theorem supplies {n : Nat} {allocator : BumpFrameAllocator D}
    (h : allocator.next + n ≤ (usableFrames (reachable allocator.memoryMap)).length) :
    Supplies n allocator := by
  induction n generalizing allocator with
  | zero => trivial
  | succ n ih =>
      have hlt : allocator.next < (usableFrames (reachable allocator.memoryMap)).length := by omega
      refine ⟨_, _, allocateFrame_of_some (List.getElem?_eq_getElem hlt), ih ?_⟩
      change allocator.next + 1 + n ≤ (usableFrames (reachable allocator.memoryMap)).length
      omega

end BumpFrameAllocator

end MiniatureOs
