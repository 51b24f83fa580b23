import Mathlib.Data.List.Induction
import MiniatureOs.Memory.Region

/-! # The memory map for the kernel

`build_memory_map` of `bootloader/x86_64/bios/stage4/src/main.rs`. The map is built
in an array of 32 slots. A usable region that starts at address zero is written to
its slot as reserved, but the index is not advanced, so the next region overwrites it.
-/

namespace MiniatureOs

open MemoryRegion

variable {S : PageSize}

/-- `new_regions` and `idx`. -/
structure MapBuilder where
  newRegions : List (Option PhysicalMemoryRegion)
  idx : Nat
  deriving DecidableEq, Repr

namespace MapBuilder

def empty : MapBuilder :=
  ⟨List.replicate 0x20 none, 0⟩

/-- `new_regions[idx] = Some(region)`. -/
def write (builder : MapBuilder) (region : PhysicalMemoryRegion) : Checked MapBuilder :=
  if builder.idx < builder.newRegions.length then
    .ok { builder with newRegions := builder.newRegions.set builder.idx (some region) }
  else
    .error .outOfBounds

/-- `new_regions[idx] = Some(region); idx += 1`. -/
def push (builder : MapBuilder) (region : PhysicalMemoryRegion) : Checked MapBuilder := do
  let builder ← builder.write region
  return { builder with idx := builder.idx + 1 }

def pushSplit (builder : MapBuilder) (region : E820MemoryRegion)
    (lastFrame : PhysicalFrame S) : Checked MapBuilder := do
  let frameEnd ← lastFrame.endAddress
  let usedSize ← Checked.sub frameEnd region.start
  let builder ← builder.push ⟨region.start, usedSize, .reserved⟩
  let regionEnd ← endAddress region
  if frameEnd ≠ regionEnd then
    let freeSize ← Checked.sub regionEnd frameEnd
    builder.push ⟨frameEnd, freeSize, .free⟩
  else
    return builder

def pushRegion (builder : MapBuilder) (region : E820MemoryRegion)
    (lastFrame : PhysicalFrame S) : Checked MapBuilder :=
  if !isUsable region then
    builder.push region.toPhysical
  else do
    if ← contains region lastFrame.address then
      builder.pushSplit region lastFrame
    else
      builder.push region.toPhysical

/-- One round of the loop; the round of a usable region at zero leaves it before the
assertion. -/
def addRegion (lastFrame : PhysicalFrame S) (builder : MapBuilder)
    (region : E820MemoryRegion) : Checked MapBuilder :=
  if isUsable region && region.start == 0 then
    builder.write { region.toPhysical with typ := .reserved }
  else do
    let builder ← builder.pushRegion region lastFrame
    Checked.assert (builder.idx < builder.newRegions.length)
      "assertion failed: idx < new_regions.len()"
    return builder

end MapBuilder

def buildMemoryMap (regions : List E820MemoryRegion) (lastFrame : PhysicalFrame S) :
    Checked (List (Option PhysicalMemoryRegion)) := do
  let builder ← regions.foldlM (MapBuilder.addRegion lastFrame) .empty
  return builder.newRegions

/-! ## The entries of the map -/

def splitEntries (lastFrame : PhysicalFrame S) (region : E820MemoryRegion) :
    List PhysicalMemoryRegion :=
  ⟨region.start, lastFrame.address + S.size - region.start, .reserved⟩ ::
    if lastFrame.address + S.size = region.start + region.size then []
    else [⟨lastFrame.address + S.size,
      region.start + region.size - (lastFrame.address + S.size), .free⟩]

/-- The entries that the round of a region leaves in the map; a usable region at zero leaves
none that lasts. -/
def entriesOf (lastFrame : PhysicalFrame S) (region : E820MemoryRegion) :
    List PhysicalMemoryRegion :=
  if isUsable region = true then
    if region.start = 0 then []
    else if Reaches region lastFrame.address then splitEntries lastFrame region
    else [region.toPhysical]
  else [region.toPhysical]

/-- What is free of a region: all of a usable region, or the part behind the last frame
in use if the region holds it; nothing of a region at zero. -/
def freePart (lastFrame : PhysicalFrame S) (region : E820MemoryRegion) :
    List PhysicalMemoryRegion :=
  if isUsable region = true ∧ region.start ≠ 0 then
    if Reaches region lastFrame.address then
      if lastFrame.address + S.size = region.start + region.size then []
      else [⟨lastFrame.address + S.size,
        region.start + region.size - (lastFrame.address + S.size), .free⟩]
    else [region.toPhysical]
  else []

/-- The slots before the index hold the entries, and of the others only the next one may
hold a region, which is not usable. -/
structure Slots (builder : MapBuilder) (entries : List PhysicalMemoryRegion)
    (rest : List (Option PhysicalMemoryRegion)) : Prop where
  slots : builder.newRegions = entries.map some ++ rest
  idx : builder.idx = entries.length
  spare : ∀ slot ∈ rest.tail, slot = none
  unusable : ∀ entry, some entry ∈ rest → isUsable entry = false

variable {builder builder' : MapBuilder} {entries : List PhysicalMemoryRegion}
  {rest : List (Option PhysicalMemoryRegion)} {lastFrame : PhysicalFrame S}
  {region : E820MemoryRegion}

theorem slots_empty : Slots .empty [] (List.replicate 0x20 none) where
  slots := rfl
  idx := rfl
  spare := fun _ hslot => List.eq_of_mem_replicate (List.mem_of_mem_tail hslot)
  unusable := by
    intro entry hentry
    cases List.eq_of_mem_replicate hentry

theorem Slots.write {entry : PhysicalMemoryRegion} (h : Slots builder entries rest)
    (hwrite : builder.write entry = .ok builder') :
    builder'.newRegions = entries.map some ++ some entry :: rest.tail ∧
      builder'.idx = entries.length := by
  unfold MapBuilder.write at hwrite
  by_cases hidx : builder.idx < builder.newRegions.length
  · rw [if_pos hidx] at hwrite
    obtain rfl := Except.ok.inj hwrite
    refine ⟨?_, h.idx⟩
    cases rest with
    | nil =>
        rw [h.slots, h.idx, List.append_nil, List.length_map] at hidx
        exact absurd hidx (Nat.lt_irrefl _)
    | cons slot rest =>
        have hlength : (entries.map some).length = builder.idx := by rw [List.length_map, h.idx]
        simp only [h.slots, ← hlength, List.set_append_right _ _ (Nat.le_refl _), Nat.sub_self,
          List.set_cons_zero, List.tail_cons]
  · rw [if_neg hidx] at hwrite
    cases hwrite

theorem Slots.push {entry : PhysicalMemoryRegion} (h : Slots builder entries rest)
    (hpush : builder.push entry = .ok builder') :
    Slots builder' (entries ++ [entry]) rest.tail ∧ ∀ slot ∈ rest.tail, slot = none := by
  obtain ⟨written, hwrite, hpush⟩ := Checked.bind_eq_ok.mp hpush
  obtain rfl := Except.ok.inj hpush
  obtain ⟨hslots, hidx⟩ := h.write hwrite
  refine ⟨⟨by simp [hslots], by simp [hidx], ?_, ?_⟩, h.spare⟩
  · exact fun slot hslot => h.spare slot (List.mem_of_mem_tail hslot)
  · intro other hother
    cases h.spare _ hother

/-- A usable region is only split at a frame that lies in it as a whole. -/
def SplitsInside (lastFrame : PhysicalFrame S) (region : E820MemoryRegion) : Prop :=
  isUsable region = true → region.start ≠ 0 → Reaches region lastFrame.address →
    lastFrame.address + S.size ≤ region.start + region.size

def EndFits (lastFrame : PhysicalFrame S) (region : E820MemoryRegion) : Prop :=
  isUsable region = true → region.start ≠ 0 → region.start ≤ lastFrame.address → Fits region

theorem Slots.pushSplit (h : Slots builder entries rest)
    (hsplit : builder.pushSplit region lastFrame = .ok builder') :
    lastFrame.address + S.size ≤ region.start + region.size ∧ ∃ rest',
      Slots builder' (entries ++ splitEntries lastFrame region) rest' ∧
      ∀ slot ∈ rest', slot = none := by
  obtain ⟨frameEnd, hframeEnd, hsplit⟩ := Checked.bind_eq_ok.mp hsplit
  obtain ⟨usedSize, husedSize, hsplit⟩ := Checked.bind_eq_ok.mp hsplit
  obtain ⟨builder₁, hpush₁, hsplit⟩ := Checked.bind_eq_ok.mp hsplit
  obtain ⟨regionEnd, hregionEnd, hsplit⟩ := Checked.bind_eq_ok.mp hsplit
  obtain ⟨_, rfl⟩ := Checked.add_eq_ok.mp hframeEnd
  obtain ⟨_, rfl⟩ := Checked.sub_eq_ok.mp husedSize
  obtain ⟨_, rfl⟩ := endAddress_eq_ok.mp hregionEnd
  obtain ⟨hslots₁, hnone₁⟩ := h.push hpush₁
  change (if lastFrame.address + S.size ≠ region.start + region.size then _ else _) = _ at hsplit
  by_cases hend : lastFrame.address + S.size = region.start + region.size
  · rw [if_neg (not_not.mpr hend)] at hsplit
    obtain rfl := Except.ok.inj hsplit
    rw [splitEntries, if_pos hend]
    exact ⟨Nat.le_of_eq hend, _, hslots₁, hnone₁⟩
  · rw [if_pos hend] at hsplit
    obtain ⟨freeSize, hsize, hpush₂⟩ := Checked.bind_eq_ok.mp hsplit
    obtain ⟨hle, rfl⟩ := Checked.sub_eq_ok.mp hsize
    obtain ⟨hslots₂, hnone₂⟩ := hslots₁.push hpush₂
    rw [List.append_assoc] at hslots₂
    rw [splitEntries, if_neg hend]
    exact ⟨hle, _, hslots₂, hnone₂⟩

theorem isUsable_toPhysical (region : E820MemoryRegion) :
    isUsable region.toPhysical = isUsable region := by
  obtain ⟨start, size, typ, attributes⟩ := region
  cases typ <;> rfl

theorem Slots.pushRegion (h : Slots builder entries rest)
    (hzero : isUsable region = true → region.start ≠ 0)
    (hpush : builder.pushRegion region lastFrame = .ok builder') :
    SplitsInside lastFrame region ∧ EndFits lastFrame region ∧ ∃ rest',
      Slots builder' (entries ++ entriesOf lastFrame region) rest' ∧
      ∀ slot ∈ rest', slot = none := by
  unfold MapBuilder.pushRegion at hpush
  cases husable : isUsable region with
  | false =>
      rw [husable, Bool.not_false, if_pos rfl] at hpush
      rw [entriesOf, if_neg (by simp [husable])]
      exact ⟨fun hin => by simp [husable] at hin, fun hin => by simp [husable] at hin, _,
        h.push hpush⟩
  | true =>
      rw [husable, Bool.not_true, if_neg (by decide)] at hpush
      obtain ⟨inside, hcontains, hpush⟩ := Checked.bind_eq_ok.mp hpush
      rw [entriesOf, if_pos husable, if_neg (hzero husable)]
      cases inside with
      | true =>
          obtain ⟨hfits, hreach⟩ := contains_eq_true.mp hcontains
          rw [if_pos hreach]
          obtain ⟨hle, rest', hslots⟩ := h.pushSplit hpush
          exact ⟨fun _ _ _ => hle, fun _ _ _ => hfits, rest', hslots⟩
      | false =>
          have hbeyond := contains_eq_false.mp hcontains
          have hreach : ¬ Reaches region lastFrame.address := by
            unfold Reaches
            omega
          rw [if_neg hreach]
          refine ⟨fun _ _ hin => absurd hin hreach, fun _ _ hle => ?_, _, h.push hpush⟩
          rcases hbeyond with hlow | ⟨hfits, _⟩
          · exact absurd hle (Nat.not_le.mpr hlow)
          · exact hfits

/-- A round adds the entries of its region, and only that of a usable region at zero leaves
a slot behind the index in use. -/
theorem Slots.addRegion (h : Slots builder entries rest)
    (hround : builder.addRegion lastFrame region = .ok builder') :
    SplitsInside lastFrame region ∧ EndFits lastFrame region ∧ ∃ rest',
      Slots builder' (entries ++ entriesOf lastFrame region) rest' ∧
      (¬ (isUsable region = true ∧ region.start = 0) → ∀ slot ∈ rest', slot = none) := by
  unfold MapBuilder.addRegion at hround
  by_cases hzero : isUsable region = true ∧ region.start = 0
  · -- the region at zero: a reserved entry in a slot that the next region takes
    rw [if_pos (by simp [hzero])] at hround
    obtain ⟨hslots, hidx⟩ := h.write hround
    rw [entriesOf, if_pos hzero.1, if_pos hzero.2, List.append_nil]
    refine ⟨fun _ hne => absurd hzero.2 hne, fun _ hne => absurd hzero.2 hne, _,
      ⟨hslots, hidx, h.spare, fun entry hentry => ?_⟩, fun hnot => absurd hzero hnot⟩
    rcases List.mem_cons.mp hentry with heq | hmem
    · rw [Option.some.inj heq]
      rfl
    · cases h.spare _ hmem
  · rw [if_neg (by simpa using hzero)] at hround
    obtain ⟨pushed, hpush, hround⟩ := Checked.bind_eq_ok.mp hround
    obtain ⟨_, _, hround⟩ := Checked.bind_eq_ok.mp hround
    obtain rfl := Except.ok.inj hround
    obtain ⟨hsplits, hfits, rest', hslots, hnone⟩ :=
      h.pushRegion (fun husable hstart => hzero ⟨husable, hstart⟩) hpush
    exact ⟨hsplits, hfits, rest', hslots, fun _ => hnone⟩

/-- The whole loop; a slot behind the index is left in use when the last region is a usable
one at zero. -/
theorem Slots.addRegions {regions : List E820MemoryRegion} (h : Slots builder entries rest)
    (hrun : regions.foldlM (MapBuilder.addRegion lastFrame) builder = .ok builder') :
    (∀ region ∈ regions, SplitsInside lastFrame region ∧ EndFits lastFrame region) ∧ ∃ rest',
      Slots builder' (entries ++ regions.flatMap (entriesOf lastFrame)) rest' ∧
      ∀ last ∈ regions.getLast?, ¬ (isUsable last = true ∧ last.start = 0) →
        ∀ slot ∈ rest', slot = none := by
  induction regions using List.reverseRecOn generalizing builder' with
  | nil =>
      obtain rfl := Except.ok.inj hrun
      exact ⟨by simp, rest, by simpa using h, by simp⟩
  | append_singleton regions region ih =>
      rw [List.foldlM_append] at hrun
      obtain ⟨builder₁, hfirst, hlast⟩ := Checked.bind_eq_ok.mp hrun
      rw [List.foldlM_cons] at hlast
      obtain ⟨builder₂, hround, hlast⟩ := Checked.bind_eq_ok.mp hlast
      obtain rfl := Except.ok.inj hlast
      obtain ⟨hinside, rest₁, hslots₁, _⟩ := ih hfirst
      obtain ⟨hsplits, hfits, rest', hslots, hnone⟩ := hslots₁.addRegion hround
      refine ⟨fun other hother => ?_, rest', ?_, ?_⟩
      · rcases List.mem_append.mp hother with hmem | hmem
        · exact hinside other hmem
        · rw [List.mem_singleton.mp hmem]
          exact ⟨hsplits, hfits⟩
      · rw [List.flatMap_append, List.flatMap_singleton, ← List.append_assoc]
        exact hslots
      · intro last hmem hnot
        rw [List.getLast?_concat, Option.mem_some_iff] at hmem
        rw [← hmem] at hnot
        exact hnone hnot

/-! ## The free regions of the map -/

theorem filter_entriesOf (lastFrame : PhysicalFrame S) (region : E820MemoryRegion) :
    (entriesOf lastFrame region).filter (isUsable ·) = freePart lastFrame region := by
  have husable := isUsable_toPhysical region
  unfold entriesOf freePart
  cases hregion : isUsable region with
  | false => simp [husable, hregion]
  | true =>
      by_cases hzero : region.start = 0
      · simp [hzero]
      · by_cases hreach : Reaches region lastFrame.address
        · by_cases hend : lastFrame.address + S.size = region.start + region.size
          · simp [splitEntries, hzero, hreach, hend, isUsable]
          · simp [splitEntries, hzero, hreach, hend, isUsable]
        · simp [hzero, hreach, husable, hregion]

theorem buildMemoryMap_free {regions : List E820MemoryRegion}
    {newRegions : List (Option PhysicalMemoryRegion)}
    (h : buildMemoryMap regions lastFrame = .ok newRegions) :
    (newRegions.filterMap id).filter (isUsable ·) = regions.flatMap (freePart lastFrame) ∧
      ∀ region ∈ regions, SplitsInside lastFrame region := by
  obtain ⟨builder, hrun, h⟩ := Checked.bind_eq_ok.mp h
  obtain rfl := Except.ok.inj h
  obtain ⟨hinside, rest, hslots, _⟩ := slots_empty.addRegions hrun
  refine ⟨?_, fun region hregion => (hinside region hregion).1⟩
  have hrest : (rest.filterMap id).filter (isUsable ·) = [] := by
    refine List.filter_eq_nil_iff.mpr fun entry hentry => ?_
    obtain ⟨slot, hslot, rfl⟩ := List.mem_filterMap.mp hentry
    simp [hslots.unusable entry hslot]
  have hentries : ((([] ++ regions.flatMap (entriesOf lastFrame)).map some).filterMap id).filter
      (isUsable ·) = regions.flatMap (freePart lastFrame) := by
    simp only [List.nil_append, List.filterMap_map, Function.comp_def, id_eq,
      List.filterMap_some, List.filter_flatMap, filter_entriesOf]
  rw [hslots.slots, List.filterMap_append, List.filter_append, hrest, hentries, List.append_nil]

end MiniatureOs
