import MiniatureOs.Boot.MemoryMap
import MiniatureOs.Frames.StartingAt

/-! # What the memory map for the kernel says of every byte

The entries of a region type each of its bytes once, except that a usable region at
address zero gets none. The map that `build_memory_map` returns is that of the
entries, and it returns when no usable region ends at the last frame in use: the
inclusive test takes such a region for the one that holds the frame, and its free part
then has a negative size.
-/

namespace MiniatureOs

open MemoryRegion BumpFrameAllocator

variable {S : PageSize} {builder : MapBuilder} {lastFrame : PhysicalFrame S}
  {region : E820MemoryRegion} {regions : List E820MemoryRegion}

/-! ## The entries of one region -/

/-- The region is usable and at address zero, so that its entry is overwritten. -/
def Overwritten (region : E820MemoryRegion) : Prop :=
  isUsable region = true ∧ region.start = 0

def typeAt (lastFrame : PhysicalFrame S) (region : E820MemoryRegion) (byte : Nat) :
    PhysicalMemoryRegionType :=
  if isUsable region = true then
    if Reaches region lastFrame.address ∧ byte < lastFrame.address + S.size then .reserved
    else .free
  else .reserved

theorem typ_toPhysical (region : E820MemoryRegion) :
    region.toPhysical.typ = if isUsable region = true then .free else .reserved := by
  obtain ⟨start, size, typ, attributes⟩ := region
  cases typ <;> rfl

/-- The split of a region types its bytes by the end of the last frame. -/
theorem exists_splitEntries_iff (hlow : region.start ≤ lastFrame.address)
    (hinside : lastFrame.address + S.size ≤ region.start + region.size) (byte : Nat)
    (typ : PhysicalMemoryRegionType) :
    (∃ entry ∈ splitEntries lastFrame region, Holds entry byte ∧ entry.typ = typ) ↔
      Holds region byte ∧
        (if byte < lastFrame.address + S.size then .reserved else .free) = typ := by
  have hused : Holds (⟨region.start, lastFrame.address + S.size - region.start, .reserved⟩ :
      PhysicalMemoryRegion) byte ↔ region.start ≤ byte ∧ byte < lastFrame.address + S.size := by
    change _ ∧ byte < region.start + (lastFrame.address + S.size - region.start) ↔ _
    rw [Nat.add_sub_of_le (by omega)]
    rfl
  have hregion : Holds region byte ↔ region.start ≤ byte ∧ byte < region.start + region.size :=
    Iff.rfl
  unfold splitEntries
  by_cases hend : lastFrame.address + S.size = region.start + region.size
  · rw [if_pos hend]
    simp only [List.mem_singleton, exists_eq_left, hused, hregion, ← hend]
    refine and_congr_right fun hbyte => ?_
    rw [if_pos hbyte.2]
  · have hfree : Holds (⟨lastFrame.address + S.size,
        region.start + region.size - (lastFrame.address + S.size), .free⟩ :
        PhysicalMemoryRegion) byte ↔
        lastFrame.address + S.size ≤ byte ∧ byte < region.start + region.size := by
      change _ ∧ byte < lastFrame.address + S.size +
        (region.start + region.size - (lastFrame.address + S.size)) ↔ _
      rw [Nat.add_sub_of_le hinside]
      rfl
    simp only [if_neg hend, List.mem_cons, List.not_mem_nil, or_false, exists_eq_or_imp,
      exists_eq_left, hused, hfree, hregion]
    by_cases hbyte : byte < lastFrame.address + S.size
    · simp [hbyte, Nat.not_le.mpr hbyte, Nat.lt_of_lt_of_le hbyte hinside]
    · have hstart : region.start ≤ byte := by omega
      simp [hbyte, Nat.not_lt.mp hbyte, hstart]

theorem disjoint_splitEntries (hlow : region.start ≤ lastFrame.address) :
    DisjointRegions (splitEntries lastFrame region) := by
  unfold DisjointRegions splitEntries
  by_cases hend : lastFrame.address + S.size = region.start + region.size
  · rw [if_pos hend]
    exact List.pairwise_singleton _ _
  · rw [if_neg hend, List.pairwise_pair]
    intro byte hused hfree
    have hend := hused.2
    have hstart := hfree.1
    change byte < region.start + (lastFrame.address + S.size - region.start) at hend
    change lastFrame.address + S.size ≤ byte at hstart
    omega

/-- The entries of a region: none, a single one for all of it, or its split. -/
theorem entriesOf_cases (lastFrame : PhysicalFrame S) (region : E820MemoryRegion) :
    (Overwritten region ∧ entriesOf lastFrame region = []) ∨
    (¬ Overwritten region ∧ isUsable region = true ∧ Reaches region lastFrame.address ∧
      entriesOf lastFrame region = splitEntries lastFrame region) ∨
    (¬ Overwritten region ∧ ¬ (isUsable region = true ∧ Reaches region lastFrame.address) ∧
      entriesOf lastFrame region = [region.toPhysical]) := by
  unfold entriesOf Overwritten
  by_cases husable : isUsable region = true
  · by_cases hzero : region.start = 0
    · simp [husable, hzero]
    · by_cases hreach : Reaches region lastFrame.address
      · simp [husable, hzero, hreach]
      · simp [husable, hzero, hreach]
  · simp [husable]

/-- The entries of a region type exactly its bytes, unless it is overwritten. -/
theorem exists_entriesOf_iff (hsplits : SplitsInside lastFrame region) (byte : Nat)
    (typ : PhysicalMemoryRegionType) :
    (∃ entry ∈ entriesOf lastFrame region, Holds entry byte ∧ entry.typ = typ) ↔
      Holds region byte ∧ ¬ Overwritten region ∧ typeAt lastFrame region byte = typ := by
  rcases entriesOf_cases lastFrame region with
    ⟨hover, heq⟩ | ⟨hover, husable, hreach, heq⟩ | ⟨hover, hwhole, heq⟩
  · simp [heq, hover]
  · have hzero : region.start ≠ 0 := fun hzero => hover ⟨husable, hzero⟩
    rw [heq, exists_splitEntries_iff hreach.1 (hsplits husable hzero hreach)]
    simp [hover, typeAt, husable, hreach]
  · have hbyte : Holds region.toPhysical byte ↔ Holds region byte := Iff.rfl
    have htype : typeAt lastFrame region byte = region.toPhysical.typ := by
      rw [typ_toPhysical]
      unfold typeAt
      by_cases husable : isUsable region = true
      · simp [husable, show ¬ Reaches region lastFrame.address from
          fun hreach => hwhole ⟨husable, hreach⟩]
      · simp [husable]
    simp [heq, hover, hbyte, htype]

theorem disjoint_entriesOf (lastFrame : PhysicalFrame S) (region : E820MemoryRegion) :
    DisjointRegions (entriesOf lastFrame region) := by
  rcases entriesOf_cases lastFrame region with
    ⟨_, heq⟩ | ⟨_, _, hreach, heq⟩ | ⟨_, _, heq⟩
  · rw [heq]
    exact List.Pairwise.nil
  · rw [heq]
    exact disjoint_splitEntries hreach.1
  · rw [heq]
    exact List.pairwise_singleton _ _

/-- Only the region that holds the last frame has two entries. -/
theorem length_entriesOf_le (lastFrame : PhysicalFrame S)
    (hsplits : SplitsInside lastFrame region) (hpos : 0 < S.size) :
    (entriesOf lastFrame region).length ≤
      1 + if Holds region lastFrame.address then 1 else 0 := by
  rcases entriesOf_cases lastFrame region with
    ⟨_, heq⟩ | ⟨hover, husable, hreach, heq⟩ | ⟨_, _, heq⟩
  · simp [heq]
  · have hzero : region.start ≠ 0 := fun hzero => hover ⟨husable, hzero⟩
    have hholds : Holds region lastFrame.address :=
      ⟨hreach.1, Nat.lt_of_lt_of_le (Nat.lt_add_of_pos_right hpos)
        (hsplits husable hzero hreach)⟩
    rw [heq, if_pos hholds, splitEntries]
    by_cases hend : lastFrame.address + S.size = region.start + region.size
    · simp [hend]
    · simp [hend]
  · simp [heq]

/-! ## The entries of all regions -/

structure PreservesMap (regions : List E820MemoryRegion) (lastFrame : PhysicalFrame S)
    (map : List PhysicalMemoryRegion) : Prop where
  disjoint : DisjointRegions map
  covers : ∀ byte, (∃ entry ∈ map, Holds entry byte) ↔ ∃ region ∈ regions, Holds region byte
  reserved : ∀ region ∈ regions, isUsable region = false ∨ region.start = 0 →
    ∀ byte, Holds region byte → ∃ entry ∈ map, Holds entry byte ∧ entry.typ = .reserved
  free : ∀ region ∈ regions, isUsable region = true → region.start ≠ 0 →
    Holds region lastFrame.address → ∀ byte, Holds region byte →
      ((∃ entry ∈ map, Holds entry byte ∧ entry.typ = .free) ↔
        lastFrame.address + S.size ≤ byte)

theorem mem_unique_of_disjoint {D : Type} [MemoryRegion D] {regions : List D} {first second : D}
    {byte : Nat} (hdisjoint : DisjointRegions regions) (hfirst : first ∈ regions)
    (hsecond : second ∈ regions) (hbyte : Holds first byte) (hbyte' : Holds second byte) :
    first = second := by
  by_contra hne
  have hsymm : Std.Symm fun first second : D =>
      ∀ byte, Holds first byte → ¬ Holds second byte :=
    ⟨fun _ _ h byte hb ha => h byte ha hb⟩
  exact List.Pairwise.forall hdisjoint hfirst hsecond hne byte hbyte hbyte'

theorem BumpFrameAllocator.FrameInside.holds {D : Type} [MemoryRegion D] {region : D}
    {frame : PhysicalFrame .size4KiB} (h : FrameInside frame region) :
    Holds region frame.address :=
  ⟨h.1, Nat.lt_of_lt_of_le (Nat.lt_add_of_pos_right (by decide)) h.2⟩

theorem exists_flatMap_entriesOf_iff
    (hsplits : ∀ region ∈ regions, SplitsInside lastFrame region) (byte : Nat)
    (typ : PhysicalMemoryRegionType) :
    (∃ entry ∈ regions.flatMap (entriesOf lastFrame), Holds entry byte ∧ entry.typ = typ) ↔
      ∃ region ∈ regions,
        Holds region byte ∧ ¬ Overwritten region ∧ typeAt lastFrame region byte = typ := by
  constructor
  · intro hexists
    obtain ⟨entry, hentry, hrest⟩ := hexists
    obtain ⟨region, hregion, hentry⟩ := List.mem_flatMap.mp hentry
    exact ⟨region, hregion,
      (exists_entriesOf_iff (hsplits region hregion) byte typ).mp ⟨entry, hentry, hrest⟩⟩
  · intro hexists
    obtain ⟨region, hregion, hrest⟩ := hexists
    obtain ⟨entry, hentry, hrest⟩ :=
      (exists_entriesOf_iff (hsplits region hregion) byte typ).mpr hrest
    exact ⟨entry, List.mem_flatMap.mpr ⟨region, hregion, hentry⟩, hrest⟩

theorem disjoint_flatMap_entriesOf (hdisjoint : DisjointRegions regions)
    (hsplits : ∀ region ∈ regions, SplitsInside lastFrame region) :
    DisjointRegions (regions.flatMap (entriesOf lastFrame)) := by
  refine List.pairwise_flatMap.mpr ⟨fun region _ => disjoint_entriesOf lastFrame region, ?_⟩
  refine List.Pairwise.imp_of_mem ?_ hdisjoint
  intro first second hfirst hsecond hapart entry hentry entry' hentry' byte hbyte hbyte'
  have hin := (exists_entriesOf_iff (hsplits first hfirst) byte entry.typ).mp
    ⟨entry, hentry, hbyte, rfl⟩
  have hin' := (exists_entriesOf_iff (hsplits second hsecond) byte entry'.typ).mp
    ⟨entry', hentry', hbyte', rfl⟩
  exact hapart byte hin.1 hin'.1

/-- No byte of the map is lost: the usable regions at zero are empty. -/
def NothingOverwritten (regions : List E820MemoryRegion) : Prop :=
  ∀ region ∈ regions, isUsable region = true → region.start = 0 → region.size = 0

theorem exists_of_holds (hzero : NothingOverwritten regions)
    (hsplits : ∀ region ∈ regions, SplitsInside lastFrame region) {byte : Nat}
    (hregion : region ∈ regions) (hbyte : Holds region byte) :
    ∃ entry ∈ regions.flatMap (entriesOf lastFrame),
      Holds entry byte ∧ entry.typ = typeAt lastFrame region byte := by
  refine (exists_flatMap_entriesOf_iff hsplits byte _).mpr ⟨region, hregion, hbyte, ?_, rfl⟩
  intro hover
  have hempty := hzero region hregion hover.1 hover.2
  have hend : byte < region.start + region.size := hbyte.2
  have hstart := hover.2
  omega

theorem preservesMap_entries (hdisjoint : DisjointRegions regions)
    (hzero : NothingOverwritten regions)
    (hsplits : ∀ region ∈ regions, SplitsInside lastFrame region) :
    PreservesMap regions lastFrame (regions.flatMap (entriesOf lastFrame)) where
  disjoint := disjoint_flatMap_entriesOf hdisjoint hsplits
  covers := by
    intro byte
    constructor
    · intro hexists
      obtain ⟨entry, hentry, hbyte⟩ := hexists
      obtain ⟨region, hregion, hheld, _⟩ :=
        (exists_flatMap_entriesOf_iff hsplits byte entry.typ).mp ⟨entry, hentry, hbyte, rfl⟩
      exact ⟨region, hregion, hheld⟩
    · intro hexists
      obtain ⟨region, hregion, hbyte⟩ := hexists
      obtain ⟨entry, hentry, hheld, _⟩ := exists_of_holds hzero hsplits hregion hbyte
      exact ⟨entry, hentry, hheld⟩
  reserved := by
    intro region hregion hkind byte hbyte
    have hentry := exists_of_holds hzero hsplits hregion hbyte
    cases husable : isUsable region with
    | false => simpa [typeAt, husable] using hentry
    | true =>
        -- a usable region at zero is empty
        have hstart : region.start = 0 := by simpa [husable] using hkind
        have hempty := hzero region hregion husable hstart
        have hend : byte < region.start + region.size := hbyte.2
        omega
  free := by
    intro region hregion husable hstart hholds byte hbyte
    have htype : typeAt lastFrame region byte = .free ↔
        lastFrame.address + S.size ≤ byte := by
      have hreach : Reaches region lastFrame.address := ⟨hholds.1, Nat.le_of_lt hholds.2⟩
      by_cases hlow : byte < lastFrame.address + S.size
      · simp [typeAt, husable, hreach, hlow]
      · simp [typeAt, husable, hreach, hlow, Nat.not_lt.mp hlow]
    rw [exists_flatMap_entriesOf_iff hsplits, ← htype]
    constructor
    · intro hexists
      obtain ⟨other, hother, hheld, _, hfree⟩ := hexists
      rwa [mem_unique_of_disjoint hdisjoint hother hregion hheld hbyte] at hfree
    · intro hfree
      exact ⟨region, hregion, hbyte, fun hover => hstart hover.2, hfree⟩

/-! ## The map is built -/

theorem MapBuilder.push_of_room (entry : PhysicalMemoryRegion)
    (hroom : builder.idx < builder.newRegions.length) :
    ∃ builder', builder.push entry = .ok builder' ∧ builder'.idx = builder.idx + 1 ∧
      builder'.newRegions.length = builder.newRegions.length := by
  have hpush : builder.push entry =
      .ok ⟨builder.newRegions.set builder.idx (some entry), builder.idx + 1⟩ := by
    rw [MapBuilder.push, MapBuilder.write, if_pos hroom]
    rfl
  exact ⟨_, hpush, rfl, List.length_set⟩

theorem MapBuilder.pushSplit_of_room (hlow : region.start ≤ lastFrame.address)
    (hinside : lastFrame.address + S.size ≤ region.start + region.size) (hfits : Fits region)
    (hroom : builder.idx + (splitEntries lastFrame region).length < builder.newRegions.length) :
    ∃ builder', builder.pushSplit region lastFrame = .ok builder' ∧
      builder'.idx = builder.idx + (splitEntries lastFrame region).length ∧
      builder'.newRegions.length = builder.newRegions.length := by
  have hframe : lastFrame.endAddress = .ok (lastFrame.address + S.size) :=
    Checked.add_of_lt (Nat.lt_of_le_of_lt hinside hfits)
  have hused : Checked.sub (lastFrame.address + S.size) region.start =
      .ok (lastFrame.address + S.size - region.start) :=
    Checked.sub_of_le (Nat.le_trans hlow (Nat.le_add_right _ _))
  have hfirst : builder.idx < builder.newRegions.length := by omega
  obtain ⟨builder₁, hpush₁, hidx₁, hlength₁⟩ := builder.push_of_room
    ⟨region.start, lastFrame.address + S.size - region.start, .reserved⟩ hfirst
  unfold splitEntries at hroom ⊢
  simp only [MapBuilder.pushSplit, hframe, hused, hpush₁, endAddress_of_fits hfits,
    Checked.ok_bind]
  by_cases hend : lastFrame.address + S.size = region.start + region.size
  · refine ⟨builder₁, ?_, ?_, hlength₁⟩
    · simp [hend, MemoryRegion.start, MemoryRegion.size]
    · simpa [hend] using hidx₁
  · rw [if_neg hend, List.length_cons, List.length_singleton] at hroom
    obtain ⟨builder₂, hpush₂, hidx₂, hlength₂⟩ := builder₁.push_of_room
      ⟨lastFrame.address + S.size,
        region.start + region.size - (lastFrame.address + S.size), .free⟩ (by omega)
    refine ⟨builder₂, ?_, ?_, hlength₂.trans hlength₁⟩
    · have hfree : Checked.sub (region.start + region.size) (lastFrame.address + S.size) =
          .ok (region.start + region.size - (lastFrame.address + S.size)) :=
        Checked.sub_of_le hinside
      simp [hend, MemoryRegion.start, MemoryRegion.size, hfree, hpush₂]
    · simp [hend]
      omega

theorem MapBuilder.pushRegion_of_room (hsplits : SplitsInside lastFrame region)
    (hfits : EndFits lastFrame region) (hover : ¬ Overwritten region)
    (hroom : builder.idx + (entriesOf lastFrame region).length < builder.newRegions.length) :
    ∃ builder', builder.pushRegion region lastFrame = .ok builder' ∧
      builder'.idx = builder.idx + (entriesOf lastFrame region).length ∧
      builder'.newRegions.length = builder.newRegions.length := by
  rcases entriesOf_cases lastFrame region with
    ⟨hover', _⟩ | ⟨_, husable, hreach, heq⟩ | ⟨_, hwhole, heq⟩
  · exact absurd hover' hover
  · have hzero : region.start ≠ 0 := fun hzero => hover ⟨husable, hzero⟩
    have hcontains := contains_eq_true.mpr ⟨hfits husable hzero hreach.1, hreach⟩
    rw [heq] at hroom ⊢
    rw [MapBuilder.pushRegion, husable, Bool.not_true, if_neg (by decide), hcontains]
    exact MapBuilder.pushSplit_of_room hreach.1 (hsplits husable hzero hreach)
      (hfits husable hzero hreach.1) hroom
  · rw [heq] at hroom ⊢
    have hpush := builder.push_of_room region.toPhysical (Nat.lt_of_succ_lt hroom)
    rw [MapBuilder.pushRegion]
    cases husable : isUsable region with
    | false => exact hpush
    | true =>
        have hzero : region.start ≠ 0 := fun hzero => hover ⟨husable, hzero⟩
        have hcontains : contains region lastFrame.address = .ok false := by
          apply contains_eq_false.mpr
          by_cases hlow : region.start ≤ lastFrame.address
          · refine Or.inr ⟨hfits husable hzero hlow, Nat.lt_of_not_le fun hend => ?_⟩
            exact hwhole ⟨husable, hlow, hend⟩
          · exact Or.inl (Nat.lt_of_not_le hlow)
        rw [Bool.not_true, if_neg (by decide), hcontains]
        exact hpush

theorem MapBuilder.addRegion_of_room (hsplits : SplitsInside lastFrame region)
    (hfits : EndFits lastFrame region)
    (hroom : builder.idx + (entriesOf lastFrame region).length < builder.newRegions.length) :
    ∃ builder', builder.addRegion lastFrame region = .ok builder' ∧
      builder'.idx = builder.idx + (entriesOf lastFrame region).length ∧
      builder'.newRegions.length = builder.newRegions.length := by
  by_cases hover : Overwritten region
  · have hentries : entriesOf lastFrame region = [] := by
      rw [entriesOf, if_pos hover.1, if_pos hover.2]
    rw [hentries] at hroom ⊢
    have hwrite : builder.addRegion lastFrame region = .ok ⟨builder.newRegions.set builder.idx
        (some { region.toPhysical with typ := .reserved }), builder.idx⟩ := by
      rw [MapBuilder.addRegion, if_pos (by simp [hover.1, hover.2])]
      exact if_pos hroom
    exact ⟨_, hwrite, rfl, List.length_set⟩
  · obtain ⟨builder', hpush, hidx, hlength⟩ :=
      MapBuilder.pushRegion_of_room hsplits hfits hover hroom
    refine ⟨builder', ?_, hidx, hlength⟩
    have hzero : (isUsable region && region.start == 0) = false := by
      simpa [Overwritten] using hover
    have hassert : builder'.idx < builder'.newRegions.length := by omega
    simp [MapBuilder.addRegion, hzero, hpush, Checked.assert, hassert]

theorem MapBuilder.addRegions_of_room
    (hregions : ∀ region ∈ regions, SplitsInside lastFrame region ∧ EndFits lastFrame region)
    (hroom : builder.idx + (regions.flatMap (entriesOf lastFrame)).length <
      builder.newRegions.length) :
    ∃ builder', regions.foldlM (MapBuilder.addRegion lastFrame) builder = .ok builder' := by
  induction regions generalizing builder with
  | nil => exact ⟨builder, rfl⟩
  | cons region regions ih =>
      rw [List.flatMap_cons, List.length_append] at hroom
      obtain ⟨hsplits, hfits⟩ := hregions region List.mem_cons_self
      have hfirst : builder.idx + (entriesOf lastFrame region).length <
          builder.newRegions.length := by omega
      obtain ⟨builder₁, hround, hidx, hlength⟩ :=
        MapBuilder.addRegion_of_room hsplits hfits hfirst
      obtain ⟨builder₂, hrest⟩ :
          ∃ builder', regions.foldlM (MapBuilder.addRegion lastFrame) builder₁ = .ok builder' :=
        ih (fun other hother => hregions other (List.mem_cons_of_mem _ hother)) (by omega)
      refine ⟨builder₂, ?_⟩
      rw [List.foldlM_cons, hround]
      exact hrest

/-- At most one more entry than regions, for the region that holds the last frame. -/
theorem length_flatMap_entriesOf_le (hdisjoint : DisjointRegions regions)
    (hsplits : ∀ region ∈ regions, SplitsInside lastFrame region) :
    (regions.flatMap (entriesOf lastFrame)).length ≤ regions.length +
      if ∃ region ∈ regions, Holds region lastFrame.address then 1 else 0 := by
  induction regions with
  | nil => simp
  | cons region regions ih =>
      obtain ⟨hapart, hdisjoint⟩ := List.pairwise_cons.mp hdisjoint
      have hhead := length_entriesOf_le lastFrame (hsplits region List.mem_cons_self) S.size_pos
      have hrest := ih hdisjoint fun other hother => hsplits other (List.mem_cons_of_mem _ hother)
      rw [List.flatMap_cons, List.length_append, List.length_cons]
      by_cases hholds : Holds region lastFrame.address
      · have hnone : ¬ ∃ other ∈ regions, Holds other lastFrame.address := by
          intro hexists
          obtain ⟨other, hother, hother'⟩ := hexists
          exact hapart other hother _ hholds hother'
        rw [if_pos hholds] at hhead
        rw [if_neg hnone] at hrest
        rw [if_pos ⟨region, List.mem_cons_self, hholds⟩]
        omega
      · have hiff : (∃ other ∈ region :: regions, Holds other lastFrame.address) ↔
            ∃ other ∈ regions, Holds other lastFrame.address := by
          simp [hholds]
        rw [if_neg hholds] at hhead
        simp only [hiff]
        omega

/-- In a sorted map with a region behind address zero no entry is left to overwrite at
the end of the loop. -/
theorem buildMemoryMap_entries {newRegions : List (Option PhysicalMemoryRegion)}
    (hsorted : SortedRegions regions) (hregion : region ∈ regions) (hstart : region.start ≠ 0)
    (h : buildMemoryMap regions lastFrame = .ok newRegions) :
    newRegions.filterMap id = regions.flatMap (entriesOf lastFrame) ∧
      ∀ region ∈ regions, SplitsInside lastFrame region ∧ EndFits lastFrame region := by
  obtain ⟨builder, hrun, h⟩ := Checked.bind_eq_ok.mp h
  obtain rfl := Except.ok.inj h
  obtain ⟨hregions, rest, hslots, hlast⟩ := slots_empty.addRegions hrun
  refine ⟨?_, hregions⟩
  have hrest : ∀ slot ∈ rest, slot = none := by
    cases List.eq_nil_or_concat' regions with
    | inl hnil => simp [hnil] at hregion
    | inr hconcat =>
        obtain ⟨before, last, rfl⟩ := hconcat
        have hle : region.start ≤ last.start := by
          rcases List.mem_append.mp hregion with hmem | hmem
          · exact (List.pairwise_append.mp hsorted).2.2 region hmem last List.mem_cons_self
          · rw [List.mem_singleton.mp hmem]
        apply hlast last (by simp)
        intro hover
        have hzero := hover.2
        omega
  have hnone : rest.filterMap id = [] :=
    List.filterMap_eq_nil_iff.mpr hrest
  rw [hslots.slots, List.filterMap_append, hnone, List.append_nil, List.nil_append,
    List.filterMap_map]
  exact List.filterMap_some

/-! ## Maps that are preserved -/

def MapPreserved (regions : List E820MemoryRegion) (lastFrame : PhysicalFrame S) : Prop :=
  ∃ newRegions, buildMemoryMap regions lastFrame = .ok newRegions ∧
    PreservesMap regions lastFrame (newRegions.filterMap id)

/-- Usable memory at address zero is empty, no usable region behind it ends at the last
frame in use, and the end of the region that holds the frame is representable. -/
structure MapCondition (regions : List E820MemoryRegion)
    (lastFrame : PhysicalFrame .size4KiB) : Prop where
  zero : NothingOverwritten regions
  apart : ∀ region ∈ regions, isUsable region = true → region.start ≠ 0 →
    region.start + region.size ≠ lastFrame.address
  fits : ∀ region ∈ regions, FrameInside lastFrame region → Fits region

theorem nothingOverwritten_of_covers (hdisjoint : DisjointRegions regions)
    (hsplits : ∀ region ∈ regions, SplitsInside lastFrame region)
    (hcovers : ∀ byte, (∃ region ∈ regions, Holds region byte) →
      ∃ entry ∈ regions.flatMap (entriesOf lastFrame), Holds entry byte) :
    NothingOverwritten regions := by
  intro region hregion husable hstart
  by_contra hsize
  have hbyte : Holds region 0 := by
    change region.start ≤ 0 ∧ 0 < region.start + region.size
    omega
  obtain ⟨entry, hentry, hheld⟩ := hcovers 0 ⟨region, hregion, hbyte⟩
  obtain ⟨other, hother, hbyte', hover, _⟩ :=
    (exists_flatMap_entriesOf_iff hsplits 0 entry.typ).mp ⟨entry, hentry, hheld, rfl⟩
  rw [mem_unique_of_disjoint hdisjoint hother hregion hbyte' hbyte] at hover
  exact hover ⟨husable, hstart⟩

/-- Under the condition every region is split inside, and the ends that are computed are
representable. -/
theorem MapCondition.splits {lastFrame : PhysicalFrame .size4KiB}
    (hcondition : MapCondition regions lastFrame) (hdisjoint : DisjointRegions regions)
    {holder : E820MemoryRegion} (hholder : holder ∈ regions)
    (hinside : FrameInside lastFrame holder) :
    ∀ region ∈ regions, SplitsInside lastFrame region ∧ EndFits lastFrame region := by
  intro region hregion
  have hfits : holder.start + holder.size < 2 ^ 64 := hcondition.fits holder hholder hinside
  have hend : lastFrame.address + 0x1000 ≤ holder.start + holder.size := hinside.2
  by_cases hholds : Holds region lastFrame.address
  · rw [mem_unique_of_disjoint hdisjoint hregion hholder hholds hinside.holds]
    exact ⟨fun _ _ _ => hend, fun _ _ _ => hfits⟩
  · -- a region that starts in front of the frame and does not hold it ends there or before
    constructor
    · intro husable hstart hreach
      have hapart := hcondition.apart region hregion husable hstart
      have hlow : region.start ≤ lastFrame.address := hreach.1
      have hhigh : lastFrame.address ≤ region.start + region.size := hreach.2
      exact absurd ⟨hlow, by change _ < region.start + region.size; omega⟩ hholds
    · intro _ _ hlow
      have hbefore : region.start + region.size ≤ lastFrame.address := by
        by_contra hlate
        exact hholds ⟨hlow, Nat.lt_of_not_le hlate⟩
      change region.start + region.size < 2 ^ 64
      omega

/-- Exactly under the condition the map is preserved. -/
theorem mapPreserved_iff {lastFrame : PhysicalFrame .size4KiB}
    (hsorted : SortedRegions regions) (hdisjoint : DisjointRegions regions)
    (hlength : regions.length < 31)
    (hframe : ∃ region ∈ regions,
      isUsable region = true ∧ region.start ≠ 0 ∧ FrameInside lastFrame region) :
    MapPreserved regions lastFrame ↔ MapCondition regions lastFrame := by
  obtain ⟨holder, hholder, husable, hstart, hinside⟩ := hframe
  constructor
  · intro hpreserved
    obtain ⟨newRegions, hbuild, hmap⟩ := hpreserved
    obtain ⟨heq, hregions⟩ := buildMemoryMap_entries hsorted hholder hstart hbuild
    rw [heq] at hmap
    refine ⟨?_, ?_, ?_⟩
    · exact nothingOverwritten_of_covers hdisjoint
        (fun region hregion => (hregions region hregion).1) fun byte => (hmap.covers byte).mpr
    · intro region hregion husable hstart hend
      have hle := (hregions region hregion).1 husable hstart
        ⟨Nat.le.intro hend, Nat.le_of_eq hend.symm⟩
      rw [hend] at hle
      exact absurd hle (by change ¬ lastFrame.address + 0x1000 ≤ lastFrame.address; omega)
    · intro region hregion hinside'
      rw [mem_unique_of_disjoint hdisjoint hregion hholder hinside'.holds hinside.holds]
      exact (hregions holder hholder).2 husable hstart hinside.1
  · intro hcondition
    have hregions := hcondition.splits hdisjoint hholder hinside
    have hsplits := fun region hregion => (hregions region hregion).1
    have hroom := length_flatMap_entriesOf_le hdisjoint hsplits
    have hone : (if ∃ region ∈ regions, Holds region lastFrame.address then 1 else 0) ≤ 1 := by
      split <;> omega
    obtain ⟨builder, hrun⟩ : ∃ builder,
        regions.foldlM (MapBuilder.addRegion lastFrame) .empty = .ok builder :=
      MapBuilder.addRegions_of_room hregions (by
        change 0 + _ < 0x20
        omega)
    have hbuild : buildMemoryMap regions lastFrame = .ok builder.newRegions := by
      rw [buildMemoryMap, hrun]
      rfl
    refine ⟨builder.newRegions, hbuild, ?_⟩
    rw [(buildMemoryMap_entries hsorted hholder hstart hbuild).1]
    exact preservesMap_entries hdisjoint hcondition.zero hsplits

def reservedLowMap : List E820MemoryRegion :=
  [⟨0, 0x100000, .reserved, 0⟩, ⟨0x100000, 0x10000, .normal, 0⟩]

def usableLowMap : List E820MemoryRegion :=
  [⟨0, 0x9fc00, .normal, 0⟩, ⟨0x9fc00, 0x60400, .reserved, 0⟩, ⟨0x100000, 0x10000, .normal, 0⟩]

theorem disjoint_pair {first second : E820MemoryRegion} {rest : List E820MemoryRegion}
    (hend : first.start + first.size ≤ second.start)
    (hrest : ∀ other ∈ rest, first.start + first.size ≤ other.start)
    (hdisjoint : DisjointRegions (second :: rest)) :
    DisjointRegions (first :: second :: rest) := by
  refine List.pairwise_cons.mpr ⟨fun other hother byte hbyte hbyte' => ?_, hdisjoint⟩
  have hlt : byte < first.start + first.size := hbyte.2
  have hle : other.start ≤ byte := hbyte'.1
  rcases List.mem_cons.mp hother with heq | hmem
  · rw [heq] at hle
    omega
  · have hother := hrest other hmem
    omega

theorem mapPreserved_reservedLowMap :
    SortedRegions reservedLowMap ∧ DisjointRegions reservedLowMap ∧
      MapPreserved reservedLowMap (⟨0x101000, by decide⟩ : PhysicalFrame .size4KiB) := by
  have hsorted : SortedRegions reservedLowMap := by
    simp [SortedRegions, reservedLowMap, MemoryRegion.start]
  have hdisjoint : DisjointRegions reservedLowMap :=
    disjoint_pair (by decide) (by simp) (List.pairwise_singleton _ _)
  refine ⟨hsorted, hdisjoint, (mapPreserved_iff hsorted hdisjoint (by decide) ?_).mpr ?_⟩
  · exact ⟨⟨0x100000, 0x10000, .normal, 0⟩, by decide, by decide, by decide,
      by constructor <;> decide⟩
  · constructor
    · unfold NothingOverwritten
      decide
    · decide
    · intro region hregion hinside
      clear hinside
      revert region
      decide

/-- The entry of the usable memory at zero is overwritten by that of the next region. -/
theorem not_mapPreserved_usableLowMap :
    SortedRegions usableLowMap ∧ DisjointRegions usableLowMap ∧ usableLowMap.length < 31 ∧
      (∃ region ∈ usableLowMap, isUsable region = true ∧ region.start ≠ 0 ∧
        FrameInside ⟨0x101000, by decide⟩ region) ∧
      ¬ MapPreserved usableLowMap (⟨0x101000, by decide⟩ : PhysicalFrame .size4KiB) := by
  have hdisjoint : DisjointRegions usableLowMap :=
    disjoint_pair (by decide) (by decide)
      (disjoint_pair (by decide) (by simp) (List.pairwise_singleton _ _))
  refine ⟨by simp [SortedRegions, usableLowMap, MemoryRegion.start], hdisjoint, by decide,
    ⟨⟨0x100000, 0x10000, .normal, 0⟩, by decide, by decide, by decide,
      by constructor <;> decide⟩, ?_⟩
  intro hpreserved
  obtain ⟨newRegions, hbuild, hmap⟩ := hpreserved
  have heq : buildMemoryMap usableLowMap (⟨0x101000, by decide⟩ : PhysicalFrame .size4KiB) =
      .ok ([some ⟨0x9fc00, 0x60400, .reserved⟩, some ⟨0x100000, 0x2000, .reserved⟩,
        some ⟨0x102000, 0xe000, .free⟩] ++ List.replicate 29 none) := by
    rfl
  rw [heq] at hbuild
  obtain rfl := Except.ok.inj hbuild
  obtain ⟨entry, hentry, hlow, _⟩ := (hmap.covers 0).mpr
    ⟨⟨0, 0x9fc00, .normal, 0⟩, by decide, by constructor <;> decide⟩
  revert hlow
  revert entry
  decide

-- a usable region that ends at the last frame is taken for the one that holds it
example : buildMemoryMap [⟨0x1000, 0x1000, .normal, 0⟩, ⟨0x2000, 0x1000, .normal, 0⟩]
    (⟨0x2000, by decide⟩ : PhysicalFrame .size4KiB) = .error .overflow := rfl

end MiniatureOs
