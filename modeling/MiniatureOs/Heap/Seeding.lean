import MiniatureOs.Frames.Contract
import MiniatureOs.Heap.Safety

/-! # Seeding the heap from a memory map

`init_from_memory_map` takes the address of the last byte of a region for the end of the
range, and `add_region` leaves the byte at the end of the range out. The chunks made of a
region of whole pages therefore miss its last byte, and get smaller towards it down to a
single byte, which does not hold the header that is written there.
-/

namespace MiniatureOs

open DyadicBlock MemoryRegion BumpFrameAllocator

namespace BuddyAllocator

variable {a a' : BuddyAllocator} {memoryMap : List PhysicalMemoryRegion}
  {region : PhysicalMemoryRegion}

/-- The bytes that the loop makes chunks of: all bytes of a usable region but the last. -/
def Seeded (region : PhysicalMemoryRegion) (x : Nat) : Prop :=
  isUsable region = true ∧ region.start ≤ x ∧ x < region.start + region.size - 1

theorem addMemoryRegion_of_unusable (a : BuddyAllocator) (h : isUsable region = false) :
    a.addMemoryRegion region = .ok a := by
  unfold addMemoryRegion
  rw [h]
  rfl

/-- A round that returns was given a region with a last byte, and adds its bytes but
that one. -/
theorem addMemoryRegion_spec (hpos : 0 < region.start) (hsized : a.Sized)
    (h : a.addMemoryRegion region = .ok a') :
    a'.Sized ∧ (isUsable region = true → 0 < region.size) ∧
      ∀ x, Covers a'.freeBlocks x ↔ Covers a.freeBlocks x ∨ Seeded region x := by
  cases husable : isUsable region with
  | false =>
      rw [addMemoryRegion_of_unusable a husable] at h
      obtain rfl := Except.ok.inj h
      refine ⟨hsized, fun htrue => absurd htrue (by decide), fun x => ?_⟩
      simp [Seeded, husable]
  | true =>
      unfold addMemoryRegion at h
      rw [husable, Bool.not_true, if_neg (by decide)] at h
      obtain ⟨regionEnd, hend, h⟩ := Checked.bind_eq_ok.mp h
      obtain ⟨stop, hstop, h⟩ := Checked.bind_eq_ok.mp h
      obtain ⟨hassert, hle, h⟩ := Checked.bind_eq_ok.mp h
      obtain ⟨hfits, rfl⟩ := endAddress_eq_ok.mp hend
      obtain ⟨_, rfl⟩ := Checked.sub_eq_ok.mp hstop
      have hle' : region.start ≤ start region + size region - 1 := by
        simpa using Checked.assert_eq_ok.mp hle
      change region.start ≤ region.start + region.size - 1 at hle'
      change region.start + region.size < 2 ^ 64 at hfits
      obtain ⟨a₁, tiles, hloop, hsized₁, hperm, _, hcovers, _⟩ :=
        addRegionLoop_spec (region.start + region.size - 1 - region.start) a hpos hle'
          (Nat.lt_of_le_of_lt (Nat.sub_le _ _) hfits) (Nat.le_refl _) hsized
      have hsame : a₁ = a' := Except.ok.inj (hloop.symm.trans h)
      subst hsame
      refine ⟨hsized₁, fun _ => by omega, fun x => ?_⟩
      rw [covers_perm hperm, covers_append, hcovers, Seeded, or_comm]
      simp [husable]

theorem initFromMemoryMap_spec (hpos : ∀ r ∈ memoryMap, 0 < r.start) (hsized : a.Sized)
    (h : a.initFromMemoryMap memoryMap = .ok a') :
    (∀ r ∈ memoryMap, isUsable r = true → 0 < r.size) ∧
      ∀ x, Covers a'.freeBlocks x ↔
        Covers a.freeBlocks x ∨ ∃ r ∈ memoryMap, Seeded r x := by
  induction memoryMap generalizing a with
  | nil =>
      obtain rfl := Except.ok.inj h
      simp
  | cons region rest ih =>
      unfold initFromMemoryMap at h
      rw [List.foldlM_cons] at h
      obtain ⟨a₁, hround, hrest⟩ := Checked.bind_eq_ok.mp h
      obtain ⟨hfirst, hpos⟩ := List.forall_mem_cons.mp hpos
      obtain ⟨hsized₁, hsize, hcovers₁⟩ := addMemoryRegion_spec hfirst hsized hround
      obtain ⟨hsizes, hcovers⟩ := ih hpos hsized₁ hrest
      refine ⟨List.forall_mem_cons.mpr ⟨hsize, hsizes⟩, fun x => ?_⟩
      rw [hcovers, hcovers₁, or_assoc]
      simp only [List.mem_cons, exists_eq_or_imp]

theorem initFromMemoryMap_of_unusable (h : ∀ r ∈ memoryMap, isUsable r = false) :
    a.initFromMemoryMap memoryMap = .ok a := by
  induction memoryMap with
  | nil => rfl
  | cons region rest ih =>
      obtain ⟨hregion, hrest⟩ := List.forall_mem_cons.mp h
      unfold initFromMemoryMap
      rw [List.foldlM_cons, addMemoryRegion_of_unusable a hregion]
      exact ih hrest

structure SeededFrom (memoryMap : List PhysicalMemoryRegion) (a : BuddyAllocator) : Prop where
  once : ∀ cls, (a.list cls).Nodup
  apart : ∀ cls, ∀ chunk ∈ a.list cls, ∀ cls', ∀ chunk' ∈ a.list cls',
    (cls ≠ cls' ∨ chunk ≠ chunk') →
      Heap.SpansApart chunk.start chunk.size chunk'.start chunk'.size
  covers : ∀ x, (∃ cls, ∃ chunk ∈ a.list cls, chunk.start ≤ x ∧ x < chunk.start + chunk.size) ↔
    ∃ r ∈ memoryMap, isUsable r = true ∧ Holds r x
  power : ∀ cls, ∀ chunk ∈ a.list cls, chunk.size = 2 ^ cls ∧ chunk.size ≤ 2 ^ (maxOrder - 1)
  aligned : ∀ cls, ∀ chunk ∈ a.list cls, chunk.start % chunk.size = 0
  holdsHeader : ∀ cls, ∀ chunk ∈ a.list cls, minSize ≤ chunk.size

/-- The last byte of a usable region is in no chunk. -/
theorem last_not_covered (hdisjoint : DisjointRegions memoryMap)
    (hpos : ∀ r ∈ memoryMap, 0 < r.start) (h : new.initFromMemoryMap memoryMap = .ok a)
    (hregion : region ∈ memoryMap) (hsize : 0 < region.size) :
    ¬ Covers a.freeBlocks (region.start + region.size - 1) := by
  rw [(initFromMemoryMap_spec hpos sized_new h).2, freeBlocks_new]
  rintro (⟨b, hb, _⟩ | ⟨r, hr, _, hlo, hhi⟩)
  · cases hb
  · have hin : Holds region (region.start + region.size - 1) := by
      change region.start ≤ _ ∧ _ < region.start + region.size
      omega
    have hin' : Holds r (region.start + region.size - 1) := by
      change r.start ≤ _ ∧ _ < r.start + r.size
      omega
    have hsame : region = r := hdisjoint.eq_of_holds hregion hr hin hin'
    subst hsame
    omega

theorem seededFrom_new (h : ∀ r ∈ memoryMap, isUsable r = false) : SeededFrom memoryMap new where
  once := by simp
  apart := by simp
  covers := by
    intro x
    simp only [list_new, List.not_mem_nil, false_and, exists_false, false_iff]
    rintro ⟨r, hr, husable, _⟩
    rw [h r hr] at husable
    cases husable
  power := by simp
  aligned := by simp
  holdsHeader := by simp

/-- Seeding a new allocator meets its purpose only when there is nothing to seed, whether
or not the regions are made of whole pages. -/
theorem seededFrom_iff (memoryMap : List PhysicalMemoryRegion)
    (hdisjoint : DisjointRegions memoryMap) (hpos : ∀ r ∈ memoryMap, 0 < r.start) :
    (∃ a, new.initFromMemoryMap memoryMap = .ok a ∧ SeededFrom memoryMap a) ↔
      ∀ r ∈ memoryMap, isUsable r = false := by
  constructor
  · rintro ⟨a, hcall, hseeded⟩ region hregion
    cases husable : isUsable region with
    | false => rfl
    | true =>
        have hsize := (initFromMemoryMap_spec hpos sized_new hcall).1 region hregion husable
        have hlast : Holds region (region.start + region.size - 1) := by
          change region.start ≤ _ ∧ _ < region.start + region.size
          omega
        obtain ⟨cls, chunk, hchunk, hbyte⟩ :=
          (hseeded.covers _).mpr ⟨region, hregion, husable, hlast⟩
        rw [(hseeded.power cls chunk hchunk).1] at hbyte
        exact absurd ⟨⟨cls, chunk.start⟩, mem_freeBlocks_of_mem_list hchunk, hbyte⟩
          (last_not_covered hdisjoint hpos hcall hregion hsize)
  · intro hnone
    exact ⟨new, initFromMemoryMap_of_unusable hnone, seededFrom_new hnone⟩

theorem seededFrom_reserved_page :
    ∃ a, new.initFromMemoryMap [⟨0x1000, 0x1000, .reserved⟩] = .ok a ∧
      SeededFrom [⟨0x1000, 0x1000, .reserved⟩] a :=
  (seededFrom_iff [⟨0x1000, 0x1000, .reserved⟩] (List.pairwise_singleton _ _)
    (by decide)).mpr (by decide)

/-- Of one free page the last byte is lost, and the byte before it is a chunk of its own. -/
theorem not_seededFrom_free_page :
    DisjointRegions [(⟨0x1000, 0x1000, .free⟩ : PhysicalMemoryRegion)] ∧
      PageAligned (⟨0x1000, 0x1000, .free⟩ : PhysicalMemoryRegion) ∧
      (new.initFromMemoryMap [⟨0x1000, 0x1000, .free⟩]).toOption.map (list · 0) =
        some [⟨0x1ffe, 1⟩] ∧
      ¬ ∃ a, new.initFromMemoryMap [⟨0x1000, 0x1000, .free⟩] = .ok a ∧
        SeededFrom [⟨0x1000, 0x1000, .free⟩] a := by
  have hlist : (new.initFromMemoryMap [⟨0x1000, 0x1000, .free⟩]).toOption.map (list · 0) =
      some [⟨0x1ffe, 1⟩] := by decide +kernel
  refine ⟨List.pairwise_singleton _ _, by decide, hlist, ?_⟩
  rintro ⟨a, hcall, hseeded⟩
  rw [hcall] at hlist
  have hchunk : (⟨0x1ffe, 1⟩ : Chunk) ∈ a.list 0 := by
    rw [show a.list 0 = [⟨0x1ffe, 1⟩] from Option.some.inj hlist]
    exact List.mem_cons_self
  exact absurd (hseeded.holdsHeader 0 _ hchunk) (by decide)

end BuddyAllocator

end MiniatureOs
