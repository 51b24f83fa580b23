import Mathlib.Data.List.MinMax
import Mathlib.Data.Nat.Dist
import Mathlib.Data.Prod.Lex
import MiniatureOs.Lib.ByteMemory
import MiniatureOs.Lib.Checked

/-! # Choosing a video mode

`bootloader/x86_64/bios/stage2/src/vesa.rs`. The BIOS leaves an array of mode ids that
ends with 0xffff and answers a query for each of them. `get_best_mode` goes through the
array once: it leaves at an exact match and otherwise keeps the closest mode so far,
by the number of pixels first and by the depth second.
-/

namespace MiniatureOs

def vesaSuccess : UInt16 := 0x004f

/-- `RealModePointer`: the segment in the upper half, the offset in the lower one. -/
structure RealModePointer where
  raw : UInt32
  deriving Repr, DecidableEq

namespace RealModePointer

def segment (pointer : RealModePointer) : UInt16 := (pointer.raw >>> 16).toUInt16

def offset (pointer : RealModePointer) : UInt16 := pointer.raw.toUInt16

end RealModePointer

/-! ## Mode information -/

/-- The fields of `VbeModeInfo` that the loader reads. -/
structure VbeModeInfo where
  attributes : UInt16
  bytesPerScanline : UInt16
  width : UInt16
  height : UInt16
  bitsPerPixel : UInt8
  memoryModel : UInt8
  redPosition : UInt8
  greenPosition : UInt8
  bluePosition : UInt8
  framebuffer : UInt32
  deriving Repr, DecidableEq

/-- What function 0x4f01 leaves for a mode: the status in `ax` and the filled block. -/
structure VbeModeReply where
  ax : UInt16
  block : VbeModeInfo
  deriving Repr, DecidableEq

abbrev VbeBios := UInt16 → VbeModeReply

/-- `VbeModeInfo::get`. -/
def VbeModeInfo.get (bios : VbeBios) (mode : UInt16) : Except UInt16 VbeModeInfo :=
  if (bios mode).ax = vesaSuccess then .ok (bios mode).block else .error (bios mode).ax

/-! ## The search -/

/-- The field of `VbeInfo` that the loader reads. -/
structure VbeInfo where
  videoModeArrayPointer : RealModePointer
  deriving Repr, DecidableEq

namespace VbeInfo

def modeArray (vbe : VbeInfo) : Nat :=
  (vbe.videoModeArrayPointer.segment.toNat <<< 4) + vbe.videoModeArrayPointer.offset.toNat

/-- The `u16` at an index of the array. -/
def modeAt (vbe : VbeInfo) (memory : ByteMemory) (index : Nat) : UInt16 :=
  UInt16.ofNat (ofLittleEndian (memory.bytes (vbe.modeArray + 2 * index) 2))

def getMode (vbe : VbeInfo) (memory : ByteMemory) (offset : Nat) : Option UInt16 :=
  let mode := vbe.modeAt memory offset
  if mode = 0xffff then none else some mode

/-- The variables of the loop in `get_best_mode`. -/
structure Search where
  best : Option UInt16
  bestPixDiff : Nat
  bestDepthDiff : Nat
  deriving Repr, DecidableEq

inductive Outcome where
  | next (s : Search)
  | found (mode : UInt16)
  deriving Repr, DecidableEq

section Search

variable (bios : VbeBios) (width height : UInt16) (depth : UInt8)

def compare (mode : UInt16) (info : VbeModeInfo) (s : Search) : Checked Search := do
  let pixels ← Checked.mul 32 info.width.toNat info.height.toNat
  let wanted ← Checked.mul 32 width.toNat height.toNat
  let pixDiff := Nat.dist pixels wanted
  let depthDiff := Nat.dist info.bitsPerPixel.toNat depth.toNat
  if pixDiff < s.bestPixDiff ∨ s.bestPixDiff = pixDiff ∧ depthDiff < s.bestDepthDiff then
    return ⟨some mode, pixDiff, depthDiff⟩
  else return s

def visit (mode : UInt16) (s : Search) : Checked Outcome :=
  match VbeModeInfo.get bios mode with
  | .error _ => return .next s
  | .ok info =>
      if info.attributes &&& 0x90 ≠ 0x90 then return .next s
      else if info.memoryModel ≠ 4 ∧ info.memoryModel ≠ 6 then return .next s
      else if info.width = width ∧ info.height = height ∧ info.bitsPerPixel = depth then
        return .found mode
      else do
        let s ← compare width height depth mode info s
        return .next s

/-- The loop over `0..`, whose counter is an `i32`: advancing it behind the last index
overflows. -/
def getBestModeLoop (vbe : VbeInfo) (memory : ByteMemory) :
    Nat → Nat → Search → Checked (Option UInt16)
  | 0, _, _ => .error .overflow
  | fuel + 1, i, s =>
      match vbe.getMode memory i with
      | none => return s.best
      | some mode => do
          match ← visit bios width height depth mode s with
          | .next s => getBestModeLoop vbe memory fuel (i + 1) s
          | .found mode => return some mode

def getBestMode (vbe : VbeInfo) (memory : ByteMemory) : Checked (Option UInt16) :=
  getBestModeLoop bios width height depth vbe memory (2 ^ 31 - 1) 0 ⟨none, 2 ^ 32 - 1, 2 ^ 8 - 1⟩

end Search

end VbeInfo

/-! ## Lists of modes -/

structure ModeList (vbe : VbeInfo) (memory : ByteMemory) (modes : List UInt16) : Prop where
  notNull : 0 < vbe.modeArray
  addressable : vbe.modeArray + 2 * (modes.length + 1) ≤ 2 ^ 32
  entries : ∀ i (h : i < modes.length), vbe.modeAt memory i = modes[i]
  proper : 0xffff ∉ modes
  closed : vbe.modeAt memory modes.length = 0xffff

theorem ModeList.getMode_of_lt {vbe : VbeInfo} {memory : ByteMemory} {modes : List UInt16}
    (h : ModeList vbe memory modes) {i : Nat} (hi : i < modes.length) :
    vbe.getMode memory i = some modes[i] := by
  have hne : modes[i] ≠ 0xffff := by
    intro heq
    apply h.proper
    rw [← heq]
    exact List.getElem_mem hi
  rw [VbeInfo.getMode, h.entries i hi]
  exact if_neg hne

theorem ModeList.getMode_length {vbe : VbeInfo} {memory : ByteMemory} {modes : List UInt16}
    (h : ModeList vbe memory modes) : vbe.getMode memory modes.length = none := by
  rw [VbeInfo.getMode, h.closed]
  exact if_pos rfl

/-! ## What the search is for -/

namespace VbeModeInfo

structure Selectable (info : VbeModeInfo) : Prop where
  graphics : info.attributes.toBitVec.getLsbD 4 = true
  linear : info.attributes.toBitVec.getLsbD 7 = true
  model : info.memoryModel = 4 ∨ info.memoryModel = 6

def Matches (info : VbeModeInfo) (width height : UInt16) (depth : UInt8) : Prop :=
  info.width = width ∧ info.height = height ∧ info.bitsPerPixel = depth

instance (info : VbeModeInfo) (width height : UInt16) (depth : UInt8) :
    Decidable (info.Matches width height depth) :=
  inferInstanceAs (Decidable (_ ∧ _))

/-- The distance from the request: pixels first, depth second. -/
def distance (info : VbeModeInfo) (width height : UInt16) (depth : UInt8) : ℕ ×ₗ ℕ :=
  toLex (Nat.dist (info.width.toNat * info.height.toNat) (width.toNat * height.toNat),
    Nat.dist info.bitsPerPixel.toNat depth.toNat)

theorem attributesMask_getLsbD :
    ∀ i < 16, (UInt16.toBitVec 0x90).getLsbD i = decide (i = 4 ∨ i = 7) := by
  decide

theorem attributes_and_eq (a : UInt16) :
    a &&& 0x90 = 0x90 ↔ a.toBitVec.getLsbD 4 = true ∧ a.toBitVec.getLsbD 7 = true := by
  rw [← UInt16.toBitVec_inj, UInt16.toBitVec_and]
  constructor
  · intro h
    have hfour := congrArg (BitVec.getLsbD · 4) h
    have hseven := congrArg (BitVec.getLsbD · 7) h
    simp only [BitVec.getLsbD_and] at hfour hseven
    rw [attributesMask_getLsbD 4 (by decide)] at hfour
    rw [attributesMask_getLsbD 7 (by decide)] at hseven
    exact ⟨by simpa using hfour, by simpa using hseven⟩
  · intro h
    apply BitVec.eq_of_getLsbD_eq
    intro i hi
    rw [BitVec.getLsbD_and, attributesMask_getLsbD i hi]
    by_cases hbit : i = 4 ∨ i = 7
    · cases hbit with
      | inl hfour => simp [hfour, h.1]
      | inr hseven => simp [hseven, h.2]
    · simp [hbit]

theorem selectable_iff (info : VbeModeInfo) :
    info.Selectable ↔
      info.attributes &&& 0x90 = 0x90 ∧ (info.memoryModel = 4 ∨ info.memoryModel = 6) := by
  rw [attributes_and_eq]
  constructor
  · intro h
    exact ⟨⟨h.graphics, h.linear⟩, h.model⟩
  · intro h
    exact ⟨h.1.1, h.1.2, h.2⟩

instance (info : VbeModeInfo) : Decidable info.Selectable :=
  decidable_of_iff _ (selectable_iff info).symm

end VbeModeInfo

def Offers (bios : VbeBios) (mode : UInt16) (info : VbeModeInfo) : Prop :=
  VbeModeInfo.get bios mode = .ok info ∧ info.Selectable

/-- A mode of the list that none in the list is closer than, nor as close and earlier. -/
structure Closest (bios : VbeBios) (width height : UInt16) (depth : UInt8) (modes : List UInt16)
    (mode : UInt16) (info : VbeModeInfo) : Prop where
  least : ∀ other ∈ modes, ∀ info', Offers bios other info' →
    info.distance width height depth ≤ info'.distance width height depth
  earliest : ∀ other ∈ modes, ∀ info', Offers bios other info' →
    info'.distance width height depth = info.distance width height depth →
      modes.idxOf mode ≤ modes.idxOf other

structure FirstMatch (bios : VbeBios) (width height : UInt16) (depth : UInt8)
    (modes : List UInt16) (mode : UInt16) (info : VbeModeInfo) : Prop where
  same : info.Matches width height depth
  earliest : ∀ other ∈ modes, ∀ info', Offers bios other info' →
    info'.Matches width height depth → modes.idxOf mode ≤ modes.idxOf other

/-- What `get_best_mode` is to return for a list of modes. -/
structure BestMode (bios : VbeBios) (width height : UInt16) (depth : UInt8)
    (modes : List UInt16) (result : Option UInt16) : Prop where
  none_iff : result = none ↔ ¬ ∃ mode ∈ modes, ∃ info, Offers bios mode info
  chosen : ∀ mode, result = some mode → mode ∈ modes ∧ ∃ info, Offers bios mode info ∧
    ((∃ other ∈ modes, ∃ info', Offers bios other info' ∧ info'.Matches width height depth) →
      FirstMatch bios width height depth modes mode info) ∧
    ((¬ ∃ other ∈ modes, ∃ info', Offers bios other info' ∧ info'.Matches width height depth) →
      Closest bios width height depth modes mode info)

/-! ## The search as a minimum

The modes in use are those of the list that the BIOS offers. Without a match among them
the loop computes their minimum by distance, as `List.argmin` does. -/

section Selection

variable (bios : VbeBios) (width height : UInt16) (depth : UInt8)

def offer (mode : UInt16) : Option VbeModeInfo :=
  match VbeModeInfo.get bios mode with
  | .error _ => none
  | .ok info => if info.Selectable then some info else none

def offered (mode : UInt16) : Bool := (offer bios mode).isSome

def matching (mode : UInt16) : Bool :=
  (offer bios mode).any fun info => info.Matches width height depth

def modeDistance (mode : UInt16) : ℕ ×ₗ ℕ :=
  ((offer bios mode).map fun info => info.distance width height depth).getD (toLex (0, 0))

/-- The first match, or else the first of the closest modes. -/
def select (modes : List UInt16) : Option UInt16 :=
  match modes.find? (matching bios width height depth) with
  | some mode => some mode
  | none => (modes.filter (offered bios)).argmin (modeDistance bios width height depth)

end Selection

section Visits

variable {bios : VbeBios} {width height : UInt16} {depth : UInt8} {mode : UInt16}
  {info : VbeModeInfo} {s : VbeInfo.Search} {seen : List UInt16}

theorem offer_eq_some : offer bios mode = some info ↔ Offers bios mode info := by
  unfold offer Offers
  cases VbeModeInfo.get bios mode with
  | error code => simp
  | ok block =>
      by_cases hsel : block.Selectable
      · simp only [hsel, if_true, Option.some.injEq, Except.ok.injEq]
        constructor
        · intro h
          exact ⟨h, h ▸ hsel⟩
        · intro h
          exact h.1
      · simp only [hsel, if_false, Except.ok.injEq]
        constructor
        · intro h
          cases h
        · intro h
          exact absurd (h.1 ▸ h.2) hsel

theorem offered_iff : offered bios mode = true ↔ ∃ info, Offers bios mode info := by
  rw [offered, Option.isSome_iff_exists]
  simp only [offer_eq_some]

theorem matching_iff : matching bios width height depth mode = true ↔
    ∃ info, Offers bios mode info ∧ info.Matches width height depth := by
  simp [matching, Option.any_eq_true, offer_eq_some]

theorem modeDistance_eq (width height : UInt16) (depth : UInt8) (h : Offers bios mode info) :
    modeDistance bios width height depth mode = info.distance width height depth := by
  rw [modeDistance, offer_eq_some.mpr h]
  rfl

theorem pixels_lt (width height : UInt16) : width.toNat * height.toNat < 2 ^ 32 - 1 := by
  have hmul : width.toNat * height.toNat ≤ (2 ^ 16 - 1) * (2 ^ 16 - 1) :=
    Nat.mul_le_mul (Nat.le_sub_one_of_lt width.toNat_lt) (Nat.le_sub_one_of_lt height.toNat_lt)
  omega

/-- The products of two `u16` fit, so the comparison returns. -/
theorem compare_eq (width height : UInt16) (depth : UInt8) (mode : UInt16) (info : VbeModeInfo)
    (s : VbeInfo.Search) : VbeInfo.compare width height depth mode info s = .ok
      (if info.distance width height depth < toLex (s.bestPixDiff, s.bestDepthDiff) then
        ⟨some mode, (ofLex (info.distance width height depth)).1,
          (ofLex (info.distance width height depth)).2⟩
      else s) := by
  have hmode := pixels_lt info.width info.height
  have hrequest := pixels_lt width height
  rw [VbeInfo.compare, Checked.mul_of_lt (by omega), Checked.mul_of_lt (by omega)]
  simp only [Checked.ok_bind, VbeModeInfo.distance, Prod.Lex.toLex_lt_toLex, ofLex_toLex,
    eq_comm (a := s.bestPixDiff)]
  split <;> rfl

theorem visit_of_not_offered (h : offered bios mode = false) :
    VbeInfo.visit bios width height depth mode s = .ok (.next s) := by
  unfold VbeInfo.visit
  cases hget : VbeModeInfo.get bios mode with
  | error code => rfl
  | ok block =>
      have hsel : ¬ block.Selectable := by
        intro hsel
        have htrue : offered bios mode = true := offered_iff.mpr ⟨block, hget, hsel⟩
        rw [h] at htrue
        cases htrue
      rw [VbeModeInfo.selectable_iff] at hsel
      by_cases hattr : block.attributes &&& 0x90 = 0x90
      · have hmodel : block.memoryModel ≠ 4 ∧ block.memoryModel ≠ 6 :=
          not_or.mp fun hmodel => hsel ⟨hattr, hmodel⟩
        simp [hattr, hmodel]
      · simp [hattr]

theorem visit_of_offers (h : Offers bios mode info) :
    VbeInfo.visit bios width height depth mode s =
      if info.Matches width height depth then .ok (.found mode)
      else (do
        let s ← VbeInfo.compare width height depth mode info s
        return .next s) := by
  obtain ⟨hattr, hmodel⟩ := (VbeModeInfo.selectable_iff info).mp h.2
  have hkind : ¬ (info.memoryModel ≠ 4 ∧ info.memoryModel ≠ 6) := by
    intro hne
    cases hmodel with
    | inl hfour => exact hne.1 hfour
    | inr hsix => exact hne.2 hsix
  simp only [VbeInfo.visit, h.1, hattr, ne_eq, not_true_eq_false, if_false, if_neg hkind]
  rfl

structure Tracks (bios : VbeBios) (width height : UInt16) (depth : UInt8) (seen : List UInt16)
    (s : VbeInfo.Search) : Prop where
  best : s.best = (seen.filter (offered bios)).argmin (modeDistance bios width height depth)
  untouched : s.best = none → s.bestPixDiff = 2 ^ 32 - 1
  differences : ∀ mode, s.best = some mode →
    modeDistance bios width height depth mode = toLex (s.bestPixDiff, s.bestDepthDiff)

theorem Tracks.start : Tracks bios width height depth [] ⟨none, 2 ^ 32 - 1, 2 ^ 8 - 1⟩ :=
  ⟨rfl, fun _ => rfl, fun _ h => by cases h⟩

theorem Tracks.skip (h : Tracks bios width height depth seen s)
    (hmode : offered bios mode = false) :
    Tracks bios width height depth (seen ++ [mode]) s := by
  have hfilter : (seen ++ [mode]).filter (offered bios) = seen.filter (offered bios) := by
    simp [hmode]
  exact ⟨hfilter ▸ h.best, h.untouched, h.differences⟩

/-- The differences that the search starts with are larger than any that occurs. -/
theorem distance_lt_start (info : VbeModeInfo) (width height : UInt16) (depth : UInt8) (d : Nat) :
    info.distance width height depth < toLex (2 ^ 32 - 1, d) := by
  have hmode := pixels_lt info.width info.height
  have hrequest := pixels_lt width height
  rw [VbeModeInfo.distance, Prod.Lex.toLex_lt_toLex]
  left
  simp only [Nat.dist]
  omega

theorem Tracks.compare (h : Tracks bios width height depth seen s) (hmode : Offers bios mode info) :
    ∃ s', VbeInfo.compare width height depth mode info s = .ok s' ∧
      Tracks bios width height depth (seen ++ [mode]) s' := by
  have hdist := modeDistance_eq width height depth hmode
  have hfilter : (seen ++ [mode]).filter (offered bios) =
      seen.filter (offered bios) ++ [mode] := by
    simp [offered_iff.mpr ⟨info, hmode⟩]
  refine ⟨_, compare_eq width height depth mode info s, ?_⟩
  cases hbest : s.best with
  | none =>
      have hlt := distance_lt_start info width height depth s.bestDepthDiff
      rw [← h.untouched hbest] at hlt
      have hnone := h.best.symm.trans hbest
      rw [if_pos hlt]
      refine ⟨?_, nofun, fun other hother => ?_⟩
      · rw [hfilter, List.argmin_concat, hnone]
      · obtain rfl := Option.some.inj hother
        exact hdist
  | some other =>
      have hother := h.differences other hbest
      have hargmin : ((seen ++ [mode]).filter (offered bios)).argmin
          (modeDistance bios width height depth) =
            if info.distance width height depth < toLex (s.bestPixDiff, s.bestDepthDiff) then
              some mode else some other := by
        rw [hfilter, List.argmin_concat, h.best.symm.trans hbest, hdist, ← hother]
      by_cases hlt : info.distance width height depth < toLex (s.bestPixDiff, s.bestDepthDiff)
      · rw [if_pos hlt] at hargmin ⊢
        refine ⟨hargmin.symm, nofun, fun new hnew => ?_⟩
        obtain rfl := Option.some.inj hnew
        exact hdist
      · rw [if_neg hlt] at hargmin ⊢
        exact ⟨hbest.trans hargmin.symm, h.untouched, h.differences⟩

end Visits

/-- From any point of the list on, the loop returns what the whole list selects. -/
theorem getBestModeLoop_eq {bios : VbeBios} {width height : UInt16} {depth : UInt8} {vbe : VbeInfo}
    {memory : ByteMemory} {modes seen rest : List UInt16} (hlist : ModeList vbe memory modes)
    {s : VbeInfo.Search} {fuel : Nat} (hmodes : modes = seen ++ rest) (hfuel : rest.length < fuel)
    (htracks : Tracks bios width height depth seen s)
    (hseen : ∀ mode ∈ seen, matching bios width height depth mode = false) :
    VbeInfo.getBestModeLoop bios width height depth vbe memory fuel seen.length s =
      .ok (select bios width height depth modes) := by
  induction rest generalizing seen s fuel with
  | nil =>
      rw [List.append_nil] at hmodes
      subst hmodes
      have hnone : modes.find? (matching bios width height depth) = none := by
        rw [List.find?_eq_none]
        intro mode hmode
        rw [hseen mode hmode]
        exact Bool.false_ne_true
      cases fuel with
      | zero => cases hfuel
      | succ fuel =>
          rw [VbeInfo.getBestModeLoop, hlist.getMode_length, select, hnone, htracks.best]
          rfl
  | cons mode rest ih =>
      have hlt : seen.length < modes.length := by
        rw [hmodes, List.length_append, List.length_cons]
        omega
      have hget : vbe.getMode memory seen.length = some mode := by
        rw [hlist.getMode_of_lt hlt]
        simp [hmodes]
      have hnext : modes = (seen ++ [mode]) ++ rest := by simp [hmodes]
      have hlength : (seen ++ [mode]).length = seen.length + 1 := by simp
      cases fuel with
      | zero => cases hfuel
      | succ fuel =>
          have hrest : rest.length < fuel := by
            rw [List.length_cons] at hfuel
            omega
          -- past a mode that does not match the loop goes on with the rest
          have hnextRound : ∀ s', Tracks bios width height depth (seen ++ [mode]) s' →
              matching bios width height depth mode = false →
                VbeInfo.getBestModeLoop bios width height depth vbe memory fuel
                  (seen.length + 1) s' = .ok (select bios width height depth modes) := by
            intro s' htracks' hmatch
            have hrun := ih hnext hrest htracks'
              (List.forall_mem_append.mpr ⟨hseen, List.forall_mem_singleton.mpr hmatch⟩)
            rwa [hlength] at hrun
          rw [VbeInfo.getBestModeLoop, hget]
          cases hoffer : offer bios mode with
          | none =>
              have hskip : offered bios mode = false := by rw [offered, hoffer]; rfl
              have hmatch : matching bios width height depth mode = false := by
                rw [matching, hoffer]; rfl
              simp only [visit_of_not_offered hskip, Checked.ok_bind]
              exact hnextRound s (htracks.skip hskip) hmatch
          | some info =>
              have hoffers := offer_eq_some.mp hoffer
              simp only [visit_of_offers hoffers]
              by_cases hmatch : info.Matches width height depth
              · -- everything seen so far does not match, so this is the first match
                have hfind : modes.find? (matching bios width height depth) = some mode := by
                  rw [hmodes, List.find?_append, List.find?_eq_none.mpr (by simpa using hseen),
                    List.find?_cons_of_pos (matching_iff.mpr ⟨info, hoffers, hmatch⟩)]
                  rfl
                rw [if_pos hmatch, select, hfind]
                rfl
              · have hother : matching bios width height depth mode = false := by
                  simp [matching, hoffer, hmatch]
                obtain ⟨s', hcompare, htracks'⟩ := htracks.compare hoffers
                rw [if_neg hmatch, hcompare]
                exact hnextRound s' htracks' hother

theorem getBestMode_eq {vbe : VbeInfo} {memory : ByteMemory} {modes : List UInt16}
    (hlist : ModeList vbe memory modes) (bios : VbeBios) (width height : UInt16) (depth : UInt8) :
    VbeInfo.getBestMode bios width height depth vbe memory =
      .ok (select bios width height depth modes) := by
  have hlength := hlist.addressable
  have hpointer := hlist.notNull
  -- a list in the address space ends before the counter does
  have hfuel : modes.length < 2 ^ 31 - 1 := by omega
  exact getBestModeLoop_eq hlist (List.nil_append modes).symm hfuel Tracks.start (by simp)

/-! ## The selected mode is the best one -/

theorem idxOf_le_of_filter {α : Type _} [DecidableEq α] {p : α → Bool} {a b : α} {xs : List α}
    (hb : p b = true) (h : (xs.filter p).idxOf a ≤ (xs.filter p).idxOf b) :
    xs.idxOf a ≤ xs.idxOf b := by
  induction xs with
  | nil => exact Nat.le_refl _
  | cons x xs ih =>
      by_cases hxa : x = a
      · rw [hxa, List.idxOf_cons_self]
        exact Nat.zero_le _
      · by_cases hxb : x = b
        · subst hxb
          rw [List.filter_cons_of_pos hb, List.idxOf_cons_self, List.idxOf_cons_ne _ hxa] at h
          omega
        · rw [List.idxOf_cons_ne _ hxa, List.idxOf_cons_ne _ hxb]
          by_cases hx : p x = true
          · rw [List.filter_cons_of_pos hx, List.idxOf_cons_ne _ hxa,
              List.idxOf_cons_ne _ hxb] at h
            exact Nat.succ_le_succ (ih (Nat.le_of_succ_le_succ h))
          · rw [List.filter_cons_of_neg hx] at h
            exact Nat.succ_le_succ (ih h)

section Optimality

variable {bios : VbeBios} {width height : UInt16} {depth : UInt8} {modes : List UInt16}
  {mode : UInt16}

theorem firstMatch_of_find (h : modes.find? (matching bios width height depth) = some mode) :
    mode ∈ modes ∧ ∃ info, Offers bios mode info ∧
      FirstMatch bios width height depth modes mode info := by
  obtain ⟨hmatch, before, after, hsplit, hbefore⟩ := List.find?_eq_some_iff_append.mp h
  obtain ⟨info, hoffers, hsame⟩ := matching_iff.mp hmatch
  refine ⟨List.mem_of_find?_eq_some h, info, hoffers, hsame, ?_⟩
  have hnot : ∀ other, matching bios width height depth other = true → other ∉ before := by
    intro other hother hmem
    have hfalse := hbefore other hmem
    rw [hother] at hfalse
    cases hfalse
  intro other _ info' hother hsame'
  rw [hsplit, List.idxOf_append_of_notMem (hnot mode hmatch),
    List.idxOf_append_of_notMem (hnot other (matching_iff.mpr ⟨info', hother, hsame'⟩)),
    List.idxOf_cons_self]
  exact Nat.add_le_add_left (Nat.zero_le _) _

theorem closest_of_argmin (h : (modes.filter (offered bios)).argmin
      (modeDistance bios width height depth) = some mode) :
    mode ∈ modes ∧ ∃ info, Offers bios mode info ∧
      Closest bios width height depth modes mode info := by
  obtain ⟨hmem, hleast, hfirst⟩ := List.argmin_eq_some_iff.mp h
  obtain ⟨hlisted, hoffered⟩ := List.mem_filter.mp hmem
  obtain ⟨info, hoffers⟩ := offered_iff.mp hoffered
  have hdist := modeDistance_eq width height depth hoffers
  refine ⟨hlisted, info, hoffers, ?_, ?_⟩
  · intro other hother info' hoffers'
    have hle := hleast other (List.mem_filter.mpr ⟨hother, offered_iff.mpr ⟨info', hoffers'⟩⟩)
    rwa [hdist, modeDistance_eq width height depth hoffers'] at hle
  · intro other hother info' hoffers' heq
    have hused : offered bios other = true := offered_iff.mpr ⟨info', hoffers'⟩
    apply idxOf_le_of_filter hused
    apply hfirst other (List.mem_filter.mpr ⟨hother, hused⟩)
    rw [hdist, modeDistance_eq width height depth hoffers', heq]

theorem exists_match_iff :
    (∃ other ∈ modes, ∃ info', Offers bios other info' ∧ info'.Matches width height depth) ↔
      modes.find? (matching bios width height depth) ≠ none := by
  rw [Ne, List.find?_eq_none]
  simp only [matching_iff, not_forall, not_not, exists_prop]

theorem select_best (bios : VbeBios) (width height : UInt16) (depth : UInt8)
    (modes : List UInt16) :
    BestMode bios width height depth modes (select bios width height depth modes) := by
  cases hfind : modes.find? (matching bios width height depth) with
  | some first =>
      have hselect : select bios width height depth modes = some first := by rw [select, hfind]
      obtain ⟨hlisted, info, hoffers, hfirst⟩ := firstMatch_of_find hfind
      constructor
      · rw [hselect]
        constructor
        · intro h
          cases h
        · intro h
          exact absurd ⟨first, hlisted, info, hoffers⟩ h
      · intro mode hmode
        obtain rfl : first = mode := Option.some.inj (hselect.symm.trans hmode)
        refine ⟨hlisted, info, hoffers, fun _ => hfirst, fun hnone => ?_⟩
        exact absurd ⟨first, hlisted, info, hoffers, hfirst.same⟩ hnone
  | none =>
      have hselect : select bios width height depth modes =
          (modes.filter (offered bios)).argmin (modeDistance bios width height depth) := by
        rw [select, hfind]
      constructor
      · rw [hselect, List.argmin_eq_none, List.filter_eq_nil_iff]
        simp only [offered_iff, not_exists, not_and]
      · intro mode hmode
        obtain ⟨hlisted, info, hoffers, hclosest⟩ := closest_of_argmin (hselect.symm.trans hmode)
        refine ⟨hlisted, info, hoffers, fun hsome => ?_, fun _ => hclosest⟩
        exact absurd hfind (exists_match_iff.mp hsome)

end Optimality

/-- For every closed list of modes and all replies of the BIOS, the search returns the
first match, or else the first of the closest modes, or nothing if no mode is offered. -/
theorem getBestMode_best {vbe : VbeInfo} {memory : ByteMemory} {modes : List UInt16}
    (hlist : ModeList vbe memory modes) (bios : VbeBios) (width height : UInt16) (depth : UInt8) :
    ∃ result, VbeInfo.getBestMode bios width height depth vbe memory = .ok result ∧
      BestMode bios width height depth modes result :=
  ⟨_, getBestMode_eq hlist bios width height depth, select_best bios width height depth modes⟩

/-- Two modes at address 0x8000: 1024x768 with 8 bits and 1280x1024 with 24 bits. -/
def twoModes : VbeInfo := ⟨⟨0x00008000⟩⟩

def twoModesMemory : ByteMemory :=
  ByteMemory.store (fun _ => 0) 0x8000 [0x05, 0x01, 0x1b, 0x01, 0xff, 0xff]

def twoModesBios : VbeBios := fun mode =>
  if mode = 0x105 then ⟨vesaSuccess, ⟨0x9b, 1024, 1024, 768, 8, 4, 0, 0, 0, 0xfd000000⟩⟩
  else if mode = 0x11b then ⟨vesaSuccess, ⟨0x9b, 3840, 1280, 1024, 24, 6, 16, 8, 0, 0xfd000000⟩⟩
  else ⟨0x014f, ⟨0, 0, 0, 0, 0, 0, 0, 0, 0, 0⟩⟩

theorem modeList_twoModes : ModeList twoModes twoModesMemory [0x105, 0x11b] :=
  ⟨by decide, by decide, by decide, by decide, by decide⟩

theorem getBestMode_best_twoModes :
    ModeList twoModes twoModesMemory [0x105, 0x11b] ∧
      ∃ result, VbeInfo.getBestMode twoModesBios 1280 1024 24 twoModes twoModesMemory =
          .ok result ∧ BestMode twoModesBios 1280 1024 24 [0x105, 0x11b] result :=
  ⟨modeList_twoModes, getBestMode_best modeList_twoModes twoModesBios 1280 1024 24⟩

end MiniatureOs
