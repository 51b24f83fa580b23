import Mathlib.Algebra.Ring.Parity
import Mathlib.Data.List.Basic
import Mathlib.Tactic.Common

/-! # UTF-16

Decoding a sequence of 16-bit units as `char::decode_utf16` of the Rust core
library does, one result for each character or unpaired surrogate, and encoding.
Decoding without the errors keeps a sequence exactly when its surrogates are
paired.
-/

namespace Utf16

def IsLow (u : Nat) : Prop := 0xDC00 ≤ u ∧ u < 0xE000

instance (u : Nat) : Decidable (IsLow u) := inferInstanceAs (Decidable (_ ∧ _))

def pairChar (high low : Nat) : Char :=
  Char.ofNat (0x10000 + (high - 0xD800) * 0x400 + (low - 0xDC00))

def decode : List Nat → List (Option Char)
  | [] => []
  | u :: rest =>
      if u < 0xD800 ∨ 0xE000 ≤ u then some (Char.ofNat u) :: decode rest
      else if 0xDC00 ≤ u then none :: decode rest
      else match rest with
        | [] => [none]
        | next :: rest' =>
            if IsLow next then some (pairChar u next) :: decode rest'
            -- the second unit is looked at again
            else none :: decode (next :: rest')

def decodeLossy (units : List Nat) : List Char := (decode units).filterMap id

def encodeChar (c : Char) : List Nat :=
  if c.toNat < 0x10000 then [c.toNat]
  else [0xD800 + (c.toNat - 0x10000) / 0x400, 0xDC00 + (c.toNat - 0x10000) % 0x400]

def encode (cs : List Char) : List Nat := cs.flatMap encodeChar

/-! ## Characters -/

theorem toNat_lt (c : Char) :
    c.toNat < 0xD800 ∨ 0xDFFF < c.toNat ∧ c.toNat < 0x110000 := c.valid

theorem toNat_ofNat {n : Nat} (h : n < 0xD800 ∨ 0xDFFF < n ∧ n < 0x110000) :
    (Char.ofNat n).toNat = n := by
  have hvalid : n.isValidChar := h
  rw [Char.ofNat, dif_pos hvalid]
  rfl

theorem encodeChar_cases (c : Char) :
    (encodeChar c = [c.toNat] ∧ (c.toNat < 0xD800 ∨ 0xE000 ≤ c.toNat)) ∨
      ∃ high low, encodeChar c = [high, low] ∧ 0xD800 ≤ high ∧ high < 0xDC00 ∧ IsLow low ∧
        pairChar high low = c := by
  have hc := toNat_lt c
  by_cases hsmall : c.toNat < 0x10000
  · refine .inl ⟨if_pos hsmall, ?_⟩
    omega
  · refine .inr ⟨_, _, if_neg hsmall, by omega, by omega, ⟨by omega, by omega⟩, ?_⟩
    have hnumber : 0x10000 + (0xD800 + (c.toNat - 0x10000) / 0x400 - 0xD800) * 0x400 +
        (0xDC00 + (c.toNat - 0x10000) % 0x400 - 0xDC00) = c.toNat := by omega
    rw [pairChar, hnumber, Char.ofNat_toNat]

theorem encodeChar_pairChar {high low : Nat} (hhigh : 0xD800 ≤ high ∧ high < 0xDC00)
    (hlow : IsLow low) : encodeChar (pairChar high low) = [high, low] := by
  obtain ⟨hlow₁, hlow₂⟩ := hlow
  have hnat : (pairChar high low).toNat =
      0x10000 + (high - 0xD800) * 0x400 + (low - 0xDC00) := toNat_ofNat (by omega)
  have hfirst : 0xD800 + (0x10000 + (high - 0xD800) * 0x400 + (low - 0xDC00) - 0x10000) / 0x400 =
      high := by omega
  have hsecond : 0xDC00 + (0x10000 + (high - 0xD800) * 0x400 + (low - 0xDC00) - 0x10000) % 0x400 =
      low := by omega
  rw [encodeChar, hnat, if_neg (by omega), hfirst, hsecond]

theorem encodeChar_ofNat {u : Nat} (hu : u < 0xD800 ∨ 0xE000 ≤ u) (hlt : u < 0x10000) :
    encodeChar (Char.ofNat u) = [u] := by
  have hnat : (Char.ofNat u).toNat = u := toNat_ofNat (by omega)
  rw [encodeChar, hnat, if_pos hlt]

theorem encode_cons (c : Char) (cs : List Char) : encode (c :: cs) = encodeChar c ++ encode cs :=
  List.flatMap_cons

theorem encode_append (cs ds : List Char) : encode (cs ++ ds) = encode cs ++ encode ds :=
  List.flatMap_append

theorem lt_of_mem_encode {cs : List Char} {u : Nat} (h : u ∈ encode cs) : u < 0x10000 := by
  obtain ⟨c, _, hu⟩ := List.mem_flatMap.mp h
  have hc := toNat_lt c
  unfold encodeChar at hu
  split at hu
  · rw [List.mem_singleton] at hu
    omega
  · simp only [List.mem_cons, List.not_mem_nil, or_false] at hu
    omega

theorem zero_mem_encode {cs : List Char} : 0 ∈ encode cs ↔ '\x00' ∈ cs := by
  constructor
  · intro h
    obtain ⟨c, hc, hzero⟩ := List.mem_flatMap.mp h
    unfold encodeChar at hzero
    split at hzero
    · have hnat : c.toNat = 0 := (List.mem_singleton.mp hzero).symm
      have hnul : c = '\x00' := by rw [← Char.ofNat_toNat c, hnat]
      exact hnul ▸ hc
    · simp only [List.mem_cons, List.not_mem_nil, or_false] at hzero
      omega
  · intro h
    exact List.mem_flatMap.mpr ⟨'\x00', h, List.mem_singleton.mpr rfl⟩

/-! ## Decoding step by step -/

theorem decodeLossy_nil : decodeLossy [] = [] := rfl

theorem decodeLossy_char {u : Nat} (hu : u < 0xD800 ∨ 0xE000 ≤ u) (rest : List Nat) :
    decodeLossy (u :: rest) = Char.ofNat u :: decodeLossy rest := by
  rw [decodeLossy, decode.eq_def]
  simp only [if_pos hu]
  rfl

theorem decodeLossy_low {u : Nat} (hu : IsLow u) (rest : List Nat) :
    decodeLossy (u :: rest) = decodeLossy rest := by
  obtain ⟨hlow, hlt⟩ := hu
  have hnot : ¬ (u < 0xD800 ∨ 0xE000 ≤ u) := by omega
  rw [decodeLossy, decode.eq_def]
  simp only [if_neg hnot, if_pos hlow]
  rfl

theorem decodeLossy_pair {high low : Nat} (hhigh : 0xD800 ≤ high ∧ high < 0xDC00)
    (hlow : IsLow low) (rest : List Nat) :
    decodeLossy (high :: low :: rest) = pairChar high low :: decodeLossy rest := by
  have hnot : ¬ (high < 0xD800 ∨ 0xE000 ≤ high) := by omega
  have hnot' : ¬ 0xDC00 ≤ high := by omega
  rw [decodeLossy, decode.eq_def]
  simp only [if_neg hnot, if_neg hnot', if_pos hlow]
  rfl

/-- An unpaired first unit is dropped. -/
theorem decodeLossy_high {high : Nat} (hhigh : 0xD800 ≤ high ∧ high < 0xDC00) {rest : List Nat}
    (hrest : ∀ u, rest.head? = some u → ¬ IsLow u) :
    decodeLossy (high :: rest) = decodeLossy rest := by
  have hnot : ¬ (high < 0xD800 ∨ 0xE000 ≤ high) := by omega
  have hnot' : ¬ 0xDC00 ≤ high := by omega
  rw [decodeLossy, decode.eq_def]
  simp only [if_neg hnot, if_neg hnot']
  cases rest with
  | nil => rfl
  | cons next rest =>
      simp only [if_neg (hrest next rfl)]
      rfl

theorem decodeLossy_encodeChar (c : Char) (rest : List Nat) :
    decodeLossy (encodeChar c ++ rest) = c :: decodeLossy rest := by
  cases encodeChar_cases c with
  | inl h => rw [h.1, List.singleton_append, decodeLossy_char h.2, Char.ofNat_toNat]
  | inr h =>
      obtain ⟨high, low, hencode, hhigh, hlt, hlow, hpair⟩ := h
      rw [hencode, List.cons_append, List.singleton_append, decodeLossy_pair ⟨hhigh, hlt⟩ hlow,
        hpair]

/-- Encoded characters are decoded, whatever follows them. -/
theorem decodeLossy_encode_append (cs : List Char) (rest : List Nat) :
    decodeLossy (encode cs ++ rest) = cs ++ decodeLossy rest := by
  induction cs with
  | nil => rfl
  | cons c cs ih =>
      rw [encode_cons, List.append_assoc, decodeLossy_encodeChar, ih]
      rfl

theorem decodeLossy_encode (cs : List Char) : decodeLossy (encode cs) = cs := by
  have happend := decodeLossy_encode_append cs []
  rwa [List.append_nil, decodeLossy_nil, List.append_nil] at happend

/-! ## What decoding keeps -/

/-- The cases of decoding a sequence. -/
theorem decodeLossy_induction {motive : List Nat → Prop} (nil : motive [])
    (char : ∀ u rest, u < 0xD800 ∨ 0xE000 ≤ u → motive rest → motive (u :: rest))
    (low : ∀ u rest, IsLow u → motive rest → motive (u :: rest))
    (pair : ∀ high next rest, 0xD800 ≤ high ∧ high < 0xDC00 → IsLow next → motive rest →
      motive (high :: next :: rest))
    (high : ∀ u rest, 0xD800 ≤ u ∧ u < 0xDC00 → (∀ v, rest.head? = some v → ¬ IsLow v) →
      motive rest → motive (u :: rest)) (units : List Nat) : motive units := by
  induction hlength : units.length using Nat.strongRecOn generalizing units with
  | ind length ih =>
      cases units with
      | nil => exact nil
      | cons u rest =>
          have hrest : motive rest := ih rest.length (by rw [← hlength]; simp) rest rfl
          by_cases hchar : u < 0xD800 ∨ 0xE000 ≤ u
          · exact char u rest hchar hrest
          · by_cases hlow : 0xDC00 ≤ u
            · exact low u rest ⟨hlow, by omega⟩ hrest
            · cases rest with
              | nil => exact high u [] (by omega) (by simp) hrest
              | cons next rest =>
                  by_cases hnext : IsLow next
                  · have hshorter : rest.length < length := by
                      rw [← hlength, List.length_cons, List.length_cons]
                      omega
                    exact pair u next rest (by omega) hnext (ih rest.length hshorter rest rfl)
                  · refine high u (next :: rest) (by omega) (fun v hv => ?_) hrest
                    obtain rfl := Option.some.inj hv
                    exact hnext

/-- The characters that are kept are encoded by some of the units. -/
theorem encode_decodeLossy_sublist {units : List Nat} (hunits : ∀ u ∈ units, u < 0x10000) :
    (encode (decodeLossy units)).Sublist units := by
  induction units using decodeLossy_induction with
  | nil => exact List.Sublist.refl _
  | char u rest hu ih =>
      rw [decodeLossy_char hu, encode_cons, encodeChar_ofNat hu (hunits u List.mem_cons_self)]
      exact (ih fun v hv => hunits v (List.mem_cons_of_mem _ hv)).cons_cons u
  | low u rest hu ih =>
      rw [decodeLossy_low hu]
      exact (ih fun v hv => hunits v (List.mem_cons_of_mem _ hv)).cons u
  | pair high next rest hhigh hnext ih =>
      rw [decodeLossy_pair hhigh hnext, encode_cons, encodeChar_pairChar hhigh hnext]
      have hrest := ih fun v hv =>
        hunits v (List.mem_cons_of_mem _ (List.mem_cons_of_mem _ hv))
      exact (hrest.cons_cons next).cons_cons high
  | high u rest hu hrest ih =>
      rw [decodeLossy_high hu hrest]
      exact (ih fun v hv => hunits v (List.mem_cons_of_mem _ hv)).cons u

theorem length_decodeLossy_le {units : List Nat} : (decodeLossy units).length ≤ units.length := by
  induction units using decodeLossy_induction with
  | nil => exact Nat.le_refl 0
  | char u rest hu ih => rw [decodeLossy_char hu]; simpa using ih
  | low u rest hu ih => rw [decodeLossy_low hu, List.length_cons]; omega
  | pair high next rest hhigh hnext ih =>
      rw [decodeLossy_pair hhigh hnext]
      simp only [List.length_cons]
      omega
  | high u rest hu hrest ih => rw [decodeLossy_high hu hrest, List.length_cons]; omega

def WellFormed (units : List Nat) : Prop := encode (decodeLossy units) = units

theorem wellFormed_encode (cs : List Char) : WellFormed (encode cs) := by
  rw [WellFormed, decodeLossy_encode]

/-- Decoding drops nothing when it keeps the number of units. -/
theorem wellFormed_of_length {units : List Nat} (hunits : ∀ u ∈ units, u < 0x10000)
    (hlength : units.length ≤ (encode (decodeLossy units)).length) : WellFormed units :=
  (encode_decodeLossy_sublist hunits).eq_of_length_le hlength

/-- An encoded sequence does not start with a second unit. -/
theorem WellFormed.head_not_low {units : List Nat} (h : WellFormed units) {u : Nat}
    (hu : units.head? = some u) : ¬ IsLow u := by
  intro hlow
  rw [WellFormed] at h
  cases hdecode : decodeLossy units with
  | nil =>
      rw [hdecode] at h
      rw [← h] at hu
      simp [encode] at hu
  | cons c cs =>
      rw [hdecode, encode_cons] at h
      rw [← h] at hu
      cases encodeChar_cases c with
      | inl hc =>
          rw [hc.1, List.singleton_append, List.head?_cons] at hu
          obtain rfl := Option.some.inj hu
          obtain ⟨h₁, h₂⟩ := hlow
          omega
      | inr hc =>
          obtain ⟨high, low, hencode, hhigh, hlt, _, _⟩ := hc
          rw [hencode, List.cons_append, List.head?_cons] at hu
          obtain rfl := Option.some.inj hu
          exact absurd hlow.1 (by omega)

/-- A sequence may be cut before any unit but a second one. -/
theorem wellFormed_append {xs ys : List Nat} (hunits : ∀ u ∈ xs ++ ys, u < 0x10000)
    (h : WellFormed (xs ++ ys)) (hhead : ∀ u, ys.head? = some u → ¬ IsLow u) :
    WellFormed xs ∧ WellFormed ys := by
  induction xs using decodeLossy_induction with
  | nil => exact ⟨rfl, h⟩
  | char u rest hu ih =>
      have hlt := hunits u List.mem_cons_self
      rw [WellFormed, List.cons_append, decodeLossy_char hu, encode_cons,
        encodeChar_ofNat hu hlt, List.singleton_append] at h
      obtain ⟨hrest, hys⟩ := ih (fun v hv => hunits v (List.mem_cons_of_mem _ hv))
        (List.cons.inj h).2
      refine ⟨?_, hys⟩
      rw [WellFormed, decodeLossy_char hu, encode_cons, encodeChar_ofNat hu hlt, hrest]
      rfl
  | low u rest hu ih => exact absurd hu (h.head_not_low rfl)
  | pair high next rest hhigh hnext ih =>
      rw [WellFormed, List.cons_append, List.cons_append, decodeLossy_pair hhigh hnext,
        encode_cons, encodeChar_pairChar hhigh hnext] at h
      obtain ⟨hrest, hys⟩ := ih
        (fun v hv => hunits v (List.mem_cons_of_mem _ (List.mem_cons_of_mem _ hv)))
        (List.cons.inj (List.cons.inj h).2).2
      refine ⟨?_, hys⟩
      rw [WellFormed, decodeLossy_pair hhigh hnext, encode_cons,
        encodeChar_pairChar hhigh hnext, hrest]
      rfl
  | high u rest hu hrest ih =>
      -- the unpaired first unit is dropped from the whole sequence as well
      have hnext : ∀ v, (rest ++ ys).head? = some v → ¬ IsLow v := by
        intro v hv
        cases rest with
        | nil => exact hhead v hv
        | cons first rest => exact hrest v hv
      have hle : (encode (decodeLossy (rest ++ ys))).length ≤ (rest ++ ys).length :=
        (encode_decodeLossy_sublist
          fun v hv => hunits v (List.mem_cons_of_mem _ hv)).length_le
      rw [WellFormed, List.cons_append, decodeLossy_high hu hnext] at h
      have hlength := congrArg List.length h
      rw [List.length_cons] at hlength
      omega

/-- Pieces that do not start with a second unit are encoded one by one. -/
theorem wellFormed_of_mem_flatten {pieces : List (List Nat)}
    (hunits : ∀ u ∈ pieces.flatten, u < 0x10000) (h : WellFormed pieces.flatten)
    (hhead : ∀ piece ∈ pieces, ∀ u, piece.head? = some u → ¬ IsLow u)
    (hpos : ∀ piece ∈ pieces, 0 < piece.length) : ∀ piece ∈ pieces, WellFormed piece := by
  induction pieces with
  | nil => simp
  | cons piece rest ih =>
      have hrest : ∀ u, rest.flatten.head? = some u → ¬ IsLow u := by
        intro u hu
        cases rest with
        | nil => simp at hu
        | cons second rest =>
            have hmem : second ∈ piece :: second :: rest :=
              List.mem_cons_of_mem _ List.mem_cons_self
            cases second with
            | nil => exact absurd (hpos [] hmem) (by simp)
            | cons v second => exact hhead (v :: second) hmem u hu
      rw [List.flatten_cons] at hunits h
      obtain ⟨hpiece, hflatten⟩ := wellFormed_append hunits h hrest
      intro p hp
      cases List.mem_cons.mp hp with
      | inl heq => rw [heq]; exact hpiece
      | inr hmem =>
          exact ih (fun v hv => hunits v (List.mem_append_right _ hv)) hflatten
            (fun q hq => hhead q (List.mem_cons_of_mem _ hq))
            (fun q hq => hpos q (List.mem_cons_of_mem _ hq)) p hmem

/-! ## Pieces decoded one by one -/

/-- Pieces from which decoding drops nothing in total. -/
theorem wellFormed_of_length_flatMap {pieces : List (List Nat)}
    (hunits : ∀ piece ∈ pieces, ∀ u ∈ piece, u < 0x10000)
    (hlength : pieces.flatten.length ≤ (encode (pieces.flatMap decodeLossy)).length) :
    ∀ piece ∈ pieces, WellFormed piece := by
  induction pieces with
  | nil => simp
  | cons piece rest ih =>
      have hrest := fun p hp => hunits p (List.mem_cons_of_mem piece hp)
      have hkept : (encode (rest.flatMap decodeLossy)).length ≤ rest.flatten.length := by
        clear ih hlength hunits
        induction rest with
        | nil => exact Nat.le_refl 0
        | cons first rest ih =>
            have hfirst :=
              (encode_decodeLossy_sublist (hrest first List.mem_cons_self)).length_le
            have hothers := ih fun p hp => hrest p (List.mem_cons_of_mem _ hp)
            rw [List.flatMap_cons, encode_append, List.flatten_cons, List.length_append,
              List.length_append]
            omega
      have hpiece := (encode_decodeLossy_sublist (hunits piece List.mem_cons_self)).length_le
      rw [List.flatMap_cons, encode_append, List.flatten_cons, List.length_append,
        List.length_append] at hlength
      intro p hp
      cases List.mem_cons.mp hp with
      | inl heq =>
          rw [heq]
          exact wellFormed_of_length (hunits piece List.mem_cons_self) (by omega)
      | inr hmem => exact ih hrest (by omega) p hmem

theorem encode_flatMap_decodeLossy {pieces : List (List Nat)}
    (h : ∀ piece ∈ pieces, WellFormed piece) :
    encode (pieces.flatMap decodeLossy) = pieces.flatten := by
  induction pieces with
  | nil => rfl
  | cons piece rest ih =>
      rw [List.flatMap_cons, encode_append, h piece List.mem_cons_self, List.flatten_cons,
        ih fun p hp => h p (List.mem_cons_of_mem _ hp)]

/-- The pieces of a text, stored in another order and decoded one by one, give the
text exactly when the stored units are those of the text and no surrogate pair was
cut. -/
theorem flatMap_decodeLossy_eq_iff {cs : List Char} {pieces stored : List (List Nat)}
    (hpieces : pieces.flatten = encode cs) (hpos : ∀ piece ∈ pieces, 0 < piece.length)
    (hstored : stored.Perm pieces) :
    stored.flatMap decodeLossy = cs ↔ stored.flatten = encode cs ∧
      ∀ piece ∈ pieces, ∀ u, piece.head? = some u → ¬ IsLow u := by
  have hflatten : ∀ u ∈ pieces.flatten, u < 0x10000 := by
    rw [hpieces]
    exact fun u => lt_of_mem_encode
  constructor
  · intro hcs
    have hlength : stored.flatten.length ≤ (encode (stored.flatMap decodeLossy)).length := by
      rw [hcs, ← hpieces]
      exact Nat.le_of_eq hstored.flatten.length_eq
    have hunits : ∀ piece ∈ stored, ∀ u ∈ piece, u < 0x10000 := fun piece hp u hu =>
      hflatten u (List.mem_flatten_of_mem (hstored.mem_iff.mp hp) hu)
    have hwell := wellFormed_of_length_flatMap hunits hlength
    refine ⟨?_, fun piece hp u hu => (hwell piece (hstored.mem_iff.mpr hp)).head_not_low hu⟩
    rw [← encode_flatMap_decodeLossy hwell, hcs]
  · rintro ⟨hspell, hheads⟩
    have hwell := wellFormed_of_mem_flatten hflatten
      (by rw [hpieces]; exact wellFormed_encode cs) hheads hpos
    have hencode := encode_flatMap_decodeLossy fun piece hp => hwell piece (hstored.mem_iff.mp hp)
    rw [← decodeLossy_encode (stored.flatMap decodeLossy), hencode, hspell, decodeLossy_encode]

end Utf16
