import Mathlib.Algebra.Ring.Parity
import Mathlib.Data.Nat.Bitwise
import Mathlib.Order.Interval.Finset.Nat
import Mathlib.Tactic.Ring

/-! # Dyadic blocks and coalesced families

A dyadic block of class `c` is an aligned interval of `2 ^ c` naturals. Two
blocks are nested or disjoint, and a block and its buddy, whose start differs in
the bit of the class, make up the parent. A family of disjoint blocks that never
holds a block together with its buddy is determined by the naturals it covers:
this is the fact behind every statement about maximal merging.
-/

@[ext] structure DyadicBlock where
  cls : Nat
  start : Nat
  deriving Repr, DecidableEq

namespace DyadicBlock

def Aligned (b : DyadicBlock) : Prop := 2 ^ b.cls ∣ b.start

def Holds (b : DyadicBlock) (x : Nat) : Prop := b.start ≤ x ∧ x < b.start + 2 ^ b.cls

instance (b : DyadicBlock) (x : Nat) : Decidable (b.Holds x) := inferInstanceAs (Decidable (_ ∧ _))

/-- The block next to `b` inside its parent: the bit of the class toggled. -/
def buddy (b : DyadicBlock) : DyadicBlock := ⟨b.cls, b.start ^^^ 2 ^ b.cls⟩

/-- The block of the next class around `b`. -/
def parent (b : DyadicBlock) : DyadicBlock := ⟨b.cls + 1, min b.start (b.start ^^^ 2 ^ b.cls)⟩

theorem holds_start (b : DyadicBlock) : b.Holds b.start :=
  ⟨Nat.le_refl _, by have := Nat.two_pow_pos b.cls; omega⟩

/-! ## Nesting -/

theorem holds_iff_div {b : DyadicBlock} (h : b.Aligned) (x : Nat) :
    b.Holds x ↔ x / 2 ^ b.cls = b.start / 2 ^ b.cls := by
  obtain ⟨q, hq⟩ := h
  have hpos := Nat.two_pow_pos b.cls
  have hdiv : b.start / 2 ^ b.cls = q := by
    rw [hq, Nat.mul_div_cancel_left _ hpos]
  rw [hdiv, Nat.div_eq_iff hpos, Holds, hq]
  have hcomm : 2 ^ b.cls * q = q * 2 ^ b.cls := Nat.mul_comm _ _
  omega

def around (cls x : Nat) : DyadicBlock := ⟨cls, x / 2 ^ cls * 2 ^ cls⟩

theorem around_aligned (cls x : Nat) : (around cls x).Aligned := Nat.dvd_mul_left _ _

theorem around_holds {cls x y : Nat} : (around cls x).Holds y ↔ y / 2 ^ cls = x / 2 ^ cls := by
  rw [holds_iff_div (around_aligned cls x), around,
    Nat.mul_div_cancel _ (Nat.two_pow_pos cls)]

theorem holds_of_holds {b c : DyadicBlock} (hb : b.Aligned) (hc : c.Aligned) (hcls : b.cls ≤ c.cls)
    {x : Nat} (hxb : b.Holds x) (hxc : c.Holds x) {y : Nat} (hy : b.Holds y) : c.Holds y := by
  rw [holds_iff_div hb] at hxb hy
  rw [holds_iff_div hc] at hxc ⊢
  have hsplit : ∀ z : Nat, z / 2 ^ c.cls = z / 2 ^ b.cls / 2 ^ (c.cls - b.cls) := by
    intro z
    rw [Nat.div_div_eq_div_mul, ← Nat.pow_add, Nat.add_sub_cancel' hcls]
  rw [hsplit y, hy, ← hxb, ← hsplit x, hxc]

theorem eq_of_holds {b c : DyadicBlock} (hb : b.Aligned) (hc : c.Aligned) (hcls : b.cls = c.cls)
    {x : Nat} (hxb : b.Holds x) (hxc : c.Holds x) : b = c := by
  have hbc := holds_of_holds hb hc (Nat.le_of_eq hcls) hxb hxc (holds_start b)
  have hcb := holds_of_holds hc hb (Nat.le_of_eq hcls.symm) hxc hxb (holds_start c)
  ext
  · exact hcls
  · exact Nat.le_antisymm hcb.1 hbc.1

/-! ## Buddies and parents -/

theorem xor_two_pow_of_aligned (cls q : Nat) :
    (2 ^ cls * q) ^^^ 2 ^ cls = 2 ^ cls * (q ^^^ 1) := by
  have hpos := Nat.two_pow_pos cls
  have hdiv : ((2 ^ cls * q) ^^^ 2 ^ cls) / 2 ^ cls = q ^^^ 1 := by
    rw [Nat.xor_div_two_pow, Nat.mul_div_cancel_left _ hpos, Nat.div_self hpos]
  have hmod : ((2 ^ cls * q) ^^^ 2 ^ cls) % 2 ^ cls = 0 := by
    rw [Nat.xor_mod_two_pow, Nat.mul_mod_right, Nat.mod_self, Nat.xor_self]
  have hsplit := Nat.div_add_mod ((2 ^ cls * q) ^^^ 2 ^ cls) (2 ^ cls)
  rw [hdiv, hmod, Nat.add_zero] at hsplit
  exact hsplit.symm

/-- A block is the lower or the upper half of its parent. -/
theorem buddy_cases {b : DyadicBlock} (h : b.Aligned) :
    (2 ^ (b.cls + 1) ∣ b.start ∧ b.buddy = ⟨b.cls, b.start + 2 ^ b.cls⟩ ∧
      b.parent = ⟨b.cls + 1, b.start⟩) ∨
    ∃ low, b.start = low + 2 ^ b.cls ∧ 2 ^ (b.cls + 1) ∣ low ∧
      b.buddy = ⟨b.cls, low⟩ ∧ b.parent = ⟨b.cls + 1, low⟩ := by
  obtain ⟨q, hq⟩ := h
  rcases Nat.even_or_odd q with heven | hodd
  · left
    have hxor : b.start ^^^ 2 ^ b.cls = b.start + 2 ^ b.cls := by
      rw [hq, xor_two_pow_of_aligned, Nat.xor_one_of_even heven, Nat.mul_add, Nat.mul_one]
    refine ⟨?_, by rw [buddy, hxor], by rw [parent, hxor, Nat.min_eq_left (Nat.le_add_right _ _)]⟩
    obtain ⟨k, rfl⟩ := heven
    exact ⟨k, by rw [hq, Nat.pow_succ]; ring⟩
  · right
    obtain ⟨k, rfl⟩ := hodd
    have hstart : b.start = 2 ^ b.cls * (2 * k) + 2 ^ b.cls := by rw [hq]; ring
    have hxor : b.start ^^^ 2 ^ b.cls = 2 ^ b.cls * (2 * k) := by
      rw [hq, xor_two_pow_of_aligned, Nat.xor_one_of_odd ⟨k, rfl⟩, Nat.add_sub_cancel]
    have hle : 2 ^ b.cls * (2 * k) ≤ b.start := hstart ▸ Nat.le_add_right _ _
    refine ⟨2 ^ b.cls * (2 * k), hstart, ⟨k, by rw [Nat.pow_succ]; ring⟩,
      by rw [buddy, hxor], ?_⟩
    rw [parent, hxor, Nat.min_eq_right hle]

theorem aligned_of_succ {cls start : Nat} (h : 2 ^ (cls + 1) ∣ start) : 2 ^ cls ∣ start :=
  Nat.dvd_trans ⟨2, Nat.pow_succ _ _⟩ h

theorem buddy_aligned {b : DyadicBlock} (h : b.Aligned) : b.buddy.Aligned := by
  rcases buddy_cases h with ⟨_, hbuddy, _⟩ | ⟨low, _, hlow, hbuddy, _⟩
  · rw [hbuddy]
    exact Nat.dvd_add h (Nat.dvd_refl _)
  · rw [hbuddy]
    exact aligned_of_succ hlow

theorem parent_aligned {b : DyadicBlock} (h : b.Aligned) : b.parent.Aligned := by
  rcases buddy_cases h with ⟨hstart, _, hparent⟩ | ⟨low, _, hlow, _, hparent⟩
  · rw [hparent]
    exact hstart
  · rw [hparent]
    exact hlow

@[simp] theorem buddy_cls (b : DyadicBlock) : b.buddy.cls = b.cls := rfl

@[simp] theorem parent_cls (b : DyadicBlock) : b.parent.cls = b.cls + 1 := rfl

@[simp] theorem buddy_buddy (b : DyadicBlock) : b.buddy.buddy = b := by
  ext
  · rfl
  · simp [buddy]

theorem buddy_ne (b : DyadicBlock) : b.buddy ≠ b := by
  intro h
  have hstart : b.start ^^^ 2 ^ b.cls = b.start := congrArg start h
  have hzero : 2 ^ b.cls = 0 := by
    have hxor := congrArg (b.start ^^^ ·) hstart
    simpa only [← Nat.xor_assoc, Nat.xor_self, Nat.zero_xor] using hxor
  have := Nat.two_pow_pos b.cls
  omega

theorem parent_holds {b : DyadicBlock} (h : b.Aligned) (x : Nat) :
    b.parent.Holds x ↔ b.Holds x ∨ b.buddy.Holds x := by
  have hpow : 2 ^ (b.cls + 1) = 2 * 2 ^ b.cls := by rw [Nat.pow_succ, Nat.mul_comm]
  rcases buddy_cases h with ⟨_, hbuddy, hparent⟩ | ⟨low, hstart, _, hbuddy, hparent⟩
  · rw [hbuddy, hparent]
    simp only [Holds, hpow]
    omega
  · rw [hbuddy, hparent]
    simp only [Holds, hpow]
    omega

theorem not_holds_buddy {b : DyadicBlock} (h : b.Aligned) {x : Nat} (hx : b.Holds x) :
    ¬ b.buddy.Holds x := by
  intro hbuddy
  exact buddy_ne b (eq_of_holds h (buddy_aligned h) rfl hx hbuddy).symm

/-! ## Halves -/

theorem half_buddy {cls start : Nat} (h : 2 ^ (cls + 1) ∣ start) :
    (mk cls start).buddy = ⟨cls, start + 2 ^ cls⟩ ∧
      (mk cls start).parent = ⟨cls + 1, start⟩ := by
  have halign : (mk cls start).Aligned := aligned_of_succ h
  rcases buddy_cases halign with ⟨_, hbuddy, hparent⟩ | ⟨low, hstart, hlow, _, _⟩
  · exact ⟨hbuddy, hparent⟩
  · -- an upper half is not aligned to the class of the parent
    simp only at hstart hlow
    rw [hstart] at h
    have hdvd := (Nat.dvd_add_right hlow).mp h
    have hle := Nat.le_of_dvd (Nat.two_pow_pos cls) hdvd
    have hlt : 2 ^ cls < 2 ^ (cls + 1) := Nat.pow_lt_pow_right (by decide) (by omega)
    omega

/-! ## Packed lists of blocks -/

def Separate (b c : DyadicBlock) : Prop := ∀ x, b.Holds x → ¬ c.Holds x

theorem Separate.symm {b c : DyadicBlock} (h : Separate b c) : Separate c b :=
  fun x hc hb => h x hb hc

instance : Std.Symm Separate := ⟨fun _ _ => Separate.symm⟩

theorem Separate.le_or_le {b c : DyadicBlock} (h : Separate b c) :
    b.start + 2 ^ b.cls ≤ c.start ∨ c.start + 2 ^ c.cls ≤ b.start := by
  have hb := Nat.two_pow_pos b.cls
  have hc := Nat.two_pow_pos c.cls
  have hmax := h (max b.start c.start)
  simp only [Holds] at hmax
  omega

/-- Aligned blocks no two of which share a natural. -/
structure Packed (l : List DyadicBlock) : Prop where
  aligned : ∀ b ∈ l, b.Aligned
  separate : l.Pairwise Separate

def Covers (l : List DyadicBlock) (x : Nat) : Prop := ∃ b ∈ l, b.Holds x

def totalSize (l : List DyadicBlock) : Nat := (l.map fun b => 2 ^ b.cls).sum

/-- Below the top class no block lies in the list together with its buddy. -/
def Coalesced (top : Nat) (l : List DyadicBlock) : Prop := ∀ b ∈ l, b.cls < top → b.buddy ∉ l

theorem packed_cons {b : DyadicBlock} {l : List DyadicBlock} :
    Packed (b :: l) ↔ b.Aligned ∧ (∀ c ∈ l, Separate b c) ∧ Packed l := by
  constructor
  · intro h
    obtain ⟨hhead, htail⟩ := List.pairwise_cons.mp h.separate
    exact ⟨h.aligned b List.mem_cons_self, hhead,
      fun c hc => h.aligned c (List.mem_cons_of_mem b hc), htail⟩
  · rintro ⟨hb, hhead, htail⟩
    refine ⟨fun c hc => ?_, List.pairwise_cons.mpr ⟨hhead, htail.separate⟩⟩
    rcases List.mem_cons.mp hc with rfl | hc
    · exact hb
    · exact htail.aligned c hc

theorem Packed.perm {l k : List DyadicBlock} (h : Packed l) (hperm : l.Perm k) : Packed k :=
  ⟨fun b hb => h.aligned b (hperm.mem_iff.mpr hb),
    (hperm.pairwise_iff fun hbc => Separate.symm hbc).mp h.separate⟩

theorem Packed.sublist {l k : List DyadicBlock} (h : Packed l) (hsub : k.Sublist l) : Packed k :=
  ⟨fun b hb => h.aligned b (hsub.subset hb), h.separate.sublist hsub⟩

theorem Packed.eq_of_holds {l : List DyadicBlock} (h : Packed l) {b c : DyadicBlock}
    (hb : b ∈ l) (hc : c ∈ l) {x : Nat} (hbx : b.Holds x) (hcx : c.Holds x) : b = c := by
  by_contra hne
  exact h.separate.forall hb hc hne x hbx hcx

theorem Packed.nodup {l : List DyadicBlock} (h : Packed l) : l.Nodup := by
  refine List.Pairwise.imp ?_ h.separate
  rintro b c hsep rfl
  exact hsep b.start (holds_start b) (holds_start b)

theorem covers_cons {b : DyadicBlock} {l : List DyadicBlock} {x : Nat} :
    Covers (b :: l) x ↔ b.Holds x ∨ Covers l x := by
  simp only [Covers, List.mem_cons, or_and_right, exists_or, exists_eq_left]

theorem covers_append {l k : List DyadicBlock} {x : Nat} :
    Covers (l ++ k) x ↔ Covers l x ∨ Covers k x := by
  simp only [Covers, List.mem_append, or_and_right, exists_or]

theorem covers_perm {l k : List DyadicBlock} (hperm : l.Perm k) {x : Nat} :
    Covers l x ↔ Covers k x := by
  simp only [Covers, hperm.mem_iff]

theorem Coalesced.subset {top : Nat} {l k : List DyadicBlock} (h : Coalesced top l)
    (hsub : ∀ b ∈ k, b ∈ l) : Coalesced top k :=
  fun b hb hcls hbuddy => h b (hsub b hb) hcls (hsub _ hbuddy)

/-- Adding a block whose buddy is elsewhere keeps a list coalesced. -/
theorem Coalesced.cons {top : Nat} {b : DyadicBlock} {l : List DyadicBlock}
    (h : Coalesced top l) (hbuddy : b.buddy ∉ l) : Coalesced top (b :: l) := by
  intro c hc hcls hmem
  rcases List.mem_cons.mp hc with rfl | hc
  · exact (List.mem_cons.mp hmem).elim (buddy_ne c) hbuddy
  · rcases List.mem_cons.mp hmem with heq | hmem
    · exact hbuddy (by rw [← heq, buddy_buddy]; exact hc)
    · exact h c hc hcls hmem

/-- Blocks that could not have been cut larger inside `hi` are coalesced. -/
theorem coalesced_of_greedy {top hi : Nat} {l : List DyadicBlock}
    (haligned : ∀ b ∈ l, b.Aligned) (hinside : ∀ b ∈ l, b.start + 2 ^ b.cls ≤ hi)
    (hgreedy : ∀ b ∈ l, top ≤ b.cls ∨ ¬ 2 ^ (b.cls + 1) ∣ b.start ∨
      hi < b.start + 2 ^ (b.cls + 1)) : Coalesced top l := by
  intro b hb hcls hbuddy
  have hpow : 2 ^ (b.cls + 1) = 2 * 2 ^ b.cls := by rw [Nat.pow_succ, Nat.mul_comm]
  have hbin := hinside b hb
  have hbuddyin := hinside _ hbuddy
  rcases buddy_cases (haligned b hb) with ⟨hdvd, heq, _⟩ | ⟨low, hstart, hdvd, heq, _⟩
  · rw [heq] at hbuddyin
    rcases hgreedy b hb with htop | hnot | hlarge
    · omega
    · exact hnot hdvd
    · simp only at hbuddyin
      omega
  · have hlow := hgreedy _ hbuddy
    rw [heq] at hlow
    rcases hlow with htop | hnot | hlarge
    · simp only at htop
      omega
    · exact hnot hdvd
    · simp only at hlarge
      omega

/-! ## Splitting and merging -/

theorem separate_parent {b c : DyadicBlock} (hb : b.Aligned) :
    Separate b.parent c ↔ Separate b c ∧ Separate b.buddy c := by
  constructor
  · intro h
    exact ⟨fun x hx => h x ((parent_holds hb x).mpr (.inl hx)),
      fun x hx => h x ((parent_holds hb x).mpr (.inr hx))⟩
  · rintro ⟨hlow, hhigh⟩ x hx
    exact ((parent_holds hb x).mp hx).elim (hlow x) (hhigh x)

/-- A block and its buddy can be replaced by their parent, and back. -/
theorem packed_parent {b : DyadicBlock} {l : List DyadicBlock} (hb : b.Aligned) :
    Packed (b.parent :: l) ↔ Packed (b :: b.buddy :: l) := by
  simp only [packed_cons, List.forall_mem_cons, separate_parent hb, forall_and,
    parent_aligned hb, buddy_aligned hb, hb, true_and]
  constructor
  · rintro ⟨⟨hlow, hhigh⟩, hl⟩
    exact ⟨⟨fun x hx => not_holds_buddy hb hx, hlow⟩, hhigh, hl⟩
  · rintro ⟨⟨_, hlow⟩, hhigh, hl⟩
    exact ⟨⟨hlow, hhigh⟩, hl⟩

theorem covers_parent {b : DyadicBlock} {l : List DyadicBlock} (hb : b.Aligned) {x : Nat} :
    Covers (b.parent :: l) x ↔ Covers (b :: b.buddy :: l) x := by
  rw [covers_cons, covers_cons, covers_cons, parent_holds hb, or_assoc]

theorem packed_halves {cls start : Nat} {l : List DyadicBlock} (h : 2 ^ (cls + 1) ∣ start) :
    Packed (⟨cls + 1, start⟩ :: l) ↔ Packed (⟨cls, start + 2 ^ cls⟩ :: ⟨cls, start⟩ :: l) := by
  obtain ⟨hbuddy, hparent⟩ := half_buddy h
  rw [← hparent, packed_parent (aligned_of_succ h), hbuddy]
  exact ⟨fun hp => hp.perm (List.Perm.swap _ _ _), fun hp => hp.perm (List.Perm.swap _ _ _)⟩

theorem covers_halves {cls start : Nat} {l : List DyadicBlock} (h : 2 ^ (cls + 1) ∣ start)
    {x : Nat} : Covers (⟨cls + 1, start⟩ :: l) x ↔
      Covers (⟨cls, start + 2 ^ cls⟩ :: ⟨cls, start⟩ :: l) x := by
  obtain ⟨hbuddy, hparent⟩ := half_buddy h
  rw [← hparent, covers_parent (aligned_of_succ h), hbuddy]
  exact covers_perm (List.Perm.swap _ _ _)

/-- Halving a block again and again: the upper half goes on, the lower halves
join the list. -/
inductive Splits : DyadicBlock → List DyadicBlock → DyadicBlock → List DyadicBlock → Prop
  | refl (b : DyadicBlock) {l k : List DyadicBlock} (hperm : l.Perm k) : Splits b l b k
  | half {cls start : Nat} {l k : List DyadicBlock} {c : DyadicBlock}
      (h : Splits ⟨cls, start + 2 ^ cls⟩ (⟨cls, start⟩ :: l) c k) :
      Splits ⟨cls + 1, start⟩ l c k

/-- Merging a block with its buddy again and again, each buddy leaving the
list. -/
inductive Merges : DyadicBlock → List DyadicBlock → DyadicBlock → List DyadicBlock → Prop
  | refl (b : DyadicBlock) {l k : List DyadicBlock} (hperm : l.Perm k) : Merges b l b k
  | join {b c : DyadicBlock} {l rest k : List DyadicBlock} (hperm : l.Perm (b.buddy :: rest))
      (h : Merges b.parent rest c k) : Merges b l c k

theorem Splits.packed {b c : DyadicBlock} {l k : List DyadicBlock} (h : Splits b l c k)
    (m : List DyadicBlock) (hp : Packed (b :: (l ++ m))) : Packed (c :: (k ++ m)) := by
  induction h with
  | refl b hperm => exact hp.perm ((hperm.append_right m).cons b)
  | half _ ih => exact ih ((packed_halves (hp.aligned _ List.mem_cons_self)).mp hp)

theorem Splits.covers {b c : DyadicBlock} {l k : List DyadicBlock} (h : Splits b l c k)
    (hp : Packed (b :: l)) (x : Nat) : Covers (c :: k) x ↔ Covers (b :: l) x := by
  induction h with
  | refl b hperm => exact covers_perm (hperm.symm.cons b)
  | half _ ih =>
      have hb := hp.aligned _ List.mem_cons_self
      rw [ih ((packed_halves hb).mp hp), covers_halves hb]

theorem Splits.coalesced {top : Nat} {b c : DyadicBlock} {l k : List DyadicBlock}
    (h : Splits b l c k) (hp : Packed (b :: l)) (hc : Coalesced top l) : Coalesced top k := by
  induction h with
  | refl b hperm => exact hc.subset fun d hd => hperm.mem_iff.mpr hd
  | @half cls start l k c _ ih =>
      have hb : 2 ^ (cls + 1) ∣ start := hp.aligned _ List.mem_cons_self
      have hsplit := (packed_halves hb).mp hp
      refine ih hsplit (hc.cons fun hmem => ?_)
      -- the upper half is still taken, so it cannot lie in the list
      rw [(half_buddy hb).1] at hmem
      have hsep := (packed_cons.mp hsplit).2.1 _ (List.mem_cons_of_mem _ hmem)
      exact hsep _ (holds_start _) (holds_start _)

theorem Splits.perm {b c : DyadicBlock} {l l' k k' : List DyadicBlock} (h : Splits b l c k)
    (hl : l.Perm l') (hk : k.Perm k') : Splits b l' c k' := by
  induction h generalizing l' with
  | refl b hperm => exact .refl b (hl.symm.trans (hperm.trans hk))
  | half _ ih => exact .half (ih (hl.cons _) hk)

theorem Merges.packed {b c : DyadicBlock} {l k : List DyadicBlock} (h : Merges b l c k)
    (m : List DyadicBlock) (hp : Packed (b :: (l ++ m))) : Packed (c :: (k ++ m)) := by
  induction h with
  | refl b hperm => exact hp.perm ((hperm.append_right m).cons b)
  | @join b c l rest k hperm _ ih =>
      refine ih ((packed_parent (hp.aligned b List.mem_cons_self)).mpr ?_)
      exact hp.perm ((hperm.append_right m).cons b)

theorem Merges.covers {b c : DyadicBlock} {l k : List DyadicBlock} (h : Merges b l c k)
    (hb : b.Aligned) (x : Nat) : Covers (c :: k) x ↔ Covers (b :: l) x := by
  induction h with
  | refl b hperm => exact covers_perm (hperm.symm.cons b)
  | @join b c l rest k hperm _ ih =>
      rw [ih (parent_aligned hb), covers_parent hb]
      exact covers_perm (hperm.symm.cons b)

theorem Merges.mem {b c d : DyadicBlock} {l k : List DyadicBlock} (h : Merges b l c k)
    (hd : d ∈ k) : d ∈ l := by
  induction h with
  | refl b hperm => exact hperm.mem_iff.mpr hd
  | join hperm _ ih => exact hperm.mem_iff.mpr (List.mem_cons_of_mem _ (ih hd))

theorem Merges.holds {b c : DyadicBlock} {l k : List DyadicBlock} (h : Merges b l c k)
    (hb : b.Aligned) {x : Nat} (hx : b.Holds x) : c.Holds x := by
  induction h with
  | refl => exact hx
  | join _ _ ih => exact ih (parent_aligned hb) ((parent_holds hb x).mpr (.inl hx))

/-! ## Counting -/

@[simp] theorem totalSize_append (l k : List DyadicBlock) :
    totalSize (l ++ k) = totalSize l + totalSize k := by
  simp [totalSize]

theorem totalSize_flatMap {α : Type _} (is : List α) (f : α → List DyadicBlock) :
    totalSize (is.flatMap f) = (is.map fun i => totalSize (f i)).sum := by
  induction is with
  | nil => rfl
  | cons i is ih => simp [ih]

theorem Packed.exists_finset {l : List DyadicBlock} (h : Packed l) :
    ∃ s : Finset Nat, (∀ x, x ∈ s ↔ Covers l x) ∧ s.card = totalSize l := by
  induction l with
  | nil => exact ⟨∅, by simp [Covers], rfl⟩
  | cons b l ih =>
      obtain ⟨_, hsep, htail⟩ := packed_cons.mp h
      obtain ⟨s, hs, hcard⟩ := ih htail
      have hdisjoint : Disjoint (Finset.Ico b.start (b.start + 2 ^ b.cls)) s := by
        rw [Finset.disjoint_left]
        intro x hx hxs
        obtain ⟨c, hc, hcx⟩ := (hs x).mp hxs
        exact hsep c hc x (Finset.mem_Ico.mp hx) hcx
      refine ⟨Finset.Ico b.start (b.start + 2 ^ b.cls) ∪ s, fun x => ?_, ?_⟩
      · rw [Finset.mem_union, Finset.mem_Ico, hs, covers_cons, Holds]
      · rw [Finset.card_union_of_disjoint hdisjoint, Nat.card_Ico, hcard, Nat.add_sub_cancel_left]
        rfl

/-- Packed blocks inside an interval fill it exactly when their sizes add up to
its length. -/
theorem Packed.totalSize_eq_iff {l : List DyadicBlock} (h : Packed l) {lo hi : Nat}
    (hinside : ∀ x, Covers l x → lo ≤ x ∧ x < hi) :
    totalSize l = hi - lo ↔ ∀ x, lo ≤ x → x < hi → Covers l x := by
  obtain ⟨s, hs, hcard⟩ := h.exists_finset
  have hsub : s ⊆ Finset.Ico lo hi := fun x hx =>
    Finset.mem_Ico.mpr (hinside x ((hs x).mp hx))
  rw [← hcard, ← Nat.card_Ico]
  constructor
  · intro heq x hlo hhi
    have hset := Finset.eq_of_subset_of_card_le hsub (Nat.le_of_eq heq.symm)
    rw [← hs, hset]
    exact Finset.mem_Ico.mpr ⟨hlo, hhi⟩
  · intro hall
    have hset : s = Finset.Ico lo hi := by
      refine Finset.Subset.antisymm hsub fun x hx => ?_
      obtain ⟨hlo, hhi⟩ := Finset.mem_Ico.mp hx
      exact (hs x).mpr (hall x hlo hhi)
    rw [hset]

/-! ## Coalesced lists are determined by what they cover -/

/-- A block that a coalesced list covers lies inside one of its blocks. -/
theorem exists_superblock {top : Nat} {l : List DyadicBlock} (hpacked : Packed l)
    (hcoalesced : Coalesced top l) {b : DyadicBlock} (hb : b.Aligned) (htop : b.cls ≤ top)
    (hcover : ∀ x, b.Holds x → Covers l x) :
    ∃ c ∈ l, b.cls ≤ c.cls ∧ ∀ x, b.Holds x → c.Holds x := by
  obtain ⟨cls, start⟩ := b
  induction cls generalizing start with
  | zero =>
      obtain ⟨c, hc, hstart⟩ := hcover start (holds_start ⟨0, start⟩)
      refine ⟨c, hc, Nat.zero_le _, fun x hx => ?_⟩
      exact holds_of_holds hb (hpacked.aligned c hc) (Nat.zero_le _) (holds_start _) hstart hx
  | succ cls ih =>
      obtain ⟨hbuddy, hparent⟩ := @half_buddy cls start hb
      have hlow : (mk cls start).Aligned := aligned_of_succ hb
      have hhigh : (mk cls (start + 2 ^ cls)).Aligned := hbuddy ▸ buddy_aligned hlow
      have hsplit := parent_holds hlow
      rw [hparent, hbuddy] at hsplit
      obtain ⟨c, hc, hccls, hcsub⟩ := ih start hlow (Nat.le_of_succ_le htop)
        fun x hx => hcover x ((hsplit x).mpr (.inl hx))
      obtain ⟨d, hd, hdcls, hdsub⟩ := ih (start + 2 ^ cls) hhigh (Nat.le_of_succ_le htop)
        fun x hx => hcover x ((hsplit x).mpr (.inr hx))
      have hlowStart := holds_start ⟨cls, start⟩
      have hhighStart := holds_start ⟨cls, start + 2 ^ cls⟩
      -- either one of the two covering blocks is large enough, or they are buddies
      rcases Nat.lt_or_ge cls c.cls with hlarge | hsmall
      · refine ⟨c, hc, hlarge, fun x hx => ?_⟩
        exact holds_of_holds hb (hpacked.aligned c hc) hlarge
          ((hsplit start).mpr (.inl hlowStart)) (hcsub _ hlowStart) hx
      rcases Nat.lt_or_ge cls d.cls with hlarge | hsmall'
      · refine ⟨d, hd, hlarge, fun x hx => ?_⟩
        exact holds_of_holds hb (hpacked.aligned d hd) hlarge
          ((hsplit _).mpr (.inr hhighStart)) (hdsub _ hhighStart) hx
      · have hceq : mk cls start = c :=
          DyadicBlock.eq_of_holds hlow (hpacked.aligned c hc) (Nat.le_antisymm hccls hsmall)
            hlowStart (hcsub _ hlowStart)
        have hdeq : mk cls (start + 2 ^ cls) = d :=
          DyadicBlock.eq_of_holds hhigh (hpacked.aligned d hd) (Nat.le_antisymm hdcls hsmall')
            hhighStart (hdsub _ hhighStart)
        have hnot := hcoalesced c hc (by rw [← hceq]; exact htop)
        rw [← hceq, hbuddy, hdeq] at hnot
        exact absurd hd hnot

theorem mem_of_covers_iff {top : Nat} {l k : List DyadicBlock} (hl : Packed l) (hk : Packed k)
    (hlc : Coalesced top l) (hkc : Coalesced top k)
    (hltop : ∀ b ∈ l, b.cls ≤ top) (hktop : ∀ b ∈ k, b.cls ≤ top)
    (hcover : ∀ x, Covers l x ↔ Covers k x) {b : DyadicBlock} (hb : b ∈ l) : b ∈ k := by
  obtain ⟨c, hc, hbc, hbsub⟩ := exists_superblock hk hkc (hl.aligned b hb) (hltop b hb)
    fun x hx => (hcover x).mp ⟨b, hb, hx⟩
  obtain ⟨d, hd, hcd, hcsub⟩ := exists_superblock hl hlc (hk.aligned c hc) (hktop c hc)
    fun x hx => (hcover x).mpr ⟨c, hc, hx⟩
  have hstart := holds_start b
  have hbd : b = d := hl.eq_of_holds hb hd hstart (hcsub _ (hbsub _ hstart))
  have hcls : b.cls = c.cls := Nat.le_antisymm hbc (hbd ▸ hcd)
  have hbceq : b = c :=
    DyadicBlock.eq_of_holds (hl.aligned b hb) (hk.aligned c hc) hcls hstart (hbsub _ hstart)
  rw [hbceq]
  exact hc

/-- Coalesced lists below one top class that cover the same naturals hold the
same blocks. -/
theorem mem_iff_of_covers_iff {top : Nat} {l k : List DyadicBlock} (hl : Packed l)
    (hk : Packed k) (hlc : Coalesced top l) (hkc : Coalesced top k)
    (hltop : ∀ b ∈ l, b.cls ≤ top) (hktop : ∀ b ∈ k, b.cls ≤ top)
    (hcover : ∀ x, Covers l x ↔ Covers k x) (b : DyadicBlock) : b ∈ l ↔ b ∈ k :=
  ⟨mem_of_covers_iff hl hk hlc hkc hltop hktop hcover,
    mem_of_covers_iff hk hl hkc hlc hktop hltop fun x => (hcover x).symm⟩

end DyadicBlock
