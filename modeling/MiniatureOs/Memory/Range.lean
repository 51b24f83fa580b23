import MiniatureOs.Memory.Address

/-! # Inclusive ranges of frames and pages

The iterators `PhysicalFrameRangeInclusive` and `PageRangeInclusive` of
`x86_64/src/memory.rs`. Both advance before they yield an item, so a range that
ends with the last page of the address space stops with an overflow in front of
that page. A loop over a range is reasoned about with an invariant that counts
the rounds.
-/

namespace MiniatureOs

variable {σ : Type} {S : PageSize}

def rangeLoop (S : PageSize) (body : Nat → σ → Checked σ) (last : Nat) :
    Nat → Nat → σ → Checked σ
  | 0, _, state => .ok state
  | fuel + 1, current, state =>
      if current ≤ last then do
        let next ← Checked.add 64 current S.size
        let state ← body current state
        rangeLoop S body last fuel next state
      else .ok state

/-- `for frame in PhysicalFrame::range_inclusive(first, last)`. -/
def PhysicalFrame.forRange (first last : PhysicalFrame S)
    (body : PhysicalFrame S → σ → Checked σ) (state : σ) : Checked σ :=
  rangeLoop S (fun address => body (.containingAddress S address)) last.address
    ((last.address - first.address) / S.size + 1) first.address state

/-- `for page in Page::range_inclusive(first, last)`. -/
def Page.forRange (first last : Page S) (body : Page S → σ → Checked σ) (state : σ) :
    Checked σ :=
  rangeLoop S (fun address => body (.containingAddress S address)) last.address
    ((last.address - first.address) / S.size + 1) first.address state

theorem Page.containingAddress_self (page : Page S) :
    Page.containingAddress S page.address = page := by
  ext
  exact alignDown_of_mod page.aligned

theorem rangeLoop_one (body : Nat → σ → Checked σ) (last : Nat) (state : σ) :
    rangeLoop S body last 1 last state = (do
      let _ ← Checked.add 64 last S.size
      body last state) := by
  rw [rangeLoop, if_pos (Nat.le_refl _)]
  cases Checked.add 64 last S.size with
  | error panic => rfl
  | ok next =>
      rw [Checked.ok_bind, Checked.ok_bind]
      cases body last state <;> rfl

theorem Page.forRange_self (page : Page S) (body : Page S → σ → Checked σ) (state : σ) :
    page.forRange page body state = (do
      let _ ← Checked.add 64 page.address S.size
      body page state) := by
  rw [Page.forRange, Nat.sub_self, Nat.zero_div, rangeLoop_one, Page.containingAddress_self]

theorem Page.forRange_next {first last : Page S} (hnext : last.address = first.address + S.size)
    (body : Page S → σ → Checked σ) (state : σ) :
    first.forRange last body state = (do
      let _ ← Checked.add 64 first.address S.size
      let state ← body first state
      let _ ← Checked.add 64 last.address S.size
      body last state) := by
  have hfuel : (last.address - first.address) / S.size + 1 = 2 := by
    rw [hnext, Nat.add_sub_cancel_left, Nat.div_self S.size_pos]
  rw [Page.forRange, hfuel, rangeLoop, if_pos (by omega), Page.containingAddress_self]
  cases hadd : Checked.add 64 first.address S.size with
  | error panic => rfl
  | ok next =>
      obtain ⟨_, rfl⟩ := Checked.add_eq_ok.mp hadd
      simp only [Checked.ok_bind, ← hnext, rangeLoop_one, Page.containingAddress_self]

theorem Page.forRange_self_eq_ok {page : Page S} {body : Page S → σ → Checked σ}
    {state result : σ} :
    page.forRange page body state = .ok result ↔
      page.address + S.size < 2 ^ 64 ∧ body page state = .ok result := by
  rw [Page.forRange_self, Checked.bind_eq_ok]
  constructor
  · intro h
    obtain ⟨_, hadd, hbody⟩ := h
    exact ⟨(Checked.add_eq_ok.mp hadd).1, hbody⟩
  · intro h
    exact ⟨_, Checked.add_of_lt h.1, h.2⟩

/-- The end of the last page is computed, and with it that of the first. -/
theorem Page.forRange_next_eq_ok {first last : Page S} {body : Page S → σ → Checked σ}
    {state result : σ} (hnext : last.address = first.address + S.size) :
    first.forRange last body state = .ok result ↔
      last.address + S.size < 2 ^ 64 ∧
        ∃ middle, body first state = .ok middle ∧ body last middle = .ok result := by
  rw [Page.forRange_next hnext, Checked.bind_eq_ok]
  constructor
  · intro h
    obtain ⟨_, _, h⟩ := h
    obtain ⟨middle, hfirst, h⟩ := Checked.bind_eq_ok.mp h
    obtain ⟨_, hadd, hlast⟩ := Checked.bind_eq_ok.mp h
    exact ⟨(Checked.add_eq_ok.mp hadd).1, middle, hfirst, hlast⟩
  · intro h
    obtain ⟨hfits, middle, hfirst, hlast⟩ := h
    refine ⟨_, Checked.add_of_lt (by omega), ?_⟩
    rw [hfirst, Checked.ok_bind, Checked.add_of_lt hfits]
    exact hlast

section Rules

variable {I : Nat → σ → Prop} {body : Nat → σ → Checked σ} {first last count : Nat} {s s' : σ}

/-- A range of `count` items that begins at `first` ends before the address that
many pages behind it. -/
def RangeOf (S : PageSize) (first last count : Nat) : Prop :=
  last + S.size = first + count * S.size

theorem RangeOf.fuel (h : RangeOf S first last count) : count ≤ (last - first) / S.size + 1 := by
  have hpos := S.size_pos
  unfold RangeOf at h
  cases count with
  | zero => exact Nat.zero_le _
  | succ n =>
      rw [Nat.succ_mul] at h
      have hdiff : last - first = n * S.size := by omega
      have hrounds : (last - first) / S.size = n := by rw [hdiff, Nat.mul_div_cancel _ hpos]
      exact Nat.le_of_eq (congrArg Nat.succ hrounds.symm)

theorem RangeOf.not_le (h : RangeOf S first last count) : ¬ first + count * S.size ≤ last := by
  have hpos := S.size_pos
  unfold RangeOf at h
  omega

theorem RangeOf.le (h : RangeOf S first last count) {k : Nat} (hk : k < count) :
    first + k * S.size ≤ last := by
  have hmul : (k + 1) * S.size ≤ count * S.size := Nat.mul_le_mul_right _ hk
  rw [Nat.succ_mul] at hmul
  unfold RangeOf at h
  omega

/-- The loop from round `k` on: what the rounds keep holds at the end. -/
theorem rangeLoop_ok_from (h : RangeOf S first last count)
    (hstep : ∀ k s s', k < count → I k s → body (first + k * S.size) s = .ok s' → I (k + 1) s')
    {k n : Nat} (hk : k ≤ count) (hfuel : count ≤ k + n) (hI : I k s)
    (hrun : rangeLoop S body last n (first + k * S.size) s = .ok s') :
    I count s' ∧ (k < count → first + count * S.size < 2 ^ 64) := by
  induction n generalizing k s with
  | zero =>
      obtain rfl : k = count := by omega
      obtain rfl := Except.ok.inj hrun
      exact ⟨hI, by omega⟩
  | succ n ih =>
      rw [rangeLoop] at hrun
      by_cases hlt : k < count
      · rw [if_pos (h.le hlt)] at hrun
        obtain ⟨next, hnext, hrun⟩ := Checked.bind_eq_ok.mp hrun
        obtain ⟨s₁, hbody, hrun⟩ := Checked.bind_eq_ok.mp hrun
        obtain ⟨hfits, rfl⟩ := Checked.add_eq_ok.mp hnext
        have hshift : first + k * S.size + S.size = first + (k + 1) * S.size := by
          rw [Nat.succ_mul, Nat.add_assoc]
        rw [hshift] at hrun hfits
        obtain ⟨hend, hmore⟩ := ih hlt (by omega) (hstep k s s₁ hlt hI hbody) hrun
        refine ⟨hend, fun _ => ?_⟩
        by_cases hlast : k + 1 < count
        · exact hmore hlast
        · obtain rfl : k + 1 = count := by omega
          exact hfits
      · obtain rfl : k = count := by omega
        rw [if_neg h.not_le] at hrun
        obtain rfl := Except.ok.inj hrun
        exact ⟨hI, by omega⟩

theorem rangeLoop_total_from (h : RangeOf S first last count)
    (hstep : ∀ k s, k < count → I k s → ∃ s', body (first + k * S.size) s = .ok s' ∧ I (k + 1) s')
    (hfits : first + count * S.size < 2 ^ 64) {k n : Nat} (hk : k ≤ count) (hI : I k s) :
    ∃ s', rangeLoop S body last n (first + k * S.size) s = .ok s' := by
  induction n generalizing k s with
  | zero => exact ⟨s, rfl⟩
  | succ n ih =>
      rw [rangeLoop]
      by_cases hlt : k < count
      · have hmul : (k + 1) * S.size ≤ count * S.size := Nat.mul_le_mul_right _ hlt
        have hshift : first + k * S.size + S.size = first + (k + 1) * S.size := by
          rw [Nat.succ_mul, Nat.add_assoc]
        obtain ⟨s₁, hbody, hI₁⟩ := hstep k s hlt hI
        obtain ⟨s', hrest⟩ := ih hlt hI₁
        refine ⟨s', ?_⟩
        rw [if_pos (h.le hlt), Checked.add_of_lt (by omega), Checked.ok_bind, hbody,
          Checked.ok_bind, hshift]
        exact hrest
      · obtain rfl : k = count := by omega
        rw [if_neg h.not_le]
        exact ⟨s, rfl⟩

/-- What every round keeps holds at the end, and the range did not reach the end
of the address space. -/
theorem rangeLoop_ok (h : RangeOf S first last count)
    (hstep : ∀ k s s', k < count → I k s → body (first + k * S.size) s = .ok s' → I (k + 1) s')
    (hI : I 0 s) (hrun : rangeLoop S body last ((last - first) / S.size + 1) first s = .ok s') :
    I count s' ∧ (0 < count → first + count * S.size < 2 ^ 64) := by
  have hfuel := h.fuel
  refine rangeLoop_ok_from h hstep (Nat.zero_le _) (Nat.le_trans hfuel (Nat.le_add_left _ 0)) hI ?_
  rwa [Nat.zero_mul, Nat.add_zero]

/-- The loop returns when every round does and the range does not reach the end
of the address space. -/
theorem rangeLoop_total (h : RangeOf S first last count)
    (hstep : ∀ k s, k < count → I k s → ∃ s', body (first + k * S.size) s = .ok s' ∧ I (k + 1) s')
    (hfits : first + count * S.size < 2 ^ 64) (hI : I 0 s) :
    ∃ s', rangeLoop S body last ((last - first) / S.size + 1) first s = .ok s' ∧ I count s' := by
  have hrun := rangeLoop_total_from (n := (last - first) / S.size + 1) h hstep hfits
    (Nat.zero_le _) hI
  rw [Nat.zero_mul, Nat.add_zero] at hrun
  obtain ⟨s', hrun⟩ := hrun
  refine ⟨s', hrun, (rangeLoop_ok h (fun k s s' hk hIk hbody => ?_) hI hrun).1⟩
  obtain ⟨s'', hbody', hI'⟩ := hstep k s hk hIk
  rw [hbody] at hbody'
  rwa [Except.ok.inj hbody']

/-- A relation that every round keeps holds between the ends of the loop. -/
theorem rangeLoop_rel {R : σ → σ → Prop} (hrefl : ∀ s, R s s)
    (htrans : ∀ s₁ s₂ s₃, R s₁ s₂ → R s₂ s₃ → R s₁ s₃)
    (hbody : ∀ x s s', body x s = .ok s' → R s s') {fuel current : Nat}
    (hrun : rangeLoop S body last fuel current s = .ok s') : R s s' := by
  induction fuel generalizing current s with
  | zero =>
      obtain rfl := Except.ok.inj hrun
      exact hrefl s
  | succ fuel ih =>
      rw [rangeLoop] at hrun
      by_cases hle : current ≤ last
      · rw [if_pos hle] at hrun
        obtain ⟨next, _, hrun⟩ := Checked.bind_eq_ok.mp hrun
        obtain ⟨s₁, hround, hrun⟩ := Checked.bind_eq_ok.mp hrun
        exact htrans s s₁ s' (hbody current s s₁ hround) (ih hrun)
      · rw [if_neg hle] at hrun
        obtain rfl := Except.ok.inj hrun
        exact hrefl s

end Rules

end MiniatureOs
