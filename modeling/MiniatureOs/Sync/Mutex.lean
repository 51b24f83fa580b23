import Mathlib.Logic.Function.Basic
import Mathlib.Logic.Relation

/-! # The spin lock

`x86_64/src/mutex.rs`: `lock` repeats a `compare_exchange` on the status until it finds the
lock free, and the guard stores `false` when it is dropped. Between the two the code of a
call reaches the value through the guard, one access after another, and other threads run
in between. The orderings `Acquire` and `Release` are taken as sequential consistency.
-/

namespace MiniatureOs

structure Mutex (T : Type) where
  inner : T
  lockStatus : Bool

namespace Mutex

variable {T : Type}

/-- `Mutex::new`. -/
def new (val : T) : Mutex T := ⟨val, false⟩

/-- `lock_status.compare_exchange(current, value)`, and whether it succeeded. -/
def compareExchange (mutex : Mutex T) (current value : Bool) : Bool × Mutex T :=
  if mutex.lockStatus = current then (true, { mutex with lockStatus := value })
  else (false, mutex)

/-- `MutexGuard::drop`. -/
def drop (mutex : Mutex T) : Mutex T := { mutex with lockStatus := false }

end Mutex

/-! ## Code that holds a guard -/

inductive Access (L R : Type) where
  | next (point : L)
  | done (result : R)

/-- The code of calls that work on the value of a mutex: the point at which a call begins,
and what an access at a point can do to the value. -/
structure GuardedCode (C L R T : Type) where
  enter : C → L
  access : L → T → Access L R → T → Prop

namespace GuardedCode

variable {ι C L R T : Type} (code : GuardedCode C L R T)

inductive Progress (call : C) (t : T) : L → T → Prop
  | start : Progress call t (code.enter call) t
  | next {l l' : L} {u u' : T} (before : Progress call t l u)
      (step : code.access l u (.next l') u') : Progress call t l' u'

def Runs (call : C) (t : T) (result : R) (t' : T) : Prop :=
  ∃ l u, code.Progress call t l u ∧ code.access l u (.done result) t'

inductive Serial (t₀ : T) : List (ι × C × R) → T → Prop
  | nil : Serial t₀ [] t₀
  | concat {history : List (ι × C × R)} {t t' : T} {thread : ι} {call : C} {result : R}
      (before : Serial t₀ history t) (run : code.Runs call t result t') :
      Serial t₀ (history ++ [(thread, call, result)]) t'

variable {code} {t₀ t t' : T} {history : List (ι × C × R)} {thread : ι} {call : C} {result : R}

theorem serial_nil : code.Serial (ι := ι) t₀ [] t ↔ t = t₀ := by
  constructor
  · intro h
    generalize hhistory : ([] : List (ι × C × R)) = history at h
    cases h with
    | nil => rfl
    | concat _ _ => simp at hhistory
  · rintro rfl
    exact .nil

theorem serial_concat : code.Serial t₀ (history ++ [(thread, call, result)]) t' ↔
    ∃ t, code.Serial t₀ history t ∧ code.Runs call t result t' := by
  constructor
  · intro h
    generalize hhistory : history ++ [(thread, call, result)] = longer at h
    cases h with
    | nil => simp at hhistory
    | concat before run =>
        obtain ⟨rfl, hlast⟩ := List.append_inj' hhistory rfl
        obtain ⟨rfl, rfl, rfl⟩ : _ ∧ _ ∧ _ := by simpa using hlast
        exact ⟨_, before, run⟩
  · rintro ⟨t, before, run⟩
    exact .concat before run

/-- A meaning of the points that accesses keep is the meaning of the whole call. -/
theorem Runs.meaning {X : Type} {rest : L → T → X} {final : R → T → X}
    (hnext : ∀ l t l' t', code.access l t (.next l') t' → rest l t = rest l' t')
    (hdone : ∀ l t r t', code.access l t (.done r) t' → rest l t = final r t')
    (h : code.Runs call t result t') :
    rest (code.enter call) t = final result t' := by
  obtain ⟨l, u, hprogress, hlast⟩ := h
  have hrest : rest (code.enter call) t = rest l u := by
    clear hlast
    induction hprogress with
    | start => rfl
    | next _ hstep ih => rw [ih, hnext _ _ _ _ hstep]
  rw [hrest, hdone _ _ _ _ hlast]

end GuardedCode

/-! ## Threads -/

/-- Where a thread is: outside of any call, in the loop of `lock`, between two accesses, or
behind the last one, where the guard is dropped. -/
inductive Phase (C L R : Type) where
  | idle
  | locking (call : C)
  | guarded (call : C) (point : L)
  | leaving (call : C) (result : R)

def Phase.HasGuard {C L R : Type} : Phase C L R → Prop
  | .idle | .locking _ => False
  | .guarded _ _ | .leaving _ _ => True

def Phase.call {C L R : Type} : Phase C L R → Option C
  | .idle => none
  | .locking call | .guarded call _ | .leaving call _ => some call

structure Threads (ι C L R T : Type) where
  mutex : Mutex T
  phase : ι → Phase C L R
  history : List (ι × C × R)

namespace Threads

variable {ι C L R T : Type}

def initial (val : T) : Threads ι C L R T := ⟨.new val, fun _ => .idle, []⟩

variable [DecidableEq ι]

def setPhase (s : Threads ι C L R T) (i : ι) (phase : Phase C L R) : Threads ι C L R T :=
  { s with phase := Function.update s.phase i phase }

/-- A round of the loop in `lock`. -/
def lockRound (code : GuardedCode C L R T) (s : Threads ι C L R T) (i : ι) (call : C) :
    Threads ι C L R T :=
  match s.mutex.compareExchange false true with
  | (true, mutex) => { s with mutex }.setPhase i (.guarded call (code.enter call))
  | (false, _) => s

inductive Step (code : GuardedCode C L R T) (contract : Threads ι C L R T → C → Prop)
    (s : Threads ι C L R T) : Threads ι C L R T → Prop
  | call {i : ι} {call : C} (phase : s.phase i = .idle) (allowed : contract s call) :
      Step code contract s (s.setPhase i (.locking call))
  | lock {i : ι} {call : C} (phase : s.phase i = .locking call) :
      Step code contract s (s.lockRound code i call)
  | access {i : ι} {call : C} {l l' : L} {t : T} (phase : s.phase i = .guarded call l)
      (access : code.access l s.mutex.inner (.next l') t) :
      Step code contract s
        ({ s with mutex.inner := t }.setPhase i (.guarded call l'))
  | finish {i : ι} {call : C} {l : L} {result : R} {t : T} (phase : s.phase i = .guarded call l)
      (access : code.access l s.mutex.inner (.done result) t) :
      Step code contract s ({ s with mutex.inner := t }.setPhase i (.leaving call result))
  | drop {i : ι} {call : C} {result : R} (phase : s.phase i = .leaving call result) :
      Step code contract s
        ({ s with
            mutex := s.mutex.drop
            history := s.history ++ [(i, call, result)] }.setPhase i .idle)

def Reachable (code : GuardedCode C L R T) (contract : Threads ι C L R T → C → Prop) (val : T) :
    Threads ι C L R T → Prop :=
  Relation.ReflTransGen (Step code contract) (initial val)

/-! ## Mutual exclusion -/

section Step

variable {code : GuardedCode C L R T} {contract : Threads ι C L R T → C → Prop}
  {s s' : Threads ι C L R T} {i j : ι} {phase : Phase C L R} {val : T}

theorem setPhase_self : (s.setPhase i phase).phase i = phase := Function.update_self ..

theorem setPhase_of_ne (h : j ≠ i) : (s.setPhase i phase).phase j = s.phase j :=
  Function.update_of_ne h ..

/-- A round that finds the lock free takes it, and any other changes nothing. -/
theorem lockRound_cases (code : GuardedCode C L R T) (s : Threads ι C L R T) (i : ι) (call : C) :
    (s.mutex.lockStatus = false ∧ s.lockRound code i call =
        { s with mutex.lockStatus := true }.setPhase i (.guarded call (code.enter call))) ∨
      (s.mutex.lockStatus = true ∧ s.lockRound code i call = s) := by
  cases h : s.mutex.lockStatus with
  | false => exact .inl ⟨rfl, by simp [lockRound, Mutex.compareExchange, h]⟩
  | true => exact .inr ⟨rfl, by simp [lockRound, Mutex.compareExchange, h]⟩

inductive StepCases (contract : Threads ι C L R T → C → Prop) (s s' : Threads ι C L R T) : Prop
  | begins (i : ι) (call : C) (allowed : contract s call) (history : s'.history = s.history)
      (calls : ∀ j, (s'.phase j).call = if j = i then some call else (s.phase j).call)
  | goes (history : s'.history = s.history) (calls : ∀ j, (s'.phase j).call = (s.phase j).call)
  | ends (i : ι) (call : C) (result : R) (phase : s.phase i = .leaving call result)
      (history : s'.history = s.history ++ [(i, call, result)])
      (calls : ∀ j, (s'.phase j).call = if j = i then none else (s.phase j).call)

theorem call_setPhase (j : ι) :
    ((s.setPhase i phase).phase j).call = if j = i then phase.call else (s.phase j).call := by
  by_cases hji : j = i
  · rw [hji, setPhase_self, if_pos rfl]
  · rw [setPhase_of_ne hji, if_neg hji]

theorem call_setPhase_same (hcall : phase.call = (s.phase i).call) (j : ι) :
    ((s.setPhase i phase).phase j).call = (s.phase j).call := by
  rw [call_setPhase]
  split
  next hji => rw [hji, hcall]
  next => rfl

theorem Step.cases (hstep : Step code contract s s') : StepCases contract s s' := by
  cases hstep with
  | @call i call _ hallowed => exact .begins i call hallowed rfl call_setPhase
  | @lock i call hphase =>
      cases lockRound_cases code s i call with
      | inr hspin =>
          rw [hspin.2]
          exact .goes rfl fun _ => rfl
      | inl htaken =>
          rw [htaken.2]
          exact .goes rfl (call_setPhase_same (by rw [hphase]; rfl))
  | @access i call l l' t hphase _ =>
      exact .goes rfl (call_setPhase_same (by rw [hphase]; rfl))
  | @finish i call l result t hphase _ =>
      exact .goes rfl (call_setPhase_same (by rw [hphase]; rfl))
  | @drop i call result hphase => exact .ends i call result hphase rfl call_setPhase

/-- What the thread with the guard has made of the value that it found. -/
def Works (code : GuardedCode C L R T) (t t' : T) : Phase C L R → Prop
  | .idle | .locking _ => False
  | .guarded call l => code.Progress call t l t'
  | .leaving call result => code.Runs call t result t'

/-- Nobody has the guard of a free lock, and one thread has that of a taken one. The value
is what the calls that have returned make of it one after the other, and then the thread
with the guard. -/
inductive Owned (code : GuardedCode C L R T) (val : T) (s : Threads ι C L R T) : Prop
  | free (status : s.mutex.lockStatus = false) (nobody : ∀ i, ¬ (s.phase i).HasGuard)
      (serial : code.Serial val s.history s.mutex.inner)
  | taken (i : ι) (t : T) (status : s.mutex.lockStatus = true)
      (only : ∀ j, (s.phase j).HasGuard → j = i) (serial : code.Serial val s.history t)
      (works : Works code t s.mutex.inner (s.phase i))

omit [DecidableEq ι] in
theorem Owned.initial (code : GuardedCode C L R T) (val : T) :
    Owned code val (initial val : Threads ι C L R T) :=
  .free rfl (fun _ => id) .nil

omit [DecidableEq ι] in
/-- The owner of a taken lock is the thread that has a guard. -/
theorem Owned.taken_by (h : Owned code val s) (hguard : (s.phase i).HasGuard) :
    ∃ t, s.mutex.lockStatus = true ∧ (∀ j, (s.phase j).HasGuard → j = i) ∧
      code.Serial val s.history t ∧ Works code t s.mutex.inner (s.phase i) := by
  cases h with
  | free _ nobody _ => exact absurd hguard (nobody i)
  | taken owner t status only serial works =>
      obtain rfl := only i hguard
      exact ⟨t, status, only, serial, works⟩

/-- A thread without a guard may change its phase to another without one. -/
theorem Owned.setPhase (h : Owned code val s) (hbefore : ¬ (s.phase i).HasGuard)
    (hafter : ¬ phase.HasGuard) : Owned code val (s.setPhase i phase) := by
  have hguard : ∀ j, ((s.setPhase i phase).phase j).HasGuard → (s.phase j).HasGuard := by
    intro j hj
    by_cases hji : j = i
    · rw [hji, setPhase_self] at hj
      exact absurd hj hafter
    · rwa [setPhase_of_ne hji] at hj
  cases h with
  | free status nobody serial =>
      exact .free status (fun j hj => nobody j (hguard j hj)) serial
  | taken owner t status only serial works =>
      have howner : owner ≠ i := by
        intro heq
        rw [heq] at works
        cases hphase : s.phase i <;> simp_all [Works, Phase.HasGuard]
      refine .taken owner t status (fun j hj => only j (hguard j hj)) serial ?_
      rw [setPhase_of_ne howner]
      exact works

theorem only_setPhase (only : ∀ j, (s.phase j).HasGuard → j = i) (j : ι)
    (hj : ((s.setPhase i phase).phase j).HasGuard) : j = i := by
  by_contra hji
  rw [setPhase_of_ne hji] at hj
  exact hji (only j hj)

theorem Owned.step (h : Owned code val s) (hstep : Step code contract s s') :
    Owned code val s' := by
  cases hstep with
  | @call i call hphase _ => exact h.setPhase (by simp [hphase, Phase.HasGuard]) id
  | @lock i call hphase =>
      cases lockRound_cases code s i call with
      | inr hspin => rwa [hspin.2]
      | inl htaken =>
          rw [htaken.2]
          cases h with
          | taken _ _ status _ _ _ => rw [htaken.1] at status; cases status
          | free _ nobody serial =>
              refine .taken i _ rfl (only_setPhase fun j hj => absurd hj (nobody j)) serial ?_
              rw [setPhase_self]
              exact .start
  | @access i call l l' t hphase haccess =>
      have hguard : (s.phase i).HasGuard := by rw [hphase]; trivial
      obtain ⟨t₀, status, only, serial, works⟩ := h.taken_by hguard
      rw [hphase] at works
      refine .taken i t₀ status (only_setPhase only) serial ?_
      rw [setPhase_self]
      exact .next works haccess
  | @finish i call l result t hphase haccess =>
      have hguard : (s.phase i).HasGuard := by rw [hphase]; trivial
      obtain ⟨t₀, status, only, serial, works⟩ := h.taken_by hguard
      rw [hphase] at works
      refine .taken i t₀ status (only_setPhase only) serial ?_
      rw [setPhase_self]
      exact ⟨l, _, works, haccess⟩
  | @drop i call result hphase =>
      have hguard : (s.phase i).HasGuard := by rw [hphase]; trivial
      obtain ⟨t₀, status, only, serial, works⟩ := h.taken_by hguard
      rw [hphase] at works
      refine .free rfl (fun j hj => ?_) (.concat serial works)
      have hji : j = i := only_setPhase only j hj
      rw [hji, setPhase_self] at hj
      exact hj

theorem Owned.of_reachable (h : Reachable code contract val s) : Owned code val s := by
  induction h with
  | refl => exact .initial code val
  | tail _ hstep ih => exact ih.step hstep

end Step

/-- The lock is taken exactly while one thread has a guard, and the value is what the calls
that have returned make of it when they run one after the other, and then the accesses of
the thread with the guard. -/
structure Serialised (code : GuardedCode C L R T) (val : T) (s : Threads ι C L R T) : Prop where
  exclusive : ∀ i j, (s.phase i).HasGuard → (s.phase j).HasGuard → i = j
  status : s.mutex.lockStatus = true ↔ ∃ i, (s.phase i).HasGuard
  serial : ∃ t, code.Serial val s.history t ∧
    (s.mutex.lockStatus = false → s.mutex.inner = t) ∧
    (∀ i call l, s.phase i = .guarded call l → code.Progress call t l s.mutex.inner) ∧
    ∀ i call result, s.phase i = .leaving call result → code.Runs call t result s.mutex.inner

/-- However the steps of the threads are interleaved, the calls on a mutex have the effect
of running one after the other. -/
theorem serialised_of_reachable (code : GuardedCode C L R T)
    (contract : Threads ι C L R T → C → Prop) (val : T) (s : Threads ι C L R T)
    (h : Reachable code contract val s) : Serialised code val s := by
  cases Owned.of_reachable h with
  | free status nobody serial =>
      refine ⟨fun i j hi => absurd hi (nobody i), ?_, _, serial, fun _ => rfl, ?_, ?_⟩
      · simp [status, nobody]
      · intro i call l hphase
        exact absurd (by rw [hphase]; trivial) (nobody i)
      · intro i call result hphase
        exact absurd (by rw [hphase]; trivial) (nobody i)
  | taken owner t status only serial works =>
      refine ⟨fun i j hi hj => (only i hi).trans (only j hj).symm, ?_, t, serial, ?_, ?_, ?_⟩
      · refine ⟨fun _ => ⟨owner, ?_⟩, fun _ => status⟩
        cases hphase : s.phase owner <;> simp_all [Works, Phase.HasGuard]
      · intro hfree
        rw [status] at hfree
        cases hfree
      · intro i call l hphase
        obtain rfl := only i (by rw [hphase]; trivial)
        rwa [hphase] at works
      · intro i call result hphase
        obtain rfl := only i (by rw [hphase]; trivial)
        rwa [hphase] at works

def increment : GuardedCode Unit (Option Nat) Unit Nat where
  enter := fun _ => none
  access := fun l t access t' =>
    match l, access with
    | none, .next (some read) => read = t ∧ t' = t
    | some read, .done _ => t' = read + 1
    | _, _ => False

/-- One thread is between its two accesses, and another one spins. -/
theorem serialised_increment :
    ∃ s : Threads Bool Unit (Option Nat) Unit Nat, Reachable increment (fun _ _ => True) 0 s ∧
      s.phase false = .guarded () (some 0) ∧ s.phase true = .locking () ∧
      Serialised increment 0 s := by
  let s₁ : Threads Bool Unit (Option Nat) Unit Nat := (initial 0).setPhase false (.locking ())
  let s₂ := s₁.setPhase true (.locking ())
  let s₃ := s₂.lockRound increment false ()
  let s₄ := s₃.setPhase false (.guarded () (some 0))
  let s₅ := s₄.lockRound increment true ()
  have hrun : Reachable increment (fun _ _ => True) 0 s₅ := by
    apply Relation.ReflTransGen.tail (b := s₄) _ (.lock rfl)
    apply Relation.ReflTransGen.tail (b := s₃) _ (.access (l := none) rfl ⟨rfl, rfl⟩)
    apply Relation.ReflTransGen.tail (b := s₂) _ (.lock rfl)
    apply Relation.ReflTransGen.tail (b := s₁) _ (.call rfl trivial)
    exact .single (.call rfl trivial)
  exact ⟨s₅, hrun, rfl, rfl, serialised_of_reachable _ _ _ _ hrun⟩

end Threads

end MiniatureOs
