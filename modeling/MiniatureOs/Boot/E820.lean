import Mathlib.Data.List.Forall2
import MiniatureOs.Memory.Region

/-! # Asking the BIOS for the memory map

`MemoryMap::get` of `bootloader/x86_64/bios/stage2/src/memory_map.rs`. Every call of
function 0xe820 writes one descriptor behind those that are already kept and returns
a continuation id, zero with the last descriptor. The loop leaves before it counts
the descriptor that came with a zero, and it compares the returned length with 0x20
where descriptors without extended attributes have 20 bytes. The length is an `i32`, so
the comparison is signed.
-/

namespace MiniatureOs

/-! ## The BIOS -/

/-- What a call leaves in `eax`, `ebx`, `ecx` and the buffer. -/
structure E820Reply where
  signature : BitVec 32
  contId : BitVec 32
  len : BitVec 32
  region : E820MemoryRegion
  deriving Repr, DecidableEq

/-- The replies in order. The continuation id is zero exactly in the last one. -/
structure E820Bios where
  earlier : List E820Reply
  last : E820Reply
  continues : ∀ r ∈ earlier, r.contId ≠ 0
  ends : last.contId = 0
  count : earlier.length < 32

namespace E820Reply

/-- Only a reply of more than 20 bytes reaches the extended attributes. -/
def write (reply : E820Reply) (slot : E820MemoryRegion) : E820MemoryRegion :=
  { reply.region with acpiExtendedAttributes :=
      if 20 < reply.len.toNat then reply.region.acpiExtendedAttributes
      else slot.acpiExtendedAttributes }

end E820Reply

namespace E820Bios

def replies (bios : E820Bios) : List E820Reply := bios.earlier ++ [bios.last]

def reply (bios : E820Bios) (i : Nat) : E820Reply := bios.replies[i]?.getD bios.last

end E820Bios

/-! ## The loop -/

/-- `E820MemoryRegion::empty`. -/
def E820MemoryRegion.empty : E820MemoryRegion := ⟨0, 0, .unusable, 0⟩

structure MemoryMap where
  map : List E820MemoryRegion
  size : Nat
  deriving Repr, DecidableEq

namespace MemoryMap

def magicNumber : BitVec 32 := 0x534D4150

structure QueryState where
  map : List E820MemoryRegion
  entriesCnt : Nat
  contId : BitVec 32
  served : Nat

/-- The BIOS starts again when it is called with a zero. -/
def QueryState.next (s : QueryState) : Nat := if s.contId = 0 then 0 else s.served

inductive QueryOutcome where
  | again (s : QueryState)
  | leave (result : Except Unit MemoryMap)

def query (bios : E820Bios) (s : QueryState) : Checked QueryOutcome :=
  match s.map[s.entriesCnt]? with
  | none => .error .outOfBounds
  | some slot =>
      let reply := bios.reply s.next
      let entry := reply.write slot
      let map := s.map.set s.entriesCnt entry
      let served := s.next + 1
      if reply.signature ≠ magicNumber then .ok (.leave (.error ()))
      else if 0x20 < reply.len.toInt ∧ entry.acpiExtendedAttributes &&& 0x1 = 0 then
        .ok (.again ⟨map, s.entriesCnt, reply.contId, served⟩)
      else if reply.contId = 0 ∨ map.length < s.entriesCnt then
        .ok (.leave (.ok ⟨map, s.entriesCnt⟩))
      else .ok (.again ⟨map, s.entriesCnt + 1, reply.contId, served⟩)

def getLoop (bios : E820Bios) : Nat → QueryState → Checked (Option (Except Unit MemoryMap))
  | 0, _ => .ok none
  | fuel + 1, s => do
      match ← query bios s with
      | .again s => getLoop bios fuel s
      | .leave result => return some result

def start : QueryState := ⟨List.replicate 0x20 .empty, 0, 0, 0⟩

/-- `MemoryMap::get`; `none` when the fuel is used up. -/
def get (fuel : Nat) (bios : E820Bios) : Checked (Option (Except Unit MemoryMap)) :=
  getLoop bios fuel start

end MemoryMap

/-! ## What the replies ask for -/

/-- Bit 0 of the extended attributes is clear: the entry is to be ignored. -/
def E820MemoryRegion.Clear (region : E820MemoryRegion) : Prop :=
  region.acpiExtendedAttributes &&& 0x1 = 0

instance (region : E820MemoryRegion) : Decidable region.Clear :=
  inferInstanceAs (Decidable (_ = _))

namespace E820Reply

def ToSkip (reply : E820Reply) : Prop := 20 < reply.len.toNat ∧ reply.region.Clear

def Skipped (reply : E820Reply) : Prop := 0x20 < reply.len.toInt ∧ reply.region.Clear

def Missed (reply : E820Reply) : Prop := reply.ToSkip ∧ reply.len.toInt ≤ 0x20

instance (reply : E820Reply) : Decidable reply.ToSkip := inferInstanceAs (Decidable (_ ∧ _))

instance (reply : E820Reply) : Decidable reply.Skipped := inferInstanceAs (Decidable (_ ∧ _))

instance (reply : E820Reply) : Decidable reply.Missed := inferInstanceAs (Decidable (_ ∧ _))

def Reports (reply : E820Reply) (entry : E820MemoryRegion) : Prop :=
  entry.start = reply.region.start ∧ entry.size = reply.region.size ∧
  entry.typ = reply.region.typ ∧
  (20 < reply.len.toNat → entry.acpiExtendedAttributes = reply.region.acpiExtendedAttributes)

def Stored (reply : E820Reply) (entry : E820MemoryRegion) : Prop :=
  ∃ slot : E820MemoryRegion, slot.Clear ∧ entry = reply.write slot

def SameRegion (r r' : E820Reply) : Prop :=
  r.region.start = r'.region.start ∧ r.region.size = r'.region.size ∧ r.region.typ = r'.region.typ

variable {r : E820Reply} {slot : E820MemoryRegion}

theorem lt_toNat_of_lt_toInt (h : 0x20 < r.len.toInt) : 20 < r.len.toNat := by
  rw [BitVec.toInt_eq_toNat_cond] at h
  split at h <;> omega

theorem skipped_iff : 0x20 < r.len.toInt ∧ (r.write slot).acpiExtendedAttributes &&& 0x1 = 0 ↔
    r.Skipped := by
  refine and_congr_right fun hlen => ?_
  rw [write, if_pos (lt_toNat_of_lt_toInt hlen)]
  rfl

theorem Skipped.toSkip (h : r.Skipped) : r.ToSkip := ⟨lt_toNat_of_lt_toInt h.1, h.2⟩

theorem toSkip_iff : r.ToSkip ↔ r.Skipped ∨ r.Missed := by
  constructor
  · intro h
    by_cases hlen : r.len.toInt ≤ 0x20
    · exact .inr ⟨h, hlen⟩
    · exact .inl ⟨Int.lt_of_not_ge hlen, h.2⟩
  · intro h
    cases h with
    | inl hskipped => exact hskipped.toSkip
    | inr hmissed => exact hmissed.1

theorem Skipped.clear_write (h : r.Skipped) : (r.write slot).Clear := (skipped_iff.mpr h).2

theorem Stored.reports {entry : E820MemoryRegion} (h : r.Stored entry) : r.Reports entry := by
  obtain ⟨slot, _, rfl⟩ := h
  exact ⟨rfl, rfl, rfl, fun hlen => if_pos hlen⟩

end E820Reply

/-! ## One iteration -/

namespace MemoryMap

section Step

open E820Reply

structure Collected (kept : List E820Reply) (s : QueryState) : Prop where
  length : s.map.length = 32
  count : s.entriesCnt = kept.length
  stored : List.Forall₂ Stored kept (s.map.take s.entriesCnt)
  clear : ∀ entry ∈ s.map.drop s.entriesCnt, entry.Clear

variable {bios : E820Bios} {kept : List E820Reply} {s : QueryState}

theorem collected_start : Collected [] start := by
  refine ⟨rfl, rfl, .nil, fun entry h => ?_⟩
  rw [List.eq_of_mem_replicate (List.mem_of_mem_drop h)]
  rfl

theorem Collected.exists_slot (h : Collected kept s) (hlt : kept.length < 32) :
    ∃ slot, s.map[s.entriesCnt]? = some slot ∧ slot.Clear := by
  have hbound : s.entriesCnt < s.map.length := by rw [h.count, h.length]; exact hlt
  refine ⟨s.map[s.entriesCnt], List.getElem?_eq_getElem hbound, h.clear _ ?_⟩
  rw [List.drop_eq_getElem_cons hbound]
  exact List.mem_cons_self

theorem Collected.skip (h : Collected kept s) {entry : E820MemoryRegion} (hentry : entry.Clear)
    {contId : BitVec 32} {served : Nat} :
    Collected kept ⟨s.map.set s.entriesCnt entry, s.entriesCnt, contId, served⟩ := by
  refine ⟨by rw [List.length_set]; exact h.length, h.count, ?_, fun e he => ?_⟩
  · rw [List.take_set_of_le (Nat.le_refl _)]
    exact h.stored
  · rw [List.drop_set] at he
    cases List.mem_or_eq_of_mem_set (by simpa using he) with
    | inl hmem => exact h.clear e hmem
    | inr heq => rw [heq]; exact hentry

theorem Collected.keep (h : Collected kept s) (hlt : kept.length < 32) {r : E820Reply}
    {slot : E820MemoryRegion} (hslot : slot.Clear) {contId : BitVec 32} {served : Nat} :
    Collected (kept ++ [r])
      ⟨s.map.set s.entriesCnt (r.write slot), s.entriesCnt + 1, contId, served⟩ := by
  have hbound : s.entriesCnt < s.map.length := by rw [h.count, h.length]; exact hlt
  refine ⟨by rw [List.length_set]; exact h.length, ?_, ?_, fun e he => h.clear e ?_⟩
  · rw [List.length_append, List.length_singleton, h.count]
  · have htake : (s.map.set s.entriesCnt (r.write slot)).take (s.entriesCnt + 1) =
        s.map.take s.entriesCnt ++ [r.write slot] := by
      rw [List.take_add_one, List.take_set_of_le (Nat.le_refl _),
        List.getElem?_set_self hbound]
      rfl
    rw [htake]
    exact List.rel_append h.stored (.cons ⟨slot, hslot, rfl⟩ .nil)
  · rw [List.drop_set_of_lt (Nat.lt_succ_self _), Nat.succ_eq_add_one, ← List.drop_drop] at he
    exact List.mem_of_mem_drop he

theorem query_eq {r : E820Reply} (hreply : bios.reply s.next = r)
    (hsignature : r.signature = magicNumber) {slot : E820MemoryRegion}
    (hslot : s.map[s.entriesCnt]? = some slot) :
    query bios s = .ok
      (if r.Skipped then
        .again ⟨s.map.set s.entriesCnt (r.write slot), s.entriesCnt, r.contId, s.next + 1⟩
      else if r.contId = 0 then .leave (.ok ⟨s.map.set s.entriesCnt (r.write slot), s.entriesCnt⟩)
      else
        .again ⟨s.map.set s.entriesCnt (r.write slot), s.entriesCnt + 1, r.contId,
          s.next + 1⟩) := by
  obtain ⟨hbound, _⟩ := List.getElem?_eq_some_iff.mp hslot
  have hlength : ¬ (s.map.set s.entriesCnt (r.write slot)).length < s.entriesCnt := by
    rw [List.length_set]
    omega
  simp only [query, hslot, hreply, hsignature, ne_eq, not_true_eq_false, if_false, skipped_iff,
    hlength, or_false]
  by_cases hskip : r.Skipped
  · rw [if_pos hskip, if_pos hskip]
  · rw [if_neg hskip, if_neg hskip]
    by_cases hcont : r.contId = 0
    · rw [if_pos hcont, if_pos hcont]
    · rw [if_neg hcont, if_neg hcont]

theorem query_wrong_signature (h : Collected kept s) (hlt : kept.length < 32)
    (hsignature : (bios.reply s.next).signature ≠ magicNumber) :
    query bios s = .ok (.leave (.error ())) := by
  obtain ⟨slot, hslot, _⟩ := h.exists_slot hlt
  simp only [query, hslot, if_pos hsignature]

/-- A reply that is not the last one: the loop goes on behind it. -/
theorem query_earlier (h : Collected kept s) (hlt : kept.length < 32) {r : E820Reply}
    (hreply : bios.reply s.next = r) (hsignature : r.signature = magicNumber)
    (hcont : r.contId ≠ 0) :
    ∃ s', query bios s = .ok (.again s') ∧ s'.next = s.next + 1 ∧
      Collected (kept ++ [r].filter fun r => ¬ r.Skipped) s' := by
  obtain ⟨slot, hslot, hclear⟩ := h.exists_slot hlt
  have hquery := query_eq hreply hsignature hslot
  by_cases hskip : r.Skipped
  · rw [if_pos hskip] at hquery
    refine ⟨_, hquery, if_neg hcont, ?_⟩
    have hnone : [r].filter (fun r => ¬ r.Skipped) = [] := by simp [hskip]
    rw [hnone, List.append_nil]
    exact h.skip hskip.clear_write
  · rw [if_neg hskip, if_neg hcont] at hquery
    refine ⟨_, hquery, if_neg hcont, ?_⟩
    have hone : [r].filter (fun r => ¬ r.Skipped) = [r] := by simp [hskip]
    rw [hone]
    exact h.keep hlt hclear

/-- The last reply, unless it is skipped: the loop leaves, and does not count it. -/
theorem query_last (h : Collected kept s) (hlt : kept.length < 32) {r : E820Reply}
    (hreply : bios.reply s.next = r) (hsignature : r.signature = magicNumber)
    (hcont : r.contId = 0) (hskip : ¬ r.Skipped) :
    ∃ map, query bios s = .ok (.leave (.ok ⟨map, kept.length⟩)) ∧
      List.Forall₂ Stored kept (map.take kept.length) := by
  obtain ⟨slot, hslot, _⟩ := h.exists_slot hlt
  have hquery := query_eq hreply hsignature hslot
  rw [if_neg hskip, if_pos hcont, h.count] at hquery
  refine ⟨_, hquery, ?_⟩
  have hstored := h.stored
  rw [h.count] at hstored
  rw [List.take_set_of_le (Nat.le_refl _)]
  exact hstored

end Step

/-! ## Whole runs -/

section Run

open E820Reply

variable {bios : E820Bios} {kept : List E820Reply} {s : QueryState} {fuel : Nat}

theorem getLoop_again {s' : QueryState} (h : query bios s = .ok (.again s')) :
    getLoop bios (fuel + 1) s = getLoop bios fuel s' := by
  simp only [getLoop, h, Checked.ok_bind]

theorem getLoop_leave {result : Except Unit MemoryMap} (h : query bios s = .ok (.leave result)) :
    getLoop bios (fuel + 1) s = .ok (some result) := by
  simp only [getLoop, h, Checked.ok_bind, Checked.pure_eq_ok]

theorem reply_of_eq {before after : List E820Reply} {r : E820Reply}
    (h : bios.replies = before ++ r :: after) : bios.reply before.length = r := by
  rw [E820Bios.reply, h, List.getElem?_append_right (Nat.le_refl _), Nat.sub_self]
  rfl

theorem length_filter_lt {before after : List E820Reply} (p : E820Reply → Bool)
    (h : bios.earlier = before ++ after) : (before.filter p).length < 32 := by
  have hfilter := List.length_filter_le p before
  have hcount := bios.count
  rw [h, List.length_append] at hcount
  omega

theorem getLoop_earlier {before todo after : List E820Reply}
    (hreplies : bios.earlier = before ++ (todo ++ after))
    (hsignature : ∀ r ∈ todo, r.signature = magicNumber)
    (h : Collected (before.filter fun r => ¬ r.Skipped) s) (hnext : s.next = before.length) :
    ∃ s', (∀ fuel, getLoop bios (todo.length + fuel) s = getLoop bios fuel s') ∧
      s'.next = (before ++ todo).length ∧
      Collected ((before ++ todo).filter fun r => ¬ r.Skipped) s' := by
  induction todo generalizing before s with
  | nil => exact ⟨s, fun fuel => by rw [List.length_nil, Nat.zero_add], by simpa using hnext,
      by simpa using h⟩
  | cons r todo ih =>
      have hreply : bios.reply s.next = r := by
        rw [hnext]
        apply reply_of_eq
        rw [E820Bios.replies, hreplies, List.cons_append, List.append_assoc, List.cons_append]
      have hcont : r.contId ≠ 0 := bios.continues r (by rw [hreplies]; simp)
      obtain ⟨s₁, hquery, hnext₁, hcollected₁⟩ := query_earlier h
        (length_filter_lt _ hreplies) hreply (hsignature r List.mem_cons_self) hcont
      rw [← List.filter_append] at hcollected₁
      obtain ⟨s', hrun, hnext', hcollected'⟩ := @ih s₁ (before ++ [r])
        (by rw [hreplies]; simp) (fun r hr => hsignature r (List.mem_cons_of_mem _ hr))
        hcollected₁ (by rw [hnext₁, hnext, List.length_append]; rfl)
      rw [List.append_assoc, List.singleton_append] at hnext' hcollected'
      refine ⟨s', fun fuel => ?_, hnext', hcollected'⟩
      rw [List.length_cons, Nat.add_right_comm, getLoop_again hquery, hrun]

theorem exists_first_wrong {replies : List E820Reply}
    (h : ¬ ∀ r ∈ replies, r.signature = magicNumber) :
    ∃ todo r after, replies = todo ++ r :: after ∧ (∀ r ∈ todo, r.signature = magicNumber) ∧
      r.signature ≠ magicNumber := by
  induction replies with
  | nil => exact absurd (by simp) h
  | cons first rest ih =>
      by_cases hfirst : first.signature = magicNumber
      · have hrest : ¬ ∀ r ∈ rest, r.signature = magicNumber := by
          intro hall
          exact h (List.forall_mem_cons.mpr ⟨hfirst, hall⟩)
        obtain ⟨todo, r, after, hsplit, hright, hwrong⟩ := ih hrest
        exact ⟨first :: todo, r, after, by rw [hsplit]; rfl,
          List.forall_mem_cons.mpr ⟨hfirst, hright⟩, hwrong⟩
      · exact ⟨[], first, rest, rfl, by simp, hfirst⟩

theorem getLoop_all_earlier (hsignature : ∀ r ∈ bios.earlier, r.signature = magicNumber) :
    ∃ s', (∀ fuel, get (bios.earlier.length + fuel) bios = getLoop bios fuel s') ∧
      bios.reply s'.next = bios.last ∧
      Collected (bios.earlier.filter fun r => ¬ r.Skipped) s' := by
  obtain ⟨s', hrun, hnext, hcollected⟩ := @getLoop_earlier bios start [] bios.earlier []
    (by simp) hsignature collected_start rfl
  refine ⟨s', hrun, ?_, hcollected⟩
  rw [hnext]
  exact reply_of_eq rfl

/-- The loop returns everything it kept but the last reply. -/
theorem get_of_not_skipped (hsignature : ∀ r ∈ bios.replies, r.signature = magicNumber)
    (hlast : ¬ bios.last.Skipped) :
    ∃ map, (∀ fuel, bios.earlier.length + 1 ≤ fuel → get fuel bios =
        .ok (some (.ok ⟨map, (bios.earlier.filter fun r => ¬ r.Skipped).length⟩))) ∧
      List.Forall₂ Stored (bios.earlier.filter fun r => ¬ r.Skipped)
        (map.take (bios.earlier.filter fun r => ¬ r.Skipped).length) := by
  obtain ⟨s', hrun, hreply, hcollected⟩ := @getLoop_all_earlier bios
    fun r hr => hsignature r (List.mem_append_left _ hr)
  obtain ⟨map, hquery, hstored⟩ := query_last hcollected
    (length_filter_lt _ (List.append_nil _).symm) hreply
    (hsignature bios.last (List.mem_append_right _ List.mem_cons_self)) bios.ends hlast
  refine ⟨map, fun fuel hfuel => ?_, hstored⟩
  obtain ⟨more, rfl⟩ := Nat.exists_eq_add_of_le hfuel
  rw [Nat.add_assoc, Nat.add_comm 1 more, hrun, getLoop_leave hquery]

/-- A last reply that is skipped makes the loop ask again from the first one on. -/
theorem getLoop_of_skipped (hlast : bios.last.Skipped)
    (hsignature : ∀ r ∈ bios.replies, r.signature = magicNumber) (memoryMap : MemoryMap) :
    getLoop bios fuel s ≠ .ok (some (.ok memoryMap)) := by
  induction fuel generalizing s with
  | zero => simp [getLoop]
  | succ fuel ih =>
      have hmem : bios.reply s.next ∈ bios.replies := by
        rw [E820Bios.reply]
        cases hget : bios.replies[s.next]? with
        | none => exact List.mem_append_right _ List.mem_cons_self
        | some r => exact List.mem_of_getElem? hget
      cases hslot : s.map[s.entriesCnt]? with
      | none => simp [getLoop, query, hslot]
      | some slot =>
          have hquery := query_eq rfl (hsignature _ hmem) hslot
          by_cases hskip : (bios.reply s.next).Skipped
          · rw [if_pos hskip] at hquery
            rw [getLoop_again hquery]
            exact ih
          · have hearlier : bios.reply s.next ∈ bios.earlier := by
              cases List.mem_append.mp hmem with
              | inl h => exact h
              | inr h =>
                  rw [List.mem_singleton.mp h] at hskip
                  exact absurd hlast hskip
            rw [if_neg hskip, if_neg (bios.continues _ hearlier)] at hquery
            rw [getLoop_again hquery]
            exact ih

theorem get_of_wrong_signature (h : ∃ r ∈ bios.replies, r.signature ≠ magicNumber) :
    ∃ n, ∀ fuel, n ≤ fuel → get fuel bios = .ok (some (.error ())) := by
  by_cases hearlier : ∀ r ∈ bios.earlier, r.signature = magicNumber
  · obtain ⟨s', hrun, hreply, hcollected⟩ := getLoop_all_earlier hearlier
    have hlast : bios.last.signature ≠ magicNumber := by
      obtain ⟨r, hr, hwrong⟩ := h
      cases List.mem_append.mp hr with
      | inl hmem => exact absurd (hearlier r hmem) hwrong
      | inr hmem => rwa [List.mem_singleton.mp hmem] at hwrong
    have hquery := query_wrong_signature hcollected
      (length_filter_lt _ (List.append_nil _).symm) (by rw [hreply]; exact hlast)
    refine ⟨bios.earlier.length + 1, fun fuel hfuel => ?_⟩
    obtain ⟨more, rfl⟩ := Nat.exists_eq_add_of_le hfuel
    rw [Nat.add_assoc, Nat.add_comm 1 more, hrun, getLoop_leave hquery]
  · -- the replies in front of the first wrong one are gone through
    obtain ⟨todo, r, after, hsplit, hright, hwrong⟩ := exists_first_wrong hearlier
    obtain ⟨s', hrun, hnext, hcollected⟩ := @getLoop_earlier bios start [] todo (r :: after)
      (by rw [hsplit]; rfl) hright collected_start rfl
    have hreply : bios.reply s'.next = r := by
      rw [hnext]
      apply reply_of_eq
      rw [E820Bios.replies, hsplit, List.nil_append, List.append_assoc, List.cons_append]
    have hquery := query_wrong_signature hcollected (length_filter_lt _ hsplit)
      (by rw [hreply]; exact hwrong)
    refine ⟨todo.length + 1, fun fuel hfuel => ?_⟩
    obtain ⟨more, rfl⟩ := Nat.exists_eq_add_of_le hfuel
    rw [get, Nat.add_assoc, Nat.add_comm 1 more, hrun, getLoop_leave hquery]

end Run

end MemoryMap

/-! ## Every descriptor -/

/-- The map holds the descriptors that are not to be skipped, in order; a wrong
signature is an error. -/
def CollectsEvery (bios : E820Bios) : Prop :=
  if ∀ r ∈ bios.replies, r.signature = MemoryMap.magicNumber then
    ∃ memoryMap, (∃ n, ∀ fuel, n ≤ fuel → MemoryMap.get fuel bios = .ok (some (.ok memoryMap))) ∧
      memoryMap.size ≤ 32 ∧ List.Forall₂ E820Reply.Reports
        (bios.replies.filter fun r => ¬ r.ToSkip) (memoryMap.map.take memoryMap.size)
  else ∃ n, ∀ fuel, n ≤ fuel → MemoryMap.get fuel bios = .ok (some (.error ()))

/-- Exactly one earlier reply is kept that is to be skipped, and every reply kept
behind it, with the last one, repeats its region without attributes. -/
def RepeatsMissed (bios : E820Bios) : Prop :=
  ∃ before w after, (bios.earlier.filter fun r => ¬ r.Skipped) = before ++ w :: after ∧
    w.Missed ∧ (∀ r ∈ before ++ after, ¬ r.Missed) ∧
    ∀ r ∈ after ++ [bios.last], r.len.toNat ≤ 20 ∧ r.SameRegion w

/-- What hides that the last reply is not counted: it is to be skipped itself and no
earlier reply is kept that is, or one that is stands in for it. -/
def DropsNothing (bios : E820Bios) : Prop :=
  (bios.last.Missed ∧ ∀ r ∈ bios.earlier, ¬ r.Missed) ∨ RepeatsMissed bios

section Exact

open E820Reply

variable {w last : E820Reply} {after kept : List E820Reply} {slots : List E820MemoryRegion}

theorem E820Reply.SameRegion.trans {r r' r'' : E820Reply} (h : r.SameRegion r')
    (h' : r'.SameRegion r'') : r.SameRegion r'' :=
  ⟨h.1.trans h'.1, h.2.1.trans h'.2.1, h.2.2.trans h'.2.2⟩

theorem E820Reply.SameRegion.symm {r r' : E820Reply} (h : r.SameRegion r') : r'.SameRegion r :=
  ⟨h.1.symm, h.2.1.symm, h.2.2.symm⟩

/-- An unmarked entry of another reply reports only short replies. -/
theorem reports_iff {r : E820Reply} (hkeep : ¬ r.ToSkip) {entry : E820MemoryRegion}
    (hentry : w.Reports entry) (hclear : entry.Clear) :
    r.Reports entry ↔ r.len.toNat ≤ 20 ∧ r.SameRegion w := by
  obtain ⟨hstart, hsize, htyp, _⟩ := hentry
  constructor
  · intro h
    obtain ⟨hstart', hsize', htyp', hattr⟩ := h
    refine ⟨Nat.le_of_not_lt fun hlen => hkeep ⟨hlen, ?_⟩, hstart'.symm.trans hstart,
      hsize'.symm.trans hsize, htyp'.symm.trans htyp⟩
    rw [E820MemoryRegion.Clear, ← hattr hlen]
    exact hclear
  · intro h
    obtain ⟨hlen, hregion⟩ := h
    exact ⟨hstart.trans hregion.1.symm, hsize.trans hregion.2.1.symm,
      htyp.trans hregion.2.2.symm, fun hlong => absurd hlong (Nat.not_lt.mpr hlen)⟩

theorem E820Reply.Stored.clear {r : E820Reply} {entry : E820MemoryRegion} (h : r.Stored entry)
    (hlen : r.len.toNat ≤ 20) : entry.Clear := by
  obtain ⟨slot, hslot, rfl⟩ := h
  rw [E820MemoryRegion.Clear, write, if_neg (Nat.not_lt.mpr hlen)]
  exact hslot

/-- Entries moved up by one place report the replies exactly when all are alike. -/
theorem forall₂_reports_shift {entry : E820MemoryRegion} (hentry : w.Reports entry)
    (hclear : entry.Clear) (hstored : List.Forall₂ Stored after slots)
    (hkeep : ∀ r ∈ after ++ [last], ¬ r.ToSkip) :
    List.Forall₂ Reports (after ++ [last]) (entry :: slots) ↔
      ∀ r ∈ after ++ [last], r.len.toNat ≤ 20 ∧ r.SameRegion w := by
  induction hstored generalizing w entry with
  | nil =>
      rw [List.nil_append, List.forall₂_cons, List.forall_mem_singleton,
        reports_iff (hkeep last List.mem_cons_self) hentry hclear]
      exact and_iff_left .nil
  | @cons r slot after slots hr _ ih =>
      rw [List.cons_append, List.forall₂_cons, List.forall_mem_cons,
        reports_iff (hkeep r List.mem_cons_self) hentry hclear]
      refine and_congr_right fun hfirst => ?_
      rw [ih hr.reports (hr.clear hfirst.1) fun x hx => hkeep x (List.mem_cons_of_mem _ hx)]
      constructor
      · intro h x hx
        exact ⟨(h x hx).1, (h x hx).2.trans hfirst.2⟩
      · intro h x hx
        exact ⟨(h x hx).1, (h x hx).2.trans hfirst.2.symm⟩

/-- A list from which a filter takes exactly one element. -/
theorem exists_split_of_length_filter {α : Type} {p : α → Bool} {xs : List α}
    (h : (xs.filter p).length + 1 = xs.length) :
    ∃ before x after, xs = before ++ x :: after ∧ p x = false ∧
      ∀ y ∈ before ++ after, p y = true := by
  induction xs with
  | nil => simp at h
  | cons first rest ih =>
      cases hfirst : p first with
      | true =>
          rw [List.filter_cons_of_pos hfirst, List.length_cons, List.length_cons] at h
          obtain ⟨before, x, after, hsplit, hx, hothers⟩ := ih (Nat.succ.inj h)
          exact ⟨first :: before, x, after, by rw [hsplit]; rfl, hx,
            List.forall_mem_cons.mpr ⟨hfirst, hothers⟩⟩
      | false =>
          rw [List.filter_cons_of_neg (by simp [hfirst]), List.length_cons] at h
          have hall : rest.filter p = rest :=
            List.filter_sublist.eq_of_length (Nat.succ.inj h)
          exact ⟨[], first, rest, rfl, hfirst, List.filter_eq_self.mp hall⟩

theorem filter_toSkip (replies : List E820Reply) :
    (replies.filter fun r => ¬ r.ToSkip) =
      (replies.filter fun r => ¬ r.Skipped).filter fun r => ¬ r.Missed := by
  rw [List.filter_filter]
  apply List.filter_congr
  intro r _
  simp only [toSkip_iff, not_or, Bool.decide_and]
  exact Bool.and_comm _ _

/-- Behind a missed reply every entry is one place too far. -/
theorem forall₂_reports_one_missed {before : List E820Reply}
    (hstored : List.Forall₂ Stored (before ++ w :: after) slots) (hmissed : w.Missed)
    (hkeep : ∀ r ∈ after ++ [last], ¬ r.ToSkip) :
    List.Forall₂ Reports (before ++ (after ++ [last])) slots ↔
      ∀ r ∈ after ++ [last], r.len.toNat ≤ 20 ∧ r.SameRegion w := by
  induction before generalizing slots with
  | nil =>
      cases hstored with
      | cons hw hafter =>
          have hattr := hw.reports.2.2.2 hmissed.1.1
          refine forall₂_reports_shift hw.reports ?_ hafter hkeep
          rw [E820MemoryRegion.Clear, hattr]
          exact hmissed.1.2
  | cons first before ih =>
      cases hstored with
      | cons hfirst hrest =>
          rw [List.cons_append, List.forall₂_cons, ih hrest]
          exact and_iff_right hfirst.reports

theorem filter_missed_eq_self {replies : List E820Reply} (h : ∀ r ∈ replies, ¬ r.Missed) :
    replies.filter (fun r => ¬ r.Missed) = replies :=
  List.filter_eq_self.mpr fun r hr => by simpa using h r hr

/-- The last reply is to be skipped: the entries are right when no kept one is. -/
theorem forall₂_reports_skip_iff (hstored : List.Forall₂ Stored kept slots) :
    List.Forall₂ Reports (kept.filter fun r => ¬ r.Missed) slots ↔ ∀ r ∈ kept, ¬ r.Missed := by
  constructor
  · intro h r hr
    have hall : kept.filter (fun r => ¬ r.Missed) = kept :=
      List.filter_sublist.eq_of_length (h.length_eq.trans hstored.length_eq.symm)
    simpa using List.filter_eq_self.mp hall r hr
  · intro h
    rw [filter_missed_eq_self h]
    exact hstored.imp fun r entry hr => hr.reports

/-- The last reply is to be kept: one of the kept ones must make room for it, and the
replies behind that one report its region. -/
theorem forall₂_reports_keep_iff (hstored : List.Forall₂ Stored kept slots)
    (hkept : ∀ r ∈ kept, ¬ r.Skipped) (hkeep : ¬ last.ToSkip) :
    List.Forall₂ Reports ((kept.filter fun r => ¬ r.Missed) ++ [last]) slots ↔
      ∃ before w after, kept = before ++ w :: after ∧ w.Missed ∧
        (∀ r ∈ before ++ after, ¬ r.Missed) ∧
        ∀ r ∈ after ++ [last], r.len.toNat ≤ 20 ∧ r.SameRegion w := by
  have hsplit : ∀ before w after, kept = before ++ w :: after → w.Missed →
      (∀ r ∈ before ++ after, ¬ r.Missed) →
      (List.Forall₂ Reports ((kept.filter fun r => ¬ r.Missed) ++ [last]) slots ↔
        ∀ r ∈ after ++ [last], r.len.toNat ≤ 20 ∧ r.SameRegion w) := by
    intro before w after hkeptSplit hw hothers
    have hbehind : ∀ r ∈ after ++ [last], ¬ r.ToSkip := by
      intro r hr htoSkip
      cases List.mem_append.mp hr with
      | inl hmem =>
          cases toSkip_iff.mp htoSkip with
          | inl hskipped => exact hkept r (by rw [hkeptSplit]; simp [hmem]) hskipped
          | inr hmissed => exact hothers r (List.mem_append_right _ hmem) hmissed
      | inr hmem => exact hkeep (List.mem_singleton.mp hmem ▸ htoSkip)
    rw [hkeptSplit] at hstored
    rw [hkeptSplit, List.filter_append,
      filter_missed_eq_self fun r hr => hothers r (List.mem_append_left _ hr),
      List.filter_cons_of_neg (by simpa using hw),
      filter_missed_eq_self fun r hr => hothers r (List.mem_append_right _ hr), List.append_assoc]
    exact forall₂_reports_one_missed hstored hw hbehind
  constructor
  · intro h
    -- with the right number of entries exactly one reply was missed
    have hlength := h.length_eq
    rw [List.length_append, List.length_singleton, ← hstored.length_eq] at hlength
    obtain ⟨before, w, after, hkeptSplit, hw, hothers⟩ := exists_split_of_length_filter hlength
    have hw : w.Missed := by simpa using hw
    have hothers : ∀ r ∈ before ++ after, ¬ r.Missed := fun r hr => by simpa using hothers r hr
    exact ⟨before, w, after, hkeptSplit, hw, hothers,
      (hsplit before w after hkeptSplit hw hothers).mp h⟩
  · intro h
    obtain ⟨before, w, after, hkeptSplit, hw, hothers, hshort⟩ := h
    exact (hsplit before w after hkeptSplit hw hothers).mpr hshort

theorem forall₂_reports_iff (hstored : List.Forall₂ Stored kept slots)
    (hkept : ∀ r ∈ kept, ¬ r.Skipped) (hlast : ¬ last.Skipped) :
    List.Forall₂ Reports
        ((kept.filter fun r => ¬ r.Missed) ++ [last].filter fun r => ¬ r.ToSkip) slots ↔
      (last.Missed ∧ ∀ r ∈ kept, ¬ r.Missed) ∨
      ∃ before w after, kept = before ++ w :: after ∧ w.Missed ∧
        (∀ r ∈ before ++ after, ¬ r.Missed) ∧
        ∀ r ∈ after ++ [last], r.len.toNat ≤ 20 ∧ r.SameRegion w := by
  by_cases hskip : last.ToSkip
  · have hnone : [last].filter (fun r => ¬ r.ToSkip) = [] := by simp [hskip]
    have hmissed : last.Missed := (toSkip_iff.mp hskip).resolve_left hlast
    rw [hnone, List.append_nil, forall₂_reports_skip_iff hstored]
    constructor
    · exact fun h => .inl ⟨hmissed, h⟩
    · intro h
      cases h with
      | inl hall => exact hall.2
      | inr hone =>
          obtain ⟨_, _, after, _, _, _, hshort⟩ := hone
          have hle := (hshort last (List.mem_append_right after List.mem_cons_self)).1
          exact absurd hskip.1 (Nat.not_lt.mpr hle)
  · have hself : [last].filter (fun r => ¬ r.ToSkip) = [last] := by simp [hskip]
    rw [hself, forall₂_reports_keep_iff hstored hkept hskip]
    constructor
    · exact .inr
    · intro h
      cases h with
      | inl hall => exact absurd hall.1.1 hskip
      | inr hone => exact hone

end Exact

section Main

open E820Reply

variable {bios : E820Bios}

theorem DropsNothing.not_skipped (h : DropsNothing bios) : ¬ bios.last.Skipped := by
  intro hskipped
  have hlen := hskipped.1
  cases h with
  | inl hlast =>
      have hle := hlast.1.2
      omega
  | inr hrepeats =>
      obtain ⟨_, _, after, _, _, _, hshort⟩ := hrepeats
      have hle := (hshort bios.last (List.mem_append_right after List.mem_cons_self)).1
      exact absurd (lt_toNat_of_lt_toInt hlen) (Nat.not_lt.mpr hle)

theorem missed_kept_iff : (∀ r ∈ bios.earlier.filter fun r => ¬ r.Skipped, ¬ r.Missed) ↔
    ∀ r ∈ bios.earlier, ¬ r.Missed := by
  constructor
  · intro h r hr hmissed
    have hskipped : ¬ r.Skipped := fun hs => absurd hs.1 (Int.not_lt.mpr hmissed.2)
    exact h r (List.mem_filter.mpr ⟨hr, by simpa using hskipped⟩) hmissed
  · intro h r hr
    exact h r (List.mem_of_mem_filter hr)

/-- With the right signatures the map is complete exactly when nothing is lost with
the last reply. -/
theorem collectsEvery_of_signatures
    (hsignature : ∀ r ∈ bios.replies, r.signature = MemoryMap.magicNumber) :
    CollectsEvery bios ↔ DropsNothing bios := by
  rw [CollectsEvery, if_pos hsignature]
  by_cases hlast : bios.last.Skipped
  · constructor
    · intro h
      obtain ⟨memoryMap, ⟨n, hrun⟩, _⟩ := h
      exact absurd (hrun n (Nat.le_refl n)) (MemoryMap.getLoop_of_skipped hlast hsignature _)
    · intro h
      exact absurd hlast h.not_skipped
  · obtain ⟨map, hrun, hstored⟩ := MemoryMap.get_of_not_skipped hsignature hlast
    have hkept : ∀ r ∈ bios.earlier.filter fun r => ¬ r.Skipped, ¬ r.Skipped := by
      intro r hr
      simpa using (List.mem_filter.mp hr).2
    have hreports := forall₂_reports_iff hstored hkept hlast
    rw [missed_kept_iff, ← filter_toSkip, ← List.filter_append] at hreports
    refine Iff.trans ?_ hreports
    constructor
    · intro h
      obtain ⟨memoryMap, ⟨n, hget⟩, _, hall⟩ := h
      have heq := hget _ (Nat.le_max_left n (bios.earlier.length + 1))
      rw [hrun _ (Nat.le_max_right n _)] at heq
      cases heq
      exact hall
    · intro h
      exact ⟨_, ⟨_, hrun⟩, Nat.le_of_lt (MemoryMap.length_filter_lt _ (List.append_nil _).symm), h⟩

end Main

/-- Every descriptor is kept exactly when nothing is lost with the last reply. -/
theorem collectsEvery_iff (bios : E820Bios) : CollectsEvery bios ↔
    ((∀ r ∈ bios.replies, r.signature = MemoryMap.magicNumber) → DropsNothing bios) := by
  by_cases hsignature : ∀ r ∈ bios.replies, r.signature = MemoryMap.magicNumber
  · rw [collectsEvery_of_signatures hsignature]
    exact ⟨fun h _ => h, fun h => h hsignature⟩
  · have hwrong : ∃ r ∈ bios.replies, r.signature ≠ MemoryMap.magicNumber := by
      simpa using hsignature
    rw [CollectsEvery, if_neg hsignature]
    exact iff_of_true (MemoryMap.get_of_wrong_signature hwrong) fun h => absurd h hsignature

def lowMemory : E820MemoryRegion := ⟨0, 0x9FC00, .normal, 0⟩

def highMemory : E820MemoryRegion := ⟨0x100000, 0x7F00000, .normal, 0⟩

def ignoredLast : E820Bios where
  earlier := [⟨MemoryMap.magicNumber, 1, 20, lowMemory⟩,
    ⟨MemoryMap.magicNumber, 2, 48, ⟨0xA0000, 0x60000, .reserved, 0⟩⟩,
    ⟨MemoryMap.magicNumber, 3, 24, { highMemory with acpiExtendedAttributes := 1 }⟩]
  last := ⟨MemoryMap.magicNumber, 0, 24, highMemory⟩
  continues := by decide
  ends := rfl
  count := by decide

theorem collectsEvery_ignored_last :
    (∀ r ∈ ignoredLast.replies, r.signature = MemoryMap.magicNumber) ∧
      CollectsEvery ignoredLast :=
  ⟨by decide, (collectsEvery_iff ignoredLast).mpr fun _ => .inl (by decide)⟩

def twoRegions : E820Bios where
  earlier := [⟨MemoryMap.magicNumber, 1, 20, lowMemory⟩]
  last := ⟨MemoryMap.magicNumber, 0, 20, highMemory⟩
  continues := by decide
  ends := rfl
  count := by decide

/-- The second region is written but not counted. -/
theorem not_collectsEvery_two_regions :
    (∀ r ∈ twoRegions.replies, r.signature = MemoryMap.magicNumber) ∧
      (∃ map, MemoryMap.get 2 twoRegions = .ok (some (.ok ⟨map, 1⟩))) ∧
      ¬ CollectsEvery twoRegions := by
  have hsignature : ∀ r ∈ twoRegions.replies, r.signature = MemoryMap.magicNumber := by decide
  refine ⟨hsignature, ⟨_, rfl⟩, fun h => ?_⟩
  cases (collectsEvery_of_signatures hsignature).mp h with
  | inl hlast => exact absurd hlast.1 (by decide)
  | inr hrepeats =>
      obtain ⟨before, w, after, hsplit, hmissed, _⟩ := hrepeats
      have hmem : w ∈ twoRegions.earlier.filter fun r => ¬ r.Skipped := by
        rw [hsplit]
        simp
      have hnone : ∀ r ∈ twoRegions.earlier, ¬ r.Missed := by decide
      exact hnone w (List.mem_of_mem_filter hmem) hmissed

end MiniatureOs
