import MiniatureOs.Paging.Refinement

/-! # What `unmap` returns

`unmap` clears the entry of a page before it reads the frame for its result, and it
unwraps the tables above the entry. In every state that a run of `map_to` and `unmap`
reaches, it therefore returns the frame at address zero for a mapped page, and panics for
a page that is not mapped where a table on the way is missing.
-/

namespace MiniatureOs

open PageTableFrameMapping MappedPageTable

variable {P A : Type} [PageTableFrameMapping P] [FrameAllocator A]
  {sizes : Nat → PageSize} {table : MappedPageTable P}
  {tables used : PhysicalFrame .size4KiB → Prop} {m : ByteMemory} {s : Machine A}
  {S : PageSize} {page : Page S}

/-! ## The three cases -/

theorem WellFormed.unmap_of_absent (h : WellFormed sizes table tables m) (hpage : page.Fits sizes)
    {t : Nat} (ht : table.tableAt m page.tablePath = some t)
    (habsent : PageTableEntry.isPresent (table.pageEntry m page) = false) :
    table.unmap page m = .ok (.error .pageNotMapped, m) := by
  have hpath : Interior sizes ([] ++ page.tablePath) := hpage.interior_tablePath
  rw [pageEntry_eq ht] at habsent
  rw [MappedPageTable.unmap, h.getPagetables_eq hpath rfl, List.nil_append, ht]
  simp only [Checked.ok_bind, Checked.unwrap, PageTableEntry.contains_present_flags, habsent,
    Bool.not_false, if_true, Checked.pure_eq_ok]

theorem WellFormed.unmap_of_missing (h : WellFormed sizes table tables m)
    (hpage : page.Fits sizes) (ht : table.tableAt m page.tablePath = none) :
    table.unmap page m = .error .unwrapNone := by
  have hpath : Interior sizes ([] ++ page.tablePath) := hpage.interior_tablePath
  rw [MappedPageTable.unmap, h.getPagetables_eq hpath rfl, List.nil_append, ht]
  rfl

/-- A call that returns clears the entry of the page or changes nothing. -/
theorem Separate.unmap_spec (h : Separate sizes table tables used s) (hpage : page.Fits sizes)
    {result : Except UnmappingError (PhysicalFrame S × TlbFlusher S)} {memory : ByteMemory}
    (call : table.unmap page s.memory = .ok (result, memory)) :
    memory = s.memory ∨ Extends sizes table tables used tables used s { s with memory } ∧
      UpdatesPage sizes table page PageTableEntry.unused s.memory memory := by
  cases hpresent : PageTableEntry.isPresent (table.pageEntry s.memory page) with
  | true =>
      obtain ⟨t, ht, hunmap⟩ := h.toWellFormed.unmap_eq hpage hpresent
      rw [hunmap, Except.ok.injEq, Prod.mk.injEq] at call
      rw [← call.2]
      exact .inr ⟨Extends.writeEntry h hpage ht _, (h.toWellFormed.writeEntry hpage ht _).2⟩
  | false =>
      cases ht : table.tableAt s.memory page.tablePath with
      | none =>
          rw [h.toWellFormed.unmap_of_missing hpage ht] at call
          cases call
      | some t =>
          rw [h.toWellFormed.unmap_of_absent hpage ht hpresent, Except.ok.injEq,
            Prod.mk.injEq] at call
          exact .inl call.2.symm

theorem Separate.of_unmap (h : Separate sizes table tables used s) (hpage : page.Fits sizes)
    {result : Except UnmappingError (PhysicalFrame S × TlbFlusher S)} {memory : ByteMemory}
    (call : table.unmap page s.memory = .ok (result, memory)) :
    Separate sizes table tables used { s with memory } := by
  cases h.unmap_spec hpage call with
  | inl hsame =>
      rw [hsame]
      exact h
  | inr hcleared => exact hcleared.1.separate

/-! ## Runs -/

/-- The states that `map_to` and `unmap` reach when every slot of 2 MiB is used with one
page size. -/
inductive MappedPageTable.Runs (sizes : Nat → PageSize) (table : MappedPageTable P)
    (start : Machine A) : Machine A → Prop
  | start : Runs sizes table start start
  | mapTo {s s' : Machine A} {S : PageSize} {frame : PhysicalFrame S} {page : Page S}
      {flags : PageTableEntryFlags} {result : Except MappingError (TlbFlusher S)}
      (before : Runs sizes table start s) (fits : page.Fits sizes)
      (call : table.mapTo frame page flags s = .ok (result, s')) :
      Runs sizes table start s'
  | unmap {s : Machine A} {S : PageSize} {page : Page S} {memory : ByteMemory}
      {result : Except UnmappingError (PhysicalFrame S × TlbFlusher S)}
      (before : Runs sizes table start s) (fits : page.Fits sizes)
      (call : table.unmap page s.memory = .ok (result, memory)) :
      Runs sizes table start { s with memory }

theorem MappedPageTable.Runs.separate {start : Machine A} (hinj : InjectiveMapping table.mapping)
    (hstart : Fresh table start) (hrun : Runs sizes table start s) :
    ∃ tables used, Separate sizes table tables used s := by
  induction hrun with
  | start => exact ⟨_, _, hstart.separate⟩
  | mapTo _ fits call ih =>
      obtain ⟨tables, used, h⟩ := ih
      obtain ⟨tables', used', hextends, -⟩ := h.mapTo_spec hinj fits call
      exact ⟨tables', used', hextends.separate⟩
  | unmap _ fits call ih =>
      obtain ⟨tables, used, h⟩ := ih
      exact ⟨tables, used, h.of_unmap fits call⟩

/-! ## The result -/

/-- A mapped page is unmapped with the frame it was mapped to, and a page that is not
mapped is reported and nothing changes. -/
structure UnmapsCleanly (table : MappedPageTable P) (page : Page S) (m : ByteMemory) : Prop where
  mapped : ∀ frame flags, table.translate page m = .ok (.ok (frame, flags)) →
    ∃ flusher memory, table.unmap page m = .ok (.ok (frame, flusher), memory)
  notMapped : table.translate page m = .ok (.error .notMapped) →
    table.unmap page m = .ok (.error .pageNotMapped, m)

/-- The page is mapped to the frame at address zero, or it is not mapped and the tables
above its entry exist. -/
def UnmapCondition (table : MappedPageTable P) (page : Page S) (m : ByteMemory) : Prop :=
  (∃ frame flags, table.translate page m = .ok (.ok (frame, flags)) ∧ frame.address = 0) ∨
    table.translate page m = .ok (.error .notMapped) ∧
      ∃ t, table.tableAt m page.tablePath = some t

theorem decode_of_present {entry : PageTableEntry}
    (h : PageTableEntry.isPresent entry = true) :
    decode S entry =
      .ok (.containingAddress S (PageTableEntry.address entry), PageTableEntry.flags entry) :=
  if_pos h

theorem decode_of_absent {entry : PageTableEntry}
    (h : PageTableEntry.isPresent entry = false) : decode S entry = .error .notMapped := by
  unfold decode
  rw [h]
  rfl

/-- A mapped page: the frame at zero is returned, whatever the page was mapped to. -/
theorem WellFormed.unmapsCleanly_of_present (h : WellFormed sizes table tables m)
    (hpage : page.Fits sizes)
    (hpresent : PageTableEntry.isPresent (table.pageEntry m page) = true) :
    UnmapsCleanly table page m ↔ UnmapCondition table page m := by
  obtain ⟨t, ht, hunmap⟩ := h.unmap_eq hpage hpresent
  have htranslate := h.translate_eq hpage
  rw [decode_of_present hpresent] at htranslate
  constructor
  · intro hclean
    obtain ⟨flusher, memory, hcall⟩ := hclean.mapped _ _ htranslate
    rw [hunmap] at hcall
    simp only [Except.ok.injEq, Prod.mk.injEq] at hcall
    have haddress := congrArg PhysicalFrame.address hcall.1.1
    refine .inl ⟨_, _, htranslate, haddress.symm.trans ?_⟩
    rw [PhysicalFrame.containingAddress_address]
    exact Nat.le_zero.mp (alignDown_le 0 S.size)
  · intro hcondition
    rcases hcondition with ⟨frame, flags, hmapped, hzero⟩ | ⟨hnot, _⟩
    · constructor
      · intro frame' flags' hmapped'
        rw [hmapped] at hmapped'
        simp only [Except.ok.injEq, Prod.mk.injEq] at hmapped'
        have hself := frame.containingAddress_self
        rw [hzero, hmapped'.1] at hself
        rw [hself] at hunmap
        exact ⟨_, _, hunmap⟩
      · intro hnot
        rw [htranslate] at hnot
        cases hnot
    · rw [htranslate] at hnot
      cases hnot

/-- A page that is not mapped: the call reports it when it finds the tables, and panics
otherwise. -/
theorem WellFormed.unmapsCleanly_of_absent (h : WellFormed sizes table tables m)
    (hpage : page.Fits sizes)
    (habsent : PageTableEntry.isPresent (table.pageEntry m page) = false) :
    UnmapsCleanly table page m ↔ UnmapCondition table page m := by
  have htranslate := h.translate_eq hpage
  rw [decode_of_absent habsent] at htranslate
  constructor
  · intro hclean
    have hcall := hclean.notMapped htranslate
    refine .inr ⟨htranslate, ?_⟩
    cases ht : table.tableAt m page.tablePath with
    | none =>
        rw [h.unmap_of_missing hpage ht] at hcall
        cases hcall
    | some t => exact ⟨t, rfl⟩
  · intro hcondition
    rcases hcondition with ⟨frame, flags, hmapped, _⟩ | ⟨_, t, ht⟩
    · rw [htranslate] at hmapped
      cases hmapped
    · refine ⟨fun frame flags hmapped => ?_, fun _ => h.unmap_of_absent hpage ht habsent⟩
      rw [htranslate] at hmapped
      cases hmapped

/-- In every state of a run from an empty table, `unmap` does what it should exactly for the
pages mapped to the frame at zero and the unmapped pages whose tables exist. -/
theorem unmapsCleanly_iff (sizes : Nat → PageSize) (table : MappedPageTable P)
    (start s : Machine A) {S : PageSize} (page : Page S) (hinj : InjectiveMapping table.mapping)
    (hstart : Fresh table start) (hrun : Runs sizes table start s) (hpage : page.Fits sizes) :
    UnmapsCleanly table page s.memory ↔ UnmapCondition table page s.memory := by
  obtain ⟨tables, used, h⟩ := hrun.separate hinj hstart
  cases hpresent : PageTableEntry.isPresent (table.pageEntry s.memory page) with
  | true => exact h.toWellFormed.unmapsCleanly_of_present hpage hpresent
  | false => exact h.toWellFormed.unmapsCleanly_of_absent hpage hpresent

/-! ## Two pages -/

theorem exists_mapTo_lowMachine (frame : PhysicalFrame .size4KiB)
    (hcall : (lowTable.mapTo frame (.containingAddress .size4KiB 0xffffffff80000000) .present
      lowMachine).toOption.map (·.1) =
        some (.ok ⟨.containingAddress .size4KiB 0xffffffff80000000⟩))
    (hlt : frame.address < 2 ^ 48) :
    ∃ s, Runs (fun _ => .size4KiB) lowTable lowMachine s ∧
      lowTable.translate (.containingAddress .size4KiB 0xffffffff80000000) s.memory =
        .ok (.ok (frame, .present)) := by
  obtain ⟨⟨result, s⟩, hrun, rfl⟩ := Checked.exists_of_toOption hcall
  have hacts : ActsAsMap (fun _ => .size4KiB) lowTable lowMachine :=
    fresh_lowMachine.separate.actsAsMap (PhysicalOffset.injectiveMapping _)
  exact ⟨s, .mapTo .start rfl hrun,
    (hacts.mapTo_ok (by decide) rfl hlt (by decide) hrun).1⟩

theorem unmapsCleanly_page_at_zero :
    ∃ s, Runs (fun _ => .size4KiB) lowTable lowMachine s ∧
      UnmapsCleanly lowTable (.containingAddress .size4KiB 0xffffffff80000000) s.memory := by
  obtain ⟨s, hrun, hmapped⟩ :=
    exists_mapTo_lowMachine (.containingAddress .size4KiB 0) (by decide +kernel) (by decide)
  exact ⟨s, hrun, (unmapsCleanly_iff _ lowTable lowMachine s _
    (PhysicalOffset.injectiveMapping _) fresh_lowMachine hrun rfl).mpr
      (.inl ⟨_, _, hmapped, by decide⟩)⟩

/-- A page mapped to the frame at 2 MiB is unmapped with another frame, and the same page of
the empty table cannot be unmapped without a panic. -/
theorem not_unmapsCleanly_page_at_2MiB :
    (∃ s, Runs (fun _ => .size4KiB) lowTable lowMachine s ∧
      lowTable.translate (.containingAddress .size4KiB 0xffffffff80000000) s.memory =
        .ok (.ok (.containingAddress .size4KiB 0x200000, .present)) ∧
      ¬ UnmapsCleanly lowTable (.containingAddress .size4KiB 0xffffffff80000000) s.memory) ∧
    lowTable.unmap (.containingAddress .size4KiB 0xffffffff80000000) lowMachine.memory =
      .error .unwrapNone := by
  constructor
  · obtain ⟨s, hrun, hmapped⟩ := exists_mapTo_lowMachine
      (.containingAddress .size4KiB 0x200000) (by decide +kernel) (by decide)
    refine ⟨s, hrun, hmapped, fun hclean => ?_⟩
    obtain ⟨tables, used, h⟩ := hrun.separate (PhysicalOffset.injectiveMapping _) fresh_lowMachine
    have hpresent : PageTableEntry.isPresent (lowTable.pageEntry s.memory
        (Page.containingAddress .size4KiB 0xffffffff80000000)) = true :=
      h.present_of_translate rfl hmapped
    rcases (h.toWellFormed.unmapsCleanly_of_present rfl hpresent).mp hclean with
      ⟨frame, flags, hframe, hzero⟩ | ⟨hnot, _⟩
    · rw [hmapped] at hframe
      simp only [Except.ok.injEq, Prod.mk.injEq] at hframe
      rw [← hframe.1] at hzero
      exact absurd hzero (by decide)
    · rw [hmapped] at hnot
      cases hnot
  · have hwell : WellFormed (fun _ => .size4KiB) lowTable _ lowMachine.memory :=
      fresh_lowMachine.separate.toWellFormed
    exact hwell.unmap_of_missing rfl (by decide +kernel)

end MiniatureOs
