import MiniatureOs.Fat.Directory

/-! # Iterating over the root directory

The directory is a list of slots of 32 bytes. The iterator walks over them and
stops at an end-of-directory slot; at the end of the buffer it has no slot to look
at and panics, and so does a group of long-name slots that is not closed or whose
name has more than 255 characters.
-/

namespace MiniatureOs

/-! ## Slots -/

def slotByte (slot : List UInt8) (i : Nat) : UInt8 := slot[i]?.getD 0

inductive SlotKind where
  | endOfDir
  | deleted
  | longName
  | file
  deriving Repr, DecidableEq

/-- What a slot is on its own, by the first byte of its name and its attributes. -/
def slotKind (slot : List UInt8) : SlotKind :=
  if slotByte slot 0 = 0 then .endOfDir
  else if slotByte slot 0 = 0xe5 then .deleted
  else if slotByte slot 11 = FileAttributes.longFileName then .longName
  else .file

def slotName (slot : List UInt8) : List Char :=
  Utf16.decodeLossy (DirectoryEntry.nameUnits ((slot.drop 1).take 10) ((slot.drop 14).take 12)
    ((slot.drop 28).take 4))

def slotFile (slot : List UInt8) : Nat × Nat :=
  (ofLittleEndian ((slot.drop 20).take 2) <<< 16 ||| ofLittleEndian ((slot.drop 26).take 2),
    ofLittleEndian ((slot.drop 28).take 4))

section Slots

variable {slot : List UInt8}

theorem slotKind_eq_endOfDir : slotKind slot = .endOfDir ↔ slotByte slot 0 = 0 := by
  grind [slotKind]

theorem slotKind_eq_deleted : slotKind slot = .deleted ↔ slotByte slot 0 = 0xe5 := by
  grind [slotKind]

theorem slotKind_eq_longName : slotKind slot = .longName ↔ slotByte slot 0 ≠ 0 ∧
    slotByte slot 0 ≠ 0xe5 ∧ slotByte slot 11 = FileAttributes.longFileName := by
  grind [slotKind]

theorem slotKind_eq_file : slotKind slot = .file ↔ slotByte slot 0 ≠ 0 ∧
    slotByte slot 0 ≠ 0xe5 ∧ slotByte slot 11 ≠ FileAttributes.longFileName := by
  grind [slotKind]

theorem byteAt_slot (hslot : slot.length = 32) (rest : List UInt8) {i : Nat} (hi : i < 32) :
    byteAt (slot ++ rest) i = .ok (slotByte slot i) := by
  have hlt : i < slot.length := by omega
  have hget : (slot ++ rest)[i]? = some slot[i] := by
    rw [List.getElem?_append_left hlt, List.getElem?_eq_getElem hlt]
  simp only [byteAt, hget, slotByte, List.getElem?_eq_getElem hlt, Option.getD_some]

theorem sliceAt_slot (hslot : slot.length = 32) (rest : List UInt8) {i n : Nat}
    (hn : i + n ≤ 32) : sliceAt (slot ++ rest) i n = .ok ((slot.drop i).take n) := by
  have hle : i + n ≤ (slot ++ rest).length := by rw [List.length_append]; omega
  have hdrop : i ≤ slot.length := by omega
  have htake : n ≤ (slot.drop i).length := by rw [List.length_drop]; omega
  rw [sliceAt, if_pos hle, List.drop_append_of_le_length hdrop,
    List.take_append_of_le_length htake]

theorem readFile_slot (hslot : slot.length = 32) (rest : List UInt8) :
    DirectoryEntry.readFile (slot ++ rest) = .ok (slotFile slot) := by
  simp only [DirectoryEntry.readFile, sliceAt_slot hslot rest (show 20 + 2 ≤ 32 by decide),
    sliceAt_slot hslot rest (show 26 + 2 ≤ 32 by decide),
    sliceAt_slot hslot rest (show 28 + 4 ≤ 32 by decide), Checked.ok_bind, Checked.pure_eq_ok,
    slotFile]

end Slots

/-! ## The name of a group -/

theorem nameArray_length {cs : List Char} (h : cs.length ≤ 255) : (nameArray cs).length = 255 := by
  rw [nameArray, List.length_append, List.length_replicate, Nat.add_sub_cancel' h]

theorem nameArray_set {cs : List Char} (h : cs.length < 255) (c : Char) :
    (nameArray cs).set cs.length c = nameArray (cs ++ [c]) := by
  obtain ⟨k, hk⟩ : ∃ k, 255 - cs.length = k + 1 := ⟨255 - cs.length - 1, by omega⟩
  have hrest : 255 - (cs ++ [c]).length = k := by
    rw [List.length_append, List.length_singleton]
    omega
  rw [nameArray, nameArray, hk, hrest, List.replicate_succ,
    List.set_append_right _ _ (Nat.le_refl _), Nat.sub_self, List.set_cons_zero,
    List.append_assoc, List.singleton_append]

/-- Characters go behind those that are there, as far as the array reaches. -/
theorem writeName_nameArray {cs new : List Char} (h : cs.length ≤ 255) :
    DirectoryEntry.writeName new (nameArray cs) cs.length =
      if cs.length + new.length ≤ 255 then
        .ok (nameArray (cs ++ new), cs.length + new.length)
      else .error .outOfBounds := by
  induction new generalizing cs with
  | nil => simp [DirectoryEntry.writeName, h]
  | cons c rest ih =>
      rw [DirectoryEntry.writeName, nameArray_length h]
      by_cases hlt : cs.length < 255
      · have hnext := @ih (cs ++ [c]) (by rw [List.length_append, List.length_singleton]; omega)
        rw [List.length_append, List.length_singleton] at hnext
        rw [if_pos hlt, nameArray_set hlt, hnext, List.append_assoc, List.singleton_append,
          List.length_cons, Nat.add_right_comm cs.length 1, Nat.add_assoc]
      · have hover : ¬ cs.length + (c :: rest).length ≤ 255 := by rw [List.length_cons]; omega
        rw [if_neg hlt, if_neg hover]

namespace DirectoryEntry

section Group

variable {slot : List UInt8} {cs : List Char} {i : Nat}

theorem longNameLoop_long (hslot : slot.length = 32)
    (hattr : slotByte slot 11 = FileAttributes.longFileName) (hcs : cs.length ≤ 255)
    (rest : List (List UInt8)) :
    longNameLoop (slot :: rest) i { filename := nameArray cs } cs.length =
      if cs.length + (slotName slot).length ≤ 255 then
        longNameLoop rest (i + 1) { filename := nameArray (cs ++ slotName slot) }
          (cs ++ slotName slot).length
      else .error .outOfBounds := by
  have hbyte := byteAt_slot hslot [] (show 11 < 32 by decide)
  have hslice := fun {i n : Nat} (h : i + n ≤ 32) => sliceAt_slot hslot [] h
  rw [List.append_nil] at hbyte
  simp only [List.append_nil] at hslice
  have hname : Utf16.decodeLossy (nameUnits ((slot.drop 1).take 10) ((slot.drop 14).take 12)
      ((slot.drop 28).take 4)) = slotName slot := rfl
  simp only [longNameLoop, hbyte, hattr, if_true, hslice (show 1 + 10 ≤ 32 by decide),
    hslice (show 14 + 12 ≤ 32 by decide), hslice (show 28 + 4 ≤ 32 by decide), Checked.ok_bind,
    hname, writeName_nameArray hcs]
  by_cases hfit : cs.length + (slotName slot).length ≤ 255
  · simp only [if_pos hfit, Checked.ok_bind, List.length_append]
  · simp only [if_neg hfit, Checked.error_bind]

theorem longNameLoop_short (hslot : slot.length = 32)
    (hattr : slotByte slot 11 ≠ FileAttributes.longFileName) (rest : List (List UInt8)) :
    longNameLoop (slot :: rest) i { filename := nameArray cs } cs.length =
      .ok (⟨nameArray cs, (slotFile slot).1, slotByte slot 11, (slotFile slot).2⟩,
        (i + 1) * normalEntrySize) := by
  have hbyte := byteAt_slot hslot [] (show 11 < 32 by decide)
  have hfile := readFile_slot hslot []
  rw [List.append_nil] at hbyte hfile
  simp only [longNameLoop, hbyte, hattr, if_false, hfile, Checked.ok_bind, Checked.pure_eq_ok]

theorem longNameLoop_group {run : List (List UInt8)} (hrun : ∀ s ∈ run, s.length = 32)
    (hattr : ∀ s ∈ run, slotByte s 11 = FileAttributes.longFileName) (hslot : slot.length = 32)
    (hshort : slotByte slot 11 ≠ FileAttributes.longFileName) (hcs : cs.length ≤ 255)
    (rest : List (List UInt8)) :
    longNameLoop (run ++ slot :: rest) i { filename := nameArray cs } cs.length =
      if cs.length + (run.flatMap slotName).length ≤ 255 then
        .ok (⟨nameArray (cs ++ run.flatMap slotName), (slotFile slot).1, slotByte slot 11,
          (slotFile slot).2⟩, (i + (run.length + 1)) * normalEntrySize)
      else .error .outOfBounds := by
  induction run generalizing cs i with
  | nil =>
      simp only [List.nil_append, longNameLoop_short hslot hshort, List.flatMap_nil,
        List.append_nil, List.length_nil, Nat.add_zero, if_pos hcs, Nat.zero_add]
  | cons first run ih =>
      rw [List.cons_append, longNameLoop_long (hrun first List.mem_cons_self)
        (hattr first List.mem_cons_self) hcs, List.flatMap_cons, List.length_cons]
      by_cases hfit : cs.length + (slotName first).length ≤ 255
      · have hrest := @ih (cs ++ slotName first) (i + 1)
          (fun s hs => hrun s (List.mem_cons_of_mem _ hs))
          (fun s hs => hattr s (List.mem_cons_of_mem _ hs))
          (by rw [List.length_append]; exact hfit)
        rw [if_pos hfit, hrest, List.length_append, List.length_append, Nat.add_assoc cs.length,
          List.append_assoc, Nat.add_assoc i, Nat.add_comm 1]
      · have hover : ¬ cs.length + (slotName first ++ run.flatMap slotName).length ≤ 255 := by
          rw [List.length_append]
          omega
        rw [if_neg hfit, if_neg hover]

theorem longNameLoop_open {run : List (List UInt8)} (hrun : ∀ s ∈ run, s.length = 32)
    (hattr : ∀ s ∈ run, slotByte s 11 = FileAttributes.longFileName) (hcs : cs.length ≤ 255) :
    (∃ entry, longNameLoop run i { filename := nameArray cs } cs.length = .ok (entry, 0)) ∨
      longNameLoop run i { filename := nameArray cs } cs.length = .error .outOfBounds := by
  induction run generalizing cs i with
  | nil => exact .inl ⟨_, rfl⟩
  | cons first run ih =>
      rw [longNameLoop_long (hrun first List.mem_cons_self) (hattr first List.mem_cons_self) hcs]
      by_cases hfit : cs.length + (slotName first).length ≤ 255
      · rw [if_pos hfit]
        exact ih (fun s hs => hrun s (List.mem_cons_of_mem _ hs))
          (fun s hs => hattr s (List.mem_cons_of_mem _ hs))
          (by rw [List.length_append]; exact hfit)
      · exact .inr (if_neg hfit)

end Group

/-! ## Parsing a slot -/

section Parse

variable {slot : List UInt8} {rest : List (List UInt8)}

theorem parse_endOfDir (hslot : slot.length = 32) (hkind : slotKind slot = .endOfDir) :
    parse (slot :: rest).flatten = .ok (.ok (32, endOfDir)) := by
  have hfirst := slotKind_eq_endOfDir.mp hkind
  simp only [List.flatten_cons, parse, byteAt_slot hslot _ (show 0 < 32 by decide),
    Checked.ok_bind, hfirst, endOfDirectory, if_true, normalEntrySize, Checked.pure_eq_ok]

theorem parse_deleted (hslot : slot.length = 32) (hkind : slotKind slot = .deleted) :
    parse (slot :: rest).flatten = .ok (.ok (32, unused)) := by
  have hfirst := slotKind_eq_deleted.mp hkind
  have hnot : ¬ (0xe5 : UInt8) = endOfDirectory := by decide
  simp only [List.flatten_cons, parse, byteAt_slot hslot _ (show 0 < 32 by decide),
    Checked.ok_bind, hfirst, hnot, if_false, unusedEntry, if_true, normalEntrySize,
    Checked.pure_eq_ok]

def ofSlot (slot : List UInt8) : NormalDirectoryEntry :=
  ⟨((slot.drop 0).take 11).map fun b => Char.ofNat b.toNat, slotByte slot 11, (slotFile slot).1,
    (slotFile slot).2⟩

theorem parse_file (hslot : slot.length = 32) (hkind : slotKind slot = .file) :
    parse (slot :: rest).flatten = .ok (.ok (32, normalDirEntry (ofSlot slot))) := by
  obtain ⟨hend, hdeleted, hattr⟩ := slotKind_eq_file.mp hkind
  simp only [List.flatten_cons, parse, byteAt_slot hslot _ (show 0 < 32 by decide),
    byteAt_slot hslot _ (show 11 < 32 by decide), Checked.ok_bind, endOfDirectory, unusedEntry,
    hend, hdeleted, hattr, if_false, sliceAt_slot hslot _ (show 0 + 11 ≤ 32 by decide),
    readFile_slot hslot, normalEntrySize, Checked.pure_eq_ok, ofSlot]

theorem parse_longName (hslots : ∀ s ∈ slot :: rest, s.length = 32)
    (hkind : slotKind slot = .longName) :
    parse (slot :: rest).flatten = (do
      let (entry, totalSize) ←
        longNameLoop (slot :: rest) 0 { filename := nameArray [] } ([] : List Char).length
      Checked.assert (totalSize ≠ 0) "total_size != 0"
      return .ok (totalSize, longNameDirEntry entry)) := by
  obtain ⟨hend, hdeleted, hattr⟩ := slotKind_eq_longName.mp hkind
  have hslot := hslots slot List.mem_cons_self
  have hchunks : chunks 0x20 (slot ++ rest.flatten) = slot :: rest :=
    chunks_flatten (by decide) hslots
  simp only [List.flatten_cons, parse, byteAt_slot hslot _ (show 0 < 32 by decide),
    byteAt_slot hslot _ (show 11 < 32 by decide), Checked.ok_bind, endOfDirectory, unusedEntry,
    hend, hdeleted, hattr, if_false, if_true, hchunks, List.length_nil]

end Parse

end DirectoryEntry

/-! ## What a directory holds -/

abbrev DirItem := Bool × Nat × Nat × UInt8

def DirectoryEntry.describe : DirectoryEntry → Option DirItem
  | normalDirEntry e => some (false, e.firstClusterNumber, e.sizeInBytes, e.attributes)
  | longNameDirEntry e => some (true, e.firstClusterNumber, e.sizeInBytes, e.attributes)
  | _ => none

/-- One item for each live 8.3 slot up to the first end-of-directory slot or the end
of the buffer, with a long name where a long-name slot stands in front of it. -/
def liveItems : Bool → List (List UInt8) → List DirItem
  | _, [] => []
  | inRun, slot :: rest =>
      match slotKind slot with
      | .endOfDir => []
      | .deleted => liveItems false rest
      | .longName => liveItems true rest
      | .file =>
          (inRun, (slotFile slot).1, (slotFile slot).2, slotByte slot 11) :: liveItems false rest

/-- Every run of long-name slots is immediately followed by an 8.3 slot. -/
def runsClosed : Bool → List (List UInt8) → Bool
  | inRun, [] => !inRun
  | inRun, slot :: rest =>
      match slotKind slot with
      | .endOfDir => !inRun
      | .deleted => !inRun && runsClosed false rest
      | .longName => runsClosed true rest
      | .file => runsClosed false rest

/-- The walk over the slots comes to an end-of-directory slot. Behind a long-name
slot, with the number of characters so far, any slot without the long-name
attributes closes the group, and the name has at most 255 characters. -/
def reachesEnd : Option Nat → List (List UInt8) → Bool
  | _, [] => false
  | none, slot :: rest =>
      match slotKind slot with
      | .endOfDir => true
      | .deleted => reachesEnd none rest
      | .longName => reachesEnd (some (slotName slot).length) rest
      | .file => reachesEnd none rest
  | some n, slot :: rest =>
      if slotByte slot 11 = FileAttributes.longFileName then
        reachesEnd (some (n + (slotName slot).length)) rest
      else n ≤ 255 && reachesEnd none rest

/-! ## Runs of long-name slots -/

section Runs

variable {run rest : List (List UInt8)} {slot : List UInt8} {n : Nat}

theorem reachesEnd_group (hrun : ∀ s ∈ run, slotByte s 11 = FileAttributes.longFileName)
    (hshort : slotByte slot 11 ≠ FileAttributes.longFileName) :
    reachesEnd (some n) (run ++ slot :: rest) =
      (decide (n + (run.flatMap slotName).length ≤ 255) && reachesEnd none rest) := by
  induction run generalizing n with
  | nil => simp [reachesEnd, hshort]
  | cons first run ih =>
      rw [List.cons_append, reachesEnd, if_pos (hrun first List.mem_cons_self),
        ih fun s hs => hrun s (List.mem_cons_of_mem _ hs), List.flatMap_cons, List.length_append,
        Nat.add_assoc]

theorem reachesEnd_open (hrun : ∀ s ∈ run, slotByte s 11 = FileAttributes.longFileName) :
    reachesEnd (some n) run = false := by
  induction run generalizing n with
  | nil => rfl
  | cons first run ih =>
      rw [reachesEnd, if_pos (hrun first List.mem_cons_self),
        ih fun s hs => hrun s (List.mem_cons_of_mem _ hs)]

/-- In a directory with closed runs a group is live long-name slots and a live 8.3
slot. -/
theorem liveItems_group (hrun : ∀ s ∈ run, slotByte s 11 = FileAttributes.longFileName)
    (hshort : slotByte slot 11 ≠ FileAttributes.longFileName)
    (hclosed : runsClosed true (run ++ slot :: rest) = true) :
    liveItems true (run ++ slot :: rest) =
        (true, (slotFile slot).1, (slotFile slot).2, slotByte slot 11) :: liveItems false rest ∧
      runsClosed false rest = true := by
  induction run with
  | nil =>
      rw [List.nil_append] at hclosed ⊢
      cases hkind : slotKind slot with
      | endOfDir => simp [runsClosed, hkind] at hclosed
      | deleted => simp [runsClosed, hkind] at hclosed
      | longName => exact absurd (slotKind_eq_longName.mp hkind).2.2 hshort
      | file =>
          simp only [runsClosed, hkind] at hclosed
          simp only [liveItems, hkind]
          exact ⟨trivial, hclosed⟩
  | cons first run ih =>
      rw [List.cons_append] at hclosed ⊢
      cases hkind : slotKind first with
      | endOfDir => simp [runsClosed, hkind] at hclosed
      | deleted => simp [runsClosed, hkind] at hclosed
      | longName =>
          simp only [runsClosed, hkind] at hclosed
          simp only [liveItems, hkind]
          exact ih (fun s hs => hrun s (List.mem_cons_of_mem _ hs)) hclosed
      | file => exact absurd (hrun first List.mem_cons_self) (slotKind_eq_file.mp hkind).2.2

theorem exists_run (slots : List (List UInt8)) :
    ∃ run, (∀ s ∈ run, slotByte s 11 = FileAttributes.longFileName) ∧
      (slots = run ∨ ∃ slot rest, slots = run ++ slot :: rest ∧
        slotByte slot 11 ≠ FileAttributes.longFileName) := by
  induction slots with
  | nil => exact ⟨[], by simp, .inl rfl⟩
  | cons first rest ih =>
      by_cases hfirst : slotByte first 11 = FileAttributes.longFileName
      · obtain ⟨run, hrun, hslots⟩ := ih
        refine ⟨first :: run, List.forall_mem_cons.mpr ⟨hfirst, hrun⟩, ?_⟩
        cases hslots with
        | inl heq => exact .inl (by rw [heq])
        | inr hclosed =>
            obtain ⟨slot, rest', heq, hshort⟩ := hclosed
            exact .inr ⟨slot, rest', by rw [heq, List.cons_append], hshort⟩
      · exact ⟨[], by simp, .inr ⟨first, rest, rfl, hfirst⟩⟩

end Runs

/-! ## The walk of the iterator -/

theorem chunks_slots {buf : List UInt8} (h : buf.length % 32 = 0) :
    ∀ s ∈ chunks 32 buf, s.length = 32 := by
  induction buf using chunks_induction (show 0 < 32 by decide) with
  | nil => simp
  | last xs hpos hle =>
      intro s hs
      rw [List.mem_singleton.mp hs]
      omega
  | cut piece xs hpiece _ ih =>
      rw [List.length_append, hpiece] at h
      exact List.forall_mem_cons.mpr ⟨hpiece, ih (by omega)⟩

namespace RootDirIter

def between (walked slots : List (List UInt8)) : RootDirIter :=
  ⟨(walked ++ slots).flatten, walked.flatten.length⟩

theorem new_eq_between (buf : List UInt8) : new buf = between [] (chunks 32 buf) := by
  change new buf = new (chunks 32 buf).flatten
  rw [flatten_chunks (by decide)]

section Walk

variable {walked slots : List (List UInt8)}

theorem rest_between : walked.flatten.length ≤ (walked ++ slots).flatten.length ∧
    (walked ++ slots).flatten.drop walked.flatten.length = slots.flatten := by
  rw [List.flatten_append, List.length_append, List.drop_left]
  exact ⟨Nat.le_add_right _ _, rfl⟩

theorem between_append {front : List (List UInt8)} (hfront : ∀ s ∈ front, s.length = 32) :
    { between walked (front ++ slots) with
      offset := walked.flatten.length + front.length * 32 } = between (walked ++ front) slots := by
  have hlength : front.flatten.length = front.length * 32 := by
    induction front with
    | nil => rfl
    | cons s front ih =>
        rw [List.flatten_cons, List.length_append, hfront s List.mem_cons_self,
          ih fun t ht => hfront t (List.mem_cons_of_mem _ ht), List.length_cons, Nat.add_mul]
        omega
  simp only [between, List.append_assoc, List.flatten_append, List.length_append, hlength]

theorem nextEntry_of_parse {front : List (List UInt8)} (hfront : ∀ s ∈ front, s.length = 32)
    {entry : DirectoryEntry} (h : DirectoryEntry.parse (front ++ slots).flatten =
      .ok (.ok (front.length * 32, entry))) :
    (between walked (front ++ slots)).nextEntry =
      .ok (.ok entry, between (walked ++ front) slots) := by
  obtain ⟨hle, hdrop⟩ := @rest_between walked (front ++ slots)
  rw [← between_append hfront]
  simp only [nextEntry, between, hle, if_true, hdrop, h, Checked.ok_bind, Checked.pure_eq_ok]

theorem nextEntry_of_error {panic : Panic}
    (h : DirectoryEntry.parse slots.flatten = .error panic) :
    (between walked slots).nextEntry = .error panic := by
  obtain ⟨hle, hdrop⟩ := @rest_between walked slots
  simp only [nextEntry, between, hle, if_true, hdrop, h, Checked.ok_bind, Checked.error_bind]

theorem next_deleted {front : List (List UInt8)} (hfront : ∀ s ∈ front, s.length = 32)
    (hkind : ∀ s ∈ front, slotKind s = .deleted) (fuel : Nat) :
    next (fuel + front.length) (between walked (front ++ slots)) =
      next fuel (between (walked ++ front) slots) := by
  induction front generalizing walked with
  | nil => rw [List.length_nil, Nat.add_zero, List.nil_append, List.append_nil]
  | cons s front ih =>
      have hs : ∀ t ∈ [s], t.length = 32 := by simpa using hfront s List.mem_cons_self
      have hentry := @nextEntry_of_parse walked (front ++ slots) [s] hs .unused
        (DirectoryEntry.parse_deleted (hfront s List.mem_cons_self) (hkind s List.mem_cons_self))
      rw [List.singleton_append] at hentry
      have hrest := @ih (walked ++ [s]) (fun t ht => hfront t (List.mem_cons_of_mem _ ht))
        (fun t ht => hkind t (List.mem_cons_of_mem _ ht))
      rw [List.length_cons, ← Nat.add_assoc, List.cons_append, next, hentry]
      simp only [Checked.ok_bind]
      rw [hrest, List.append_assoc, List.singleton_append]

theorem exists_deleted (slots : List (List UInt8)) :
    ∃ front rest, slots = front ++ rest ∧ (∀ s ∈ front, slotKind s = .deleted) ∧
      ∀ s, rest.head? = some s → slotKind s ≠ .deleted := by
  induction slots with
  | nil => exact ⟨[], [], rfl, by simp, by simp⟩
  | cons first slots ih =>
      by_cases hkind : slotKind first = .deleted
      · obtain ⟨front, rest, heq, hfront, hrest⟩ := ih
        exact ⟨first :: front, rest, by rw [heq, List.cons_append],
          List.forall_mem_cons.mpr ⟨hkind, hfront⟩, hrest⟩
      · refine ⟨[], first :: slots, rfl, by simp, fun s hs => ?_⟩
        obtain rfl := Option.some.inj hs
        exact hkind

theorem skip_deleted {front rest : List (List UInt8)}
    (hfront : ∀ s ∈ front, slotKind s = .deleted) :
    reachesEnd none (front ++ rest) = reachesEnd none rest ∧
      runsClosed false (front ++ rest) = runsClosed false rest ∧
      liveItems false (front ++ rest) = liveItems false rest := by
  induction front with
  | nil => exact ⟨rfl, rfl, rfl⟩
  | cons s front ih =>
      have hs := hfront s List.mem_cons_self
      simp only [List.cons_append, reachesEnd, runsClosed, liveItems, hs, Bool.not_false,
        Bool.true_and]
      exact ih fun t ht => hfront t (List.mem_cons_of_mem _ ht)

inductive Next (slots : List (List UInt8)) (walked : List (List UInt8)) : Prop
  | stop (h : ∀ fuel, slots.length ≤ fuel →
        ∃ iter, next (fuel + 1) (between walked slots) = .ok (some (none, iter)))
      (hreaches : reachesEnd none slots = true)
      (hitems : liveItems false slots = [])
  | item (front rest : List (List UInt8)) (entry : DirectoryEntry) (heq : slots = front ++ rest)
      (hfront : 0 < front.length)
      (h : ∀ fuel, slots.length ≤ fuel → next (fuel + 1) (between walked slots) =
        .ok (some (some (.ok entry), between (walked ++ front) rest)))
      (hreaches : reachesEnd none slots = reachesEnd none rest)
      (hitems : runsClosed false slots = true → runsClosed false rest = true ∧
        ∃ item, entry.describe = some item ∧ liveItems false slots = item :: liveItems false rest)
  | panic (h : ∀ fuel, slots.length ≤ fuel →
        ∃ panic, next (fuel + 1) (between walked slots) = .error panic)
      (hreaches : reachesEnd none slots = false)

theorem next_of_entry {fuel : Nat} {iter iter' : RootDirIter} {entry : DirectoryEntry}
    {item : DirItem} (h : iter.nextEntry = .ok (.ok entry, iter'))
    (hdescribe : entry.describe = some item) :
    next (fuel + 1) iter = .ok (some (some (.ok entry), iter')) := by
  cases entry with
  | unused => cases hdescribe
  | endOfDir => cases hdescribe
  | normalDirEntry e => simp only [next, h, Checked.ok_bind, Checked.pure_eq_ok]
  | longNameDirEntry e => simp only [next, h, Checked.ok_bind, Checked.pure_eq_ok]

theorem next_of_error {fuel : Nat} {iter : RootDirIter} {panic : Panic}
    (h : iter.nextEntry = .error panic) : next (fuel + 1) iter = .error panic := by
  simp only [next, h, Checked.error_bind]

/-- The search at an entry stops there or goes on behind it. -/
theorem find_of_parse {p : DirectoryEntry → Bool} {front : List (List UInt8)}
    (hfront : ∀ s ∈ front, s.length = 32) {entry : DirectoryEntry} {item : DirItem}
    (hparse : DirectoryEntry.parse (front ++ slots).flatten =
      .ok (.ok (front.length * 32, entry))) (hdescribe : entry.describe = some item) (fuel : Nat) :
    find p (fuel + 1) (between walked (front ++ slots)) =
      if p entry then .ok (some (some entry))
      else find p fuel (between (walked ++ front) slots) := by
  have hentry := @nextEntry_of_parse walked slots front hfront entry hparse
  simp only [find, next_of_entry hentry hdescribe, Checked.ok_bind, Checked.pure_eq_ok]

/-- The search goes through the items of the iteration. -/
theorem find_of_items {p : DirectoryEntry → Bool} {fuel : Nat} {iter : RootDirIter}
    {found : List (Except FatError DirectoryEntry)} (h : items fuel iter = .ok (some found)) :
    find p fuel iter = .ok (some ((found.filterMap Except.toOption).find? p)) := by
  induction fuel generalizing iter found with
  | zero => cases h
  | succ fuel ih =>
      obtain ⟨step, hnext, h⟩ := Checked.bind_eq_ok.mp h
      simp only [find, hnext, Checked.ok_bind]
      rcases step with _ | ⟨_ | item, iter'⟩
      · cases h
      · cases h
        rfl
      · obtain ⟨rest, hrest, h⟩ := Checked.bind_eq_ok.mp h
        cases rest with
        | none => cases h
        | some rest =>
            cases h
            cases item with
            | error e => simpa only [List.filterMap_cons, Except.toOption] using ih hrest
            | ok entry =>
                simp only [ih hrest, List.filterMap_cons, Except.toOption, List.find?_cons]
                cases p entry <;> rfl

theorem next_longName_open {slot : List UInt8} {run : List (List UInt8)}
    (hslots : ∀ s ∈ slot :: run, s.length = 32) (hkind : slotKind slot = .longName)
    (hrun : ∀ s ∈ run, slotByte s 11 = FileAttributes.longFileName) :
    Next (slot :: run) walked := by
  have hlong := (slotKind_eq_longName.mp hkind).2.2
  have hparse := DirectoryEntry.parse_longName hslots hkind
  refine .panic (fun fuel _ => ?_) (by rw [reachesEnd, hkind, reachesEnd_open hrun])
  cases @DirectoryEntry.longNameLoop_open [] 0 _ hslots (List.forall_mem_cons.mpr ⟨hlong, hrun⟩)
      (Nat.zero_le 255) with
  | inl hzero =>
      obtain ⟨entry, hloop⟩ := hzero
      rw [hloop] at hparse
      exact ⟨_, next_of_error (nextEntry_of_error hparse)⟩
  | inr hfull =>
      rw [hfull] at hparse
      exact ⟨_, next_of_error (nextEntry_of_error hparse)⟩

theorem next_longName_group {slot short : List UInt8} {run rest : List (List UInt8)}
    (hslots : ∀ s ∈ slot :: (run ++ short :: rest), s.length = 32)
    (hkind : slotKind slot = .longName)
    (hrun : ∀ s ∈ run, slotByte s 11 = FileAttributes.longFileName)
    (hshort : slotByte short 11 ≠ FileAttributes.longFileName) :
    Next (slot :: (run ++ short :: rest)) walked := by
  have hlong := (slotKind_eq_longName.mp hkind).2.2
  have hparse := DirectoryEntry.parse_longName hslots hkind
  have hfront : ∀ s ∈ slot :: run ++ [short], s.length = 32 := by
    intro s hs
    apply hslots s
    simp only [List.mem_append, List.mem_cons, List.cons_append] at hs ⊢
    tauto
  have hgroup := @DirectoryEntry.longNameLoop_group short [] 0 (slot :: run)
    (fun s hs => hfront s (List.mem_append_left _ hs)) (List.forall_mem_cons.mpr ⟨hlong, hrun⟩)
    (hfront short (by simp)) hshort (Nat.zero_le 255) rest
  have hsplit : slot :: (run ++ short :: rest) = (slot :: run ++ [short]) ++ rest := by simp
  have hreaches : reachesEnd none (slot :: (run ++ short :: rest)) =
      (decide (((slot :: run).flatMap slotName).length ≤ 255) && reachesEnd none rest) := by
    rw [reachesEnd, hkind]
    simp only [reachesEnd_group hrun hshort, List.flatMap_cons, List.length_append]
  rw [← List.cons_append, hgroup] at hparse
  simp only [List.length_nil, Nat.zero_add] at hparse
  by_cases hfit : ((slot :: run).flatMap slotName).length ≤ 255
  · simp only [if_pos hfit, Checked.ok_bind] at hparse
    have hsize : ((slot :: run).length + 1) * DirectoryEntry.normalEntrySize =
        (slot :: run ++ [short]).length * 32 := by
      rw [List.length_append, List.length_singleton]
      rfl
    rw [hsize, Checked.assert, if_pos (by simp)] at hparse
    simp only [Checked.ok_bind, Checked.pure_eq_ok, List.cons_append] at hparse
    rw [hsplit] at hparse
    refine .item (slot :: run ++ [short]) rest
      (.longNameDirEntry ⟨nameArray ([] ++ (slot :: run).flatMap slotName), (slotFile short).1,
        slotByte short 11, (slotFile short).2⟩) hsplit (by simp) (fun fuel _ => ?_) ?_ ?_
    · rw [hsplit]
      exact next_of_entry (nextEntry_of_parse hfront hparse) rfl
    · rw [hreaches, decide_eq_true hfit, Bool.true_and]
    · intro hruns
      rw [runsClosed, hkind] at hruns
      obtain ⟨hitems, hrestClosed⟩ := liveItems_group hrun hshort hruns
      refine ⟨hrestClosed, _, rfl, ?_⟩
      rw [liveItems, hkind]
      exact hitems
  · rw [if_neg hfit] at hparse
    refine .panic (fun fuel _ => ⟨_, next_of_error (nextEntry_of_error hparse)⟩) ?_
    rw [hreaches, decide_eq_false hfit, Bool.false_and]

theorem next_longName {slot : List UInt8} {rest : List (List UInt8)}
    (hslots : ∀ s ∈ slot :: rest, s.length = 32) (hkind : slotKind slot = .longName) :
    Next (slot :: rest) walked := by
  obtain ⟨run, hrun, hrest⟩ := exists_run rest
  cases hrest with
  | inl hopen =>
      rw [hopen] at hslots ⊢
      exact next_longName_open hslots hkind hrun
  | inr hclosed =>
      obtain ⟨short, rest', hsplit, hshort⟩ := hclosed
      rw [hsplit] at hslots ⊢
      exact next_longName_group hslots hkind hrun hshort

theorem next_live (hslots : ∀ s ∈ slots, s.length = 32)
    (hhead : ∀ s, slots.head? = some s → slotKind s ≠ .deleted) : Next slots walked := by
  cases slots with
  | nil => exact .panic (fun fuel _ => ⟨_, next_of_error (nextEntry_of_error rfl)⟩) rfl
  | cons slot rest =>
      have hslot := hslots slot List.mem_cons_self
      have hone : ∀ s ∈ [slot], s.length = 32 := by simpa using hslot
      cases hkind : slotKind slot with
      | endOfDir =>
          refine .stop (fun fuel _ => ⟨between (walked ++ [slot]) rest, ?_⟩) ?_ ?_
          · have hentry := @nextEntry_of_parse walked rest [slot] hone .endOfDir
              (DirectoryEntry.parse_endOfDir hslot hkind)
            rw [List.singleton_append] at hentry
            simp only [next, hentry, Checked.ok_bind, Checked.pure_eq_ok]
          · rw [reachesEnd, hkind]
          · rw [liveItems, hkind]
      | deleted => exact absurd hkind (hhead slot rfl)
      | longName => exact next_longName hslots hkind
      | file =>
          have hentry := @nextEntry_of_parse walked rest [slot] hone _
            (DirectoryEntry.parse_file hslot hkind)
          refine .item [slot] rest _ rfl (by simp) (fun fuel _ => next_of_entry hentry rfl) ?_ ?_
          · rw [reachesEnd, hkind]
          · intro hruns
            rw [runsClosed, hkind] at hruns
            refine ⟨hruns, _, rfl, ?_⟩
            rw [liveItems, hkind]
            rfl

theorem next_cases (hslots : ∀ s ∈ slots, s.length = 32) : Next slots walked := by
  obtain ⟨front, rest, rfl, hfront, hhead⟩ := exists_deleted slots
  obtain ⟨hreaches, hruns, hitems⟩ := @skip_deleted front rest hfront
  have hskip : ∀ fuel, (front ++ rest).length ≤ fuel →
      next (fuel + 1) (between walked (front ++ rest)) =
        next (fuel - front.length + 1) (between (walked ++ front) rest) := by
    intro fuel hfuel
    rw [List.length_append] at hfuel
    have hdeleted := @next_deleted walked rest front
      (fun s hs => hslots s (List.mem_append_left _ hs)) hfront (fuel - front.length + 1)
    rw [← hdeleted]
    congr 1
    omega
  have hle : ∀ fuel, (front ++ rest).length ≤ fuel → rest.length ≤ fuel - front.length := by
    intro fuel hfuel
    rw [List.length_append] at hfuel
    omega
  have hlive := @next_live (walked ++ front) rest
    (fun s hs => hslots s (List.mem_append_right _ hs)) hhead
  cases hlive with
  | stop h hr hi =>
      refine .stop (fun fuel hfuel => ?_) (hreaches.trans hr) (hitems.trans hi)
      rw [hskip fuel hfuel]
      exact h _ (hle fuel hfuel)
  | item front' rest' entry heq hpos h hr hi =>
      refine .item (front ++ front') rest' entry (by rw [heq, List.append_assoc])
        (by rw [List.length_append]; omega) (fun fuel hfuel => ?_) (hreaches.trans hr) ?_
      · rw [hskip fuel hfuel, h _ (hle fuel hfuel), List.append_assoc]
      · intro hclosed
        rw [hitems]
        exact hi (hruns ▸ hclosed)
  | panic h hr =>
      refine .panic (fun fuel hfuel => ?_) (hreaches.trans hr)
      rw [hskip fuel hfuel]
      exact h _ (hle fuel hfuel)

/-- A walk that reaches an end-of-directory slot yields the live items. -/
theorem items_of_reachesEnd (hslots : ∀ s ∈ slots, s.length = 32)
    (hreaches : reachesEnd none slots = true) :
    ∃ found, (∀ fuel, slots.length ≤ fuel →
        items (fuel + 1) (between walked slots) = .ok (some found)) ∧
      (runsClosed false slots = true → ∃ entries : List DirectoryEntry,
        found = entries.map .ok ∧ entries.map (·.describe) = (liveItems false slots).map some) := by
  induction hlength : slots.length using Nat.strongRecOn generalizing slots walked with
  | ind length ih =>
      cases @next_cases walked slots hslots with
      | stop h _ hitems =>
          refine ⟨[], fun fuel hfuel => ?_, fun _ => ⟨[], rfl, by rw [hitems]; rfl⟩⟩
          obtain ⟨iter, hnext⟩ := h fuel (hlength ▸ hfuel)
          simp only [items, hnext, Checked.ok_bind, Checked.pure_eq_ok]
      | item front rest entry heq hpos h hr hitems =>
          have hshorter : rest.length < length := by
            rw [← hlength, heq, List.length_append]
            omega
          obtain ⟨found, hrun, hfound⟩ := @ih rest.length hshorter (walked ++ front) rest
            (fun s hs => hslots s (heq ▸ List.mem_append_right _ hs)) (hr ▸ hreaches) rfl
          refine ⟨.ok entry :: found, fun fuel hfuel => ?_, fun hclosed => ?_⟩
          · obtain ⟨fuel, rfl⟩ : ∃ k, fuel = k + 1 := ⟨fuel - 1, by omega⟩
            rw [items, h (fuel + 1) (hlength ▸ hfuel)]
            simp only [Checked.ok_bind, hrun fuel (by omega), Checked.pure_eq_ok]
          · obtain ⟨hrest, item, hdescribe, hlive⟩ := hitems hclosed
            obtain ⟨entries, rfl, hentries⟩ := hfound hrest
            refine ⟨entry :: entries, rfl, ?_⟩
            rw [List.map_cons, hdescribe, hentries, hlive, List.map_cons]
      | panic _ hr => rw [hreaches] at hr; cases hr

/-- Any other walk panics. -/
theorem items_of_not_reachesEnd (hslots : ∀ s ∈ slots, s.length = 32)
    (hreaches : reachesEnd none slots = false) {fuel : Nat} (hfuel : slots.length ≤ fuel) :
    ∃ panic, items (fuel + 1) (between walked slots) = .error panic := by
  induction hlength : slots.length using Nat.strongRecOn generalizing slots walked fuel with
  | ind length ih =>
      cases @next_cases walked slots hslots with
      | stop _ hr _ => rw [hreaches] at hr; cases hr
      | item front rest entry heq hpos h hr _ =>
          have hshorter : rest.length < length := by
            rw [← hlength, heq, List.length_append]
            omega
          obtain ⟨fuel, rfl⟩ : ∃ k, fuel = k + 1 := ⟨fuel - 1, by omega⟩
          obtain ⟨panic, hpanic⟩ := @ih rest.length hshorter (walked ++ front) rest
            (fun s hs => hslots s (heq ▸ List.mem_append_right _ hs)) (hr ▸ hreaches) fuel
            (by omega) rfl
          refine ⟨panic, ?_⟩
          rw [items, h (fuel + 1) hfuel]
          simp only [Checked.ok_bind, hpanic, Checked.error_bind]
      | panic h _ =>
          obtain ⟨panic, hpanic⟩ := h fuel hfuel
          exact ⟨panic, by simp only [items, hpanic, Checked.error_bind]⟩

theorem items_new_of_reachesEnd {buf : List UInt8} (hlength : buf.length % 32 = 0)
    (hreaches : reachesEnd none (chunks 32 buf) = true) :
    ∃ found, (∀ fuel, (chunks 32 buf).length ≤ fuel →
        items (fuel + 1) (new buf) = .ok (some found)) ∧
      (runsClosed false (chunks 32 buf) = true → ∃ entries : List DirectoryEntry,
        found = entries.map .ok ∧
          entries.map (·.describe) = (liveItems false (chunks 32 buf)).map some) := by
  rw [new_eq_between]
  exact items_of_reachesEnd (chunks_slots hlength) hreaches

end Walk

end RootDirIter

/-! ## The whole directory -/

/-- The iteration over the buffer ends without a panic, and when the runs of
long-name slots are closed it yields the live items, in order, up to the first
end-of-directory slot or the end of the buffer. -/
def IteratesCorrectly (buf : List UInt8) : Prop :=
  ∃ found n, (∀ fuel, n ≤ fuel → RootDirIter.items fuel (RootDirIter.new buf) = .ok (some found)) ∧
    (runsClosed false (chunks 32 buf) = true → ∃ entries : List DirectoryEntry,
      found = entries.map .ok ∧
        entries.map (·.describe) = (liveItems false (chunks 32 buf)).map some)

/-- The iteration is right exactly when the walk over the slots comes to an
end-of-directory slot: a full directory without one makes it panic. -/
theorem iteratesCorrectly_iff (buf : List UInt8) (hlength : buf.length % 32 = 0) :
    IteratesCorrectly buf ↔ reachesEnd none (chunks 32 buf) = true := by
  constructor
  · intro h
    obtain ⟨found, n, hrun, _⟩ := h
    by_contra hnot
    obtain ⟨panic, hpanic⟩ := @RootDirIter.items_of_not_reachesEnd [] _ (chunks_slots hlength)
      (Bool.eq_false_iff.mpr hnot) _ (Nat.le_max_left (chunks 32 buf).length n)
    rw [← RootDirIter.new_eq_between, hrun _ (by omega)] at hpanic
    cases hpanic
  · intro hreaches
    obtain ⟨found, hrun, hfound⟩ := RootDirIter.items_new_of_reachesEnd hlength hreaches
    refine ⟨found, (chunks 32 buf).length + 1, fun fuel hfuel => ?_, hfound⟩
    obtain ⟨fuel, rfl⟩ : ∃ k, fuel = k + 1 := ⟨fuel - 1, by omega⟩
    exact hrun fuel (by omega)

/-- The slot of the file `STAGE3`, of 12000 bytes from cluster 2 on. -/
def stageSlot : List UInt8 :=
  [0x53, 0x54, 0x41, 0x47, 0x45, 0x33, 0x20, 0x20, 0x20, 0x20, 0x20, 0x20] ++
    List.replicate 14 0 ++ [2, 0, 0xE0, 0x2E, 0, 0]

def deletedSlot : List UInt8 := 0xE5 :: stageSlot.drop 1

/-- The only piece of the long name `kernel`. -/
def kernelNameSlot : List UInt8 :=
  [0x41, 0x6B, 0, 0x65, 0, 0x72, 0, 0x6E, 0, 0x65, 0, 0x0F, 0, 0x5A, 0x6C, 0, 0, 0] ++
    List.replicate 8 0xFF ++ [0, 0, 0xFF, 0xFF, 0xFF, 0xFF]

/-- A short name, a deleted file, a file with a long name, and a slot behind the end. -/
def mixedDirectory : List UInt8 :=
  stageSlot ++ deletedSlot ++ kernelNameSlot ++ stageSlot ++ List.replicate 32 0 ++ stageSlot

theorem iteratesCorrectly_mixedDirectory : IteratesCorrectly mixedDirectory :=
  (iteratesCorrectly_iff mixedDirectory (by decide +kernel)).mpr (by decide +kernel)

/-- A full directory: behind its last slot the iterator indexes an empty slice. -/
theorem not_iteratesCorrectly_full :
    RootDirIter.items 2 (RootDirIter.new stageSlot) = .error .outOfBounds ∧
      ¬ IteratesCorrectly stageSlot := by
  have hslots := @chunks_slots stageSlot (by decide)
  refine ⟨rfl, fun h => ?_⟩
  obtain ⟨found, n, hrun, _⟩ := h
  obtain ⟨panic, hpanic⟩ := @RootDirIter.items_of_not_reachesEnd [] _ hslots
    (by decide) _ (Nat.le_max_left (chunks 32 stageSlot).length n)
  rw [← RootDirIter.new_eq_between, hrun _ (by omega)] at hpanic
  cases hpanic

end MiniatureOs
