import MiniatureOs.Interrupts.Delivery
import Mathlib.Data.Fintype.Basic
import Mathlib.Logic.Relation

/-! # The interrupt controllers

`kernel/src/interrupts/hardware/pic8259.rs`, and the two controllers that it drives. A
controller latches the requests of its lines, and asks for an interrupt when the first of
those that are not masked comes before everything in service. The slave asks on line 2 of
the master. Requests stay in service until the handler notifies the controllers.
-/

namespace MiniatureOs

/-! ## One controller -/

inductive PicStage where
  | icw2
  | icw3
  | icw4
  | ready
  deriving DecidableEq, Repr

structure Pic8259 where
  stage : PicStage
  single : Bool
  needsIcw4 : Bool
  offset : BitVec 8
  cascade : BitVec 8
  mode : BitVec 8
  mask : BitVec 8
  requests : BitVec 8
  inService : BitVec 8
  deriving DecidableEq

/-- The first bit that is set, which is the line with the highest priority. -/
def lowestLine (lines : BitVec 8) : Option (Fin 8) :=
  (List.finRange 8).find? fun i => lines.getLsbD i

def lineBit (line : Fin 8) : BitVec 8 := 1#8 <<< line.val

namespace Pic8259

/-- A write to the command port: the first initialisation word, or the end of an interrupt,
which takes the first line out of service. -/
def writeCommand (pic : Pic8259) (value : BitVec 8) : Pic8259 :=
  if value.getLsbD 4 then
    { pic with
      stage := .icw2
      single := value.getLsbD 1
      needsIcw4 := value.getLsbD 0
      mode := 0
      mask := 0
      requests := 0 }
  else if value &&& 0xf8 = 0x20 then
    match lowestLine pic.inService with
    | none => pic
    | some line => { pic with inService := pic.inService &&& ~~~lineBit line }
  else pic

def stageAfter (pic : Pic8259) : PicStage → PicStage
  | .icw2 => if pic.single then if pic.needsIcw4 then .icw4 else .ready else .icw3
  | .icw3 => if pic.needsIcw4 then .icw4 else .ready
  | .icw4 | .ready => .ready

/-- A write to the data port. The offset has the upper five bits of its word. -/
def writeData (pic : Pic8259) (value : BitVec 8) : Pic8259 :=
  match pic.stage with
  | .icw2 => { pic with stage := pic.stageAfter .icw2, offset := value &&& 0xf8 }
  | .icw3 => { pic with stage := pic.stageAfter .icw3, cascade := value }
  | .icw4 => { pic with stage := pic.stageAfter .icw4, mode := value }
  | .ready => { pic with mask := value }

def raise (pic : Pic8259) (line : Fin 8) : Pic8259 :=
  { pic with requests := pic.requests ||| lineBit line }

def request (pic : Pic8259) : Option (Fin 8) :=
  match lowestLine (pic.requests &&& ~~~pic.mask), lowestLine pic.inService with
  | some line, none => some line
  | some line, some serviced => if line < serviced then some line else none
  | none, _ => none

def serve (pic : Pic8259) (line : Fin 8) : Pic8259 :=
  { pic with
    requests := pic.requests &&& ~~~lineBit line
    inService := pic.inService ||| lineBit line }

end Pic8259

/-! ## The two controllers -/

structure Pics where
  master : Pic8259
  slave : Pic8259
  deriving DecidableEq

namespace Pics

/-- `out` to a port. -/
def write (pics : Pics) (port : Nat) (value : BitVec 8) : Pics :=
  if port = 0x20 then { pics with master := pics.master.writeCommand value }
  else if port = 0x21 then { pics with master := pics.master.writeData value }
  else if port = 0xa0 then { pics with slave := pics.slave.writeCommand value }
  else if port = 0xa1 then { pics with slave := pics.slave.writeData value }
  else pics

/-- `in` from a port; a data port reads the mask. -/
def read (pics : Pics) (port : Nat) : BitVec 8 :=
  if port = 0x21 then pics.master.mask else if port = 0xa1 then pics.slave.mask else 0

/-- The master with the output of the slave on line 2. -/
def cascaded (pics : Pics) : Pic8259 :=
  { pics.master with
    requests := (pics.master.requests &&& ~~~lineBit 2) |||
      (if pics.slave.request.isSome then lineBit 2 else 0) }

/-- The processor acknowledges the interrupt that the master asks for, and reads its vector.
On a line with a slave, the slave of that identity puts it on the bus. -/
def acknowledge (pics : Pics) : Option (Nat × Pics) :=
  match pics.cascaded.request with
  | none => none
  | some line =>
      if pics.master.cascade.getLsbD line then
        if (pics.slave.cascade &&& 0x7).toNat = line then
          match pics.slave.request with
          | none => none
          | some behind =>
              some (pics.slave.offset.toNat + behind,
                ⟨{ pics.master with inService := pics.master.inService ||| lineBit line },
                  pics.slave.serve behind⟩)
        else none
      else some (pics.master.offset.toNat + line, { pics with master := pics.master.serve line })

def raise (pics : Pics) (line : Fin 16) : Pics :=
  if h : line.val < 8 then { pics with master := pics.master.raise ⟨line, h⟩ }
  else { pics with slave := pics.slave.raise ⟨line - 8, by omega⟩ }

end Pics

/-! ## The driver -/

/-- `Pic`: the ports of a controller. -/
structure PicPorts where
  command : Nat
  data : Nat

structure ChainedPics where
  master : PicPorts
  slave : PicPorts

namespace ChainedPics

/-- `ChainedPics::new`. -/
def new : ChainedPics := ⟨⟨0x20, 0x20 + 1⟩, ⟨0xa0, 0xa0 + 1⟩⟩

/-- `ChainedPics::init`. -/
def init (chained : ChainedPics) (masterOffset slaveOffset : BitVec 8) (pics : Pics) : Pics :=
  let masterMask := pics.read chained.master.data
  let slaveMask := pics.read chained.slave.data
  let pics := pics.write chained.master.command (0x10 ||| 0x1)
  let pics := pics.write chained.slave.command (0x10 ||| 0x1)
  let pics := pics.write chained.master.data masterOffset
  let pics := pics.write chained.slave.data slaveOffset
  let pics := pics.write chained.master.data 0x4
  let pics := pics.write chained.slave.data 0x2
  let pics := pics.write chained.master.data 0x1
  let pics := pics.write chained.slave.data 0x1
  let pics := pics.write chained.master.data masterMask
  pics.write chained.slave.data slaveMask

def notifyEndOfInterrupt (chained : ChainedPics) (irqNumber : Nat) (pics : Pics) : Pics :=
  let pics := if 0x8 ≤ irqNumber then pics.write chained.slave.command 0x20 else pics
  pics.write chained.master.command 0x20

end ChainedPics

/-! ## What `init` sets -/

structure Pics.Remapped (pics : Pics) (masterMask slaveMask : BitVec 8) : Prop where
  masterStage : pics.master.stage = .ready
  slaveStage : pics.slave.stage = .ready
  masterOffset : pics.master.offset = 0x20
  slaveOffset : pics.slave.offset = 0x28
  masterCascade : pics.master.cascade = 0x4
  slaveCascade : pics.slave.cascade = 0x2
  masterMask : pics.master.mask = masterMask
  slaveMask : pics.slave.mask = slaveMask

theorem ChainedPics.remapped_init (pics : Pics) :
    (new.init 0x20 0x28 pics).Remapped pics.master.mask pics.slave.mask := by
  constructor <;> rfl

theorem ChainedPics.inService_init (pics : Pics) :
    (new.init 0x20 0x28 pics).master.inService = pics.master.inService ∧
      (new.init 0x20 0x28 pics).slave.inService = pics.slave.inService :=
  ⟨rfl, rfl⟩

/-! ## Requests -/

section Requests

variable {lines : BitVec 8} {line : Fin 8} {pic : Pic8259} {pics pics' : Pics}

theorem lowestLine_eq_none : lowestLine lines = none ↔ lines = 0 := by
  have hall : ∀ lines : BitVec 8, lowestLine lines = none ↔ lines = 0 := by decide
  exact hall lines

theorem getLsbD_of_lowestLine (h : lowestLine lines = some line) : lines.getLsbD line = true :=
  List.find?_some (p := fun i : Fin 8 => lines.getLsbD i) h

theorem isSome_lowestLine (h : lines.getLsbD line = true) :
    ∃ first, lowestLine lines = some first := by
  cases hlowest : lowestLine lines with
  | some first => exact ⟨first, rfl⟩
  | none =>
      rw [lowestLine_eq_none.mp hlowest] at h
      cases h.symm.trans BitVec.getLsbD_zero

/-- A line that is asked for has a request that is not masked. -/
theorem Pic8259.request_spec (h : pic.request = some line) :
    pic.requests.getLsbD line = true ∧ pic.mask.getLsbD line = false := by
  have hlowest : lowestLine (pic.requests &&& ~~~pic.mask) = some line := by
    rw [request] at h
    cases hfirst : lowestLine (pic.requests &&& ~~~pic.mask) with
    | none =>
        rw [hfirst] at h
        cases h
    | some first =>
        rw [hfirst] at h
        cases hserviced : lowestLine pic.inService with
        | none =>
            rw [hserviced] at h
            exact h
        | some serviced =>
            rw [hserviced] at h
            simp only at h
            split at h
            · exact h
            · cases h
  have hbit := getLsbD_of_lowestLine hlowest
  rw [BitVec.getLsbD_and, BitVec.getLsbD_not, Bool.and_eq_true, Bool.and_eq_true] at hbit
  exact ⟨hbit.1, by simpa using hbit.2.2⟩

/-- With nothing in service, a request that is not masked makes the controller ask. -/
theorem Pic8259.request_of_idle (hidle : pic.inService = 0)
    (hrequest : pic.requests.getLsbD line = true) (hmask : pic.mask.getLsbD line = false) :
    ∃ first, pic.request = some first := by
  have hbit : (pic.requests &&& ~~~pic.mask).getLsbD line = true := by
    rw [BitVec.getLsbD_and, BitVec.getLsbD_not, hrequest, hmask]
    simp
  obtain ⟨first, hfirst⟩ := isSome_lowestLine hbit
  refine ⟨first, ?_⟩
  rw [request, hfirst, hidle, lowestLine_eq_none.mpr rfl]

end Requests

namespace Pics

variable {pics pics' : Pics} {line : Fin 16}

def Requested (pics : Pics) (line : Fin 16) : Prop :=
  if line.val < 8 then pics.master.requests.getLsbD line = true
  else pics.slave.requests.getLsbD (line - 8) = true

instance (pics : Pics) (line : Fin 16) : Decidable (pics.Requested line) :=
  inferInstanceAs (Decidable (if line.val < 8 then _ = _ else _ = _))

/-- The line is masked; those of the slave are also masked with line 2. -/
def Masked (pics : Pics) (line : Fin 16) : Prop :=
  if line.val < 8 then pics.master.mask.getLsbD line = true
  else pics.slave.mask.getLsbD (line - 8) = true ∨ pics.master.mask.getLsbD 2 = true

def serveLine (pics : Pics) (line : Fin 16) : Pics :=
  if h : line.val < 8 then { pics with master := pics.master.serve ⟨line, h⟩ }
  else
    ⟨{ pics.master with inService := pics.master.inService ||| lineBit 2 },
      pics.slave.serve ⟨line - 8, by omega⟩⟩

theorem getLsbD_cascaded (pics : Pics) (line : Fin 8) : pics.cascaded.requests.getLsbD line =
    if line = 2 then pics.slave.request.isSome else pics.master.requests.getLsbD line := by
  have hbit : ∀ line : Fin 8, (lineBit 2).getLsbD line = decide (line = 2) := by decide
  have hlt : line.val < 8 := line.isLt
  simp only [cascaded, BitVec.getLsbD_or, BitVec.getLsbD_and, BitVec.getLsbD_not, hbit, hlt]
  by_cases hline : line = 2
  · cases hsome : pics.slave.request.isSome with
    | true => simp [hline, lineBit]
    | false => simp [hline]
  · cases hsome : pics.slave.request.isSome with
    | true => simp only [if_true, hbit, hline, decide_false, Bool.not_false, decide_true,
        Bool.and_true, Bool.or_false, if_false]
    | false => simp [hline]

/-- An interrupt that is acknowledged is that of a line that asked for it and is not masked,
and its vector is not one of an exception. -/
theorem Remapped.acknowledge_spec {masterMask slaveMask : BitVec 8} {vector : Nat}
    (h : pics.Remapped masterMask slaveMask) (hack : pics.acknowledge = some (vector, pics')) :
    ∃ line : Fin 16, line ≠ 2 ∧ vector = 0x20 + line ∧ pics.Requested line ∧ ¬ pics.Masked line ∧
      pics' = pics.serveLine line := by
  rw [acknowledge] at hack
  cases hrequest : pics.cascaded.request with
  | none =>
      rw [hrequest] at hack
      cases hack
  | some line =>
      have hcascade : ∀ line : Fin 8, (0x4 : BitVec 8).getLsbD line = decide (line = 2) := by
        decide
      obtain ⟨hline, hmask⟩ := Pic8259.request_spec hrequest
      rw [getLsbD_cascaded] at hline
      have hmask' : pics.master.mask.getLsbD line = false := hmask
      have hcascaded : pics.master.cascade.getLsbD line = decide (line = 2) := by
        rw [h.masterCascade, hcascade]
      rw [hrequest] at hack
      simp only [hcascaded, decide_eq_true_eq, h.slaveCascade] at hack
      by_cases hslave : line = 2
      · subst hslave
        rw [if_pos rfl, if_pos (by decide)] at hack
        cases hbehind : pics.slave.request with
        | none =>
            rw [hbehind] at hack
            cases hack
        | some behind =>
            obtain ⟨hrequested, hunmasked⟩ := Pic8259.request_spec hbehind
            rw [hbehind] at hack
            cases hack
            have hbound := behind.isLt
            have hnot : ¬ 8 + behind.val < 8 := by omega
            have hsub : 8 + behind.val - 8 = behind.val := by omega
            refine ⟨⟨8 + behind, by omega⟩, ?_, ?_, ?_, ?_, ?_⟩
            · intro heq
              have hval : 8 + behind.val = 2 := congrArg Fin.val heq
              omega
            · simp [h.slaveOffset]
              omega
            · rw [Requested, if_neg hnot, hsub]
              exact hrequested
            · rw [Masked, if_neg hnot, hsub, hunmasked]
              have hmaster : pics.master.mask.getLsbD 2 = false := hmask'
              rw [hmaster]
              decide
            · rw [serveLine, dif_neg hnot]
              simp only [hsub]
      · rw [if_neg hslave] at hline hack
        cases hack
        have hbound := line.isLt
        refine ⟨⟨line, by omega⟩, ?_, ?_, ?_, ?_, ?_⟩
        · intro heq
          have hval : line.val = 2 := congrArg Fin.val heq
          exact hslave (Fin.ext hval)
        · simp [h.masterOffset]
        · rw [Requested, if_pos hbound]
          exact hline
        · rw [Masked, if_pos hbound, hmask']
          simp
        · rw [serveLine, dif_pos hbound]

theorem Remapped.acknowledge_of_idle {masterMask slaveMask : BitVec 8}
    (h : pics.Remapped masterMask slaveMask) (hmaster : pics.master.inService = 0)
    (hslave : pics.slave.inService = 0) (hline : line ≠ 2) (hrequested : pics.Requested line)
    (hunmasked : ¬ pics.Masked line) : ∃ vector pics', pics.acknowledge = some (vector, pics') := by
  rw [Requested] at hrequested
  rw [Masked] at hunmasked
  -- the line of the master that the request arrives on
  have harrives : ∃ first : Fin 8, pics.cascaded.requests.getLsbD first = true ∧
      pics.master.mask.getLsbD first = false := by
    by_cases hlow : line.val < 8
    · rw [if_pos hlow] at hrequested hunmasked
      refine ⟨⟨line, hlow⟩, ?_, by simpa using hunmasked⟩
      have hother : (⟨line, hlow⟩ : Fin 8) ≠ 2 := by
        intro heq
        have hval : line.val = 2 := congrArg Fin.val heq
        exact hline (Fin.ext hval)
      rw [getLsbD_cascaded, if_neg hother]
      exact hrequested
    · rw [if_neg hlow] at hrequested hunmasked
      rw [not_or] at hunmasked
      let behind : Fin 8 := ⟨line - 8, by omega⟩
      have hrequest : pics.slave.requests.getLsbD behind = true := hrequested
      obtain ⟨first, hfirst⟩ := Pic8259.request_of_idle hslave hrequest
        (Bool.not_eq_true _ ▸ hunmasked.1)
      refine ⟨2, ?_, Bool.not_eq_true _ ▸ hunmasked.2⟩
      rw [getLsbD_cascaded, if_pos rfl, hfirst]
      rfl
  obtain ⟨arrives, hrequest, hmask⟩ := harrives
  have hidle : pics.cascaded.inService = 0 := hmaster
  obtain ⟨first, hfirst⟩ := Pic8259.request_of_idle hidle hrequest hmask
  have hcascade : ∀ line : Fin 8, (0x4 : BitVec 8).getLsbD line = decide (line = 2) := by decide
  rw [acknowledge, hfirst]
  simp only [h.masterCascade, hcascade, h.slaveCascade, decide_eq_true_eq]
  by_cases htwo : first = 2
  · subst htwo
    have hasks := (Pic8259.request_spec hfirst).1
    rw [getLsbD_cascaded, if_pos rfl] at hasks
    obtain ⟨behind, hbehind⟩ := Option.isSome_iff_exists.mp hasks
    rw [if_pos rfl, if_pos (by decide), hbehind]
    exact ⟨_, _, rfl⟩
  · rw [if_neg htwo]
    exact ⟨_, _, rfl⟩

/-! ## What is in service -/

def Serving (pics : Pics) : Option Nat → Prop
  | none => pics.master.inService = 0 ∧ pics.slave.inService = 0
  | some vector => ∃ line : Fin 16, vector = 0x20 + line ∧
      if h : line.val < 8 then
        pics.master.inService = lineBit ⟨line, h⟩ ∧ pics.slave.inService = 0
      else
        pics.master.inService = lineBit 2 ∧ pics.slave.inService = lineBit ⟨line - 8, by omega⟩

theorem Serving.serveLine (h : pics.Serving none) (line : Fin 16) :
    (pics.serveLine line).Serving (some (0x20 + line)) := by
  refine ⟨line, rfl, ?_⟩
  rw [Pics.serveLine]
  by_cases hlow : line.val < 8
  · rw [dif_pos hlow, dif_pos hlow]
    refine ⟨?_, h.2⟩
    simp only [Pic8259.serve, h.1]
    exact BitVec.zero_or
  · rw [dif_neg hlow, dif_neg hlow]
    simp only [Pic8259.serve, h.1, h.2]
    exact ⟨BitVec.zero_or, BitVec.zero_or⟩

theorem writeCommand_eoi (pic : Pic8259)
    (h : pic.inService = 0 ∨ ∃ line, pic.inService = lineBit line) :
    pic.writeCommand 0x20 = { pic with inService := 0 } := by
  have hcommand : ¬ (0x20 : BitVec 8).getLsbD 4 = true := by decide
  have heoi : (0x20 : BitVec 8) &&& 0xf8 = 0x20 := by decide
  rw [Pic8259.writeCommand, if_neg hcommand, if_pos heoi]
  cases h with
  | inl hzero =>
      rw [hzero, lowestLine_eq_none.mpr rfl]
      simp only
      rw [← hzero]
  | inr hone =>
      obtain ⟨line, hline⟩ := hone
      have hlowest : ∀ line, lowestLine (lineBit line) = some line := by decide
      have hclear : ∀ line, lineBit line &&& ~~~lineBit line = 0 := by decide
      rw [hline, hlowest]
      simp only [hclear]

/-- The handlers notify both controllers, since their numbers are those of the vectors. -/
theorem Serving.notifyEndOfInterrupt {served : Option Nat} (h : pics.Serving served)
    {irqNumber : Nat} (hirq : 0x8 ≤ irqNumber) :
    ChainedPics.new.notifyEndOfInterrupt irqNumber pics =
      ⟨{ pics.master with inService := 0 }, { pics.slave with inService := 0 }⟩ := by
  have hone : (pics.master.inService = 0 ∨ ∃ line, pics.master.inService = lineBit line) ∧
      (pics.slave.inService = 0 ∨ ∃ line, pics.slave.inService = lineBit line) := by
    cases served with
    | none => exact ⟨Or.inl h.1, Or.inl h.2⟩
    | some vector =>
        obtain ⟨line, -, hserved⟩ := h
        split at hserved
        · exact ⟨Or.inr ⟨_, hserved.1⟩, Or.inl hserved.2⟩
        · exact ⟨Or.inr ⟨_, hserved.1⟩, Or.inr ⟨_, hserved.2⟩⟩
  rw [ChainedPics.notifyEndOfInterrupt, if_pos hirq]
  have hslave : pics.write ChainedPics.new.slave.command 0x20 =
      { pics with slave := pics.slave.writeCommand 0x20 } := rfl
  have hmaster : ∀ pics : Pics, pics.write ChainedPics.new.master.command 0x20 =
      { pics with master := pics.master.writeCommand 0x20 } := fun _ => rfl
  rw [hslave, hmaster, writeCommand_eoi _ hone.1, writeCommand_eoi _ hone.2]

end Pics

end MiniatureOs
