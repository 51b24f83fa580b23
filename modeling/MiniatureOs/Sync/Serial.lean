import MiniatureOs.Interrupts.Locks
import MiniatureOs.Lib.Checked
import MiniatureOs.Sync.Mutex

/-! # The serial port behind its lock

`x86_64/src/uart.rs` and `x86_64/src/print.rs`: `send` polls the line status until the
transmitter holding register is empty, and then writes it. The device empties the register
in its own time. A byte that is written while the register is full replaces the one in it,
and while the divisor latch is on the port of the register is that of the baud rate.
-/

namespace MiniatureOs

/-! ## The device -/

/-- The registers of the UART at `base`, with what the line has carried. -/
structure Uart where
  base : Nat
  holding : Option UInt8
  line : List UInt8
  otherStatus : UInt8
  divisorLow : UInt8
  divisorHigh : UInt8
  interruptEnable : UInt8
  lineControl : UInt8
  modemControl : UInt8

namespace Uart

def latch (uart : Uart) : Bool := uart.lineControl &&& 0x80 != 0

/-- `out` to a port. A FIFO command with bit 2 drops what is held. -/
def write (uart : Uart) (port : Nat) (value : UInt8) : Uart :=
  if port = uart.base then
    if uart.latch then { uart with divisorLow := value } else { uart with holding := some value }
  else if port = uart.base + 1 then
    if uart.latch then { uart with divisorHigh := value }
    else { uart with interruptEnable := value }
  else if port = uart.base + 2 then
    if value &&& 0x4 != 0 then { uart with holding := none } else uart
  else if port = uart.base + 3 then { uart with lineControl := value }
  else if port = uart.base + 4 then { uart with modemControl := value }
  else uart

/-- Bit 5 of the line status is set while nothing is held. -/
def lineStatus (uart : Uart) : UInt8 :=
  (uart.otherStatus &&& 0xdf) ||| (if uart.holding.isNone then 0x20 else 0)

/-- `in` from a port. The driver reads no other register than the line status; a port that
is not answered reads as ones. -/
def read (uart : Uart) (port : Nat) : UInt8 :=
  if port = uart.base + 5 then uart.lineStatus else 0xff

/-- The device puts what it holds on the line, or does nothing. -/
inductive Works (uart : Uart) : Uart → Prop
  | waits : Works uart uart
  | sends {byte : UInt8} (holds : uart.holding = some byte) :
      Works uart { uart with holding := none, line := uart.line ++ [byte] }

def taken (uart : Uart) : List UInt8 := uart.line ++ uart.holding.toList

end Uart

/-! ## The driver -/

/-- `SerialPort`, with the addresses of its ports. -/
structure SerialPort where
  data : Nat
  intEn : Nat
  fifoCtrl : Nat
  lineCtrl : Nat
  modemCtrl : Nat
  lineStat : Nat
  modeStat : Nat

namespace SerialPort

/-- `SerialPort::new`. -/
def new (base : Nat) : Checked SerialPort := do
  return {
    data := base
    intEn := ← Checked.add 16 base 1
    fifoCtrl := ← Checked.add 16 base 2
    lineCtrl := ← Checked.add 16 base 3
    modemCtrl := ← Checked.add 16 base 4
    lineStat := ← Checked.add 16 base 5
    modeStat := ← Checked.add 16 base 6 }

/-- `SerialPort::init`. -/
def init (port : SerialPort) (uart : Uart) : Uart :=
  let uart := uart.write port.intEn 0x0
  let uart := uart.write port.lineCtrl 0x80
  let uart := uart.write port.data 0x3
  let uart := uart.write port.intEn 0x0
  let uart := uart.write port.lineCtrl 0x3
  let uart := uart.write port.fifoCtrl 0xc7
  let uart := uart.write port.modemCtrl 0x0b
  uart.write port.intEn 0x01

def holdingEmpty : UInt8 := 0x20

/-- The points of `write_str`: before a read of the line status for a character, and before
the write of it. -/
inductive WritePoint where
  | poll (text : List Char)
  | send (c : Char) (text : List Char)

def lineStatusFlags (port : SerialPort) (uart : Uart) : UInt8 := uart.read port.lineStat

/-- The next access of `write_str`. -/
def access (port : SerialPort) (uart : Uart) : WritePoint → Access WritePoint Unit × Uart
  | .poll [] => (.done (), uart)
  | .poll (c :: text) =>
      if port.lineStatusFlags uart &&& holdingEmpty = holdingEmpty then
        (.next (.send c text), uart)
      else (.next (.poll (c :: text)), uart)
  | .send c text => (.next (.poll text), uart.write port.data (serialByte c))

/-- `_print`: the text is written under the lock, and the device works all the while. -/
def code (port : SerialPort) : GuardedCode (List Char) WritePoint Unit Uart where
  enter := .poll
  access := fun point uart result uart' => ∃ u, uart.Works u ∧ port.access u point = (result, uart')

/-! ## Set-up -/

variable {port : SerialPort} {uart uart' u : Uart} {base : Nat}

theorem new_eq_ok : new base = .ok port ↔ base + 6 < 2 ^ 16 ∧
    port = ⟨base, base + 1, base + 2, base + 3, base + 4, base + 5, base + 6⟩ := by
  by_cases h : base + 6 < 2 ^ 16
  · simp only [new, Checked.add_of_lt (show base + 1 < 2 ^ 16 by omega),
      Checked.add_of_lt (show base + 2 < 2 ^ 16 by omega),
      Checked.add_of_lt (show base + 3 < 2 ^ 16 by omega),
      Checked.add_of_lt (show base + 4 < 2 ^ 16 by omega),
      Checked.add_of_lt (show base + 5 < 2 ^ 16 by omega), Checked.add_of_lt h, Checked.ok_bind,
      Checked.pure_eq_ok, Except.ok.injEq, h, true_and]
    exact eq_comm
  · constructor
    · intro hnew
      simp only [new, Checked.bind_eq_ok] at hnew
      obtain ⟨_, _, _, _, _, _, _, _, _, _, _, hlast, _⟩ := hnew
      exact absurd (Checked.add_eq_ok.mp hlast).1 h
    · exact fun hnew => absurd hnew.1 h

structure Ready (port : SerialPort) (uart : Uart) : Prop where
  data : port.data = uart.base
  lineStat : port.lineStat = uart.base + 5
  latch : uart.latch = false

theorem ready_iff : Ready port uart ↔
    port.data = uart.base ∧ port.lineStat = uart.base + 5 ∧ uart.latch = false :=
  ⟨fun h => ⟨h.data, h.lineStat, h.latch⟩, fun h => ⟨h.1, h.2.1, h.2.2⟩⟩

/-- Whatever state the device was in, it takes 8 bits without parity at 38400 baud. -/
theorem ready_init (hnew : new uart.base = .ok port) :
    Ready port (port.init uart) ∧ (port.init uart).divisorLow = 3 ∧
      (port.init uart).divisorHigh = 0 ∧ (port.init uart).lineControl = 3 ∧
      (port.init uart).interruptEnable = 1 ∧ (port.init uart).taken = uart.line := by
  obtain ⟨_, rfl⟩ := new_eq_ok.mp hnew
  have hclears : (0xc7 : UInt8) &&& 0x4 ≠ 0 := by decide
  have hlatched : (0x80 : UInt8) &&& 0x80 ≠ 0 := by decide
  have hopen : (0x3 : UInt8) &&& 0x80 = 0 := by decide
  by_cases hlatch : uart.lineControl &&& 0x80 = 0
  · simp [init, Uart.write, Uart.latch, Uart.taken, hlatch, ready_iff, hclears, hopen]
  · simp [init, Uart.write, Uart.latch, Uart.taken, hlatch, ready_iff, hclears, hopen]

/-! ## The text on the line -/

def textBytes (text : List Char) : List UInt8 := text.map serialByte

def WritePoint.unsent : WritePoint → List UInt8
  | .poll text => textBytes text
  | .send c text => textBytes (c :: text)

/-- The register is empty before it is written. -/
def WritePoint.Polled (uart : Uart) : WritePoint → Prop
  | .poll _ => True
  | .send _ _ => uart.holding = none

theorem holding_of_polled (hready : Ready port uart)
    (h : port.lineStatusFlags uart &&& holdingEmpty = holdingEmpty) : uart.holding = none := by
  rw [lineStatusFlags, Uart.read, if_pos hready.lineStat] at h
  cases hholding : uart.holding with
  | none => rfl
  | some byte =>
      have hbit := congrArg (fun status => status.toBitVec.getLsbD 5) h
      simp [Uart.lineStatus, hholding, holdingEmpty] at hbit

theorem works_keeps (h : uart.Works u) : u.taken = uart.taken ∧ u.base = uart.base ∧
    u.lineControl = uart.lineControl ∧ (uart.holding = none → u.holding = none) := by
  cases h with
  | waits => exact ⟨rfl, rfl, rfl, id⟩
  | @sends byte holds => exact ⟨by simp [Uart.taken, holds], rfl, rfl, fun _ => rfl⟩

/-- The device was given what it had before the call, and then all of the text but what is
still to be sent. -/
structure Sending (port : SerialPort) (before text : List UInt8) (point : WritePoint)
    (uart : Uart) : Prop where
  ready : Ready port uart
  polled : point.Polled uart
  taken : ∃ sent, sent ++ point.unsent = text ∧ uart.taken = before ++ sent

variable {point point' : WritePoint} {before bytes : List UInt8} {text : List Char}

theorem Sending.works (h : Sending port before bytes point uart) (hworks : uart.Works u) :
    Sending port before bytes point u := by
  obtain ⟨htaken, hbase, hcontrol, hholding⟩ := works_keeps hworks
  refine ⟨⟨h.ready.data.trans hbase.symm, by rw [h.ready.lineStat, hbase], ?_⟩, ?_, ?_⟩
  · have hlatch := h.ready.latch
    rwa [Uart.latch, ← hcontrol] at hlatch
  · cases point with
    | poll text => trivial
    | send c text => exact hholding h.polled
  · rw [htaken]
    exact h.taken

theorem Sending.next (h : Sending port before bytes point uart)
    (hstep : port.access uart point = (.next point', uart')) :
    Sending port before bytes point' uart' := by
  cases point with
  | poll text =>
      cases text with
      | nil => cases hstep
      | cons c text =>
          rw [access] at hstep
          split at hstep
          next hpolled =>
            cases hstep
            exact ⟨h.ready, holding_of_polled h.ready hpolled, h.taken⟩
          next =>
            cases hstep
            exact h
  | send c text =>
      cases hstep
      have hempty : uart.holding = none := h.polled
      have hwrite : uart.write port.data (serialByte c) =
          { uart with holding := some (serialByte c) } := by
        rw [Uart.write, if_pos h.ready.data, h.ready.latch]
        rfl
      obtain ⟨sent, hsent, htaken⟩ := h.taken
      rw [hwrite]
      refine ⟨⟨h.ready.data, h.ready.lineStat, h.ready.latch⟩, trivial, sent ++ [serialByte c],
        ?_, ?_⟩
      · rw [List.append_assoc]
        exact hsent
      · rw [Uart.taken, hempty, Option.toList_none, List.append_nil] at htaken
        rw [Uart.taken, htaken, List.append_assoc]
        rfl

theorem Sending.done (h : Sending port before bytes point uart)
    (hstep : port.access uart point = (.done (), uart')) :
    Ready port uart' ∧ uart'.taken = before ++ bytes := by
  cases point with
  | poll text =>
      cases text with
      | nil =>
          cases hstep
          obtain ⟨sent, rfl, htaken⟩ := h.taken
          refine ⟨h.ready, ?_⟩
          rw [htaken]
          exact congrArg (before ++ ·) (List.append_nil sent).symm
      | cons c text =>
          rw [access] at hstep
          split at hstep <;> cases hstep
  | send c text => cases hstep

theorem Sending.of_progress (hready : Ready port uart)
    (h : port.code.Progress text uart point uart') :
    Sending port uart.taken (textBytes text) point uart' := by
  induction h with
  | start => exact ⟨hready, trivial, [], rfl, (List.append_nil _).symm⟩
  | next _ hstep ih =>
      obtain ⟨u, hworks, haccess⟩ := hstep
      exact (ih.works hworks).next haccess

/-- A call that nothing interrupts sends its text. -/
theorem sent_of_runs (hready : Ready port uart) (h : port.code.Runs text uart () uart') :
    Ready port uart' ∧ uart'.taken = uart.taken ++ textBytes text := by
  obtain ⟨point, u, hprogress, u', hworks, haccess⟩ := h
  exact ((Sending.of_progress hready hprogress).works hworks).done haccess

def printed {ι : Type} (history : List (ι × List Char × Unit)) : List UInt8 :=
  history.flatMap fun entry => textBytes entry.2.1

theorem sent_of_serial {ι : Type} {history : List (ι × List Char × Unit)}
    (hready : Ready port uart) (h : port.code.Serial uart history uart') :
    Ready port uart' ∧ uart'.taken = uart.taken ++ printed history := by
  induction h with
  | nil => exact ⟨hready, (List.append_nil _).symm⟩
  | concat _ hrun ih =>
      obtain ⟨hready', htaken⟩ := ih
      obtain ⟨hready'', htaken'⟩ := sent_of_runs hready' hrun
      refine ⟨hready'', ?_⟩
      rw [htaken', htaken, printed, printed, List.flatMap_append, List.append_assoc]
      simp

/-! ## Threads that print -/

/-- What the device was given is what was on the line before, the texts of the calls that
have returned, whole and in order, and the beginning of the text of the call with the guard. -/
structure WholeTexts {ι : Type} (before : List UInt8)
    (s : Threads ι (List Char) WritePoint Unit Uart) : Prop where
  free : s.mutex.lockStatus = false → s.mutex.inner.taken = before ++ printed s.history
  busy : ∀ i text, (s.phase i).call = some text → (s.phase i).HasGuard →
    ∃ sent, sent <+: textBytes text ∧ s.mutex.inner.taken = before ++ printed s.history ++ sent

/-- However the threads that print are interleaved with each other and with the device, no
byte is lost, and no text is broken up by another. -/
theorem wholeTexts_of_reachable {ι : Type} [DecidableEq ι] (uart : Uart) (port : SerialPort)
    (hnew : new uart.base = .ok port) (s : Threads ι (List Char) WritePoint Unit Uart)
    (h : Threads.Reachable port.code (fun _ _ => True) (port.init uart) s) :
    WholeTexts uart.line s := by
  obtain ⟨hready, -, -, -, -, hline⟩ := ready_init hnew
  cases Threads.Owned.of_reachable h with
  | free status nobody serial =>
      obtain ⟨_, htaken⟩ := sent_of_serial hready serial
      rw [hline] at htaken
      exact ⟨fun _ => htaken, fun i _ _ hguard => absurd hguard (nobody i)⟩
  | taken owner t status only serial works =>
      obtain ⟨hready', htaken⟩ := sent_of_serial hready serial
      rw [hline] at htaken
      refine ⟨fun hfree => absurd (status.symm.trans hfree) (by decide),
        fun i text hcall hguard => ?_⟩
      obtain rfl := only i hguard
      cases hphase : s.phase i with
      | idle => simp [hphase, Phase.HasGuard] at hguard
      | locking call => simp [hphase, Phase.HasGuard] at hguard
      | guarded call point =>
          rw [hphase] at works hcall
          obtain rfl : call = text := Option.some.inj hcall
          obtain ⟨sent, hsent, hnow⟩ := (Sending.of_progress hready' works).taken
          exact ⟨sent, ⟨_, hsent⟩, by rw [hnow, htaken]⟩
      | leaving call result =>
          rw [hphase] at works hcall
          obtain rfl : call = text := Option.some.inj hcall
          have hsent := (sent_of_runs hready' works).2
          exact ⟨textBytes call, List.prefix_refl _, by rw [hsent, htaken]⟩

def busyUart : Uart := ⟨0x3f8, some 0x41, [], 0, 0, 0, 0, 0x80, 0⟩

/-- The device has a character of one thread while another thread waits for the lock. -/
theorem wholeTexts_busyUart :
    ∃ (port : SerialPort) (s : Threads Bool (List Char) WritePoint Unit Uart),
      new 0x3f8 = .ok port ∧
      Threads.Reachable port.code (fun _ _ => True) (port.init busyUart) s ∧
      s.phase false = .guarded ['o', 'k'] (.poll ['k']) ∧ s.phase true = .locking ['n', 'o'] ∧
      s.mutex.inner.taken = [0x6f] ∧ WholeTexts [] s := by
  have hnew : new busyUart.base = .ok ⟨0x3f8, 0x3f9, 0x3fa, 0x3fb, 0x3fc, 0x3fd, 0x3fe⟩ := rfl
  let port : SerialPort := ⟨0x3f8, 0x3f9, 0x3fa, 0x3fb, 0x3fc, 0x3fd, 0x3fe⟩
  obtain ⟨uart, huart⟩ : ∃ uart, uart = port.init busyUart := ⟨_, rfl⟩
  have hempty : port.lineStatusFlags uart &&& holdingEmpty = holdingEmpty := by
    rw [huart]
    decide
  have htaken : (uart.write port.data 0x6f).taken = [0x6f] := by rw [huart]; decide
  let s₁ : Threads Bool (List Char) WritePoint Unit Uart :=
    (Threads.initial uart).setPhase false (.locking ['o', 'k'])
  let s₂ := s₁.setPhase true (.locking ['n', 'o'])
  let s₃ := s₂.lockRound port.code false ['o', 'k']
  let s₄ := s₃.setPhase false (.guarded ['o', 'k'] (.send 'o' ['k']))
  let s₅ := { s₄ with mutex.inner := uart.write port.data 0x6f }.setPhase false
    (.guarded ['o', 'k'] (.poll ['k']))
  have hpoll : port.access uart (.poll ['o', 'k']) = (.next (.send 'o' ['k']), uart) :=
    if_pos hempty
  have hsend : port.access uart (.send 'o' ['k']) =
      (.next (.poll ['k']), uart.write port.data 0x6f) := rfl
  have hrun : Threads.Reachable port.code (fun _ _ => True) uart s₅ := by
    apply Relation.ReflTransGen.tail (b := s₄) _ (.access (i := false) rfl ⟨_, .waits, hsend⟩)
    apply Relation.ReflTransGen.tail (b := s₃) _ (.access (i := false) rfl ⟨_, .waits, hpoll⟩)
    apply Relation.ReflTransGen.tail (b := s₂) _ (.lock rfl)
    apply Relation.ReflTransGen.tail (b := s₁) _ (.call rfl trivial)
    exact .single (.call rfl trivial)
  rw [huart] at hrun
  exact ⟨port, s₅, hnew, hrun, rfl, rfl, htaken,
    wholeTexts_of_reachable busyUart port hnew s₅ hrun⟩

end SerialPort

end MiniatureOs
