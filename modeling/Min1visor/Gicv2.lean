import Min1visor.Pl011

/-!
# The emulated GICv2

On the Raspberry Pi 4 the hypervisor keeps the virtual interrupts of its guest in one
64-bit set and drives the virtual IRQ line with a bit of `HCR_EL2`. The physical timer
interrupt is handed to the guest by disabling it until the guest ends it. What happened
to the interrupts is kept as a trace beside the state of the source.
-/
namespace Min1visor.Gicv2
open Pl011

def gicdCtlr : ℕ := 0x000
def gicdTyper : ℕ := 0x004
def gicdIidr : ℕ := 0x008
def gicdItargetsrStart : ℕ := 0x800
def gicdItargetsrEnd : ℕ := 0x900

def giccCtlr : ℕ := 0x000
def giccPmr : ℕ := 0x004
def giccBpr : ℕ := 0x008
def giccIar : ℕ := 0x00C
def giccEoir : ℕ := 0x010
def giccIidr : ℕ := 0x0FC

def giccIarSpuriousInterruptId : ℕ := 1023
def pl011IntId : ℕ := 33

def hcrEl2Api : BitVec 64 := 1 <<< 41
def hcrEl2Rw : BitVec 64 := 1 <<< 31
def hcrEl2Vi : BitVec 64 := 1 <<< 7
def hcrEl2Amo : BitVec 64 := 1 <<< 5
def hcrEl2Imo : BitVec 64 := 1 <<< 4
def hcrEl2Fmo : BitVec 64 := 1 <<< 3
def hcrEl2Vm : BitVec 64 := 1 <<< 0

/-- What happened to a virtual interrupt: it was injected while it was not pending, an
`IAR` read returned it, or an `EOIR` write named it. -/
inductive Mark
  | injected (id : ℕ)
  | returned (id : ℕ)
  | ended (id : ℕ)
  deriving DecidableEq

structure GicDistributorMmio where
  ctlr : BitVec 32

structure GicCpuInterfaceMmio where
  ctlr : BitVec 32
  pmr : BitVec 32
  bpr : BitVec 32

/-- The board: the emulated devices, the pending set and `HCR_EL2`, the enable bits of
the physical distributor, and the numbers of the physical interrupts of the device tree. -/
structure Machine where
  pending : BitVec 64
  hcrEl2 : BitVec 64
  distributor : GicDistributorMmio
  cpuInterface : GicCpuInterfaceMmio
  pl011 : Pl011Mmio
  enabled : ℕ → Bool
  genericTimerIntId : ℕ
  uartInterruptNumber : ℕ
  trace : List Mark

namespace Machine

/-- The value that `setup_hypervisor_registers` writes. -/
def setupHcrEl2 : BitVec 64 :=
  hcrEl2Rw ||| hcrEl2Api ||| hcrEl2Amo ||| hcrEl2Imo ||| hcrEl2Fmo ||| hcrEl2Vm

/-- The board when `create_vm` returns. -/
def createVm (enabled : ℕ → Bool) (genericTimerIntId uartInterruptNumber : ℕ) : Machine where
  pending := 0
  hcrEl2 := setupHcrEl2
  distributor := ⟨0⟩
  cpuInterface := ⟨0, 0, 0⟩
  pl011 := .new
  enabled := enabled
  genericTimerIntId := genericTimerIntId
  uartInterruptNumber := uartInterruptNumber
  trace := []

def mark (m : Machine) (event : Mark) : Machine := { m with trace := m.trace ++ [event] }

/-! ## The pending set -/

def injectInterrupt (m : Machine) (intId : ℕ) : Except Panic Machine :=
  if intId < 64 then
    let m' := if m.pending.getLsbD intId then m else m.mark (.injected intId)
    .ok { m' with
      pending := m.pending ||| (1 : BitVec 64) <<< intId
      hcrEl2 := m.hcrEl2 ||| hcrEl2Vi }
  else .error .assertion

def acknowledgeInterrupt (m : Machine) : ℕ × Machine :=
  if m.pending = 0 then (giccIarSpuriousInterruptId, m)
  else
    let intId := m.pending.ctz.toNat
    let pending := m.pending &&& ~~~((1 : BitVec 64) <<< intId)
    (intId, { m.mark (.returned intId) with
      pending := pending
      hcrEl2 := if pending = 0 then m.hcrEl2 &&& ~~~hcrEl2Vi else m.hcrEl2 })

/-! ## The physical distributor -/

/-- A write of `GICD_ISENABLER` or `GICD_ICENABLER`: each bit that is set enables or
disables the interrupt it stands for. -/
def writeEnabler (m : Machine) (word : ℕ) (bits : BitVec 32) (enable : Bool) : Machine :=
  { m with enabled := fun i => if i / 32 = word ∧ bits.getLsbD (i % 32) then enable else m.enabled i }

def disableInterrupt (m : Machine) (intId : ℕ) : Machine :=
  m.writeEnabler (intId / 32) ((1 : BitVec 32) <<< (intId % 32)) false

def enablePpi (m : Machine) (intId : ℕ) : Except Panic Machine :=
  if intId < 32 then .ok (m.writeEnabler (intId / 32) ((1 : BitVec 32) <<< (intId % 32)) true)
  else .error .assertion

/-! ## The emulated registers -/

def readGicd (m : Machine) (offset : ℕ) : ℕ :=
  if offset = gicdCtlr then m.distributor.ctlr.toNat
  else if offset = gicdTyper then 0x00000001
  else if offset = gicdIidr then 0x0200043B
  else if gicdItargetsrStart ≤ offset ∧ offset < gicdItargetsrEnd then 0x01010101
  else 0

def writeGicd (m : Machine) (offset : ℕ) (value : BitVec 64) : Machine :=
  if offset = gicdCtlr then { m with distributor := ⟨value.setWidth 32⟩ } else m

def readGicc (m : Machine) (offset : ℕ) : ℕ × Machine :=
  if offset = giccCtlr then (m.cpuInterface.ctlr.toNat, m)
  else if offset = giccPmr then (m.cpuInterface.pmr.toNat, m)
  else if offset = giccBpr then (m.cpuInterface.bpr.toNat, m)
  else if offset = giccIar then m.acknowledgeInterrupt
  else if offset = giccIidr then (0x0202143B, m)
  else (0, m)

/-- The guest has ended the timer interrupt. -/
def endTimer (m : Machine) (intId : ℕ) : Except Panic Machine :=
  if intId = m.genericTimerIntId then m.enablePpi m.genericTimerIntId else .ok m

/-- The guest has ended the UART interrupt, which is injected again while bytes are left. -/
def endUart (m : Machine) (intId : ℕ) : Except Panic Machine :=
  if intId = pl011IntId then
    if m.pl011.isRxPending then m.injectInterrupt pl011IntId else .ok m
  else .ok m

def endInterrupt (m : Machine) (value : BitVec 64) : Except Panic Machine := do
  let intId := (value &&& 0x3ff).toNat
  (← (m.mark (.ended intId)).endTimer intId).endUart intId

def writeGicc (m : Machine) (offset : ℕ) (value : BitVec 64) : Except Panic Machine :=
  if offset = giccCtlr then .ok { m with cpuInterface := { m.cpuInterface with ctlr := value.setWidth 32 } }
  else if offset = giccPmr then
    .ok { m with cpuInterface := { m.cpuInterface with pmr := value.setWidth 32 } }
  else if offset = giccBpr then
    .ok { m with cpuInterface := { m.cpuInterface with bpr := value.setWidth 32 } }
  else if offset = giccEoir then m.endInterrupt value
  else .ok m

/-! ## Physical interrupts -/

/-- A byte for the guest. -/
def push (m : Machine) (data : UInt8) : Except Panic Machine :=
  let (pl011, raised) := m.pl011.push data
  let m := { m with pl011 := pl011 }
  if raised then m.injectInterrupt pl011IntId else .ok m

/-- The bytes that the physical UART has, one after another. -/
def inputUart (m : Machine) (input : List UInt8) : Except Panic Machine := input.foldlM push m

def irqHandler (m : Machine) (iar : BitVec 32) (input : List UInt8) : Except Panic Machine :=
  let intId := (iar &&& 0x3ff).toNat
  if intId = m.uartInterruptNumber then m.inputUart input
  else if intId = m.genericTimerIntId then
    (m.disableInterrupt m.genericTimerIntId).injectInterrupt m.genericTimerIntId
  else .ok m

end Machine

/-- What can happen to the board, in any order. -/
inductive Event
  | irq (iar : BitVec 32) (input : List UInt8)
  | inject (intId : ℕ)
  | readGicd (offset : ℕ)
  | writeGicd (offset : ℕ) (value : BitVec 64)
  | readGicc (offset : ℕ)
  | writeGicc (offset : ℕ) (value : BitVec 64)
  | readUart (offset : ℕ)
  | writeUart (offset value : ℕ)

def Machine.step (m : Machine) : Event → Except Panic Machine
  | .irq iar input => m.irqHandler iar input
  | .inject intId => m.injectInterrupt intId
  | .readGicd _ => .ok m
  | .writeGicd offset value => .ok (m.writeGicd offset value)
  | .readGicc offset => .ok (m.readGicc offset).2
  | .writeGicc offset value => m.writeGicc offset value
  | .readUart offset => .ok { m with pl011 := (m.pl011.read offset).2 }
  | .writeUart offset value => .ok { m with pl011 := (m.pl011.write offset value).1 }

/-- The parts of an injection. -/
theorem Machine.injectInterrupt_ok {m m' : Machine} {intId : ℕ}
    (h : m.injectInterrupt intId = .ok m') :
    intId < 64 ∧ m'.pending = m.pending ||| (1 : BitVec 64) <<< intId ∧
      m'.hcrEl2 = m.hcrEl2 ||| hcrEl2Vi ∧
      m'.trace = (if m.pending.getLsbD intId then m else m.mark (.injected intId)).trace ∧
      m'.enabled = m.enabled ∧ m'.genericTimerIntId = m.genericTimerIntId := by
  unfold injectInterrupt at h
  by_cases hlt : intId < 64
  · rw [if_pos hlt] at h
    cases h
    refine ⟨hlt, rfl, rfl, rfl, ?_, ?_⟩
    · dsimp only
      split_ifs <;> rfl
    · dsimp only
      split_ifs <;> rfl
  · rw [if_neg hlt] at h
    cases h

/-! ## What a step consists of -/

/-- The operations that a step is made of. The registers of the emulated devices other
than `IAR` and `EOIR` concern neither the pending set nor the physical timer. -/
inductive Move : Machine → Machine → Prop
  | registers {m m'} (pending : m'.pending = m.pending) (hcrEl2 : m'.hcrEl2 = m.hcrEl2)
      (enabled : m'.enabled = m.enabled) (timer : m'.genericTimerIntId = m.genericTimerIntId)
      (trace : m'.trace = m.trace) : Move m m'
  | inject {m m' id} (ok : m.injectInterrupt id = .ok m') : Move m m'
  | acknowledge {m} : Move m m.acknowledgeInterrupt.2
  | timer {m m'} (ok : (m.disableInterrupt m.genericTimerIntId).injectInterrupt
      m.genericTimerIntId = .ok m') : Move m m'
  | ended {m id} (other : id ≠ m.genericTimerIntId) : Move m (m.mark (.ended id))
  | timerEnded {m m'} (ok : (m.mark (.ended m.genericTimerIntId)).enablePpi m.genericTimerIntId =
      .ok m') : Move m m'

open Relation (ReflTransGen)

namespace Machine

variable {m m' : Machine}

theorem registers_move (hpending : m'.pending = m.pending) (hhcr : m'.hcrEl2 = m.hcrEl2)
    (henabled : m'.enabled = m.enabled) (htimer : m'.genericTimerIntId = m.genericTimerIntId)
    (htrace : m'.trace = m.trace) : ReflTransGen Move m m' :=
  .single (.registers hpending hhcr henabled htimer htrace)

theorem push_moves {data : UInt8} (h : m.push data = .ok m') : ReflTransGen Move m m' := by
  have hset : ReflTransGen Move m { m with pl011 := (m.pl011.push data).1 } :=
    registers_move rfl rfl rfl rfl rfl
  simp only [push] at h
  split_ifs at h
  · exact hset.tail (.inject h)
  · cases h
    exact hset

theorem inputUart_moves {input : List UInt8} (h : m.inputUart input = .ok m') :
    ReflTransGen Move m m' := by
  induction input generalizing m with
  | nil =>
    cases h
    exact .refl
  | cons data rest ih =>
    obtain ⟨next, hpush, hrest⟩ := Checked.bind_eq_ok.mp h
    exact (push_moves hpush).trans (ih hrest)

theorem endInterrupt_moves {value : BitVec 64} (h : m.endInterrupt value = .ok m') :
    ReflTransGen Move m m' := by
  obtain ⟨next, htimer, huart⟩ := Checked.bind_eq_ok.mp h
  have hended : ReflTransGen Move m next := by
    unfold endTimer at htimer
    split_ifs at htimer with hid
    · have hid : (value &&& 0x3ff).toNat = m.genericTimerIntId := hid
      rw [hid] at htimer
      exact .single (.timerEnded htimer)
    · cases htimer
      exact .single (.ended hid)
  unfold endUart at huart
  split_ifs at huart
  · exact hended.tail (.inject huart)
  · cases huart
    exact hended
  · cases huart
    exact hended

theorem writeGicc_moves {offset : ℕ} {value : BitVec 64} (h : m.writeGicc offset value = .ok m') :
    ReflTransGen Move m m' := by
  unfold writeGicc at h
  split_ifs at h
  iterate 3
    · cases h
      exact registers_move rfl rfl rfl rfl rfl
  · exact endInterrupt_moves h
  · cases h
    exact .refl

theorem readGicc_moves (m : Machine) (offset : ℕ) : ReflTransGen Move m (m.readGicc offset).2 := by
  unfold readGicc
  split_ifs
  iterate 3 exact .refl
  · exact .single .acknowledge
  · exact .refl
  · exact .refl

/-- Every step is a sequence of moves. -/
theorem step_moves {e : Event} (h : m.step e = .ok m') : ReflTransGen Move m m' := by
  cases e with
  | irq iar input =>
    simp only [step, irqHandler] at h
    split_ifs at h
    · exact inputUart_moves h
    · exact .single (.timer h)
    · cases h
      exact .refl
  | inject intId => exact .single (.inject h)
  | readGicd offset =>
    cases h
    exact .refl
  | writeGicd offset value =>
    cases h
    unfold writeGicd
    split_ifs
    · exact registers_move rfl rfl rfl rfl rfl
    · exact .refl
  | readGicc offset =>
    cases h
    exact readGicc_moves m offset
  | writeGicc offset value => exact writeGicc_moves h
  | readUart offset =>
    cases h
    exact registers_move rfl rfl rfl rfl rfl
  | writeUart offset value =>
    cases h
    exact registers_move rfl rfl rfl rfl rfl

/-- What every move keeps holds after every run. -/
theorem run_keeps {inv : Machine → Prop} (hmove : ∀ m m', inv m → Move m m' → inv m')
    {events : List Event} (hm : inv m) (hrun : Runs.run step m events = .ok m') : inv m' := by
  refine Runs.run_preserves inv (fun s e s' hs hstep => ?_) events m m' hm hrun
  have hmoves := step_moves hstep
  clear hstep
  induction hmoves with
  | refl => exact hs
  | tail _ hlast ih => exact hmove _ _ ih hlast

end Machine

end Min1visor.Gicv2
