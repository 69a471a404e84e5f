import Min1visor.Library.Runs
import Min1visor.Library.Checked
import Mathlib.Tactic

/-!
# The emulated PL011

Four 16-bit registers and a receive buffer of four bytes. A slot of the buffer
counts as free when it holds the byte 0, and a read of the data register moves
the remaining slots forward without clearing the last one.
-/
namespace Min1visor.Pl011

def uartDr : ℕ := 0x000
def uartFr : ℕ := 0x018
def uartCr : ℕ := 0x030
def uartImsc : ℕ := 0x038
def uartRis : ℕ := 0x03C
def uartMis : ℕ := 0x040
def uartIcr : ℕ := 0x044
def uartPeriphId0 : ℕ := 0xFE0
def uartPeriphId1 : ℕ := 0xFE4
def uartPeriphId2 : ℕ := 0xFE8
def uartPeriphId3 : ℕ := 0xFEC
def uartPcellId0 : ℕ := 0xFF0
def uartPcellId1 : ℕ := 0xFF4
def uartPcellId2 : ℕ := 0xFF8
def uartPcellId3 : ℕ := 0xFFC

/-- The receive FIFO is empty. -/
def uartFrRxfe : BitVec 16 := 1 <<< 4
/-- The receive interrupt is enabled. -/
def uartImscRxim : BitVec 16 := 1 <<< 4
/-- A receive interrupt has occurred. -/
def uartRisRxris : BitVec 16 := 1 <<< 4

structure Pl011Mmio where
  flag : BitVec 16
  interruptMask : BitVec 16
  rawInterruptStatus : BitVec 16
  control : BitVec 16
  readBuffer : List UInt8
  deriving DecidableEq, Repr

def Pl011Mmio.new : Pl011Mmio := ⟨0, 0, 0, 0, [0, 0, 0, 0]⟩

/-- Store the byte in the first slot that holds 0; without one it is dropped. -/
def storeFirstFree (data : UInt8) : List UInt8 → List UInt8
  | [] => []
  | c :: rest => if c = 0 then data :: rest else c :: storeFirstFree data rest

/-- The receive path. The flag tells whether the board's interrupt controller
is asked to raise the UART interrupt. -/
def Pl011Mmio.push (p : Pl011Mmio) (data : UInt8) : Pl011Mmio × Bool :=
  let p := { p with readBuffer := storeFirstFree data p.readBuffer }
  let p := { p with flag := p.flag &&& ~~~uartFrRxfe }
  if p.interruptMask &&& uartImscRxim ≠ 0 then
    ({ p with rawInterruptStatus := p.rawInterruptStatus ||| uartRisRxris }, true)
  else (p, false)

/-- `for i in 1..len { buffer[i - 1] = buffer[i] }`. -/
def shiftBuffer (buffer : List UInt8) : List UInt8 :=
  (List.range' 1 (buffer.length - 1)).foldl (fun b i => b.set (i - 1) (b.getD i 0)) buffer

/-- The read of the data register. -/
def Pl011Mmio.readData (p : Pl011Mmio) : ℕ × Pl011Mmio :=
  let value := (p.readBuffer.getD 0 0).toNat
  let p := { p with readBuffer := shiftBuffer p.readBuffer }
  if p.readBuffer.getD 0 0 = 0 then
    (value, { p with
      flag := p.flag ||| uartFrRxfe
      rawInterruptStatus := p.rawInterruptStatus &&& ~~~uartRisRxris })
  else (value, p)

def Pl011Mmio.read (p : Pl011Mmio) (offset : ℕ) : ℕ × Pl011Mmio :=
  if offset = uartDr then p.readData
  else if offset = uartFr then (p.flag.toNat, p)
  else if offset = uartCr then (p.control.toNat, p)
  else if offset = uartImsc then (p.interruptMask.toNat, p)
  else if offset = uartRis then (p.rawInterruptStatus.toNat, p)
  else if offset = uartMis then ((p.rawInterruptStatus &&& p.interruptMask).toNat, p)
  else if offset = uartPeriphId0 then (0x11, p)
  else if offset = uartPeriphId1 then (0x01 <<< 4, p)
  else if offset = uartPeriphId2 then ((0x03 <<< 4) ||| 0x04, p)
  else if offset = uartPeriphId3 then (0x00, p)
  else if offset = uartPcellId0 then (0x0D, p)
  else if offset = uartPcellId1 then (0xF0, p)
  else if offset = uartPcellId2 then (0x05, p)
  else if offset = uartPcellId3 then (0xB1, p)
  else (0x00, p)

/-- A register write; the second component is a byte sent to the console. -/
def Pl011Mmio.write (p : Pl011Mmio) (offset value : ℕ) : Pl011Mmio × Option UInt8 :=
  if offset = uartDr then (p, some (UInt8.ofNat value))
  else if offset = uartCr then ({ p with control := BitVec.ofNat 16 value }, none)
  else if offset = uartImsc then ({ p with interruptMask := BitVec.ofNat 16 value }, none)
  else if offset = uartIcr then
    ({ p with rawInterruptStatus := p.rawInterruptStatus &&& ~~~(BitVec.ofNat 16 value) }, none)
  else (p, none)

def Pl011Mmio.isRxPending (p : Pl011Mmio) : Bool :=
  let ris := (p.read uartRis).1
  let imsc := (p.read uartImsc).1
  ris &&& imsc ≠ 0

/-- `UART_FR.RXFE`, as the guest sees it. -/
def Pl011Mmio.rxfe (p : Pl011Mmio) : Bool := p.flag &&& uartFrRxfe ≠ 0

/-! ## The receive path as a queue -/

/-- The device with what the line has delivered to it and what the guest has
read: `accepted` lists the pushed bytes that a queue of four would have taken,
`delivered` the bytes read while the device reported a non-empty queue. -/
structure Line where
  device : Pl011Mmio
  accepted : List UInt8
  delivered : List UInt8
  deriving DecidableEq, Repr

inductive LineEvent
  | push (data : UInt8)
  | read (offset : ℕ)
  | write (offset value : ℕ)

def Line.start : Line := ⟨Pl011Mmio.new, [], []⟩

/-- Bytes accepted and not yet read. -/
def Line.unread (s : Line) : ℕ := s.accepted.length - s.delivered.length

def Line.step (s : Line) : LineEvent → Except Panic Line
  | .push data =>
    .ok ⟨(s.device.push data).1,
      if s.unread < 4 then s.accepted ++ [data] else s.accepted, s.delivered⟩
  | .read offset =>
    .ok ⟨(s.device.read offset).2, s.accepted,
      if offset = uartDr ∧ s.device.rxfe = false
      then s.delivered ++ [UInt8.ofNat (s.device.read offset).1] else s.delivered⟩
  | .write offset value => .ok ⟨(s.device.write offset value).1, s.accepted, s.delivered⟩

/-- What a receive queue owes the guest: bytes come out in the order in which
they were accepted, each once; while one is unread the queue says so; and once
all were read it is empty. -/
structure Line.FifoLaw (s : Line) : Prop where
  inOrder : s.delivered <+: s.accepted
  available : s.delivered ≠ s.accepted → s.device.rxfe = false
  drained : s.delivered ≠ [] → s.delivered = s.accepted → s.device.rxfe = true

/-- The steps on which slots and queue agree: a byte other than 0 arrives, or
the queue is full and the byte is dropped anyway; and the data register is read
neither before anything has arrived nor from a full buffer. -/
def Line.Regular (s : Line) : LineEvent → Prop
  | .push data => data ≠ 0 ∨ s.unread = 4
  | .read offset => offset = uartDr → s.accepted ≠ [] ∧ s.unread < 4
  | .write _ _ => True

/-- The buffer holds the unread bytes, none of them 0, and then free slots. -/
def Holds (p : Pl011Mmio) (unread : List UInt8) : Prop :=
  unread.length ≤ 4 ∧ (∀ b ∈ unread, b ≠ 0) ∧
    p.readBuffer = unread ++ List.replicate (4 - unread.length) 0

/-- The representation of the queue in the device. -/
structure Line.Inv (s : Line) (unread : List UInt8) : Prop where
  accepted : s.accepted = s.delivered ++ unread
  holds : Holds s.device unread
  flag : s.accepted ≠ [] → (s.device.rxfe = true ↔ unread = [])

theorem Line.Inv.unread_eq {s : Line} {unread : List UInt8} (h : s.Inv unread) :
    s.unread = unread.length := by
  simp [Line.unread, h.accepted]

theorem Line.Inv.law {s : Line} {unread : List UInt8} (h : s.Inv unread) : s.FifoLaw where
  inOrder := h.accepted ▸ List.prefix_append _ _
  available hne := by
    have hu : unread ≠ [] := by
      rintro rfl
      exact hne (by simp [h.accepted])
    have ha : s.accepted ≠ [] := by simp [h.accepted, hu]
    cases hr : s.device.rxfe with
    | false => rfl
    | true => exact absurd ((h.flag ha).mp hr) hu
  drained hd heq := by
    have hu : unread = [] := by simpa [h.accepted] using heq
    exact (h.flag (heq ▸ hd)).mpr hu

theorem storeFirstFree_free (data : UInt8) (unread : List UInt8) (n : ℕ)
    (h : ∀ b ∈ unread, b ≠ 0) :
    storeFirstFree data (unread ++ List.replicate (n + 1) 0) =
      unread ++ [data] ++ List.replicate n 0 := by
  induction unread with
  | nil => simp [storeFirstFree, List.replicate_succ]
  | cons b rest ih =>
    have hb : b ≠ 0 := h b (by simp)
    have hrest := ih fun c hc => h c (by simp [hc])
    simp only [List.cons_append, storeFirstFree, if_neg hb, hrest]

theorem storeFirstFree_full (data : UInt8) (unread : List UInt8) (h : ∀ b ∈ unread, b ≠ 0) :
    storeFirstFree data unread = unread := by
  induction unread with
  | nil => rfl
  | cons b rest ih =>
    have hb : b ≠ 0 := h b (by simp)
    have hrest := ih fun c hc => h c (by simp [hc])
    simp only [storeFirstFree, if_neg hb, hrest]

@[simp] theorem push_rxfe (p : Pl011Mmio) (data : UInt8) : (p.push data).1.rxfe = false := by
  have h : (p.flag &&& ~~~uartFrRxfe) &&& uartFrRxfe = 0 := by
    rw [BitVec.and_assoc]
    simp
  simp only [Pl011Mmio.push, Pl011Mmio.rxfe]
  split_ifs <;> simp [h]

@[simp] theorem push_readBuffer (p : Pl011Mmio) (data : UInt8) :
    (p.push data).1.readBuffer = storeFirstFree data p.readBuffer := by
  simp only [Pl011Mmio.push]
  split_ifs <;> rfl

/-- A byte behind the others; without room it is dropped on both sides. -/
theorem push_holds {p : Pl011Mmio} {unread : List UInt8} (h : Holds p unread) {data : UInt8}
    (hdata : data ≠ 0 ∨ unread.length = 4) :
    Holds (p.push data).1 (if unread.length < 4 then unread ++ [data] else unread) := by
  obtain ⟨hlen, hne, hbuf⟩ := h
  split_ifs with hroom
  · obtain ⟨n, hn⟩ : ∃ n, 4 - unread.length = n + 1 := ⟨3 - unread.length, by omega⟩
    have hdata : data ≠ 0 := by
      rcases hdata with h | h
      · exact h
      · omega
    refine ⟨?_, ?_, ?_⟩
    · simp only [List.length_append, List.length_singleton]
      omega
    · intro b hb
      rcases List.mem_append.mp hb with h | h
      · exact hne b h
      · simpa [List.mem_singleton.mp h] using hdata
    · rw [push_readBuffer, hbuf, hn, storeFirstFree_free data unread n hne]
      congr 2
      simp only [List.length_append, List.length_singleton]
      omega
  · have hfour : unread.length = 4 := by omega
    refine ⟨hlen, hne, ?_⟩
    rw [push_readBuffer, hbuf, hfour]
    simpa using storeFirstFree_full data unread hne

theorem Line.step_push {s : Line} {unread : List UInt8} (hinv : s.Inv unread) (data : UInt8)
    (hr : data ≠ 0 ∨ s.unread = 4) :
    ∃ s' unread', s.step (.push data) = .ok s' ∧ s'.Inv unread' := by
  have hcount := hinv.unread_eq
  rw [hcount] at hr
  refine ⟨_, if unread.length < 4 then unread ++ [data] else unread, rfl,
    ⟨?_, push_holds hinv.holds hr, ?_⟩⟩
  · rw [hcount, hinv.accepted]
    split_ifs <;> simp
  · have hlen := hinv.holds.1
    have hsome : (if unread.length < 4 then unread ++ [data] else unread) ≠ [] := by
      split_ifs with hroom
      · simp
      · rintro rfl
        simp at hroom
    simp [hsome]

/-- Below the full level the read moves the queue forward by one byte. -/
theorem shiftBuffer_holds (unread : List UInt8) (h : unread.length < 4) :
    shiftBuffer (unread ++ List.replicate (4 - unread.length) 0) =
      unread.tail ++ List.replicate (4 - unread.tail.length) 0 := by
  match unread, h with
  | [], _ => rfl
  | [_], _ => rfl
  | [_, _], _ => rfl
  | [_, _, _], _ => rfl

theorem getD_zero_holds (unread : List UInt8) :
    (unread ++ List.replicate (4 - unread.length) 0).getD 0 0 = unread.headD 0 := by
  cases unread with
  | nil => rfl
  | cons b rest => rfl

theorem or_rxfe (flag : BitVec 16) : (flag ||| uartFrRxfe) &&& uartFrRxfe ≠ 0 := by
  have h : (flag ||| uartFrRxfe) &&& uartFrRxfe = uartFrRxfe := by
    ext i hi
    simp only [BitVec.getElem_and, BitVec.getElem_or]
    cases uartFrRxfe[i] <;> simp
  rw [h]
  decide

/-- The first slot after a read is free exactly when nothing is left. -/
theorem shiftBuffer_free_iff {p : Pl011Mmio} {unread : List UInt8} (h : Holds p unread)
    (hlen : unread.length < 4) : (shiftBuffer p.readBuffer).getD 0 0 = 0 ↔ unread.tail = [] := by
  obtain ⟨_, hne, hbuf⟩ := h
  rw [hbuf, shiftBuffer_holds unread hlen, getD_zero_holds]
  cases ht : unread.tail with
  | nil => simp
  | cons b rest => simpa using hne b (List.mem_of_mem_tail (by simp [ht]))

/-- Reading moves the queue forward and reports it empty when nothing is left. -/
theorem readData_holds {p : Pl011Mmio} {unread : List UInt8} (h : Holds p unread)
    (hlen : unread.length < 4) :
    p.readData.1 = (unread.headD 0).toNat ∧ Holds p.readData.2 unread.tail ∧
      p.readData.2.rxfe = (decide (unread.tail = []) || p.rxfe) := by
  have hfree := shiftBuffer_free_iff h hlen
  obtain ⟨_, hne, hbuf⟩ := h
  have hval : (p.readBuffer.getD 0 0).toNat = (unread.headD 0).toNat := by
    rw [hbuf, getD_zero_holds]
  have hnew : ∀ q : Pl011Mmio, q.readBuffer = shiftBuffer p.readBuffer → Holds q unread.tail :=
    fun q hq => ⟨by simp only [List.length_tail]; omega,
      fun b hb => hne b (List.mem_of_mem_tail hb), by rw [hq, hbuf, shiftBuffer_holds unread hlen]⟩
  simp only [Pl011Mmio.readData]
  by_cases hz : unread.tail = []
  · rw [if_pos (hfree.mpr hz)]
    refine ⟨hval, hnew _ rfl, ?_⟩
    simpa [Pl011Mmio.rxfe, hz] using or_rxfe p.flag
  · rw [if_neg (fun hc => hz (hfree.mp hc))]
    refine ⟨hval, hnew _ rfl, ?_⟩
    simp [Pl011Mmio.rxfe, hz]

/-- Registers other than the data register leave the device as it is. -/
theorem read_other (p : Pl011Mmio) {offset : ℕ} (h : offset ≠ uartDr) :
    (p.read offset).2 = p := by
  simp only [Pl011Mmio.read, if_neg h, apply_ite Prod.snd, ite_self]

theorem Line.step_read {s : Line} {unread : List UInt8} (hinv : s.Inv unread) (offset : ℕ)
    (hr : offset = uartDr → s.accepted ≠ [] ∧ s.unread < 4) :
    ∃ s' unread', s.step (.read offset) = .ok s' ∧ s'.Inv unread' := by
  by_cases hoff : offset = uartDr
  · obtain ⟨ha, hlt⟩ := hr hoff
    subst hoff
    rw [hinv.unread_eq] at hlt
    obtain ⟨hval, hholds, hrxfe⟩ := readData_holds hinv.holds hlt
    have hread : s.device.read uartDr = s.device.readData := rfl
    refine ⟨_, unread.tail, rfl, ⟨?_, by simpa [hread] using hholds, ?_⟩⟩
    · cases hu : unread with
      | nil =>
        have hfe : s.device.rxfe = true := (hinv.flag ha).mpr hu
        simp [hfe, hinv.accepted, hu]
      | cons b rest =>
        have hfe : s.device.rxfe = false := by
          cases hf : s.device.rxfe with
          | false => rfl
          | true => simp [(hinv.flag ha).mp hf] at hu
        simp [hfe, hinv.accepted, hread, hval, hu]
    · intro _
      simp only [hread, hrxfe, Bool.or_eq_true, decide_eq_true_eq]
      constructor
      · rintro (h | h)
        · exact h
        · simp [(hinv.flag ha).mp h]
      · exact Or.inl
  · refine ⟨_, unread, rfl, ⟨by simp [hoff, hinv.accepted], ?_, ?_⟩⟩
    · simpa [read_other s.device hoff] using hinv.holds
    · simpa [read_other s.device hoff] using hinv.flag

@[simp] theorem write_readBuffer (p : Pl011Mmio) (offset value : ℕ) :
    (p.write offset value).1.readBuffer = p.readBuffer ∧
      (p.write offset value).1.flag = p.flag := by
  unfold Pl011Mmio.write
  split_ifs <;> exact ⟨rfl, rfl⟩

theorem Line.step_write {s : Line} {unread : List UInt8} (hinv : s.Inv unread)
    (offset value : ℕ) :
    ∃ s' unread', s.step (.write offset value) = .ok s' ∧ s'.Inv unread' := by
  obtain ⟨hbuf, hflag⟩ := write_readBuffer s.device offset value
  refine ⟨_, unread, rfl, ⟨hinv.accepted, ?_, ?_⟩⟩
  · simpa [Holds, hbuf] using hinv.holds
  · simpa [Pl011Mmio.rxfe, hflag] using hinv.flag

/-- On every run of regular steps the receive path is a queue. -/
theorem regular_run_fifo (events : List LineEvent)
    (h : Runs.Along Line.step Line.Regular Line.start events) :
    ∃ s, Runs.run Line.step Line.start events = .ok s ∧ s.FifoLaw := by
  have hstep : ∀ s e, (∃ unread, Line.Inv s unread) → s.Regular e →
      ∃ s', s.step e = .ok s' ∧ ∃ unread, Line.Inv s' unread := by
    rintro s e ⟨unread, hinv⟩ hreg
    cases e with
    | push data =>
      obtain ⟨s', u', hs, hi⟩ := Line.step_push hinv data hreg
      exact ⟨s', hs, u', hi⟩
    | read offset =>
      obtain ⟨s', u', hs, hi⟩ := Line.step_read hinv offset hreg
      exact ⟨s', hs, u', hi⟩
    | write offset value =>
      obtain ⟨s', u', hs, hi⟩ := Line.step_write hinv offset value
      exact ⟨s', hs, u', hi⟩
  have hstart : ∃ unread, Line.Inv Line.start unread :=
    ⟨[], ⟨rfl, ⟨by simp, by simp, rfl⟩, by simp [Line.start]⟩⟩
  obtain ⟨s, hrun, unread, hinv⟩ := Runs.run_total _ hstep events Line.start hstart h
  exact ⟨s, hrun, hinv.law⟩

theorem regular_run_fifo_three_bytes :
    ∃ s, Runs.run Line.step Line.start
        [.push 65, .push 66, .read uartFr, .read uartDr, .push 67, .read uartDr] = .ok s ∧
      s.FifoLaw :=
  regular_run_fifo _ (by simp [Runs.Along, Line.step, Line.Regular, Line.start, Line.unread,
    Pl011Mmio.rxfe, Pl011Mmio.new, Pl011Mmio.push, Pl011Mmio.read, uartDr, uartFr,
    storeFirstFree, uartFrRxfe, uartImscRxim])

/-- The law breaks on a byte 0 behind another byte, on reading a buffer that was
full, whose last slot then never empties, and on a read before anything has
arrived. -/
theorem fifo_law_breaks :
    (∃ s, Runs.run Line.step Line.start [.push 65, .push 0, .read uartDr] = .ok s ∧
      ¬ s.FifoLaw) ∧
    (∃ s, Runs.run Line.step Line.start [.push 65, .push 66, .push 67, .push 68,
      .read uartDr, .read uartDr, .read uartDr, .read uartDr, .read uartDr] = .ok s ∧
      ¬ s.FifoLaw) ∧
    ∃ s, Runs.run Line.step Line.start [.read uartDr] = .ok s ∧ ¬ s.FifoLaw := by
  refine ⟨⟨_, rfl, fun h => ?_⟩, ⟨_, rfl, fun h => ?_⟩, ⟨_, rfl, fun h => ?_⟩⟩
  · exact absurd (h.available (by decide)) (by decide)
  · exact absurd h.inOrder (by decide)
  · exact absurd h.inOrder (by decide)

end Min1visor.Pl011
