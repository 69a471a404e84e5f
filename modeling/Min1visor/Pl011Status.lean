import Min1visor.Pl011

/-!
# The status registers of the PL011

Two bits tell the guest about its receive queue: `UART_FR.RXFE` that it is empty, and
`UART_RIS.RXRIS`, behind the mask, that it is not. A new device reports neither, and a
byte that arrives under the mask does not raise the second.
-/
namespace Min1visor.Pl011

/-- `UART_RIS.RXRIS`, as the guest sees it. -/
def Pl011Mmio.rxris (p : Pl011Mmio) : Bool := p.rawInterruptStatus &&& uartRisRxris ≠ 0

/-- The receive interrupt is not masked. -/
def Pl011Mmio.Unmasked (p : Pl011Mmio) : Prop := p.interruptMask &&& uartImscRxim ≠ 0

instance (p : Pl011Mmio) : Decidable p.Unmasked := inferInstanceAs (Decidable (_ ≠ _))

/-- The device next to a queue of four bytes. -/
structure Receiver where
  device : Pl011Mmio
  unread : List UInt8

def Receiver.start : Receiver := ⟨Pl011Mmio.new, []⟩

def Receiver.step (s : Receiver) : LineEvent → Except Panic Receiver
  | .push data =>
    .ok ⟨(s.device.push data).1, if s.unread.length < 4 then s.unread ++ [data] else s.unread⟩
  | .read offset =>
    .ok ⟨(s.device.read offset).2, if offset = uartDr then s.unread.tail else s.unread⟩
  | .write offset value => .ok ⟨(s.device.write offset value).1, s.unread⟩

/-- The status registers describe the queue. -/
structure Receiver.Truthful (s : Receiver) : Prop where
  empty : s.device.rxfe = true ↔ s.unread = []
  raised : s.device.rxris = true ↔ s.unread ≠ []
  masked : (s.device.read uartMis).1 ≠ 0 ↔ s.unread ≠ [] ∧ s.device.Unmasked
  pending : s.device.isRxPending = true ↔ s.unread ≠ [] ∧ s.device.Unmasked

/-- A byte is not 0 and arrives unmasked or behind another one, the data register of a
full buffer is not read, and raw interrupts are not cleared by the guest. -/
def Receiver.Regular (s : Receiver) : LineEvent → Prop
  | .push data => (data ≠ 0 ∨ s.unread.length = 4) ∧ (s.device.Unmasked ∨ s.unread ≠ [])
  | .read offset => offset = uartDr → s.unread.length < 4
  | .write offset _ => offset ≠ uartIcr

/-- The steps that set or clear `UART_FR.RXFE`. -/
def LineEvent.Flags : LineEvent → Prop
  | .push _ => True
  | .read offset => offset = uartDr
  | .write _ _ => False

/-- The representation of the queue; the flag is only right once it was touched. -/
structure Receiver.Inv (s : Receiver) (flagged : Prop) : Prop where
  holds : Holds s.device s.unread
  raw : s.device.rawInterruptStatus = if s.unread = [] then 0 else uartRisRxris
  flag : flagged → (s.device.rxfe = true ↔ s.unread = [])
  fresh : ¬ flagged → s.unread = [] ∧ s.device.rxfe = false

/-- The bits of the raw status behind the mask. -/
theorem masked_iff {p : Pl011Mmio} {unread : List UInt8}
    (h : p.rawInterruptStatus = if unread = [] then 0 else uartRisRxris) :
    p.rawInterruptStatus &&& p.interruptMask ≠ 0 ↔ unread ≠ [] ∧ p.Unmasked := by
  rw [h]
  split_ifs with hnil
  · simp [hnil]
  · have hbit : uartRisRxris &&& p.interruptMask = p.interruptMask &&& uartImscRxim :=
      BitVec.and_comm _ _
    simp [hnil, hbit, Pl011Mmio.Unmasked]

theorem Receiver.Inv.truthful_iff {s : Receiver} {flagged : Prop} (h : s.Inv flagged) :
    s.Truthful ↔ flagged := by
  constructor
  · intro ht
    by_contra hnot
    obtain ⟨hnil, hrxfe⟩ := h.fresh hnot
    have := ht.empty.mpr hnil
    rw [hrxfe] at this
    cases this
  · intro hflagged
    have hmasked := masked_iff h.raw
    have hnat : (s.device.rawInterruptStatus &&& s.device.interruptMask).toNat ≠ 0 ↔
        s.unread ≠ [] ∧ s.device.Unmasked := by
      rw [← hmasked]
      exact not_congr (BitVec.toNat_inj (y := 0))
    refine ⟨h.flag hflagged, ?_, ?_, ?_⟩
    · rw [Pl011Mmio.rxris, h.raw]
      split_ifs with hnil
      · simp [hnil]
      · simpa [hnil] using show uartRisRxris &&& uartRisRxris ≠ 0 by decide
    · exact hnat
    · rw [← hnat, BitVec.toNat_and]
      simp [Pl011Mmio.isRxPending, Pl011Mmio.read, uartDr, uartFr, uartCr, uartImsc, uartRis]

theorem Receiver.step_push {s : Receiver} {flagged : Prop} (hinv : s.Inv flagged) {data : UInt8}
    (hr : s.Regular (.push data)) :
    ∃ s', s.step (.push data) = .ok s' ∧ s'.Inv (flagged ∨ LineEvent.Flags (.push data)) := by
  obtain ⟨hdata, hraised⟩ := hr
  have hsome : (if s.unread.length < 4 then s.unread ++ [data] else s.unread) ≠ [] := by
    split_ifs with hroom
    · simp
    · intro hnil
      simp [hnil] at hroom
  refine ⟨_, rfl, push_holds hinv.holds hdata, ?_, ?_, fun h => absurd (.inr trivial) h⟩
  · change (s.device.push data).1.rawInterruptStatus = _
    rw [if_neg hsome, Pl011Mmio.push]
    dsimp only
    split_ifs with hmask
    · change s.device.rawInterruptStatus ||| uartRisRxris = uartRisRxris
      rw [hinv.raw]
      split_ifs <;> decide
    · -- Under the mask the bit stays as the bytes before have set it.
      rw [hinv.raw, if_neg]
      exact hraised.resolve_left fun h => hmask h
  · intro _
    simp [hsome]

theorem Receiver.step_read {s : Receiver} {flagged : Prop} (hinv : s.Inv flagged) {offset : ℕ}
    (hr : s.Regular (.read offset)) :
    ∃ s', s.step (.read offset) = .ok s' ∧ s'.Inv (flagged ∨ LineEvent.Flags (.read offset)) := by
  by_cases hoff : offset = uartDr
  · subst hoff
    obtain ⟨-, hholds, hrxfe⟩ := readData_holds hinv.holds (hr rfl)
    refine ⟨⟨s.device.readData.2, s.unread.tail⟩, by simp [Receiver.step, Pl011Mmio.read], hholds,
      ?_, ?_, fun h => absurd (.inr rfl) h⟩
    · change s.device.readData.2.rawInterruptStatus = if s.unread.tail = [] then 0 else uartRisRxris
      rw [Pl011Mmio.readData]
      dsimp only
      split_ifs with hfree hnil hnil
      · change s.device.rawInterruptStatus &&& ~~~uartRisRxris = 0
        rw [hinv.raw]
        split_ifs <;> decide
      · exact absurd ((shiftBuffer_free_iff hinv.holds (hr rfl)).mp hfree) hnil
      · exact absurd ((shiftBuffer_free_iff hinv.holds (hr rfl)).mpr hnil) hfree
      · refine hinv.raw.trans (if_neg fun hunread => hnil ?_)
        rw [hunread]
        rfl
    · intro _
      rw [hrxfe, Bool.or_eq_true, decide_eq_true_eq]
      constructor
      · rintro (h | h)
        · exact h
        · by_cases hflagged : flagged
          · rw [(hinv.flag hflagged).mp h]
            rfl
          · rw [(hinv.fresh hflagged).2] at h
            cases h
      · exact Or.inl
  · refine ⟨s, by simp [Receiver.step, hoff, read_other], ?_⟩
    have hsame : (flagged ∨ LineEvent.Flags (.read offset)) = flagged := by
      simp [LineEvent.Flags, hoff]
    rwa [hsame]

theorem Receiver.step_write {s : Receiver} {flagged : Prop} (hinv : s.Inv flagged)
    {offset value : ℕ} (hr : s.Regular (.write offset value)) :
    ∃ s', s.step (.write offset value) = .ok s' ∧
      s'.Inv (flagged ∨ LineEvent.Flags (.write offset value)) := by
  obtain ⟨hbuf, hflag⟩ := write_readBuffer s.device offset value
  have hraw : (s.device.write offset value).1.rawInterruptStatus = s.device.rawInterruptStatus := by
    unfold Pl011Mmio.write
    split_ifs with _ _ _ hicr
    · rfl
    · rfl
    · rfl
    · exact absurd hicr hr
    · rfl
  have hsame : (flagged ∨ LineEvent.Flags (.write offset value)) = flagged := by
    simp [LineEvent.Flags]
  rw [hsame]
  refine ⟨_, rfl, ?_, hraw.trans hinv.raw, ?_, ?_⟩
  · simpa [Holds, hbuf] using hinv.holds
  · simpa [Pl011Mmio.rxfe, hflag] using hinv.flag
  · simpa [Pl011Mmio.rxfe, hflag] using hinv.fresh

/-- A regular run keeps the representation. -/
theorem Receiver.run_inv (events : List LineEvent) {s : Receiver} {flagged : Prop}
    (hinv : s.Inv flagged) (h : Runs.Along Receiver.step Receiver.Regular s events) :
    ∃ s', Runs.run Receiver.step s events = .ok s' ∧
      s'.Inv (flagged ∨ ∃ e ∈ events, e.Flags) := by
  induction events generalizing s flagged with
  | nil => exact ⟨s, rfl, by simpa using hinv⟩
  | cons e rest ih =>
    obtain ⟨hr, hrest⟩ := h
    obtain ⟨s', hstep, hinv'⟩ : ∃ s', s.step e = .ok s' ∧ s'.Inv (flagged ∨ e.Flags) := by
      cases e with
      | push data => exact step_push hinv hr
      | read offset => exact step_read hinv hr
      | write offset value => exact step_write hinv hr
    obtain ⟨s'', hrun, hinv''⟩ := ih hinv' (hrest s' hstep)
    refine ⟨s'', by rw [Runs.run_cons_ok _ hstep, hrun], ?_⟩
    simpa only [List.mem_cons, exists_eq_or_imp, or_assoc] using hinv''

/-- In a regular run from a new device, the status registers are right as soon as a
byte has arrived or the data register was read, and not before. -/
theorem regular_run_truthful (events : List LineEvent)
    (h : Runs.Along Receiver.step Receiver.Regular Receiver.start events) :
    ∃ s, Runs.run Receiver.step Receiver.start events = .ok s ∧
      (s.Truthful ↔ ∃ e ∈ events, e.Flags) := by
  have hstart : Receiver.start.Inv False :=
    ⟨⟨by simp [Receiver.start], by simp [Receiver.start], rfl⟩, rfl, False.elim, fun _ => ⟨rfl, rfl⟩⟩
  obtain ⟨s, hrun, hinv⟩ := Receiver.run_inv events hstart h
  rw [false_or] at hinv
  exact ⟨s, hrun, hinv.truthful_iff⟩

theorem regular_run_truthful_two_bytes :
    ∃ s, Runs.run Receiver.step Receiver.start
        [.write uartImsc 16, .push 65, .write uartImsc 0, .push 66, .read uartDr] = .ok s ∧
      (s.Truthful ↔ ∃ e ∈ [LineEvent.write uartImsc 16, .push 65, .write uartImsc 0, .push 66,
        .read uartDr], e.Flags) :=
  regular_run_truthful _ (by simp [Runs.Along, Receiver.step, Receiver.Regular, Receiver.start,
    Pl011Mmio.Unmasked, Pl011Mmio.new, Pl011Mmio.write, uartDr, uartCr, uartImsc, uartIcr,
    uartImscRxim])

/-- A new device does not report its empty queue, a byte that arrives under the mask is
not reported when the mask is lifted, the byte 0 is not there for the second of two reads,
and a buffer that was full does not become empty. -/
theorem status_lies :
    ¬ Receiver.start.Truthful ∧
    (∃ s, Runs.run Receiver.step Receiver.start [.read uartDr, .push 65, .write uartImsc 16] = .ok s ∧
      ¬ s.Truthful) ∧
    (∃ s, Runs.run Receiver.step Receiver.start [.write uartImsc 16, .push 65, .push 0, .read uartDr] =
      .ok s ∧ ¬ s.Truthful) ∧
    ∃ s, Runs.run Receiver.step Receiver.start [.write uartImsc 16, .push 65, .push 66, .push 67,
      .push 68, .read uartDr, .read uartDr, .read uartDr, .read uartDr] = .ok s ∧ ¬ s.Truthful := by
  refine ⟨fun h => ?_, ⟨_, rfl, fun h => ?_⟩, ⟨_, rfl, fun h => ?_⟩, ⟨_, rfl, fun h => ?_⟩⟩
  · exact absurd (h.empty.mpr rfl) (by decide)
  · exact absurd (h.raised.mpr (by decide)) (by decide)
  · exact absurd (h.raised.mpr (by decide)) (by decide)
  · exact absurd (h.empty.mpr (by decide)) (by decide)

end Min1visor.Pl011
