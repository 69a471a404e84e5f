import Min1visor.Pl011Status
import Min1visor.Library.BitSet

/-!
# The receive interrupt of the PL011

A byte that is pushed under the mask raises nothing, and a status that the guest clears is
not raised again by the bytes that are left. Apart from these two steps a byte that waits
unmasked has raised the interrupt.
-/
namespace Min1visor.Pl011

/-- The first slot holds a byte. -/
def Waits (p : Pl011Mmio) : Prop := p.readBuffer.getD 0 0 ≠ 0

instance (p : Pl011Mmio) : Decidable (Waits p) := inferInstanceAs (Decidable (_ ≠ _))

theorem waits_iff {p : Pl011Mmio} {unread : List UInt8} (h : Holds p unread) :
    Waits p ↔ unread ≠ [] := by
  obtain ⟨-, hne, hbuf⟩ := h
  rw [Waits, hbuf, getD_zero_holds]
  cases unread with
  | nil => simp
  | cons b rest => simpa using hne b (by simp)

/-- Slots that hold bytes in front of the free ones. -/
def Packed (p : Pl011Mmio) : Prop := ∃ unread, Holds p unread

theorem Packed.push {p : Pl011Mmio} (h : Packed p) (data : UInt8) : Packed (p.push data).1 := by
  obtain ⟨unread, h⟩ := h
  by_cases hdata : data ≠ 0 ∨ unread.length = 4
  · exact ⟨_, push_holds h hdata⟩
  · -- The byte 0 leaves a free slot free.
    obtain ⟨hlen, hne, hbuf⟩ := h
    obtain ⟨rfl, hroom⟩ : data = 0 ∧ unread.length ≠ 4 := by simpa [not_or] using hdata
    obtain ⟨n, hn⟩ : ∃ n, 4 - unread.length = n + 1 := ⟨3 - unread.length, by omega⟩
    refine ⟨unread, hlen, hne, ?_⟩
    rw [push_readBuffer, hbuf, hn, storeFirstFree_free 0 unread n hne, List.append_assoc,
      List.replicate_succ]
    rfl

/-- A read moves the bytes forward. The last byte of a full buffer stays. -/
theorem Packed.readData {p : Pl011Mmio} (h : Packed p) :
    Packed p.readData.2 ∧ (Waits p.readData.2 → Waits p) := by
  obtain ⟨unread, h⟩ := h
  by_cases hlen : unread.length < 4
  · obtain ⟨-, hholds, -⟩ := readData_holds h hlen
    refine ⟨⟨_, hholds⟩, ?_⟩
    rw [waits_iff hholds, waits_iff h]
    exact fun hrest hnil => hrest (by simp [hnil])
  · obtain ⟨hle, hne, hbuf⟩ := h
    have hwaits : Waits p := by
      rw [waits_iff ⟨hle, hne, hbuf⟩]
      rintro rfl
      simp at hlen
    obtain ⟨a, b, c, d, rfl⟩ := List.length_eq_four.mp (show unread.length = 4 by omega)
    have hshift : p.readData.2.readBuffer = [b, c, d, d] := by
      simp only [Pl011Mmio.readData, hbuf]
      split_ifs <;> rfl
    refine ⟨⟨[b, c, d, d], le_rfl, fun x hx => hne x ?_, hshift⟩, fun _ => hwaits⟩
    simp only [List.mem_cons, List.not_mem_nil, or_false] at hx ⊢
    tauto

theorem rxris_iff (p : Pl011Mmio) : p.rxris = true ↔ p.rawInterruptStatus.getLsbD 4 = true := by
  rw [Pl011Mmio.rxris, decide_eq_true_eq]
  exact BitSet.and_bit_ne_zero p.rawInterruptStatus (show 4 < 16 by decide)

theorem unmasked_iff (p : Pl011Mmio) : p.Unmasked ↔ p.interruptMask.getLsbD 4 = true :=
  BitSet.and_bit_ne_zero p.interruptMask (show 4 < 16 by decide)

/-- What the end of the interrupt looks at. -/
theorem isRxPending_of_raised {p : Pl011Mmio} (hraised : p.rxris = true) (hmask : p.Unmasked) :
    p.isRxPending = true := by
  have hsome : p.rawInterruptStatus &&& p.interruptMask ≠ 0 := by
    intro hnone
    have hbit : (p.rawInterruptStatus &&& p.interruptMask).getLsbD 4 = true := by
      rw [BitVec.getLsbD_and, (rxris_iff p).mp hraised, (unmasked_iff p).mp hmask]
      rfl
    rw [hnone] at hbit
    simp at hbit
  have hnat : (p.rawInterruptStatus &&& p.interruptMask).toNat ≠ 0 := fun h =>
    hsome (BitVec.eq_of_toNat_eq h)
  rw [BitVec.toNat_and] at hnat
  simpa [Pl011Mmio.isRxPending, Pl011Mmio.read, uartDr, uartFr, uartCr, uartImsc, uartRis]
    using hnat

/-- A byte that waits unmasked has raised the receive interrupt. -/
structure Raises (p : Pl011Mmio) : Prop where
  packed : Packed p
  raised : Waits p → p.Unmasked → p.rxris = true

/-- A byte that is pushed unmasked raises the interrupt. -/
theorem push_raised (p : Pl011Mmio) (data : UInt8) :
    (p.push data).1.interruptMask = p.interruptMask ∧
      ((p.push data).2 = true ↔ p.Unmasked) ∧
      (p.Unmasked → (p.push data).1.rxris = true) := by
  simp only [Pl011Mmio.push]
  split_ifs with hmask
  · refine ⟨rfl, by simpa [Pl011Mmio.Unmasked] using hmask, fun _ => ?_⟩
    rw [rxris_iff]
    exact (BitSet.getLsbD_insert p.rawInterruptStatus (show 4 < 16 by decide) 4).trans (by simp)
  · exact ⟨rfl, by simpa [Pl011Mmio.Unmasked] using hmask, fun h => absurd h hmask⟩

theorem Raises.push {p : Pl011Mmio} (h : Raises p) (data : UInt8) : Raises (p.push data).1 := by
  obtain ⟨hmask, -, hraised⟩ := push_raised p data
  refine ⟨h.packed.push data, fun _ hunmasked => hraised ?_⟩
  rwa [Pl011Mmio.Unmasked, hmask] at hunmasked

/-- What a read leaves waiting was waiting, and was as raised as it is now. -/
theorem Raises.read {p : Pl011Mmio} (h : Raises p) (offset : ℕ) : Raises (p.read offset).2 ∧
    (p.read offset).2.interruptMask = p.interruptMask ∧
      (Waits (p.read offset).2 → Waits p) := by
  by_cases hoffset : offset = uartDr
  · have hread : (p.read offset).2 = p.readData.2 := by rw [Pl011Mmio.read, if_pos hoffset]
    obtain ⟨hpacked, hwaits⟩ := h.packed.readData
    have hmask : p.readData.2.interruptMask = p.interruptMask := by
      rw [Pl011Mmio.readData]
      dsimp only
      split_ifs <;> rfl
    have hstatus : Waits p.readData.2 → p.readData.2.rxris = p.rxris := by
      rw [Waits, Pl011Mmio.readData]
      dsimp only
      split_ifs with hfree
      · exact fun hsome => absurd hfree hsome
      · exact fun _ => rfl
    rw [hread]
    refine ⟨⟨hpacked, fun hwait hunmasked => ?_⟩, hmask, hwaits⟩
    rw [hstatus hwait]
    rw [Pl011Mmio.Unmasked, hmask] at hunmasked
    exact h.raised (hwaits hwait) hunmasked
  · rw [read_other p hoffset]
    exact ⟨h, rfl, id⟩

/-- While a byte waits, a write neither unmasks the interrupt nor clears it unmasked. -/
def Attentive (p : Pl011Mmio) (offset value : ℕ) : Prop :=
  Waits p →
    (offset = uartImsc → BitVec.ofNat 16 value &&& uartImscRxim ≠ 0 → p.Unmasked) ∧
      (offset = uartIcr → p.Unmasked → BitVec.ofNat 16 value &&& uartRisRxris = 0)

theorem Raises.write {p : Pl011Mmio} (h : Raises p) {offset value : ℕ}
    (hwrite : Attentive p offset value) : Raises (p.write offset value).1 ∧
      (Waits (p.write offset value).1 → (p.write offset value).1.Unmasked →
        Waits p ∧ p.Unmasked) := by
  unfold Pl011Mmio.write
  split_ifs with hdr hcr himsc hicr
  · exact ⟨h, .intro⟩
  · exact ⟨⟨h.packed, h.raised⟩, .intro⟩
  · have hkeeps : Waits p → BitVec.ofNat 16 value &&& uartImscRxim ≠ 0 → Waits p ∧ p.Unmasked :=
      fun hwaits hunmasks => ⟨hwaits, (hwrite hwaits).1 himsc hunmasks⟩
    refine ⟨⟨h.packed, fun hwaits hunmasks => ?_⟩, hkeeps⟩
    exact h.raised hwaits (hkeeps hwaits hunmasks).2
  · refine ⟨⟨h.packed, fun hwaits hunmasked => ?_⟩, .intro⟩
    have hraised := h.raised hwaits hunmasked
    have hclears := (hwrite hwaits).2 hicr hunmasked
    rw [rxris_iff] at hraised ⊢
    have hbit : (BitVec.ofNat 16 value).getLsbD 4 = false := by
      by_contra hset
      exact (BitSet.and_bit_ne_zero (BitVec.ofNat 16 value) (show 4 < 16 by decide)).mpr
        (by simpa using hset) hclears
    change (p.rawInterruptStatus &&& ~~~(BitVec.ofNat 16 value)).getLsbD 4 = true
    rw [BitVec.getLsbD_and, hraised, BitVec.getLsbD_not, hbit]
    rfl
  · exact ⟨h, .intro⟩

end Min1visor.Pl011
