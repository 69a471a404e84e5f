import Min1visor.ExceptionStores
import Min1visor.Library.Pieces

/-!
# The loaded value of a trapped load

The trap handler puts what a device returns into the destination register as it is.
The access zero-extends when the value of the device fits the width of the access,
which depends on the register and on what it holds. Registers of eight bytes can also
be read in pieces.
-/
namespace Min1visor.Exception
open Vgicv3 Gicv3Mmio Pl011 Virtio

variable {η : Type}

/-- The syndrome of a load. -/
structure Syndrome.IsLoad (s : Syndrome) : Prop extends s.IsAccess where
  read : s.isWriteAccess = false

/-- The load returns with the low bits of the value of the device, zero-extended, in the
destination register and nowhere else; the zero register is no destination. -/
def LoadsLowBits (p : Platform η) (s : Syndrome) (handler : MmioHandler) (offset : ℕ)
    (x : GuestRegisters) (b : Board η) : Prop :=
  ∃ value elrEl2 b', handler.read b offset s.accessWidth = .ok (value, b') ∧
    synchronousLowerElAarch64 p.vm s x b =
      .ok (fun i => if i.val = s.registerNumber
        then BitVec.ofNat 64 (value.toNat % 2 ^ s.accessWidth) else x i, elrEl2, b')

/-- The bytes of `GICR_TYPER`, the lowest first. -/
def typerBytes (r : GicRedistributorMmio) : List ℕ :=
  [16, 0, 0, 0, (aff0 r.affinity).toNat, (aff1 r.affinity).toNat, (aff2 r.affinity).toNat,
    (aff3 r.affinity).toNat]

/-- The device returns a value. -/
def Answers (b : Board η) (accessWidth offset : ℕ) : MmioHandler → Prop
  | .virtioBlk => offset = virtioMmioQueuePfn → b.device.pageSize ≠ 0
  | .gicDistributor => ¬ GicDistributorMmio.BeyondGroupModifier offset accessWidth
  | _ => True

/-- The registers, and what they have to hold, for which a value fits the access. -/
def Fits (b : Board η) (accessWidth offset : ℕ) : MmioHandler → Prop
  | .pl011 => accessWidth = 8 →
    (offset = uartCr → b.pl011.control.toNat < 2 ^ 8) ∧
      (offset = uartImsc → b.pl011.interruptMask.toNat < 2 ^ 8)
  | .virtioBlk =>
    (offset = virtioMmioMagic ∨ offset = virtioMmioVendorId → 32 ≤ accessWidth) ∧
      (offset = virtioMmioQueueNumMax → 16 ≤ accessWidth) ∧
      (offset = virtioMmioQueuePfn → b.device.descriptor < 2 ^ accessWidth * b.device.pageSize) ∧
      (offset = virtioMmioStatus → b.device.status.toNat < 2 ^ accessWidth) ∧
      ∀ i < 8, offset = virtioConfigOffset + i →
        b.device.file.fileSize < 2 ^ (9 + 8 * i + accessWidth)
  | .gicDistributor => True
  | .gicRedistributor => offset = gicrTyper → accessWidth = 32 →
    ∀ i, 4 ≤ i → (typerBytes b.redistributor).getD i 0 = 0

/-! ## The value of each device -/

theorem ite_fst_lt {α : Type} {c : Prop} [Decidable c] {x y : ℕ × α} {n : ℕ} (hx : c → x.1 < n)
    (hy : ¬ c → y.1 < n) : (if c then x else y).1 < n := by
  by_cases hc : c
  · rw [if_pos hc]
    exact hx hc
  · rw [if_neg hc]
    exact hy hc

/-- All registers of the UART but two hold a byte. -/
theorem pl011_read_lt {q : Pl011Mmio} (hq : q.Sound) {offset : ℕ} (hcr : offset ≠ uartCr)
    (himsc : offset ≠ uartImsc) : (q.read offset).1 < 2 ^ 8 := by
  have hdata : q.readData.1 < 2 ^ 8 := by
    unfold Pl011Mmio.readData
    exact ite_fst_lt (fun _ => UInt8.toNat_lt _) fun _ => UInt8.toNat_lt _
  have hconstant : ∀ value : ℕ, value < 2 ^ 8 → ((value, q) : ℕ × Pl011Mmio).1 < 2 ^ 8 :=
    fun _ h => h
  unfold Pl011Mmio.read
  refine ite_fst_lt (fun _ => hdata) fun _ => ?_
  refine ite_fst_lt (fun _ => hq.flag.toNat_lt (by decide)) fun _ => ?_
  refine ite_fst_lt (fun h => absurd h hcr) fun _ => ?_
  refine ite_fst_lt (fun h => absurd h himsc) fun _ => ?_
  refine ite_fst_lt (fun _ => hq.rawInterruptStatus.toNat_lt (by decide)) fun _ => ?_
  refine ite_fst_lt (fun _ => (hq.rawInterruptStatus.and _).toNat_lt (by decide)) fun _ => ?_
  repeat refine ite_fst_lt (fun _ => hconstant _ (by decide)) fun _ => ?_
  exact hconstant _ (by decide)

theorem pl011_fits {q : Pl011Mmio} (hq : q.Sound) {w : ℕ} (hw : 8 ≤ w) (hwide : w ≠ 8 → 16 ≤ w)
    (offset : ℕ) : (q.read offset).1 < 2 ^ w ↔
      (w = 8 → (offset = uartCr → q.control.toNat < 2 ^ 8) ∧
        (offset = uartImsc → q.interruptMask.toNat < 2 ^ 8)) := by
  have hhalf : ∀ y : BitVec 16, y.toNat < 2 ^ w ↔ (w = 8 → y.toNat < 2 ^ 8) := by
    intro y
    by_cases h8 : w = 8
    · simp [h8]
    · exact ⟨fun _ h => absurd h h8,
        fun _ => y.isLt.trans_le (Nat.pow_le_pow_right (by decide) (hwide h8))⟩
  by_cases hcr : offset = uartCr
  · subst hcr
    have hne : uartCr ≠ uartImsc := by decide
    have hread : (q.read uartCr).1 = q.control.toNat := rfl
    simpa [hne, hread] using hhalf q.control
  by_cases himsc : offset = uartImsc
  · subst himsc
    have hne : uartImsc ≠ uartCr := by decide
    have hread : (q.read uartImsc).1 = q.interruptMask.toNat := rfl
    simpa [hne, hread] using hhalf q.interruptMask
  · have hlt := (pl011_read_lt hq hcr himsc).trans_le (Nat.pow_le_pow_right (by decide) hw)
    simp [hcr, himsc, hlt]

/-- A word of 32 bits, in the branch of an access of this width. -/
theorem word_lt {w : ℕ} (word : BitVec 32) (c : Prop) (hc : c ∧ w = 32) :
    ∀ v, (Except.ok (word.setWidth 64) : Except Panic (BitVec 64)) = .ok v → v.toNat < 2 ^ w := by
  intro v h
  cases h
  rw [hc.2]
  exact toNat_setWidth_lt word

theorem readWord_lt {w n : ℕ} (a : FixedArray (BitVec 32) n) (offset first : ℕ) (c : Prop)
    (hc : c ∧ w = 32) :
    ∀ v, GicDistributorMmio.readWord a offset first = .ok v → v.toNat < 2 ^ w := by
  intro v h
  obtain ⟨word, -, h⟩ := Checked.bind_eq_ok.mp h
  exact word_lt word c hc v h

theorem distributor_read_lt (d : GicDistributorMmio) (offset w : ℕ) :
    ∀ v, d.read offset w = .ok v → v.toNat < 2 ^ w := by
  have hzero : ∀ v, (Except.ok 0 : Except Panic (BitVec 64)) = .ok v → v.toNat < 2 ^ w := by
    rintro v h
    cases h
    exact Nat.two_pow_pos w
  unfold GicDistributorMmio.read
  refine Checked.forall_ite (word_lt _ _) fun _ => ?_
  refine Checked.forall_ite (word_lt _ _) fun _ => ?_
  refine Checked.forall_ite (readWord_lt _ _ _ _) fun _ => ?_
  refine Checked.forall_ite (readWord_lt _ _ _ _) fun _ => ?_
  refine Checked.forall_ite (readWord_lt _ _ _ _) fun _ => ?_
  refine Checked.forall_ite (readWord_lt _ _ _ _) fun _ => ?_
  refine Checked.forall_ite (readWord_lt _ _ _ _) fun _ => ?_
  refine Checked.forall_ite (readWord_lt _ _ _ _) fun _ => ?_
  refine Checked.forall_ite (readWord_lt _ _ _ _) fun _ => ?_
  refine Checked.forall_ite (fun _ => ?_) fun _ => ?_
  · refine Checked.forall_ite (fun h8 => ?_) fun _ => Checked.forall_ite (fun h32 => ?_) fun _ => hzero
    · intro v h
      obtain ⟨word, -, h⟩ := Checked.bind_eq_ok.mp h
      cases h
      rw [h8, BitVec.toNat_and]
      exact Nat.and_le_right.trans_lt (by decide)
    · intro v h
      obtain ⟨word, -, h⟩ := Checked.bind_eq_ok.mp h
      cases h
      exact word_lt word _ h32 _ rfl
  refine Checked.forall_ite (readWord_lt _ _ _ _) fun _ => ?_
  refine Checked.forall_ite (readWord_lt _ _ _ _) fun _ => ?_
  refine Checked.forall_ite (fun h64 v _ => h64.2 ▸ v.isLt) fun _ => ?_
  refine Checked.forall_ite (fun h32 v h => ?_) fun _ => hzero
  cases h
  rw [h32.2]
  decide

/-! ## The type register of the redistributor -/

theorem aff_lt (x : BitVec 64) :
    (aff0 x).toNat < 256 ∧ (aff1 x).toNat < 256 ∧ (aff2 x).toNat < 256 ∧ (aff3 x).toNat < 256 := by
  refine ⟨?_, ?_, ?_, ?_⟩
  · rw [aff0, BitVec.toNat_and]
    exact (Nat.and_le_right).trans_lt (by decide)
  · rw [aff1, BitVec.toNat_ushiftRight, BitVec.toNat_and, Nat.shiftRight_eq_div_pow]
    exact Nat.div_lt_of_lt_mul ((Nat.and_le_right).trans_lt (by decide))
  · rw [aff2, BitVec.toNat_ushiftRight, BitVec.toNat_and, Nat.shiftRight_eq_div_pow]
    exact Nat.div_lt_of_lt_mul ((Nat.and_le_right).trans_lt (by decide))
  · rw [aff3, BitVec.toNat_ushiftRight, BitVec.toNat_and, Nat.shiftRight_eq_div_pow]
    exact Nat.div_lt_of_lt_mul ((Nat.and_le_right).trans_lt (by decide))

/-- A byte above the bits of a word. -/
theorem toNat_or_byte {x y : BitVec 64} (k : ℕ) (hx : x.toNat < 2 ^ k) (hy : y.toNat < 256)
    (hk : k ≤ 56) : (x ||| y <<< k).toNat = x.toNat + 2 ^ k * y.toNat := by
  have hfit : y.toNat * 2 ^ k < 2 ^ 64 := by
    calc y.toNat * 2 ^ k < 2 ^ 8 * 2 ^ k := Nat.mul_lt_mul_of_pos_right hy (Nat.two_pow_pos k)
      _ = 2 ^ (8 + k) := (pow_add 2 8 k).symm
      _ ≤ 2 ^ 64 := Nat.pow_le_pow_right (by decide) (by omega)
  rw [BitVec.toNat_or, BitVec.toNat_shiftLeft, Nat.shiftLeft_eq, Nat.mod_eq_of_lt hfit, Nat.or_comm,
    ← Nat.shiftLeft_eq, ← Nat.shiftLeft_add_eq_or_of_lt hx, Nat.shiftLeft_eq]
  ring

theorem generateTyper_toNat (r : GicRedistributorMmio) :
    r.generateTyper.toNat = 16 + 2 ^ 32 * (aff0 r.affinity).toNat + 2 ^ 40 * (aff1 r.affinity).toNat +
      2 ^ 48 * (aff2 r.affinity).toNat + 2 ^ 56 * (aff3 r.affinity).toNat := by
  obtain ⟨h0, h1, h2, h3⟩ := aff_lt r.affinity
  have hlast : (gicrTyperLast.setWidth 64).toNat = 16 := rfl
  have e0 : (gicrTyperLast.setWidth 64 ||| aff0 r.affinity <<< 32).toNat = _ :=
    toNat_or_byte 32 (by omega) h0 (by decide)
  have e1 : (gicrTyperLast.setWidth 64 ||| aff0 r.affinity <<< 32 |||
      aff1 r.affinity <<< 40).toNat = _ := toNat_or_byte 40 (by omega) h1 (by decide)
  have e2 : (gicrTyperLast.setWidth 64 ||| aff0 r.affinity <<< 32 ||| aff1 r.affinity <<< 40 |||
      aff2 r.affinity <<< 48).toNat = _ := toNat_or_byte 48 (by omega) h2 (by decide)
  rw [GicRedistributorMmio.generateTyper, toNat_or_byte 56 (by omega) h3 (by decide)]
  omega

/-- The upper word of the type register is the affinity. -/
theorem typer_lt_iff (r : GicRedistributorMmio) :
    r.generateTyper.toNat < 2 ^ 32 ↔ ∀ i, 4 ≤ i → (typerBytes r).getD i 0 = 0 := by
  obtain ⟨h0, h1, h2, h3⟩ := aff_lt r.affinity
  rw [generateTyper_toNat]
  constructor
  · intro h i hi
    by_cases hlast : i < 8
    · interval_cases i <;> simp only [typerBytes, List.getD_cons_succ, List.getD_cons_zero] <;> omega
    · rw [List.getD_eq_getElem?_getD, List.getElem?_eq_none (by simpa [typerBytes] using hlast)]
      rfl
  · intro h
    have e0 : (aff0 r.affinity).toNat = 0 := h 4 (by decide)
    have e1 : (aff1 r.affinity).toNat = 0 := h 5 (by decide)
    have e2 : (aff2 r.affinity).toNat = 0 := h 6 (by decide)
    have e3 : (aff3 r.affinity).toNat = 0 := h 7 (by decide)
    rw [e0, e1, e2, e3]
    decide

theorem redistributor_fits (r : GicRedistributorMmio) (offset w : ℕ) :
    ∀ v, r.read offset w = .ok v → (v.toNat < 2 ^ w ↔
      (offset = gicrTyper → w = 32 → ∀ i, 4 ≤ i → (typerBytes r).getD i 0 = 0)) := by
  by_cases htyper : offset = gicrTyper ∧ w = 32
  · obtain ⟨rfl, rfl⟩ := htyper
    intro v h
    have hread : r.read gicrTyper 32 = .ok r.generateTyper := rfl
    rw [hread] at h
    cases h
    rw [typer_lt_iff]
    exact ⟨fun h _ _ => h, fun h => h rfl rfl⟩
  · have hother : offset = gicrTyper → w = 32 → ∀ i, 4 ≤ i → (typerBytes r).getD i 0 = 0 :=
      fun h h' => absurd ⟨h, h'⟩ htyper
    suffices hlt : ∀ v, r.read offset w = .ok v → v.toNat < 2 ^ w from
      fun v h => ⟨fun _ => hother, fun _ => hlt v h⟩
    unfold GicRedistributorMmio.read
    refine Checked.forall_ite (word_lt _ _) fun _ => ?_
    refine Checked.forall_ite (fun h64 v _ => ?_) fun _ => ?_
    · have hwide : w = 64 := by tauto
      exact hwide ▸ v.isLt
    refine Checked.forall_ite (fun h32 v h => ?_) fun _ => ?_
    · cases h
      rw [h32.2, BitVec.toNat_ushiftRight, Nat.shiftRight_eq_div_pow]
      have := r.generateTyper.isLt
      omega
    refine Checked.forall_ite (word_lt _ _) fun _ => ?_
    refine Checked.forall_ite (fun h32 v h => ?_) fun _ => ?_
    · cases h
      rw [h32.2]
      decide
    refine Checked.forall_ite (word_lt _ _) fun _ => ?_
    refine Checked.forall_ite (word_lt _ _) fun _ => ?_
    refine Checked.forall_ite (word_lt _ _) fun _ => ?_
    refine Checked.forall_ite (word_lt _ _) fun _ => ?_
    refine Checked.forall_ite (readWord_lt _ _ _ _) fun _ => ?_
    refine Checked.forall_ite (readWord_lt _ _ _ _) fun _ => ?_
    refine Checked.forall_ite (word_lt _ _) fun _ v h => ?_
    cases h
    exact Nat.two_pow_pos w

/-! ## The block device -/

theorem config_fits (n i w : ℕ) : n >>> 9 >>> (i * 8) < 2 ^ w ↔ n < 2 ^ (9 + 8 * i + w) := by
  rw [Nat.shiftRight_eq_div_pow, Nat.shiftRight_eq_div_pow, Nat.div_div_eq_div_mul, ← pow_add,
    Nat.div_lt_iff_lt_mul (Nat.two_pow_pos _), ← pow_add, Nat.mul_comm i 8,
    Nat.add_comm w (9 + 8 * i)]

/-- The condition below the configuration space, and in it. -/
theorem fits_register {b : Board η} {w offset : ℕ} (hlow : offset < virtioConfigOffset) :
    Fits b w offset .virtioBlk ↔
      (offset = virtioMmioMagic ∨ offset = virtioMmioVendorId → 32 ≤ w) ∧
      (offset = virtioMmioQueueNumMax → 16 ≤ w) ∧
      (offset = virtioMmioQueuePfn → b.device.descriptor < 2 ^ w * b.device.pageSize) ∧
      (offset = virtioMmioStatus → b.device.status.toNat < 2 ^ w) := by
  constructor
  · rintro ⟨hmagic, hmax, hpfn, hstatus, -⟩
    exact ⟨hmagic, hmax, hpfn, hstatus⟩
  · rintro ⟨hmagic, hmax, hpfn, hstatus⟩
    exact ⟨hmagic, hmax, hpfn, hstatus, fun i _ h => by omega⟩

theorem fits_config {b : Board η} {w i : ℕ} :
    Fits b w (virtioConfigOffset + i) .virtioBlk ↔
      (i < 8 → b.device.file.fileSize < 2 ^ (9 + 8 * i + w)) := by
  have hne : ∀ register, register < virtioConfigOffset → virtioConfigOffset + i ≠ register :=
    fun register h he => by omega
  constructor
  · rintro ⟨-, -, -, -, hconfig⟩ hi
    exact hconfig i hi rfl
  · intro hconfig
    refine ⟨fun h => ?_, fun h => absurd h (hne _ (by decide)), fun h => absurd h (hne _ (by decide)),
      fun h => absurd h (hne _ (by decide)), fun j hj h => ?_⟩
    · exact absurd h (not_or.mpr ⟨hne _ (by decide), hne _ (by decide)⟩)
    · obtain rfl : i = j := by omega
      exact hconfig hj

/-- A number between two widths of a load fits exactly in the wider one. -/
theorem fits_iff_le {w value m n : ℕ} (hle : w < n → w ≤ m) (hlow : 2 ^ m ≤ value)
    (hhigh : value < 2 ^ n) : value < 2 ^ w ↔ n ≤ w := by
  constructor
  · intro h
    by_contra hno
    have hw : 2 ^ w ≤ 2 ^ m := Nat.pow_le_pow_right (by decide) (hle (not_le.mp hno))
    omega
  · exact fun h => hhigh.trans_le (Nat.pow_le_pow_right (by decide) h)

/-- A byte in a register without a condition of its own fits. -/
theorem byte_fits {b : Board η} {w offset value register : ℕ} (hw : 8 ≤ w) (hvalue : value < 2 ^ 8)
    (hlow : register < virtioConfigOffset)
    (hne : register ∉ [virtioMmioMagic, virtioMmioVendorId, virtioMmioQueueNumMax,
      virtioMmioQueuePfn, virtioMmioStatus]) (hoffset : offset = register) (n : ℕ)
    (h : (Except.ok value : Except Panic ℕ) = .ok n) :
    n < 2 ^ w ↔ Fits b w offset .virtioBlk := by
  subst hoffset
  cases h
  simp only [List.mem_cons, List.not_mem_nil, or_false, not_or] at hne
  have hlt := hvalue.trans_le (Nat.pow_le_pow_right (by decide) hw)
  simp [fits_register hlow, hne, hlt]

theorem virtioBlk_fits (b : Board η) {w : ℕ} (hw : 8 ≤ w) (hnarrow : w < 32 → w = 8 ∨ w = 16)
    (hstatus : OnlyBit 0 b.device.interruptStatus) (offset : ℕ) :
    ∀ n, b.device.read offset = .ok n → (n < 2 ^ w ↔ Fits b w offset .virtioBlk) := by
  have hword {value : ℕ} (hlow : 2 ^ 16 ≤ value) (hhigh : value < 2 ^ 32) :
      value < 2 ^ w ↔ 32 ≤ w :=
    fits_iff_le (fun h => (hnarrow h).elim (fun h8 => by omega) fun h16 => h16.le) hlow hhigh
  unfold VirtioBlkMmio.read
  refine Checked.forall_ite (fun h => ?_) fun hmagic => ?_
  · rintro n hn
    cases hn
    rw [h, hword (by decide) (by decide), fits_register (by decide)]
    simp [virtioMmioMagic, virtioMmioVendorId, virtioMmioQueueNumMax, virtioMmioQueuePfn,
      virtioMmioStatus]
  refine Checked.forall_ite (byte_fits hw (by decide) (by decide) (by decide)) fun _ => ?_
  refine Checked.forall_ite (byte_fits hw (by decide) (by decide) (by decide)) fun _ => ?_
  refine Checked.forall_ite (fun h => ?_) fun hvendor => ?_
  · rintro n hn
    cases hn
    rw [h, hword (by decide) (by decide), fits_register (by decide)]
    simp [virtioMmioMagic, virtioMmioVendorId, virtioMmioQueueNumMax, virtioMmioQueuePfn,
      virtioMmioStatus]
  refine Checked.forall_ite (byte_fits hw (by decide) (by decide) (by decide)) fun _ => ?_
  refine Checked.forall_ite (fun h => ?_) fun hmax => ?_
  · rintro n hn
    cases hn
    have hfits : 1024 < 2 ^ w ↔ 16 ≤ w :=
      fits_iff_le (m := 8) (fun h => (hnarrow (by omega)).elim (fun h8 => h8.le) fun h16 => by omega)
        (by decide) (by decide)
    rw [h, hfits, fits_register (by decide)]
    simp [virtioMmioMagic, virtioMmioVendorId, virtioMmioQueueNumMax, virtioMmioQueuePfn,
      virtioMmioStatus]
  refine Checked.forall_ite (byte_fits hw ((Bool.toNat_le _).trans_lt (by decide)) (by decide)
    (by decide)) fun _ => ?_
  refine Checked.forall_ite (fun h => ?_) fun hpfn => ?_
  · refine Checked.forall_ite (fun _ n hn => by cases hn) fun hpage n hn => ?_
    cases hn
    rw [h, Nat.div_lt_iff_lt_mul (Nat.pos_of_ne_zero hpage), fits_register (by decide)]
    simp [virtioMmioMagic, virtioMmioVendorId, virtioMmioQueueNumMax, virtioMmioQueuePfn,
      virtioMmioStatus]
  refine Checked.forall_ite (byte_fits hw (hstatus.toNat_lt (by decide)) (by decide) (by decide))
    fun _ => ?_
  refine Checked.forall_ite (fun h => ?_) fun hregister => ?_
  · rintro n hn
    cases hn
    rw [h, fits_register (by decide)]
    simp [virtioMmioMagic, virtioMmioVendorId, virtioMmioQueueNumMax, virtioMmioQueuePfn,
      virtioMmioStatus]
  refine Checked.forall_ite (fun hconfig => ?_) fun hconfig n hn => ?_
  · -- The configuration space: eight bytes of capacity, then zeros.
    obtain ⟨i, rfl⟩ := Nat.exists_eq_add_of_le hconfig
    simp only [Nat.add_sub_cancel_left, fits_config]
    refine Checked.forall_ite (fun hi n hn => ?_) fun hi n hn => ?_
    · cases hn
      rw [config_fits]
      exact ⟨fun h _ => h, fun h => h hi⟩
    · cases hn
      exact ⟨fun _ h => absurd h hi, fun _ => Nat.two_pow_pos w⟩
  · cases hn
    rw [fits_register (Nat.lt_of_not_le hconfig)]
    simp [hmagic, hvendor, hmax, hpfn, hregister]

theorem virtioBlk_read_pfn (v : VirtioBlkMmio) : v.read virtioMmioQueuePfn =
    if v.pageSize = 0 then .error .divideByZero else .ok (v.descriptor / v.pageSize) := rfl

theorem virtioBlk_answers (v : VirtioBlkMmio) (offset : ℕ) :
    (∃ n, v.read offset = .ok n) ↔ (offset = virtioMmioQueuePfn → v.pageSize ≠ 0) := by
  constructor
  · rintro ⟨n, hn⟩ rfl hpage
    rw [virtioBlk_read_pfn, if_pos hpage] at hn
    cases hn
  · intro hpage
    unfold VirtioBlkMmio.read
    refine Checked.exists_ite (fun _ => ⟨_, rfl⟩) fun _ => ?_
    refine Checked.exists_ite (fun _ => ⟨_, rfl⟩) fun _ => ?_
    refine Checked.exists_ite (fun _ => ⟨_, rfl⟩) fun _ => ?_
    refine Checked.exists_ite (fun _ => ⟨_, rfl⟩) fun _ => ?_
    refine Checked.exists_ite (fun _ => ⟨_, rfl⟩) fun _ => ?_
    refine Checked.exists_ite (fun _ => ⟨_, rfl⟩) fun _ => ?_
    refine Checked.exists_ite (fun _ => ⟨_, rfl⟩) fun _ => ?_
    refine Checked.exists_ite (fun h => ⟨_, if_neg (hpage h)⟩) fun _ => ?_
    refine Checked.exists_ite (fun _ => ⟨_, rfl⟩) fun _ => ?_
    refine Checked.exists_ite (fun _ => ⟨_, rfl⟩) fun _ => ?_
    refine Checked.exists_ite (fun _ => ?_) fun _ => ⟨_, rfl⟩
    exact Checked.exists_ite (fun _ => ⟨_, rfl⟩) fun _ => ⟨_, rfl⟩

/-! ## A load -/

/-- The value of a register of a sound block device is a machine word. -/
theorem virtioBlk_read_lt {p : Platform η} {b : Board η} (hb : b.Sound p) {offset n : ℕ}
    (h : b.device.read offset = .ok n) : n < 2 ^ 64 := by
  rw [virtioBlk_fits b (by decide) (by decide) hb.device.interruptStatus offset n h]
  have hpage := (virtioBlk_answers b.device offset).mp ⟨n, h⟩
  have hfile : b.device.file.fileSize < 2 ^ 32 := by
    rw [hb.device.file]
    exact p.fileSize_lt
  refine ⟨fun _ => by decide, fun _ => by decide, fun hpfn => ?_, fun _ => ?_, fun i _ _ => ?_⟩
  · exact hb.device.descriptor.trans_le
      (Nat.le_mul_of_pos_right _ (Nat.pos_of_ne_zero (hpage hpfn)))
  · exact b.device.status.isLt.trans (by decide)
  · exact hfile.trans_le (Nat.pow_le_pow_right (by decide) (by omega))

theorem read_fits {p : Platform η} {b b' : Board η} (hb : b.Sound p) (handler : MmioHandler)
    {w offset : ℕ} (hw : w = 8 ∨ w = 16 ∨ w = 32 ∨ w = 64) {value : BitVec 64}
    (h : handler.read b offset w = .ok (value, b')) : value.toNat < 2 ^ w ↔ Fits b w offset handler := by
  cases handler with
  | pl011 =>
    have hvalue : value = BitVec.ofNat 64 (b.pl011.read offset).1 :=
      (congrArg Prod.fst (Except.ok.inj h)).symm
    have hhalf := (pl011_fits hb.pl011 (w := 16) (by decide) (by decide) offset).mpr fun h => by cases h
    have hfits := pl011_fits hb.pl011 (w := w) (by omega) (by omega) offset
    rwa [hvalue, BitVec.toNat_ofNat, Nat.mod_eq_of_lt (hhalf.trans (by decide))]
  | virtioBlk =>
    obtain ⟨n, hn, h⟩ := Checked.bind_eq_ok.mp h
    cases h
    rw [BitVec.toNat_ofNat, Nat.mod_eq_of_lt (virtioBlk_read_lt hb hn)]
    exact virtioBlk_fits b (by omega) (by omega) hb.device.interruptStatus offset n hn
  | gicDistributor =>
    obtain ⟨v, hv, h⟩ := Checked.bind_eq_ok.mp h
    cases h
    exact ⟨fun _ => trivial, fun _ => distributor_read_lt b.distributor offset w _ hv⟩
  | gicRedistributor =>
    obtain ⟨v, hv, h⟩ := Checked.bind_eq_ok.mp h
    cases h
    exact redistributor_fits b.redistributor offset w _ hv

theorem answers_iff (b : Board η) (handler : MmioHandler) (w offset : ℕ) :
    (∃ value b', handler.read b offset w = .ok (value, b')) ↔ Answers b w offset handler := by
  cases handler with
  | pl011 => exact ⟨fun _ => trivial, fun _ => ⟨_, _, rfl⟩⟩
  | virtioBlk =>
    refine Iff.trans ?_ (virtioBlk_answers b.device offset)
    constructor
    · rintro ⟨value, b', h⟩
      obtain ⟨n, hn, -⟩ := Checked.bind_eq_ok.mp h
      exact ⟨n, hn⟩
    · rintro ⟨n, hn⟩
      exact ⟨_, _, by rw [MmioHandler.read, hn]; rfl⟩
  | gicDistributor =>
    refine Iff.trans ?_ (GicDistributorMmio.read_ok_iff b.distributor offset w)
    constructor
    · rintro ⟨value, b', h⟩
      obtain ⟨v, hv, -⟩ := Checked.bind_eq_ok.mp h
      exact ⟨v, hv⟩
    · rintro ⟨v, hv⟩
      exact ⟨_, _, by rw [MmioHandler.read, hv]; rfl⟩
  | gicRedistributor =>
    obtain ⟨v, hv⟩ := GicRedistributorMmio.read_total b.redistributor offset w
    exact ⟨fun _ => trivial, fun _ => ⟨_, _, by rw [MmioHandler.read, hv]; rfl⟩⟩

/-- When a load delivers the low bits of the value: the trap returns, the device answers,
and the value fits, unless the destination is the zero register. -/
theorem loadsLowBits_iff {p : Platform η} {b : Board η} (hb : b.Sound p) {s : Syndrome}
    (hs : s.IsLoad) {handler : MmioHandler} {offset : ℕ}
    (hat : deviceAt s.address = some (handler, offset)) (x : GuestRegisters) :
    LoadsLowBits p s handler offset x b ↔ s.Returns ∧ Answers b s.accessWidth offset handler ∧
      (s.registerNumber = 31 ∨ Fits b s.accessWidth offset handler) := by
  constructor
  · rintro ⟨value, elrEl2, b', hread, htrap⟩
    rw [trap_load p.vm hs.toIsAccess hs.read hat, hread, Checked.ok_bind] at htrap
    obtain ⟨_, helr, htrap⟩ := Checked.bind_eq_ok.mp htrap
    have hreturns : s.Returns := by
      by_contra hno
      rw [advanceElrEl2_error hno] at helr
      cases helr
    refine ⟨hreturns, (answers_iff b handler _ offset).mp ⟨value, b', hread⟩, ?_⟩
    by_cases hreg : s.registerNumber = 31
    · exact .inl hreg
    · refine .inr ((read_fits hb handler s.accessWidth_cases hread).mp ?_)
      have hlt : s.registerNumber < 31 := by
        have := s.registerNumber_lt
        omega
      have hx : x.put s.registerNumber value = fun i => if i.val = s.registerNumber
          then BitVec.ofNat 64 (value.toNat % 2 ^ s.accessWidth) else x i :=
        congrArg Prod.fst (Except.ok.inj htrap)
      have hvalue := congrFun hx ⟨s.registerNumber, hlt⟩
      simp only [FixedArray.put, if_true] at hvalue
      have hmod := Nat.mod_lt value.toNat (Nat.two_pow_pos s.accessWidth)
      rw [hvalue, BitVec.toNat_ofNat]
      exact (Nat.mod_le _ _).trans_lt (hvalue ▸ hmod)
  · rintro ⟨hreturns, hanswers, hfits⟩
    obtain ⟨value, b', hread⟩ := (answers_iff b handler _ offset).mpr hanswers
    refine ⟨value, BitVec.ofNat 64 (s.elrEl2.toNat + 4), b', hread, ?_⟩
    rw [trap_load p.vm hs.toIsAccess hs.read hat, hread, Checked.ok_bind, advanceElrEl2_ok hreturns]
    have hx : x.put s.registerNumber value = fun i => if i.val = s.registerNumber
        then BitVec.ofNat 64 (value.toNat % 2 ^ s.accessWidth) else x i := by
      funext i
      unfold FixedArray.put
      by_cases hi : i.val = s.registerNumber
      · have hreg : s.registerNumber ≠ 31 := by
          have := i.isLt
          omega
        have hlt := (read_fits hb handler s.accessWidth_cases hread).mpr (hfits.resolve_left hreg)
        rw [if_pos hi, if_pos hi, Nat.mod_eq_of_lt hlt, BitVec.ofNat_toNat, BitVec.setWidth_eq]
      · rw [if_neg hi, if_neg hi]
    rw [← hx]
    rfl

/-! ## Registers of eight bytes -/

inductive WideRegister
  | capacity
  | typer

namespace WideRegister

/-- The device of the register and its offset. -/
def handler : WideRegister → MmioHandler
  | .capacity => .virtioBlk
  | .typer => .gicRedistributor

def offset : WideRegister → ℕ
  | .capacity => virtioConfigOffset
  | .typer => gicrTyper

def value (b : Board η) : WideRegister → ℕ
  | .capacity => b.device.file.fileSize >>> 9
  | .typer => b.redistributor.generateTyper.toNat

end WideRegister

/-- The value that a load leaves in its destination. -/
def loaded (p : Platform η) (x : GuestRegisters) (b : Board η) (s : Syndrome) : Option ℕ :=
  match synchronousLowerElAarch64 p.vm s x b with
  | .ok (x', _, _) => some (x'.getD s.registerNumber 0).toNat
  | .error _ => none

def loadPieces (p : Platform η) (x : GuestRegisters) (b : Board η) :
    List Syndrome → Option (List (ℕ × ℕ))
  | [] => some []
  | s :: rest => do
    let value ← loaded p x b s
    let pieces ← loadPieces p x b rest
    return (s.accessWidth, value) :: pieces

/-- Loads of consecutive bytes of a window, none of them to the zero register. -/
def Consecutive (handler : MmioHandler) : ℕ → List Syndrome → Prop
  | _, [] => True
  | offset, s :: rest =>
    s.IsLoad ∧ s.registerNumber ≠ 31 ∧ deviceAt s.address = some (handler, offset) ∧
      Consecutive handler (offset + s.accessWidth / 8) rest

def loadedBits (ss : List Syndrome) : ℕ := (ss.map Syndrome.accessWidth).sum

/-- A piece is right: of the type register only words are readable, and bytes that are 0. -/
def PieceFits (b : Board η) (position accessWidth : ℕ) : WideRegister → Prop
  | .capacity => True
  | .typer => position = 0 ∧ 32 ≤ accessWidth ∨ position = 4 ∧ accessWidth = 32 ∨
    ∀ i, position ≤ i → i < position + accessWidth / 8 →
      (typerBytes b.redistributor).getD i 0 = 0

def PiecesFit (b : Board η) (register : WideRegister) : ℕ → List Syndrome → Prop
  | _, [] => True
  | position, s :: rest =>
    s.Returns ∧ PieceFits b position s.accessWidth register ∧
      PiecesFit b register (position + s.accessWidth / 8) rest

theorem typer_byte (r : GicRedistributorMmio) {i : ℕ} (hi : i < 8) :
    r.generateTyper.toNat / 2 ^ (8 * i) % 2 ^ 8 = (typerBytes r).getD i 0 := by
  obtain ⟨h0, h1, h2, h3⟩ := aff_lt r.affinity
  rw [generateTyper_toNat]
  interval_cases i <;> simp only [typerBytes, List.getD_cons_succ, List.getD_cons_zero] <;> omega

/-- A run of bytes is zero when each of them is. -/
theorem bytes_zero_iff (n position count : ℕ) :
    n / 2 ^ (8 * position) % 2 ^ (8 * count) = 0 ↔
      ∀ i, position ≤ i → i < position + count → n / 2 ^ (8 * i) % 2 ^ 8 = 0 := by
  induction count generalizing position with
  | zero =>
    simp only [Nat.mul_zero, pow_zero, Nat.mod_one, true_iff]
    intro i h h'
    omega
  | succ count ih =>
    have hpow : 2 ^ (8 * (count + 1)) = 2 ^ 8 * 2 ^ (8 * count) := by
      rw [← pow_add]
      congr 1
      omega
    have hnext : n / 2 ^ (8 * position) / 2 ^ 8 = n / 2 ^ (8 * (position + 1)) := by
      rw [Nat.div_div_eq_div_mul, ← pow_add, Nat.mul_add]
    rw [hpow, Nat.mod_mul, hnext]
    constructor
    · intro h i hlow hhigh
      by_cases hi : i = position
      · subst hi
        omega
      · have hrest : n / 2 ^ (8 * (position + 1)) % 2 ^ (8 * count) = 0 := by omega
        exact (ih (position + 1)).mp hrest i (by omega) (by omega)
    · intro h
      have hrest := (ih (position + 1)).mpr fun i hlow hhigh => h i (by omega) (by omega)
      have hfirst := h position le_rfl (by omega)
      omega

theorem redistributor_read_narrow (r : GicRedistributorMmio) (offset : ℕ) {w : ℕ} (h32 : w ≠ 32)
    (h64 : w ≠ 64) : r.read offset w = .ok 0 := by
  simp only [GicRedistributorMmio.read, h32, h64, or_false, and_false, if_false]

/-- What the device returns for a piece of the type register. -/
theorem typer_piece (r : GicRedistributorMmio) {position w : ℕ}
    (hw : w = 8 ∨ w = 16 ∨ w = 32 ∨ w = 64) (hend : 8 * position + w ≤ 64) :
    ∃ v, r.read (gicrTyper + position) w = .ok v ∧
      (v.toNat % 2 ^ w = r.generateTyper.toNat / 2 ^ (8 * position) % 2 ^ w ↔
        position = 0 ∧ 32 ≤ w ∨ position = 4 ∧ w = 32 ∨
          ∀ i, position ≤ i → i < position + w / 8 → (typerBytes r).getD i 0 = 0) := by
  have hzero : r.generateTyper.toNat / 2 ^ (8 * position) % 2 ^ w = 0 ↔
      ∀ i, position ≤ i → i < position + w / 8 → (typerBytes r).getD i 0 = 0 := by
    have hbits : 8 * (w / 8) = w := by omega
    have h := bytes_zero_iff r.generateTyper.toNat position (w / 8)
    rw [hbits] at h
    rw [h]
    constructor
    · intro h i hlow hhigh
      rw [← typer_byte r (by omega)]
      exact h i hlow hhigh
    · intro h i hlow hhigh
      rw [typer_byte r (by omega)]
      exact h i hlow hhigh
  by_cases hfull : position = 0 ∧ 32 ≤ w
  · obtain ⟨rfl, hwide⟩ := hfull
    have hread : r.read (gicrTyper + 0) w = .ok r.generateTyper := by
      rcases hw with rfl | rfl | rfl | rfl
      · omega
      · omega
      · rfl
      · rfl
    refine ⟨_, hread, ?_⟩
    simp [hwide]
  by_cases hupper : position = 4 ∧ w = 32
  · obtain ⟨rfl, rfl⟩ := hupper
    refine ⟨r.generateTyper >>> 32, rfl, ?_⟩
    simp [Nat.shiftRight_eq_div_pow]
  · have hread : r.read (gicrTyper + position) w = .ok 0 := by
      by_cases h32 : w = 32
      · subst h32
        have hposition : position = 1 ∨ position = 2 ∨ position = 3 := by omega
        rcases hposition with rfl | rfl | rfl <;> rfl
      · exact redistributor_read_narrow r _ h32 (by omega)
    refine ⟨0, hread, ?_⟩
    have hcomm : (0 : BitVec 64).toNat % 2 ^ w =
        r.generateTyper.toNat / 2 ^ (8 * position) % 2 ^ w ↔
        r.generateTyper.toNat / 2 ^ (8 * position) % 2 ^ w = 0 := by
      have hnat : (0 : BitVec 64).toNat = 0 := rfl
      rw [hnat, Nat.zero_mod]
      exact eq_comm
    rw [hcomm, hzero]
    simp only [hfull, hupper, false_or]

theorem capacity_piece {p : Platform η} {b : Board η} (hb : b.Sound p) {position w : ℕ}
    (hposition : position < 8) :
    ∃ v, (MmioHandler.virtioBlk.read b (virtioConfigOffset + position) w) = .ok (v, b) ∧
      v.toNat % 2 ^ w = b.device.file.fileSize >>> 9 / 2 ^ (8 * position) % 2 ^ w := by
  have hread : b.device.read (virtioConfigOffset + position) =
      .ok (b.device.file.fileSize >>> 9 >>> (position * 8)) := by
    interval_cases position <;> rfl
  refine ⟨_, by rw [MmioHandler.read, hread]; rfl, ?_⟩
  rw [BitVec.toNat_ofNat, Nat.mod_eq_of_lt (virtioBlk_read_lt hb hread), Nat.shiftRight_eq_div_pow _
    (position * 8), Nat.mul_comm position 8]

/-- A piece of either register. -/
theorem wide_piece {p : Platform η} {b : Board η} (hb : b.Sound p) (register : WideRegister)
    {position w : ℕ} (hw : w = 8 ∨ w = 16 ∨ w = 32 ∨ w = 64) (hend : 8 * position + w ≤ 64) :
    ∃ v b', register.handler.read b (register.offset + position) w = .ok (v, b') ∧
      (v.toNat % 2 ^ w = register.value b / 2 ^ (8 * position) % 2 ^ w ↔
        PieceFits b position w register) := by
  cases register with
  | capacity =>
    obtain ⟨v, hread, hvalue⟩ := capacity_piece hb (w := w) (show position < 8 by omega)
    exact ⟨v, b, hread, fun _ => trivial, fun _ => hvalue⟩
  | typer =>
    obtain ⟨v, hread, hvalue⟩ := typer_piece b.redistributor hw hend
    refine ⟨v, b, ?_, hvalue⟩
    change (do return (← b.redistributor.read (gicrTyper + position) w, b)) = _
    rw [hread]
    rfl

/-- A load of a value that the device returns. -/
theorem loaded_eq (p : Platform η) {s : Syndrome} (hs : s.IsLoad) (hreg : s.registerNumber ≠ 31)
    {handler : MmioHandler} {offset : ℕ} (hat : deviceAt s.address = some (handler, offset))
    (x : GuestRegisters) {b b' : Board η} {value : BitVec 64}
    (hread : handler.read b offset s.accessWidth = .ok (value, b')) :
    loaded p x b s = if s.Returns then some value.toNat else none := by
  have hlt : s.registerNumber < 31 := by
    have := s.registerNumber_lt
    omega
  rw [loaded, trap_load p.vm hs.toIsAccess hs.read hat, hread, Checked.ok_bind]
  by_cases hreturns : s.Returns
  · rw [if_pos hreturns, advanceElrEl2_ok hreturns]
    simp only [Checked.ok_bind, Checked.pure_eq_ok, FixedArray.getD_put _ _ _ _ _ hlt, if_true]
  · rw [if_neg hreturns, advanceElrEl2_error hreturns]
    rfl

theorem loadPieces_width {p : Platform η} {x : GuestRegisters} {b : Board η} {ss : List Syndrome}
    {pieces : List (ℕ × ℕ)} (h : loadPieces p x b ss = some pieces) :
    Pieces.totalWidth pieces = loadedBits ss := by
  induction ss generalizing pieces with
  | nil =>
    cases h
    rfl
  | cons s rest ih =>
    obtain ⟨value, -, h⟩ := Option.bind_eq_some_iff.mp h
    obtain ⟨tail, htail, h⟩ := Option.bind_eq_some_iff.mp h
    cases h
    simp only [Pieces.totalWidth, loadedBits, List.map_cons, List.sum_cons]
    exact congrArg (s.accessWidth + ·) (ih htail)

/-- The pieces that consecutive loads give, from a position of the register on. -/
theorem loadPieces_iff {p : Platform η} {b : Board η} (hb : b.Sound p) (register : WideRegister)
    (x : GuestRegisters) (ss : List Syndrome) (position : ℕ)
    (hend : 8 * position + loadedBits ss ≤ 64)
    (hss : Consecutive register.handler (register.offset + position) ss) :
    (∃ pieces, loadPieces p x b ss = some pieces ∧
      Pieces.Match (register.value b) (8 * position) pieces) ↔ PiecesFit b register position ss := by
  induction ss generalizing position with
  | nil => simp [loadPieces, Pieces.Match, PiecesFit]
  | cons s rest ih =>
    obtain ⟨hs, hreg, hat, hrest⟩ := hss
    have hbits : loadedBits (s :: rest) = s.accessWidth + loadedBits rest := rfl
    have hbytes : 8 * (s.accessWidth / 8) = s.accessWidth := by
      have := s.accessWidth_cases
      omega
    rw [hbits] at hend
    obtain ⟨v, b', hread, hvalue⟩ := wide_piece hb register s.accessWidth_cases
      (show 8 * position + s.accessWidth ≤ 64 by omega)
    have hnext := ih (position + s.accessWidth / 8) (by omega) (by rwa [← Nat.add_assoc])
    rw [Nat.mul_add, hbytes] at hnext
    rw [PiecesFit, ← hnext, ← hvalue, loadPieces, loaded_eq p hs hreg hat x hread]
    by_cases hreturns : s.Returns
    · simp only [if_pos hreturns, Option.bind_eq_bind, Option.bind_some]
      constructor
      · rintro ⟨pieces, hpieces, hmatch⟩
        obtain ⟨tail, htail, hpieces⟩ := Option.bind_eq_some_iff.mp hpieces
        cases hpieces
        exact ⟨hreturns, hmatch.1, tail, htail, hmatch.2⟩
      · rintro ⟨-, hpiece, tail, htail, hmatch⟩
        exact ⟨_, Option.bind_eq_some_iff.mpr ⟨tail, htail, rfl⟩, hpiece, hmatch⟩
    · simp [hreturns]

theorem WideRegister.value_lt {p : Platform η} {b : Board η} (hb : b.Sound p)
    (register : WideRegister) : register.value b < 2 ^ 64 := by
  cases register with
  | capacity =>
    have hfile : b.device.file.fileSize < 2 ^ 32 := by
      rw [hb.device.file]
      exact p.fileSize_lt
    exact (Nat.shiftRight_le _ _).trans_lt (hfile.trans (by decide))
  | typer => exact b.redistributor.generateTyper.isLt

/-- A register put together from pieces is what one wide load gives, exactly when each
piece fits. -/
theorem reassembled_iff {p : Platform η} {b : Board η} (hb : b.Sound p) (register : WideRegister)
    (x : GuestRegisters) {ss : List Syndrome} (hbits : loadedBits ss = 64)
    (hss : Consecutive register.handler register.offset ss) {wide : Syndrome}
    (hwidth : wide.accessWidth = 64) (hreturns : wide.Returns)
    (hwide : Consecutive register.handler register.offset [wide]) :
    (loadPieces p x b ss).map Pieces.reassemble = loaded p x b wide ↔ PiecesFit b register 0 ss := by
  have hvalue : loaded p x b wide = some (register.value b) := by
    obtain ⟨hs, hreg, hat, -⟩ := hwide
    obtain ⟨v, b', hread, hfits⟩ := wide_piece hb register wide.accessWidth_cases
      (show 8 * 0 + wide.accessWidth ≤ 64 by omega)
    have hpiece : PieceFits b 0 wide.accessWidth register := by
      cases register with
      | capacity => trivial
      | typer => exact .inl ⟨rfl, by omega⟩
    have hv := hfits.mpr hpiece
    rw [hwidth, Nat.mul_zero, pow_zero, Nat.div_one, Nat.mod_eq_of_lt v.isLt,
      Nat.mod_eq_of_lt (register.value_lt hb)] at hv
    rw [loaded_eq p hs hreg hat x hread, if_pos hreturns, hv]
  rw [hvalue, ← loadPieces_iff hb register x ss 0 (by omega) hss, Option.map_eq_some_iff]
  constructor
  · rintro ⟨pieces, hpieces, hsame⟩
    refine ⟨pieces, hpieces, (Pieces.reassemble_eq_iff _ _ ?_).mp hsame⟩
    rw [loadPieces_width hpieces, hbits]
    exact register.value_lt hb
  · rintro ⟨pieces, hpieces, hmatch⟩
    refine ⟨pieces, hpieces, (Pieces.reassemble_eq_iff _ _ ?_).mpr hmatch⟩
    rw [loadPieces_width hpieces, hbits]
    exact register.value_lt hb

/-! ## Register 31 -/

theorem load_zero_register (p : Platform η) {s : Syndrome} (hs : s.IsLoad)
    (hreg : s.registerNumber = 31) {x x' : GuestRegisters} {b b' : Board η} {elrEl2 : BitVec 64}
    (h : synchronousLowerElAarch64 p.vm s x b = .ok (x', elrEl2, b')) : x' = x := by
  obtain ⟨handler, offset, hat, -⟩ := trap_cases h
  rw [trap_load p.vm hs.toIsAccess hs.read hat] at h
  obtain ⟨⟨value, b₁⟩, -, h⟩ := Checked.bind_eq_ok.mp h
  obtain ⟨_, -, h⟩ := Checked.bind_eq_ok.mp h
  have hx : x.put s.registerNumber value = x' := congrArg Prod.fst (Except.ok.inj h)
  rw [← hx]
  funext i
  have hi : i.val ≠ s.registerNumber := by
    have := i.isLt
    omega
  exact if_neg hi

theorem store_zero_register (p : Platform η) {s : Syndrome} (hs : s.IsAccess)
    (hwrite : s.isWriteAccess = true) (hreg : s.registerNumber = 31) {handler : MmioHandler}
    {offset : ℕ} (hat : deviceAt s.address = some (handler, offset)) (x : GuestRegisters)
    (b : Board η) :
    synchronousLowerElAarch64 p.vm s x b = do
      let b ← handler.write p.vm b offset s.accessWidth 0
      return (x, ← advanceElrEl2 s.elrEl2, b) := by
  rw [trap_store p.vm hs hwrite hat, storedValue_zero hreg]

/-- In every board that a run comes to: which loads zero-extend, which splits of the
wide registers give the value of one wide load, and what register 31 does. -/
theorem loads_zero_extend_iff {p : Platform η} {b : Board η} (hreach : p.Reachable b) :
    (∀ (s : Syndrome) (handler : MmioHandler) (offset : ℕ) (x : GuestRegisters), s.IsLoad →
      deviceAt s.address = some (handler, offset) →
        (LoadsLowBits p s handler offset x b ↔ s.Returns ∧ Answers b s.accessWidth offset handler ∧
          (s.registerNumber = 31 ∨ Fits b s.accessWidth offset handler))) ∧
    (∀ (register : WideRegister) (x : GuestRegisters) (ss : List Syndrome) (wide : Syndrome),
      loadedBits ss = 64 → Consecutive register.handler register.offset ss →
      wide.accessWidth = 64 → wide.Returns → Consecutive register.handler register.offset [wide] →
        ((loadPieces p x b ss).map Pieces.reassemble = loaded p x b wide ↔
          PiecesFit b register 0 ss)) ∧
    (∀ (s : Syndrome) (x x' : GuestRegisters) (elrEl2 : BitVec 64) (b' : Board η), s.IsLoad →
      s.registerNumber = 31 → synchronousLowerElAarch64 p.vm s x b = .ok (x', elrEl2, b') →
        x' = x) ∧
    ∀ (s : Syndrome) (handler : MmioHandler) (offset : ℕ) (x : GuestRegisters), s.IsAccess →
      s.isWriteAccess = true → s.registerNumber = 31 →
      deviceAt s.address = some (handler, offset) →
        synchronousLowerElAarch64 p.vm s x b = do
          let b ← handler.write p.vm b offset s.accessWidth 0
          return (x, ← advanceElrEl2 s.elrEl2, b) := by
  refine ⟨?_, ?_, ?_, ?_⟩
  · intro s handler offset x hs hat
    exact loadsLowBits_iff hreach.sound hs hat x
  · intro register x ss wide hbits hss hwidth hreturns hwide
    exact reassembled_iff hreach.sound register x hbits hss hwidth hreturns hwide
  · intro s x x' elrEl2 b' hs hreg h
    exact load_zero_register p hs hreg h
  · intro s handler offset x hs hwrite hreg hat
    exact store_zero_register p hs hwrite hreg hat x b

/-- A load to `x0` with a given size field. -/
def loadX0 (size : BitVec 64) (address : ℕ) : Syndrome where
  esrEl2 := esrEl2EcDataAbort ||| esrEl2IssIsv ||| (size <<< esrEl2IssSasBitsOffset)
  hpfarEl2 := BitVec.ofNat 64 (address / 4096 * 16)
  farEl2 := BitVec.ofNat 64 (address % 4096)
  elrEl2 := 0

/-- A word load of the magic value. -/
theorem loads_zero_extend_magic :
    samplePlatform.Reachable (sampleBoard sampleDevice.reset) ∧
      LoadsLowBits samplePlatform (loadX0 0b10 0xa000000) .virtioBlk virtioMmioMagic (.fill 31 0)
        (sampleBoard sampleDevice.reset) := by
  refine ⟨reachable_boot, ((loads_zero_extend_iff reachable_boot).1 _ _ _ _
    ⟨⟨by decide, by decide⟩, by decide⟩ (by decide)).mpr ⟨by decide, ?_, Or.inr ?_⟩⟩
  · intro h
    exact absurd h (by decide)
  · rw [fits_register (by decide)]
    decide

/-- A byte load of the magic value fills the register with all of it, and the type
register read by bytes is 0. -/
theorem byte_load_too_wide :
    (loadX0 0b00 0xa000000).IsLoad ∧ (loadX0 0b00 0xa000000).accessWidth = 8 ∧
    deviceAt (loadX0 0b00 0xa000000).address = some (.virtioBlk, virtioMmioMagic) ∧
    samplePlatform.Reachable (sampleBoard sampleDevice.reset) ∧
    loaded samplePlatform (.fill 31 0) (sampleBoard sampleDevice.reset) (loadX0 0b00 0xa000000) =
      some 0x74726976 ∧
    ¬ LoadsLowBits samplePlatform (loadX0 0b00 0xa000000) .virtioBlk virtioMmioMagic (.fill 31 0)
      (sampleBoard sampleDevice.reset) ∧
    loaded samplePlatform (.fill 31 0) (sampleBoard sampleDevice.reset) (loadX0 0b11 0x80a0008) =
      some 16 ∧
    loaded samplePlatform (.fill 31 0) (sampleBoard sampleDevice.reset) (loadX0 0b00 0x80a0008) =
      some 0 := by
  have hs : (loadX0 0b00 0xa000000).IsLoad := ⟨⟨by decide, by decide⟩, by decide⟩
  have hat : deviceAt (loadX0 0b00 0xa000000).address = some (.virtioBlk, virtioMmioMagic) := by decide
  have hlong : (loadX0 0b11 0x80a0008).IsLoad := ⟨⟨by decide, by decide⟩, by decide⟩
  have hbyte : (loadX0 0b00 0x80a0008).IsLoad := ⟨⟨by decide, by decide⟩, by decide⟩
  refine ⟨hs, by decide, hat, reachable_boot, ?_, ?_, ?_, ?_⟩
  · rw [loaded_eq samplePlatform hs (by decide) hat _ rfl, if_pos (by decide)]
    rfl
  · rw [loadsLowBits_iff reachable_boot.sound hs hat, fits_register (by decide)]
    rintro ⟨-, -, hfits⟩
    exact absurd hfits (by decide)
  · rw [loaded_eq samplePlatform hlong (by decide)
      (show deviceAt (loadX0 0b11 0x80a0008).address = some (.gicRedistributor, gicrTyper) by decide)
      _ rfl, if_pos (by decide)]
    rfl
  · rw [loaded_eq samplePlatform hbyte (by decide)
      (show deviceAt (loadX0 0b00 0x80a0008).address = some (.gicRedistributor, gicrTyper) by decide)
      _ rfl, if_pos (by decide)]
    rfl

end Min1visor.Exception
