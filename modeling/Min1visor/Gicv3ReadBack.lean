import Min1visor.Gicv3Refinement

/-!
# Reading registers back

A plain register holds what is written to it: a read of the same width returns the value,
and a read of other bytes returns what it did before. Reads and writes are decoded by
chains of their own, so that each register is compared in both.
-/
namespace Min1visor.Gicv3Mmio
open Vgicv3 PackedFields

/-- The bytes of two accesses do not meet; the second one is aligned, as registers are. -/
structure Apart (offset accessWidth offset' accessWidth' : ℕ) : Prop where
  bytes : offset + accessWidth / 8 ≤ offset' ∨ offset' + accessWidth' / 8 ≤ offset
  aligned : accessWidth' / 8 ∣ offset'

/-- After a write of a device, the bytes written read as the value and all others as before. -/
def ReadBack {σ : Type} (read : σ → ℕ → ℕ → Except Panic (BitVec 64))
    (write : σ → CpuInterface → ℕ → ℕ → BitVec 64 → Except Panic (σ × CpuInterface))
    (s : σ) (c : CpuInterface) (offset accessWidth : ℕ) (value : BitVec 64) : Prop :=
  ∃ s', write s c offset accessWidth value = .ok (s', c) ∧ read s' offset accessWidth = .ok value ∧
    ∀ offset' accessWidth', Apart offset accessWidth offset' accessWidth' →
      read s' offset' accessWidth' = read s offset' accessWidth'

/-! ## Values and words -/

theorem setWidth_value {value : BitVec 64} {w : ℕ} (hvalue : value.toNat < 2 ^ w) :
    (value.setWidth w).setWidth 64 = value := by
  apply BitVec.eq_of_toNat_eq
  rw [BitVec.toNat_setWidth, BitVec.toNat_setWidth, Nat.mod_eq_of_lt hvalue,
    Nat.mod_eq_of_lt value.isLt]

/-- The byte of a word, shifted down. -/
theorem shiftRight_byte (word : BitVec 32) (k : ℕ) :
    ((word.setWidth 64) >>> (k * 8)) &&& 0xff = (field 8 word k).setWidth 64 := by
  have hmask : (0xff : BitVec 64) = (BitVec.allOnes 8).setWidth 64 := by decide
  apply BitVec.eq_of_getLsbD_eq
  intro i hi
  rw [hmask]
  simp only [field, BitVec.getLsbD_and, BitVec.getLsbD_ushiftRight, BitVec.getLsbD_setWidth,
    BitVec.getLsbD_allOnes, BitVec.getLsbD_extractLsb', hi, decide_true, Bool.true_and]
  by_cases hin : k * 8 + i < 64
  · simp [hin, Bool.and_comm]
  · simp [BitVec.getLsbD_of_ge word (k * 8 + i) (by omega)]

/-- The word that a read finds, after another one was written. -/
theorem get_put_apart {n k first offset : ℕ} (a : FixedArray (BitVec 32) n) (x : BitVec 32)
    (hin : first ≤ offset) (hapart : Apart (first + 4 * k) 32 offset 32) :
    (a.put ((first + 4 * k - first) / 4) x).get ((offset - first) / 4) =
      a.get ((offset - first) / 4) := by
  apply FixedArray.get_put_ne
  have hbytes := hapart.bytes
  omega

theorem readWord_put {n k first last offset accessWidth : ℕ} (a : FixedArray (BitVec 32) n)
    (x : BitVec 32) (hin : GicDistributorMmio.inWindow offset first last ∧ accessWidth = 32)
    (hapart : Apart (first + 4 * k) 32 offset accessWidth) :
    GicDistributorMmio.readWord (a.put ((first + 4 * k - first) / 4) x) offset first =
      GicDistributorMmio.readWord a offset first := by
  obtain ⟨⟨hfirst, -⟩, rfl⟩ := hin
  rw [GicDistributorMmio.readWord, get_put_apart a x hfirst hapart, GicDistributorMmio.readWord]

/-- One byte of a word of priorities is written, and the others are left. -/
theorem field_setPriorityByte (word : BitVec 32) {k j : ℕ} {value : BitVec 64}
    (hvalue : value.toNat < 2 ^ 8) (hj : j < 4) :
    field 8 (GicDistributorMmio.setPriorityByte word (k * 8) value) j =
      if j = k then value.setWidth 8 else field 8 word j := by
  rw [← setWidth_value hvalue, Gicv3Refinement.setPriorityByte_eq, field_replace _ _ (by omega),
    setWidth_value hvalue]

namespace GicDistributorMmio

/-! ## The distributor -/

/-- What a read of the distributor depends on is the same. -/
structure ReadsSame (d d' : GicDistributorMmio) (offset accessWidth : ℕ) : Prop where
  ctlr : offset = gicdCtlr ∧ accessWidth = 32 → d'.ctlr = d.ctlr
  group : inWindow offset gicdIgroupr0 gicdIgroupr31 ∧ accessWidth = 32 →
    readWord d'.group offset gicdIgroupr0 = readWord d.group offset gicdIgroupr0
  enable : d'.enable = d.enable
  pending : d'.pending = d.pending
  active : d'.active = d.active
  priority : gicdIpriorityr0 ≤ offset ∧ (offset - gicdIpriorityr0) % 4 = 0 ∧ accessWidth = 32 →
    d'.priority.get ((offset - gicdIpriorityr0) / 4) = d.priority.get ((offset - gicdIpriorityr0) / 4)
  priorityByte : gicdIpriorityr0 ≤ offset ∧ accessWidth = 8 →
    field 8 (d'.priority.getD ((offset - gicdIpriorityr0) / 4) 0) ((offset - gicdIpriorityr0) % 4) =
      field 8 (d.priority.getD ((offset - gicdIpriorityr0) / 4) 0) ((offset - gicdIpriorityr0) % 4)
  configuration : inWindow offset gicdIcfgr0 gicdIcfgr63 ∧ accessWidth = 32 →
    readWord d'.configuration offset gicdIcfgr0 = readWord d.configuration offset gicdIcfgr0
  groupModifier : inWindow offset gicdIgrpmodr0 gicdIgrpmodr31 ∧ accessWidth = 32 →
    readWord d'.groupModifier offset gicdIgrpmodr0 = readWord d.groupModifier offset gicdIgrpmodr0
  router : inWindow offset gicdIrouter0 gicdIrouter1019 ∧ accessWidth = 64 →
    d'.router.get ((offset - gicdIrouter0) / 8) = d.router.get ((offset - gicdIrouter0) / 8)

theorem ReadsSame.refl (d : GicDistributorMmio) (offset accessWidth : ℕ) :
    ReadsSame d d offset accessWidth where
  ctlr _ := rfl
  group _ := rfl
  enable := rfl
  pending := rfl
  active := rfl
  priority _ := rfl
  priorityByte _ := rfl
  configuration _ := rfl
  groupModifier _ := rfl
  router _ := rfl

/-- The byte that a read of the priorities finds. -/
theorem priority_byte (a : FixedArray (BitVec 32) 255) {offset : ℕ}
    (h : gicdIpriorityr0 ≤ offset ∧ offset < gicdIpriorityr254 + 4) :
    (do return (((← a.get ((offset - gicdIpriorityr0) / 4)).setWidth 64) >>>
        (((offset - gicdIpriorityr0) - (offset - gicdIpriorityr0) / 4 * 4) * 8)) &&& 0xff :
          Except Panic (BitVec 64)) =
      .ok ((field 8 (a.getD ((offset - gicdIpriorityr0) / 4) 0)
        ((offset - gicdIpriorityr0) % 4)).setWidth 64) := by
  have hi : (offset - gicdIpriorityr0) / 4 < 255 := by
    have hlast := h.2
    simp only [gicdIpriorityr0, gicdIpriorityr254] at hlast ⊢
    omega
  have hmod : (offset - gicdIpriorityr0) - (offset - gicdIpriorityr0) / 4 * 4 =
      (offset - gicdIpriorityr0) % 4 := by omega
  rw [a.get_ok 0 hi, Checked.ok_bind, hmod, shiftRight_byte]
  rfl

theorem read_congr {d d' : GicDistributorMmio} {offset accessWidth : ℕ}
    (h : ReadsSame d d' offset accessWidth) :
    d'.read offset accessWidth = d.read offset accessWidth := by
  unfold read
  dsimp only
  refine ite_congr rfl (fun hin => by rw [h.ctlr hin]) fun _ => ?_
  refine ite_congr rfl (fun _ => rfl) fun _ => ?_
  refine ite_congr rfl h.group fun _ => ?_
  refine ite_congr rfl (fun _ => by rw [h.enable]) fun _ => ?_
  refine ite_congr rfl (fun _ => by rw [h.enable]) fun _ => ?_
  refine ite_congr rfl (fun _ => by rw [h.pending]) fun _ => ?_
  refine ite_congr rfl (fun _ => by rw [h.pending]) fun _ => ?_
  refine ite_congr rfl (fun _ => by rw [h.active]) fun _ => ?_
  refine ite_congr rfl (fun _ => by rw [h.active]) fun _ => ?_
  refine ite_congr rfl (fun hin => ?_) fun _ => ?_
  · refine ite_congr rfl (fun hwidth => ?_) fun _ => ?_
    · rw [priority_byte d'.priority hin, priority_byte d.priority hin,
        h.priorityByte ⟨hin.1, hwidth⟩]
    · refine ite_congr rfl (fun hword => ?_) fun _ => rfl
      rw [h.priority ⟨hin.1, by omega, hword.2⟩]
  refine ite_congr rfl h.configuration fun _ => ?_
  refine ite_congr rfl h.groupModifier fun _ => ?_
  exact ite_congr rfl h.router fun _ => rfl

/-- The plain registers, at their architectural offsets, with the widths that they take. The
priorities are also written byte by byte. -/
inductive Plain : ℕ → ℕ → Prop
  | ctlr : Plain 0x0000 32
  | igroupr (n : ℕ) (h : n < 32) : Plain (0x0080 + 4 * n) 32
  | ipriorityr (n : ℕ) (h : n < 255) : Plain (0x0400 + 4 * n) 32
  | ipriorityrByte (n : ℕ) (h : n < 1020) : Plain (0x0400 + n) 8
  | icfgr (n : ℕ) (h : n < 64) : Plain (0x0C00 + 4 * n) 32
  | igrpmodr (n : ℕ) (h : n < 32) : Plain (0x0D00 + 4 * n) 32
  | irouter (n : ℕ) (hfirst : 32 ≤ n) (hlast : n < 1020) : Plain (0x6000 + 8 * n) 64

theorem read_ctlr (d : GicDistributorMmio) : d.read gicdCtlr 32 = .ok (d.ctlr.setWidth 64) := by
  unfold read
  rw [if_pos ⟨rfl, rfl⟩]

theorem read_ipriorityr_byte (d : GicDistributorMmio) {offset : ℕ}
    (h : inWindow offset gicdIpriorityr0 (gicdIpriorityr254 + 3)) :
    d.read offset 8 = .ok ((field 8 (d.priority.getD ((offset - gicdIpriorityr0) / 4) 0)
      ((offset - gicdIpriorityr0) % 4)).setWidth 64) := by
  have hin : gicdIpriorityr0 ≤ offset ∧ offset < gicdIpriorityr254 + 4 := ⟨h.1, Nat.lt_succ_of_le h.2⟩
  have h32 : ¬ 8 = 32 := by decide
  simp only [read, h32, and_false, if_false]
  rw [if_pos hin, if_pos trivial, priority_byte d.priority hin]

theorem read_irouter (d : GicDistributorMmio) {offset : ℕ}
    (h : inWindow offset gicdIrouter0 gicdIrouter1019) :
    d.read offset 64 = .ok (d.router.getD ((offset - gicdIrouter0) / 8) 0) := by
  have h32 : ¬ 64 = 32 := by decide
  have h8 : ¬ 64 = 8 := by decide
  simp only [read, h32, and_false, if_false]
  rw [if_neg (outside_priority h (by decide)), if_pos ⟨h, trivial⟩,
    d.router.get_ok 0 (index_lt h (by decide) (by decide))]

section ReadBack
variable (d : GicDistributorMmio) (c : CpuInterface) {n : ℕ} {value : BitVec 64}

theorem readBack_ctlr (hvalue : value.toNat < 2 ^ 32) :
    ReadBack read write d c gicdCtlr 32 value := by
  refine ⟨_, write_ctlr d c value, ?_, fun offset' accessWidth' hapart => ?_⟩
  · exact (read_ctlr _).trans (congrArg Except.ok (setWidth_value hvalue))
  · refine read_congr { ReadsSame.refl d offset' accessWidth' with ctlr := fun hin => ?_ }
    obtain ⟨rfl, rfl⟩ := hin
    have hbytes := hapart.bytes
    simp [gicdCtlr] at hbytes

theorem readBack_igroupr (h : n < 32) (hvalue : value.toNat < 2 ^ 32) :
    ReadBack read write d c (gicdIgroupr0 + 4 * n) 32 value := by
  have hin : inWindow (gicdIgroupr0 + 4 * n) gicdIgroupr0 gicdIgroupr31 := by
    simp only [inWindow, gicdIgroupr0, gicdIgroupr31]
    omega
  refine ⟨_, write_igroupr d c value hin, ?_, fun offset' accessWidth' hapart => ?_⟩
  · refine (read_igroupr _ hin).trans ?_
    rw [FixedArray.getD_put _ _ _ _ _ (index_lt hin (by decide) (by decide)), if_pos rfl,
      setWidth_value hvalue]
  · exact read_congr { ReadsSame.refl d offset' accessWidth' with
      group := fun hin' => readWord_put d.group _ hin' hapart }

theorem readBack_ipriorityr (h : n < 255) (hvalue : value.toNat < 2 ^ 32) :
    ReadBack read write d c (gicdIpriorityr0 + 4 * n) 32 value := by
  have hin : inWindow (gicdIpriorityr0 + 4 * n) gicdIpriorityr0 gicdIpriorityr254 := by
    simp only [inWindow, gicdIpriorityr0, gicdIpriorityr254]
    omega
  have haligned : (gicdIpriorityr0 + 4 * n - gicdIpriorityr0) % 4 = 0 := by omega
  have hwrite := write_ipriorityr d c value 32 ⟨hin.1, hin.2.trans (by decide)⟩
  rw [if_neg (by decide), if_pos ⟨haligned, rfl⟩] at hwrite
  refine ⟨_, hwrite, ?_, fun offset' accessWidth' hapart => ?_⟩
  · refine (read_ipriorityr _ hin haligned).trans ?_
    rw [FixedArray.getD_put _ _ _ _ _ (index_lt hin (by decide) (by decide)), if_pos rfl,
      setWidth_value hvalue]
  · refine read_congr
      { ReadsSame.refl d offset' accessWidth' with priority := ?_, priorityByte := ?_ }
    · rintro ⟨hin', -, rfl⟩
      exact get_put_apart d.priority _ hin' hapart
    · rintro ⟨hin', rfl⟩
      rw [FixedArray.getD_put _ _ _ _ _ (index_lt hin (by decide) (by decide)), if_neg]
      have hbytes := hapart.bytes
      omega

theorem readBack_ipriorityrByte (h : n < 1020) (hvalue : value.toNat < 2 ^ 8) :
    ReadBack read write d c (gicdIpriorityr0 + n) 8 value := by
  have hin : inWindow (gicdIpriorityr0 + n) gicdIpriorityr0 (gicdIpriorityr254 + 3) := by
    simp only [inWindow, gicdIpriorityr0, gicdIpriorityr254]
    omega
  have hi := index_lt (n := 255) hin (show 0 < 4 by decide) (by decide)
  have hwrite := write_ipriorityr d c value 8 hin
  rw [if_pos rfl] at hwrite
  refine ⟨_, hwrite, ?_, fun offset' accessWidth' hapart => ?_⟩
  · refine (read_ipriorityr_byte _ hin).trans ?_
    rw [FixedArray.getD_put _ _ _ _ _ hi, if_pos rfl,
      field_setPriorityByte _ hvalue (Nat.mod_lt _ (by decide)), if_pos rfl, setWidth_value hvalue]
  · refine read_congr
      { ReadsSame.refl d offset' accessWidth' with priority := ?_, priorityByte := ?_ }
    · rintro ⟨hin', haligned, rfl⟩
      apply FixedArray.get_put_ne
      have hbytes := hapart.bytes
      omega
    · rintro ⟨hin', rfl⟩
      rw [FixedArray.getD_put _ _ _ _ _ hi]
      split_ifs with hword
      · rw [field_setPriorityByte _ hvalue (Nat.mod_lt _ (by decide)), if_neg, hword]
        have hbytes := hapart.bytes
        omega
      · rfl

theorem readBack_icfgr (h : n < 64) (hvalue : value.toNat < 2 ^ 32) :
    ReadBack read write d c (gicdIcfgr0 + 4 * n) 32 value := by
  have hin : inWindow (gicdIcfgr0 + 4 * n) gicdIcfgr0 gicdIcfgr63 := by
    simp only [inWindow, gicdIcfgr0, gicdIcfgr63]
    omega
  refine ⟨_, write_icfgr d c value hin, ?_, fun offset' accessWidth' hapart => ?_⟩
  · refine (read_icfgr _ hin).trans ?_
    rw [FixedArray.getD_put _ _ _ _ _ (index_lt hin (by decide) (by decide)), if_pos rfl,
      setWidth_value hvalue]
  · exact read_congr { ReadsSame.refl d offset' accessWidth' with
      configuration := fun hin' => readWord_put d.configuration _ hin' hapart }

theorem readBack_igrpmodr (h : n < 32) (hvalue : value.toNat < 2 ^ 32) :
    ReadBack read write d c (gicdIgrpmodr0 + 4 * n) 32 value := by
  have hin : inWindow (gicdIgrpmodr0 + 4 * n) gicdIgrpmodr0 gicdIgrpmodr31 := by
    simp only [inWindow, gicdIgrpmodr0, gicdIgrpmodr31]
    omega
  have hi : (gicdIgrpmodr0 + 4 * n - gicdIgrpmodr0) / 4 < 32 := by omega
  have hwrite := write_igrpmodr d c value hin
  rw [if_pos hi] at hwrite
  refine ⟨_, hwrite, ?_, fun offset' accessWidth' hapart => ?_⟩
  · refine (read_igrpmodr _ hin).trans ?_
    rw [readWord_ok _ hi, FixedArray.getD_put _ _ _ _ _ hi, if_pos rfl, setWidth_value hvalue]
  · exact read_congr { ReadsSame.refl d offset' accessWidth' with
      groupModifier := fun hin' => readWord_put d.groupModifier _ hin' hapart }

theorem readBack_irouter (hfirst : 32 ≤ n) (hlast : n < 1020) :
    ReadBack read write d c (0x6000 + 8 * n) 64 value := by
  have hin : inWindow (0x6000 + 8 * n) gicdIrouter0 gicdIrouter1019 := by
    simp only [inWindow, gicdIrouter0, gicdIrouter1019]
    omega
  refine ⟨_, write_irouter d c value hin, ?_, fun offset' accessWidth' hapart => ?_⟩
  · refine (read_irouter _ hin).trans ?_
    rw [FixedArray.getD_put _ _ _ _ _ (index_lt hin (by decide) (by decide)), if_pos rfl]
  · refine read_congr { ReadsSame.refl d offset' accessWidth' with router := ?_ }
    rintro ⟨hin', rfl⟩
    apply FixedArray.get_put_ne
    have hbytes := hapart.bytes
    simp only [inWindow, gicdIrouter0, gicdIrouter1019] at hin' hin ⊢
    omega

/-- Every plain register of the distributor reads back. -/
theorem readBack {offset accessWidth : ℕ} (hplain : Plain offset accessWidth)
    (hvalue : value.toNat < 2 ^ accessWidth) : ReadBack read write d c offset accessWidth value := by
  cases hplain with
  | ctlr => exact readBack_ctlr d c hvalue
  | igroupr n h => exact readBack_igroupr d c h hvalue
  | ipriorityr n h => exact readBack_ipriorityr d c h hvalue
  | ipriorityrByte n h => exact readBack_ipriorityrByte d c h hvalue
  | icfgr n h => exact readBack_icfgr d c h hvalue
  | igrpmodr n h => exact readBack_igrpmodr d c h hvalue
  | irouter n hfirst hlast => exact readBack_irouter d c hfirst hlast

end ReadBack

end GicDistributorMmio

namespace GicRedistributorMmio
open GicDistributorMmio (inWindow readWord index_lt readWord_ok not_register outside setPriorityByte)

/-! ## The redistributor -/

/-- What a read of the redistributor depends on is the same. -/
structure ReadsSame (r r' : GicRedistributorMmio) (offset accessWidth : ℕ) : Prop where
  affinity : r'.affinity = r.affinity
  ctlr : offset = gicrCtlr ∧ accessWidth = 32 → r'.ctlr = r.ctlr
  waker : r'.waker = r.waker
  group : offset = gicrIgroupr0 ∧ accessWidth = 32 → r'.group = r.group
  enable : r'.enable = r.enable
  pending : r'.pending = r.pending
  active : r'.active = r.active
  priority : inWindow offset gicrIpriorityr0 gicrIpriorityr7 ∧ accessWidth = 32 →
    readWord r'.priority offset gicrIpriorityr0 = readWord r.priority offset gicrIpriorityr0
  configuration : inWindow offset gicrIcfgr0 gicrIcfgr1 ∧ accessWidth = 32 →
    readWord r'.configuration offset gicrIcfgr0 = readWord r.configuration offset gicrIcfgr0
  groupModifier : offset = gicrIgrpmodr0 ∧ accessWidth = 32 → r'.groupModifier = r.groupModifier

theorem ReadsSame.refl (r : GicRedistributorMmio) (offset accessWidth : ℕ) :
    ReadsSame r r offset accessWidth where
  affinity := rfl
  ctlr _ := rfl
  waker := rfl
  group _ := rfl
  enable := rfl
  pending := rfl
  active := rfl
  priority _ := rfl
  configuration _ := rfl
  groupModifier _ := rfl

theorem read_congr {r r' : GicRedistributorMmio} {offset accessWidth : ℕ}
    (h : ReadsSame r r' offset accessWidth) :
    r'.read offset accessWidth = r.read offset accessWidth := by
  have htyper : r'.generateTyper = r.generateTyper := by rw [generateTyper, h.affinity, generateTyper]
  unfold read
  refine ite_congr rfl (fun hin => by rw [h.ctlr hin]) fun _ => ?_
  refine ite_congr rfl (fun _ => by rw [htyper]) fun _ => ?_
  refine ite_congr rfl (fun _ => by rw [htyper]) fun _ => ?_
  refine ite_congr rfl (fun _ => by rw [h.waker]) fun _ => ?_
  refine ite_congr rfl (fun _ => rfl) fun _ => ?_
  refine ite_congr rfl (fun hin => by rw [h.group hin]) fun _ => ?_
  refine ite_congr rfl (fun _ => by rw [h.enable]) fun _ => ?_
  refine ite_congr rfl (fun _ => by rw [h.pending]) fun _ => ?_
  refine ite_congr rfl (fun _ => by rw [h.active]) fun _ => ?_
  refine ite_congr rfl h.priority fun _ => ?_
  refine ite_congr rfl h.configuration fun _ => ?_
  exact ite_congr rfl (fun hin => by rw [h.groupModifier hin]) fun _ => rfl

/-- The plain registers of the redistributor. -/
inductive Plain : ℕ → ℕ → Prop
  | ctlr : Plain 0x00000 32
  | igroupr0 : Plain 0x10080 32
  | ipriorityr (n : ℕ) (h : n < 8) : Plain (0x10400 + 4 * n) 32
  | ipriorityrByte (n : ℕ) (h : n < 32) : Plain (0x10400 + n) 8
  | icfgr (n : ℕ) (h : n < 2) : Plain (0x10C00 + 4 * n) 32
  | igrpmodr0 : Plain 0x10D00 32

section Writes
variable (r : GicRedistributorMmio) (c : CpuInterface) (value : BitVec 64)

theorem write_ctlr : r.write c gicrCtlr 32 value = .ok ({ r with ctlr := value.setWidth 32 }, c) := rfl

theorem write_igroupr0 :
    r.write c gicrIgroupr0 32 value = .ok ({ r with group := value.setWidth 32 }, c) := rfl

theorem write_igrpmodr0 :
    r.write c gicrIgrpmodr0 32 value = .ok ({ r with groupModifier := value.setWidth 32 }, c) := rfl

variable {offset : ℕ}

/-- The three kinds of writes to the window of priorities. -/
theorem write_ipriorityr (accessWidth : ℕ) (h : inWindow offset gicrIpriorityr0 (gicrIpriorityr7 + 3)) :
    r.write c offset accessWidth value =
      if accessWidth = 8 then .ok ({ r with
        priority := r.priority.put ((offset - gicrIpriorityr0) / 4) (setPriorityByte
          (r.priority.getD ((offset - gicrIpriorityr0) / 4) 0)
          ((offset - gicrIpriorityr0) % 4 * 8) value) }, c)
      else if (offset - gicrIpriorityr0) % 4 = 0 ∧ accessWidth = 32 then .ok ({ r with
        priority := r.priority.put ((offset - gicrIpriorityr0) / 4) (value.setWidth 32) }, c)
      else .ok (r, c) := by
  have hi : (offset - gicrIpriorityr0) / 4 < 8 := index_lt h (by decide) (by decide)
  have hmod : (offset - gicrIpriorityr0) - (offset - gicrIpriorityr0) / 4 * 4 =
      (offset - gicrIpriorityr0) % 4 := by omega
  unfold write
  dsimp only
  rw [if_neg (not_register h (by decide))]
  repeat rw [if_neg (not_register h (by decide))]
  rw [if_pos ⟨h.1, Nat.lt_succ_of_le h.2⟩, hmod, r.priority.modify_ok _ 0 hi, r.priority.set_ok _ hi]
  rfl

theorem write_icfgr (h : inWindow offset gicrIcfgr0 gicrIcfgr1) :
    r.write c offset 32 value = .ok ({ r with
      configuration := r.configuration.put ((offset - gicrIcfgr0) / 4) (value.setWidth 32) }, c) := by
  have hpriority : ¬ (gicrIpriorityr0 ≤ offset ∧ offset < gicrIpriorityr7 + 4) := by
    have hfirst := h.1
    have hlt : gicrIpriorityr7 + 4 ≤ gicrIcfgr0 := by decide
    omega
  unfold write
  dsimp only
  rw [if_neg (not_register h (by decide))]
  repeat rw [if_neg (not_register h (by decide))]
  rw [if_neg hpriority, if_pos ⟨h, rfl⟩, r.configuration.set_ok _ (index_lt h (by decide) (by decide))]
  rfl

end Writes

section Reads
variable (r : GicRedistributorMmio) {offset : ℕ}

/-- Behind the last register of its own, a read of 32 bits is decided by the windows. -/
theorem read_window {lo hi : ℕ} (h : inWindow offset lo hi) (hbelow : gicrIcactiver0 < lo) :
    r.read offset 32 =
      if inWindow offset gicrIpriorityr0 gicrIpriorityr7 ∧ 32 = 32 then
        readWord r.priority offset gicrIpriorityr0
      else if inWindow offset gicrIcfgr0 gicrIcfgr1 ∧ 32 = 32 then
        readWord r.configuration offset gicrIcfgr0
      else if offset = gicrIgrpmodr0 ∧ 32 = 32 then .ok (r.groupModifier.setWidth 64)
      else .ok 0 := by
  have hsingle {register : ℕ} {p : Prop} (hlast : register ≤ gicrIcactiver0) :
      ¬ (offset = register ∧ p) := not_register h (hlast.trans_lt hbelow)
  have hpair {set clear : ℕ} {p : Prop} (hset : set ≤ gicrIcactiver0)
      (hclear : clear ≤ gicrIcactiver0) :
      ¬ ((offset = set ∨ offset = clear) ∧ p) := by
    rintro ⟨heq | heq, hp⟩
    · exact hsingle hset ⟨heq, hp⟩
    · exact hsingle hclear ⟨heq, hp⟩
  unfold read
  rw [if_neg (hsingle (by decide)), if_neg (hsingle (by decide)), if_neg (hsingle (by decide)),
    if_neg (hsingle (by decide)), if_neg (hsingle (by decide)), if_neg (hsingle (by decide)),
    if_neg (hpair (by decide) (by decide)), if_neg (hpair (by decide) (by decide)),
    if_neg (hpair (by decide) (by decide))]

theorem read_ipriorityr (h : inWindow offset gicrIpriorityr0 gicrIpriorityr7) :
    r.read offset 32 = .ok ((r.priority.getD ((offset - gicrIpriorityr0) / 4) 0).setWidth 64) := by
  rw [read_window r h (by decide), if_pos ⟨h, rfl⟩, readWord_ok _ (index_lt h (by decide) (by decide))]

theorem read_icfgr (h : inWindow offset gicrIcfgr0 gicrIcfgr1) :
    r.read offset 32 = .ok ((r.configuration.getD ((offset - gicrIcfgr0) / 4) 0).setWidth 64) := by
  rw [read_window r h (by decide), if_neg (outside h (by decide)), if_pos ⟨h, rfl⟩,
    readWord_ok _ (index_lt h (by decide) (by decide))]

theorem read_igrpmodr0 : r.read gicrIgrpmodr0 32 = .ok (r.groupModifier.setWidth 64) := by
  rw [read_window r ⟨le_rfl, le_rfl⟩ (by decide), if_neg (by decide), if_neg (by decide),
    if_pos ⟨rfl, rfl⟩]

/-- A read of a single byte finds no register. -/
theorem read_byte (offset : ℕ) : r.read offset 8 = .ok 0 := by
  simp [read]

end Reads

section ReadBack
variable (r : GicRedistributorMmio) (c : CpuInterface) {n : ℕ} {value : BitVec 64}

theorem readBack_ctlr (hvalue : value.toNat < 2 ^ 32) :
    ReadBack read write r c gicrCtlr 32 value := by
  refine ⟨_, write_ctlr r c value, ?_, fun offset' accessWidth' hapart => ?_⟩
  · exact congrArg Except.ok (setWidth_value hvalue)
  · refine read_congr { ReadsSame.refl r offset' accessWidth' with ctlr := fun hin => ?_ }
    obtain ⟨rfl, rfl⟩ := hin
    have hbytes := hapart.bytes
    simp [gicrCtlr] at hbytes

theorem readBack_igroupr0 (hvalue : value.toNat < 2 ^ 32) :
    ReadBack read write r c gicrIgroupr0 32 value := by
  refine ⟨_, write_igroupr0 r c value, ?_, fun offset' accessWidth' hapart => ?_⟩
  · exact congrArg Except.ok (setWidth_value hvalue)
  · refine read_congr { ReadsSame.refl r offset' accessWidth' with group := fun hin => ?_ }
    obtain ⟨rfl, rfl⟩ := hin
    have hbytes := hapart.bytes
    omega

theorem readBack_ipriorityr (h : n < 8) (hvalue : value.toNat < 2 ^ 32) :
    ReadBack read write r c (gicrIpriorityr0 + 4 * n) 32 value := by
  have hlast : gicrIpriorityr7 = gicrIpriorityr0 + 4 * 7 := rfl
  have hin : inWindow (gicrIpriorityr0 + 4 * n) gicrIpriorityr0 gicrIpriorityr7 :=
    ⟨by omega, by omega⟩
  have haligned : (gicrIpriorityr0 + 4 * n - gicrIpriorityr0) % 4 = 0 := by omega
  have hwrite := write_ipriorityr r c value 32 ⟨hin.1, hin.2.trans (by decide)⟩
  rw [if_neg (by decide), if_pos ⟨haligned, rfl⟩] at hwrite
  refine ⟨_, hwrite, ?_, fun offset' accessWidth' hapart => ?_⟩
  · refine (read_ipriorityr _ hin).trans ?_
    rw [FixedArray.getD_put _ _ _ _ _ (index_lt hin (by decide) (by decide)), if_pos rfl,
      setWidth_value hvalue]
  · exact read_congr { ReadsSame.refl r offset' accessWidth' with
      priority := fun hin' => readWord_put r.priority _ hin' hapart }

/-- A byte of the priorities is written, but its read finds no register. -/
theorem readBack_ipriorityrByte_iff (h : n < 32) :
    ReadBack read write r c (gicrIpriorityr0 + n) 8 value ↔ value = 0 := by
  have hlast : gicrIpriorityr7 = gicrIpriorityr0 + 4 * 7 := rfl
  have hin : inWindow (gicrIpriorityr0 + n) gicrIpriorityr0 (gicrIpriorityr7 + 3) :=
    ⟨by omega, by omega⟩
  have hwrite := write_ipriorityr r c value 8 hin
  rw [if_pos rfl] at hwrite
  constructor
  · rintro ⟨r', -, hread, -⟩
    rw [read_byte] at hread
    exact (Except.ok.inj hread).symm
  · intro hzero
    refine ⟨_, hwrite, ?_, fun offset' accessWidth' hapart => ?_⟩
    · rw [read_byte, hzero]
    · refine read_congr { ReadsSame.refl r offset' accessWidth' with priority := ?_ }
      rintro ⟨⟨hfirst, -⟩, rfl⟩
      have hne : (offset' - gicrIpriorityr0) / 4 ≠ (gicrIpriorityr0 + n - gicrIpriorityr0) / 4 := by
        have hbytes := hapart.bytes
        have hbase : gicrIpriorityr0 = 4 * 0x4100 := rfl
        have haligned : 4 ∣ offset' := hapart.aligned
        omega
      rw [readWord, FixedArray.get_put_ne _ _ hne, readWord]

theorem readBack_icfgr (h : n < 2) (hvalue : value.toNat < 2 ^ 32) :
    ReadBack read write r c (gicrIcfgr0 + 4 * n) 32 value := by
  have hlast : gicrIcfgr1 = gicrIcfgr0 + 4 := rfl
  have hin : inWindow (gicrIcfgr0 + 4 * n) gicrIcfgr0 gicrIcfgr1 := ⟨by omega, by omega⟩
  refine ⟨_, write_icfgr r c value hin, ?_, fun offset' accessWidth' hapart => ?_⟩
  · refine (read_icfgr _ hin).trans ?_
    rw [FixedArray.getD_put _ _ _ _ _ (index_lt hin (by decide) (by decide)), if_pos rfl,
      setWidth_value hvalue]
  · exact read_congr { ReadsSame.refl r offset' accessWidth' with
      configuration := fun hin' => readWord_put r.configuration _ hin' hapart }

theorem readBack_igrpmodr0 (hvalue : value.toNat < 2 ^ 32) :
    ReadBack read write r c gicrIgrpmodr0 32 value := by
  refine ⟨_, write_igrpmodr0 r c value, ?_, fun offset' accessWidth' hapart => ?_⟩
  · rw [read_igrpmodr0, setWidth_value hvalue]
  · refine read_congr { ReadsSame.refl r offset' accessWidth' with groupModifier := fun hin => ?_ }
    obtain ⟨rfl, rfl⟩ := hin
    have hbytes := hapart.bytes
    omega

/-- A plain register of the redistributor reads back, except a byte other than zero. -/
theorem readBack_word_iff {offset accessWidth : ℕ} (hplain : Plain offset accessWidth)
    (hvalue : value.toNat < 2 ^ accessWidth) :
    ReadBack read write r c offset accessWidth value ↔ (accessWidth = 8 → value = 0) := by
  have hword {offset : ℕ} (h : ReadBack read write r c offset 32 value) :
      ReadBack read write r c offset 32 value ↔ (32 = 8 → value = 0) :=
    ⟨fun _ h8 => absurd h8 (by decide), fun _ => h⟩
  cases hplain with
  | ctlr => exact hword (readBack_ctlr r c hvalue)
  | igroupr0 => exact hword (readBack_igroupr0 r c hvalue)
  | ipriorityr n h => exact hword (readBack_ipriorityr r c h hvalue)
  | ipriorityrByte n h =>
    rw [forall_prop_of_true rfl]
    exact readBack_ipriorityrByte_iff r c h
  | icfgr n h => exact hword (readBack_icfgr r c h hvalue)
  | igrpmodr0 => exact hword (readBack_igrpmodr0 r c hvalue)

end ReadBack

end GicRedistributorMmio

/-- Whatever was written before, the plain registers of both devices read back, except a byte of
the priorities of the redistributor that is not zero. -/
theorem readBack_iff (d : GicDistributorMmio) (r : GicRedistributorMmio) (c : CpuInterface) :
    (∀ offset accessWidth (value : BitVec 64), GicDistributorMmio.Plain offset accessWidth →
      value.toNat < 2 ^ accessWidth →
        ReadBack GicDistributorMmio.read GicDistributorMmio.write d c offset accessWidth value) ∧
    ∀ offset accessWidth (value : BitVec 64), GicRedistributorMmio.Plain offset accessWidth →
      value.toNat < 2 ^ accessWidth →
        (ReadBack GicRedistributorMmio.read GicRedistributorMmio.write r c offset accessWidth value ↔
          (accessWidth = 8 → value = 0)) :=
  ⟨fun _ _ _ hplain hvalue => d.readBack c hplain hvalue,
    fun _ _ _ hplain hvalue => r.readBack_word_iff c hplain hvalue⟩

/-- The priority 0xA0 is written for interrupt 27, and reads as zero. -/
theorem priority_byte_lost :
    GicRedistributorMmio.Plain 0x1041B 8 ∧ (0xA0 : BitVec 64).toNat < 2 ^ 8 ∧
      ¬ ReadBack GicRedistributorMmio.read GicRedistributorMmio.write (.new 0) (.reset 0 3) 0x1041B 8
        0xA0 := by
  refine ⟨.ipriorityrByte 27 (by decide), by decide, ?_⟩
  rintro ⟨r', -, hread, -⟩
  rw [GicRedistributorMmio.read_byte] at hread
  exact absurd (Except.ok.inj hread) (by decide)

end Min1visor.Gicv3Mmio
