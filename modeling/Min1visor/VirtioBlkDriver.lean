import Min1visor.VirtioBlkMmio
import Min1visor.Library.Runs

/-!
# The virtio block driver

The driver has a queue of 64 descriptors in memory of its own. A request takes three
of them, puts the first into the next slot of the available ring, and frees them when
the device has written its status. The index of the ring is a 16-bit counter.
-/
namespace Min1visor.VirtioDriver
open Virtio

def virtQueueDescFlagsWrite : ℕ := 1 <<< 1
def numberOfDescriptors : ℕ := 64

/-- The driver: its descriptor table, the available ring and the free descriptors. -/
structure VirtioBlk where
  descriptors : FixedArray VirtQueueDesc 64
  availIdx : ℕ
  availRing : FixedArray ℕ 64
  freeBitmap : FixedArray (BitVec 8) 8

namespace VirtioBlk

/-- The driver that `new` returns, over a zeroed queue. -/
def new : VirtioBlk where
  descriptors := .fill 64 ⟨0, 0, 0, 0⟩
  availIdx := 0
  availRing := .fill 64 0
  freeBitmap := .fill 8 0xFF

/-- The first set bit of the bitmap, byte by byte. -/
def firstFree (bitmap : FixedArray (BitVec 8) 8) : Option ℕ :=
  (List.range 8).findSome? fun byte =>
    ((List.range 8).find? fun bit => (bitmap.getD byte 0).getLsbD bit).map fun bit => byte * 8 + bit

def allocateDescriptor (d : VirtioBlk) : Option (ℕ × VirtioBlk) :=
  (firstFree d.freeBitmap).map fun index =>
    let cleared := d.freeBitmap.getD (index / 8) 0 &&& ~~~((1 : BitVec 8) <<< (index % 8))
    (index, { d with freeBitmap := d.freeBitmap.put (index / 8) cleared })

def freeDescriptor (d : VirtioBlk) (index : ℕ) : Except Panic VirtioBlk :=
  if index < numberOfDescriptors then do
    let bit := (1 : BitVec 8) <<< (index &&& ((1 <<< 3) - 1))
    return { d with freeBitmap := ← d.freeBitmap.modify (index / 8) (· ||| bit) }
  else .error .assertion

def setDescriptor (d : VirtioBlk) (index : ℕ) (f : VirtQueueDesc → VirtQueueDesc) :
    Except Panic VirtioBlk := do
  return { d with descriptors := ← d.descriptors.modify index f }

end VirtioBlk

/-- A call of `operation_sync`, with the addresses of its two variables on the stack and
the values of the status byte that it sees; the device answers in the end. -/
structure Operation where
  bufferAddress : ℕ
  blockAddress : ℕ
  length : ℕ
  isWrite : Bool
  reqAddress : ℕ
  statusAddress : ℕ
  polls : List UInt8
  answered : ∃ s ∈ polls, s ≠ 0xFF

namespace Operation

/-- The driver takes requests of whole sectors only. -/
def Aligned (o : Operation) : Prop := o.blockAddress % 512 = 0 ∧ o.length % 512 = 0

instance (o : Operation) : Decidable o.Aligned := inferInstanceAs (Decidable (_ ∧ _))

end Operation

/-- The spin loop: the answer that the first status other than `0xFF` stands for. -/
def spinWait : List UInt8 → Option (Except Unit Unit)
  | [] => none
  | s :: rest => if s ≠ 0xFF then some (if s = virtioBlkSOk then .ok () else .error ()) else spinWait rest

namespace VirtioBlk

/-- The three descriptors of a request, and the heads of the chain. -/
def chain (d : VirtioBlk) (o : Operation) : Except Panic (Option (ℕ × ℕ × ℕ) × VirtioBlk) := do
  match d.allocateDescriptor with
  | none => return (none, d)
  | some (first, d) =>
    let d ← d.setDescriptor first fun e =>
      { e with address := o.reqAddress, length := sizeOfReq, flags := virtQueueDescFlagsNext }
    match d.allocateDescriptor with
    | none => return (none, d)
    | some (second, d) =>
      let d ← d.setDescriptor second fun e =>
        { e with
          address := o.bufferAddress
          length := o.length % 2 ^ 32
          flags := virtQueueDescFlagsNext ||| if o.isWrite then 0 else virtQueueDescFlagsWrite }
      let d ← d.setDescriptor first fun e => { e with next := second }
      match d.allocateDescriptor with
      | none => return (none, d)
      | some (third, d) =>
        let d ← d.setDescriptor third fun e =>
          { e with address := o.statusAddress, length := 1, flags := virtQueueDescFlagsWrite }
        let d ← d.setDescriptor second fun e => { e with next := third }
        return (some (first, second, third), d)

/-- The update of the available ring. -/
def offer (d : VirtioBlk) (first : ℕ) : Except Panic VirtioBlk := do
  let ring ← d.availRing.set (d.availIdx % numberOfDescriptors) first
  let idx ← Checked.add 16 d.availIdx 1
  return { d with availRing := ring, availIdx := idx }

/-- A request, up to its answer; without one the call does not return. -/
def operationSync (d : VirtioBlk) (o : Operation) :
    Except Panic (Option (Except Unit Unit) × VirtioBlk) := do
  if ¬ o.Aligned then return (some (.error ()), d)
  match ← d.chain o with
  | (none, d) => return (some (.error ()), d)
  | (some (first, second, third), d) =>
    let d ← d.offer first
    match spinWait o.polls with
    | none => return (none, d)
    | some result =>
      let d ← d.freeDescriptor first
      let d ← d.freeDescriptor second
      let d ← d.freeDescriptor third
      return (some result, d)

/-- The driver after a call. -/
def step (d : VirtioBlk) (o : Operation) : Except Panic VirtioBlk := do
  return (← d.operationSync o).2

end VirtioBlk

/-! ## Between two requests -/

theorem spinWait_answered {polls : List UInt8} (h : ∃ s ∈ polls, s ≠ 0xFF) :
    ∃ result, spinWait polls = some result := by
  induction polls with
  | nil => simp at h
  | cons s rest ih =>
    by_cases hs : s = 0xFF
    · obtain ⟨result, hresult⟩ := ih (by simpa [hs] using h)
      exact ⟨result, by simp [spinWait, hs, hresult]⟩
    · simp [spinWait, hs]

/-- All descriptors are free, and the index counts the requests. -/
structure VirtioBlk.Idle (d : VirtioBlk) (k : ℕ) : Prop where
  free : d.freeBitmap = .fill 8 0xFF
  availIdx : d.availIdx = k

/-- The bitmap with the first descriptors taken. -/
def oneTaken : FixedArray (BitVec 8) 8 := (FixedArray.fill 8 0xFF).put 0 0xFE
def twoTaken : FixedArray (BitVec 8) 8 := oneTaken.put 0 0xFC
def threeTaken : FixedArray (BitVec 8) 8 := twoTaken.put 0 0xF8

namespace VirtioBlk

section Parts
variable (descriptors : FixedArray VirtQueueDesc 64) (availIdx : ℕ) (availRing : FixedArray ℕ 64)
  (freeBitmap : FixedArray (BitVec 8) 8)

theorem allocateDescriptor_eq {free : FixedArray (BitVec 8) 8} {index : ℕ} {cleared : BitVec 8}
    (h : firstFree free = some index)
    (hcleared : free.getD (index / 8) 0 &&& ~~~((1 : BitVec 8) <<< (index % 8)) = cleared) :
    allocateDescriptor ⟨descriptors, availIdx, availRing, free⟩ =
      some (index, ⟨descriptors, availIdx, availRing, free.put (index / 8) cleared⟩) := by
  rw [allocateDescriptor, h, ← hcleared]
  rfl

theorem allocateDescriptor_first :
    allocateDescriptor ⟨descriptors, availIdx, availRing, .fill 8 0xFF⟩ =
      some (0, ⟨descriptors, availIdx, availRing, oneTaken⟩) :=
  allocateDescriptor_eq _ _ _ (by decide) (by decide)

theorem allocateDescriptor_second :
    allocateDescriptor ⟨descriptors, availIdx, availRing, oneTaken⟩ =
      some (1, ⟨descriptors, availIdx, availRing, twoTaken⟩) :=
  allocateDescriptor_eq _ _ _ (by decide) (by decide)

theorem allocateDescriptor_third :
    allocateDescriptor ⟨descriptors, availIdx, availRing, twoTaken⟩ =
      some (2, ⟨descriptors, availIdx, availRing, threeTaken⟩) :=
  allocateDescriptor_eq _ _ _ (by decide) (by decide)

theorem setDescriptor_ok {index : ℕ} (h : index < 64) (f : VirtQueueDesc → VirtQueueDesc) :
    setDescriptor ⟨descriptors, availIdx, availRing, freeBitmap⟩ index f =
      .ok ⟨descriptors.put index (f (descriptors.getD index ⟨0, 0, 0, 0⟩)), availIdx, availRing,
        freeBitmap⟩ := by
  rw [setDescriptor, descriptors.modify_ok f ⟨0, 0, 0, 0⟩ h]
  rfl

theorem freeDescriptor_eq {free : FixedArray (BitVec 8) 8} {index : ℕ} {set : BitVec 8}
    (h : index < 64)
    (hset : free.getD (index / 8) 0 ||| (1 : BitVec 8) <<< (index &&& ((1 <<< 3) - 1)) = set) :
    freeDescriptor ⟨descriptors, availIdx, availRing, free⟩ index =
      .ok ⟨descriptors, availIdx, availRing, free.put (index / 8) set⟩ := by
  have hbyte : index / 8 < 8 := by omega
  rw [freeDescriptor, if_pos (show index < numberOfDescriptors from h)]
  simp only [free.modify_ok _ 0 hbyte, hset, Checked.ok_bind, Checked.pure_eq_ok]

theorem put_threeTaken : ((threeTaken.put 0 0xF9).put 0 0xFB).put 0 0xFF = .fill 8 0xFF := by
  funext i
  fin_cases i <;> rfl

end Parts

/-- The chain of a request on an idle driver. -/
theorem chain_idle {d : VirtioBlk} (h : d.freeBitmap = .fill 8 0xFF) (o : Operation) :
    ∃ descriptors, d.chain o =
        .ok (some (0, 1, 2), ⟨descriptors, d.availIdx, d.availRing, threeTaken⟩) ∧
      (descriptors.getD 0 ⟨0, 0, 0, 0⟩).address = o.reqAddress := by
  obtain ⟨descriptors, availIdx, availRing, freeBitmap⟩ := d
  have hfree : freeBitmap = .fill 8 0xFF := h
  subst hfree
  simp only [chain, allocateDescriptor_first, allocateDescriptor_second, allocateDescriptor_third,
    setDescriptor_ok _ _ _ _ (show 0 < 64 by decide), setDescriptor_ok _ _ _ _ (show 1 < 64 by decide),
    setDescriptor_ok _ _ _ _ (show 2 < 64 by decide), Checked.ok_bind, Checked.pure_eq_ok]
  refine ⟨_, rfl, ?_⟩
  rfl

theorem offer_eq (d : VirtioBlk) (first : ℕ) :
    d.offer first = if d.availIdx + 1 < 2 ^ 16 then .ok { d with
      availRing := d.availRing.put (d.availIdx % 64) first
      availIdx := d.availIdx + 1 } else .error .overflow := by
  have hslot : d.availIdx % numberOfDescriptors < 64 := Nat.mod_lt _ (by decide)
  rw [offer, FixedArray.set_ok _ _ hslot, Checked.ok_bind, Checked.add]
  split_ifs <;> rfl

/-- A request of whole sectors on an idle driver. -/
theorem operationSync_idle {d : VirtioBlk} {k : ℕ} (hd : d.Idle k) {o : Operation}
    (ho : o.Aligned) (hk : k + 1 < 2 ^ 16) :
    ∃ result d', d.operationSync o = .ok (some result, d') ∧ d'.Idle (k + 1) ∧
      d'.availRing = d.availRing.put (k % 64) 0 ∧
      (d'.descriptors.getD 0 ⟨0, 0, 0, 0⟩).address = o.reqAddress := by
  obtain ⟨descriptors, hchain, haddress⟩ := chain_idle hd.free o
  obtain ⟨result, hresult⟩ := spinWait_answered o.answered
  refine ⟨result, ⟨descriptors, k + 1, d.availRing.put (k % 64) 0, .fill 8 0xFF⟩, ?_, ⟨rfl, rfl⟩, rfl,
    haddress⟩
  rw [operationSync, if_neg (not_not.mpr ho), hchain, Checked.ok_bind]
  dsimp only
  rw [offer_eq]
  simp only [hd.availIdx, if_pos hk, Checked.ok_bind, hresult]
  rw [freeDescriptor_eq _ _ _ (show 0 < 64 by decide) (show _ = 0xF9 by decide), Checked.ok_bind,
    freeDescriptor_eq _ _ _ (show 1 < 64 by decide) (show _ = 0xFB by decide), Checked.ok_bind,
    freeDescriptor_eq _ _ _ (show 2 < 64 by decide) (show _ = 0xFF by decide), Checked.ok_bind,
    show ((threeTaken.put (0 / 8) 0xF9).put (1 / 8) 0xFB).put (2 / 8) 0xFF = .fill 8 0xFF from
      put_threeTaken]
  rfl

theorem operationSync_overflow {d : VirtioBlk} {k : ℕ} (hd : d.Idle k) {o : Operation}
    (ho : o.Aligned) (hk : ¬ k + 1 < 2 ^ 16) : d.operationSync o = .error .overflow := by
  obtain ⟨descriptors, hchain, -⟩ := chain_idle hd.free o
  rw [operationSync, if_neg (not_not.mpr ho), hchain, Checked.ok_bind]
  dsimp only
  rw [offer_eq]
  simp only [hd.availIdx, if_neg hk, Checked.error_bind]

theorem operationSync_unaligned (d : VirtioBlk) {o : Operation} (ho : ¬ o.Aligned) :
    d.operationSync o = .ok (some (.error ()), d) := by
  rw [operationSync, if_pos ho]
  rfl

end VirtioBlk

/-! ## Runs of the driver -/

/-- The number of requests that a list of calls makes. -/
def requests (calls : List Operation) : ℕ := calls.countP fun o => decide o.Aligned

/-- The calls after `k` requests, if the counter allows. -/
theorem run_idle (calls : List Operation) {d : VirtioBlk} {k : ℕ} (hd : d.Idle k)
    (hk : k + requests calls < 2 ^ 16) :
    ∃ d', Runs.run VirtioBlk.step d calls = .ok d' ∧ d'.Idle (k + requests calls) := by
  induction calls generalizing d k with
  | nil => exact ⟨d, rfl, hd⟩
  | cons o rest ih =>
    by_cases ho : o.Aligned
    · have hcount : requests (o :: rest) = requests rest + 1 := by simp [requests, ho]
      rw [hcount] at hk ⊢
      obtain ⟨result, d', hstep, hd', -⟩ := VirtioBlk.operationSync_idle hd ho (by omega)
      have hrun : d.step o = .ok d' := by
        rw [VirtioBlk.step, hstep]
        rfl
      rw [Runs.run_cons_ok rest hrun, show k + (requests rest + 1) = k + 1 + requests rest by omega]
      exact ih hd' (by omega)
    · have hcount : requests (o :: rest) = requests rest := by simp [requests, ho]
      have hrun : d.step o = .ok d := by
        rw [VirtioBlk.step, d.operationSync_unaligned ho]
        rfl
      rw [hcount] at hk ⊢
      rw [Runs.run_cons_ok rest hrun]
      exact ih hd hk

/-- The next request after `k` of them returns; it went to the slot of `k`, and the index
moved from `k` on. -/
def DriverServes (k : ℕ) : Prop :=
  ∀ (calls : List Operation) (o : Operation), requests calls = k → o.Aligned →
    ∃ d d' result head, Runs.run VirtioBlk.step .new calls = .ok d ∧
      d.operationSync o = .ok (some result, d') ∧ d.availIdx = k % 2 ^ 16 ∧
      d'.availIdx = (k + 1) % 2 ^ 16 ∧ d'.availRing = d.availRing.put (k % 64) head ∧
      (d'.descriptors.getD head ⟨0, 0, 0, 0⟩).address = o.reqAddress

/-- A read of one sector that the device answers at once. -/
def sampleRead : Operation where
  bufferAddress := 0x1000
  blockAddress := 0
  length := 512
  isWrite := false
  reqAddress := 0x2000
  statusAddress := 0x2010
  polls := [0]
  answered := ⟨0, by simp, by decide⟩

theorem requests_replicate (n : ℕ) : requests (List.replicate n sampleRead) = n := by
  rw [requests, List.countP_replicate]
  exact if_pos (by decide)

theorem new_idle : VirtioBlk.new.Idle 0 := ⟨rfl, rfl⟩

/-- The driver after 65535 requests, and its next one. -/
theorem step_65535 : ∃ d, Runs.run VirtioBlk.step .new (List.replicate 65535 sampleRead) = .ok d ∧
    d.step sampleRead = .error .overflow := by
  obtain ⟨d, hrun, hidle⟩ := run_idle (List.replicate 65535 sampleRead) new_idle
    (by rw [requests_replicate]; decide)
  rw [requests_replicate, Nat.zero_add] at hidle
  refine ⟨d, hrun, ?_⟩
  rw [VirtioBlk.step, VirtioBlk.operationSync_overflow hidle (by decide) (by decide)]
  rfl

theorem driverServes_iff (k : ℕ) : DriverServes k ↔ k < 65535 := by
  constructor
  · intro h
    by_contra hk
    -- The request with number 65535 aborts, and so does every longer run.
    obtain ⟨d, d', result, head, hrun, hstep, -⟩ :=
      h (List.replicate k sampleRead) sampleRead (requests_replicate k) (by decide)
    have hgoes : Runs.run VirtioBlk.step .new (List.replicate k sampleRead ++ [sampleRead]) =
        .ok d' := by
      have hlast : d.step sampleRead = .ok d' := by
        rw [VirtioBlk.step, hstep]
        rfl
      rw [Runs.run_append_ok _ hrun, Runs.run_cons_ok [] hlast]
      rfl
    obtain ⟨e, he, hover⟩ := step_65535
    obtain ⟨rest, hrest⟩ := Nat.exists_eq_add_of_le (Nat.le_of_not_lt hk)
    have hcalls : List.replicate k sampleRead ++ [sampleRead] =
        List.replicate 65535 sampleRead ++ sampleRead :: List.replicate rest sampleRead := by
      rw [← List.replicate_succ', ← List.replicate_succ, List.replicate_append_replicate, hrest]
      rfl
    rw [hcalls, Runs.run_append_ok _ he, Runs.run, hover] at hgoes
    cases hgoes
  · intro hk calls o hcalls ho
    obtain ⟨d, hrun, hidle⟩ := run_idle calls new_idle (by omega)
    rw [hcalls, Nat.zero_add] at hidle
    obtain ⟨result, d', hstep, hidle', hring, haddress⟩ :=
      VirtioBlk.operationSync_idle hidle ho (by omega)
    refine ⟨d, d', result, 0, hrun, hstep, ?_, ?_, hring, haddress⟩
    · rw [hidle.availIdx, Nat.mod_eq_of_lt (by omega)]
    · rw [hidle'.availIdx, Nat.mod_eq_of_lt (by omega)]

end Min1visor.VirtioDriver
