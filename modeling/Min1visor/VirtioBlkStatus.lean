import Min1visor.VirtioBlkCalls

/-!
# The status of a request

The handler starts a request with the status `S_OK` and leaves it there unless the
address of a data descriptor does not translate or the file system returns `Err`. The
file system does not return `Err` for a range that goes past the end of the file: it
moves what there is and returns how much that was, which the handler does not look at.
-/
namespace Min1visor.Fat.Fat32

variable {η : Type}

/-! ## How much the file system moves -/

theorem turn_done {fs : Fat32} {length bufferPointer n : ℕ} {s : Span}
    (h : fs.turn length bufferPointer s = .ok (n, none)) : n = length := by
  obtain ⟨pointer, -, h⟩ := Checked.bind_eq_ok.mp h
  split_ifs at h with hlength
  · cases h
    exact hlength.symm
  · obtain ⟨next, -, h⟩ := Checked.bind_eq_ok.mp h
    cases h

/-- The reader returns `Ok` once it has moved the whole length. -/
theorem readFrom_count (fs : Fat32) (pages : Pages η) (bufferAddress length : ℕ) {n : ℕ} :
    ∀ (fuel cluster dataOffset bufferPointer : ℕ) (m : Machine η),
      (fs.readFrom pages bufferAddress length fuel cluster dataOffset bufferPointer m).1 = .ok n →
      n = length := by
  intro fuel
  induction fuel with
  | zero =>
    intro cluster dataOffset bufferPointer m h
    cases h
  | succ fuel ih =>
    intro cluster dataOffset bufferPointer m h
    rw [readFrom] at h
    split at h
    · cases h
    · split at h
      · cases h
      · split at h
        · cases h
        · cases h
          exact turn_done ‹_›
        · exact ih _ _ _ _ h

theorem writeFrom_count (fs : Fat32) (mem : Bytes) (bufferAddress length : ℕ) {n : ℕ} :
    ∀ (fuel cluster dataOffset bufferPointer : ℕ) (blk : VirtioBlk),
      (fs.writeFrom mem bufferAddress length fuel cluster dataOffset bufferPointer blk).1 = .ok n →
      n = length := by
  intro fuel
  induction fuel with
  | zero =>
    intro cluster dataOffset bufferPointer blk h
    cases h
  | succ fuel ih =>
    intro cluster dataOffset bufferPointer blk h
    rw [writeFrom] at h
    split at h
    · cases h
    · split at h
      · cases h
      · split at h
        · cases h
        · cases h
          exact turn_done ‹_›
        · exact ih _ _ _ _ h

/-- The part of a range that lies in the file. -/
theorem clamp_eq_ok {file : FileInfo} {offset length : ℕ} {clamped : Option ℕ}
    (h : clamp file offset length = .ok clamped) :
    clamped.getD 0 = min length (file.fileSize - offset) := by
  obtain ⟨stop, hstop, h⟩ := Checked.bind_eq_ok.mp h
  have hadd := (Checked.add_eq_ok.mp hstop).2
  split_ifs at h with hpast hbehind
  · cases h
    rw [Option.getD_none]
    omega
  · cases h
    rw [Option.getD_some]
    omega
  · cases h
    rw [Option.getD_some]
    omega

/-- A call of the file system, as the handler makes it. -/
def access (fs : Fat32) (pages : Pages η) (fuel : ℕ) (isWrite : Bool) (file : FileInfo)
    (address offset length : ℕ) (m : Machine η) : Except Stop ℕ :=
  if isWrite then (fs.write fuel file m.mem address offset length m.blk).1
  else (fs.read pages fuel file address offset length m).1

end Min1visor.Fat.Fat32

namespace Min1visor.Virtio
open Fat Fat.Fat32

variable {η : Type} {vm : Vm.VM} {fs : Fat32} {pages : Pages η} {fuel : ℕ}

/-- Behind the clamping, the file system moves the whole length. -/
theorem FileBody.fat32_count {isWrite : Bool} {file : FileInfo} {address offset length n : ℕ}
    {m : Machine η}
    (h : ((FileBody.fat32 fs pages fuel).call isWrite file address offset length m).1 = .ok n) :
    n = length := by
  cases hlocate : fs.locate file offset with
  | error stop => cases isWrite <;> simp [FileBody.call, FileBody.fat32, hlocate] at h
  | ok place =>
    cases isWrite with
    | true =>
      simp only [FileBody.call, FileBody.fat32, hlocate, if_true] at h
      exact writeFrom_count fs _ _ _ _ _ _ _ _ h
    | false =>
      simp only [FileBody.call, FileBody.fat32, hlocate, Bool.false_eq_true, if_false] at h
      exact readFrom_count fs pages _ _ _ _ _ _ _ h

/-- A call of the file system is the clamping and what comes behind it. -/
theorem access_eq (fs : Fat32) (pages : Pages η) (fuel : ℕ) (isWrite : Bool) (file : FileInfo)
    (address offset length : ℕ) (m : Machine η) :
    fs.access pages fuel isWrite file address offset length m =
      match clamp file offset length with
      | .error p => .error (.panic p)
      | .ok none => .ok 0
      | .ok (some n) =>
        ((FileBody.fat32 fs pages fuel).call isWrite file address offset n m).1 := by
  cases isWrite with
  | true =>
    rw [access, if_pos rfl, Fat32.write]
    cases clamp file offset length with
    | error p => rfl
    | ok clamped =>
      cases clamped with
      | none => rfl
      | some n =>
        simp only [FileBody.call, FileBody.fat32, if_true]
        cases fs.locate file offset <;> rfl
  | false =>
    rw [access, if_neg (by simp), Fat32.read]
    cases clamp file offset length with
    | error p => rfl
    | ok clamped => cases clamped <;> rfl

/-- What a call that returns `Ok` has moved. -/
theorem access_count {isWrite : Bool} {file : FileInfo} {address offset length n : ℕ} {m : Machine η}
    (h : fs.access pages fuel isWrite file address offset length m = .ok n) :
    n = min length (file.fileSize - offset) := by
  rw [access_eq] at h
  split at h
  · cases h
  · cases h
    exact clamp_eq_ok ‹_›
  · rw [FileBody.fat32_count h]
    exact clamp_eq_ok ‹_›

/-! ## The data descriptors of a request -/

/-- What the file system returned in a turn: the result of the call on record, or `Ok(0)`
from the clamping. -/
def returned (w w' : World (η × List FileCall)) : Except Stop ℕ :=
  match w'.calls.drop w.calls.length with
  | [] => .ok 0
  | c :: _ => c.result

section Chain
variable (vm : Vm.VM) (run : ℕ → World (η × List FileCall)) (start j : ℕ)

/-- The file system returned the length of the descriptor for it. -/
def TransferredInFull : Prop :=
  vm.getPhysicalAddress (chainDesc run start j).address ≠ none ∧
    returned (run (start + 1 + j)) (run (start + 1 + j + 1)) =
      .ok (chainDesc run start j).length

/-- The descriptor is empty or its range lies in the file. -/
def InFile : Prop :=
  (chainDesc run start j).length = 0 ∨
    (run start).sector vm * 512 + chainBytes run start j + (chainDesc run start j).length ≤
      (run start).device.file.fileSize

/-- The address of the descriptor does not translate, or the call of the file system for it
does not return `Ok`. -/
def FailsOutright (fs : Fat32) (pages : Pages η) (fuel : ℕ) : Prop :=
  ∀ a, vm.getPhysicalAddress (chainDesc run start j).address = some a → ∀ n,
    fs.access pages fuel ((run start).asksWrite vm) (run start).device.file a
      ((run start).sector vm * 512 % 2 ^ 64 + chainBytes run start j)
      (chainDesc run start j).length (plainMachine (run (start + 1 + j)).machine) ≠ .ok n

end Chain

/-- Turn `start` starts a request with `n` data descriptors, and its status byte is written
to an address of host memory that the used element and the index of the same turn leave
alone. -/
structure WritesStatus (vm : Vm.VM) (body : FileBody η) (w : World η) (start n a : ℕ) : Prop
    extends Serves vm body w start n where
  readable : (Handler.before vm body w (start + 1 + n)).Readable
    (chainId (Handler.before vm body w) start n)
  last : (chainDesc (Handler.before vm body w) start n).flags &&& virtQueueDescFlagsNext = 0
  address : vm.getPhysicalAddress (chainDesc (Handler.before vm body w) start n).address = some a
  element : a < (Handler.before vm body w (start + 1 + n)).usedSlot ∨
    (Handler.before vm body w (start + 1 + n)).usedSlot + sizeOfUsedElement ≤ a
  idx : a < w.device.usedRing + 2 ∨ w.device.usedRing + 4 ≤ a

/-! ## The status byte -/

/-- A byte that was stored is in the memory behind a publication that leaves it alone. -/
theorem PublishRule.mem {w w' : World η} {id length : ℕ} {result : Except Fault Unit}
    (h : PublishRule w id length result w') {a : ℕ}
    (helement : a < w.usedSlot ∨ w.usedSlot + sizeOfUsedElement ≤ a)
    (hidx : a < w.device.usedRing + 2 ∨ w.device.usedRing + 4 ≤ a) :
    w'.machine.mem a = w.machine.mem a := by
  cases h with
  | published =>
    change Bytes.store (Bytes.store w.machine.mem w.usedSlot sizeOfUsedElement
      (id + 2 ^ 32 * length)) (w.device.usedRing + 2) 2 (w.device.usedId + 1) a = _
    rw [Bytes.store_outside _ _ (by omega), Bytes.store_outside _ _ helement]
  | _ => rfl

/-- The turn of the status descriptor leaves the status of the request in the memory. -/
theorem WalkRule.status_byte {w w' : World η} {r : Request} {pc : Except Fault Pc} {a : ℕ}
    (h : WalkRule vm w r pc w') (hreadable : w.Readable r.descriptor.next)
    (hlast : (w.desc r.descriptor.next).flags &&& virtQueueDescFlagsNext = 0)
    (haddress : vm.getPhysicalAddress (w.desc r.descriptor.next).address = some a)
    (helement : a < w.usedSlot ∨ w.usedSlot + sizeOfUsedElement ≤ a)
    (hidx : a < w.device.usedRing + 2 ∨ w.device.usedRing + 4 ≤ a) :
    w'.machine.mem a = r.status := by
  have hstored : Bytes.store w.machine.mem a 1 r.status.toNat a = r.status := by
    simp [Bytes.store]
  cases h with
  | noTable table => exact absurd table hreadable.table
  | entryOverflow _ entry => exact absurd hreadable.entry entry
  | statusOverflow _ _ address =>
    cases haddress.symm.trans address
    exact hstored
  | status _ _ address _ publish =>
    cases haddress.symm.trans address
    exact (publish.mem helement hidx).trans hstored
  | noStatus _ _ address => cases haddress.symm.trans address
  | sizeOverflow _ next | untranslated _ next | offsetOverflow _ next | stopped _ next
  | accessed _ next => exact absurd hlast next

/-! ## The status of a request -/

/-- What a data descriptor does to the status. -/
theorem TurnRecord.status {w w' : World (η × List FileCall)} {r r' : Request}
    {pc : Except Fault Pc}
    (h : TurnRecord vm (.fat32 fs pages fuel) w r pc w') (hpc : pc = .ok (.walk r')) :
    (vm.getPhysicalAddress (w.nextDesc r).address = none ∧ r'.status = virtioBlkSIoerr) ∨
      ∃ a, vm.getPhysicalAddress (w.nextDesc r).address = some a ∧
        returned w w' = fs.access pages fuel r.isWrite w.device.file a r.offset
          (w.nextDesc r).length (plainMachine w.machine) ∧
        r'.status = if (returned w w').isOk then r.status else virtioBlkSIoerr := by
  cases h with
  | ends _ stops => exact absurd hpc (stops r')
  | unmapped address =>
    cases hpc
    exact .inl ⟨address, Request.behindData_status _ _ _ _⟩
  | pastEnd address clamped calls =>
    cases hpc
    have hreturned : returned w w' = .ok 0 := by simp [returned, calls]
    refine .inr ⟨_, address, ?_, ?_⟩
    · rw [hreturned, access_eq, clamped]
    · rw [hreturned, Request.behindData_status]
      rfl
  | @called a n c pc w' address clamped call calls goesOn =>
    have hreturned : returned w w' = c.result := by simp [returned, calls]
    refine .inr ⟨_, address, ?_, ?_⟩
    · rw [hreturned, access_eq, clamped, call]
    · rw [goesOn r' hpc, hreturned, Request.behindData_status, FileCall.status]

/-- The states of a call of the handler on a volume, with its calls of the file system. -/
abbrev diskRun (vm : Vm.VM) (fs : Fat32) (pages : Pages η) (fuel : ℕ)
    (w : World (η × List FileCall)) : ℕ → World (η × List FileCall) :=
  Handler.before vm (FileBody.fat32 fs pages fuel).recorded w

/-- The file system returned `Ok` for a descriptor. -/
def Moved (vm : Vm.VM) (run : ℕ → World (η × List FileCall)) (start j : ℕ) : Prop :=
  vm.getPhysicalAddress (chainDesc run start j).address ≠ none ∧
    ∃ m, returned (run (start + 1 + j)) (run (start + 1 + j + 1)) = .ok m

section Requests
variable {w : World (η × List FileCall)} {start n j a : ℕ} {r : Request}

/-- The turn of a data descriptor of a request. -/
theorem Serves.status {r' : Request}
    (h : Serves vm (FileBody.fat32 fs pages fuel).recorded w start j)
    (hr : (Handler.operation vm (FileBody.fat32 fs pages fuel).recorded (start + 1 + j) w).pc =
      .ok (.walk r))
    (hr' : (Handler.operation vm (FileBody.fat32 fs pages fuel).recorded (start + 1 + j + 1)
      w).pc = .ok (.walk r')) :
    r'.status = virtioBlkSOk ↔
      r.status = virtioBlkSOk ∧ Moved vm (diskRun vm fs pages fuel w) start j := by
  have hat := h.request_at hr
  rcases (Handler.operation_record hr).status hr' with ⟨hnone, hstatus⟩ | ⟨a, hsome, -, hstatus⟩
  · rw [hat.nextDesc] at hnone
    simp [hstatus, Moved, hnone, virtioBlkSIoerr, virtioBlkSOk]
  · rw [hat.nextDesc] at hsome
    rw [hstatus, Moved, hsome]
    cases returned (diskRun vm fs pages fuel w (start + 1 + j))
        (diskRun vm fs pages fuel w (start + 1 + j + 1)) with
    | ok m => simp [Except.isOk, Except.toBool]
    | error stop => simp [Except.isOk, Except.toBool, virtioBlkSIoerr, virtioBlkSOk]

/-- The status is `S_OK` as long as the file system returned `Ok` for every descriptor. -/
theorem Serves.status_iff (h : Serves vm (FileBody.fat32 fs pages fuel).recorded w start j)
    (hr : (Handler.operation vm (FileBody.fat32 fs pages fuel).recorded (start + 1 + j) w).pc =
      .ok (.walk r)) :
    r.status = virtioBlkSOk ↔ ∀ i < j, Moved vm (diskRun vm fs pages fuel w) start i := by
  induction j generalizing r with
  | zero =>
    have hrule := Handler.step_fetch vm (FileBody.fat32 fs pages fuel).recorded h.fetch
    rw [← Handler.operation_succ] at hrule
    rw [show (Handler.operation vm (FileBody.fat32 fs pages fuel).recorded (start + 1) w).pc =
      .ok (.walk r) from hr] at hrule
    generalize (Handler.operation vm _ (start + 1) w).world = w' at hrule
    cases hrule with
    | started => simp [World.request]
  | succ j ih =>
    obtain ⟨r₀, hr₀⟩ := h.walk j j.le_succ
    have hserves := h.mono j.le_succ
    rw [Nat.forall_lt_succ_right, ← ih hserves hr₀]
    exact hserves.status hr₀ hr

/-- The descriptors before one translate, and none of their bytes is left out. -/
theorem mappedBytes_eq {run : ℕ → World η}
    (h : ∀ i < j, vm.getPhysicalAddress (chainDesc run start i).address ≠ none) :
    mappedBytes vm run start j = chainBytes run start j :=
  Finset.sum_congr rfl fun i hi => if_neg (h i (Finset.mem_range.mp hi))

/-- What the file system returned for a descriptor of a request that goes on, if the ones
before it translate. -/
theorem Serves.returned_eq (h : Serves vm (FileBody.fat32 fs pages fuel).recorded w start (j + 1))
    (hbefore : ∀ i < j,
      vm.getPhysicalAddress (chainDesc (diskRun vm fs pages fuel w) start i).address ≠ none)
    (haddress : vm.getPhysicalAddress
      (chainDesc (diskRun vm fs pages fuel w) start j).address = some a) :
    returned (diskRun vm fs pages fuel w (start + 1 + j))
        (diskRun vm fs pages fuel w (start + 1 + j + 1)) =
      fs.access pages fuel ((diskRun vm fs pages fuel w start).asksWrite vm)
        (diskRun vm fs pages fuel w start).device.file a
        ((diskRun vm fs pages fuel w start).sector vm * 512 % 2 ^ 64 +
          chainBytes (diskRun vm fs pages fuel w) start j)
        (chainDesc (diskRun vm fs pages fuel w) start j).length
        (plainMachine (diskRun vm fs pages fuel w (start + 1 + j)).machine) := by
  obtain ⟨r, hr⟩ := h.walk j j.le_succ
  obtain ⟨r', hr'⟩ := h.walk (j + 1) le_rfl
  have hat := (h.mono j.le_succ).request_at hr
  have hfile := (Handler.before_queue vm (FileBody.fat32 fs pages fuel).recorded w
    (start + 1 + j)).file
  have hstart := (Handler.before_queue vm (FileBody.fat32 fs pages fuel).recorded w start).file
  rcases (Handler.operation_record hr).status hr' with ⟨hnone, -⟩ | ⟨b, hsome, hreturned, -⟩
  · rw [hat.nextDesc, haddress] at hnone
    cases hnone
  · rw [hat.nextDesc] at hsome hreturned
    rw [haddress] at hsome
    cases hsome
    rw [hreturned, hat.isWrite, hat.offset, hfile, hstart, mappedBytes_eq hbefore]

/-- A descriptor behind others that were moved is moved, or it fails outright. -/
theorem Serves.moved_iff (h : Serves vm (FileBody.fat32 fs pages fuel).recorded w start (j + 1))
    (hbefore : ∀ i < j, Moved vm (diskRun vm fs pages fuel w) start i) :
    Moved vm (diskRun vm fs pages fuel w) start j ↔
      ¬ FailsOutright vm (diskRun vm fs pages fuel w) start j fs pages fuel := by
  rw [Moved, FailsOutright]
  cases haddress : vm.getPhysicalAddress
      (chainDesc (diskRun vm fs pages fuel w) start j).address with
  | none => simp
  | some a =>
    have hreturned := h.returned_eq (fun i hi => (hbefore i hi).1) haddress
    rw [hreturned]
    simp

/-- A descriptor that was moved is transferred in full, if it lies in the file. -/
theorem Serves.full (h : Serves vm (FileBody.fat32 fs pages fuel).recorded w start (j + 1))
    (hmoved : ∀ i ≤ j, Moved vm (diskRun vm fs pages fuel w) start i)
    (hin : InFile vm (diskRun vm fs pages fuel w) start j) :
    TransferredInFull vm (diskRun vm fs pages fuel w) start j := by
  obtain ⟨haddress, m, hm⟩ := hmoved j le_rfl
  obtain ⟨a, hsome⟩ := Option.ne_none_iff_exists'.mp haddress
  refine ⟨haddress, ?_⟩
  have hreturned := h.returned_eq (fun i hi => (hmoved i hi.le).1) hsome
  rw [hm] at hreturned
  have hcount := access_count hreturned.symm
  have hmod := Nat.mod_le ((diskRun vm fs pages fuel w start).sector vm * 512) (2 ^ 64)
  rw [hm, hcount]
  refine congrArg Except.ok ?_
  rcases hin with hempty | hend
  · rw [hempty, Nat.zero_min]
  · exact Nat.min_eq_left (by omega)

/-- The byte of a status turn. -/
theorem WritesStatus.byte
    (h : WritesStatus vm (FileBody.fat32 fs pages fuel).recorded w start n a) :
    (diskRun vm fs pages fuel w (start + 1 + n + 1)).machine.mem a = virtioBlkSOk ↔
      ∀ j < n, Moved vm (diskRun vm fs pages fuel w) start j := by
  obtain ⟨r, hr⟩ := h.walk n le_rfl
  have hat := h.request_at hr
  have hring := (Handler.before_queue vm (FileBody.fat32 fs pages fuel).recorded w
    (start + 1 + n)).usedRing
  have hrule := Handler.step_walk vm (FileBody.fat32 fs pages fuel).recorded hr
  rw [← Handler.operation_succ] at hrule
  have hreadable := h.readable
  rw [← hat.next] at hreadable
  have hlast := h.last
  have haddress := h.address
  rw [← hat.nextDesc] at hlast haddress
  have hidx := h.idx
  rw [← hring] at hidx
  have hbyte := hrule.status_byte hreadable hlast haddress h.element hidx
  rw [← h.toServes.status_iff hr, ← hbyte]
  rfl

end Requests

/-- For every status byte that the handler leaves in the memory: it is `S_OK` only if every
data descriptor of its request was transferred in full and lies in the file, exactly when
one of them fails outright or each of them is empty or lies in the file. -/
theorem status_honest_iff (vm : Vm.VM) (fs : Fat32) (pages : Pages η) (fuel : ℕ)
    (w : World (η × List FileCall)) (start n a : ℕ)
    (h : WritesStatus vm (FileBody.fat32 fs pages fuel).recorded w start n a) :
    ((diskRun vm fs pages fuel w (start + 1 + n + 1)).machine.mem a = virtioBlkSOk →
        ∀ j < n, TransferredInFull vm (diskRun vm fs pages fuel w) start j ∧
          InFile vm (diskRun vm fs pages fuel w) start j) ↔
      (∃ j < n, FailsOutright vm (diskRun vm fs pages fuel w) start j fs pages fuel) ∨
        ∀ j < n, InFile vm (diskRun vm fs pages fuel w) start j := by
  rw [h.byte]
  by_cases hmoved : ∀ j < n, Moved vm (diskRun vm fs pages fuel w) start j
  · have hnone : ¬ ∃ j < n, FailsOutright vm (diskRun vm fs pages fuel w) start j fs pages fuel := by
      intro ⟨j, hj, hfails⟩
      exact ((h.toServes.mono hj).moved_iff fun i hi => hmoved i (hi.trans hj)).mp (hmoved j hj)
        hfails
    simp only [hnone, false_or]
    constructor
    · exact fun hfull j hj => (hfull hmoved j hj).2
    · intro hin _ j hj
      exact ⟨(h.toServes.mono hj).full (fun i hi => hmoved i (hi.trans_lt hj)) (hin j hj), hin j hj⟩
  · refine iff_of_true (fun hall => absurd hall hmoved) (.inl ?_)
    -- the first descriptor that was not moved fails outright
    push Not at hmoved
    classical
    obtain ⟨hj, hfirst⟩ := Nat.find_spec hmoved
    refine ⟨Nat.find hmoved, hj, ?_⟩
    have hbefore : ∀ i < Nat.find hmoved, Moved vm (diskRun vm fs pages fuel w) start i := by
      intro i hi
      by_contra hnot
      exact Nat.find_min hmoved hi ⟨hi.trans hj, hnot⟩
    have hiff := (h.toServes.mono hj).moved_iff hbefore
    rw [hiff, not_not] at hfirst
    exact hfirst

instance (w : World η) (id : ℕ) : Decidable (w.Readable id) :=
  decidable_of_iff (w.device.descriptor ≠ 0 ∧ w.entry id < 2 ^ 64)
    ⟨fun h => ⟨h.1, h.2⟩, fun h => ⟨h.table, h.entry⟩⟩

/-- A read of one sector to one data descriptor. -/
def readSector (sector : ℕ) : List (ℕ × ℕ × ℕ) :=
  [(0x50000000, 8, 0x40002000), (0x50000008, 4, 16), (0x5000000c, 2, 1), (0x5000000e, 2, 1),
    (0x50000010, 8, 0x40003000), (0x50000018, 4, 512), (0x5000001c, 2, 3), (0x5000001e, 2, 2),
    (0x50000020, 8, 0x40002010), (0x50000028, 4, 1), (0x5000002c, 2, 2),
    (0x50002008, 8, sector), (0x50000042, 2, 1)]

def readSectorWorld (sector : ℕ) : World (Unit × List FileCall) :=
  (World.start sampleDevice (guestMemory (readSector sector))).recording

/-- The states of the read, turn by turn. -/
abbrev readSectorRun (sector : ℕ) : ℕ → World (Unit × List FileCall) :=
  diskRun sampleVm sampleVolume samplePages 1 (readSectorWorld sector)

theorem readSector_writes (sector : ℕ) (h : sector = 0 ∨ sector = 1) :
    WritesStatus sampleVm (FileBody.fat32 sampleVolume samplePages 1).recorded
      (readSectorWorld sector) 0 1 0x50002010 := by
  refine ⟨⟨rfl, fun i hi => ?_⟩, ?_, ?_, ?_, ?_, ?_⟩
  · interval_cases i
    · refine ⟨⟨0, ⟨0x40002000, 16, 1, 1⟩, false, sector * 512, 0, virtioBlkSOk⟩, ?_⟩
      rcases h with rfl | rfl <;> decide +kernel
    · refine ⟨⟨0, ⟨0x40003000, 512, 3, 2⟩, false, sector * 512 + 512, 512, virtioBlkSOk⟩, ?_⟩
      rcases h with rfl | rfl <;> decide +kernel
  all_goals rcases h with rfl | rfl <;> decide +kernel

/-- What the file system returns for the descriptor of the read. -/
theorem readSector_returned (sector : ℕ) (h : sector = 0 ∨ sector = 1) :
    returned (readSectorRun sector 1) (readSectorRun sector 2) =
      .ok (if sector = 0 then 512 else 0) := by
  rcases h with rfl | rfl <;> decide +kernel

/-- Both reads end with `S_OK`. -/
theorem readSector_status (sector : ℕ) (h : sector = 0 ∨ sector = 1) :
    (readSectorRun sector 3).machine.mem 0x50002010 = virtioBlkSOk := by
  refine (readSector_writes sector h).byte.mpr fun j hj => ?_
  obtain rfl : j = 0 := by omega
  constructor
  · rcases h with rfl | rfl <;> decide +kernel
  · exact ⟨_, readSector_returned sector h⟩

/-- The file has one sector; the first is read. -/
theorem status_honest_iff_first_sector :
    (readSectorRun 0 3).machine.mem 0x50002010 = virtioBlkSOk ∧
    (((readSectorRun 0 3).machine.mem 0x50002010 = virtioBlkSOk →
        ∀ j < 1, TransferredInFull sampleVm (readSectorRun 0) 0 j ∧
          InFile sampleVm (readSectorRun 0) 0 j) ↔
      (∃ j < 1, FailsOutright sampleVm (readSectorRun 0) 0 j sampleVolume samplePages 1) ∨
        ∀ j < 1, InFile sampleVm (readSectorRun 0) 0 j) := by
  have hiff := status_honest_iff sampleVm sampleVolume samplePages 1 (readSectorWorld 0) 0 1
    0x50002010 (readSector_writes 0 (.inl rfl))
  rw [show 0 + 1 + 1 + 1 = 3 from rfl] at hiff
  refine ⟨readSector_status 0 (.inl rfl), ?_⟩
  unfold readSectorRun
  exact hiff

/-- The second sector lies behind the end of the file: nothing of it is read, and the
status is `S_OK`. -/
theorem status_past_end :
    WritesStatus sampleVm (FileBody.fat32 sampleVolume samplePages 1).recorded
      (readSectorWorld 1) 0 1 0x50002010 ∧
    (readSectorRun 1 3).machine.mem 0x50002010 = virtioBlkSOk ∧
    returned (readSectorRun 1 1) (readSectorRun 1 2) = .ok 0 ∧
    ¬ TransferredInFull sampleVm (readSectorRun 1) 0 0 := by
  have hreturned := readSector_returned 1 (.inr rfl)
  rw [if_neg (by decide)] at hreturned
  have hlength : (chainDesc (readSectorRun 1) 0 0).length = 512 := by decide +kernel
  refine ⟨readSector_writes 1 (.inr rfl), readSector_status 1 (.inr rfl), hreturned,
    fun hfull => ?_⟩
  have hsecond := hfull.2
  rw [hlength, show returned (readSectorRun 1 (0 + 1 + 0)) (readSectorRun 1 (0 + 1 + 0 + 1)) =
    .ok 0 from hreturned] at hsecond
  cases hsecond

end Min1visor.Virtio
