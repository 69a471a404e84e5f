import Min1visor.VirtioBlkTurns
import Mathlib.Algebra.BigOperators.Group.Finset.Basic

/-!
# The calls of the file system in a request

A file system that keeps a record of its calls: what it was called with, behind the
clamping of its range, and what it returned. The handler does with it what it does without
the record. The chain of a request is read from the guest memory, turn by turn, and the
record says what became of each of its data descriptors.
-/
namespace Min1visor.Virtio
open Vgicv3 Gicv3Mmio Fat Fat.Fat32 VirtioBlkMmio Device

variable {η : Type} {vm : Vm.VM} {body : FileBody η}

/-- A call of the file system, behind its clamping, and what it returned. -/
structure FileCall where
  isWrite : Bool
  file : FileInfo
  address : ℕ
  offset : ℕ
  length : ℕ
  result : Except Stop ℕ
  deriving DecidableEq

/-- The machine without the record of the calls. -/
def plainMachine (m : Machine (η × List FileCall)) : Machine η := ⟨m.mem, m.heap.1, m.blk⟩

namespace FileBody

/-- A call that goes on record. -/
def record (body : FileBody η) (isWrite : Bool) (file : FileInfo) (address offset length : ℕ)
    (m : Machine (η × List FileCall)) : Except Stop ℕ × Machine (η × List FileCall) :=
  let (result, m') := body.call isWrite file address offset length (plainMachine m)
  (result, ⟨m'.mem, (m'.heap, m.heap.2 ++ [⟨isWrite, file, address, offset, length, result⟩]),
    m'.blk⟩)

/-- The file system with a record of its calls. -/
def recorded (body : FileBody η) : FileBody (η × List FileCall) :=
  ⟨body.record false, body.record true⟩

theorem recorded_call (body : FileBody η) (isWrite : Bool) (file : FileInfo)
    (address offset length : ℕ) (m : Machine (η × List FileCall)) :
    body.recorded.call isWrite file address offset length m =
      body.record isWrite file address offset length m := by
  cases isWrite <;> rfl

end FileBody

namespace World

/-- The calls of the file system so far. -/
def calls (w : World (η × List FileCall)) : List FileCall := w.machine.heap.2

/-- The state with an empty record. -/
def recording (w : World η) : World (η × List FileCall) where
  device := w.device
  machine := ⟨w.machine.mem, (w.machine.heap, []), w.machine.blk⟩
  distributor := w.distributor
  cpu := w.cpu
  history := w.history

/-- The state without the record. -/
def plain (w : World (η × List FileCall)) : World η where
  device := w.device
  machine := plainMachine w.machine
  distributor := w.distributor
  cpu := w.cpu
  history := w.history

end World

/-! ## The record changes nothing -/

section Plain
open Prog

theorem arithmetic_plain {α : Type} (x : Except Panic α) :
    MapsTo (World.plain (η := η)) (arithmetic x) (arithmetic x) := .lift _

theorem touch_plain (a size : ℕ) :
    MapsTo (World.plain (η := η)) (touch a size) (touch a size) := .modify fun _ => rfl

theorem mem_plain : MapsTo (World.plain (η := η)) mem mem := fun _ => rfl

theorem setDevice_plain (f : VirtioBlkMmio → VirtioBlkMmio) :
    MapsTo (World.plain (η := η)) (setDevice f) (setDevice f) := .modify fun _ => rfl

theorem storeBytes_plain (a size value : ℕ) :
    MapsTo (World.plain (η := η)) (storeBytes a size value) (storeBytes a size value) :=
  .bind (touch_plain a size) fun _ => .modify fun _ => rfl

theorem getDescriptor_plain (id : ℕ) :
    MapsTo (World.plain (η := η)) (getDescriptor id) (getDescriptor id) := by
  refine .get_bind fun s => .ite (.pure none) (.bind (arithmetic_plain _) fun a => ?_)
  exact .bind (touch_plain _ _) fun _ => .bind mem_plain fun _ => .pure _

theorem getDescriptorId_plain (id : ℕ) :
    MapsTo (World.plain (η := η)) (getDescriptorId id) (getDescriptorId id) := by
  refine .get_bind fun s => .ite (.pure none) (.bind (arithmetic_plain _) fun a => ?_)
  exact .bind (touch_plain _ _) fun _ => .bind mem_plain fun _ => .pure _

theorem getNextAvailId_plain :
    MapsTo (World.plain (η := η)) getNextAvailId getNextAvailId := by
  refine .get_bind fun s => .bind (touch_plain _ _) fun _ => .bind mem_plain fun m => ?_
  refine .ite (.pure none) (.bind (arithmetic_plain _) fun next => ?_)
  exact .bind (.lift _) fun _ => .bind (setDevice_plain _) fun _ => .pure _

theorem writeUsed_plain (id length : ℕ) :
    MapsTo (World.plain (η := η)) (writeUsed id length) (writeUsed id length) := by
  refine .get_bind fun s => .bind (arithmetic_plain _) fun slot => .bind (.lift _) fun usedId => ?_
  refine .bind (setDevice_plain _) fun _ => .bind (arithmetic_plain _) fun a => ?_
  exact .bind (storeBytes_plain _ _ _) fun _ => .bind (storeBytes_plain _ _ _) fun _ =>
    .modify fun _ => rfl

theorem endAccess_plain (outcome : Except Stop ℕ × Machine (η × List FileCall)) :
    MapsTo World.plain (endAccess outcome) (endAccess (outcome.1, plainMachine outcome.2)) := by
  refine .bind (.modify fun _ => rfl) fun _ => ?_
  obtain ⟨result, m⟩ := outcome
  cases result with
  | ok => exact .pure true
  | error stop =>
    cases stop with
    | err => exact .pure false
    | panic p => exact .stop _
    | running => exact .stop _

theorem accessFile_plain (body : FileBody η) (isWrite : Bool) (address offset length : ℕ) :
    MapsTo World.plain (accessFile body.recorded isWrite address offset length)
      (accessFile body isWrite address offset length) := by
  refine .get_bind fun s => .bind (arithmetic_plain _) fun clamped => ?_
  cases clamped with
  | none => exact .pure true
  | some n =>
    refine .get_bind fun s => ?_
    cases isWrite <;> exact endAccess_plain _

theorem raiseInterrupt_plain : MapsTo (World.plain (η := η)) raiseInterrupt raiseInterrupt := by
  refine .bind (setDevice_plain _) fun _ => .get_bind fun s => ?_
  dsimp only [World.plain]
  cases s.distributor.triggerInterrupt s.cpu virtioBlkIntId none with
  | error p => exact .stop _
  | ok next => exact .modify fun _ => rfl

theorem fetch_plain (vm : Vm.VM) : MapsTo (World.plain (η := η)) (fetch vm) (fetch vm) := by
  refine .bind getNextAvailId_plain fun next => ?_
  cases next with
  | none => exact .bind raiseInterrupt_plain fun _ => .pure _
  | some id =>
    refine .bind (getDescriptorId_plain id) fun head => .bind (.modify fun _ => rfl) fun _ => ?_
    cases head with
    | none => exact .pure _
    | some descriptorId =>
      refine .bind (getDescriptor_plain descriptorId) fun request => ?_
      cases request with
      | none => exact .pure _
      | some request =>
        refine .ite (.pure _) ?_
        cases vm.getPhysicalAddress request.address with
        | none => exact .pure _
        | some blkReq =>
          exact .bind (touch_plain _ _) fun _ => .bind mem_plain fun _ => .bind mem_plain fun _ =>
            .ite (.pure _) (.pure _)

theorem walk_plain (vm : Vm.VM) (body : FileBody η) (r : Request) :
    MapsTo World.plain (walk vm body.recorded r) (walk vm body r) := by
  refine .bind (getDescriptor_plain _) fun next => ?_
  cases next with
  | none => exact .pure _
  | some d =>
    refine .ite ?_ (.bind (arithmetic_plain _) fun totalSize => ?_)
    · unfold complete
      cases vm.getPhysicalAddress d.address with
      | none => exact .bind (writeUsed_plain _ _) fun _ => .pure _
      | some a =>
        exact .bind (storeBytes_plain _ _ _) fun _ => .bind (arithmetic_plain _) fun _ =>
          .bind (writeUsed_plain _ _) fun _ => .pure _
    · cases vm.getPhysicalAddress d.address with
      | none => exact .pure _
      | some a =>
        exact .bind (touch_plain _ _) fun _ => .bind (accessFile_plain _ _ _ _ _) fun _ =>
          .bind (arithmetic_plain _) fun _ => .pure _

end Plain

/-- A handler without the record. -/
def Handler.plain (h : Handler (η × List FileCall)) : Handler η := ⟨h.world.plain, h.pc⟩

theorem Handler.step_plain (vm : Vm.VM) (body : FileBody η) (h : Handler (η × List FileCall)) :
    (h.step vm body.recorded).plain = h.plain.step vm body := by
  obtain ⟨w, pc⟩ := h
  cases pc with
  | error f => rfl
  | ok pc =>
    cases pc with
    | fetch =>
      change Handler.plain (finish (fetch vm) w) = finish (fetch vm) w.plain
      rw [finish, finish, fetch_plain vm w]
      rfl
    | walk r =>
      change Handler.plain (finish (walk vm body.recorded r) w) = finish (walk vm body r) w.plain
      rw [finish, finish, walk_plain vm body r w]
      rfl
    | returned => rfl

/-- With the record, the handler goes through the states that it goes through without. -/
theorem Handler.operation_plain (vm : Vm.VM) (body : FileBody η) (turns : ℕ)
    (w : World (η × List FileCall)) :
    (operation vm body.recorded turns w).plain = operation vm body turns w.plain := by
  induction turns with
  | zero => rfl
  | succ turns ih => rw [operation_succ, operation_succ, step_plain, ih]

/-! ## A turn on record -/

/-- The status after a call of the file system. -/
def FileCall.status (c : FileCall) (status : UInt8) : UInt8 :=
  if c.result.isOk then status else virtioBlkSIoerr

/-- The request behind a data descriptor. -/
def Request.behindData (r : Request) (d : VirtQueueDesc) (offset : ℕ) (status : UInt8) : Request :=
  { r with
    descriptor := d
    totalSize := r.totalSize + d.length
    offset := offset
    status := status }

section BehindData
variable (r : Request) (d : VirtQueueDesc) (offset : ℕ) (status : UInt8)

@[simp] theorem Request.behindData_descriptor :
    (r.behindData d offset status).descriptor = d := rfl

@[simp] theorem Request.behindData_isWrite :
    (r.behindData d offset status).isWrite = r.isWrite := rfl

@[simp] theorem Request.behindData_offset :
    (r.behindData d offset status).offset = offset := rfl

@[simp] theorem Request.behindData_status :
    (r.behindData d offset status).status = status := rfl

end BehindData

/-- What a turn of the inner loop does with its descriptor, by the record. -/
inductive TurnRecord (vm : Vm.VM) (body : FileBody η) (w : World (η × List FileCall)) (r : Request) :
    Except Fault Pc → World (η × List FileCall) → Prop
  | ends {pc w'} (calls : w'.calls = w.calls) (stops : ∀ r', pc ≠ .ok (.walk r')) :
      TurnRecord vm body w r pc w'
  | unmapped {w'} (address : vm.getPhysicalAddress (w.nextDesc r).address = none)
      (calls : w'.calls = w.calls) :
      TurnRecord vm body w r
        (.ok (.walk (r.behindData (w.nextDesc r) r.offset virtioBlkSIoerr))) w'
  | pastEnd {a w'} (address : vm.getPhysicalAddress (w.nextDesc r).address = some a)
      (clamped : clamp w.device.file r.offset (w.nextDesc r).length = .ok none)
      (calls : w'.calls = w.calls) :
      TurnRecord vm body w r
        (.ok (.walk (r.behindData (w.nextDesc r) (r.offset + (w.nextDesc r).length) r.status))) w'
  | called {a n c pc w'} (address : vm.getPhysicalAddress (w.nextDesc r).address = some a)
      (clamped : clamp w.device.file r.offset (w.nextDesc r).length = .ok (some n))
      (call : c = ⟨r.isWrite, w.device.file, a, r.offset, n,
        (body.call r.isWrite w.device.file a r.offset n (plainMachine w.machine)).1⟩)
      (calls : w'.calls = w.calls ++ [c])
      (goesOn : ∀ r', pc = .ok (.walk r') → r' =
        r.behindData (w.nextDesc r) (r.offset + (w.nextDesc r).length) (c.status r.status)) :
      TurnRecord vm body w r pc w'

theorem PublishRule.calls {w w' : World (η × List FileCall)} {id length : ℕ}
    {result : Except Fault Unit} (h : PublishRule w id length result w') : w'.calls = w.calls := by
  cases h <;> rfl

/-- A file access on record, if its end does not overflow. -/
theorem accessFile_record {R : Except Fault Bool → World (η × List FileCall) → Prop}
    {isWrite : Bool} {address offset length : ℕ} {w : World (η × List FileCall)}
    (h : offset + length < 2 ^ 64)
    (hpast : clamp w.device.file offset length = .ok none → R (.ok true) w)
    (hcalled : ∀ n, clamp w.device.file offset length = .ok (some n) →
      R (report offset length
          (body.call isWrite w.device.file address offset n (plainMachine w.machine)).1)
        { w with machine := (body.record isWrite w.device.file address offset n w.machine).2 }) :
    Prog.Yields R (accessFile body.recorded isWrite address offset length) w := by
  refine accessFile_yields h hpast fun n hclamp => ?_
  rw [FileBody.recorded_call]
  exact hcalled n hclamp

/-- The access of the turn, and the end of the turn behind it. -/
theorem access_turn {w u : World (η × List FileCall)} {r : Request} {a : ℕ}
    (hdevice : u.device = w.device) (hmachine : u.machine = w.machine)
    (haddress : vm.getPhysicalAddress (w.nextDesc r).address = some a)
    (hoffset : r.offset + (w.nextDesc r).length < 2 ^ 64) :
    Prog.Yields (TurnRecord vm body w r)
      (do
        let success ← accessFile body.recorded r.isWrite a r.offset (w.nextDesc r).length
        let offset ← arithmetic (Checked.add 64 r.offset (w.nextDesc r).length)
        return (.walk (r.behindData (w.nextDesc r) offset
          (if success then r.status else virtioBlkSIoerr)))) u := by
  have hadd (v : World (η × List FileCall)) :
      (arithmetic (Checked.add 64 r.offset (w.nextDesc r).length) : Device _ ℕ) v =
        (.ok (r.offset + (w.nextDesc r).length), v) := by
    rw [Checked.add_ok hoffset, arithmetic_ok]
  have hcalls : u.calls = w.calls := by rw [World.calls, World.calls, hmachine]
  refine .bind (accessFile_record hoffset
    (R := fun result u' => match result with
      | .ok success => TurnRecord vm body w r (.ok (.walk (r.behindData (w.nextDesc r)
          (r.offset + (w.nextDesc r).length) (if success then r.status else virtioBlkSIoerr)))) u'
      | .error f => TurnRecord vm body w r (.error f) u') ?_ ?_) ?_ fun _ _ h => h
  · intro hpast
    rw [hdevice] at hpast
    exact .pastEnd haddress hpast hcalls
  · intro n hclamp
    rw [hdevice] at hclamp
    rw [hdevice, hmachine]
    cases hresult : (body.call r.isWrite w.device.file a r.offset n (plainMachine w.machine)).1 with
    | ok m =>
      refine .called haddress hclamp rfl rfl fun r' hr => ?_
      cases hr
      rw [FileCall.status, hresult]
      rfl
    | error stop =>
      cases stop with
      | err =>
        refine .called haddress hclamp rfl rfl fun r' hr => ?_
        cases hr
        rw [FileCall.status, hresult]
        rfl
      | panic p => exact .called haddress hclamp rfl rfl fun r' hr => by cases hr
      | running => exact .called haddress hclamp rfl rfl fun r' hr => by cases hr
  · intro success u' h
    exact .bind_ok (hadd u') (.pure h)

/-- A turn of the inner loop, by the record. -/
theorem walk_turn (vm : Vm.VM) (body : FileBody η) (w : World (η × List FileCall)) (r : Request) :
    Prog.Yields (TurnRecord vm body w r) (walk vm body.recorded r) w := by
  have hfault {f : Fault} {u : World (η × List FileCall)} (hcalls : u.calls = w.calls) :
      TurnRecord vm body w r (.error f) u := .ends hcalls (by simp)
  refine .bind (getDescriptor_yields w r.descriptor.next
    (R := fun result w' => match result with
      | .ok none => TurnRecord vm body w r (.ok .returned) w'
      | .ok (some d) => d = w.nextDesc r ∧ w' = w.visited r.descriptor.next
      | .error f => TurnRecord vm body w r (.error f) w')
    (fun _ => .ends rfl (by simp)) (fun _ _ => hfault rfl) fun _ => ⟨rfl, rfl⟩) ?_ fun _ _ h => h
  intro d w' hread
  cases d with
  | none => exact .pure hread
  | some d =>
    obtain ⟨rfl, rfl⟩ := hread
    by_cases hnext : (w.nextDesc r).flags &&& virtQueueDescFlagsNext = 0
    · refine .ite_pos hnext ?_
      unfold complete
      cases vm.getPhysicalAddress (w.nextDesc r).address with
      | none =>
        refine .bind (writeUsed_rule _ _ _) (fun _ _ h => .pure ?_) fun _ _ h => hfault h.calls
        exact .ends h.calls (by simp)
      | some a =>
        refine .bind_ok (storeBytes_apply _ _ _ _) (arithmetic_add (fun _ => hfault rfl) fun _ => ?_)
        refine .bind (writeUsed_rule _ _ _) (fun _ _ h => .pure ?_) fun _ _ h => hfault h.calls
        exact .ends h.calls (by simp)
    · refine .ite_neg hnext (arithmetic_add (fun _ => hfault rfl) fun _ => ?_)
      cases haddress : vm.getPhysicalAddress (w.nextDesc r).address with
      | none => exact .unmapped haddress rfl
      | some a =>
        refine .bind_ok (touch_apply _ _ _) ?_
        by_cases hoffset : r.offset + (w.nextDesc r).length < 2 ^ 64
        · exact access_turn rfl rfl haddress hoffset
        · exact .bind_error (accessFile_overflow _ _ _ _ hoffset) (hfault rfl)

theorem Handler.step_record (vm : Vm.VM) (body : FileBody η) {h : Handler (η × List FileCall)}
    {r : Request} (hpc : h.pc = .ok (.walk r)) :
    TurnRecord vm body h.world r (h.step vm body.recorded).pc (h.step vm body.recorded).world := by
  rw [step, hpc]
  exact walk_turn vm body h.world r

/-! ## The chain of a request -/

namespace World

/-- The sector in the header of the next request. -/
def sector (vm : Vm.VM) (w : World η) : ℕ :=
  match vm.getPhysicalAddress (w.desc w.head).address with
  | some blkReq => Bytes.load w.machine.mem (blkReq + 8) 8
  | none => 0

/-- The next request is a write. -/
def asksWrite (vm : Vm.VM) (w : World η) : Bool :=
  match vm.getPhysicalAddress (w.desc w.head).address with
  | some blkReq => Bytes.load w.machine.mem blkReq 4 = virtioBlkTypeOut
  | none => false

end World

section Chain
variable (vm : Vm.VM) (run : ℕ → World η) (start : ℕ)

/-- The number of a descriptor behind the header of the request that turn `start` starts,
by the memory before the turns that visit the descriptors. -/
def chainId : ℕ → ℕ
  | 0 => ((run start).desc (run start).head).next
  | j + 1 => ((run (start + 1 + j)).desc (chainId j)).next

def chainDesc (j : ℕ) : VirtQueueDesc := (run (start + 1 + j)).desc (chainId run start j)

/-- The bytes of the descriptors before number `j`. -/
def chainBytes (j : ℕ) : ℕ := ∑ i ∈ Finset.range j, (chainDesc run start i).length

/-- The bytes of those of them whose addresses translate. -/
def mappedBytes (j : ℕ) : ℕ :=
  ∑ i ∈ Finset.range j, if vm.getPhysicalAddress (chainDesc run start i).address = none then 0
    else (chainDesc run start i).length

end Chain

/-- Turn `start` starts a request, and the turns behind it up to descriptor `j` visit its
descriptors. -/
structure Serves (vm : Vm.VM) (body : FileBody η) (w : World η) (start j : ℕ) : Prop where
  fetch : (Handler.operation vm body start w).pc = .ok .fetch
  walk : ∀ i ≤ j, ∃ r, (Handler.operation vm body (start + 1 + i) w).pc = .ok (.walk r)

/-- The variables of a request that has come to descriptor `j`. -/
structure Request.At (r : Request) (vm : Vm.VM) (run : ℕ → World η) (start j : ℕ) : Prop where
  next : r.descriptor.next = chainId run start j
  isWrite : r.isWrite = (run start).asksWrite vm
  offset : r.offset = (run start).sector vm * 512 % 2 ^ 64 + mappedBytes vm run start j

section Requests
variable {w : World (η × List FileCall)} {start j : ℕ} {r : Request}

theorem Request.At.nextDesc {run : ℕ → World η} (h : r.At vm run start j) :
    (run (start + 1 + j)).nextDesc r = chainDesc run start j := by
  rw [World.nextDesc, h.next, chainDesc]

theorem Serves.mono {w : World η} {i : ℕ} (h : Serves vm body w start j) (hi : i ≤ j) :
    Serves vm body w start i := ⟨h.fetch, fun k hk => h.walk k (hk.trans hi)⟩

/-- The turn that starts the request. -/
theorem FetchRule.request_at {run : ℕ → World η} {w' : World η}
    (h : FetchRule vm (run start) (.ok (.walk r)) w') : r.At vm run start 0 := by
  cases h with
  | started takes readable length address next =>
    constructor
    · rfl
    · simp [World.request, World.asksWrite, address]
    · simp [World.request, World.sector, address, mappedBytes]

/-- The turn of a data descriptor moves the offset on, if its address translates. -/
theorem Request.At.behind {run : ℕ → World η} {status : UInt8} (h : r.At vm run start j) {offset : ℕ}
    (hoffset : offset = if vm.getPhysicalAddress (chainDesc run start j).address = none then r.offset
      else r.offset + (chainDesc run start j).length) :
    (r.behindData (chainDesc run start j) offset status).At vm run start (j + 1) := by
  constructor
  · rw [Request.behindData_descriptor]
    rfl
  · rw [Request.behindData_isWrite, h.isWrite]
  · rw [Request.behindData_offset, hoffset, mappedBytes, Finset.sum_range_succ, h.offset,
      mappedBytes]
    split_ifs
    · rw [Nat.add_zero]
    · rw [Nat.add_assoc]

/-- A turn of the inner loop of a call, by the record. -/
theorem Handler.operation_record {turn : ℕ}
    (hr : (Handler.operation vm body.recorded turn w).pc = .ok (.walk r)) :
    TurnRecord vm body (Handler.before vm body.recorded w turn) r
      (Handler.operation vm body.recorded (turn + 1) w).pc
      (Handler.before vm body.recorded w (turn + 1)) := by
  rw [Handler.before, Handler.before, Handler.operation_succ]
  exact Handler.step_record vm body hr

/-- The variables of the request in work, by the memory alone. -/
theorem Serves.request_at (h : Serves vm body.recorded w start j) (hr :
      (Handler.operation vm body.recorded (start + 1 + j) w).pc = .ok (.walk r)) :
    r.At vm (Handler.before vm body.recorded w) start j := by
  induction j generalizing r with
  | zero =>
    have hrule := Handler.step_fetch vm body.recorded h.fetch
    rw [← Handler.operation_succ] at hrule
    rw [show (Handler.operation vm body.recorded (start + 1) w).pc = .ok (.walk r) from hr] at hrule
    exact @FetchRule.request_at _ vm _ _ (Handler.before vm body.recorded w) _ hrule
  | succ j ih =>
    obtain ⟨r₀, hr₀⟩ := h.walk j j.le_succ
    have hat := ih (h.mono j.le_succ) hr₀
    have hrecord := Handler.operation_record hr₀
    generalize hresult : (Handler.operation vm body.recorded (start + 1 + j + 1) w).pc = pc
      at hrecord
    rw [show (Handler.operation vm body.recorded (start + 1 + j + 1) w).pc = .ok (.walk r) from hr]
      at hresult
    subst hresult
    generalize hafter : Handler.before vm body.recorded w (start + 1 + j + 1) = w' at hrecord
    generalize hpc : (Except.ok (Pc.walk r) : Except Fault Pc) = pc at hrecord
    cases hrecord with
    | ends _ stops => exact absurd hpc.symm (stops r)
    | unmapped address =>
      cases hpc
      rw [hat.nextDesc] at address ⊢
      exact hat.behind (by rw [if_pos address])
    | pastEnd address =>
      cases hpc
      rw [hat.nextDesc] at address ⊢
      exact hat.behind (by rw [if_neg (by simp [address])])
    | called address _ _ _ goesOn =>
      rw [goesOn r hpc.symm]
      rw [hat.nextDesc] at address ⊢
      exact hat.behind (by rw [if_neg (by simp [address])])

end Requests

end Min1visor.Virtio
