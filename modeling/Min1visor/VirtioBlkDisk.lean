import Min1visor.VirtioBlkCounters
import Min1visor.FatStore

/-!
# The block device as a disk

A guest describes a request by its header, any number of data descriptors and a status
descriptor, and queues any number of requests. If what the handler writes lies apart from
what it reads the queue from, one call of the handler performs all of them in order, as
transfers between the memory and the file, and answers each with a status and a used
element.
-/
namespace Min1visor.Virtio
open Vgicv3 Gicv3Mmio Fat Fat.Fat32 Transfers

/-- A part of a request, in host memory. -/
structure Part where
  address : ℕ
  length : ℕ

/-- A request as its guest means it. -/
structure DiskRequest where
  head : ℕ
  header : ℕ
  isWrite : Bool
  offset : ℕ
  data : List Part
  status : Part

/-- The descriptors from one on describe data and a status behind it. -/
inductive Leads (vm : Vm.VM) (table : ℕ → VirtQueueDesc) (size : ℕ) : ℕ → List Part → Part → Prop
  | status {id p} (inTable : id < size) (last : (table id).flags &&& virtQueueDescFlagsNext = 0)
      (address : vm.getPhysicalAddress (table id).address = some p.address)
      (length : (table id).length = p.length) : Leads vm table size id [] p
  | data {id p rest status} (inTable : id < size)
      (next : (table id).flags &&& virtQueueDescFlagsNext ≠ 0)
      (address : vm.getPhysicalAddress (table id).address = some p.address)
      (length : (table id).length = p.length)
      (tail : Leads vm table size (table id).next rest status) :
      Leads vm table size id (p :: rest) status

theorem Leads.inTable {vm : Vm.VM} {table : ℕ → VirtQueueDesc} {size id : ℕ} {data : List Part}
    {status : Part} (h : Leads vm table size id data status) : id < size := by
  cases h <;> assumption

theorem Leads.congr {vm : Vm.VM} {table table' : ℕ → VirtQueueDesc} {size id : ℕ}
    {data : List Part} {status : Part} (h : Leads vm table size id data status)
    (heq : ∀ id, id < size → table' id = table id) : Leads vm table' size id data status := by
  induction h with
  | status inTable last address length =>
    rw [← heq _ inTable] at last address length
    exact .status inTable last address length
  | data inTable next address length tail ih =>
    rw [← heq _ inTable] at next address length ih
    exact .data inTable next address length ih

namespace DiskRequest

variable {ι η : Type}

/-- Ranges of the file one behind the other. -/
def ranges (f : ι) (isWrite : Bool) : ℕ → List Part → List (Transfers.Transfer ι)
  | _, [] => []
  | offset, p :: rest =>
    ⟨f, isWrite, p.address, offset, p.length⟩ :: ranges f isWrite (offset + p.length) rest

def transfers (f : ι) (r : DiskRequest) : List (Transfers.Transfer ι) :=
  ranges f r.isWrite r.offset r.data

/-- The length of the used element. -/
def total (r : DiskRequest) : ℕ := (r.data.map Part.length).sum + r.status.length

/-- The request lies in the memory of a device. -/
structure Laid (r : DiskRequest) (vm : Vm.VM) (w : World η) : Prop where
  head : r.head < w.device.queueSize
  length : (w.desc r.head).length = sizeOfReq
  header : vm.getPhysicalAddress (w.desc r.head).address = some r.header
  next : (w.desc r.head).flags &&& virtQueueDescFlagsNext ≠ 0
  type : r.isWrite = decide (Bytes.load w.machine.mem r.header 4 = virtioBlkTypeOut)
  offset : r.offset = Bytes.load w.machine.mem (r.header + 8) 8 * 512 % 2 ^ 64
  data : Leads vm w.desc w.device.queueSize (w.desc r.head).next r.data r.status

/-- The memory behind a status and a used element. -/
def reply (v : VirtioBlkMmio) (mem : Bytes) (address value head length : ℕ) : Bytes :=
  Bytes.store (Bytes.store (Bytes.store mem address 1 value)
    (v.usedRing + 4 + 8 * (v.usedId % v.queueSize)) sizeOfUsedElement (head + 2 ^ 32 * length))
    (v.usedRing + 2) 2 (v.usedId + 1)

/-- What the request does to the memory and the files: its transfers, then its answer. -/
def perform [DecidableEq ι] (f : ι) (r : DiskRequest) (v : VirtioBlkMmio) (s : Arrays ι) :
    Arrays ι :=
  let s := (r.transfers f).foldl Arrays.transfer s
  { s with mem := reply v s.mem r.status.address virtioBlkSOk.toNat r.head r.total }

/-- Requests one after another. -/
def performAll [DecidableEq ι] (f : ι) : List DiskRequest → VirtioBlkMmio → Arrays ι → Arrays ι
  | [], _, s => s
  | r :: rest, v, s => performAll f rest
      { v with lastAvailId := v.lastAvailId + 1, usedId := v.usedId + 1 } (r.perform f v s)

/-- The turns of the handler for a request. -/
def turns (r : DiskRequest) : ℕ := r.data.length + 2

end DiskRequest

open DiskRequest VirtioBlkMmio Device

/-! ## What the handler keeps -/

/-- A queue whose rings do not wrap around the end of the memory. -/
structure QueueFits (v : VirtioBlkMmio) : Prop where
  slots : 0 < v.queueSize ∧ v.queueSize < 2 ^ 16
  table : v.descriptor ≠ 0 ∧ v.descriptor + 16 * v.queueSize ≤ 2 ^ 64
  avail : v.availRing ≠ 0 ∧ v.availRing + 4 + 2 * v.queueSize ≤ 2 ^ 64
  used : v.usedRing + 4 + 8 * v.queueSize ≤ 2 ^ 64

/-- Addresses with all that the handler reads requests from, and none of the used ring. -/
structure Guards (keep : ℕ → Prop) (v : VirtioBlkMmio) : Prop where
  table : ∀ x, v.descriptor ≤ x → x < v.descriptor + 16 * v.queueSize → keep x
  avail : ∀ x, v.availRing + 2 ≤ x → x < v.availRing + 4 + 2 * v.queueSize → keep x
  used : ∀ x, v.usedRing + 2 ≤ x → x < v.usedRing + 4 + 8 * v.queueSize → ¬ keep x

/-- Nothing but data moved, and not at the addresses. -/
structure DataOnly {η : Type} (keep : ℕ → Prop) (w w' : World η) : Prop where
  mem : ∀ x, keep x → w'.machine.mem x = w.machine.mem x
  device : w'.device = w.device
  distributor : w'.distributor = w.distributor
  cpu : w'.cpu = w.cpu
  consumed : w'.history.consumed = w.history.consumed
  published : w'.history.published = w.history.published
  triggers : w'.history.triggers = w.history.triggers

theorem DataOnly.refl {η : Type} (keep : ℕ → Prop) (w : World η) : DataOnly keep w w :=
  ⟨fun _ _ => rfl, rfl, rfl, rfl, rfl, rfl, rfl⟩

theorem DataOnly.trans {η : Type} {keep : ℕ → Prop} {w w' w'' : World η} (h : DataOnly keep w w')
    (h' : DataOnly keep w' w'') : DataOnly keep w w'' :=
  ⟨fun x hx => (h'.mem x hx).trans (h.mem x hx), h'.device.trans h.device,
    h'.distributor.trans h.distributor, h'.cpu.trans h.cpu, h'.consumed.trans h.consumed,
    h'.published.trans h.published, h'.triggers.trans h.triggers⟩

theorem QueueFits.readable {η : Type} {w : World η} (h : QueueFits w.device) {id : ℕ}
    (hid : id < w.device.queueSize) : w.Readable id := by
  have htable := h.table
  refine ⟨htable.1, ?_⟩
  rw [World.entry]
  omega

theorem QueueFits.slots_eq {η : Type} {w : World η} (h : QueueFits w.device) :
    w.slots = w.device.queueSize := Nat.mod_eq_of_lt h.slots.2

/-- A descriptor lies in the table. -/
theorem Guards.desc {η : Type} {keep : ℕ → Prop} {w w' : World η} (hguards : Guards keep w.device)
    (hdevice : w'.device.descriptor = w.device.descriptor)
    (hmem : ∀ x, keep x → w'.machine.mem x = w.machine.mem x) {id : ℕ}
    (hid : id < w.device.queueSize) : w'.desc id = w.desc id := by
  have hload : ∀ i n, i + n ≤ 16 → Bytes.load w'.machine.mem (w.entry id + i) n =
      Bytes.load w.machine.mem (w.entry id + i) n := by
    intro i n hi
    refine Bytes.load_congr fun x hlow hhigh => hmem x (hguards.table x ?_ ?_) <;>
      rw [World.entry] at hlow hhigh <;> omega
  have hentry : w'.entry id = w.entry id := by rw [World.entry, hdevice, World.entry]
  have haddress := hload 0 8 (by omega)
  rw [Nat.add_zero] at haddress
  rw [World.desc, World.desc, hentry, loadDesc, loadDesc, haddress, hload 8 4 (by omega),
    hload 12 2 (by omega), hload 14 2 (by omega)]

/-! ## The turns of a request -/

section Turns
variable {ι η : Type} {v : Store ι} {f : ι} {vm : Vm.VM} {fuel : ℕ} {w : World η}

/-- An access of whole sectors is a transfer. -/
theorem accessFile_whole (pages : Pages η) (hfuel : 0 < fuel) {isWrite : Bool}
    {address offset length : ℕ} (hwhole : v.Whole ⟨f, isWrite, address, offset, length⟩)
    (hfile : w.device.file = v.file f) (hblk : w.machine.blk.Completes) :
    accessFile (.fat32 v.fs pages fuel) isWrite address offset length w =
      (.ok true, { w with machine := v.moved w.machine ⟨f, isWrite, address, offset, length⟩ }) := by
  have hcall := hwhole.call_eq pages hfuel hblk
  cases isWrite with
  | true =>
    rw [accessFile_write, hfile]
    obtain ⟨hresult, hmachine⟩ := Prod.mk.inj hcall
    rw [← hmachine]
    exact congrArg (fun x => (report offset length x, _)) hresult
  | false =>
    have hread : v.fs.read pages fuel (v.file f) address offset length w.machine =
        (.ok length, v.moved w.machine ⟨f, false, address, offset, length⟩) := hcall
    rw [accessFile_read, hfile, hread, report]

/-- After a data descriptor was read and its transfer done. -/
def World.transferred (w : World η) (v : Store ι) (id : ℕ) (t : Transfers.Transfer ι) : World η :=
  { (w.visited id).touch ⟨t.buffer, t.length⟩ with machine := v.moved w.machine t }

/-- A request behind its next data descriptor. -/
def Request.behind (r : Request) (d : VirtQueueDesc) (p : Part) : Request :=
  { r with
    descriptor := d
    totalSize := r.totalSize + p.length
    offset := r.offset + p.length }

theorem Request.behind_fields (r : Request) (d : VirtQueueDesc) (p : Part) :
    (r.behind d p).descriptorId = r.descriptorId ∧ (r.behind d p).status = r.status ∧
      (r.behind d p).totalSize = r.totalSize + p.length ∧ (r.behind d p).isWrite = r.isWrite ∧
      (r.behind d p).offset = r.offset + p.length ∧ (r.behind d p).descriptor = d :=
  ⟨rfl, rfl, rfl, rfl, rfl, rfl⟩

/-- The turn of a data descriptor for whole sectors. -/
theorem walk_data (pages : Pages η) (hfuel : 0 < fuel) {r : Request} {p : Part}
    (hfile : w.device.file = v.file f) (hblk : w.machine.blk.Completes)
    (hreadable : w.Readable r.descriptor.next)
    (hnext : (w.desc r.descriptor.next).flags &&& virtQueueDescFlagsNext ≠ 0)
    (haddress : vm.getPhysicalAddress (w.desc r.descriptor.next).address = some p.address)
    (hlength : (w.desc r.descriptor.next).length = p.length)
    (htotal : r.totalSize + p.length < 2 ^ 32)
    (hwhole : v.Whole ⟨f, r.isWrite, p.address, r.offset, p.length⟩) :
    walk vm (.fat32 v.fs pages fuel) r w =
      (.ok (.walk (r.behind (w.desc r.descriptor.next) p)),
        w.transferred v r.descriptor.next ⟨f, r.isWrite, p.address, r.offset, p.length⟩) := by
  have hinside : r.offset + p.length ≤ (v.file f).fileSize := hwhole.aligned.inside
  have hsize := (v.holds f).size
  have hoffset : r.offset + p.length < 2 ^ 64 := by omega
  have haccess := accessFile_whole pages hfuel hwhole
    (w := (w.visited r.descriptor.next).touch ⟨p.address, p.length⟩) hfile hblk
  simp only [walk, Prog.bind_apply, getDescriptor_readable hreadable, if_neg hnext, hlength,
    Checked.add_ok htotal, Checked.add_ok hoffset, arithmetic_ok, haddress, touch_apply, haccess]
  rfl

/-- A transfer changes the memory only where it reads to. -/
theorem dataOnly_transferred {keep : ℕ → Prop} (w : World η) (id : ℕ) {t : Transfers.Transfer ι}
    (hkeep : t.isWrite = false → ∀ x, keep x → ¬ (t.buffer ≤ x ∧ x < t.buffer + t.length)) :
    DataOnly keep w (w.transferred v id t) := by
  refine ⟨fun x hx => ?_, rfl, rfl, rfl, rfl, rfl, rfl⟩
  change (v.moved w.machine t).mem x = w.machine.mem x
  rw [Store.moved]
  by_cases hwrite : t.isWrite = true
  · rw [if_pos hwrite]
  · rw [if_neg hwrite]
    exact Bytes.copy_outside _ _ _ (hkeep (by simpa using hwrite) x hx)

/-- A turn of the inner loop, as one of the handler. -/
theorem step_walk_eq {body : FileBody η} {w' : World η} {r : Request} {pc : Except Fault Pc}
    (h : walk vm body r w = (pc, w')) : Handler.step vm body ⟨w, .ok (.walk r)⟩ = ⟨w', pc⟩ := by
  rw [Handler.step]
  dsimp only
  rw [Handler.finish, h]

/-- The turns of the data of a request. -/
theorem data_turns [DecidableEq ι] (pages : Pages η) (hfuel : 0 < fuel) {keep : ℕ → Prop}
    {table : ℕ → VirtQueueDesc} {size id : ℕ} {data : List Part} {status : Part}
    (hleads : Leads vm table size id data status) {m : Machine η} {s : Arrays ι} {r : Request}
    (hid : r.descriptor.next = id) (hsize : w.device.queueSize = size)
    (htable : ∀ i, i < size → w.desc i = table i) (hplaced : QueueFits w.device)
    (hguards : Guards keep w.device) (hfile : w.device.file = v.file f)
    (hfollows : v.Follows m w.machine s)
    (htotal : r.totalSize + (data.map Part.length).sum < 2 ^ 32)
    (hwhole : ∀ t ∈ ranges f r.isWrite r.offset data, v.Whole t)
    (hkeep : r.isWrite = false → ∀ p ∈ data, ∀ x, keep x →
      ¬ (p.address ≤ x ∧ x < p.address + p.length)) :
    ∃ w' r', (Handler.step vm (.fat32 v.fs pages fuel))^[data.length] ⟨w, .ok (.walk r)⟩ =
        ⟨w', .ok (.walk r')⟩ ∧
      DataOnly keep w w' ∧ r'.descriptorId = r.descriptorId ∧ r'.status = r.status ∧
      r'.totalSize = r.totalSize + (data.map Part.length).sum ∧
      Leads vm w'.desc size r'.descriptor.next [] status ∧
      v.Follows m w'.machine ((ranges f r.isWrite r.offset data).foldl Arrays.transfer s) := by
  induction hleads generalizing w r s with
  | status inTable last address length =>
    subst hid
    refine ⟨w, r, rfl, .refl keep w, rfl, rfl, rfl, ?_, hfollows⟩
    exact (Leads.status inTable last address length).congr htable
  | @data id p rest status inTable next address length tail ih =>
    subst hid
    have hdesc := htable _ inTable
    rw [← hdesc] at next address length
    rw [ranges, List.forall_mem_cons] at hwhole
    rw [List.map_cons, List.sum_cons] at htotal
    have hwalk := walk_data pages hfuel hfile hfollows.completes
      (hplaced.readable (hsize.symm ▸ inTable)) next address length (by omega) hwhole.1
    have hstep := step_walk_eq hwalk
    have hdata := dataOnly_transferred (v := v) w r.descriptor.next
      (t := ⟨f, r.isWrite, p.address, r.offset, p.length⟩) fun hread => hkeep hread p (by simp)
    have hmoved : v.Follows m (w.transferred v r.descriptor.next
      ⟨f, r.isWrite, p.address, r.offset, p.length⟩).machine _ := hfollows.transfer hwhole.1
    generalize w.transferred v r.descriptor.next ⟨f, r.isWrite, p.address, r.offset, p.length⟩ = w₁
      at hstep hdata hmoved
    have hdevice := hdata.device
    have htable₁ : ∀ i, i < size → w₁.desc i = table i := by
      intro i hi
      rw [← htable i hi]
      exact hguards.desc (congrArg VirtioBlkMmio.descriptor hdevice) hdata.mem (hsize.symm ▸ hi)
    obtain ⟨hdescriptor₁, hstatus₁, hsum₁, hwrite₁, hoffset₁, hdesc₁⟩ :=
      r.behind_fields (w.desc r.descriptor.next) p
    obtain ⟨w', r', hrun, hlast, hdescriptor, hstatus, hsum, hleads, hafter⟩ := ih
      (w := w₁) (r := r.behind (w.desc r.descriptor.next) p) (by rw [hdesc₁, hdesc])
      (by rw [hdevice, hsize]) htable₁ (by rwa [hdevice]) (by rwa [hdevice])
      (by rw [hdevice, hfile]) hmoved (by rw [hsum₁]; omega)
      (by rw [hwrite₁, hoffset₁]; exact hwhole.2)
      (fun hread q hq => hkeep (hwrite₁ ▸ hread) q (List.mem_cons_of_mem p hq))
    refine ⟨w', r', ?_, hdata.trans hlast, hdescriptor.trans hdescriptor₁,
      hstatus.trans hstatus₁, ?_, hleads, ?_⟩
    · rw [List.length_cons, Function.iterate_succ_apply, hstep]
      exact hrun
    · rw [hsum, hsum₁, List.map_cons, List.sum_cons, Nat.add_assoc]
    · rw [ranges, List.foldl_cons]
      rwa [hwrite₁, hoffset₁] at hafter

end Turns

/-! ## A request -/

/-- A request that the handler can perform, and that leaves the addresses alone. -/
structure DiskRequest.Ready {ι η : Type} (r : DiskRequest) (v : Store ι) (f : ι) (vm : Vm.VM)
    (keep : ℕ → Prop) (w : World η) : Prop extends r.Laid vm w where
  whole : ∀ t ∈ r.transfers f, v.Whole t
  total : r.total < 2 ^ 32
  keepHeader : ∀ x, r.header ≤ x → x < r.header + sizeOfReq → keep x
  keepData : r.isWrite = false → ∀ p ∈ r.data, ∀ x, keep x →
    ¬ (p.address ≤ x ∧ x < p.address + p.length)
  keepStatus : ¬ keep r.status.address

/-- The entries of the available ring that the device has not seen are the requests. -/
structure Pending {ι η : Type} (v : Store ι) (f : ι) (vm : Vm.VM) (keep : ℕ → Prop) (w : World η)
    (requests : List DiskRequest) : Prop where
  file : w.device.file = v.file f
  placed : QueueFits w.device
  guards : Guards keep w.device
  index : w.availIndex = w.device.lastAvailId + requests.length
  counter : w.device.usedId + requests.length < 2 ^ 16
  heads : ∀ k r, requests[k]? = some r → Bytes.load w.machine.mem
    (w.device.availRing + 4 + 2 * ((w.device.lastAvailId + k) % w.device.queueSize)) 2 = r.head
  ready : ∀ r ∈ requests, r.Ready v f vm keep w

/-- The requests with these heads are done. -/
structure Answered {η : Type} (keep : ℕ → Prop) (w w' : World η) (heads : List ℕ) : Prop where
  mem : ∀ x, keep x → w'.machine.mem x = w.machine.mem x
  device : w'.device = { w.device with
    lastAvailId := w.device.lastAvailId + heads.length
    usedId := w.device.usedId + heads.length }
  distributor : w'.distributor = w.distributor
  cpu : w'.cpu = w.cpu
  consumed : w'.history.consumed = w.history.consumed ++ heads.map some
  published : w'.history.published = w.history.published ++ heads
  triggers : w'.history.triggers = w.history.triggers

/-- The request with this head is in work. -/
structure Started {η : Type} (w w' : World η) (head : ℕ) : Prop where
  machine : w'.machine = w.machine
  device : w'.device = { w.device with lastAvailId := w.device.lastAvailId + 1 }
  distributor : w'.distributor = w.distributor
  cpu : w'.cpu = w.cpu
  consumed : w'.history.consumed = w.history.consumed ++ [some head]
  published : w'.history.published = w.history.published
  triggers : w'.history.triggers = w.history.triggers

section Requests
variable {ι η : Type} {v : Store ι} {f : ι} {vm : Vm.VM} {fuel : ℕ} {w w' : World η}
  {keep : ℕ → Prop} {r : DiskRequest} {rest : List DiskRequest}

theorem Answered.trans {w'' : World η} {heads heads' : List ℕ} (h : Answered keep w w' heads)
    (h' : Answered keep w' w'' heads') : Answered keep w w'' (heads ++ heads') where
  mem x hx := (h'.mem x hx).trans (h.mem x hx)
  device := by
    rw [h'.device, h.device, List.length_append]
    simp only [Nat.add_assoc]
  distributor := h'.distributor.trans h.distributor
  cpu := h'.cpu.trans h.cpu
  consumed := by rw [h'.consumed, h.consumed, List.map_append, List.append_assoc]
  published := by rw [h'.published, h.published, List.append_assoc]
  triggers := h'.triggers.trans h.triggers

/-- A request stays ready while others are performed. -/
theorem DiskRequest.Ready.congr (h : r.Ready v f vm keep w) (hguards : Guards keep w.device)
    (hdescriptor : w'.device.descriptor = w.device.descriptor)
    (hsize : w'.device.queueSize = w.device.queueSize)
    (hmem : ∀ x, keep x → w'.machine.mem x = w.machine.mem x) : r.Ready v f vm keep w' := by
  have hdesc : ∀ id, id < w.device.queueSize → w'.desc id = w.desc id := fun id hid =>
    hguards.desc hdescriptor hmem hid
  have hload : ∀ i n, i + n ≤ sizeOfReq → Bytes.load w'.machine.mem (r.header + i) n =
      Bytes.load w.machine.mem (r.header + i) n := fun i n hi =>
    Bytes.load_congr fun x hlow hhigh => hmem x (h.keepHeader x (by omega) (by omega))
  have htype := hload 0 4 (by decide)
  rw [Nat.add_zero] at htype
  exact { h with
    head := by rw [hsize]; exact h.head
    length := by rw [hdesc _ h.head]; exact h.length
    header := by rw [hdesc _ h.head]; exact h.header
    next := by rw [hdesc _ h.head]; exact h.next
    type := by rw [htype]; exact h.type
    offset := by rw [hload 8 8 (by decide)]; exact h.offset
    data := by rw [hdesc _ h.head, hsize]; exact h.data.congr hdesc }

/-- Behind the first request of a queue the others are pending. -/
theorem Pending.next (h : Pending v f vm keep w (r :: rest)) (ha : Answered keep w w' [r.head]) :
    Pending v f vm keep w' rest := by
  have hlast : w'.device.lastAvailId = w.device.lastAvailId + 1 := by rw [ha.device]; rfl
  have hused : w'.device.usedId = w.device.usedId + 1 := by rw [ha.device]; rfl
  have hsize : w'.device.queueSize = w.device.queueSize := by rw [ha.device]
  have hring : w'.device.availRing = w.device.availRing := by rw [ha.device]
  have hslots := h.placed.slots
  have hindex := h.index
  have hcounter := h.counter
  rw [List.length_cons] at hindex hcounter
  have hload : ∀ i n, 2 ≤ i → i + n ≤ 4 + 2 * w.device.queueSize →
      Bytes.load w'.machine.mem (w.device.availRing + i) n =
        Bytes.load w.machine.mem (w.device.availRing + i) n := fun i n hlow hhigh =>
    Bytes.load_congr fun x hx hx' => ha.mem x (h.guards.avail x (by omega) (by omega))
  refine ⟨?_, ?_, ?_, ?_, by omega, ?_, ?_⟩
  · rw [ha.device]
    exact h.file
  · rw [ha.device]
    exact ⟨h.placed.slots, h.placed.table, h.placed.avail, h.placed.used⟩
  · rw [ha.device]
    exact ⟨h.guards.table, h.guards.avail, h.guards.used⟩
  · rw [World.availIndex, hring, hload 2 2 le_rfl (by omega), hlast]
    rw [World.availIndex] at hindex
    omega
  · intro k r' hr'
    have hmod := Nat.mod_lt (w.device.lastAvailId + (k + 1)) hslots.1
    have hhead := h.heads (k + 1) r' hr'
    have hslot : w.device.lastAvailId + 1 + k = w.device.lastAvailId + (k + 1) := by omega
    rw [Nat.add_assoc] at hhead
    rw [hring, hlast, hsize, hslot, Nat.add_assoc, hload _ 2 (by omega) (by omega), hhead]
  · intro r' hr'
    exact (h.ready r' (List.mem_cons_of_mem r hr')).congr h.guards (by rw [ha.device]) hsize ha.mem

/-- The turn that starts the first request. -/
theorem Pending.fetch (h : Pending v f vm keep w (r :: rest)) (body : FileBody η) :
    ∃ w', Started w w' r.head ∧ Handler.step vm body ⟨w, .ok .fetch⟩ = ⟨w', .ok (.walk
      ⟨r.head, w.desc r.head, r.isWrite, r.offset, 0, virtioBlkSOk⟩)⟩ := by
  have hslots := h.placed.slots
  have hready := h.ready r (by simp)
  have hindex := h.index
  have hlimit : w.availIndex < 2 ^ 16 := Bytes.load_lt _ _ 2
  rw [List.length_cons] at hindex
  have hmod := Nat.mod_lt w.device.lastAvailId hslots.1
  have hslot : w.availSlot =
      w.device.availRing + 4 + 2 * (w.device.lastAvailId % w.device.queueSize) := by
    rw [World.availSlot, h.placed.slots_eq]
  have hhead : w.head = r.head := by
    rw [World.head, hslot]
    exact h.heads 0 r rfl
  have hring := h.placed.avail
  have htakes : w.Takes := by
    refine ⟨⟨by omega, ?_, by omega⟩, hring.1, by omega⟩
    rw [h.placed.slots_eq]
    omega
  have hrule := Handler.step_fetch vm body (h := ⟨w, .ok .fetch⟩) rfl
  obtain ⟨hpc, hworld⟩ := hrule.eq_started htakes
    (by rw [hhead]; exact h.placed.readable hready.head) (by rw [hhead]; exact hready.length) (by rw [hhead]; exact hready.header)
    (by rw [hhead]; exact hready.next)
  have hrequest : w.request r.header =
      ⟨r.head, w.desc r.head, r.isWrite, r.offset, 0, virtioBlkSOk⟩ := by
    rw [World.request, hhead, ← hready.type, ← hready.offset]
  rw [hrequest] at hpc
  refine ⟨(w.taken.visited w.head).touch ⟨r.header, sizeOfReq⟩, ?_, ?_⟩
  · rw [← hhead]
    exact ⟨rfl, rfl, rfl, rfl, rfl, rfl, rfl⟩
  · generalize Handler.step vm body ⟨w, .ok .fetch⟩ = after at hpc hworld
    obtain ⟨world, pc⟩ := after
    rw [show pc = _ from hpc, show world = _ from hworld]

/-- The turn of the status of a request. -/
theorem status_turn (body : FileBody η) {r : Request} {p : Part} (hplaced : QueueFits w.device)
    (hleads : Leads vm w.desc w.device.queueSize r.descriptor.next [] p)
    (htotal : r.totalSize + p.length < 2 ^ 32) (hcounter : w.device.usedId + 1 < 2 ^ 16) :
    Handler.step vm body ⟨w, .ok (.walk r)⟩ =
      ⟨((w.visited r.descriptor.next).stored p.address 1 r.status.toNat).completed r.descriptorId
        (r.totalSize + p.length), .ok .fetch⟩ := by
  cases hleads with
  | status inTable last address length =>
    have hrule := Handler.step_walk vm body (h := ⟨w, .ok (.walk r)⟩) rfl
    obtain ⟨result, hpublish, hpc⟩ := hrule.eq_status (hplaced.readable inTable) last address
      (by rwa [length])
    rw [length] at hpublish
    have hslots : w.slots = w.device.queueSize := hplaced.slots_eq
    have hmod := Nat.mod_lt w.device.usedId hplaced.slots.1
    have hused := hplaced.used
    have hslot : ((w.visited r.descriptor.next).stored p.address 1 r.status.toNat).usedSlot =
        w.device.usedRing + 4 + 8 * (w.device.usedId % w.device.queueSize) := by
      rw [← hslots]
      rfl
    have hpositive : w.slots ≠ 0 := by
      rw [hslots]
      exact hplaced.slots.1.ne'
    rcases hpublish.publishes hpositive with ⟨hover, -⟩ | ⟨-, -, rfl, hworld⟩
    · exact absurd ⟨hcounter, by rw [hslot]; omega⟩ hover
    · generalize Handler.step vm body ⟨w, .ok (.walk r)⟩ = after at hpc hworld
      obtain ⟨world, pc⟩ := after
      rw [show pc = _ from hpc, show world = _ from hworld]
      rfl

/-- A store apart from the addresses. -/
theorem store_keeps {mem : Bytes} {a n value : ℕ} (h : ∀ x, a ≤ x → x < a + n → ¬ keep x) {x : ℕ}
    (hx : keep x) : Bytes.store mem a n value x = mem x := by
  apply Bytes.store_outside
  by_contra hin
  exact h x (by omega) (by omega) hx

/-- An answer keeps what lies apart from the status and the used ring. -/
theorem reply_keeps {u : VirtioBlkMmio} (hguards : Guards keep u) (hslots : 0 < u.queueSize)
    {mem : Bytes} {address value head length : ℕ} (haddress : ¬ keep address) {x : ℕ}
    (hx : keep x) : reply u mem address value head length x = mem x := by
  have hmod := Nat.mod_lt u.usedId hslots
  have helement : sizeOfUsedElement = 8 := rfl
  rw [reply, store_keeps _ hx, store_keeps _ hx, store_keeps _ hx]
  · intro y hlow hhigh
    rwa [show y = address by omega]
  · exact fun y hlow hhigh => hguards.used y (by omega) (by omega)
  · exact fun y hlow hhigh => hguards.used y (by omega) (by omega)

/-- The last turn of a request, after its data moved. -/
theorem answered_completed {w₁ w₂ : World η} {head : ℕ} (hplaced : QueueFits w.device)
    (hguards : Guards keep w.device) (hstarted : Started w w₁ head) (hdata : DataOnly keep w₁ w₂)
    {address : ℕ} (haddress : ¬ keep address) (id value length : ℕ) :
    let last := ((w₂.visited id).stored address 1 value).completed head length
    last.machine = { w₂.machine with
        mem := reply w.device w₂.machine.mem address value head length } ∧
      Answered keep w last [head] := by
  have hdevice : w₂.device = { w.device with lastAvailId := w.device.lastAvailId + 1 } :=
    hdata.device.trans hstarted.device
  have hslots : w₂.slots = w.device.queueSize := by
    rw [World.slots, hdevice]
    exact Nat.mod_eq_of_lt hplaced.slots.2
  have hmachine : (((w₂.visited id).stored address 1 value).completed head length).machine =
      { w₂.machine with mem := reply w.device w₂.machine.mem address value head length } := by
    have hmem : (((w₂.visited id).stored address 1 value).completed head length).machine =
        { w₂.machine with
          mem := Bytes.store (Bytes.store (Bytes.store w₂.machine.mem address 1 value)
            (w₂.device.usedRing + 4 + 8 * (w₂.device.usedId % w₂.slots)) sizeOfUsedElement
            (head + 2 ^ 32 * length)) (w₂.device.usedRing + 2) 2 (w₂.device.usedId + 1) } := rfl
    rw [hmem, hslots, hdevice, reply]
  refine ⟨hmachine, ?_, ?_, ?_, ?_, ?_, ?_, ?_⟩
  · intro x hx
    calc _ = reply w.device w₂.machine.mem address value head length x :=
          congrArg (fun m => m.mem x) hmachine
      _ = w₂.machine.mem x := reply_keeps hguards hplaced.slots.1 haddress hx
      _ = w₁.machine.mem x := hdata.mem x hx
      _ = w.machine.mem x := by rw [hstarted.machine]
  · change { w₂.device with usedId := w₂.device.usedId + 1 } = _
    rw [hdevice]
    rfl
  · exact hdata.distributor.trans hstarted.distributor
  · exact hdata.cpu.trans hstarted.cpu
  · exact hdata.consumed.trans hstarted.consumed
  · change w₂.history.published ++ [head] = _
    rw [hdata.published, hstarted.published]
  · exact hdata.triggers.trans hstarted.triggers

/-- The turns of the first request of a queue perform it. -/
theorem Pending.answer [DecidableEq ι] (h : Pending v f vm keep w (r :: rest)) (pages : Pages η)
    (hfuel : 0 < fuel) {m : Machine η} {s : Arrays ι} (hfollows : v.Follows m w.machine s) :
    ∃ w', (Handler.step vm (.fat32 v.fs pages fuel))^[r.turns] ⟨w, .ok .fetch⟩ =
        ⟨w', .ok .fetch⟩ ∧
      Answered keep w w' [r.head] ∧ v.Follows m w'.machine (r.perform f w.device s) := by
  have hready := h.ready r (by simp)
  have hcounter := h.counter
  have htotal := hready.total
  rw [List.length_cons] at hcounter
  rw [DiskRequest.total] at htotal
  obtain ⟨w₁, hstarted, hfetch⟩ := h.fetch (.fat32 v.fs pages fuel)
  have hdevice := hstarted.device
  have hdesc : ∀ id, w₁.desc id = w.desc id := by
    intro id
    rw [World.desc, World.entry, hstarted.machine, hdevice]
    rfl
  -- The data.
  obtain ⟨w₂, r₂, hrun, hdata, hid, hstatus, hsum, hleads, hafter⟩ := data_turns pages hfuel
    hready.data (w := w₁) (r := ⟨r.head, w.desc r.head, r.isWrite, r.offset, 0, virtioBlkSOk⟩) rfl
    (by rw [hdevice]) (fun id _ => hdesc id)
    (by rw [hdevice]; exact ⟨h.placed.slots, h.placed.table, h.placed.avail, h.placed.used⟩)
    (by rw [hdevice]; exact ⟨h.guards.table, h.guards.avail, h.guards.used⟩)
    (by rw [hdevice]; exact h.file) (by rw [hstarted.machine]; exact hfollows)
    (by dsimp only; omega) hready.whole hready.keepData
  dsimp only at hid hstatus hsum
  rw [Nat.zero_add] at hsum
  have hdevice₂ : w₂.device = { w.device with lastAvailId := w.device.lastAvailId + 1 } :=
    hdata.device.trans hdevice
  have hplaced₂ : QueueFits w₂.device := by
    rw [hdevice₂]
    exact ⟨h.placed.slots, h.placed.table, h.placed.avail, h.placed.used⟩
  -- The status.
  have hsize₂ : w₂.device.queueSize = w.device.queueSize := by rw [hdevice₂]
  have hused₂ : w₂.device.usedId = w.device.usedId := by rw [hdevice₂]
  have hring₂ : w₂.device.usedRing = w.device.usedRing := by rw [hdevice₂]
  have hlast := status_turn (.fat32 v.fs pages fuel) hplaced₂ (by rw [hsize₂]; exact hleads)
    (by omega) (by omega)
  rw [hid, hstatus, hsum] at hlast
  obtain ⟨hmachine, hanswered⟩ := answered_completed h.placed h.guards hstarted hdata
    hready.keepStatus r₂.descriptor.next virtioBlkSOk.toNat
    ((r.data.map Part.length).sum + r.status.length)
  refine ⟨_, ?_, hanswered, ?_⟩
  · rw [DiskRequest.turns, Function.iterate_succ_apply', Function.iterate_succ_apply, hfetch, hrun,
      hlast]
  · rw [hmachine]
    refine ⟨hafter.shows, ?_, hafter.rest, hafter.heap, hafter.completes⟩
    rw [hafter.mem]
    rfl

/-- The turns of the requests of a queue perform them in order. -/
theorem Pending.answer_all [DecidableEq ι] {requests : List DiskRequest}
    (h : Pending v f vm keep w requests) (pages : Pages η) (hfuel : 0 < fuel) {m : Machine η}
    {s : Arrays ι} (hfollows : v.Follows m w.machine s) :
    ∃ w', (Handler.step vm (.fat32 v.fs pages fuel))^[(requests.map turns).sum] ⟨w, .ok .fetch⟩ =
        ⟨w', .ok .fetch⟩ ∧
      Answered keep w w' (requests.map head) ∧ Pending v f vm keep w' [] ∧
      v.Follows m w'.machine (performAll f requests w.device s) := by
  induction requests generalizing w s with
  | nil =>
    refine ⟨w, rfl, ⟨fun _ _ => rfl, rfl, rfl, rfl, ?_, ?_, rfl⟩, h, hfollows⟩ <;> simp
  | cons r rest ih =>
    obtain ⟨w₁, hrun₁, hanswered₁, hfollows₁⟩ := h.answer pages hfuel hfollows
    obtain ⟨w₂, hrun₂, hanswered₂, hpending₂, hfollows₂⟩ := ih (h.next hanswered₁) hfollows₁
    refine ⟨w₂, ?_, hanswered₁.trans hanswered₂, hpending₂, ?_⟩
    · rw [List.map_cons, List.sum_cons, Nat.add_comm, Function.iterate_add_apply, hrun₁, hrun₂]
    · rw [hanswered₁.device] at hfollows₂
      exact hfollows₂

/-- A call of the handler on a queue of requests returns after their turns and one more. The
memory and the files are those of the requests one after another, nothing else changed on
the disk, every request has its used element, and there is one interrupt. -/
theorem operation_disk [DecidableEq ι] (v : Store ι) (f : ι) (vm : Vm.VM) (pages : Pages η)
    (fuel : ℕ) (hfuel : 0 < fuel) (keep : ℕ → Prop) (w : World η) (requests : List DiskRequest)
    (hpending : Pending v f vm keep w requests) (contents : ι → Bytes)
    (hshows : v.Shows w.machine.blk.disk contents) (hblk : w.machine.blk.Completes)
    (d : GicDistributorMmio) (c : CpuInterface)
    (htrigger : w.distributor.triggerInterrupt w.cpu virtioBlkIntId none = .ok (d, c)) :
    let last := Handler.operation vm (.fat32 v.fs pages fuel) ((requests.map turns).sum + 1) w.begin
    let s := performAll f requests w.device ⟨w.machine.mem, contents⟩
    last.pc = .ok .returned ∧
      (last.world.machine.mem = s.mem ∧ v.Shows last.world.machine.blk.disk s.array ∧
        (∀ x, v.placement.Free x → last.world.machine.blk.disk x = w.machine.blk.disk x) ∧
        last.world.machine.heap = w.machine.heap ∧ last.world.machine.blk.Completes) ∧
      last.world.device = { w.device with
        lastAvailId := w.device.lastAvailId + requests.length
        usedId := w.device.usedId + requests.length
        interruptStatus := w.device.interruptStatus ||| 1 } ∧
      (last.world.distributor, last.world.cpu) = (d, c) ∧
      last.world.history.published = requests.map head ∧ last.world.history.triggers = 1 := by
  have hbegin : Pending v f vm keep w.begin requests :=
    ⟨hpending.file, hpending.placed, hpending.guards, hpending.index, hpending.counter,
      hpending.heads, fun r hr =>
        (hpending.ready r hr).congr hpending.guards rfl rfl fun _ _ => rfl⟩
  obtain ⟨w', hrun, hanswered, hempty, hfollows⟩ := hbegin.answer_all pages hfuel
    (m := w.machine) (s := ⟨w.machine.mem, contents⟩) ⟨hshows, rfl, fun _ _ => rfl, rfl, hblk⟩
  have hrule := Handler.step_fetch vm (.fat32 v.fs pages fuel) (h := ⟨w', .ok .fetch⟩) rfl
  have hdistributor : w'.distributor.triggerInterrupt w'.cpu virtioBlkIntId none = .ok (d, c) := by
    rw [hanswered.distributor, hanswered.cpu]
    exact htrigger
  obtain ⟨hpc, hworld⟩ := hrule.eq_drained hempty.index.symm hdistributor
  have hlast : Handler.operation vm (.fat32 v.fs pages fuel) ((requests.map turns).sum + 1) w.begin =
      ⟨w'.polled.triggered d c, .ok .returned⟩ := by
    rw [Handler.operation_succ, Handler.operation, hrun]
    generalize Handler.step vm (.fat32 v.fs pages fuel) ⟨w', .ok .fetch⟩ = after at hpc hworld
    obtain ⟨world, pc⟩ := after
    rw [show pc = _ from hpc, show world = _ from hworld]
  rw [hlast]
  refine ⟨rfl, ⟨hfollows.mem, hfollows.shows, hfollows.rest, hfollows.heap, hfollows.completes⟩, ?_,
    rfl, ?_, ?_⟩
  · change { w'.device with interruptStatus := w'.device.interruptStatus ||| 1 } = _
    rw [hanswered.device, List.length_map]
    rfl
  · exact hanswered.published
  · change w'.history.triggers + 1 = 1
    rw [hanswered.triggers]
    rfl

end Requests

/-! ## A queue of two requests -/

/-- A device for the longer of two files, with a queue of eight descriptors. -/
def diskDevice : VirtioBlkMmio :=
  { sampleDevice with
    file := ⟨5, 4096⟩
    queueSize := 8
    availRing := 0x50000080 }

/-- A write of the second cluster and a read of the whole file to two buffers. -/
def diskMemory : Bytes := guestMemory
  [(0x50000000, 8, 0x40000800), (0x50000008, 4, 16), (0x5000000c, 2, 1), (0x5000000e, 2, 1),
    (0x50000010, 8, 0x40004000), (0x50000018, 4, 2048), (0x5000001c, 2, 1), (0x5000001e, 2, 2),
    (0x50000020, 8, 0x40003000), (0x50000028, 4, 1), (0x5000002c, 2, 2),
    (0x50000030, 8, 0x40000810), (0x50000038, 4, 16), (0x5000003c, 2, 1), (0x5000003e, 2, 4),
    (0x50000040, 8, 0x40005000), (0x50000048, 4, 1024), (0x5000004c, 2, 3), (0x5000004e, 2, 5),
    (0x50000050, 8, 0x40006000), (0x50000058, 4, 3072), (0x5000005c, 2, 3), (0x5000005e, 2, 6),
    (0x50000060, 8, 0x40003001), (0x50000068, 4, 1), (0x5000006c, 2, 2),
    (0x50000082, 2, 2), (0x50000084, 2, 0), (0x50000086, 2, 3),
    (0x50000800, 4, 1), (0x50000808, 8, 4)]

def diskRequests : List DiskRequest :=
  [⟨0, 0x50000800, true, 2048, [⟨0x50004000, 2048⟩], ⟨0x50003000, 1⟩⟩,
    ⟨3, 0x50000810, false, 0, [⟨0x50005000, 1024⟩, ⟨0x50006000, 3072⟩], ⟨0x50003001, 1⟩⟩]

def diskKeep (x : ℕ) : Prop := 0x50000000 ≤ x ∧ x < 0x50001000

theorem diskRequests_pending :
    Pending Store.twoFiles true sampleVm diskKeep (World.start diskDevice diskMemory)
      diskRequests := by
  have hdevice : (World.start diskDevice diskMemory).device = diskDevice := rfl
  refine ⟨rfl, ⟨by decide, by decide, by decide, by decide⟩, ⟨?_, ?_, ?_⟩, by decide, by decide, ?_,
    ?_⟩
  · intro x hlow hhigh
    rw [hdevice] at hlow hhigh
    simp only [diskDevice, sampleDevice] at hlow hhigh
    exact ⟨by omega, by omega⟩
  · intro x hlow hhigh
    rw [hdevice] at hlow hhigh
    simp only [diskDevice] at hlow hhigh
    exact ⟨by omega, by omega⟩
  · intro x hlow hhigh hkeep
    rw [hdevice] at hlow hhigh
    simp only [diskDevice, sampleDevice] at hlow hhigh
    have := hkeep.2
    omega
  · intro k r hr
    cases k with
    | zero =>
      cases hr
      decide
    | succ k =>
      cases k with
      | zero =>
        cases hr
        decide
      | succ k => simp [diskRequests] at hr
  · simp only [diskRequests, List.forall_mem_cons, List.not_mem_nil, false_implies, implies_true,
      and_true]
    refine ⟨⟨⟨by decide, by decide, by decide, by decide, by decide, by decide, ?_⟩, ?_, by decide, ?_,
      (fun h => by cases h), ?_⟩, ⟨by decide, by decide, by decide, by decide, by decide, by decide,
        ?_⟩, ?_, by decide, ?_, ?_, ?_⟩
    · exact .data (by decide) (by decide) (by decide) (by decide)
        (.status (by decide) (by decide) (by decide) (by decide))
    · simp only [transfers, ranges, List.forall_mem_cons, List.not_mem_nil, false_implies,
        implies_true, and_true]
      exact ⟨⟨by decide, by decide, by decide, by decide, by decide⟩, by decide⟩
    · intro x hlow hhigh
      simp only [sizeOfReq] at hlow hhigh
      exact ⟨by omega, by omega⟩
    · exact fun h => absurd h.2 (by decide)
    · exact .data (by decide) (by decide) (by decide) (by decide)
        (.data (by decide) (by decide) (by decide) (by decide)
          (.status (by decide) (by decide) (by decide) (by decide)))
    · simp only [transfers, ranges, List.forall_mem_cons, List.not_mem_nil, false_implies,
        implies_true, and_true]
      exact ⟨⟨⟨by decide, by decide, by decide, by decide, by decide⟩, by decide⟩,
        ⟨by decide, by decide, by decide, by decide, by decide⟩, by decide⟩
    · intro x hlow hhigh
      simp only [sizeOfReq] at hlow hhigh
      exact ⟨by omega, by omega⟩
    · simp only [List.forall_mem_cons, List.not_mem_nil, false_implies, implies_true, and_true]
      refine fun _ => ⟨fun x hkeep => ?_, fun x hkeep => ?_⟩ <;>
      · have := hkeep.2
        omega
    · exact fun h => absurd h.2 (by decide)

theorem operation_disk_two_requests :
    let w := World.start diskDevice diskMemory
    let last := Handler.operation sampleVm (.fat32 Store.twoFiles.fs samplePages 1)
      ((diskRequests.map turns).sum + 1) w.begin
    let s := performAll true diskRequests diskDevice ⟨diskMemory, fun _ _ => 0⟩
    last.pc = .ok .returned ∧
      (last.world.machine.mem = s.mem ∧ Store.twoFiles.Shows last.world.machine.blk.disk s.array ∧
        (∀ x, Store.twoFiles.placement.Free x → last.world.machine.blk.disk x = 0) ∧
        last.world.machine.heap = () ∧ last.world.machine.blk.Completes) ∧
      last.world.device = { diskDevice with
        lastAvailId := 2
        usedId := 2
        interruptStatus := 1 } ∧
      (last.world.distributor, last.world.cpu) = (.new, .reset 0 3) ∧
      last.world.history.published = [0, 3] ∧ last.world.history.triggers = 1 :=
  operation_disk Store.twoFiles true sampleVm samplePages 1 Nat.one_pos diskKeep
    (World.start diskDevice diskMemory) diskRequests diskRequests_pending (fun _ _ => 0)
    (fun _ _ _ => rfl) (fun _ _ => le_rfl) .new (.reset 0 3) rfl

end Min1visor.Virtio
