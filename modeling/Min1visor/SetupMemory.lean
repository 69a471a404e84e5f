import Min1visor.DtbSearch
import Min1visor.LinkedList

/-!
# The hypervisor heap

`setup_memory` gives the allocator the memory between the end of the hypervisor's own
image and the lower of its stack and the first reserved address, which on the Raspberry
Pi is where the Linux image was loaded. Of the ranges that the heap must not touch it
compares some; `create_vm` of the Raspberry Pi compares others.
-/
namespace Min1visor.SetupMemory
open Dtb (Stop attempt checked)

/-! ## Failing steps -/

/-- `assert!`, or a check that returns `Err(())`. -/
def ensure (p : Prop) [Decidable p] (e : Stop) : Except Stop Unit :=
  if p then .ok () else .error e

/-- `expect` on what may be missing. -/
def expect {α : Type} (x : Except Stop (Option α)) : Except Stop α := do
  match ← x with
  | some a => return a
  | none => throw (.panic .unwrapNone)

/-- The number in the `n` bytes at an address, least significant first. -/
def loadLe (mem : Mapped) (address n : ℕ) : Except Stop ℕ :=
  match mem.bytesAt address n with
  | some bs => .ok (FlattenedTree.ofBytes bs.reverse)
  | none => .error .fault

/-! ## ELF headers -/

def elfMagic : ℕ := 0x464c457f
def elfClass : ℕ := 0x02
def elfHeaderVersion : ℕ := 0x01
def elfSupportedVersion : ℕ := 1
def elfProgramHeaderSegmentLoad : ℕ := 0x01

/-- The fields of an ELF header that are used. -/
structure Elf64Header where
  ePhoff : ℕ
  ePhentsize : ℕ
  ePhnum : ℕ
  deriving DecidableEq, Repr

/-- `Elf64Header::new`; the first four bytes of `e_ident` are compared as one word. -/
def Elf64Header.new (mem : Mapped) (address : ℕ) : Except Stop Elf64Header := do
  ensure ((← loadLe mem address 4) = elfMagic) .err
  ensure ((← loadLe mem (address + 4) 1) = elfClass) .err
  ensure ((← loadLe mem (address + 6) 1) = elfHeaderVersion) .err
  ensure ((← loadLe mem (address + 20) 4) = elfSupportedVersion) .err
  return ⟨← loadLe mem (address + 32) 8, ← loadLe mem (address + 54) 2,
    ← loadLe mem (address + 56) 2⟩

/-- The end of the segment of the program header at `pointer`, if it is loaded. -/
def segmentEnd (mem : Mapped) (pointer : ℕ) : Except Stop (Option ℕ) := do
  if (← loadLe mem pointer 4) = elfProgramHeaderSegmentLoad then
    let start ← loadLe mem (pointer + 24) 8
    let size ← loadLe mem (pointer + 40) 8
    return some (← checked (Checked.add 64 start size))
  else return none

/-- The loop over the program headers: `remaining` of them, `size` bytes apart. -/
def elfEndFrom (mem : Mapped) (size : ℕ) : ℕ → ℕ → ℕ → Except Stop ℕ
  | 0, _, elfEnd => return elfEnd
  | remaining + 1, pointer, elfEnd => do
    let next ← checked (Checked.add 64 pointer size)
    let found ← segmentEnd mem pointer
    elfEndFrom mem size remaining next (max elfEnd (found.getD 0))

/-- Where the last loaded segment ends. -/
def elfEnd (mem : Mapped) (elfAddress : ℕ) : Except Stop ℕ := do
  let header ← expect (attempt (Elf64Header.new mem elfAddress))
  let pointer ← checked (Checked.add 64 elfAddress header.ePhoff)
  elfEndFrom mem header.ePhentsize header.ePhnum pointer 0

/-! ## `setup_memory` -/

def stackSize : ℕ := 0x10000

/-- The pages reserved for the stack; the mask clears the offset in a page. -/
def reserveStack (stackPointer : ℕ) : Except Stop Extent := do
  let below ← checked (Checked.sub stackPointer 1)
  let stackEnd ← checked (Checked.add 64 (below / LinkedList.pageSize * LinkedList.pageSize)
    LinkedList.pageSize)
  let stackStart ← checked (Checked.sub stackEnd stackSize)
  return ⟨stackStart, stackSize⟩

/-- `b"memory"`. -/
def memoryName : List UInt8 := [0x6d, 0x65, 0x6d, 0x6f, 0x72, 0x79]

/-- The reads and additions for the log lines: RAM and the device tree. -/
def logMemory (d : Dtb) (fuel dtbAddress : ℕ) : Except Stop Unit := do
  let memory ← expect (d.searchNode fuel memoryName none)
  let (ramStart, ramSize) ← expect (d.readRegProperty fuel memory 0)
  let _ ← checked (Checked.add 64 ramStart ramSize)
  let _ ← checked (Checked.add 64 dtbAddress (← d.getTotalSize))

def setupMemory (d : Dtb) (fuel dtbAddress elfAddress stackPointer reservedStart : ℕ) :
    Except Stop LinkedList.LinkedListAllocator := do
  logMemory d fuel dtbAddress
  let elfEnd ← elfEnd d.mem elfAddress
  let stack ← reserveStack stackPointer
  let heapEnd := min stack.start reservedStart
  ensure (elfEnd < heapEnd) (.panic .assertion)
  (LinkedList.init elfEnd (heapEnd - elfEnd)).mapError .panic

/-- `usize::MAX`, the reserved address on QEMU. -/
def usizeMax : ℕ := 2 ^ 64 - 1

/-! ## The checks of `create_vm` on the Raspberry Pi -/

def hostRamBase : ℕ := 0x10000000
def ramSize : ℕ := 0x10000000
def linuxImageAlignment : ℕ := 0x200000
def linuxMagic : ℕ := 0x644D5241

/-- The memory behind the guest's RAM. -/
def guestRam : Extent := ⟨hostRamBase, ramSize⟩

/-- The assertions before anything is mapped. -/
def createVmChecks (mem : Mapped) (linuxImageAddress dtbAddress dtbSize : ℕ) :
    Except Stop Unit := do
  ensure (hostRamBase ≤ linuxImageAddress ∧ linuxImageAddress < guestRam.stop)
    (.panic .assertion)
  let dtbEnd ← checked (Checked.add 64 dtbAddress dtbSize)
  ensure (dtbAddress ≥ hostRamBase ∧ dtbEnd ≤ guestRam.stop) (.panic .assertion)
  ensure ((← loadLe mem (linuxImageAddress + 56) 4) = linuxMagic) (.panic .assertion)
  let imageBase ← checked (Checked.sub linuxImageAddress (← loadLe mem (linuxImageAddress + 8) 8))
  ensure (imageBase &&& (linuxImageAlignment - 1) = 0) (.panic .assertion)
  let imageSize ← loadLe mem (linuxImageAddress + 16) 8
  if imageSize ≠ 0 then
    let imageEnd ← checked (Checked.add 64 linuxImageAddress imageSize)
    ensure (imageEnd ≤ guestRam.stop) (.panic .assertion)
    ensure (imageEnd ≤ dtbAddress ∨ dtbEnd ≤ linuxImageAddress) (.panic .assertion)

/-! ## What the heap has to avoid -/

/-- The program header at `pointer` is that of a loaded segment. -/
structure LoadsAt (mem : Mapped) (pointer : ℕ) (e : Extent) : Prop where
  type : loadLe mem pointer 4 = .ok elfProgramHeaderSegmentLoad
  start : loadLe mem (pointer + 24) 8 = .ok e.start
  size : loadLe mem (pointer + 40) 8 = .ok e.size

/-- A loaded segment of the ELF file at `elfAddress`. -/
def LoadSegment (mem : Mapped) (elfAddress : ℕ) (e : Extent) : Prop :=
  ∃ header, Elf64Header.new mem elfAddress = .ok header ∧
    ∃ i < header.ePhnum, LoadsAt mem (elfAddress + header.ePhoff + i * header.ePhentsize) e

/-- The pages reserved for the stack. -/
def stackOf (stackPointer : ℕ) : Extent :=
  ⟨(stackPointer - 1) / LinkedList.pageSize * LinkedList.pageSize + LinkedList.pageSize - stackSize,
    stackSize⟩

/-- The blob of the host's device tree. -/
def dtbOf (d : Dtb) : Extent := ⟨d.header, (d.getTotalSize.toOption).getD 0⟩

/-- The memory of the allocator shares no address with the extent. -/
def Avoids (a : LinkedList.LinkedListAllocator) (e : Extent) : Prop :=
  ∀ region ∈ a.head, Disjoint region.addresses e.addresses

/-- The memory of the allocator avoids the loaded segments, the device tree and the stack. -/
structure HeapApart (mem : Mapped) (elfAddress stackPointer : ℕ) (dtb : Extent)
    (a : LinkedList.LinkedListAllocator) : Prop where
  segments : ∀ e, LoadSegment mem elfAddress e → Avoids a e
  dtb : Avoids a dtb
  stack : Avoids a (stackOf stackPointer)

/-- Every byte of the device tree lies below the end of a loaded segment, or not below the
stack or the first reserved address. -/
def DtbOutside (mem : Mapped) (elfAddress stackPointer reservedStart : ℕ) (dtb : Extent) : Prop :=
  ∀ x ∈ dtb.addresses, (∃ e, LoadSegment mem elfAddress e ∧ x < e.stop) ∨
    (stackOf stackPointer).start ≤ x ∨ reservedStart ≤ x

theorem ensure_eq_ok {p : Prop} [Decidable p] {e : Stop} {u : Unit} :
    ensure p e = .ok u ↔ p := by
  unfold ensure
  split_ifs with h <;> simp [h]

theorem checked_eq_ok {x : Except Panic ℕ} {n : ℕ} : checked x = .ok n ↔ x = .ok n := by
  cases x <;> simp [checked, Except.mapError]

theorem expect_eq_ok {α : Type} {x : Except Stop (Option α)} {a : α} :
    expect x = .ok a ↔ x = .ok (some a) := by
  unfold expect
  cases x with
  | error e => simp
  | ok o => cases o <;> simp

theorem attempt_eq_some {α : Type} {x : Except Stop α} {a : α} :
    attempt x = .ok (some a) ↔ x = .ok a := by
  unfold attempt
  split <;> simp

theorem segmentEnd_ok {mem : Mapped} {pointer : ℕ} {found : Option ℕ}
    (h : segmentEnd mem pointer = .ok found) :
    (∀ e, LoadsAt mem pointer e → found = some e.stop) ∧
      ∀ s, found = some s → ∃ e, LoadsAt mem pointer e ∧ e.stop = s := by
  unfold segmentEnd at h
  obtain ⟨type, htype, h⟩ := Checked.bind_eq_ok.mp h
  split_ifs at h with hload
  · obtain ⟨start, hstart, h⟩ := Checked.bind_eq_ok.mp h
    obtain ⟨size, hsize, h⟩ := Checked.bind_eq_ok.mp h
    obtain ⟨stop, hstop, h⟩ := Checked.bind_eq_ok.mp h
    obtain ⟨-, rfl⟩ := Checked.add_eq_ok.mp (checked_eq_ok.mp hstop)
    cases h
    constructor
    · intro e he
      have hs := he.start.symm.trans hstart
      have hz := he.size.symm.trans hsize
      simp only [Except.ok.injEq] at hs hz
      rw [Extent.stop, hs, hz]
    · intro s hs
      cases hs
      exact ⟨⟨start, size⟩, ⟨hload ▸ htype, hstart, hsize⟩, rfl⟩
  · cases h
    constructor
    · intro e he
      have ht := he.type.symm.trans htype
      simp only [Except.ok.injEq] at ht
      exact absurd ht.symm hload
    · intro s hs
      cases hs

/-- The loop over the program headers returns the greatest end of a loaded segment. -/
theorem elfEndFrom_ok {mem : Mapped} {size n pointer acc r : ℕ}
    (h : elfEndFrom mem size n pointer acc = .ok r) :
    acc ≤ r ∧ (∀ i < n, ∀ e, LoadsAt mem (pointer + i * size) e → e.stop ≤ r) ∧
      (r = acc ∨ ∃ i < n, ∃ e, LoadsAt mem (pointer + i * size) e ∧ e.stop = r) := by
  induction n generalizing pointer acc with
  | zero =>
    cases h
    exact ⟨le_rfl, fun i hi => absurd hi (Nat.not_lt_zero i), .inl rfl⟩
  | succ n ih =>
    rw [elfEndFrom] at h
    obtain ⟨next, hnext, h⟩ := Checked.bind_eq_ok.mp h
    obtain ⟨found, hfound, h⟩ := Checked.bind_eq_ok.mp h
    obtain ⟨-, rfl⟩ := Checked.add_eq_ok.mp (checked_eq_ok.mp hnext)
    obtain ⟨hsome, hback⟩ := segmentEnd_ok hfound
    obtain ⟨hacc, hall, hreach⟩ := ih h
    have hmove : ∀ i, pointer + size + i * size = pointer + (i + 1) * size := by
      intro i
      rw [Nat.succ_mul]
      omega
    refine ⟨(le_max_left _ _).trans hacc, ?_, ?_⟩
    · intro i hi e he
      cases i with
      | zero =>
        rw [Nat.zero_mul, Nat.add_zero] at he
        rw [hsome e he, Option.getD_some] at hacc
        exact (le_max_right _ _).trans hacc
      | succ i =>
        rw [← hmove] at he
        exact hall i (Nat.lt_of_succ_lt_succ hi) e he
    · rcases hreach with hr | ⟨i, hi, e, he, hstop⟩
      · cases found with
        | none =>
          rw [Option.getD_none, Nat.max_zero] at hr
          exact .inl hr
        | some s =>
          rw [Option.getD_some] at hr
          rcases max_choice acc s with hmax | hmax
          · exact .inl (hr.trans hmax)
          · obtain ⟨e, he, hs⟩ := hback s rfl
            refine .inr ⟨0, Nat.succ_pos n, e, ?_, hs.trans (hr.trans hmax).symm⟩
            rwa [Nat.zero_mul, Nat.add_zero]
      · rw [hmove] at he
        exact .inr ⟨i + 1, Nat.succ_lt_succ hi, e, he, hstop⟩

/-- Below the end of the image means below the end of a loaded segment. -/
theorem lt_elfEnd_iff {mem : Mapped} {elfAddress r x : ℕ} (h : elfEnd mem elfAddress = .ok r) :
    x < r ↔ ∃ e, LoadSegment mem elfAddress e ∧ x < e.stop := by
  unfold elfEnd at h
  obtain ⟨header, hheader, h⟩ := Checked.bind_eq_ok.mp h
  obtain ⟨pointer, hpointer, h⟩ := Checked.bind_eq_ok.mp h
  rw [expect_eq_ok, attempt_eq_some] at hheader
  obtain ⟨-, rfl⟩ := Checked.add_eq_ok.mp (checked_eq_ok.mp hpointer)
  obtain ⟨-, hall, hreach⟩ := elfEndFrom_ok h
  constructor
  · intro hx
    rcases hreach with hr | ⟨i, hi, e, he, hstop⟩
    · omega
    · exact ⟨e, ⟨header, hheader, i, hi, he⟩, hx.trans_eq hstop.symm⟩
  · rintro ⟨e, ⟨header', hheader', i, hi, he⟩, hx⟩
    rw [hheader, Except.ok.injEq] at hheader'
    subst hheader'
    exact hx.trans_le (hall i hi e he)

theorem reserveStack_ok {stackPointer : ℕ} {stack : Extent}
    (h : reserveStack stackPointer = .ok stack) : stack = stackOf stackPointer := by
  unfold reserveStack at h
  obtain ⟨below, hbelow, h⟩ := Checked.bind_eq_ok.mp h
  obtain ⟨stackEnd, hend, h⟩ := Checked.bind_eq_ok.mp h
  obtain ⟨stackStart, hstart, h⟩ := Checked.bind_eq_ok.mp h
  obtain ⟨-, rfl⟩ := Checked.sub_eq_ok.mp (checked_eq_ok.mp hbelow)
  obtain ⟨-, rfl⟩ := Checked.add_eq_ok.mp (checked_eq_ok.mp hend)
  obtain ⟨-, rfl⟩ := Checked.sub_eq_ok.mp (checked_eq_ok.mp hstart)
  rw [Checked.pure_eq_ok, Except.ok.injEq] at h
  exact h.symm

/-- The region that `init` puts on the free list. -/
theorem init_ok {start size : ℕ} {a : LinkedList.LinkedListAllocator}
    (h : LinkedList.init start size = .ok a) : a.head = [⟨start, size⟩] := by
  unfold LinkedList.init LinkedList.addFreeRegion at h
  obtain ⟨aligned, -, h⟩ := Checked.bind_eq_ok.mp h
  split_ifs at h <;> cases h
  rfl

variable {d : Dtb} {fuel dtbAddress elfAddress stackPointer reservedStart : ℕ}
  {a : LinkedList.LinkedListAllocator}

/-- The heap that a call of `setup_memory` sets up. -/
theorem setupMemory_ok
    (h : setupMemory d fuel dtbAddress elfAddress stackPointer reservedStart = .ok a) :
    ∃ r, elfEnd d.mem elfAddress = .ok r ∧
      r < min (stackOf stackPointer).start reservedStart ∧
      a.head = [⟨r, min (stackOf stackPointer).start reservedStart - r⟩] := by
  unfold setupMemory at h
  obtain ⟨-, -, h⟩ := Checked.bind_eq_ok.mp h
  obtain ⟨r, hr, h⟩ := Checked.bind_eq_ok.mp h
  obtain ⟨stack, hstack, h⟩ := Checked.bind_eq_ok.mp h
  obtain ⟨u, hlt, h⟩ := Checked.bind_eq_ok.mp h
  rw [ensure_eq_ok] at hlt
  obtain rfl := reserveStack_ok hstack
  refine ⟨r, hr, hlt, init_ok ?_⟩
  cases hinit : LinkedList.init r (min (stackOf stackPointer).start reservedStart - r) with
  | error e =>
    rw [hinit] at h
    cases h
  | ok b =>
    rw [hinit] at h
    cases h
    rfl

/-- What the heap avoids, address by address. -/
theorem avoids_iff {r stop : ℕ} (hlt : r < stop) (hhead : a.head = [⟨r, stop - r⟩]) (e : Extent) :
    Avoids a e ↔ ∀ x ∈ e.addresses, x < r ∨ stop ≤ x := by
  have hstop : r + (stop - r) = stop := Nat.add_sub_cancel' hlt.le
  rw [Avoids, hhead, List.forall_mem_singleton, Set.disjoint_right]
  refine forall₂_congr fun x _ => ?_
  show ¬ (r ≤ x ∧ x < r + (stop - r)) ↔ _
  rw [hstop]
  omega

/-- The loaded segments and the stack are always avoided. -/
theorem setupMemory_segments_stack
    (h : setupMemory d fuel dtbAddress elfAddress stackPointer reservedStart = .ok a) :
    (∀ e, LoadSegment d.mem elfAddress e → Avoids a e) ∧ Avoids a (stackOf stackPointer) := by
  obtain ⟨r, hr, hlt, hhead⟩ := setupMemory_ok h
  constructor
  · intro e he
    rw [avoids_iff hlt hhead]
    intro x hx
    exact .inl ((lt_elfEnd_iff hr).mpr ⟨e, he, hx.2⟩)
  · rw [avoids_iff hlt hhead]
    intro x hx
    have hstart : (stackOf stackPointer).start ≤ x := hx.1
    exact .inr ((min_le_left _ _).trans hstart)

/-- The device tree is avoided exactly when it does not lie between the image and the
stack or the first reserved address. -/
theorem setupMemory_dtb
    (h : setupMemory d fuel dtbAddress elfAddress stackPointer reservedStart = .ok a)
    (dtb : Extent) :
    Avoids a dtb ↔ DtbOutside d.mem elfAddress stackPointer reservedStart dtb := by
  obtain ⟨r, hr, hlt, hhead⟩ := setupMemory_ok h
  rw [avoids_iff hlt hhead, DtbOutside]
  refine forall₂_congr fun x _ => ?_
  rw [lt_elfEnd_iff hr, min_le_iff]

/-- The memory behind the guest's RAM is avoided exactly when the image was loaded at its
start or the stack ends the heap before it. -/
theorem setupMemory_guestRam
    (h : setupMemory d fuel dtbAddress elfAddress stackPointer reservedStart = .ok a)
    (hlow : hostRamBase ≤ reservedStart) (hhigh : reservedStart < guestRam.stop) :
    Avoids a guestRam ↔
      reservedStart = hostRamBase ∨ (stackOf stackPointer).start ≤ hostRamBase := by
  obtain ⟨r, -, hlt, hhead⟩ := setupMemory_ok h
  rw [avoids_iff hlt hhead]
  constructor
  · intro hall
    by_contra hnot
    rw [not_or, not_le] at hnot
    -- The address below the end of the heap lies in the guest's memory.
    have hend : hostRamBase < min (stackOf stackPointer).start reservedStart :=
      lt_min hnot.2 (lt_of_le_of_ne hlow (Ne.symm hnot.1))
    have hin : max r hostRamBase ∈ guestRam.addresses :=
      ⟨le_max_right _ _, (max_lt hlt hend).trans ((min_le_right _ _).trans_lt hhigh)⟩
    rcases hall _ hin with hbelow | habove
    · exact absurd hbelow (not_lt.mpr (le_max_left _ _))
    · exact absurd habove (not_le.mpr (max_lt hlt hend))
  · intro hcond x hx
    have hend : min (stackOf stackPointer).start reservedStart ≤ hostRamBase := by
      rcases hcond with hcond | hcond
      · exact (min_le_right _ _).trans hcond.le
      · exact (min_le_left _ _).trans hcond
    exact .inr (hend.trans hx.1)

theorem createVmChecks_image {mem : Mapped} {linuxImageAddress guestDtbAddress guestDtbSize : ℕ}
    (h : createVmChecks mem linuxImageAddress guestDtbAddress guestDtbSize = .ok ()) :
    hostRamBase ≤ linuxImageAddress ∧ linuxImageAddress < guestRam.stop := by
  unfold createVmChecks at h
  obtain ⟨u, himage, -⟩ := Checked.bind_eq_ok.mp h
  exact ensure_eq_ok.mp himage

/-- On QEMU the heap avoids all that it must not touch if and only if the device tree does
not lie between the hypervisor's image and its stack. On the Raspberry Pi the Linux image,
too, has to be at the start of the guest's memory, or the stack below it. -/
theorem heapApart_iff (mem : Mapped) (fuel dtbAddress elfAddress stackPointer : ℕ)
    (a : LinkedList.LinkedListAllocator) :
    (setupMemory ⟨mem, dtbAddress⟩ fuel dtbAddress elfAddress stackPointer usizeMax = .ok a →
      (HeapApart mem elfAddress stackPointer (dtbOf ⟨mem, dtbAddress⟩) a ↔
        DtbOutside mem elfAddress stackPointer usizeMax (dtbOf ⟨mem, dtbAddress⟩))) ∧
    ∀ linuxImageAddress guestDtbAddress guestDtbSize,
      setupMemory ⟨mem, dtbAddress⟩ fuel dtbAddress elfAddress stackPointer linuxImageAddress =
        .ok a →
      createVmChecks mem linuxImageAddress guestDtbAddress guestDtbSize = .ok () →
      (HeapApart mem elfAddress stackPointer (dtbOf ⟨mem, dtbAddress⟩) a ∧ Avoids a guestRam ↔
        DtbOutside mem elfAddress stackPointer linuxImageAddress (dtbOf ⟨mem, dtbAddress⟩) ∧
          (linuxImageAddress = hostRamBase ∨ (stackOf stackPointer).start ≤ hostRamBase)) := by
  have hapart : ∀ {reservedStart}, setupMemory ⟨mem, dtbAddress⟩ fuel dtbAddress elfAddress
      stackPointer reservedStart = .ok a →
      (HeapApart mem elfAddress stackPointer (dtbOf ⟨mem, dtbAddress⟩) a ↔
        DtbOutside mem elfAddress stackPointer reservedStart (dtbOf ⟨mem, dtbAddress⟩)) := by
    intro reservedStart h
    obtain ⟨hsegments, hstack⟩ := setupMemory_segments_stack h
    rw [← setupMemory_dtb h]
    exact ⟨fun hapart => hapart.dtb, fun hdtb => ⟨hsegments, hdtb, hstack⟩⟩
  refine ⟨hapart, ?_⟩
  intro linuxImageAddress guestDtbAddress guestDtbSize h hchecks
  obtain ⟨hlow, hhigh⟩ := createVmChecks_image hchecks
  rw [hapart h, setupMemory_guestRam h hlow hhigh]

/-! ## A board -/

/-- A root with the node `memory@0`, whose `reg` is the first GiB. -/
def boardTree : Dtb.DeviceTree where
  header := ⟨0xd00dfeed, 104, 40, 100, 40, 17, 16, 0, 4, 60⟩
  nops := 0
  name := []
  props := []
  subnodes :=
    .node 0 (memoryName ++ [0x40, 0x30])
      [⟨0, 0, FlattenedTree.word 0 ++ FlattenedTree.word 0 ++ FlattenedTree.word 0x40000000⟩]
      (.done 0) (.done 0)
  endNops := 0
  strings := Dtb.propReg ++ [0]

/-- The `n` low bytes of a number, least significant first. -/
def le (n value : ℕ) : List UInt8 := (List.range n).map fun i => UInt8.ofNat (value / 256 ^ i)

/-- An ELF header and one program header, of a segment of 1 MiB at `0x80000`. -/
def boardElf : List UInt8 :=
  le 4 elfMagic ++ [0x02, 0x01, 0x01] ++ le 9 0 ++ le 4 0 ++ le 4 1 ++ le 8 0x80000 ++ le 8 64 ++
    le 8 0 ++ le 4 0 ++ le 2 64 ++ le 2 56 ++ le 2 1 ++ le 6 0 ++
  (le 4 1 ++ le 4 0 ++ le 8 0 ++ le 8 0x80000 ++ le 8 0x80000 ++ le 8 0x100000 ++ le 8 0x100000 ++
    le 8 0)

/-- The header of a Linux image with no text offset and no size. -/
def linuxHeader : List UInt8 := le 56 0 ++ le 4 linuxMagic ++ le 4 0

/-- The device tree, the ELF file and the Linux image, as they are loaded. -/
def boardMem (linuxImageAddress : ℕ) : Mapped := fun x =>
  (Mapped.ofBytes 0x2e000000 boardTree.blob x).or
    ((Mapped.ofBytes 0x1000000 boardElf x).or (Mapped.ofBytes linuxImageAddress linuxHeader x))

/-- With the device tree above the stack, and with the image at the start of the guest's
memory, the heap avoids everything. -/
theorem heapApart_iff_board :
    (∃ a, setupMemory ⟨boardMem 0x10000000, 0x2e000000⟩ 100 0x2e000000 0x1000000 0x20000000 usizeMax =
        .ok a ∧
      HeapApart (boardMem 0x10000000) 0x1000000 0x20000000
        (dtbOf ⟨boardMem 0x10000000, 0x2e000000⟩) a) ∧
    ∃ a, setupMemory ⟨boardMem 0x10000000, 0x2e000000⟩ 100 0x2e000000 0x1000000 0x3b400000
        0x10000000 = .ok a ∧
      createVmChecks (boardMem 0x10000000) 0x10000000 0x18000000 0x1000 = .ok () ∧
      HeapApart (boardMem 0x10000000) 0x1000000 0x3b400000
        (dtbOf ⟨boardMem 0x10000000, 0x2e000000⟩) a ∧ Avoids a guestRam := by
  have hqemu : setupMemory ⟨boardMem 0x10000000, 0x2e000000⟩ 100 0x2e000000 0x1000000 0x20000000
      usizeMax = .ok ⟨[⟨0x180000, 0x1fe70000⟩]⟩ := by decide +kernel
  have hrpi4 : setupMemory ⟨boardMem 0x10000000, 0x2e000000⟩ 100 0x2e000000 0x1000000 0x3b400000
      0x10000000 = .ok ⟨[⟨0x180000, 0xfe80000⟩]⟩ := by decide +kernel
  have hchecks : createVmChecks (boardMem 0x10000000) 0x10000000 0x18000000 0x1000 = .ok () := by
    decide +kernel
  have hstack : (stackOf 0x20000000).start ≤ 0x2e000000 := by decide
  refine ⟨⟨_, hqemu, ?_⟩, _, hrpi4, hchecks, ?_⟩
  · refine ((heapApart_iff _ 100 0x2e000000 0x1000000 0x20000000 _).1 hqemu).mpr ?_
    intro x hx
    exact .inr (.inl (hstack.trans hx.1))
  · refine ((heapApart_iff _ 100 0x2e000000 0x1000000 0x3b400000 _).2 0x10000000 0x18000000 0x1000
      hrpi4 hchecks).mpr ⟨?_, .inl rfl⟩
    intro x hx
    have hreserved : 0x10000000 ≤ 0x2e000000 := by decide
    exact .inr (.inr (hreserved.trans hx.1))

theorem not_avoids {region e : Extent} {x : ℕ} (hregion : x ∈ region.addresses)
    (he : x ∈ e.addresses) : ¬ Avoids ⟨[region]⟩ e := by
  intro h
  exact Set.disjoint_left.mp (h region List.mem_cons_self) hregion he

/-- With the stack above the device tree, the heap covers the device tree; with the Linux
image 2 MiB up, it covers the first 2 MiB of the guest's memory. -/
theorem heap_covers_dtb_and_guest :
    (∃ a, setupMemory ⟨boardMem 0x10000000, 0x2e000000⟩ 100 0x2e000000 0x1000000 0x3b400000 usizeMax =
        .ok a ∧
      ¬ HeapApart (boardMem 0x10000000) 0x1000000 0x3b400000
        (dtbOf ⟨boardMem 0x10000000, 0x2e000000⟩) a) ∧
    ∃ a, setupMemory ⟨boardMem 0x10200000, 0x2e000000⟩ 100 0x2e000000 0x1000000 0x3b400000
        0x10200000 = .ok a ∧
      createVmChecks (boardMem 0x10200000) 0x10200000 0x18000000 0x1000 = .ok () ∧
      ¬ Avoids a guestRam := by
  have hqemu : setupMemory ⟨boardMem 0x10000000, 0x2e000000⟩ 100 0x2e000000 0x1000000 0x3b400000
      usizeMax = .ok ⟨[⟨0x180000, 0x3b270000⟩]⟩ := by decide +kernel
  have hrpi4 : setupMemory ⟨boardMem 0x10200000, 0x2e000000⟩ 100 0x2e000000 0x1000000 0x3b400000
      0x10200000 = .ok ⟨[⟨0x180000, 0x10080000⟩]⟩ := by decide +kernel
  have hchecks : createVmChecks (boardMem 0x10200000) 0x10200000 0x18000000 0x1000 = .ok () := by
    decide +kernel
  have hdtb : dtbOf ⟨boardMem 0x10000000, 0x2e000000⟩ = ⟨0x2e000000, 104⟩ := by decide +kernel
  have hbyte : 0x2e000000 ∈ (Extent.mk 0x2e000000 104).addresses :=
    ⟨by decide, by decide⟩
  have hheap : 0x2e000000 ∈ (Extent.mk 0x180000 0x3b270000).addresses :=
    ⟨by decide, by decide⟩
  refine ⟨⟨_, hqemu, fun hapart => not_avoids hheap (hdtb ▸ hbyte) hapart.dtb⟩, _, hrpi4, hchecks, ?_⟩
  have hguest : 0x10000000 ∈ guestRam.addresses := ⟨by decide, by decide⟩
  have hheap' : 0x10000000 ∈ (Extent.mk 0x180000 0x10080000).addresses := ⟨by decide, by decide⟩
  exact not_avoids hheap' hguest

end Min1visor.SetupMemory
