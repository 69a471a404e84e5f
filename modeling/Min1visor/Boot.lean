import Min1visor.FatDirectory
import Min1visor.SetupMemory
import Min1visor.Vm

/-!
# Entering the kernel

`create_vm` returns where the guest starts. On QEMU the Linux image is read to a multiple of
2 MiB and the text offset is added to that; on the Raspberry Pi the image is in memory
already and the text offset is subtracted from where it is. The boot protocol of the image
has its first byte at the entry, the text offset above a multiple of 2 MiB, and memory for
the whole image behind it.
-/
namespace Min1visor.Boot
open Fat Fat.Fat32 Vm

/-- The fields of the header of a Linux image that `create_vm` reads. -/
structure KernelHeader where
  textOffset : ℕ
  imageSize : ℕ
  magic : ℕ
  deriving DecidableEq

namespace KernelHeader

/-- An image without a size is an old one, with a fixed text offset. -/
def effectiveTextOffset (h : KernelHeader) : ℕ := if h.imageSize = 0 then 0x80000 else h.textOffset

/-- The header in the memory of QEMU. -/
def load (mem : Bytes) (a : ℕ) : KernelHeader where
  textOffset := mem.load (a + 8) 8
  imageSize := mem.load (a + 16) 8
  magic := mem.load (a + 56) 4

/-- The header in the memory of the Raspberry Pi. -/
def read (mem : Mapped) (a : ℕ) : Except Dtb.Stop KernelHeader := do
  return ⟨← SetupMemory.loadLe mem (a + 8) 8, ← SetupMemory.loadLe mem (a + 16) 8,
    ← SetupMemory.loadLe mem (a + 56) 4⟩

end KernelHeader

/-! ## The boot protocol -/

def alignSize : ℕ := 0x200000

/-- A guest of the machine that starts at an entry obeys the protocol for the image whose first
byte is at a physical address, beside other parts of the guest's memory. -/
structure Obeys (vm : VM) (h : KernelHeader) (image entry : ℕ) (others : List Extent) : Prop where
  first : vm.getPhysicalAddress entry = some image
  aligned : entry ≡ h.effectiveTextOffset [MOD alignSize]
  inRam : h.imageSize ≠ 0 → Extent.Within ⟨entry, h.imageSize⟩ vm.ramVirtualBaseAddress
    (vm.ramVirtualBaseAddress + vm.ramSize)
  apart : h.imageSize ≠ 0 → ∀ e ∈ others, Disjoint (Extent.addresses ⟨entry, h.imageSize⟩) e.addresses

theorem getPhysicalAddress_inj {vm : VM} {x y a : ℕ} (hx : vm.getPhysicalAddress x = some a)
    (hy : vm.getPhysicalAddress y = some a) : x = y := by
  unfold VM.getPhysicalAddress at hx hy
  split_ifs at hx hy
  have heq := (Option.some.inj hx).trans (Option.some.inj hy).symm
  omega

/-! ## QEMU -/

namespace QemuVirt

def initramfsVirtualBase : ℕ := 0x48000000

/-- `expect` on what may be missing. -/
def expect {α : Type} : Option α → Except Panic α
  | some a => .ok a
  | none => .error .unwrapNone

/-- `panic!` if something is wrong. -/
def refuse (p : Prop) [Decidable p] : Except Panic Unit :=
  if p then .error .explicit else .ok ()

/-- Where the kernel goes; the mask clears the offset in the alignment. -/
def kernelVirtualAddress (dtbSize : ℕ) : Except Panic ℕ := do
  let last ← Checked.sub (← Checked.add 64 ramVirtualBase dtbSize) 1
  Checked.add 64 (last / alignSize * alignSize) alignSize

/-- The checks of the sizes of the three files. -/
def checkPlacement (kernelVirtualAddress kernelSize dtbSize initramfsSize : ℕ) :
    Except Panic Unit := do
  let ramEnd ← expect (Checked.checkedAdd 64 ramVirtualBase ramSize)
  let dtbEnd ← expect (Checked.checkedAdd 64 ramVirtualBase dtbSize)
  let kernelEnd ← expect (Checked.checkedAdd 64 kernelVirtualAddress kernelSize)
  let initramfsEnd ← expect (Checked.checkedAdd 64 initramfsVirtualBase initramfsSize)
  refuse (dtbEnd > ramEnd)
  refuse (kernelEnd > ramEnd)
  refuse (initramfsEnd > ramEnd)
  refuse (ramVirtualBase < kernelEnd ∧ kernelVirtualAddress < dtbEnd)
  refuse (ramVirtualBase < initramfsEnd ∧ initramfsVirtualBase < dtbEnd)
  refuse (kernelVirtualAddress < initramfsEnd ∧ initramfsVirtualBase < kernelEnd)

/-- Where the kernel and the initramfs go in the memory of the host, and the kernel in that
of the guest. -/
structure Placement where
  kernelVirtualAddress : ℕ
  kernelPhysicalAddress : ℕ
  initramfsPhysicalAddress : ℕ

def place (vm : VM) (kernelSize dtbSize initramfsSize : ℕ) : Except Panic Placement := do
  let kernelVirtualAddress ← kernelVirtualAddress dtbSize
  checkPlacement kernelVirtualAddress kernelSize dtbSize initramfsSize
  return ⟨kernelVirtualAddress, ← expect (vm.getPhysicalAddress kernelVirtualAddress),
    ← expect (vm.getPhysicalAddress initramfsVirtualBase)⟩

variable {η : Type}

/-- Files are read as a whole, each to its address. -/
def readFiles (fs : Fat32) (pages : Pages η) (fuel : ℕ) :
    List (FileInfo × ℕ) → Machine η → Except Stop Unit × Machine η
  | [], m => (.ok (), m)
  | (file, address) :: files, m =>
    match fs.read pages fuel file address 0 file.fileSize m with
    | (.error .err, m) => (.error (.panic .unwrapNone), m)
    | (.error stop, m) => (.error stop, m)
    | (.ok _, m) => readFiles fs pages fuel files m

/-- The entry of the kernel and the address of the device tree. -/
def enter (h : KernelHeader) (kernelVirtualAddress : ℕ) : Except Panic (ℕ × ℕ) := do
  refuse (h.magic ≠ SetupMemory.linuxMagic)
  return (← Checked.add 64 kernelVirtualAddress h.effectiveTextOffset, ramVirtualBase)

/-- `create_vm`, from the search for the kernel on. -/
def createVm (fs : Fat32) (rootDirectoryList : ℕ) (pages : Pages η) (fuel : ℕ) (vm : VM)
    (m : Machine η) : Except Stop (ℕ × ℕ) × Machine η :=
  match fs.searchFile m.mem rootDirectoryList "IMAGE", fs.searchFile m.mem rootDirectoryList "DTB",
    fs.searchFile m.mem rootDirectoryList "ROOTFS" with
  | some kernel, some dtb, some initramfs =>
    match place vm kernel.fileSize dtb.fileSize initramfs.fileSize with
    | .error p => (.error (.panic p), m)
    | .ok placement =>
      match readFiles fs pages fuel [(dtb, vm.ramPhysicalBaseAddress),
          (kernel, placement.kernelPhysicalAddress),
          (initramfs, placement.initramfsPhysicalAddress)] m with
      | (.error stop, m) => (.error stop, m)
      | (.ok (), m) =>
        let header := KernelHeader.load m.mem placement.kernelPhysicalAddress
        (liftM (enter header placement.kernelVirtualAddress), m)
  | _, _, _ => (.error (.panic .unwrapNone), m)

/-- The end of the device tree, rounded up. -/
def kernelBase (dtbSize : ℕ) : ℕ :=
  ramVirtualBase + (dtbSize + (alignSize - 1)) / alignSize * alignSize

theorem expect_eq_ok {α : Type} {x : Option α} {a : α} : expect x = .ok a ↔ x = some a := by
  cases x <;> simp [expect]

theorem refuse_eq_ok {p : Prop} [Decidable p] {u : Unit} : refuse p = .ok u ↔ ¬ p := by
  unfold refuse
  split_ifs with h <;> simp [h]

theorem checkedAdd_eq_some {w a b c : ℕ} :
    Checked.checkedAdd w a b = some c ↔ a + b < 2 ^ w ∧ a + b = c := by
  unfold Checked.checkedAdd
  split_ifs with h <;> simp [h]

theorem kernelVirtualAddress_ok {dtbSize a : ℕ} (h : kernelVirtualAddress dtbSize = .ok a) :
    a = kernelBase dtbSize := by
  simp only [kernelVirtualAddress, Checked.bind_eq_ok, Checked.add_eq_ok, Checked.sub_eq_ok] at h
  obtain ⟨sum, ⟨-, rfl⟩, last, ⟨-, rfl⟩, -, rfl⟩ := h
  unfold kernelBase ramVirtualBase alignSize
  omega

/-- Where accepted sizes put the kernel. -/
structure Placed (vm : VM) (dtbSize : ℕ) (p : Placement) : Prop where
  kernel : p.kernelVirtualAddress = kernelBase dtbSize
  physical : vm.getPhysicalAddress (kernelBase dtbSize) = some p.kernelPhysicalAddress
  tree : ramVirtualBase + dtbSize ≤ initramfsVirtualBase

theorem place_ok {vm : VM} {kernelSize dtbSize initramfsSize : ℕ} {p : Placement}
    (h : place vm kernelSize dtbSize initramfsSize = .ok p) : Placed vm dtbSize p := by
  simp only [place, checkPlacement, Checked.bind_eq_ok, Checked.pure_eq_ok, Except.ok.injEq,
    expect_eq_ok, refuse_eq_ok, checkedAdd_eq_some] at h
  obtain ⟨kernel, hkernel, _, ⟨_, -, dtbEnd, ⟨-, rfl⟩, _, -, initramfsEnd, ⟨-, rfl⟩, _, -, _, -, _, -,
    _, -, _, hapart, -⟩, physical, hphysical, _, -, rfl⟩ := h
  obtain rfl := kernelVirtualAddress_ok hkernel
  refine ⟨rfl, hphysical, ?_⟩
  unfold ramVirtualBase initramfsVirtualBase at *
  omega

theorem enter_ok {h : KernelHeader} {kernelVirtualAddress entry dtb : ℕ}
    (henter : enter h kernelVirtualAddress = .ok (entry, dtb)) :
    entry = kernelVirtualAddress + h.effectiveTextOffset ∧ dtb = ramVirtualBase := by
  simp only [enter, Checked.bind_eq_ok, Checked.add_eq_ok, Checked.pure_eq_ok, Except.ok.injEq,
    Prod.mk.injEq] at henter
  obtain ⟨-, -, _, ⟨-, rfl⟩, rfl, rfl⟩ := henter
  exact ⟨rfl, rfl⟩

/-- The image has no text offset, and its size is known and fits below the initramfs. -/
structure Fits (h : KernelHeader) (dtbSize initramfsSize : ℕ) : Prop where
  textOffset : h.textOffset = 0
  sized : h.imageSize ≠ 0
  ram : kernelBase dtbSize + h.imageSize ≤ ramVirtualBase + ramSize
  initramfs : initramfsSize = 0 ∨ kernelBase dtbSize + h.imageSize ≤ initramfsVirtualBase

/-- The device tree and the initramfs in the memory of the guest. -/
def others (dtbSize initramfsSize : ℕ) : List Extent :=
  [⟨ramVirtualBase, dtbSize⟩, ⟨initramfsVirtualBase, initramfsSize⟩]

theorem kernelBase_bounds (dtbSize : ℕ) (h : ramVirtualBase + dtbSize ≤ initramfsVirtualBase) :
    ramVirtualBase + dtbSize ≤ kernelBase dtbSize ∧ kernelBase dtbSize ≤ initramfsVirtualBase ∧
      kernelBase dtbSize % alignSize = 0 := by
  unfold kernelBase
  unfold ramVirtualBase initramfsVirtualBase alignSize at *
  omega

/-- An image without a text offset whose size is known and fits is entered as the protocol
wants, and no other. -/
theorem Placed.obeys_iff {vm : VM} {ramPhysicalAddress : ℕ}
    (hvm : vm = ⟨ramVirtualBase, ramPhysicalAddress, ramSize⟩) {dtbSize : ℕ} {p : Placement}
    (hp : Placed vm dtbSize p) (h : KernelHeader) (initramfsSize : ℕ) :
    Obeys vm h p.kernelPhysicalAddress (p.kernelVirtualAddress + h.effectiveTextOffset)
      (others dtbSize initramfsSize) ↔ Fits h dtbSize initramfsSize := by
  obtain ⟨hkernel, hphysical, htree⟩ := hp
  obtain ⟨hlow, hhigh, hmod⟩ := kernelBase_bounds dtbSize htree
  have hend : vm.ramVirtualBaseAddress + vm.ramSize = ramVirtualBase + ramSize := by rw [hvm]
  have hstart : vm.ramVirtualBaseAddress = ramVirtualBase := by rw [hvm]
  rw [hkernel]
  constructor
  · rintro ⟨hfirst, haligned, hram, hapart⟩
    -- only the first byte of the image has its address
    have hzero : h.effectiveTextOffset = 0 := by
      have heq := getPhysicalAddress_inj hfirst hphysical
      omega
    have hsized : h.imageSize ≠ 0 := by
      intro hsize
      rw [KernelHeader.effectiveTextOffset, if_pos hsize] at hzero
      cases hzero
    rw [hzero, Nat.add_zero] at hram hapart
    refine ⟨?_, hsized, ?_, ?_⟩
    · rwa [KernelHeader.effectiveTextOffset, if_neg hsized] at hzero
    · rw [← hend]
      exact (hram hsized).2
    · have hdisjoint := Set.disjoint_left.mp
        (hapart hsized _ (List.mem_cons_of_mem _ List.mem_cons_self))
      by_contra hneither
      push Not at hneither
      refine hdisjoint (a := initramfsVirtualBase) ?_ ?_
      · exact ⟨hhigh, hneither.2⟩
      · exact ⟨le_rfl, Nat.lt_add_of_pos_right (Nat.pos_of_ne_zero hneither.1)⟩
  · rintro ⟨hoffset, hsized, hram, hinitramfs⟩
    have hzero : h.effectiveTextOffset = 0 := by
      rw [KernelHeader.effectiveTextOffset, if_neg hsized, hoffset]
    rw [hzero, Nat.add_zero]
    refine ⟨hphysical, ?_, fun _ => ⟨?_, ?_⟩, fun _ e he => ?_⟩
    · rw [hzero]
      exact hmod
    · rw [hstart]
      exact (Nat.le_add_right _ _).trans hlow
    · rw [hend]
      exact hram
    · rw [Set.disjoint_left]
      intro x hx
      obtain rfl | rfl :
          e = ⟨ramVirtualBase, dtbSize⟩ ∨ e = ⟨initramfsVirtualBase, initramfsSize⟩ := by
        simpa [others] using he
      · simp only [Extent.addresses, Extent.stop, Set.mem_Ico] at hx ⊢
        omega
      · simp only [Extent.addresses, Extent.stop, Set.mem_Ico] at hx ⊢
        omega

theorem createVm_ok {fs : Fat32} {rootDirectoryList : ℕ} {pages : Pages η} {fuel : ℕ} {vm : VM}
    {m m' : Machine η} {entry dtbAddress : ℕ}
    (h : createVm fs rootDirectoryList pages fuel vm m = (.ok (entry, dtbAddress), m')) :
    ∃ kernel dtb initramfs p,
      fs.searchFile m.mem rootDirectoryList "IMAGE" = some kernel ∧
      fs.searchFile m.mem rootDirectoryList "DTB" = some dtb ∧
      fs.searchFile m.mem rootDirectoryList "ROOTFS" = some initramfs ∧
      place vm kernel.fileSize dtb.fileSize initramfs.fileSize = .ok p ∧
      entry = p.kernelVirtualAddress +
        (KernelHeader.load m'.mem p.kernelPhysicalAddress).effectiveTextOffset ∧
      dtbAddress = ramVirtualBase := by
  unfold createVm at h
  split at h
  · rename_i kernel dtb initramfs hkernel hdtb hinitramfs
    split at h
    · cases h
    · rename_i p hplace
      split at h
      · cases h
      · rename_i m₁ _
        dsimp only at h
        obtain ⟨henter, rfl⟩ := Prod.mk.inj h
        cases hresult : enter (KernelHeader.load m₁.mem p.kernelPhysicalAddress)
            p.kernelVirtualAddress with
        | error e => rw [hresult] at henter; cases henter
        | ok result =>
          rw [hresult] at henter
          obtain rfl := Except.ok.inj henter
          obtain ⟨hentry, htree⟩ := enter_ok hresult
          exact ⟨kernel, dtb, initramfs, p, hkernel, hdtb, hinitramfs, hplace, hentry, htree⟩
  · cases h

theorem createVm_obeys_iff {fs : Fat32} {rootDirectoryList : ℕ} {pages : Pages η}
    {fuel ramPhysicalAddress : ℕ} {vm : VM} (hvm : vm = ⟨ramVirtualBase, ramPhysicalAddress, ramSize⟩)
    {m m' : Machine η} {kernel dtb initramfs : FileInfo} {p : Placement} {entry dtbAddress : ℕ}
    (hkernel : fs.searchFile m.mem rootDirectoryList "IMAGE" = some kernel)
    (hdtb : fs.searchFile m.mem rootDirectoryList "DTB" = some dtb)
    (hinitramfs : fs.searchFile m.mem rootDirectoryList "ROOTFS" = some initramfs)
    (hplace : place vm kernel.fileSize dtb.fileSize initramfs.fileSize = .ok p)
    (hrun : createVm fs rootDirectoryList pages fuel vm m = (.ok (entry, dtbAddress), m')) :
    Obeys vm (KernelHeader.load m'.mem p.kernelPhysicalAddress) p.kernelPhysicalAddress entry
        [⟨dtbAddress, dtb.fileSize⟩, ⟨initramfsVirtualBase, initramfs.fileSize⟩] ↔
      Fits (KernelHeader.load m'.mem p.kernelPhysicalAddress) dtb.fileSize initramfs.fileSize := by
  obtain ⟨kernel', dtb', initramfs', p', hkernel', hdtb', hinitramfs', hplace', hentry, htree⟩ :=
    createVm_ok hrun
  rw [hkernel, Option.some.injEq] at hkernel'
  rw [hdtb, Option.some.injEq] at hdtb'
  rw [hinitramfs, Option.some.injEq] at hinitramfs'
  rw [← hkernel', ← hdtb', ← hinitramfs', hplace, Except.ok.injEq] at hplace'
  rw [hentry, htree, ← hplace']
  exact (place_ok hplace).obeys_iff hvm _ initramfs.fileSize

end QemuVirt

/-! ## Raspberry Pi -/

namespace Rpi4

def guestRamBase : ℕ := 0x40000000

def vm : VM := ⟨guestRamBase, SetupMemory.hostRamBase, SetupMemory.ramSize⟩

/-- `create_vm`: the entry of the image and the address of the device tree. -/
def createVm (mem : Mapped) (linuxImageAddress dtbAddress dtbSize : ℕ) :
    Except Dtb.Stop (ℕ × ℕ) := do
  SetupMemory.createVmChecks mem linuxImageAddress dtbAddress dtbSize
  let image ← Dtb.checked (Checked.sub linuxImageAddress SetupMemory.hostRamBase)
  let dtb ← Dtb.checked (Checked.sub dtbAddress SetupMemory.hostRamBase)
  return (← Dtb.checked (Checked.add 64 guestRamBase image),
    ← Dtb.checked (Checked.add 64 guestRamBase dtb))

/-- What an accepted image has passed. -/
structure Accepted (h : KernelHeader) (linuxImageAddress dtbAddress dtbSize entry dtb : ℕ) :
    Prop where
  image : 0x10000000 ≤ linuxImageAddress ∧ linuxImageAddress < 0x20000000
  tree : 0x10000000 ≤ dtbAddress ∧ dtbAddress + dtbSize ≤ 0x20000000
  base : h.textOffset ≤ linuxImageAddress ∧ (linuxImageAddress - h.textOffset) % alignSize = 0
  size : h.imageSize ≠ 0 → linuxImageAddress + h.imageSize ≤ 0x20000000 ∧
    (linuxImageAddress + h.imageSize ≤ dtbAddress ∨ dtbAddress + dtbSize ≤ linuxImageAddress)
  entry : entry = 0x30000000 + linuxImageAddress
  dtb : dtb = 0x30000000 + dtbAddress

theorem createVm_ok {mem : Mapped} {h : KernelHeader}
    {linuxImageAddress dtbAddress dtbSize entry dtb : ℕ}
    (hheader : KernelHeader.read mem linuxImageAddress = .ok h)
    (haccept : createVm mem linuxImageAddress dtbAddress dtbSize = .ok (entry, dtb)) :
    Accepted h linuxImageAddress dtbAddress dtbSize entry dtb := by
  simp only [KernelHeader.read, Checked.bind_eq_ok, Checked.pure_eq_ok, Except.ok.injEq] at hheader
  obtain ⟨textOffset, hoffset, imageSize, hsize, magic, -, rfl⟩ := hheader
  simp only [createVm, SetupMemory.createVmChecks, hoffset, hsize, Checked.bind_eq_ok,
    SetupMemory.checked_eq_ok, SetupMemory.ensure_eq_ok, Checked.add_eq_ok, Checked.sub_eq_ok,
    Checked.pure_eq_ok, Except.ok.injEq, Prod.mk.injEq, Checked.ok_bind] at haccept
  obtain ⟨u, ⟨_, himage, dtbEnd, ⟨-, rfl⟩, _, htree, _, -, _, -, imageBase, ⟨hoffset, rfl⟩, _, hmask,
    hchecks⟩, image, ⟨-, rfl⟩, dtbOffset, ⟨-, rfl⟩, _, ⟨-, rfl⟩, _, ⟨-, rfl⟩, rfl, rfl⟩ := haccept
  have hstop : SetupMemory.guestRam.stop = 0x20000000 := rfl
  have hbase : SetupMemory.hostRamBase = 0x10000000 := rfl
  have hguest : guestRamBase = 0x40000000 := rfl
  rw [hstop, hbase] at himage htree
  rw [show SetupMemory.linuxImageAlignment - 1 = 2 ^ 21 - 1 from rfl,
    Nat.and_two_pow_sub_one_eq_mod] at hmask
  rw [hbase, hguest]
  refine ⟨himage, htree, ⟨hoffset, hmask⟩, fun hne => ?_, by omega, by omega⟩
  rw [if_pos hne] at hchecks
  simp only [Checked.bind_eq_ok, SetupMemory.checked_eq_ok, SetupMemory.ensure_eq_ok,
    Checked.add_eq_ok] at hchecks
  obtain ⟨_, ⟨-, rfl⟩, _, hend, hapart⟩ := hchecks
  exact ⟨hend, hapart⟩

theorem vm_getPhysicalAddress {x : ℕ} (hlow : 0x40000000 ≤ x) (hhigh : x < 0x50000000) :
    vm.getPhysicalAddress x = some (x - 0x30000000) := by
  have hin : 0x40000000 ≤ x ∧ x < 0x40000000 + 0x10000000 := ⟨hlow, hhigh⟩
  refine (if_pos hin).trans (congrArg some ?_)
  change x - 0x40000000 + 0x10000000 = x - 0x30000000
  omega

/-- An image with a size is entered as the protocol wants, an old one if it is placed as if it had
the text offset of an old one. -/
theorem Accepted.obeys_iff {h : KernelHeader} {linuxImageAddress dtbAddress dtbSize entry dtb : ℕ}
    (ha : Accepted h linuxImageAddress dtbAddress dtbSize entry dtb) :
    Obeys vm h linuxImageAddress entry [⟨dtb, dtbSize⟩] ↔
      (h.imageSize ≠ 0 ∨ h.textOffset % alignSize = 0x80000) := by
  obtain ⟨himage, htree, ⟨hoffset, hbase⟩, hsize, hentry, hdtb⟩ := ha
  have hfirst : vm.getPhysicalAddress entry = some linuxImageAddress := by
    rw [vm_getPhysicalAddress (by omega) (by omega), hentry, Nat.add_sub_cancel_left]
  have haligned : entry ≡ h.effectiveTextOffset [MOD alignSize] ↔
      (h.imageSize ≠ 0 ∨ h.textOffset % alignSize = 0x80000) := by
    unfold KernelHeader.effectiveTextOffset Nat.ModEq
    unfold alignSize at *
    split_ifs <;> omega
  rw [← haligned]
  refine ⟨Obeys.aligned, fun h => ⟨hfirst, h, fun hne => ?_, fun hne e he => ?_⟩⟩
  · have hend := (hsize hne).1
    simp only [Extent.Within, Extent.stop, vm, guestRamBase, SetupMemory.ramSize]
    omega
  · obtain rfl := List.mem_singleton.mp he
    have happart := (hsize hne).2
    rw [Set.disjoint_left]
    simp only [Extent.addresses, Extent.stop, Set.mem_Ico]
    omega

end Rpi4

/-- On both boards the guest starts as the protocol of its image wants exactly under a condition
on the header and the sizes of the files. -/
theorem boards_obey_iff {η : Type} (fs : Fat32) (rootDirectoryList : ℕ) (pages : Pages η)
    (fuel ramPhysicalAddress : ℕ) (m m' : Machine η) (kernel dtb initramfs : FileInfo)
    (p : QemuVirt.Placement) (entry dtbAddress : ℕ) (mem : Mapped) (header : KernelHeader)
    (linuxImageAddress rpi4DtbAddress dtbSize rpi4Entry guestDtbAddress : ℕ) :
    (let vm : VM := ⟨ramVirtualBase, ramPhysicalAddress, ramSize⟩
      let header := KernelHeader.load m'.mem p.kernelPhysicalAddress
      fs.searchFile m.mem rootDirectoryList "IMAGE" = some kernel →
      fs.searchFile m.mem rootDirectoryList "DTB" = some dtb →
      fs.searchFile m.mem rootDirectoryList "ROOTFS" = some initramfs →
      QemuVirt.place vm kernel.fileSize dtb.fileSize initramfs.fileSize = .ok p →
      QemuVirt.createVm fs rootDirectoryList pages fuel vm m = (.ok (entry, dtbAddress), m') →
        (Obeys vm header p.kernelPhysicalAddress entry
            [⟨dtbAddress, dtb.fileSize⟩, ⟨QemuVirt.initramfsVirtualBase, initramfs.fileSize⟩] ↔
          QemuVirt.Fits header dtb.fileSize initramfs.fileSize)) ∧
    (KernelHeader.read mem linuxImageAddress = .ok header →
      Rpi4.createVm mem linuxImageAddress rpi4DtbAddress dtbSize =
        .ok (rpi4Entry, guestDtbAddress) →
        (Obeys Rpi4.vm header linuxImageAddress rpi4Entry [⟨guestDtbAddress, dtbSize⟩] ↔
          (header.imageSize ≠ 0 ∨ header.textOffset % alignSize = 0x80000))) := by
  constructor
  · intro vm header hkernel hdtb hinitramfs hplace hrun
    exact QemuVirt.createVm_obeys_iff rfl hkernel hdtb hinitramfs hplace hrun
  · intro hheader hrun
    exact (Rpi4.createVm_ok hheader hrun).obeys_iff

/-! ## A kernel on both boards -/

/-- The header of an image. -/
def imageBytes (textOffset imageSize : ℕ) : List UInt8 :=
  SetupMemory.le 8 0 ++ SetupMemory.le 8 textOffset ++ SetupMemory.le 8 imageSize ++
    SetupMemory.le 32 0 ++ SetupMemory.le 4 SetupMemory.linuxMagic ++ SetupMemory.le 4 0

/-- A directory entry of a file of one sector. -/
def entryBytes (name : List UInt8) (cluster : ℕ) : List UInt8 :=
  name ++ [0x20] ++ SetupMemory.le 14 0 ++ SetupMemory.le 2 cluster ++ SetupMemory.le 4 512

/-- The directory of the three files. -/
def rootBytes : List UInt8 :=
  entryBytes [0x49, 0x4D, 0x41, 0x47, 0x45, 0x20, 0x20, 0x20, 0x20, 0x20, 0x20] 2 ++
    entryBytes [0x44, 0x54, 0x42, 0x20, 0x20, 0x20, 0x20, 0x20, 0x20, 0x20, 0x20] 3 ++
    entryBytes [0x52, 0x4F, 0x4F, 0x54, 0x46, 0x53, 0x20, 0x20, 0x20, 0x20, 0x20] 4

def bootVolume : Fat32 := ⟨0, 512, 512, 1, 1, 1, 1, fun _ => 0x0FFFFFFF⟩

def bootPages : Pages Unit := ⟨fun _ _ _ => .ok (none, ()), fun _ _ _ => .ok ()⟩

def bootMem : Bytes := fun a => rootBytes.getD (a - 0x1000) 0

/-- The directory is in memory, the kernel in the first cluster of the disk. -/
def bootMachine (textOffset imageSize : ℕ) : Machine Unit where
  mem := bootMem
  heap := ()
  blk := ⟨fun a => (imageBytes textOffset imageSize).getD (a - 1024) 0, fun _ length => length⟩

def bootVm : VM := ⟨ramVirtualBase, 0x80000000, ramSize⟩

def bootRun (textOffset imageSize : ℕ) : Except Stop (ℕ × ℕ) × Machine Unit :=
  QemuVirt.createVm bootVolume 0x1000 bootPages 2 bootVm (bootMachine textOffset imageSize)

theorem bootMachine_files (textOffset imageSize : ℕ) :
    bootVolume.searchFile (bootMachine textOffset imageSize).mem 0x1000 "IMAGE" = some ⟨2, 512⟩ ∧
      bootVolume.searchFile (bootMachine textOffset imageSize).mem 0x1000 "DTB" = some ⟨3, 512⟩ ∧
      bootVolume.searchFile (bootMachine textOffset imageSize).mem 0x1000 "ROOTFS" =
        some ⟨4, 512⟩ := by
  simp only [bootMachine]
  decide +kernel

theorem bootVm_place : QemuVirt.place bootVm 512 512 512 =
    .ok ⟨0x40200000, 0x80200000, 0x88000000⟩ := rfl

/-- The memory behind the guest's RAM on the Raspberry Pi, with an image at its start. -/
def imageMem (textOffset imageSize : ℕ) : Mapped :=
  Mapped.ofBytes 0x10000000 (imageBytes textOffset imageSize)

/-- An image of 16 MiB without a text offset. -/
theorem boards_obey_iff_sized :
    Obeys bootVm ⟨0, 0x1000000, SetupMemory.linuxMagic⟩ 0x80200000 0x40200000
        [⟨0x40000000, 512⟩, ⟨0x48000000, 512⟩] ∧
      Obeys Rpi4.vm ⟨0, 0x1000000, SetupMemory.linuxMagic⟩ 0x10000000 0x40000000
        [⟨0x48000000, 512⟩] := by
  obtain ⟨hkernel, hdtb, hinitramfs⟩ := bootMachine_files 0 0x1000000
  have hrun : bootRun 0 0x1000000 = (.ok (0x40200000, 0x40000000), (bootRun 0 0x1000000).2) :=
    Prod.ext (by decide +kernel) rfl
  have hheader : KernelHeader.load (bootRun 0 0x1000000).2.mem 0x80200000 =
      ⟨0, 0x1000000, SetupMemory.linuxMagic⟩ := by decide +kernel
  obtain ⟨hqemu, hrpi⟩ := boards_obey_iff bootVolume 0x1000 bootPages 2 0x80000000
    (bootMachine 0 0x1000000) (bootRun 0 0x1000000).2 ⟨2, 512⟩ ⟨3, 512⟩ ⟨4, 512⟩
    ⟨0x40200000, 0x80200000, 0x88000000⟩ 0x40200000 0x40000000 (imageMem 0 0x1000000)
    ⟨0, 0x1000000, SetupMemory.linuxMagic⟩ 0x10000000 0x18000000 512 0x40000000 0x48000000
  replace hqemu := hqemu hkernel hdtb hinitramfs bootVm_place hrun
  replace hrpi := hrpi (by decide +kernel) (by decide +kernel)
  rw [hheader] at hqemu
  refine ⟨hqemu.mpr ⟨rfl, by decide, by decide, .inr (by decide)⟩, hrpi.mpr (.inl (by decide))⟩

/-- With the text offset of older images the guest starts behind the first byte on QEMU; an image
without a size is refused the offset it is meant to have on the Raspberry Pi. -/
theorem text_offset_entered :
    (bootRun 0x80000 0x1000000).1 = .ok (0x40280000, 0x40000000) ∧
      KernelHeader.load (bootRun 0x80000 0x1000000).2.mem 0x80200000 =
        ⟨0x80000, 0x1000000, SetupMemory.linuxMagic⟩ ∧
      ¬ Obeys bootVm ⟨0x80000, 0x1000000, SetupMemory.linuxMagic⟩ 0x80200000 0x40280000
        [⟨0x40000000, 512⟩, ⟨0x48000000, 512⟩] ∧
      KernelHeader.read (imageMem 0 0) 0x10000000 = .ok ⟨0, 0, SetupMemory.linuxMagic⟩ ∧
      Rpi4.createVm (imageMem 0 0) 0x10000000 0x18000000 512 = .ok (0x40000000, 0x48000000) ∧
      ¬ Obeys Rpi4.vm ⟨0, 0, SetupMemory.linuxMagic⟩ 0x10000000 0x40000000 [⟨0x48000000, 512⟩] := by
  refine ⟨by decide +kernel, by decide +kernel, fun h => ?_, by decide +kernel, by decide +kernel,
    fun h => ?_⟩
  · exact absurd h.first (by decide)
  · have haligned := h.aligned
    norm_num [KernelHeader.effectiveTextOffset, Nat.ModEq, alignSize] at haligned

end Min1visor.Boot
