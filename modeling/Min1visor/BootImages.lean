import Min1visor.Boot
import Min1visor.FatStore

/-!
# The images in the guest's memory

`create_vm` reads the device tree, the kernel and the initramfs one after another, each in
whole sectors, so that a read overwrites the memory behind its file. The next file lies
there or above and is read later: in the end all three are in the memory of the guest as
they are on the disk, and the header that decides about the entry is the one of the file.
-/
namespace Min1visor.Boot
open Fat Fat.Fat32 Vm

variable {ι η : Type}

/-- A number among bytes that are the same at another place. -/
theorem load_shift {mem mem' : Bytes} {a b n : ℕ} (h : ∀ k, k < n → mem (a + k) = mem' (b + k)) :
    Bytes.load mem a n = Bytes.load mem' b n := by
  induction n generalizing a b with
  | zero => rfl
  | succ n ih =>
    have hfirst := h 0 (Nat.succ_pos n)
    rw [Nat.add_zero, Nat.add_zero] at hfirst
    rw [Bytes.load, Bytes.load, hfirst, ih fun k hk => ?_]
    rw [Nat.add_assoc, Nat.add_assoc, Nat.add_comm 1 k]
    exact h (k + 1) (by omega)

/-! ## Files read one after another -/

/-- The memory after files were read, each to its address and in whole sectors. -/
def loads (v : Store ι) (disk : Bytes) : List (ι × ℕ) → Bytes → Bytes
  | [], mem => mem
  | (f, a) :: files, mem => loads v disk files
      (Bytes.copy mem disk a (v.placement.place f 0) (v.fs.moved (v.file f).fileSize))

theorem loads_below {v : Store ι} {disk : Bytes} {files : List (ι × ℕ)} {x : ℕ}
    (h : ∀ p ∈ files, x < p.2) (mem : Bytes) : loads v disk files mem x = mem x := by
  induction files generalizing mem with
  | nil => rfl
  | cons p files ih =>
    rw [List.forall_mem_cons] at h
    rw [loads, ih h.2, Bytes.copy_outside]
    omega

/-- Memory outside of the sectors that are read stays. -/
theorem loads_outside {v : Store ι} {disk : Bytes} {files : List (ι × ℕ)} {x : ℕ}
    (h : ∀ p ∈ files, ¬ (p.2 ≤ x ∧ x < p.2 + v.fs.moved (v.file p.1).fileSize)) (mem : Bytes) :
    loads v disk files mem x = mem x := by
  induction files generalizing mem with
  | nil => rfl
  | cons p files ih =>
    rw [List.forall_mem_cons] at h
    rw [loads, ih h.2, Bytes.copy_outside _ _ _ h.1]

/-- A file in consecutive clusters is read in order. -/
theorem place_add (v : Store ι) (f : ι) {k : ℕ} (hk : k < (v.file f).fileSize) :
    v.placement.place f k = v.placement.place f 0 + k := by
  have hcount : k < count (v.file f) 0 (v.file f).fileSize := by
    unfold count
    omega
  have hadd := (v.holds f).location_add (v.contiguous f) hcount
  rw [Nat.zero_add] at hadd
  exact hadd

/-- Files that are read to ascending addresses are all complete in the end. -/
theorem loads_image {v : Store ι} {disk : Bytes} {files : List (ι × ℕ)}
    (hmoved : ∀ p ∈ files, (v.file p.1).fileSize ≤ v.fs.moved (v.file p.1).fileSize)
    (hascending : files.Pairwise fun p q => p.2 + (v.file p.1).fileSize ≤ q.2) (mem : Bytes) :
    ∀ p ∈ files, ∀ k, k < (v.file p.1).fileSize →
      loads v disk files mem (p.2 + k) = disk (v.placement.place p.1 k) := by
  induction files generalizing mem with
  | nil => simp
  | cons p files ih =>
    obtain ⟨hfirst, hrest⟩ := List.pairwise_cons.mp hascending
    rw [List.forall_mem_cons] at hmoved ⊢
    refine ⟨fun k hk => ?_, ih hmoved.2 hrest _⟩
    have hlater : ∀ q ∈ files, p.2 + k < q.2 := by
      intro q hq
      have := hfirst q hq
      omega
    rw [loads, loads_below hlater, Bytes.copy_inside _ _ _ _ (hk.trans_le hmoved.1),
      place_add v p.1 hk]

/-- The whole of a small file is moved. -/
theorem le_moved {v : Store ι} {f : ι} (hpos : 0 < (v.file f).fileSize)
    (hlt : (v.file f).fileSize < 2 ^ 31) :
    (v.file f).fileSize ≤ v.fs.moved (v.file f).fileSize := by
  have hvolume := (v.holds f).volume
  have hle := le_sectors hvolume.sectorPos (v.file f).fileSize
  have hround := v.fs.sectors_lt hpos
  have hsector := hvolume.sectorLt
  rwa [moved, Nat.mod_eq_of_lt (by omega)]

/-- The loop over the files of a store. -/
theorem readFiles_store (v : Store ι) (pages : Pages η) {fuel : ℕ} (hfuel : 0 < fuel)
    {files : List (ι × ℕ)} (hfiles : ∀ p ∈ files, 0 < (v.file p.1).fileSize ∧ p.2 < 2 ^ 64)
    {m : Machine η} (hblk : m.blk.Completes) :
    QemuVirt.readFiles v.fs pages fuel (files.map fun p => (v.file p.1, p.2)) m =
      (.ok (), { m with mem := loads v m.blk.disk files m.mem }) := by
  obtain ⟨fuel, rfl⟩ : ∃ n, fuel = n + 1 := ⟨fuel - 1, by omega⟩
  induction files generalizing m with
  | nil => rfl
  | cons p files ih =>
    obtain ⟨f, a⟩ := p
    rw [List.forall_mem_cons] at hfiles
    obtain ⟨⟨hpos, haddress⟩, hrest⟩ := hfiles
    have hsize := (v.holds f).size
    have hcount : count (v.file f) 0 (v.file f).fileSize = (v.file f).fileSize := by
      unfold count
      omega
    have hresidue : v.fs.residue (0 % v.fs.bytesPerCluster) = 0 := by
      rw [Nat.zero_mod]
      simp [residue]
    have hsum : 0 + (v.file f).fileSize < 2 ^ 64 := by omega
    have hread : v.fs.read pages (fuel + 1) (v.file f) a 0 (v.file f).fileSize m = _ :=
      (v.holds f).read_contiguous (v.contiguous f) hsum (by rwa [hcount]) hresidue haddress pages
        hblk
    rw [hcount] at hread
    rw [List.map_cons, QemuVirt.readFiles, hread]
    exact ih hrest hblk

/-! ## The three files -/

inductive Image
  | tree
  | kernel
  | initramfs
  deriving DecidableEq

namespace Image

def name : Image → String
  | tree => "DTB"
  | kernel => "IMAGE"
  | initramfs => "ROOTFS"

/-- Where an image goes in the memory of the host. -/
def address (vm : VM) (p : QemuVirt.Placement) : Image → ℕ
  | tree => vm.ramPhysicalBaseAddress
  | kernel => p.kernelPhysicalAddress
  | initramfs => p.initramfsPhysicalAddress

/-- The images in the order they are read. -/
def all (vm : VM) (p : QemuVirt.Placement) : List (Image × ℕ) :=
  [tree, kernel, initramfs].map fun i => (i, i.address vm p)

end Image

namespace QemuVirt

/-- Accepted files lie one behind the other in the memory of the host. -/
theorem place_ascending {vm : VM} {ramPhysicalAddress : ℕ}
    (hvm : vm = ⟨ramVirtualBase, ramPhysicalAddress, ramSize⟩)
    {kernelSize dtbSize initramfsSize : ℕ} {p : Placement} (hinitramfs : 0 < initramfsSize)
    (h : place vm kernelSize dtbSize initramfsSize = .ok p) :
    ramPhysicalAddress + dtbSize ≤ p.kernelPhysicalAddress ∧
      p.kernelPhysicalAddress + kernelSize ≤ p.initramfsPhysicalAddress ∧
      p.initramfsPhysicalAddress + initramfsSize ≤ ramPhysicalAddress + ramSize := by
  simp only [place, checkPlacement, Checked.bind_eq_ok, Checked.pure_eq_ok, Except.ok.injEq,
    expect_eq_ok, refuse_eq_ok, checkedAdd_eq_some] at h
  obtain ⟨kernel, hkernel, _, ⟨ramEnd, ⟨-, rfl⟩, dtbEnd, ⟨-, rfl⟩, kernelEnd, ⟨-, rfl⟩, initramfsEnd,
    ⟨-, rfl⟩, _, hdtb, _, hkernelEnd, _, hend, _, -, _, htree, hapart⟩, physical, hphysical, _,
    hinitramfsPhysical, rfl⟩ := h
  obtain rfl := kernelVirtualAddress_ok hkernel
  have hlow : ramVirtualBase + dtbSize ≤ initramfsVirtualBase := by
    unfold ramVirtualBase initramfsVirtualBase at *
    omega
  obtain ⟨htreeEnd, hbelow, -⟩ := kernelBase_bounds dtbSize hlow
  have hstart : ∀ {x a}, vm.getPhysicalAddress x = some a → ramVirtualBase ≤ x ∧
      a = x - ramVirtualBase + ramPhysicalAddress := by
    intro x a ha
    rw [hvm, VM.getPhysicalAddress] at ha
    split_ifs at ha with hin
    exact ⟨hin.1, (Option.some.inj ha).symm⟩
  obtain ⟨hkernelLow, hkernelAddress⟩ := hstart hphysical
  obtain ⟨hinitramfsLow, hinitramfsAddress⟩ := hstart hinitramfsPhysical
  dsimp only
  omega

/-- A header depends on the first 60 bytes. -/
theorem load_header {mem image : Bytes} {a : ℕ} (h : ∀ k, k < 60 → mem (a + k) = image k) :
    KernelHeader.load mem a = KernelHeader.load image 0 := by
  have hload : ∀ i n, i + n ≤ 60 → Bytes.load mem (a + i) n = Bytes.load image (0 + i) n := by
    intro i n hi
    refine load_shift fun k hk => ?_
    rw [Nat.add_assoc, h _ (by omega), Nat.zero_add]
  rw [KernelHeader.load, KernelHeader.load, hload 8 8 (by decide), hload 16 8 (by decide),
    hload 56 4 (by decide)]

/-- If the three files are in consecutive clusters and their sizes are accepted, the result
is decided by the header in the kernel's file, every image is in memory as it is on the
disk, and nothing changes but the sectors that hold the images. -/
theorem createVm_loads (v : Store Image) (rootDirectoryList : ℕ) (pages : Pages η) (fuel : ℕ)
    (hfuel : 0 < fuel) (ramPhysicalAddress : ℕ) (hram : ramPhysicalAddress + ramSize ≤ 2 ^ 64)
    (m : Machine η) (hblk : m.blk.Completes)
    (hfound : ∀ i : Image, v.fs.searchFile m.mem rootDirectoryList i.name = some (v.file i))
    (hpositive : ∀ i : Image, 0 < (v.file i).fileSize) (hkernel : 60 ≤ (v.file .kernel).fileSize)
    (p : Placement)
    (hplace : place ⟨ramVirtualBase, ramPhysicalAddress, ramSize⟩ (v.file .kernel).fileSize
      (v.file .tree).fileSize (v.file .initramfs).fileSize = .ok p) :
    let vm : VM := ⟨ramVirtualBase, ramPhysicalAddress, ramSize⟩
    let run := createVm v.fs rootDirectoryList pages fuel vm m
    let file (i : Image) (k : ℕ) := m.blk.disk (v.placement.place i k)
    run.1 = liftM (enter (KernelHeader.load (file .kernel) 0) p.kernelVirtualAddress) ∧
      (∀ i k, k < (v.file i).fileSize → run.2.mem (i.address vm p + k) = file i k) ∧
      (∀ x, (∀ i : Image, ¬ (i.address vm p ≤ x ∧
        x < i.address vm p + v.fs.moved (v.file i).fileSize)) → run.2.mem x = m.mem x) ∧
      run.2.blk = m.blk ∧ run.2.heap = m.heap := by
  intro vm run file
  obtain ⟨htree, hkernelEnd, hend⟩ := @place_ascending vm ramPhysicalAddress rfl _ _ _ p
    (hpositive .initramfs) hplace
  have hbase : vm.ramPhysicalBaseAddress = ramPhysicalAddress := rfl
  have hinitramfs := hpositive .initramfs
  have hsmall : ∀ i : Image, (v.file i).fileSize < 2 ^ 31 := by
    have hsize : ramSize = 2 ^ 28 := rfl
    intro i
    cases i <;> omega
  have hmoved : ∀ q ∈ Image.all vm p,
      (v.file q.1).fileSize ≤ v.fs.moved (v.file q.1).fileSize := fun q _ =>
    le_moved (hpositive q.1) (hsmall q.1)
  have hascending : (Image.all vm p).Pairwise fun q r => q.2 + (v.file q.1).fileSize ≤ r.2 := by
    simp only [Image.all, List.map_cons, List.map_nil, List.pairwise_cons, List.forall_mem_cons,
      List.not_mem_nil, false_implies, implies_true, and_true, List.Pairwise.nil, Image.address]
    omega
  have hfiles : ∀ q ∈ Image.all vm p, 0 < (v.file q.1).fileSize ∧ q.2 < 2 ^ 64 := by
    intro q hq
    refine ⟨hpositive q.1, ?_⟩
    simp only [Image.all, List.map_cons, List.map_nil, List.mem_cons, List.not_mem_nil,
      or_false] at hq
    rcases hq with rfl | rfl | rfl <;> simp only [Image.address] <;> omega
  have hread := readFiles_store v pages hfuel hfiles hblk
  -- What the three reads leave.
  have himages := @loads_image _ v m.blk.disk _ hmoved hascending m.mem
  have houtside := fun x h => @loads_outside _ v m.blk.disk (Image.all vm p) x h m.mem
  generalize hmem : loads v m.blk.disk (Image.all vm p) m.mem = mem at hread himages houtside
  have himage : ∀ i k, k < (v.file i).fileSize → mem (i.address vm p + k) = file i k := by
    intro i k hk
    refine himages (i, i.address vm p) ?_ k hk
    cases i <;> simp [Image.all]
  have hheader : KernelHeader.load mem p.kernelPhysicalAddress =
      KernelHeader.load (file .kernel) 0 :=
    load_header fun k hk => himage .kernel k (by omega)
  have hrun : run = (liftM (enter (KernelHeader.load (file .kernel) 0) p.kernelVirtualAddress),
      { m with mem := mem }) := by
    change createVm v.fs rootDirectoryList pages fuel vm m = _
    have hplace' : place vm (v.file .kernel).fileSize (v.file .tree).fileSize
      (v.file .initramfs).fileSize = .ok p := hplace
    have hread' : readFiles v.fs pages fuel [(v.file .tree, vm.ramPhysicalBaseAddress),
        (v.file .kernel, p.kernelPhysicalAddress),
        (v.file .initramfs, p.initramfsPhysicalAddress)] m = (.ok (), { m with mem := mem }) := hread
    rw [createVm, show v.fs.searchFile m.mem rootDirectoryList "IMAGE" = _ from hfound .kernel,
      show v.fs.searchFile m.mem rootDirectoryList "DTB" = _ from hfound .tree,
      show v.fs.searchFile m.mem rootDirectoryList "ROOTFS" = _ from hfound .initramfs]
    dsimp only
    rw [hplace']
    dsimp only
    rw [hread', ← hheader]
  rw [hrun]
  refine ⟨rfl, himage, fun x hx => houtside x fun q hq => ?_, rfl, rfl⟩
  simp only [Image.all, List.map_cons, List.map_nil, List.mem_cons, List.not_mem_nil,
    or_false] at hq
  rcases hq with rfl | rfl | rfl
  · exact hx .tree
  · exact hx .kernel
  · exact hx .initramfs

/-! ## A volume with the three files -/

def bootCluster : Image → ℕ
  | .kernel => 2
  | .tree => 3
  | .initramfs => 4

def bootStore : Store Image where
  fs := bootVolume
  file i := ⟨bootCluster i, 512⟩
  chain i := [bootCluster i]
  holds i :=
    { volume := by constructor <;> norm_num [bootVolume]
      entry := by simp
      linked := .inr (.last (by cases i <;> decide))
      nodup := List.nodup_singleton _
      clusters := by
        intro c hc
        rw [List.mem_singleton.mp hc]
        cases i <;> exact ⟨by decide, by decide, by decide⟩
      size := by norm_num
      covers := by norm_num [bytesPerCluster, bootVolume] }
  contiguous i := rfl
  apart i j hne := by
    cases i <;> cases j <;> simp_all [bootCluster]

theorem createVm_loads_sectors :
    let vm : VM := ⟨ramVirtualBase, 0x80000000, ramSize⟩
    let p : Placement := ⟨0x40200000, 0x80200000, 0x88000000⟩
    let m := bootMachine 0 0x1000000
    let run := createVm bootStore.fs 0x1000 bootPages 2 vm m
    let file (i : Image) (k : ℕ) := m.blk.disk (bootStore.placement.place i k)
    run.1 = liftM (enter (KernelHeader.load (file .kernel) 0) p.kernelVirtualAddress) ∧
      (∀ i k, k < (bootStore.file i).fileSize → run.2.mem (i.address vm p + k) = file i k) ∧
      (∀ x, (∀ i : Image, ¬ (i.address vm p ≤ x ∧
        x < i.address vm p + bootStore.fs.moved (bootStore.file i).fileSize)) →
          run.2.mem x = m.mem x) ∧
      run.2.blk = m.blk ∧ run.2.heap = m.heap := by
  obtain ⟨hkernel, htree, hinitramfs⟩ := bootMachine_files 0 0x1000000
  have hfound : ∀ i : Image, bootStore.fs.searchFile (bootMachine 0 0x1000000).mem 0x1000 i.name =
      some (bootStore.file i) := by
    intro i
    cases i with
    | tree => exact htree
    | kernel => exact hkernel
    | initramfs => exact hinitramfs
  have hsmall : ∀ i : Image, 0 < (bootStore.file i).fileSize := fun _ => show 0 < 512 by decide
  have hheader : 60 ≤ (bootStore.file .kernel).fileSize := show 60 ≤ 512 by decide
  have hram : 0x80000000 + ramSize ≤ 2 ^ 64 := by decide
  have hblk : (bootMachine 0 0x1000000).blk.Completes := fun _ _ => le_rfl
  exact createVm_loads bootStore 0x1000 bootPages 2 Nat.two_pos 0x80000000 hram
    (bootMachine 0 0x1000000) hblk hfound hsmall hheader ⟨0x40200000, 0x80200000, 0x88000000⟩
    bootVm_place

end QemuVirt

end Min1visor.Boot
