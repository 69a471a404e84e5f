import Min1visor.FatWriteContiguous
import Min1visor.Library.Transfers

/-!
# A volume as a store of files

A volume with files in consecutive clusters behaves as a family of arrays of bytes: a
call of the reader or the writer for whole sectors transfers a range of one array, no
other file changes, and no byte of the disk outside the files. Calls that start exactly
one sector into a cluster are left out, since the reader takes a bounce buffer there and
the writer refuses.
-/
namespace Min1visor.Fat
open Fragments Transfers

/-- Files in consecutive clusters that share none. -/
structure Store (ι : Type) where
  fs : Fat32
  file : ι → FileInfo
  chain : ι → List ℕ
  holds : ∀ f, fs.Holds (file f) (chain f)
  contiguous : ∀ f, runLength (chain f) = (chain f).length
  apart : ∀ f g, f ≠ g → (chain f).Disjoint (chain g)

namespace Store

open Fat32

variable {ι η : Type}

/-- The cluster of an offset in a file. -/
theorem cluster_mem (v : Store ι) {f : ι} {i : ℕ} (hi : i < (v.file f).fileSize) :
    (v.chain f).getD (i / v.fs.bytesPerCluster) 0 ∈ v.chain f := by
  have hcovers := (v.holds f).covers
  have hindex : i / v.fs.bytesPerCluster < (v.chain f).length :=
    (Nat.div_lt_iff_lt_mul (v.holds f).volume.bytesPerCluster_pos).mpr (by omega)
  rw [List.getD_eq_getElem?_getD, List.getElem?_eq_getElem hindex]
  exact List.getElem_mem hindex

/-- The bytes of the files have places of their own on the disk. -/
def placement (v : Store ι) : Placement ι where
  size f := (v.file f).fileSize
  place f i := v.fs.location (v.chain f) i
  apart f g i j hi hj h := by
    have hpos := (v.holds f).volume.bytesPerCluster_pos
    have hf := v.cluster_mem hi
    have hg := v.cluster_mem hj
    obtain ⟨hcluster, -⟩ := clusterStart_inj ((v.holds f).clusters _ hf).low
      ((v.holds g).clusters _ hg).low (Nat.mod_lt i hpos) (Nat.mod_lt j hpos) h
    by_cases hfg : f = g
    · subst hfg
      exact ⟨rfl, (v.holds f).location_inj hi hj h⟩
    · rw [hcluster] at hf
      exact absurd hg (v.apart f g hfg hf)

/-- The disk holds the contents of the files. -/
abbrev Shows (v : Store ι) (disk : Bytes) (contents : ι → Bytes) : Prop :=
  v.placement.Shows disk contents

/-- A call of the file system for a transfer. -/
def call (v : Store ι) (pages : Pages η) (fuel : ℕ) (m : Machine η) (t : Transfer ι) :
    Except Stop ℕ × Machine η :=
  if t.isWrite then
    let (result, blk) := v.fs.write fuel (v.file t.array) m.mem t.buffer t.offset t.length m.blk
    (result, { m with blk := blk })
  else v.fs.read pages fuel (v.file t.array) t.buffer t.offset t.length m

/-- Calls one after another, each with the memory that it finds. -/
def serve (v : Store ι) (pages : Pages η) (fuel : ℕ) :
    Machine η → List (Bytes × Transfer ι) → List (Except Stop ℕ × Bytes) × Machine η
  | m, [] => ([], m)
  | m, (mem, t) :: calls =>
    let (result, m) := v.call pages fuel { m with mem := mem } t
    let (answers, last) := serve v pages fuel m calls
    ((result, m.mem) :: answers, last)

/-- Whole sectors of a file that do not start one sector into a cluster. -/
structure Whole (v : Store ι) (t : Transfer ι) : Prop where
  aligned : Aligned v.fs (v.file t.array) t.buffer t.offset t.length
  start : t.offset % v.fs.bytesPerCluster ≠ v.fs.bytesPerSector

/-- The sectors of a call lie one behind the other. -/
theorem Whole.straight {v : Store ι} {t : Transfer ι} (h : v.Whole t) :
    v.placement.Straight t.array t.offset t.length where
  inside := h.aligned.inside
  place i hi := by
    have hinside := h.aligned.inside
    have hcount : count (v.file t.array) t.offset t.length = t.length :=
      Nat.min_eq_left (by omega)
    exact (v.holds t.array).location_add (v.contiguous t.array) (hcount.symm ▸ hi)

/-- The machine after a transfer. -/
def moved (v : Store ι) (m : Machine η) (t : Transfer ι) : Machine η :=
  let start := v.placement.place t.array t.offset
  if t.isWrite then
    { m with blk := { m.blk with disk := Bytes.copy m.blk.disk m.mem start t.buffer t.length } }
  else { m with mem := Bytes.copy m.mem m.blk.disk t.buffer start t.length }

/-- A call is the transfer. -/
theorem Whole.call_eq {v : Store ι} {t : Transfer ι} (h : v.Whole t) (pages : Pages η) {fuel : ℕ}
    (hfuel : 0 < fuel) {m : Machine η} (hblk : m.blk.Completes) :
    v.call pages fuel m t = (.ok t.length, v.moved m t) := by
  obtain ⟨fuel, rfl⟩ : ∃ n, fuel = n + 1 := ⟨fuel - 1, by omega⟩
  have hholds := v.holds t.array
  have hsize := hholds.size
  have hpositive := h.aligned.positive
  have hinside := h.aligned.inside
  have hbuffer := h.aligned.buffer
  have hcount : count (v.file t.array) t.offset t.length = t.length :=
    Nat.min_eq_left (by omega)
  have hresidue := (residue_sectors hholds.volume h.aligned.sectors).mpr h.start
  have hmoved := moved_sectors hholds.volume hpositive (by omega) h.aligned.whole
  have hragged := not_ragged_sectors hholds.volume hpositive h.aligned.whole
  unfold call moved
  by_cases hwrite : t.isWrite = true
  · rw [if_pos hwrite, if_pos hwrite, hholds.write_contiguous (v.contiguous _) (by omega)
      (by omega) hresidue (by omega) m.mem hblk, hcount, if_neg hragged, hmoved]
    rfl
  · rw [if_neg hwrite, if_neg hwrite, hholds.read_contiguous (v.contiguous _) (by omega)
      (by omega) hresidue (by omega) pages hblk, hcount, hmoved]
    rfl

/-- What a transfer leaves of the store: the files hold what the arrays do, the memory is
theirs, and the rest of the disk and the page allocator stay. -/
structure Follows (v : Store ι) [DecidableEq ι] (m m' : Machine η) (s : Arrays ι) : Prop where
  shows : v.Shows m'.blk.disk s.array
  mem : m'.mem = s.mem
  rest : ∀ x, v.placement.Free x → m'.blk.disk x = m.blk.disk x
  heap : m'.heap = m.heap
  completes : m'.blk.Completes

theorem Whole.moved_follows [DecidableEq ι] {v : Store ι} {t : Transfer ι} (h : v.Whole t)
    {m : Machine η} {contents : ι → Bytes} (hshows : v.Shows m.blk.disk contents)
    (hblk : m.blk.Completes) :
    v.Follows m (v.moved m t) (Arrays.transfer ⟨m.mem, contents⟩ t) := by
  by_cases hwrite : t.isWrite = true
  · rw [Arrays.transfer_write _ hwrite, moved, if_pos hwrite]
    exact ⟨hshows.write h.straight t.buffer, rfl, fun x hx => hx.write h.straight t.buffer, rfl,
      hblk⟩
  · rw [Arrays.transfer_read _ (by simpa using hwrite), moved, if_neg hwrite]
    exact ⟨hshows, hshows.read h.straight t.buffer, fun _ _ => rfl, rfl, hblk⟩

/-- A transfer after others. -/
theorem Follows.transfer [DecidableEq ι] {v : Store ι} {m m' : Machine η} {s : Arrays ι}
    (h : v.Follows m m' s) {t : Transfer ι} (hwhole : v.Whole t) :
    v.Follows m (v.moved m' t) (s.transfer t) := by
  have hstep := hwhole.moved_follows h.shows h.completes
  rw [h.mem] at hstep
  exact ⟨hstep.shows, hstep.mem, fun x hx => (hstep.rest x hx).trans (h.rest x hx),
    hstep.heap.trans h.heap, hstep.completes⟩

/-- Every run of calls for whole sectors answers with the lengths and is a run of
transfers between the memories and the contents of the files. -/
theorem serve_transfers [DecidableEq ι] (v : Store ι) (pages : Pages η) (fuel : ℕ) (hfuel : 0 < fuel)
    (calls : List (Bytes × Transfer ι)) (hcalls : ∀ call ∈ calls, v.Whole call.2) (m : Machine η)
    (contents : ι → Bytes) (hshows : v.Shows m.blk.disk contents) (hblk : m.blk.Completes) :
    let outcome := v.serve pages fuel m calls
    let abstract := Transfers.serve contents calls
    outcome.1 = abstract.1.map (fun answer => (.ok answer.1, answer.2)) ∧
      v.Shows outcome.2.blk.disk abstract.2 ∧
      (∀ x, v.placement.Free x → outcome.2.blk.disk x = m.blk.disk x) ∧
      outcome.2.heap = m.heap := by
  induction calls generalizing m contents with
  | nil => exact ⟨rfl, hshows, fun _ _ => rfl, rfl⟩
  | cons call calls ih =>
    obtain ⟨mem, t⟩ := call
    rw [List.forall_mem_cons] at hcalls
    obtain ⟨hwhole, hrest⟩ := hcalls
    have hcall := hwhole.call_eq pages hfuel (m := { m with mem := mem }) hblk
    have hfollows := hwhole.moved_follows (m := { m with mem := mem }) hshows hblk
    obtain ⟨hanswers, hlast, hfree, hheap⟩ :=
      ih hrest (v.moved { m with mem := mem } t) _ hfollows.shows hfollows.completes
    simp only [serve, hcall, Transfers.serve, List.map_cons]
    refine ⟨?_, hlast, fun x hx => (hfree x hx).trans (hfollows.rest x hx), hheap.trans hfollows.heap⟩
    rw [hanswers, hfollows.mem]

/-! ## Two files on a volume -/

/-- A file of two clusters and one of a single cluster. -/
def twoFiles : Store Bool where
  fs := sampleVolume 6
  file f := if f then ⟨5, 4096⟩ else ⟨7, 2048⟩
  chain f := if f then [5, 6] else [7]
  holds f := by
    have h := sampleVolume_holds (show 5 < 6 by decide) (by decide)
    cases f with
    | true => exact h
    | false =>
      exact { h with
        entry := by simp
        linked := .inr (.last (by decide))
        nodup := List.nodup_singleton 7
        clusters := by
          intro c hc
          rw [List.mem_singleton.mp hc]
          exact ⟨by decide, by decide, by decide⟩
        size := by decide
        covers := by decide }
  contiguous f := by cases f <;> rfl
  apart f g hne := by
    cases f <;> cases g <;> simp_all

/-- The third sector of a file and all behind it are written, and both files are read. -/
def twoFilesCalls : List (Bytes × Transfer Bool) :=
  [(fun _ => 1, ⟨true, true, 0x48000000, 1024, 3072⟩),
    (fun _ => 2, ⟨true, false, 0x48000000, 0, 4096⟩),
    (fun _ => 3, ⟨false, false, 0x48000000, 0, 2048⟩)]

theorem serve_transfers_two_files :
    let outcome := twoFiles.serve onePage 1 ⟨fun _ => 0, (), plain 9⟩ twoFilesCalls
    let abstract := Transfers.serve (fun _ _ => 9) twoFilesCalls
    outcome.1 = abstract.1.map (fun answer => (.ok answer.1, answer.2)) ∧
      twoFiles.Shows outcome.2.blk.disk abstract.2 ∧
      (∀ x, twoFiles.placement.Free x → outcome.2.blk.disk x = 9) ∧ outcome.2.heap = () := by
  refine serve_transfers twoFiles onePage 1 Nat.one_pos twoFilesCalls ?_
    ⟨fun _ => 0, (), plain 9⟩ (fun _ _ => 9) (fun _ _ _ => rfl) (plain_completes 9)
  simp only [twoFilesCalls, List.forall_mem_cons, List.not_mem_nil, false_implies, implies_true,
    and_true]
  refine ⟨⟨⟨?_, ?_, ?_, ?_, ?_⟩, ?_⟩, ⟨⟨?_, ?_, ?_, ?_, ?_⟩, ?_⟩, ⟨⟨?_, ?_, ?_, ?_, ?_⟩, ?_⟩⟩ <;>
    decide

end Store

end Min1visor.Fat
