import Min1visor.VirtioBlkCalls

/-!
# The file offsets of a request

The handler keeps a running file offset for the data descriptors of a request. It moves
the offset on behind every call of the file system, also behind one that returns `Err`.
A descriptor whose address does not translate is left with a `continue` that comes before
this point, so every later descriptor of the request is transferred too early in the file.
-/
namespace Min1visor.Virtio
open Fat Fat.Fat32

variable {η : Type} {vm : Vm.VM} {body : FileBody η}

/-- The sector has an offset in 64 bits, and the descriptors before number `j` whose
addresses do not translate are empty. -/
def Unshifted (vm : Vm.VM) (run : ℕ → World η) (start j : ℕ) : Prop :=
  (run start).sector vm < 2 ^ 55 ∧ ∀ i < j,
    vm.getPhysicalAddress (chainDesc run start i).address = none →
      (chainDesc run start i).length = 0

/-- All bytes are counted exactly when no descriptor without a translation has any. -/
theorem mappedBytes_spec (vm : Vm.VM) (run : ℕ → World η) (start j : ℕ) :
    mappedBytes vm run start j ≤ chainBytes run start j ∧
      (mappedBytes vm run start j = chainBytes run start j ↔ ∀ i < j,
        vm.getPhysicalAddress (chainDesc run start i).address = none →
          (chainDesc run start i).length = 0) := by
  induction j with
  | zero => simp [mappedBytes, chainBytes]
  | succ j ih =>
    obtain ⟨hle, hiff⟩ := ih
    have hchain : chainBytes run start (j + 1) =
        chainBytes run start j + (chainDesc run start j).length := Finset.sum_range_succ _ _
    have hmapped : mappedBytes vm run start (j + 1) = mappedBytes vm run start j +
        if vm.getPhysicalAddress (chainDesc run start j).address = none then 0
        else (chainDesc run start j).length := Finset.sum_range_succ _ _
    rw [Nat.forall_lt_succ_right, ← hiff, hchain, hmapped]
    split_ifs with hnone
    · simp only [hnone, true_implies]
      omega
    · simp only [hnone, false_implies, and_true]
      omega

/-- The running offset is the position in the file exactly when nothing shifted it. -/
theorem running_eq_iff (vm : Vm.VM) (run : ℕ → World η) (start j : ℕ) :
    (run start).sector vm * 512 % 2 ^ 64 + mappedBytes vm run start j =
        (run start).sector vm * 512 + chainBytes run start j ↔ Unshifted vm run start j := by
  obtain ⟨hle, hiff⟩ := mappedBytes_spec vm run start j
  rw [Unshifted, ← hiff]
  have hmod := Nat.mod_le ((run start).sector vm * 512) (2 ^ 64)
  by_cases hlt : (run start).sector vm < 2 ^ 55
  · rw [Nat.mod_eq_of_lt (by omega)]
    omega
  · have hwrap := Nat.mod_lt ((run start).sector vm * 512) (show 0 < 2 ^ 64 by decide)
    omega

/-- The call that a turn puts on record. -/
theorem TurnRecord.call {w w' : World (η × List FileCall)} {r : Request} {pc : Except Fault Pc}
    (h : TurnRecord vm body w r pc w') {call : FileCall} (hcall : w'.calls = w.calls ++ [call]) :
    call.isWrite = r.isWrite ∧ call.offset = r.offset ∧
      vm.getPhysicalAddress (w.nextDesc r).address = some call.address := by
  cases h with
  | ends calls | unmapped _ calls | pastEnd _ _ calls => simp [calls] at hcall
  | @called a n c pc w' address clamped hc calls goesOn =>
    rw [calls] at hcall
    have hsame : c = call := by simpa using hcall
    rw [← hsame, hc]
    exact ⟨rfl, rfl, address⟩

/-- For every call of the file system: it is one for a data descriptor of a request, and its
offset in the file is that of the sector plus the lengths of the data descriptors before,
exactly when the sector has an offset in 64 bits and none of them with a length has an
address that does not translate. -/
theorem positional_iff (vm : Vm.VM) (body : FileBody η) (w : World (η × List FileCall))
    (start j : ℕ) (call : FileCall) (hserves : Serves vm body.recorded w start j)
    (hcall : (Handler.before vm body.recorded w (start + 1 + j + 1)).calls =
      (Handler.before vm body.recorded w (start + 1 + j)).calls ++ [call]) :
    (call.isWrite = (Handler.before vm body.recorded w start).asksWrite vm ∧
      vm.getPhysicalAddress (chainDesc (Handler.before vm body.recorded w) start j).address =
        some call.address) ∧
    (call.offset = (Handler.before vm body.recorded w start).sector vm * 512 +
        chainBytes (Handler.before vm body.recorded w) start j ↔
      Unshifted vm (Handler.before vm body.recorded w) start j) := by
  obtain ⟨r, hr⟩ := hserves.walk j le_rfl
  have hat := hserves.request_at hr
  obtain ⟨hwrite, hoffset, haddress⟩ := (Handler.operation_record hr).call hcall
  rw [hat.nextDesc] at haddress
  rw [← running_eq_iff, hoffset, hat.offset]
  exact ⟨⟨hwrite.trans hat.isWrite, haddress⟩, Iff.rfl⟩

/-- A read of two data descriptors, the first of them to a guest address. -/
def readTwice (address : ℕ) : List (ℕ × ℕ × ℕ) :=
  [(0x50000000, 8, 0x40002000), (0x50000008, 4, 16), (0x5000000c, 2, 1), (0x5000000e, 2, 1),
    (0x50000010, 8, address), (0x50000018, 4, 512), (0x5000001c, 2, 3), (0x5000001e, 2, 2),
    (0x50000020, 8, 0x40003000), (0x50000028, 4, 512), (0x5000002c, 2, 3), (0x5000002e, 2, 3),
    (0x50000030, 8, 0x40002010), (0x50000038, 4, 1), (0x5000003c, 2, 2), (0x50000042, 2, 1)]

/-- The file has two sectors in a row. -/
def readTwiceWorld (address : ℕ) : World (Unit × List FileCall) :=
  (World.start { sampleDevice with file := ⟨2, 1024⟩ } (guestMemory (readTwice address))).recording

def readTwiceBody : FileBody Unit :=
  .fat32 { sampleVolume with fat := fun c => if c = 2 then 3 else 0x0FFFFFFF } samplePages 1

/-- The states of the read, turn by turn. -/
def readTwiceRun (address : ℕ) : ℕ → World (Unit × List FileCall) :=
  Handler.before sampleVm readTwiceBody.recorded (readTwiceWorld address)

theorem readTwice_serves (address : ℕ)
    (h : address = 0x40004000 ∨ address = 0x1000) :
    Serves sampleVm readTwiceBody.recorded (readTwiceWorld address) 0 1 := by
  refine ⟨rfl, fun i hi => ?_⟩
  interval_cases i
  · refine ⟨⟨0, ⟨0x40002000, 16, 1, 1⟩, false, 0, 0, virtioBlkSOk⟩, ?_⟩
    rcases h with rfl | rfl <;> decide +kernel
  · rcases h with rfl | rfl
    · exact ⟨⟨0, ⟨0x40004000, 512, 3, 2⟩, false, 512, 512, virtioBlkSOk⟩, by decide +kernel⟩
    · exact ⟨⟨0, ⟨0x1000, 512, 3, 2⟩, false, 0, 512, virtioBlkSIoerr⟩, by decide +kernel⟩

/-- Both descriptors are in the memory of the guest. -/
theorem positional_iff_two_sectors : ∃ call : FileCall, call.offset = 512 ∧
    (call.offset = (readTwiceRun 0x40004000 0).sector sampleVm * 512 +
        chainBytes (readTwiceRun 0x40004000) 0 1 ↔
      Unshifted sampleVm (readTwiceRun 0x40004000) 0 1) := by
  have hcall : (readTwiceRun 0x40004000 3).calls = (readTwiceRun 0x40004000 2).calls ++
      [⟨false, ⟨2, 1024⟩, 0x50003000, 512, 512, .ok 512⟩] := by decide +kernel
  exact ⟨_, rfl, (positional_iff sampleVm readTwiceBody (readTwiceWorld 0x40004000) 0 1 _
    (readTwice_serves _ (.inl rfl)) hcall).2⟩

/-- The first descriptor lies outside the memory of the guest. The second one gets the
first sector of the file in place of the second. -/
theorem second_segment_shifted : ∃ call : FileCall,
    Serves sampleVm readTwiceBody.recorded (readTwiceWorld 0x1000) 0 1 ∧
    (readTwiceRun 0x1000 3).calls = (readTwiceRun 0x1000 2).calls ++ [call] ∧ call.offset = 0 ∧
    call.offset ≠ (readTwiceRun 0x1000 0).sector sampleVm * 512 +
      chainBytes (readTwiceRun 0x1000) 0 1 :=
  ⟨⟨false, ⟨2, 1024⟩, 0x50003000, 0, 512, .ok 512⟩, readTwice_serves _ (.inr rfl),
    by decide +kernel, rfl, by decide +kernel⟩

end Min1visor.Virtio
