import Min1visor.DtbBlocks
import Min1visor.Library.Fuel

/-!
# Walking a device tree always ends

Nothing is assumed about the blob: tokens, lengths and offsets are arbitrary, and any of
the memory may be unmapped. Every loop of the reader moves its pointer forward and stops at
the end of the structure block, so the distance to this end bounds its turns. The scan for
the end of a name leaves the block; it stops at a zero, at an unmapped address or at the top
of the address space.
-/
namespace Min1visor.Dtb
open Fuel

/-! ## The loops that retry a search -/

/-- `b"arm,pl011"`. -/
def armPl011 : List UInt8 := [0x61, 0x72, 0x6d, 0x2c, 0x70, 0x6c, 0x30, 0x31, 0x31]

/-- `b"virtio,mmio"`. -/
def virtioMmio : List UInt8 := [0x76, 0x69, 0x72, 0x74, 0x69, 0x6f, 0x2c, 0x6d, 0x6d, 0x69, 0x6f]

/-- The loop of `init_pl011_serial_port`; `none` is its `Err(5)`. -/
def initPl011SerialPort (d : Dtb) : ℕ → Option DtbNode → Except Stop (Option DtbNode)
  | 0, _ => throw .fuel
  | fuel + 1, pl011 => do
    match ← d.searchNodeByCompatible fuel armPl011 pl011 with
    | none => return none
    | some n =>
      if ← d.isNodeOperational fuel n then return some n
      d.initPl011SerialPort fuel (some n)

/-- `init_virtio_blk`, over the driver's constructor, which works on the devices and the
heap and has no loop. -/
def initVirtioBlk {σ β : Type} (d : Dtb) (new : ℕ → σ → Except Panic (Option β) × σ) :
    ℕ → Option DtbNode → σ → Except Stop (Option β × σ)
  | 0, _, _ => throw .fuel
  | fuel + 1, virtio, s => do
    match ← d.searchNodeByCompatible fuel virtioMmio virtio with
    | none => return (none, s)
    | some n =>
      if ← d.isNodeOperational fuel n then
        let some (baseAddress, _) ← d.readRegProperty fuel n 0 | throw (.panic .unwrapNone)
        let (blk, s) := new baseAddress s
        match ← blk.mapError .panic with
        | some blk => return (some blk, s)
        | none => d.initVirtioBlk new fuel (some n) s
      else d.initVirtioBlk new fuel (some n) s

/-! ## More fuel

A fuel is a bound on the resources of a run and never changes its result. -/

section Mono

variable {d : Dtb}

/-- An error that is caught leaves the run as it is. -/
theorem attempt_mono {α : Type} {x y : Except Stop α} (h : Le .fuel x y) :
    Le .fuel (attempt x) (attempt y) := by
  rcases h with rfl | rfl
  · exact .inl rfl
  · exact .refl _

theorem skipToNul_mono {m n : ℕ} (h : m ≤ n) (p : ℕ) :
    Le .fuel (d.skipToNul m p) (d.skipToNul n p) := by
  induction m generalizing n p with
  | zero => exact .cut _
  | succ m ih =>
    obtain ⟨n, rfl⟩ : ∃ k, n = k + 1 := ⟨n - 1, by omega⟩
    rw [skipToNul, skipToNul]
    exact .bind (.refl _) fun b => .ite (.refl _) (.bind (.refl _) fun q => ih (by omega) q)

theorem skipString_mono {m n : ℕ} (h : m ≤ n) (p : ℕ) :
    Le .fuel (d.skipString m p) (d.skipString n p) := by
  rw [skipString, skipString]
  exact .bind (skipToNul_mono h p) fun q => .refl _

/-- A name is compared without a loop of its own; only what is left of it is skipped. -/
theorem compareString_mono {m n : ℕ} (h : m ≤ n) (p : ℕ) (name delimiter : List UInt8) :
    Le .fuel (d.compareString m p name delimiter) (d.compareString n p name delimiter) := by
  rw [compareString, compareString]
  refine .bind (.refl _) fun r => ?_
  exact .ite (.bind (skipString_mono h r.2) fun q => .refl _)
    (.bind (.refl _) fun l => .bind (skipString_mono h r.2) fun q => .refl _)

theorem skipNop_mono {m n : ℕ} (h : m ≤ n) (p : ℕ) :
    Le .fuel (d.skipNop m p) (d.skipNop n p) := by
  induction m generalizing n p with
  | zero => exact .cut _
  | succ m ih =>
    obtain ⟨n, rfl⟩ : ∃ k, n = k + 1 := ⟨n - 1, by omega⟩
    rw [skipNop, skipNop]
    exact .bind (.refl _) fun token => .ite (.refl _) (.bind (.refl _) fun q => ih (by omega) q)

/-- Children are stepped over by the same function, with the same fuel. -/
theorem skipToNextNode_mono {m n : ℕ} (h : m ≤ n) (p : ℕ) :
    Le .fuel (d.skipToNextNode m p) (d.skipToNextNode n p) := by
  induction m generalizing n p with
  | zero => exact .cut _
  | succ m ih =>
    obtain ⟨n, rfl⟩ : ∃ k, n = k + 1 := ⟨n - 1, by omega⟩
    have hle : m ≤ n := by omega
    rw [skipToNextNode, skipToNextNode]
    refine .bind (.refl _) fun q => .bind (skipNop_mono hle q) fun q => .bind (.refl _) fun token => ?_
    refine .ite ?_ (.ite (.refl _) (.ite (.refl _) (.ite ?_ (.refl _))))
    · exact .bind (.refl _) fun q => .bind (ih hle q) fun q => ih hle q
    · exact .bind (.refl _) fun q => .bind (.refl _) fun len => .bind (.refl _) fun q =>
        .bind (.refl _) fun q => .bind (.refl _) fun q => ih hle q

/-- The properties of a node, one turn for each. -/
theorem getPropertyFrom_mono {m n : ℕ} (h : m ≤ n) (name : List UInt8) (p ac sc : ℕ) :
    Le .fuel (d.getPropertyFrom name m p ac sc) (d.getPropertyFrom name n p ac sc) := by
  induction m generalizing n p ac sc with
  | zero => exact .cut _
  | succ m ih =>
    obtain ⟨n, rfl⟩ : ∃ k, n = k + 1 := ⟨n - 1, by omega⟩
    have hle : m ≤ n := by omega
    rw [getPropertyFrom, getPropertyFrom]
    refine .bind (.refl _) fun q => .bind (skipNop_mono hle q) fun q => .bind (.refl _) fun token => ?_
    refine .ite ?_ (.refl _)
    refine .bind (.refl _) fun header => .bind (.refl _) fun cells => .bind (.refl _) fun same => ?_
    exact .ite (.refl _) (.bind (.refl _) fun q => ih hle q _ _)

theorem getProperty_mono {m n : ℕ} (h : m ≤ n) (node : DtbNode) (name : List UInt8) :
    Le .fuel (d.getProperty m node name) (d.getProperty n node name) :=
  attempt_mono (getPropertyFrom_mono h name _ _ _)

theorem isNodeOperational_mono {m n : ℕ} (h : m ≤ n) (node : DtbNode) :
    Le .fuel (d.isNodeOperational m node) (d.isNodeOperational n node) := by
  rw [isNodeOperational, isNodeOperational]
  exact .bind (getProperty_mono h node _) fun info => .refl _

theorem readRegProperty_mono {m n : ℕ} (h : m ≤ n) (node : DtbNode) (index : ℕ) :
    Le .fuel (d.readRegProperty m node index) (d.readRegProperty n node index) := by
  rw [readRegProperty, readRegProperty]
  exact .bind (getProperty_mono h node _) fun info => .refl _

/-- The decisions of a search neither run out of a fuel that `scan` bounds nor move the
pointer back. -/
structure Criterion.Ends (c : Criterion) (d : Dtb) (scan : ℕ) : Prop where
  name_mono : ∀ {m n : ℕ} (_ : m ≤ n) (p : ℕ), Le .fuel (c.name d m p) (c.name d n p)
  name : ∀ {fuel : ℕ} (_ : scan ≤ fuel) (p : ℕ),
    Fuel.Ends .fuel (fun r => p ≤ r.2) (c.name d fuel p)
  property : ∀ (info : DtbProperty) (nameSegment : ℕ),
    Fuel.Ends .fuel (fun _ => True) (c.property d info nameSegment)

variable {c : Criterion} {scan : ℕ}

/-- The descent into a node and the loop over its properties and children call each other, so
both are shown at once. -/
theorem Criterion.Ends.search_mono (hc : c.Ends d scan) {m n : ℕ} (h : m ≤ n) :
    (∀ p ac sc, Le .fuel (c.search d m p ac sc) (c.search d n p ac sc)) ∧
    ∀ t p ac sc, Le .fuel (c.searchLoop d m t p ac sc) (c.searchLoop d n t p ac sc) := by
  induction m generalizing n with
  | zero => exact ⟨fun _ _ _ => .cut _, fun _ _ _ _ => .cut _⟩
  | succ m ih =>
    obtain ⟨n, rfl⟩ : ∃ k, n = k + 1 := ⟨n - 1, by omega⟩
    have hle : m ≤ n := by omega
    obtain ⟨ihsearch, ihloop⟩ := ih hle
    refine ⟨fun p ac sc => ?_, fun t p ac sc => ?_⟩
    · rw [Criterion.search, Criterion.search]
      refine .bind (skipNop_mono hle p) fun q => .bind (.refl _) fun token => .ite (.refl _) ?_
      refine .bind (.refl _) fun q => .bind (hc.name_mono hle q) fun r => ?_
      exact .ite (.refl _) (ihloop _ _ _ _)
    · rw [Criterion.searchLoop, Criterion.searchLoop]
      refine .bind (.refl _) fun q => .bind (skipNop_mono hle q) fun q => .bind (.refl _) fun token =>
        .ite ?_ (.ite (.refl _) (.ite (.refl _) (.ite ?_ (.refl _))))
      · refine .bind (ihsearch q ac sc) fun r => ?_
        obtain ⟨found, q⟩ := r
        cases found with
        | some found => exact .refl _
        | none => exact ihloop _ _ _ _
      · refine .bind (.refl _) fun header => .bind (.refl _) fun cells => .bind (.refl _) fun same => ?_
        exact .ite (.refl _) (.bind (.refl _) fun q => ihloop _ _ _ _)

theorem Criterion.Ends.searchFrom_mono (hc : c.Ends d scan) {m n : ℕ} (h : m ≤ n) (p ac sc : ℕ) :
    Le .fuel (c.searchFrom d m p ac sc) (c.searchFrom d n p ac sc) := by
  induction m generalizing n p with
  | zero => exact .cut _
  | succ m ih =>
    obtain ⟨n, rfl⟩ : ∃ k, n = k + 1 := ⟨n - 1, by omega⟩
    have hle : m ≤ n := by omega
    rw [Criterion.searchFrom, Criterion.searchFrom]
    refine .bind (.refl _) fun inside => .ite (.refl _) ?_
    refine .bind (attempt_mono ((hc.search_mono hle).1 p ac sc)) fun r => ?_
    match r with
    | some (some found, _) => exact .refl _
    | some (none, q) => exact .bind (.refl _) fun q => ih hle q
    | none => exact .refl _

/-- A search from the root or behind the node that it resumes from. -/
theorem Criterion.Ends.searchNode_mono (hc : c.Ends d scan) {m n : ℕ} (h : m ≤ n)
    (currentNode : Option DtbNode) :
    Le .fuel (c.searchNode d m currentNode) (c.searchNode d n currentNode) := by
  cases currentNode with
  | none => exact .bind (.refl _) fun start => hc.searchFrom_mono h _ _ _
  | some node =>
    refine .bind (attempt_mono (skipToNextNode_mono h _)) fun r => ?_
    cases r with
    | none => exact .refl _
    | some p => exact hc.searchFrom_mono h _ _ _

end Mono

/-! ## Enough fuel -/

section Ends

variable {d : Dtb}

/-- An addition moves the pointer or aborts. -/
theorem checked_ends {w a b : ℕ} :
    Ends .fuel (fun c => c = a + b) (checked (Checked.add w a b)) := by
  rcases Checked.add_cases w a b with h | ⟨-, h⟩
  · rw [h]
    exact .ok rfl
  · rw [h]
    exact .error (by decide)

theorem checked_mul_ends {w a b : ℕ} :
    Ends .fuel (fun _ => True) (checked (Checked.mul w a b)) := by
  rw [Checked.mul]
  split_ifs
  · exact .ok trivial
  · exact .error (by decide)

/-- Padding never moves the pointer back. -/
theorem skipPadding_ends (p : ℕ) : Ends .fuel (fun q => p ≤ q) (skipPadding p) := by
  rw [skipPadding, fdtTokenByte, Checked.nextMultipleOf, if_neg (by decide)]
  split_ifs
  · exact .ok le_rfl
  · exact checked_ends.mono fun q hq => hq ▸ Nat.le_add_right _ _

theorem readU8_ends (d : Dtb) (p : ℕ) : Ends .fuel (fun _ => True) (d.readU8 p) := by
  rw [readU8]
  split
  · exact .ok trivial
  · exact .error (by decide)

theorem readBytes_ends (d : Dtb) (p n : ℕ) : Ends .fuel (fun _ => True) (d.readBytes p n) := by
  rw [readBytes]
  split
  · exact .ok trivial
  · exact .error (by decide)

theorem headerField_ends (d : Dtb) (offset : ℕ) :
    Ends .fuel (fun _ => True) (d.headerField offset) :=
  .bind (readBytes_ends d _ 4) fun _ _ => .ok trivial

theorem attempt_ends {α : Type} {P : α → Prop} {x : Except Stop α} (h : Ends .fuel P x) :
    Ends .fuel (fun r => ∀ a, r = some a → P a) (attempt x) := by
  cases hx : x with
  | ok a => exact .ok fun b hb => Option.some.inj hb ▸ h.result a hx
  | error e =>
    cases e with
    | err => exact .ok nofun
    | panic p => exact .error (by simp)
    | fault => exact .error (by simp)
    | fuel => exact absurd hx h.ne

/-- The comparison with a list of bytes moves along the list. -/
theorem matchBytes_ends {read : ℕ → Except Stop UInt8}
    (hread : ∀ p, Ends .fuel (fun _ => True) (read p)) (w : ℕ) (cs : List UInt8) (p : ℕ) :
    Ends .fuel (fun r => p ≤ r.2) (matchBytes read w cs p) := by
  induction cs generalizing p with
  | nil => exact .ok le_rfl
  | cons c cs ih =>
    rw [matchBytes]
    refine .bind (hread p) fun b _ => .ite (fun _ => .ok le_rfl) fun _ => ?_
    exact .bind checked_ends fun q hq => (ih q).mono fun r hr => by omega

/-- A property's name is compared in the strings block, whose bounds come from the header. -/
theorem compareNameSegment_ends (d : Dtb) (nameOffset : ℕ) (name delimiter : List UInt8) :
    Ends .fuel (fun _ => True) (d.compareNameSegment nameOffset name delimiter) := by
  rw [compareNameSegment]
  refine .bind (headerField_ends d 32) fun size _ => .ite (fun _ => .error (by decide)) fun _ => ?_
  refine .bind (.bind (headerField_ends d 12) fun offset _ => checked_ends.mono fun _ _ => trivial)
    fun offset _ => .bind (checked_ends) fun p _ => ?_
  refine .bind (matchBytes_ends (readU8_ends d) 64 name p) fun r _ => ?_
  exact .ite (fun _ => .ok trivial) fun _ => .bind (readU8_ends d _) fun l _ => .ok trivial

/-- The scan for a zero stops at the top of the address space at the latest. -/
theorem skipToNul_ends {fuel p : ℕ} (hfuel : 2 ^ 64 - p < fuel) :
    Ends .fuel (fun q => p ≤ q) (d.skipToNul fuel p) := by
  induction fuel generalizing p with
  | zero => omega
  | succ fuel ih =>
    rw [skipToNul]
    refine .bind (readU8_ends d p) fun b _ => .ite (fun _ => .ok le_rfl) fun _ => ?_
    rcases Checked.add_cases 64 p 1 with h | ⟨-, h⟩
    · rw [h]
      obtain ⟨hlt, -⟩ := Checked.add_eq_ok.mp h
      exact (ih (p := p + 1) (by omega)).mono fun q hq => by omega
    · rw [h]
      exact .error (by decide)

/-- Behind the zero of a string the pointer is rounded up to a token. -/
theorem skipString_ends {fuel : ℕ} (hfuel : 2 ^ 64 < fuel) (p : ℕ) :
    Ends .fuel (fun q => p ≤ q) (d.skipString fuel p) := by
  rw [skipString]
  refine .bind (skipToNul_ends (by omega)) fun q hq => .bind checked_ends fun q' hq' => ?_
  exact (skipPadding_ends q').mono fun r hr => by omega

/-- Whether or not a name matches, the pointer ends behind it. -/
theorem compareString_ends {fuel : ℕ} (hfuel : 2 ^ 64 < fuel) (p : ℕ) (name delimiter : List UInt8) :
    Ends .fuel (fun r => p ≤ r.2) (d.compareString fuel p name delimiter) := by
  rw [compareString]
  refine .bind (matchBytes_ends (readU8_ends d) 64 name p) fun r hr => ?_
  refine .ite (fun _ => ?_) fun _ => .bind (readU8_ends d r.2) fun l _ => ?_
  · exact .bind (skipString_ends hfuel r.2) fun q hq => .ok (hr.trans hq)
  · exact .bind (skipString_ends hfuel r.2) fun q hq => .ok (hr.trans hq)

/-! ## The end of the structure block -/

/-- A token that the reader gets to see ends before `stop`. -/
def Bounded (d : Dtb) (stop : ℕ) : Prop :=
  ∀ p, Ends .fuel (fun _ => p + 4 ≤ stop) (d.checkNode p)

/-- The header gives the end of the block, if it can be read and does not overflow. -/
theorem exists_bounded (d : Dtb) : ∃ stop, d.Bounded stop := by
  have hends : Ends .fuel (fun _ => True)
      (do checked (Checked.add 64 (← d.getStructOffset) (← d.getStructSize))) :=
    .bind (.bind (headerField_ends d 8) fun _ _ => checked_ends.mono fun _ _ => trivial) fun start _ =>
      .bind (headerField_ends d 36) fun size _ => checked_ends.mono fun _ _ => trivial
  have hcheck : ∀ p, d.checkNode p =
      ((do checked (Checked.add 64 (← d.getStructOffset) (← d.getStructSize))) >>= fun stop =>
        if p ≥ stop then throw .err else pure ()) := by
    intro p
    rw [checkNode]
    cases d.getStructOffset with
    | error e => rfl
    | ok start =>
      cases d.getStructSize with
      | error e => rfl
      | ok size => rfl
  cases hstop : (do checked (Checked.add 64 (← d.getStructOffset) (← d.getStructSize))) with
  | error e =>
    refine ⟨0, fun p => ?_⟩
    rw [hcheck, hstop]
    rw [hstop] at hends
    exact .error fun heq => hends.ne (congrArg _ heq)
  | ok stop =>
    refine ⟨stop + 3, fun p => ?_⟩
    rw [hcheck, hstop]
    exact .ite (fun _ => .error (by decide)) fun hlt => .ok (by omega)

variable {stop : ℕ}

/-- A token is only read within the block. -/
theorem Bounded.readNode_ends (h : d.Bounded stop) (p : ℕ) :
    Ends .fuel (fun _ => p + 4 ≤ stop) (d.readNode p) :=
  .bind (h p) fun _ hlt => (readBytes_ends d p 4).mono fun _ _ => hlt

theorem Bounded.readBeU32Node_ends (h : d.Bounded stop) (p : ℕ) :
    Ends .fuel (fun _ => p + 4 ≤ stop) (d.readBeU32Node p) :=
  .bind (h.readNode_ends p) fun _ hlt => .ok hlt

/-- Each NOP token takes four bytes of what is left of the block. -/
theorem Bounded.skipNop_ends (h : d.Bounded stop) {fuel p : ℕ} (hfuel : stop - p < fuel) :
    Ends .fuel (fun q => p ≤ q) (d.skipNop fuel p) := by
  induction fuel generalizing p with
  | zero => omega
  | succ fuel ih =>
    rw [skipNop]
    refine .bind (h.readNode_ends p) fun token hp => .ite (fun _ => .ok le_rfl) fun _ => ?_
    refine .bind checked_ends fun q hq => ?_
    rw [fdtTokenByte] at hq
    exact (ih (by omega)).mono fun r hr => by omega

/-- The token at which a turn of a loop arrives. -/
theorem Bounded.turn_ends (h : d.Bounded stop) {α : Type} {P : α → Prop} {fuel p : ℕ}
    (hfuel : stop - p < fuel) {f : ℕ → List UInt8 → Except Stop α}
    (hf : ∀ q token, p ≤ q → q + 4 ≤ stop → Ends .fuel P (f q token)) :
    Ends .fuel P (do
      let p ← skipPadding p
      let p ← d.skipNop fuel p
      let token ← d.readNode p
      f p token) :=
  .bind (skipPadding_ends p) fun q hq => .bind (h.skipNop_ends (by omega)) fun q' hq' =>
    .bind (h.readNode_ends q') fun token hlt => hf q' token (by omega) hlt

/-- The step over a node arrives behind its token. The two calls for a child share what is left:
the second starts where the first has arrived. -/
theorem Bounded.skipToNextNode_ends (h : d.Bounded stop) {fuel p : ℕ} (hfuel : stop - p + 1 < fuel) :
    Ends .fuel (fun q => p + 4 ≤ q ∧ p < stop) (d.skipToNextNode fuel p) := by
  induction fuel generalizing p with
  | zero => omega
  | succ fuel ih =>
    rw [skipToNextNode]
    refine h.turn_ends (by omega) fun q token hle hlt => ?_
    refine .ite (fun _ => ?_) fun _ => .ite (fun _ => .error (by decide)) fun _ =>
      .ite (fun _ => ?_) fun _ => .ite (fun _ => ?_) fun _ => .error (by decide)
    · refine .bind checked_ends fun q' hq' => .bind (ih ?_) fun q'' hq'' => (ih ?_).mono ?_
      · rw [fdtTokenByte] at hq'
        omega
      · rw [fdtTokenByte] at hq'
        omega
      · intro r hr
        rw [fdtTokenByte] at hq'
        omega
    · refine checked_ends.mono fun q' hq' => ?_
      rw [fdtTokenByte] at hq'
      omega
    · refine .bind checked_ends fun q₁ h₁ => .bind (h.readBeU32Node_ends q₁) fun len hlen => ?_
      refine .bind checked_ends fun q₂ h₂ => .bind checked_ends fun q₃ h₃ => ?_
      refine .bind checked_ends fun q₄ h₄ => ?_
      rw [fdtTokenByte] at h₁
      exact (ih (by omega)).mono fun r hr => by omega

/-! ## Properties -/

/-- The header of a property has three words. -/
theorem Bounded.propertyHeader_ends (h : d.Bounded stop) (p : ℕ) :
    Ends .fuel (fun r => r.2.2 = p + 12) (d.propertyHeader p) := by
  rw [propertyHeader]
  refine .bind checked_ends fun q₁ h₁ => .bind (h.readBeU32Node_ends q₁) fun len _ => ?_
  refine .bind checked_ends fun q₂ h₂ => .bind (h.readBeU32Node_ends q₂) fun name _ => ?_
  refine .bind checked_ends fun q₃ h₃ => .ok ?_
  rw [fdtTokenByte] at h₁
  show q₃ = p + 12
  omega

theorem Bounded.checkAddressAndSizeCells_ends (h : d.Bounded stop) (nameSegment p ac sc : ℕ) :
    Ends .fuel (fun _ => True) (d.checkAddressAndSizeCells nameSegment p ac sc) := by
  rw [checkAddressAndSizeCells]
  refine .bind (compareNameSegment_ends d _ _ _) fun _ _ => .ite (fun _ => ?_) fun _ => ?_
  · exact .bind (h.readBeU32Node_ends p) fun _ _ => .ok trivial
  · refine .bind (compareNameSegment_ends d _ _ _) fun _ _ => .ite (fun _ => ?_) fun _ => .ok trivial
    exact .bind (h.readBeU32Node_ends p) fun _ _ => .ok trivial

/-- Each property takes at least twelve bytes. -/
theorem Bounded.getPropertyFrom_ends (h : d.Bounded stop) (name : List UInt8) {fuel p : ℕ}
    (hfuel : stop - p + 1 < fuel) (ac sc : ℕ) :
    Ends .fuel (fun _ => True) (d.getPropertyFrom name fuel p ac sc) := by
  induction fuel generalizing p ac sc with
  | zero => omega
  | succ fuel ih =>
    rw [getPropertyFrom]
    refine h.turn_ends (by omega) fun q token hle hlt => ?_
    refine .ite (fun _ => ?_) fun _ => .error (by decide)
    refine .bind (h.propertyHeader_ends q) fun header hheader => ?_
    obtain ⟨len, nameSegment, value⟩ := header
    obtain rfl : value = q + 12 := hheader
    refine .bind (h.checkAddressAndSizeCells_ends _ _ ac sc) fun cells _ => ?_
    refine .bind (compareNameSegment_ends d _ _ _) fun same _ => .ite (fun _ => .ok trivial) fun _ => ?_
    exact .bind checked_ends fun q' hq' => ih (by omega) _ _

theorem Bounded.getProperty_ends (h : d.Bounded stop) {fuel : ℕ} (hfuel : stop + 1 < fuel)
    (node : DtbNode) (name : List UInt8) :
    Ends .fuel (fun _ => True) (d.getProperty fuel node name) :=
  (attempt_ends (h.getPropertyFrom_ends name (by omega) _ _)).mono fun _ _ => trivial

theorem readValue_ends (d : Dtb) (info : DtbProperty) (p : ℕ) :
    Ends .fuel (fun _ => True) (d.readValue info p) :=
  .bind checked_ends fun q _ => readU8_ends d q

/-- Two turns of the loop of `_is_device_compatible` step over a byte. -/
theorem isDeviceCompatibleFrom_ends {info : DtbProperty} {compatible : List UInt8} {fuel p : ℕ}
    {skip : Bool} (hpos : 0 < fuel) (hfuel : 2 * (info.len - p) + (if skip then 0 else 1) ≤ fuel) :
    Ends .fuel (fun _ => True) (d.isDeviceCompatibleFrom info compatible fuel p skip) := by
  induction fuel generalizing p skip with
  | zero => omega
  | succ fuel ih =>
    rw [isDeviceCompatibleFrom]
    refine .ite (fun _ => .ok trivial) fun hlt => ?_
    cases skip with
    | true =>
      refine .ite (fun _ => ?_) fun hskip => absurd rfl hskip
      refine .bind (readValue_ends d info p) fun b _ => .bind checked_ends fun q hq => ih ?_ ?_
      · rw [if_pos rfl] at hfuel
        omega
      · rw [if_pos rfl] at hfuel
        split_ifs <;> omega
    | false =>
      rw [if_neg Bool.false_ne_true] at hfuel
      refine .ite (fun hskip => absurd hskip Bool.false_ne_true) fun _ => ?_
      refine .bind (matchBytes_ends (readValue_ends d info) 32 _ p) fun r hr => ?_
      refine .ite (fun _ => .ok trivial) fun _ => ih ?_ ?_
      · omega
      · rw [if_pos rfl]
        omega

theorem isDeviceCompatible_ends (d : Dtb) (info : DtbProperty) (compatible : List UInt8) :
    Ends .fuel (fun _ => True) (d.isDeviceCompatible info compatible) :=
  isDeviceCompatibleFrom_ends (Nat.succ_pos _) le_rfl

theorem mapM_ends {α β : Type} {f : α → Except Stop β} {xs : List α}
    (hf : ∀ a, Ends .fuel (fun _ => True) (f a)) : Ends .fuel (fun _ => True) (xs.mapM f) := by
  induction xs with
  | nil => exact .ok trivial
  | cons x xs ih =>
    rw [List.mapM_cons]
    exact .bind (hf x) fun _ _ => .bind ih fun _ _ => .ok trivial

/-- The value of `status` is read byte by byte, up to its length. -/
theorem Bounded.isNodeOperational_ends (h : d.Bounded stop) {fuel : ℕ} (hfuel : stop + 1 < fuel)
    (node : DtbNode) : Ends .fuel (fun _ => True) (d.isNodeOperational fuel node) := by
  rw [isNodeOperational]
  refine .bind (h.getProperty_ends hfuel node _) fun info _ => ?_
  cases info with
  | none => exact .ok trivial
  | some info =>
    exact .bind (mapM_ends fun i => .bind checked_ends fun q _ => readU8_ends d q) fun _ _ => .ok trivial

theorem readCells_ends (d : Dtb) (address offset first n : ℕ) :
    Ends .fuel (fun _ => True) (d.readCells address offset first n) := by
  rw [readCells]
  generalize 0 = value
  induction List.range n generalizing value with
  | nil => exact .ok trivial
  | cons i is ih =>
    rw [List.foldlM_cons]
    refine Ends.bind (P := fun _ => True) ?_ fun value' _ => ih value'
    exact .bind checked_ends fun _ _ => .bind checked_ends fun _ _ => .bind checked_ends fun q _ =>
      .bind (readU8_ends d q) fun _ _ => .ok trivial

theorem Bounded.readRegProperty_ends (h : d.Bounded stop) {fuel : ℕ} (hfuel : stop + 1 < fuel)
    (node : DtbNode) (index : ℕ) :
    Ends .fuel (fun _ => True) (d.readRegProperty fuel node index) := by
  rw [readRegProperty]
  refine .bind (h.getProperty_ends hfuel node _) fun info _ => ?_
  cases info with
  | none => exact .ok trivial
  | some info =>
    refine .bind checked_ends fun _ _ => .bind checked_mul_ends fun _ _ => ?_
    refine .bind checked_mul_ends fun _ _ => .bind checked_ends fun _ _ => ?_
    refine .ite (fun _ => .ok trivial) fun _ => .bind checked_mul_ends fun _ _ => ?_
    refine .bind (readCells_ends d _ _ _ _) fun _ _ => .bind checked_mul_ends fun _ _ => ?_
    exact .bind (readCells_ends d _ _ _ _) fun _ _ => .ok trivial

/-! ## The searches -/

/-- The search by name scans a name to its zero. -/
theorem byName_ends (d : Dtb) (nodeName : List UInt8) :
    (byName nodeName).Ends d (2 ^ 64 + 1) where
  name_mono h p := compareString_mono h p _ _
  name hfuel p := compareString_ends hfuel p _ _
  property _ _ := .ok trivial

/-- The search by `compatible` scans the name as well, and then the list of the property. -/
theorem byCompatible_ends (d : Dtb) (compatible : List UInt8) :
    (byCompatible compatible).Ends d (2 ^ 64 + 1) where
  name_mono h p := .bind (skipString_mono h p) fun _ => .refl _
  name hfuel p := .bind (skipString_ends hfuel p) fun _ hq => .ok hq
  property info _ := .bind (compareNameSegment_ends d _ _ _) fun _ _ =>
    .ite (fun _ => isDeviceCompatible_ends d info compatible) fun _ => .ok trivial

variable {c : Criterion} {scan : ℕ}

/-- What a descent returns: a node behind `t`, or a pointer behind `p`. -/
def Forward (t p : ℕ) (r : Option DtbNode × ℕ) : Prop :=
  match r.1 with
  | some n => t ≤ n.address
  | none => p < r.2

/-- The descent moves forward whatever it returns. What is left of the block bounds the turns of
the loop and the depth of the descent together. -/
theorem Criterion.Ends.search_ends (hc : c.Ends d scan) (h : d.Bounded stop) {fuel : ℕ} :
    (∀ p ac sc, stop - p + scan + 1 < fuel →
      Fuel.Ends .fuel (Forward (p + 4) p) (c.search d fuel p ac sc)) ∧
    ∀ t p ac sc, t ≤ p → stop - p + scan + 2 < fuel →
      Fuel.Ends .fuel (Forward t p) (c.searchLoop d fuel t p ac sc) := by
  induction fuel with
  | zero => exact ⟨fun _ _ _ hfuel => absurd hfuel (Nat.not_lt_zero _),
      fun _ _ _ _ _ hfuel => absurd hfuel (Nat.not_lt_zero _)⟩
  | succ fuel ih =>
    obtain ⟨ihsearch, ihloop⟩ := ih
    refine ⟨fun p ac sc hfuel => ?_, fun t p ac sc ht hfuel => ?_⟩
    · rw [Criterion.search]
      refine .bind (h.skipNop_ends (by omega)) fun q hq => .bind (h.readNode_ends q) fun token hlt => ?_
      refine .ite (fun _ => .error (by decide)) fun _ => .bind checked_ends fun q' hq' => ?_
      rw [fdtTokenByte] at hq'
      refine .bind (hc.name (by omega) q') fun r hr => .ite (fun _ => .ok ?_) fun _ => ?_
      · show p + 4 ≤ r.2
        omega
      · refine (ihloop r.2 r.2 ac sc le_rfl (by omega)).mono fun s hs => ?_
        rw [Forward] at hs ⊢
        split at hs <;> omega
    · rw [Criterion.searchLoop]
      refine h.turn_ends (by omega) fun q token hle hlt => ?_
      refine .ite (fun _ => ?_) fun _ => .ite (fun _ => .error (by decide)) fun _ =>
        .ite (fun _ => ?_) fun _ => .ite (fun _ => ?_) fun _ => .error (by decide)
      · refine .bind (ihsearch q ac sc (by omega)) fun r hr => ?_
        obtain ⟨found, q'⟩ := r
        cases found with
        | some n =>
          have hn : q + 4 ≤ n.address := hr
          exact .ok (show t ≤ n.address by omega)
        | none =>
          have hq' : q < q' := hr
          refine (ihloop t q' ac sc (by omega) (by omega)).mono fun s hs => ?_
          rw [Forward] at hs ⊢
          split at hs <;> omega
      · refine .bind checked_ends fun q' hq' => .ok ?_
        rw [fdtTokenByte] at hq'
        show p < q'
        omega
      · refine .bind (h.propertyHeader_ends q) fun header hheader => ?_
        obtain ⟨len, nameSegment, value⟩ := header
        obtain rfl : value = q + 12 := hheader
        refine .bind (h.checkAddressAndSizeCells_ends _ _ ac sc) fun cells _ => ?_
        refine .bind (hc.property _ _) fun same _ => .ite (fun _ => .ok le_rfl) fun _ => ?_
        refine .bind checked_ends fun q' hq' => ?_
        refine (ihloop t q' _ _ (by omega) (by omega)).mono fun s hs => ?_
        rw [Forward] at hs ⊢
        split at hs <;> omega

/-- A node that is found lies behind the start of the search. -/
theorem Criterion.Ends.searchFrom_ends (hc : c.Ends d scan) (h : d.Bounded stop) {fuel p : ℕ}
    (hfuel : stop - p + scan + 2 < fuel) (ac sc : ℕ) :
    Fuel.Ends .fuel (fun r => ∀ n, r = some n → p < n.address) (c.searchFrom d fuel p ac sc) := by
  induction fuel generalizing p with
  | zero => omega
  | succ fuel ih =>
    rw [Criterion.searchFrom]
    refine .bind (attempt_ends (h p)) fun inside hinside => .ite (fun _ => .ok nofun) fun hsome => ?_
    have hlt : p + 4 ≤ stop := by
      cases inside with
      | none => exact absurd rfl hsome
      | some u => exact hinside u rfl
    refine .bind (attempt_ends ((hc.search_ends h).1 p ac sc (by omega))) fun r hr => ?_
    match r with
    | none => exact .ok nofun
    | some (some n, _) =>
      refine .ok fun m hm => ?_
      obtain rfl := Option.some.inj hm
      have hn : p + 4 ≤ n.address := hr _ rfl
      omega
    | some (none, q) =>
      have hq : p < q := hr _ rfl
      refine .bind checked_ends fun q' hq' => ?_
      rw [fdtTokenByte] at hq'
      exact (ih (by omega)).mono fun s hs n hn => by
        have := hs n hn
        omega

/-- A search that resumes finds a node behind the one it resumes from. -/
def Behind (stop : ℕ) (currentNode r : Option DtbNode) : Prop :=
  ∀ m n, currentNode = some m → r = some n → m.address < n.address ∧ m.address < stop

/-- A search that resumes steps over its node first, so it starts behind it. -/
theorem Criterion.Ends.searchNode_ends (hc : c.Ends d scan) (h : d.Bounded stop) {fuel : ℕ}
    (hfuel : stop + scan + 2 < fuel) (currentNode : Option DtbNode) :
    Fuel.Ends .fuel (Behind stop currentNode) (c.searchNode d fuel currentNode) := by
  cases currentNode with
  | none =>
    refine .bind (.bind (headerField_ends d 8) fun _ _ => checked_ends.mono fun _ _ => trivial)
      fun start _ => ?_
    exact (hc.searchFrom_ends h (by omega) _ _).mono fun r _ m n hm => nomatch hm
  | some node =>
    refine .bind (attempt_ends (h.skipToNextNode_ends (p := node.address) (by omega))) fun p hp => ?_
    cases p with
    | none => exact .ok fun m n _ hn => nomatch hn
    | some p =>
      obtain ⟨hle, hlt⟩ := hp p rfl
      refine (hc.searchFrom_ends h (by omega) _ _).mono fun r hr m n hm hn => ?_
      obtain rfl := Option.some.inj hm
      have := hr n hn
      exact ⟨by omega, hlt⟩

/-- With any fuel, a search that resumes finds a later node. -/
theorem Criterion.Ends.searchNode_lt (hc : c.Ends d scan) {fuel : ℕ} {current n : DtbNode}
    (h : c.searchNode d fuel (some current) = .ok (some n)) : current.address < n.address := by
  obtain ⟨stop, hstop⟩ := d.exists_bounded
  have hne : c.searchNode d fuel (some current) ≠ .error .fuel := by
    rw [h]
    exact nofun
  have hmore := (hc.searchNode_mono (Nat.le_add_right fuel (stop + scan + 3)) (some current)).eq hne
  have hends := hc.searchNode_ends hstop (show stop + scan + 2 < fuel + (stop + scan + 3) by omega)
    (some current)
  exact (hends.result _ (hmore.trans h) current n rfl rfl).1

theorem Criterion.Ends.searchNode_terminates (hc : c.Ends d scan) (currentNode : Option DtbNode) :
    Terminates .fuel fun fuel => c.searchNode d fuel currentNode := by
  obtain ⟨stop, hstop⟩ := d.exists_bounded
  exact .of_ends (fun m n hle => hc.searchNode_mono hle currentNode)
    (hc.searchNode_ends hstop (Nat.lt_succ_self _) currentNode)

theorem skipToNextNode_terminates (d : Dtb) (p : ℕ) :
    Terminates .fuel fun fuel => d.skipToNextNode fuel p := by
  obtain ⟨stop, hstop⟩ := d.exists_bounded
  exact .of_ends (fun m n hle => skipToNextNode_mono hle p)
    (hstop.skipToNextNode_ends (Nat.lt_succ_self _))

theorem getProperty_terminates (d : Dtb) (node : DtbNode) (name : List UInt8) :
    Terminates .fuel fun fuel => d.getProperty fuel node name := by
  obtain ⟨stop, hstop⟩ := d.exists_bounded
  exact .of_ends (fun m n hle => getProperty_mono hle node name)
    (hstop.getProperty_ends (Nat.lt_succ_self _) node name)

/-! ## The retries -/

/-- What is left of the structure block behind the node at which a retry resumes. -/
def remaining (stop : ℕ) : Option DtbNode → ℕ
  | none => stop + 1
  | some n => stop - n.address

/-- A retry has less of the block left. -/
theorem Behind.remaining_lt {currentNode : Option DtbNode} {n : DtbNode}
    (h : Behind stop currentNode (some n)) : remaining stop (some n) < remaining stop currentNode := by
  cases currentNode with
  | none =>
    simp only [remaining]
    omega
  | some m =>
    obtain ⟨hlt, hinside⟩ := h m n rfl rfl
    simp only [remaining]
    omega

theorem initPl011SerialPort_mono {m n : ℕ} (h : m ≤ n) (pl011 : Option DtbNode) :
    Le .fuel (d.initPl011SerialPort m pl011) (d.initPl011SerialPort n pl011) := by
  induction m generalizing n pl011 with
  | zero => exact .cut _
  | succ m ih =>
    obtain ⟨n, rfl⟩ : ∃ k, n = k + 1 := ⟨n - 1, by omega⟩
    have hle : m ≤ n := by omega
    rw [initPl011SerialPort, initPl011SerialPort]
    refine .bind ((byCompatible_ends d armPl011).searchNode_mono hle pl011) fun r => ?_
    cases r with
    | none => exact .refl _
    | some node => exact .bind (isNodeOperational_mono hle node) fun _ => .ite (.refl _) (ih hle _)

theorem initVirtioBlk_mono {σ β : Type} {new : ℕ → σ → Except Panic (Option β) × σ} {m n : ℕ}
    (h : m ≤ n) (virtio : Option DtbNode) (s : σ) :
    Le .fuel (d.initVirtioBlk new m virtio s) (d.initVirtioBlk new n virtio s) := by
  induction m generalizing n virtio s with
  | zero => exact .cut _
  | succ m ih =>
    obtain ⟨n, rfl⟩ : ∃ k, n = k + 1 := ⟨n - 1, by omega⟩
    have hle : m ≤ n := by omega
    rw [initVirtioBlk, initVirtioBlk]
    refine .bind ((byCompatible_ends d virtioMmio).searchNode_mono hle virtio) fun r => ?_
    cases r with
    | none => exact .refl _
    | some node =>
      refine .bind (isNodeOperational_mono hle node) fun _ => .ite ?_ (ih hle _ _)
      refine .bind (readRegProperty_mono hle node 0) fun reg => ?_
      cases reg with
      | none => exact .refl _
      | some reg =>
        refine .bind (.refl _) fun blk => ?_
        cases blk with
        | none => exact ih hle _ _
        | some blk => exact .refl _

/-- A node that is not operational is passed over once. -/
theorem Bounded.initPl011SerialPort_ends (h : d.Bounded stop) {fuel : ℕ} {pl011 : Option DtbNode}
    (hfuel : stop + 2 ^ 64 + 4 + remaining stop pl011 < fuel) :
    Ends .fuel (fun _ => True) (d.initPl011SerialPort fuel pl011) := by
  induction fuel generalizing pl011 with
  | zero => omega
  | succ fuel ih =>
    rw [initPl011SerialPort]
    refine .bind ((byCompatible_ends d armPl011).searchNode_ends h (by omega) pl011) fun r hr => ?_
    cases r with
    | none => exact .ok trivial
    | some node =>
      have hlt := hr.remaining_lt
      refine .bind (h.isNodeOperational_ends (by omega) node) fun _ _ => ?_
      exact .ite (fun _ => .ok trivial) fun _ => ih (by omega)

/-- So is a device that the driver does not take. -/
theorem Bounded.initVirtioBlk_ends {σ β : Type} {new : ℕ → σ → Except Panic (Option β) × σ}
    (h : d.Bounded stop) {fuel : ℕ} {virtio : Option DtbNode} {s : σ}
    (hfuel : stop + 2 ^ 64 + 4 + remaining stop virtio < fuel) :
    Ends .fuel (fun _ => True) (d.initVirtioBlk new fuel virtio s) := by
  induction fuel generalizing virtio s with
  | zero => omega
  | succ fuel ih =>
    rw [initVirtioBlk]
    refine .bind ((byCompatible_ends d virtioMmio).searchNode_ends h (by omega) virtio) fun r hr => ?_
    cases r with
    | none => exact .ok trivial
    | some node =>
      have hlt := hr.remaining_lt
      refine .bind (h.isNodeOperational_ends (by omega) node) fun _ _ => ?_
      refine .ite (fun _ => ?_) fun _ => ih (by omega)
      refine .bind (h.readRegProperty_ends (by omega) node 0) fun reg _ => ?_
      match reg with
      | none => exact .error (by decide)
      | some (baseAddress, _) =>
        cases hnew : new baseAddress s with
        | mk blk s' =>
          cases blk with
          | error p =>
            simp only [hnew]
            exact .error (by simp)
          | ok blk =>
            cases blk with
            | some blk =>
              simp only [hnew]
              exact .ok trivial
            | none =>
              simp only [hnew]
              exact ih (by omega)

end Ends

/-- Whatever the blob holds, the walks over it end; a search that resumes finds a node with
a larger address, and so the loops that retry a search end as well. -/
theorem walks_terminate (d : Dtb) :
    (∀ name currentNode, Terminates .fuel fun fuel => d.searchNode fuel name currentNode) ∧
    (∀ compatible currentNode,
      Terminates .fuel fun fuel => d.searchNodeByCompatible fuel compatible currentNode) ∧
    (∀ p, Terminates .fuel fun fuel => d.skipToNextNode fuel p) ∧
    (∀ node name, Terminates .fuel fun fuel => d.getProperty fuel node name) ∧
    (∀ fuel name current n,
      d.searchNode fuel name (some current) = .ok (some n) → current.address < n.address) ∧
    (∀ fuel compatible current n,
      d.searchNodeByCompatible fuel compatible (some current) = .ok (some n) →
        current.address < n.address) ∧
    (Terminates .fuel fun fuel => d.initPl011SerialPort fuel none) ∧
    ∀ {σ β : Type} (new : ℕ → σ → Except Panic (Option β) × σ) (s : σ),
      Terminates .fuel fun fuel => d.initVirtioBlk new fuel none s := by
  obtain ⟨stop, hstop⟩ := d.exists_bounded
  refine ⟨fun name current => (byName_ends d name).searchNode_terminates current,
    fun compatible current => (byCompatible_ends d compatible).searchNode_terminates current,
    skipToNextNode_terminates d, getProperty_terminates d,
    fun _ name _ _ h => (byName_ends d name).searchNode_lt h,
    fun _ compatible _ _ h => (byCompatible_ends d compatible).searchNode_lt h, ?_, ?_⟩
  · exact .of_ends (fun m n hle => initPl011SerialPort_mono hle none)
      (hstop.initPl011SerialPort_ends (Nat.lt_succ_self _))
  · intro σ β new s
    exact .of_ends (fun m n hle => initVirtioBlk_mono hle none s)
      (hstop.initVirtioBlk_ends (Nat.lt_succ_self _))

end Min1visor.Dtb
