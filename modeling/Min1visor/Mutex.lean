import Min1visor.Library.Runs
import Mathlib.Logic.Function.Basic
import Mathlib.Tactic

/-!
# Locks and interrupts

A lock is taken with interrupts masked, and its guard keeps the mask of before. The CPU is
modelled step by step: between any two of them an interrupt that is not masked may start a
handler, which takes locks of its own on top of the code it interrupted. Other CPUs take and
release the locks that this one does not hold.
-/
namespace Min1visor.Mutex

variable {μ : Type}

/-- The masks of IRQ and FIQ in `DAIF`. -/
def irqFiq : BitVec 64 := (1 <<< 7) ||| (1 <<< 6)

/-- `DAIF` at the entry of a handler: the CPU masks everything. -/
def entryDaif : BitVec 64 := 0b1111 <<< 6

/-- A guard, with the mask that its drop restores. -/
structure MutexGuard (μ : Type) where
  lock : μ
  state : BitVec 64

/-- What the code does next. -/
inductive Next (μ : Type)
  | run
  /-- `lock`: load the flag. -/
  | spin (lock : μ)
  /-- `disable_interrupts`: read `DAIF`. -/
  | save (lock : μ)
  /-- `disable_interrupts`: write it back, with the masks. -/
  | mask (lock : μ) (state : BitVec 64)
  | compareExchange (lock : μ) (state : BitVec 64)
  /-- The exchange failed: `restore_interrupts`, and back to the spin. -/
  | undo (lock : μ) (state : BitVec 64)
  /-- `drop`: the flag is cleared, `restore_interrupts` is left. -/
  | restore (state : BitVec 64)

/-- Code with the guards it holds, the last one first, and `DAIF` as it was when it asked
for the first of them. -/
structure Frame (μ : Type) where
  next : Next μ
  guards : List (MutexGuard μ)
  before : BitVec 64

/-- The CPU, the flags of all locks, and the code under the running handlers with the `DAIF`
it returns to. -/
structure Cpu (μ : Type) where
  daif : BitVec 64
  locked : μ → Bool
  frame : Frame μ
  interrupted : List (Frame μ × BitVec 64)

namespace Cpu

def boot (daif : BitVec 64) (locked : μ → Bool) : Cpu μ := ⟨daif, locked, ⟨.run, [], daif⟩, []⟩

def goto (c : Cpu μ) (next : Next μ) : Cpu μ := { c with frame := { c.frame with next } }

/-- All guards of this CPU. -/
def guards (c : Cpu μ) : List (MutexGuard μ) :=
  c.frame.guards ++ c.interrupted.flatMap fun p => p.1.guards

/-- `Mutex::lock`, up to its loop. -/
def lock (c : Cpu μ) (m : μ) : Cpu μ :=
  { c with frame := { c.frame with
      next := .spin m
      before := if c.frame.guards.isEmpty then c.daif else c.frame.before } }

/-- One instruction of `lock` or `drop`. -/
def advance [DecidableEq μ] (c : Cpu μ) : Except Unit (Cpu μ) :=
  match c.frame.next with
  | .run => .error ()
  | .spin m => .ok (if c.locked m then c else c.goto (.save m))
  | .save m => .ok (c.goto (.mask m c.daif))
  | .mask m state => .ok { c.goto (.compareExchange m state) with daif := state ||| irqFiq }
  | .compareExchange m state =>
    if c.locked m then .ok (c.goto (.undo m state))
    else .ok { c with
      locked := Function.update c.locked m true
      frame := { c.frame with next := .run, guards := ⟨m, state⟩ :: c.frame.guards } }
  | .undo m state => .ok { c.goto (.spin m) with daif := state }
  | .restore state => .ok { c.goto .run with daif := state }

/-- `MutexGuard::drop` of the last guard, up to the store of the flag. -/
def drop [DecidableEq μ] (c : Cpu μ) : Except Unit (Cpu μ) :=
  match c.frame.guards with
  | [] => .error ()
  | g :: guards => .ok { c with
      locked := Function.update c.locked g.lock false
      frame := { c.frame with next := .restore g.state, guards } }

/-- A handler starts on top of the code. -/
def enter (c : Cpu μ) : Cpu μ :=
  { c with
    daif := entryDaif
    frame := ⟨.run, [], entryDaif⟩
    interrupted := (c.frame, c.daif) :: c.interrupted }

/-- A handler that holds no guard returns. -/
def eret (c : Cpu μ) : Except Unit (Cpu μ) :=
  match c.frame.guards, c.interrupted with
  | [], (frame, daif) :: interrupted => .ok { c with daif, frame, interrupted }
  | _, _ => .error ()

end Cpu

inductive Event (μ : Type)
  | lock (m : μ)
  | advance
  | drop
  | irq
  | fiq
  | eret
  /-- `set_daif_irq`, by code that holds no guard. -/
  | setDaifIrq
  /-- Another CPU changes the flag of a lock that this one does not hold. -/
  | other (m : μ) (value : Bool)

/-- The code runs outside of `lock` and `drop`. -/
def Frame.running (f : Frame μ) : Bool :=
  match f.next with
  | .run => true
  | _ => false

def step [DecidableEq μ] (c : Cpu μ) : Event μ → Except Unit (Cpu μ)
  | .lock m => if c.frame.running then .ok (c.lock m) else .error ()
  | .advance => c.advance
  | .drop => if c.frame.running then c.drop else .error ()
  | .irq => if c.daif.getLsbD 7 then .error () else .ok c.enter
  | .fiq => if c.daif.getLsbD 6 then .error () else .ok c.enter
  | .eret => if c.frame.running then c.eret else .error ()
  | .setDaifIrq =>
    if c.frame.running ∧ c.frame.guards.isEmpty then
      .ok { c with daif := c.daif &&& ~~~((1 : BitVec 64) <<< 7) }
    else .error ()
  | .other m value =>
    if c.guards.any fun g => g.lock = m then .error ()
    else .ok { c with locked := Function.update c.locked m value }

/-! ## What a frame keeps -/

/-- IRQ and FIQ are masked. -/
def Masked (daif : BitVec 64) : Prop := daif.getLsbD 7 = true ∧ daif.getLsbD 6 = true

theorem masked_or (daif : BitVec 64) : Masked (daif ||| irqFiq) := by
  have h7 : irqFiq.getLsbD 7 = true := by decide
  have h6 : irqFiq.getLsbD 6 = true := by decide
  exact ⟨by rw [BitVec.getLsbD_or, h7, Bool.or_true], by rw [BitVec.getLsbD_or, h6, Bool.or_true]⟩

/-- The mask that is saved on top of some guards: the one of before under none of them, and
otherwise one with interrupts masked. -/
def SavedOver (before : BitVec 64) : List (MutexGuard μ) → BitVec 64 → Prop
  | [], state => state = before
  | _ :: _, state => Masked state

/-- Every guard restores what was saved on top of the guards under it. -/
def Stacked (before : BitVec 64) : List (MutexGuard μ) → Prop
  | [] => True
  | g :: guards => SavedOver before guards g.state ∧ Stacked before guards

/-- What is known at the next instruction. -/
def Ready (f : Frame μ) (daif : BitVec 64) : Next μ → Prop
  | .run => True
  | .spin _ | .save _ => SavedOver f.before f.guards daif
  | .mask _ state => SavedOver f.before f.guards state
  | .compareExchange _ state | .undo _ state | .restore state =>
    SavedOver f.before f.guards state ∧ Masked daif

/-- The code holds guards only with interrupts masked, and what it has saved is the mask of
before or has them masked. -/
structure Frame.Sound (f : Frame μ) (daif : BitVec 64) : Prop where
  held : f.guards ≠ [] → Masked daif
  stacked : Stacked f.before f.guards
  ready : Ready f daif f.next

/-- The running code is sound, and no code that was interrupted holds a guard. -/
structure Cpu.Sound (c : Cpu μ) : Prop where
  frame : c.frame.Sound c.daif
  interrupted : ∀ p ∈ c.interrupted, p.1.Sound p.2 ∧ p.1.guards = []

theorem SavedOver.masked {before state : BitVec 64} {guards : List (MutexGuard μ)}
    (h : SavedOver before guards state) (hguards : guards ≠ []) : Masked state := by
  cases guards with
  | nil => exact absurd rfl hguards
  | cons g guards => exact h

theorem savedOver_of_held {before daif : BitVec 64} {guards : List (MutexGuard μ)}
    (hheld : guards ≠ [] → Masked daif) (hbefore : guards = [] → daif = before) :
    SavedOver before guards daif := by
  cases guards with
  | nil => exact hbefore rfl
  | cons g guards => exact hheld (by simp)

theorem sound_start (daif before : BitVec 64) : (⟨.run, [], before⟩ : Frame μ).Sound daif :=
  ⟨fun h => absurd rfl h, trivial, trivial⟩

namespace Cpu

theorem Sound.boot (daif : BitVec 64) (locked : μ → Bool) : (boot daif locked).Sound :=
  ⟨sound_start daif daif, fun _ hp => absurd hp List.not_mem_nil⟩

/-! ## Steps -/

theorem Sound.lock {c : Cpu μ} (h : c.Sound) (m : μ) : (c.lock m).Sound := by
  refine ⟨⟨h.frame.held, ?_, ?_⟩, h.interrupted⟩
  · have hstacked := h.frame.stacked
    cases hguards : c.frame.guards with
    | nil => simp [Cpu.lock, hguards, Stacked]
    | cons g guards =>
      rw [hguards] at hstacked
      simpa [Cpu.lock, hguards] using hstacked
  · apply savedOver_of_held h.frame.held
    intro hguards
    simp [Cpu.lock, show c.frame.guards = [] from hguards]

theorem Sound.advance [DecidableEq μ] {c c' : Cpu μ} (h : c.Sound) (hc : c.advance = .ok c') :
    c'.Sound := by
  obtain ⟨⟨hheld, hstacked, hready⟩, hinterrupted⟩ := h
  unfold Cpu.advance at hc
  cases hnext : c.frame.next with
  | run =>
    rw [hnext] at hc
    cases hc
  | spin m =>
    rw [hnext] at hc hready
    cases hc
    split_ifs
    · exact ⟨⟨hheld, hstacked, by rw [hnext]; exact hready⟩, hinterrupted⟩
    · exact ⟨⟨hheld, hstacked, hready⟩, hinterrupted⟩
  | save m =>
    rw [hnext] at hc hready
    cases hc
    exact ⟨⟨hheld, hstacked, hready⟩, hinterrupted⟩
  | mask m state =>
    rw [hnext] at hc hready
    cases hc
    exact ⟨⟨fun _ => masked_or state, hstacked, hready, masked_or state⟩, hinterrupted⟩
  | compareExchange m state =>
    rw [hnext] at hc hready
    dsimp only at hc
    split_ifs at hc
    · cases hc
      exact ⟨⟨hheld, hstacked, hready⟩, hinterrupted⟩
    · -- The guard is on top, and keeps what was saved over the others.
      cases hc
      exact ⟨⟨fun _ => hready.2, ⟨hready.1, hstacked⟩, trivial⟩, hinterrupted⟩
  | undo m state =>
    rw [hnext] at hc hready
    cases hc
    exact ⟨⟨hready.1.masked, hstacked, hready.1⟩, hinterrupted⟩
  | restore state =>
    rw [hnext] at hc hready
    cases hc
    exact ⟨⟨hready.1.masked, hstacked, trivial⟩, hinterrupted⟩

theorem Sound.drop [DecidableEq μ] {c c' : Cpu μ} (h : c.Sound) (hc : c.drop = .ok c') :
    c'.Sound := by
  have hheld := h.frame.held
  have hstacked := h.frame.stacked
  unfold Cpu.drop at hc
  cases hguards : c.frame.guards with
  | nil =>
    rw [hguards] at hc
    cases hc
  | cons g guards =>
    rw [hguards] at hc hstacked
    cases hc
    have hmasked : Masked c.daif := hheld (by simp [hguards])
    exact ⟨⟨fun _ => hmasked, hstacked.2, hstacked.1, hmasked⟩, h.interrupted⟩

/-- With a guard anywhere, both kinds of interrupts are masked. -/
theorem Sound.masked {c : Cpu μ} (h : c.Sound) (hguards : c.guards ≠ []) : Masked c.daif := by
  apply h.frame.held
  intro hframe
  apply hguards
  rw [guards, hframe, List.nil_append, List.flatMap_eq_nil_iff]
  exact fun p hp => (h.interrupted p hp).2

theorem Sound.enter {c : Cpu μ} (h : c.Sound) (hguards : c.guards = []) : c.enter.Sound := by
  refine ⟨sound_start _ _, fun p hp => ?_⟩
  rcases List.mem_cons.mp hp with rfl | hp
  · exact ⟨h.frame, (List.append_eq_nil_iff.mp hguards).1⟩
  · exact h.interrupted p hp

theorem Sound.eret {c c' : Cpu μ} (h : c.Sound) (hc : c.eret = .ok c') : c'.Sound := by
  unfold Cpu.eret at hc
  split at hc
  · rename_i frame daif interrupted hguards hinterrupted
    cases hc
    have hall := h.interrupted
    rw [hinterrupted] at hall
    obtain ⟨htop, hrest⟩ := List.forall_mem_cons.mp hall
    exact ⟨htop.1, hrest⟩
  · cases hc

end Cpu

/-- An interrupt is taken only when no guard is held. -/
theorem guards_of_unmasked {c : Cpu μ} (h : c.Sound) {bit : ℕ} (hbit : bit = 7 ∨ bit = 6)
    (hopen : c.daif.getLsbD bit = false) : c.guards = [] := by
  by_contra hguards
  obtain ⟨h7, h6⟩ := h.masked hguards
  rcases hbit with rfl | rfl
  · exact absurd (h7.symm.trans hopen) (by decide)
  · exact absurd (h6.symm.trans hopen) (by decide)

theorem step_sound [DecidableEq μ] {c c' : Cpu μ} {e : Event μ} (h : c.Sound)
    (hc : step c e = .ok c') : c'.Sound := by
  cases e with
  | lock m =>
    simp only [step] at hc
    split_ifs at hc
    cases hc
    exact h.lock m
  | advance => exact h.advance hc
  | drop =>
    simp only [step] at hc
    split_ifs at hc
    exact h.drop hc
  | irq =>
    simp only [step] at hc
    split_ifs at hc with hopen
    cases hc
    exact h.enter (guards_of_unmasked h (.inl rfl) (by simpa using hopen))
  | fiq =>
    simp only [step] at hc
    split_ifs at hc with hopen
    cases hc
    exact h.enter (guards_of_unmasked h (.inr rfl) (by simpa using hopen))
  | eret =>
    simp only [step] at hc
    split_ifs at hc
    exact h.eret hc
  | setDaifIrq =>
    simp only [step] at hc
    split_ifs at hc with hidle
    cases hc
    obtain ⟨hrunning, hempty⟩ := hidle
    have hguards : c.frame.guards = [] := by simpa using hempty
    refine ⟨⟨fun hne => absurd hguards hne, h.frame.stacked, ?_⟩, h.interrupted⟩
    cases hnext : c.frame.next with
    | run => trivial
    | _ => simp [Frame.running, hnext] at hrunning
  | other m value =>
    simp only [step] at hc
    split_ifs at hc
    cases hc
    exact ⟨h.frame, h.interrupted⟩

/-! ## From the outermost lock to the drop of its guard -/

/-- The code holds no guard and is not about to. -/
def Frame.Idle (f : Frame μ) : Prop := f.running = true ∧ f.guards = []

/-- What a step does to the code on the CPU: only idle code returns, and only idle code takes
a new value of `DAIF` for the one of before; what becomes idle has it back. -/
inductive Moved (c c' : Cpu μ) : Prop
  | kept (hinterrupted : c'.interrupted = c.interrupted)
      (hframe : c.frame.Idle ∨ c'.frame.before = c.frame.before ∧
        (c'.frame.Idle → c'.daif = c'.frame.before))
  | entered (hinterrupted : c'.interrupted = (c.frame, c.daif) :: c.interrupted)
  | returned (hidle : c.frame.Idle)
      (hinterrupted : (c'.frame, c'.daif) :: c'.interrupted = c.interrupted)

theorem moved_advance [DecidableEq μ] {c c' : Cpu μ} (h : c.Sound) (hc : c.advance = .ok c') :
    Moved c c' := by
  have hready := h.frame.ready
  unfold Cpu.advance at hc
  cases hnext : c.frame.next with
  | run =>
    rw [hnext] at hc
    cases hc
  | spin m =>
    rw [hnext] at hc
    cases hc
    split_ifs
    · exact .kept rfl (.inr ⟨rfl, fun hidle => by simp [Frame.Idle, Frame.running, hnext] at hidle⟩)
    · exact .kept rfl (.inr ⟨rfl, fun hidle => absurd hidle.1 Bool.false_ne_true⟩)
  | save m =>
    rw [hnext] at hc
    cases hc
    exact .kept rfl (.inr ⟨rfl, fun hidle => absurd hidle.1 Bool.false_ne_true⟩)
  | mask m state =>
    rw [hnext] at hc
    cases hc
    exact .kept rfl (.inr ⟨rfl, fun hidle => absurd hidle.1 Bool.false_ne_true⟩)
  | compareExchange m state =>
    rw [hnext] at hc
    dsimp only at hc
    split_ifs at hc
    · cases hc
      exact .kept rfl (.inr ⟨rfl, fun hidle => absurd hidle.1 Bool.false_ne_true⟩)
    · cases hc
      exact .kept rfl (.inr ⟨rfl, fun hidle => absurd hidle.2 (List.cons_ne_nil _ _)⟩)
  | undo m state =>
    rw [hnext] at hc
    cases hc
    exact .kept rfl (.inr ⟨rfl, fun hidle => absurd hidle.1 Bool.false_ne_true⟩)
  | restore state =>
    rw [hnext] at hc hready
    cases hc
    refine .kept rfl (.inr ⟨rfl, fun hidle => ?_⟩)
    have hsaved : SavedOver c.frame.before c.frame.guards state := hready.1
    rw [show c.frame.guards = [] from hidle.2] at hsaved
    exact hsaved

theorem step_moved [DecidableEq μ] {c c' : Cpu μ} {e : Event μ} (h : c.Sound)
    (hc : step c e = .ok c') : Moved c c' := by
  cases e with
  | lock m =>
    simp only [step] at hc
    split_ifs at hc with hrunning
    cases hc
    by_cases hguards : c.frame.guards = []
    · exact .kept rfl (.inl ⟨hrunning, hguards⟩)
    · refine .kept rfl (.inr ⟨?_, fun hidle => absurd hidle.1 Bool.false_ne_true⟩)
      simp [Cpu.lock, hguards]
  | advance => exact moved_advance h hc
  | drop =>
    simp only [step, Cpu.drop] at hc
    split_ifs at hc
    cases hguards : c.frame.guards with
    | nil =>
      rw [hguards] at hc
      cases hc
    | cons g guards =>
      rw [hguards] at hc
      cases hc
      exact .kept rfl (.inr ⟨rfl, fun hidle => absurd hidle.1 Bool.false_ne_true⟩)
  | irq =>
    simp only [step] at hc
    split_ifs at hc
    cases hc
    exact .entered rfl
  | fiq =>
    simp only [step] at hc
    split_ifs at hc
    cases hc
    exact .entered rfl
  | eret =>
    simp only [step, Cpu.eret] at hc
    split_ifs at hc with hrunning
    split at hc
    · rename_i frame daif interrupted hguards hinterrupted
      cases hc
      exact .returned ⟨hrunning, hguards⟩ hinterrupted.symm
    · cases hc
  | setDaifIrq =>
    simp only [step] at hc
    split_ifs at hc with hidle
    cases hc
    exact .kept rfl (.inl ⟨hidle.1, by simpa using hidle.2⟩)
  | other m value =>
    simp only [step] at hc
    split_ifs at hc
    cases hc
    by_cases hidle : c.frame.Idle
    · exact .kept rfl (.inl hidle)
    · exact .kept rfl (.inr ⟨rfl, fun hidle' => absurd hidle' hidle⟩)

/-- The CPU runs a frame over some code, or handlers that interrupted it; the frame remembers
the value of before, and has it back when it is idle. -/
def Over (base : List (Frame μ × BitVec 64)) (before : BitVec 64) (c : Cpu μ) : Prop :=
  ∃ handlers f daif, (c.frame, c.daif) :: c.interrupted = handlers ++ (f, daif) :: base ∧
    f.before = before ∧ (f.Idle → daif = before)

/-- The frame over the base runs, and is idle. -/
def IdleOver (base : List (Frame μ × BitVec 64)) (c : Cpu μ) : Prop :=
  c.interrupted.length = base.length ∧ c.frame.Idle

theorem Over.moved {base : List (Frame μ × BitVec 64)} {before : BitVec 64} {c c' : Cpu μ}
    (h : Over base before c) (hidle : ¬ IdleOver base c) (hmoved : Moved c c') :
    Over base before c' := by
  obtain ⟨handlers, f, daif, hstack, hbefore, hback⟩ := h
  cases handlers with
  | nil =>
    -- The frame itself runs, and it is not idle.
    obtain ⟨hf, rfl⟩ := List.cons.inj hstack
    cases hf
    have hbusy : ¬ c.frame.Idle := fun hframe => hidle ⟨rfl, hframe⟩
    cases hmoved with
    | kept hinterrupted hframe =>
      obtain ⟨hsame, hrestored⟩ := hframe.resolve_left hbusy
      refine ⟨[], c'.frame, c'.daif, by rw [hinterrupted]; rfl, hsame.trans hbefore, fun hf => ?_⟩
      rw [hrestored hf, hsame, hbefore]
    | entered hinterrupted =>
      exact ⟨[(c'.frame, c'.daif)], c.frame, c.daif, by rw [hinterrupted]; rfl, hbefore, hback⟩
    | returned hframe _ => exact absurd hframe hbusy
  | cons top handlers =>
    obtain ⟨-, hrest⟩ := List.cons.inj hstack
    cases hmoved with
    | kept hinterrupted _ =>
      exact ⟨(c'.frame, c'.daif) :: handlers, f, daif, by rw [hinterrupted, hrest]; rfl, hbefore, hback⟩
    | entered hinterrupted =>
      refine ⟨(c'.frame, c'.daif) :: (c.frame, c.daif) :: handlers, f, daif, ?_, hbefore, hback⟩
      rw [hinterrupted, hrest]
      rfl
    | returned _ hinterrupted => exact ⟨handlers, f, daif, hinterrupted.trans hrest, hbefore, hback⟩

/-- Until it is idle again, the frame stays over its base. -/
theorem run_over [DecidableEq μ] {base : List (Frame μ × BitVec 64)} {before : BitVec 64}
    (events : List (Event μ)) {c c' : Cpu μ} (hsound : c.Sound) (h : Over base before c)
    (hbusy : Runs.Along step (fun c _ => ¬ IdleOver base c) c events)
    (hrun : Runs.run step c events = .ok c') : Over base before c' := by
  have hboth := Runs.run_invariant (fun c => Cpu.Sound c ∧ Over base before c)
    (fun c e c' hc hidle hstep =>
      ⟨step_sound hc.1 hstep, hc.2.moved hidle (step_moved hc.1 hstep)⟩)
    events c c' ⟨hsound, h⟩ hbusy hrun
  exact hboth.2

/-- Over every run: a handler starts only when no guard is held, no interrupted code holds one,
and from the call of the outermost lock on, the next time that the code is idle `DAIF` is as it
was. -/
theorem run_protected [DecidableEq μ] {daif : BitVec 64} {locked : μ → Bool} {events : List (Event μ)}
    {c : Cpu μ} (h : Runs.run step (.boot daif locked) events = .ok c) :
    (∀ e c', e = .irq ∨ e = .fiq → step c e = .ok c' → c.guards = []) ∧
      (∀ p ∈ c.interrupted, p.1.guards = []) ∧
      ∀ (m : μ) (inner : List (Event μ)) (c' : Cpu μ), c.frame.Idle →
        Runs.Along step (fun c₁ _ => ¬ IdleOver c.interrupted c₁) (c.lock m) inner →
        Runs.run step (c.lock m) inner = .ok c' → IdleOver c.interrupted c' →
          c'.daif = c.daif ∧ c'.interrupted = c.interrupted := by
  have hsound := Runs.run_preserves Cpu.Sound (fun c e c' hc hstep => step_sound hc hstep) events _ c
    (Cpu.Sound.boot daif locked) h
  refine ⟨fun e c' he hstep => ?_, fun p hp => (hsound.interrupted p hp).2, ?_⟩
  · rcases he with rfl | rfl
    · simp only [step] at hstep
      split_ifs at hstep with hopen
      exact guards_of_unmasked hsound (.inl rfl) (by simpa using hopen)
    · simp only [step] at hstep
      split_ifs at hstep with hopen
      exact guards_of_unmasked hsound (.inr rfl) (by simpa using hopen)
  · intro m inner c' hidle hbusy hrun hend
    have hstart : Over c.interrupted c.daif (c.lock m) := by
      refine ⟨[], (c.lock m).frame, c.daif, rfl, ?_, fun hf => absurd hf.1 Bool.false_ne_true⟩
      simp [Cpu.lock, hidle.2]
    obtain ⟨handlers, f, daif', hstack, hbefore, hback⟩ :=
      run_over inner (hsound.lock m) hstart hbusy hrun
    have hlength := congrArg List.length hstack
    rw [List.length_cons, List.length_append, List.length_cons, hend.1] at hlength
    have hnone : handlers = [] := List.eq_nil_of_length_eq_zero (by omega)
    subst hnone
    obtain ⟨hf, hinterrupted⟩ := List.cons.inj hstack
    cases hf
    exact ⟨hback hend.2, hinterrupted⟩

/-- A handler that came between the load of the flag and the mask, and waits for the lock that
the code below it is about to take. -/
theorem run_protected_handler :
    ∃ c : Cpu ℕ, Runs.run step (.boot 0 fun _ => false) [.lock 0, .advance, .irq, .lock 0] = .ok c ∧
      c.interrupted.length = 1 ∧ ∀ p ∈ c.interrupted, p.1.guards = [] := by
  obtain ⟨c, hrun, hlength⟩ : ∃ c : Cpu ℕ, Runs.run step (.boot 0 fun _ => false)
      [.lock 0, .advance, .irq, .lock 0] = .ok c ∧ c.interrupted.length = 1 := ⟨_, rfl, rfl⟩
  exact ⟨c, hrun, hlength, (run_protected hrun).2.1⟩

/-- Taking a lock twice on the CPU spins with interrupts masked. -/
example : ∃ c : Cpu ℕ, Runs.run step (.boot 0 fun _ => false)
    [.lock 0, .advance, .advance, .advance, .advance, .lock 0, .advance] = .ok c ∧
      c.daif = 0xC0 := ⟨_, rfl, rfl⟩

end Min1visor.Mutex
