import Min1visor.Pl011Receive
import Min1visor.Library.Answers

/-!
# The driver of the PL011 on the emulated device

The hypervisor talks to its own UART with a driver, and to its guest as an emulated UART. A
guest with the same driver reads what arrives, each byte once and in order, and prints what
it is told to print. What it sends is printed by the hypervisor as a character of its own, so
both add a carriage return before a line feed, and a byte that is not ASCII comes out as two.
-/
namespace Min1visor.Pl011Driver
open Pl011

def uartFrTxff : BitVec 32 := 1 <<< 5
def uartFrRxfe : BitVec 32 := 1 <<< 4
def uartCrRxe : BitVec 32 := 1 <<< 9
def uartCrTxe : BitVec 32 := 1 <<< 8
def uartCrUarten : BitVec 32 := 1
def uartImscRxim : BitVec 32 := 1 <<< 4
def uartImscRtim : BitVec 32 := 1 <<< 6

namespace Serial

/-- `write_str` of the serial port of the hypervisor, as the bytes that its UART sends. -/
def writeStr (s : List UInt8) : List UInt8 :=
  s.flatMap fun c => if c = 0x0a then [0x0d, c] else [c]

/-- `print!("{}", c as char)`. -/
def print (c : UInt8) : List UInt8 := writeStr (String.utf8EncodeChar (Char.ofNat c.toNat))

end Serial

/-- The emulated device, with the bytes that the hypervisor has sent to print its characters. -/
structure Board where
  device : Pl011Mmio
  console : List UInt8
  deriving DecidableEq, Repr

namespace Board

def new : Board := ⟨.new, []⟩

def read32 (b : Board) (offset : ℕ) : BitVec 32 × Board :=
  (BitVec.ofNat 32 (b.device.read offset).1, { b with device := (b.device.read offset).2 })

def write32 (b : Board) (offset : ℕ) (value : BitVec 32) : Board where
  device := (b.device.write offset value.toNat).1
  console := b.console ++ (b.device.write offset value.toNat).2.toList.flatMap Serial.print

/-! ## The driver -/

def isTxFifoFull (b : Board) : Bool × Board :=
  let (flag, b) := b.read32 uartFr
  (flag &&& uartFrTxff ≠ 0, b)

def isRxFifoEmpty (b : Board) : Bool × Board :=
  let (flag, b) := b.read32 uartFr
  (flag &&& uartFrRxfe ≠ 0, b)

def enableUart (b : Board) : Board := b.write32 uartCr (uartCrRxe ||| uartCrTxe ||| uartCrUarten)

def clearInterrpt (b : Board) : Board := b.write32 uartIcr 0x7ff

def enableInterrupt (b : Board) : Board :=
  let b := (b.enableUart).write32 uartIcr 0x7ff
  let (mask, b) := b.read32 uartImsc
  b.write32 uartImsc (mask ||| uartImscRxim ||| uartImscRtim)

/-- Wait for room and send a byte. -/
def putc (c : UInt8) : ℕ → Board → Option Board
  | 0, _ => none
  | fuel + 1, b =>
    let (full, b) := b.isTxFifoFull
    if full then putc c fuel b else some (b.write32 uartDr (BitVec.ofNat 32 c.toNat))

def getc (b : Board) : Option UInt8 × Board :=
  let (empty, b) := b.isRxFifoEmpty
  if empty then (none, b)
  else
    let (c, b) := b.read32 uartDr
    (some (UInt8.ofNat c.toNat), b)

/-- `write_str` of the serial port of the guest. -/
def writeStr (fuel : ℕ) : List UInt8 → Board → Option Board
  | [], b => some b
  | c :: s, b => do
    let b ← if c = 0x0a then putc 0x0d fuel b else some b
    writeStr fuel s (← putc c fuel b)

/-- The loop of `input_uart`, with the bytes that it passes on. -/
def inputLoop : ℕ → Board → Option (List UInt8 × Board)
  | 0, _ => none
  | fuel + 1, b => do
    match b.getc with
    | (none, b) => return ([], b)
    | (some c, b) =>
      let (cs, b) ← inputLoop fuel b
      return (c :: cs, b)

def inputUart (fuel : ℕ) (b : Board) : Option (List UInt8 × Board) := do
  let (cs, b) ← inputLoop fuel b
  return (cs, b.clearInterrpt)

end Board

/-! ## What the guest is connected to -/

/-- A byte arrives for the guest, or the guest handles its interrupt or prints. -/
inductive Call
  | push (data : UInt8)
  | inputUart
  | print (s : List UInt8)

/-- Whether the interrupt was raised, and what the handler has read. -/
inductive Answer
  | raised (interrupt : Bool)
  | input (bytes : List UInt8)
  | printed
  deriving DecidableEq

def Call.exec (fuel : ℕ) (b : Board) : Call → Option Answer × Board
  | .push data => (some (.raised (b.device.push data).2), { b with device := (b.device.push data).1 })
  | .inputUart =>
    match b.inputUart fuel with
    | some (bytes, b) => (some (.input bytes), b)
    | none => (none, b)
  | .print s =>
    match b.writeStr fuel s with
    | some b => (some .printed, b)
    | none => (none, b)

/-- A line in both directions: the bytes that wait for the guest, whether any has arrived yet,
and what was printed. -/
structure Terminal where
  waiting : List UInt8
  heard : Bool
  console : List UInt8

namespace Terminal

def new : Terminal := ⟨[], false, []⟩

/-- What a byte of a string comes to: a line feed is behind two carriage returns, and a byte
that is not ASCII has become a character of two bytes. -/
def shown (c : UInt8) : List UInt8 :=
  if c = 0x0a then [0x0d, 0x0d, 0x0a]
  else if c < 0x80 then [c]
  else [0xC0 + c / 64, 0x80 + c % 64]

def step (t : Terminal) : Call → Option Answer × Terminal
  | .push data => (some (.raised true), { t with waiting := t.waiting ++ [data], heard := true })
  | .inputUart => (some (.input t.waiting), { t with waiting := [] })
  | .print s => (some .printed, { t with console := t.console ++ s.flatMap shown })

/-- The byte is not 0 and is the third at most, and the handler runs once a byte has arrived. -/
def Regular (t : Terminal) : Call → Prop
  | .push data => data ≠ 0 ∧ t.waiting.length < 3
  | .inputUart => t.heard = true
  | .print _ => True

end Terminal

/-! ## The characters -/

/-- The encoding of a byte as a character. -/
theorem utf8EncodeChar_byte (c : UInt8) : String.utf8EncodeChar (Char.ofNat c.toNat) =
    if c < 0x80 then [c] else [0xC0 + c / 64, 0x80 + c % 64] := by
  have hlt := c.toNat_lt
  have hval : (Char.ofNat c.toNat).val.toNat = c.toNat := by
    rw [Char.ofNat, dif_pos (Or.inl (by omega))]
    rfl
  have hlow : c < 0x80 ↔ c.toNat ≤ 0x7f := by
    rw [UInt8.lt_iff_toNat_lt]
    exact Nat.lt_succ_iff
  simp only [String.utf8EncodeChar, hval, hlow]
  by_cases h : c.toNat ≤ 0x7f
  · simp [h]
  · have hdiv : UInt8.ofNat (c.toNat / 64 % 32) = c / 64 := by
      apply UInt8.toNat.inj
      simp
      omega
    have hmod : UInt8.ofNat (c.toNat % 64) = c % 64 := by
      apply UInt8.toNat.inj
      simp
      omega
    rw [if_neg h, if_neg h, if_pos (show c.toNat ≤ 0x7ff by omega)]
    simp [hdiv, hmod, UInt8.add_comm]

theorem Serial.writeStr_eq {s : List UInt8} (h : ∀ c ∈ s, c ≠ 0x0a) : writeStr s = s := by
  induction s with
  | nil => rfl
  | cons c s ih =>
    have hrest := ih fun b hb => h b (List.mem_cons_of_mem c hb)
    simp only [writeStr] at hrest ⊢
    simp [h c List.mem_cons_self, hrest]

theorem Serial.print_feed : print 0x0a = [0x0d, 0x0a] := by
  rw [print, utf8EncodeChar_byte]
  rfl

/-- Only a line feed has one in its encoding. -/
theorem Serial.print_eq {c : UInt8} (h : c ≠ 0x0a) : print c = Terminal.shown c := by
  rw [print, utf8EncodeChar_byte, Terminal.shown, if_neg h]
  apply writeStr_eq
  split_ifs with hlow
  · simpa using h
  · have hfirst : 0xC0 + c / 64 ≠ 0x0a := by
      intro hfeed
      have hlt := c.toNat_lt
      have hnat := congrArg UInt8.toNat hfeed
      simp at hnat
      omega
    have hsecond : 0x80 + c % 64 ≠ 0x0a := by
      intro hfeed
      have hnat := congrArg UInt8.toNat hfeed
      simp at hnat
      omega
    simp [hfirst, hsecond]

/-! ## The registers -/

theorem readData_frame (p : Pl011Mmio) : p.readData.2.interruptMask = p.interruptMask ∧
    p.readData.2.flag.getLsbD 5 = p.flag.getLsbD 5 := by
  rw [Pl011Mmio.readData]
  dsimp only
  split_ifs
  · refine ⟨rfl, (BitSet.getLsbD_insert p.flag (show 4 < 16 by decide) 5).trans ?_⟩
    simp
  · exact ⟨rfl, rfl⟩

theorem readData_value (p : Pl011Mmio) : p.readData.1 = (p.readBuffer.getD 0 0).toNat := by
  rw [Pl011Mmio.readData]
  dsimp only
  split_ifs <;> rfl

theorem push_txff (p : Pl011Mmio) (data : UInt8) :
    (p.push data).1.flag.getLsbD 5 = p.flag.getLsbD 5 := by
  have hflag : (p.flag &&& ~~~Pl011.uartFrRxfe).getLsbD 5 = p.flag.getLsbD 5 :=
    (BitSet.getLsbD_erase p.flag 4 5).trans (by simp)
  simp only [Pl011Mmio.push]
  split_ifs
  · exact hflag
  · exact hflag

namespace Board
variable {b : Board}

theorem read32_fr (b : Board) : b.read32 uartFr = (b.device.flag.setWidth 32, b) := by
  have hread : b.device.read uartFr = (b.device.flag.toNat, b.device) := by
    simp [Pl011Mmio.read, uartFr, uartDr]
  rw [read32, hread, BitVec.ofNat_toNat]

theorem flag_bit (flag : BitVec 16) {i : ℕ} (hi : i < 16) :
    (flag.setWidth 32 &&& (1 : BitVec 32) <<< i ≠ 0) ↔ flag.getLsbD i = true := by
  rw [BitSet.and_bit_ne_zero _ (show i < 32 by omega), BitVec.getLsbD_setWidth]
  simp
  omega

@[simp] theorem isTxFifoFull_eq (b : Board) :
    b.isTxFifoFull = (b.device.flag.getLsbD 5, b) := by
  have hbit := flag_bit b.device.flag (show 5 < 16 by decide)
  rw [isTxFifoFull, read32_fr]
  refine Prod.ext ?_ rfl
  exact (Bool.decide_congr hbit).trans Bool.decide_eq_true

@[simp] theorem isRxFifoEmpty_eq (b : Board) : b.isRxFifoEmpty = (b.device.rxfe, b) := by
  have hbit := flag_bit b.device.flag (show 4 < 16 by decide)
  have hrxfe := BitSet.and_bit_ne_zero b.device.flag (show 4 < 16 by decide)
  rw [isRxFifoEmpty, read32_fr]
  refine Prod.ext ?_ rfl
  exact Bool.decide_congr (hbit.trans hrxfe.symm)

theorem getc_none (h : b.device.rxfe = true) : b.getc = (none, b) := by
  simp [getc, h]

theorem getc_some (h : b.device.rxfe = false) :
    b.getc = (some (UInt8.ofNat b.device.readData.1), { b with device := b.device.readData.2 }) := by
  have hread : b.device.read uartDr = b.device.readData := by simp [Pl011Mmio.read]
  have hlt : b.device.readData.1 % 4294967296 = b.device.readData.1 := by
    apply Nat.mod_eq_of_lt
    have hbyte : b.device.readData.1 < 256 := by
      rw [readData_value]
      exact UInt8.toNat_lt _
    omega
  simp [getc, h, read32, hread, hlt]

theorem putc_ok (h : b.device.flag.getLsbD 5 = false) (c : UInt8) (fuel : ℕ) :
    putc c (fuel + 1) b = some { b with console := b.console ++ Serial.print c } := by
  rw [putc, isTxFifoFull_eq, h]
  simp [write32, Pl011Mmio.write]

end Board

/-! ## The calls -/

/-- The device holds what waits for the guest, has room left, and is set up. -/
structure Connects (b : Board) (t : Terminal) : Prop where
  holds : Holds b.device t.waiting
  room : t.waiting.length ≤ 3
  flag : t.heard = true → (b.device.rxfe = true ↔ t.waiting = [])
  quiet : t.heard = false → t.waiting = []
  sends : b.device.flag.getLsbD 5 = false
  unmasked : b.device.Unmasked
  console : b.console = t.console

variable {b : Board} {t : Terminal}

theorem enableInterrupt_connects : Connects (Board.enableInterrupt .new) .new where
  holds := ⟨by decide, by simp [Terminal.new], by decide⟩
  room := by simp [Terminal.new]
  flag := by simp [Terminal.new]
  quiet := by simp [Terminal.new]
  sends := by decide
  unmasked := by decide
  console := by decide

theorem Connects.push (h : Connects b t) {data : UInt8} (hdata : data ≠ 0)
    (hroom : t.waiting.length < 3) : (b.device.push data).2 = true ∧
      Connects ⟨(b.device.push data).1, b.console⟩
        { t with waiting := t.waiting ++ [data], heard := true } := by
  obtain ⟨hmask, hraised, -⟩ := push_raised b.device data
  have hholds := push_holds h.holds (.inl hdata)
  rw [if_pos (by omega)] at hholds
  refine ⟨hraised.mpr h.unmasked, hholds, ?_, ?_, ?_, ?_, ?_, h.console⟩
  · simp
    omega
  · simp
  · simp
  · exact (push_txff b.device data).trans h.sends
  · rw [Pl011Mmio.Unmasked, hmask]
    exact h.unmasked

/-- The loop reads what waits and ends, since the device reports the last byte. -/
theorem Connects.inputLoop (h : Connects b t) (hheard : t.heard = true) {fuel : ℕ}
    (hfuel : t.waiting.length < fuel) :
    ∃ b', Board.inputLoop fuel b = some (t.waiting, b') ∧ Connects b' { t with waiting := [] } := by
  obtain ⟨waiting, heard, console⟩ := t
  induction waiting generalizing b fuel with
  | nil =>
    obtain ⟨fuel, rfl⟩ : ∃ n, fuel = n + 1 := ⟨fuel - 1, by omega⟩
    have hempty : b.device.rxfe = true := (h.flag hheard).mpr rfl
    refine ⟨b, ?_, h⟩
    rw [Board.inputLoop, Board.getc_none hempty]
    rfl
  | cons c cs ih =>
    obtain ⟨fuel, rfl⟩ : ∃ n, fuel = n + 1 := ⟨fuel - 1, by omega⟩
    rw [List.length_cons] at hfuel
    have hroom : cs.length + 1 ≤ 3 := h.room
    have hsome : b.device.rxfe = false := by
      rw [← Bool.not_eq_true, h.flag hheard]
      simp
    obtain ⟨hvalue, hholds, hrxfe⟩ := readData_holds h.holds
      (show (c :: cs).length < 4 by rw [List.length_cons]; omega)
    obtain ⟨hmask, htxff⟩ := readData_frame b.device
    have hnext : Connects { b with device := b.device.readData.2 } ⟨cs, heard, console⟩ := by
      refine ⟨hholds, show cs.length ≤ 3 by omega, fun _ => ?_, fun hquiet => ?_,
        htxff.trans h.sends, ?_, h.console⟩
      · dsimp only
        rw [hrxfe, hsome, Bool.or_false]
        exact decide_eq_true_iff
      · exact absurd (h.quiet hquiet) (List.cons_ne_nil c cs)
      · rw [Pl011Mmio.Unmasked, hmask]
        exact h.unmasked
    obtain ⟨b', hloop, hlast⟩ := ih hnext hheard (show cs.length < fuel by omega)
    refine ⟨b', ?_, hlast⟩
    rw [Board.inputLoop, Board.getc_some hsome, hvalue]
    simp [hloop]

theorem Connects.inputUart (h : Connects b t) (hheard : t.heard = true) {fuel : ℕ}
    (hfuel : 4 ≤ fuel) : ∃ b', b.inputUart fuel = some (t.waiting, b') ∧
      Connects b' { t with waiting := [] } := by
  obtain ⟨b', hloop, hlast⟩ := h.inputLoop hheard (show t.waiting.length < fuel by
    have := h.room
    omega)
  refine ⟨b'.clearInterrpt, by simp [Board.inputUart, hloop], ?_⟩
  have hclear : b'.clearInterrpt = { b' with device := { b'.device with
      rawInterruptStatus := b'.device.rawInterruptStatus &&& ~~~(BitVec.ofNat 16 0x7ff) } } := by
    simp [Board.clearInterrpt, Board.write32, Pl011Mmio.write, uartIcr, uartDr, uartCr, uartImsc]
  rw [hclear]
  exact ⟨hlast.holds, hlast.room, hlast.flag, hlast.quiet, hlast.sends, hlast.unmasked,
    hlast.console⟩

/-- There is always room for a character. -/
theorem Connects.putc (h : Connects b t) (c : UInt8) (fuel : ℕ) :
    ∃ b', Board.putc c (fuel + 1) b = some b' ∧
      Connects b' { t with console := t.console ++ Serial.print c } :=
  ⟨_, Board.putc_ok h.sends c fuel, h.holds, h.room, h.flag, h.quiet, h.sends, h.unmasked, by
    rw [h.console]⟩

theorem Connects.print (h : Connects b t) (s : List UInt8) {fuel : ℕ} (hfuel : 0 < fuel) :
    ∃ b', b.writeStr fuel s = some b' ∧
      Connects b' { t with console := t.console ++ s.flatMap Terminal.shown } := by
  obtain ⟨fuel, rfl⟩ : ∃ n, fuel = n + 1 := ⟨fuel - 1, by omega⟩
  induction s generalizing b t with
  | nil => exact ⟨b, rfl, by simpa using h⟩
  | cons c s ih =>
    by_cases hfeed : c = 0x0a
    · obtain ⟨b₁, hreturn, h₁⟩ := h.putc 0x0d fuel
      obtain ⟨b₂, hchar, h₂⟩ := h₁.putc c fuel
      obtain ⟨b', hrest, hlast⟩ := ih h₂
      refine ⟨b', by simp [Board.writeStr, if_pos hfeed, hreturn, hchar, hrest], ?_⟩
      have hreturned : Serial.print 0x0d = [0x0d] := Serial.print_eq (by decide)
      simpa [Terminal.shown, hfeed, hreturned, Serial.print_feed] using hlast
    · obtain ⟨b₁, hchar, h₁⟩ := h.putc c fuel
      obtain ⟨b', hrest, hlast⟩ := ih h₁
      refine ⟨b', by simp [Board.writeStr, if_neg hfeed, hchar, hrest], ?_⟩
      simpa [Serial.print_eq hfeed] using hlast

theorem Connects.exec (h : Connects b t) (call : Call) (hcall : t.Regular call) {fuel : ℕ}
    (hfuel : 4 ≤ fuel) : (call.exec fuel b).1 = (t.step call).1 ∧
      Connects (call.exec fuel b).2 (t.step call).2 := by
  cases call with
  | push data =>
    obtain ⟨hraised, hnext⟩ := h.push hcall.1 hcall.2
    exact ⟨by simp [Call.exec, Terminal.step, hraised], hnext⟩
  | inputUart =>
    obtain ⟨b', hinput, hnext⟩ := h.inputUart hcall hfuel
    simp only [Call.exec, Terminal.step, hinput]
    exact ⟨trivial, hnext⟩
  | print s =>
    obtain ⟨b', hprint, hnext⟩ := h.print s (show 0 < fuel by omega)
    simp only [Call.exec, Terminal.step, hprint]
    exact ⟨trivial, hnext⟩

/-- With its driver set up the guest is connected to a line: the handler reads the bytes that have
arrived, each once and in order, every byte raises the interrupt, no call waits for the device
for ever, and what was printed is sent on byte by byte as `Terminal.shown` has it. -/
theorem serve_terminal (calls : List Call)
    (hregular : Answers.Along Terminal.step Terminal.Regular .new calls) (fuel : ℕ)
    (hfuel : 4 ≤ fuel) :
    (Answers.serve (fun b call => Call.exec fuel b call) (Board.enableInterrupt .new) calls).1 =
        (Answers.serve Terminal.step .new calls).1 ∧
      (Answers.serve (fun b call => Call.exec fuel b call) (Board.enableInterrupt .new)
        calls).2.console = (Answers.serve Terminal.step .new calls).2.console := by
  obtain ⟨hanswers, hlast⟩ := Answers.serve_related_along
    (fun _ _ call h hcall => h.exec call hcall hfuel) calls enableInterrupt_connects hregular
  exact ⟨hanswers, hlast.console⟩

/-- Two bytes that the guest reads, a line that it prints, and one more byte. -/
def sampleCalls : List Call :=
  [.push 65, .push 66, .inputUart, .print [65, 0xE9, 0x0a], .push 67, .inputUart]

theorem serve_terminal_sample :
    (Answers.serve (fun b call => Call.exec 4 b call) (Board.enableInterrupt .new)
      sampleCalls).1 = [some (.raised true), some (.raised true), some (.input [65, 66]),
        some .printed, some (.raised true), some (.input [67])] ∧
    (Answers.serve (fun b call => Call.exec 4 b call) (Board.enableInterrupt .new)
      sampleCalls).2.console = [65, 0xC3, 0xA9, 0x0d, 0x0d, 0x0a] := by
  have hregular : Answers.Along Terminal.step Terminal.Regular .new sampleCalls := by
    simp [Answers.Along, Terminal.Regular, Terminal.step, Terminal.new, sampleCalls]
  obtain ⟨hanswers, hconsole⟩ := serve_terminal sampleCalls hregular 4 le_rfl
  exact ⟨hanswers.trans rfl, hconsole.trans rfl⟩

end Min1visor.Pl011Driver
