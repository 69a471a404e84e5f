import Min1visor.Dtb

/-!
# The blocks of a device tree

What the primitive operations of the reader return inside the structure block and the
strings block: tokens behind empty words, names, the headers of properties, and lists of
strings.
-/
namespace Min1visor.Dtb
open FlattenedTree

variable {d : Dtb} {start stop : ℕ} {strings : List UInt8}

/-- The reader finds its structure block from `start` to `stop` and its strings block. -/
structure Opened (d : Dtb) (start stop : ℕ) (strings : List UInt8) : Prop where
  structOffset : d.getStructOffset = .ok start
  structSize : d.getStructSize = .ok (stop - start)
  start_le : start ≤ stop
  stop_lt : stop < 2 ^ 64
  mapped : ∀ x, start ≤ x → x < stop → ∃ b, d.mem x = some b
  stringSize : d.getStringSize = .ok strings.length
  strings_lt : strings.length < 2 ^ 32
  stringOffset : ∃ o, d.getStringOffset = .ok o ∧ d.mem.Has o strings ∧ o + strings.length < 2 ^ 64

@[simp] theorem checked_ok (n : ℕ) : checked (.ok n) = .ok n := rfl

theorem checked_add {w a b : ℕ} (h : a + b < 2 ^ w) :
    checked (Checked.add w a b) = .ok (a + b) := by
  rw [Checked.add_ok h, checked_ok]

@[simp] theorem attempt_ok {α : Type} (a : α) : attempt (.ok a) = .ok (some a) := rfl

@[simp] theorem attempt_err {α : Type} : attempt (.error .err : Except Stop α) = .ok none := rfl

/-! ## Tokens -/

theorem readBytes_has {p : ℕ} {bs : List UInt8} (h : d.mem.Has p bs) :
    d.readBytes p bs.length = .ok bs := by
  rw [readBytes, h.bytesAt]

theorem readU8_has {p : ℕ} {b : UInt8} {bs : List UInt8} (h : d.mem.Has p (b :: bs)) :
    d.readU8 p = .ok b := by
  rw [readU8, h.1]

/-- Where the structure block ends. -/
theorem Opened.structEnd (h : d.Opened start stop strings) :
    checked (Checked.add 64 start (stop - start)) = .ok stop := by
  have hsum : start + (stop - start) = stop := Nat.add_sub_cancel' h.start_le
  rw [checked_add (hsum.trans_lt h.stop_lt), hsum]

theorem Opened.checkNode_ok (h : d.Opened start stop strings) {p : ℕ} (hlt : p < stop) :
    d.checkNode p = .ok () := by
  simp only [checkNode, h.structOffset, h.structSize, Checked.ok_bind, h.structEnd, ge_iff_le,
    Nat.not_le.mpr hlt, if_false]
  rfl

theorem Opened.checkNode_err (h : d.Opened start stop strings) {p : ℕ} (hle : stop ≤ p) :
    d.checkNode p = .error .err := by
  simp only [checkNode, h.structOffset, h.structSize, Checked.ok_bind, h.structEnd, ge_iff_le, hle,
    if_true]
  rfl

theorem Opened.readNode_ok (h : d.Opened start stop strings) {p : ℕ} (hlt : p < stop)
    {token : List UInt8} (hlength : token.length = 4) (hhas : d.mem.Has p token) :
    d.readNode p = .ok token := by
  rw [readNode, h.checkNode_ok hlt, Checked.ok_bind, fdtTokenByte, ← hlength]
  exact readBytes_has hhas

theorem Opened.readBeU32Node_ok (h : d.Opened start stop strings) {p n : ℕ} (hlt : p < stop)
    (hn : n < 2 ^ 32) (hhas : d.mem.Has p (word n)) : d.readBeU32Node p = .ok n := by
  rw [readBeU32Node, h.readNode_ok hlt (length_word n) hhas, Checked.ok_bind, ofBytes_word hn]
  rfl

/-- Any four bytes of the structure block are read. -/
theorem Opened.readBeU32Node_inside (h : d.Opened start stop strings) {p : ℕ} (hle : start ≤ p)
    (hlt : p + 4 ≤ stop) : ∃ n, d.readBeU32Node p = .ok n := by
  obtain ⟨bs, -, hbs⟩ := Mapped.bytesAt_of_mapped (n := 4)
    fun x hx hxlt => h.mapped x (hle.trans hx) (by omega)
  have hread : d.readNode p = .ok bs := by
    rw [readNode, h.checkNode_ok (by omega), Checked.ok_bind, readBytes, fdtTokenByte, hbs]
  exact ⟨ofBytes bs, by rw [readBeU32Node, hread]; rfl⟩

/-- Empty words are stepped over. -/
theorem Opened.skipNop_ok (h : d.Opened start stop strings) {token : List UInt8}
    (hlength : token.length = 4) (hnop : token ≠ nop) {k fuel p : ℕ} (hfuel : k < fuel)
    (hhas : d.mem.Has p (nops k ++ token)) (hlt : p + 4 * k < stop) :
    d.skipNop fuel p = .ok (p + 4 * k) := by
  have hstop := h.stop_lt
  induction k generalizing fuel p with
  | zero =>
    obtain ⟨fuel, rfl⟩ := Nat.exists_eq_add_of_lt hfuel
    rw [Nat.zero_add, skipNop, h.readNode_ok (by omega) hlength hhas, Checked.ok_bind]
    exact if_pos hnop
  | succ k ih =>
    obtain ⟨fuel, rfl⟩ : ∃ n, fuel = n + 1 := ⟨fuel - 1, by omega⟩
    have hsplit : d.mem.Has p nop ∧ d.mem.Has (p + 4) (nops k ++ token) := by
      have hcons : nops (k + 1) ++ token = nop ++ (nops k ++ token) := rfl
      rw [hcons] at hhas
      exact Mapped.has_append.mp hhas
    have hread : d.readNode p = .ok nop := h.readNode_ok (by omega) rfl hsplit.1
    have hadd : checked (Checked.add 64 p fdtTokenByte) = .ok (p + 4) :=
      checked_add (show p + 4 < 2 ^ 64 by omega)
    have hsum : p + 4 * (k + 1) = p + 4 + 4 * k := by omega
    have hequal : ¬ nop ≠ fdtNop := fun hne => hne rfl
    rw [skipNop, hread, Checked.ok_bind, if_neg hequal, hadd, Checked.ok_bind, hsum]
    exact ih (by omega) hsplit.2 (by omega)

theorem skipPadding_of_dvd {p : ℕ} (h : 4 ∣ p) : skipPadding p = .ok p := by
  rw [skipPadding, fdtTokenByte, Checked.nextMultipleOf_of_dvd (by decide) h, checked_ok]

/-- The padding behind a string or a value that starts at a whole word. -/
theorem skipPadding_pad {p : ℕ} (h : 4 ∣ p) (bs : List UInt8)
    (hlt : p + (pad bs).length < 2 ^ 64) :
    skipPadding (p + bs.length) = .ok (p + (pad bs).length) := by
  rw [length_pad] at hlt ⊢
  by_cases hdvd : 4 ∣ p + bs.length
  · rw [skipPadding_of_dvd hdvd, show (4 - bs.length % 4) % 4 = 0 by omega, Nat.add_zero]
  · have hmod : (p + bs.length) % 4 ≠ 0 := fun h0 => hdvd (Nat.dvd_of_mod_eq_zero h0)
    have hrest : 4 - (p + bs.length) % 4 = (4 - bs.length % 4) % 4 := by omega
    rw [skipPadding, fdtTokenByte, Checked.nextMultipleOf, if_neg (by decide), if_neg hmod, hrest,
      ← Nat.add_assoc]
    exact checked_add (by omega)

/-! ## Strings -/

/-- The bytes that a cursor meets. -/
def Meets (read : ℕ → Except Stop UInt8) : ℕ → List UInt8 → Prop
  | _, [] => True
  | p, b :: bs => read p = .ok b ∧ Meets read (p + 1) bs

theorem meets_readU8 {p : ℕ} {bs : List UInt8} (h : d.mem.Has p bs) : Meets d.readU8 p bs := by
  induction bs generalizing p with
  | nil => trivial
  | cons b bs ih => exact ⟨readU8_has h, ih h.2⟩

/-- A cursor that counts from an address. -/
theorem meets_readValue {info : DtbProperty} {p : ℕ} {bs : List UInt8}
    (h : d.mem.Has (info.address + p) bs) (hle : info.address + p + bs.length ≤ 2 ^ 64) :
    Meets (d.readValue info) p bs := by
  induction bs generalizing p with
  | nil => trivial
  | cons b bs ih =>
    rw [List.length_cons] at hle
    refine ⟨?_, ih h.2 (by omega)⟩
    rw [readValue, checked_add (by omega), Checked.ok_bind]
    exact readU8_has h

variable {read : ℕ → Except Stop UInt8} {w p : ℕ}

theorem Meets.append {xs ys : List UInt8} (h : Meets read p (xs ++ ys)) :
    Meets read (p + xs.length) ys := by
  induction xs generalizing p with
  | nil => exact h
  | cons x xs ih =>
    have hsum : p + (x :: xs).length = p + 1 + xs.length := by
      rw [List.length_cons]
      omega
    rw [hsum]
    exact ih h.2

/-- A string without a zero against a string with a terminating zero: the cursor stops
within the second, and behind the first when that is how the second starts. -/
theorem matchBytes_ok {name s rest : List UInt8} (hname : 0 ∉ name)
    (h : Meets read p (s ++ 0 :: rest)) (hlt : p + s.length < 2 ^ w) :
    ∃ n ≤ s.length, matchBytes read w name p = .ok (name.isPrefixOf s, p + n) ∧
      (name.isPrefixOf s = true → n = name.length) := by
  induction name generalizing s p with
  | nil => exact ⟨0, Nat.zero_le _, rfl, fun _ => rfl⟩
  | cons c name ih =>
    rw [List.mem_cons, not_or] at hname
    cases s with
    | nil =>
      refine ⟨0, le_rfl, ?_, fun hstarts => absurd hstarts Bool.false_ne_true⟩
      rw [matchBytes, h.1, Checked.ok_bind]
      exact if_pos (Ne.symm hname.1)
    | cons b s =>
      rw [List.length_cons] at hlt
      by_cases hb : c = b
      · obtain ⟨n, hn, hmatch, hwhole⟩ := ih hname.2 h.2 (by omega)
        have hstarts : (c :: name).isPrefixOf (b :: s) = name.isPrefixOf s := by
          simp [hb]
        refine ⟨n + 1, Nat.succ_le_succ hn, ?_, ?_⟩
        · rw [matchBytes, h.1, Checked.ok_bind, if_neg (not_not.mpr hb), checked_add (by omega),
            Checked.ok_bind, hmatch, hstarts, show p + 1 + n = p + (n + 1) by omega]
        · intro hpre
          rw [List.length_cons, hwhole (hstarts ▸ hpre)]
      · have hstarts : (c :: name).isPrefixOf (b :: s) = false := by
          rw [List.isPrefixOf, beq_false_of_ne hb, Bool.false_and]
        refine ⟨0, Nat.zero_le _, ?_, fun hpre => absurd (hstarts ▸ hpre) Bool.false_ne_true⟩
        rw [matchBytes, h.1, Checked.ok_bind, hstarts]
        exact if_pos hb

theorem matchBytes_append (xs ys : List UInt8) : matchBytes read w (xs ++ ys) p = (do
    let (same, p) ← matchBytes read w xs p
    if same then matchBytes read w ys p else return (false, p)) := by
  induction xs generalizing p with
  | nil => rfl
  | cons x xs ih =>
    rw [List.cons_append, matchBytes, matchBytes]
    cases hread : read p with
    | error e => rfl
    | ok b =>
      rw [Checked.ok_bind, Checked.ok_bind]
      by_cases hb : x ≠ b
      · rw [if_pos hb, if_pos hb]
        rfl
      · rw [if_neg hb, if_neg hb]
        cases hadd : checked (Checked.add w p 1) with
        | error e => rfl
        | ok q => exact ih

theorem encodeName_split (s : List UInt8) : ∃ rest, encodeName s = s ++ 0 :: rest := by
  refine ⟨List.replicate ((4 - (s ++ [0]).length % 4) % 4) 0, ?_⟩
  rw [encodeName, pad, List.append_assoc]
  rfl

theorem skipToNul_ok {s rest : List UInt8} (hs : 0 ∉ s) {fuel p : ℕ} (hfuel : s.length < fuel)
    (h : Meets d.readU8 p (s ++ 0 :: rest)) (hlt : p + s.length < 2 ^ 64) :
    d.skipToNul fuel p = .ok (p + s.length) := by
  obtain ⟨fuel, rfl⟩ : ∃ n, fuel = n + 1 := ⟨fuel - 1, by omega⟩
  induction s generalizing fuel p with
  | nil =>
    rw [skipToNul, h.1, Checked.ok_bind]
    exact if_pos rfl
  | cons b s ih =>
    rw [List.mem_cons, not_or] at hs
    rw [List.length_cons] at hfuel hlt
    obtain ⟨fuel, rfl⟩ : ∃ n, fuel = n + 1 := ⟨fuel - 1, by omega⟩
    rw [skipToNul, h.1, Checked.ok_bind, if_neg (Ne.symm hs.1), checked_add (by omega),
      Checked.ok_bind, ih hs.2 h.2 (by omega) fuel (by omega), List.length_cons,
      show p + 1 + s.length = p + (s.length + 1) by omega]

/-- From anywhere in a name to behind its padding. -/
theorem skipString_ok {s : List UInt8} (hs : 0 ∉ s) {fuel n : ℕ} (hfuel : s.length < fuel)
    (hn : n ≤ s.length) (h : d.mem.Has p (encodeName s)) (hp : 4 ∣ p)
    (hlt : p + (encodeName s).length < 2 ^ 64) :
    d.skipString fuel (p + n) = .ok (p + (encodeName s).length) := by
  obtain ⟨rest, hrest⟩ := encodeName_split s
  have hlength : (encodeName s).length = s.length + 1 + rest.length := by
    rw [hrest, List.length_append, List.length_cons]
    omega
  have hsplit : encodeName s = s.take n ++ (s.drop n ++ 0 :: rest) := by
    rw [← List.append_assoc, List.take_append_drop, hrest]
  have hmeets := (hsplit ▸ meets_readU8 h).append
  rw [List.length_take, Nat.min_eq_left hn] at hmeets
  have hdrop : 0 ∉ s.drop n := fun hmem => hs (List.mem_of_mem_drop hmem)
  have hscan : d.skipToNul fuel (p + n) = .ok (p + s.length) := by
    rw [skipToNul_ok hdrop (by rw [List.length_drop]; omega) hmeets
      (by rw [List.length_drop]; omega), List.length_drop, show p + n + (s.length - n) =
        p + s.length by omega]
  have hpad := skipPadding_pad hp (s ++ [0]) hlt
  rw [List.length_append, List.length_singleton, ← Nat.add_assoc] at hpad
  rw [skipString, hscan, Checked.ok_bind, checked_add (by omega), Checked.ok_bind]
  exact hpad

/-- The name of a node is `name`, or `name` with a unit address. -/
def named (name s : List UInt8) : Bool := s == name || (name ++ unitDelimiter).isPrefixOf s

theorem named_append_nil (name : List UInt8) : named name (name ++ []) = true := by
  simp [named]

theorem named_append_cons (name : List UInt8) (b : UInt8) (t : List UInt8) :
    named name (name ++ b :: t) = decide (b = 0x40) := by
  have hne : (name ++ b :: t == name) = false := by simp
  have hstarts : (name ++ unitDelimiter).isPrefixOf (name ++ b :: t) = decide (b = 0x40) := by
    rw [Bool.eq_iff_iff, List.isPrefixOf_iff_prefix, List.prefix_append_right_inj, decide_eq_true_iff,
      unitDelimiter, List.cons_prefix_cons]
    simp [eq_comm]
  rw [named, hne, hstarts, Bool.false_or]

theorem beq_of_isPrefixOf_false {name s : List UInt8} (h : name.isPrefixOf s = false) :
    (s == name) = false := by
  rw [beq_eq_false_iff_ne]
  rintro rfl
  have hself : s.isPrefixOf s = true := List.isPrefixOf_iff_prefix.mpr List.prefix_rfl
  exact Bool.false_ne_true (h.symm.trans hself)

theorem not_named {name s : List UInt8} (h : name.isPrefixOf s = false) : named name s = false := by
  have hne := beq_of_isPrefixOf_false h
  have hstarts : (name ++ unitDelimiter).isPrefixOf s = false := by
    rw [Bool.eq_false_iff] at h ⊢
    intro hlong
    rw [Ne, List.isPrefixOf_iff_prefix] at h
    exact h ((List.prefix_append name unitDelimiter).trans (List.isPrefixOf_iff_prefix.mp hlong))
  rw [named, hne, hstarts, Bool.or_false]

theorem compareString_ok {name s : List UInt8} (hname : 0 ∉ name) (hs : 0 ∉ s) {fuel : ℕ}
    (hfuel : s.length < fuel) (h : d.mem.Has p (encodeName s)) (hp : 4 ∣ p)
    (hlt : p + (encodeName s).length < 2 ^ 64) :
    d.compareString fuel p name unitDelimiter =
      .ok (named name s, p + (encodeName s).length) := by
  obtain ⟨rest, hrest⟩ := encodeName_split s
  have hlength : s.length < (encodeName s).length := by
    rw [hrest, List.length_append, List.length_cons]
    omega
  have hmeets : Meets d.readU8 p (s ++ 0 :: rest) := meets_readU8 (hrest ▸ h)
  obtain ⟨n, hn, hmatch, hwhole⟩ := matchBytes_ok (w := 64) hname hmeets (by omega)
  have hskip := skipString_ok hs hfuel hn h hp hlt
  rw [compareString, hmatch, Checked.ok_bind]
  cases hstarts : name.isPrefixOf s with
  | false =>
    simp only [hskip, not_named hstarts, Bool.false_eq_true, not_false_eq_true, if_true,
      Checked.ok_bind]
    rfl
  | true =>
    obtain ⟨t, rfl⟩ := List.isPrefixOf_iff_prefix.mp hstarts
    rw [hwhole hstarts] at hskip
    rw [List.append_assoc] at hmeets
    have hnext := hmeets.append
    simp only [hwhole hstarts, not_true_eq_false, if_false, hskip]
    cases t with
    | nil =>
      rw [hnext.1, named_append_nil]
      rfl
    | cons b t =>
      have hb : b ≠ 0 := by
        rintro rfl
        simp at hs
      rw [hnext.1, named_append_cons]
      simp [unitDelimiter, hb]

/-! ## Properties -/

theorem Opened.compareNameSegment_ok (h : d.Opened start stop strings) {offset : ℕ}
    (hoffset : 0 ∈ strings.drop offset) {name : List UInt8} (hname : 0 ∉ name) :
    d.compareNameSegment offset name [] = .ok (stringAt strings offset == name) := by
  obtain ⟨o, ho, hhas, holt⟩ := h.stringOffset
  have hlt : offset < strings.length := by
    by_contra hle
    rw [List.drop_eq_nil_of_le (not_lt.mp hle)] at hoffset
    exact absurd hoffset List.not_mem_nil
  obtain ⟨rest, hrest⟩ := drop_eq_stringAt hoffset
  have hlength : (stringAt strings offset).length + 1 + rest.length = strings.length - offset := by
    rw [← List.length_drop, hrest, List.length_append, List.length_cons]
    omega
  have hmeets : Meets d.readU8 (o + offset) (stringAt strings offset ++ 0 :: rest) := by
    have hsplit := meets_readU8 hhas
    rw [← List.take_append_drop offset strings] at hsplit
    have hdrop := hsplit.append
    rwa [List.length_take, Nat.min_eq_left hlt.le, hrest] at hdrop
  obtain ⟨n, hn, hmatch, hwhole⟩ := matchBytes_ok (w := 64) hname hmeets (by omega)
  have hnot : ¬ offset ≥ strings.length := not_le.mpr hlt
  simp only [compareNameSegment, h.stringSize, Checked.ok_bind, hnot, if_false, ho]
  rw [checked_add (by omega), Checked.ok_bind, hmatch]
  cases hstarts : name.isPrefixOf (stringAt strings offset) with
  | false =>
    rw [beq_of_isPrefixOf_false hstarts]
    rfl
  | true =>
    have hzero := zero_notMem_stringAt strings offset
    obtain ⟨t, ht⟩ := List.isPrefixOf_iff_prefix.mp hstarts
    rw [← ht, List.append_assoc] at hmeets
    have hnext := hmeets.append
    rw [← ht] at hzero ⊢
    rw [hwhole hstarts]
    cases t with
    | nil =>
      simp only [Checked.ok_bind, not_true_eq_false, if_false, hnext.1]
      simp
    | cons b t =>
      have hb : b ≠ 0 := by
        rintro rfl
        simp at hzero
      simp only [Checked.ok_bind, not_true_eq_false, if_false, hnext.1]
      simp [hb]

/-- The cell counts are updated, whatever they become. -/
theorem Opened.checkAddressAndSizeCells_ok (h : d.Opened start stop strings) {offset p : ℕ}
    (hoffset : 0 ∈ strings.drop offset) (hle : start ≤ p) (hlt : p + 4 ≤ stop) (ac sc : ℕ) :
    ∃ cells, d.checkAddressAndSizeCells offset p ac sc = .ok cells := by
  obtain ⟨n, hn⟩ := h.readBeU32Node_inside hle hlt
  rw [checkAddressAndSizeCells, h.compareNameSegment_ok hoffset (by decide), Checked.ok_bind]
  cases stringAt strings offset == propAddressCells with
  | true => exact ⟨(n, sc), by simp only [if_true, hn, Checked.ok_bind]; rfl⟩
  | false =>
    simp only [Bool.false_eq_true, if_false]
    rw [h.compareNameSegment_ok hoffset (by decide), Checked.ok_bind]
    cases stringAt strings offset == propSizeCells with
    | true => exact ⟨(ac, n), by simp only [if_true, hn, Checked.ok_bind]; rfl⟩
    | false => exact ⟨(ac, sc), rfl⟩

theorem Opened.propertyHeader_ok (h : d.Opened start stop strings) {len offset p : ℕ}
    (hlen : len < 2 ^ 32) (hoffset : offset < 2 ^ 32) (hlt : p + 12 ≤ stop)
    (hhas : d.mem.Has p (prop ++ word len ++ word offset)) :
    d.propertyHeader p = .ok (len, offset, p + 12) := by
  have hstop := h.stop_lt
  have hname : d.mem.Has (p + 4 + 4) (word offset) := (Mapped.has_append.mp hhas).2
  have hword : d.mem.Has (p + 4) (word len) :=
    (Mapped.has_append.mp (Mapped.has_append.mp hhas).1).2
  simp only [propertyHeader, fdtTokenByte]
  rw [checked_add (show p + 4 < 2 ^ 64 by omega), Checked.ok_bind,
    h.readBeU32Node_ok (by omega) hlen hword, Checked.ok_bind,
    checked_add (show p + 4 + 4 < 2 ^ 64 by omega), Checked.ok_bind,
    h.readBeU32Node_ok (by omega) hoffset hname, Checked.ok_bind,
    checked_add (show p + 4 + 4 + 4 < 2 ^ 64 by omega)]
  rfl

/-! ## Lists of strings -/

/-- A string with its terminating zero against one of a list. -/
theorem matchBytes_terminated {c s rest : List UInt8} (hc : 0 ∉ c) (hs : 0 ∉ s)
    (h : Meets read p (s ++ 0 :: rest)) (hlt : p + s.length + 1 < 2 ^ w) :
    ∃ n, matchBytes read w (c ++ [0]) p = .ok (s == c, p + n) ∧ (s ≠ c → n ≤ s.length) := by
  obtain ⟨n, hn, hmatch, hwhole⟩ := matchBytes_ok (w := w) hc h (by omega)
  rw [matchBytes_append, hmatch, Checked.ok_bind]
  cases hstarts : c.isPrefixOf s with
  | false => exact ⟨n, by rw [beq_of_isPrefixOf_false hstarts]; rfl, fun _ => hn⟩
  | true =>
    obtain ⟨t, rfl⟩ := List.isPrefixOf_iff_prefix.mp hstarts
    rw [hwhole hstarts]
    rw [List.append_assoc] at h
    rw [List.length_append] at hlt
    have hnext := h.append
    cases t with
    | nil =>
      refine ⟨c.length + 1, ?_, fun hne => absurd (List.append_nil c) hne⟩
      simp only [if_true, matchBytes, hnext.1, Checked.ok_bind]
      rw [if_neg (not_not.mpr rfl), checked_add (by omega), Checked.ok_bind, List.append_nil,
        beq_self_eq_true, Nat.add_assoc]
      rfl
    | cons b t =>
      have hb : 0 ≠ b := by
        rintro rfl
        simp at hs
      refine ⟨c.length, ?_, fun _ => by rw [List.length_append]; omega⟩
      have hne : (c ++ b :: t == c) = false := by simp
      simp only [if_true, matchBytes, hnext.1, Checked.ok_bind]
      rw [if_pos hb, hne]
      rfl

section Compatible
variable {info : DtbProperty} {c : List UInt8}

/-- Behind a mismatch the rest of the string is stepped over. -/
theorem isDeviceCompatibleFrom_skip {s rest : List UInt8} (hs : 0 ∉ s) {p fuel : ℕ}
    (h : Meets (d.readValue info) p (s ++ 0 :: rest)) (hlt : p + s.length < info.len)
    (hlen : info.len < 2 ^ 32) :
    d.isDeviceCompatibleFrom info c (fuel + (s.length + 1)) p true =
      d.isDeviceCompatibleFrom info c fuel (p + (s.length + 1)) false := by
  induction s generalizing p fuel with
  | nil =>
    rw [List.length_nil] at hlt
    have hadd : checked (Checked.add 32 p 1) = .ok (p + 1) := checked_add (by omega)
    have hin : ¬ p ≥ info.len := by omega
    simp only [List.length_nil, Nat.zero_add, isDeviceCompatibleFrom, hin, if_false, if_true,
      h.1, Checked.ok_bind, hadd]
    rfl
  | cons b s ih =>
    rw [List.mem_cons, not_or] at hs
    rw [List.length_cons] at hlt ⊢
    have hadd : checked (Checked.add 32 p 1) = .ok (p + 1) := checked_add (by omega)
    have hin : ¬ p ≥ info.len := by omega
    have hb : decide (b ≠ 0) = true := decide_eq_true (Ne.symm hs.1)
    have hfuel : fuel + (s.length + 1 + 1) = fuel + (s.length + 1) + 1 := rfl
    have hcursor : p + (s.length + 1 + 1) = p + 1 + (s.length + 1) := by omega
    rw [hfuel, hcursor, ← ih hs.2 h.2 (by omega)]
    simp only [isDeviceCompatibleFrom, hin, if_false, if_true, h.1, Checked.ok_bind, hadd, hb]

/-- The loop at the start of a string of the list. -/
theorem isDeviceCompatibleFrom_ok (hc : 0 ∉ c) {ss : List (List UInt8)} (hss : ∀ s ∈ ss, 0 ∉ s)
    {p fuel : ℕ} (h : Meets (d.readValue info) p (joinStrings ss))
    (hend : p + (joinStrings ss).length = info.len) (hlen : info.len < 2 ^ 32)
    (hfuel : 2 * (joinStrings ss).length < fuel) :
    d.isDeviceCompatibleFrom info c fuel p false = .ok (decide (c ∈ ss)) := by
  obtain ⟨fuel, rfl⟩ : ∃ n, fuel = n + 1 := ⟨fuel - 1, by omega⟩
  induction ss generalizing p fuel with
  | nil =>
    rw [isDeviceCompatibleFrom, if_pos (by simpa [joinStrings] using hend.ge)]
    simp
  | cons s ss ih =>
    rw [List.forall_mem_cons] at hss
    have hjoin : joinStrings (s :: ss) = s ++ 0 :: joinStrings ss := by
      simp [joinStrings]
    have hlength : (joinStrings (s :: ss)).length = s.length + 1 + (joinStrings ss).length := by
      rw [hjoin, List.length_append, List.length_cons]
      omega
    rw [hjoin] at h
    obtain ⟨n, hmatch, hn⟩ := matchBytes_terminated (w := 32) hc hss.1 h (by omega)
    have hin : ¬ p ≥ info.len := by omega
    simp only [isDeviceCompatibleFrom, hin, if_false, Bool.false_eq_true, hmatch, Checked.ok_bind]
    by_cases hsc : s = c
    · simp [hsc]
    · -- The cursor is somewhere in `s`; what is left of it takes one turn a byte.
      have hsplit : s ++ 0 :: joinStrings ss =
          s.take n ++ (s.drop n ++ 0 :: joinStrings ss) := by
        rw [← List.append_assoc, List.take_append_drop]
      have hrest := (hsplit ▸ h).append
      rw [List.length_take, Nat.min_eq_left (hn hsc)] at hrest
      have hnext : Meets (d.readValue info) (p + (s.length + 1)) (joinStrings ss) := by
        have hbehind : Meets (d.readValue info) (p + s.length) (0 :: joinStrings ss) := h.append
        exact hbehind.2
      have hdrop : 0 ∉ s.drop n := fun hmem => hss.1 (List.mem_of_mem_drop hmem)
      have hle := hn hsc
      have hturns : fuel = fuel - (s.length - n + 1) + ((s.drop n).length + 1) := by
        rw [List.length_drop]
        omega
      have hcursor : p + n + ((s.drop n).length + 1) = p + (s.length + 1) := by
        rw [List.length_drop]
        omega
      obtain ⟨rest, hleft⟩ : ∃ k, fuel - (s.length - n + 1) = k + 1 :=
        ⟨fuel - (s.length - n + 1) - 1, by omega⟩
      have hmem : decide (c ∈ s :: ss) = decide (c ∈ ss) := by
        simp [Ne.symm hsc]
      rw [beq_false_of_ne hsc, if_neg Bool.false_ne_true, hturns,
        isDeviceCompatibleFrom_skip hdrop hrest (by rw [List.length_drop]; omega) hlen, hcursor,
        hleft, hmem]
      exact ih hss.2 hnext (by omega) rest (by omega)

/-- The strings of a value are compared as a whole. -/
theorem isDeviceCompatible_ok (hc : 0 ∉ c) {ss : List (List UInt8)} (hss : ∀ s ∈ ss, 0 ∉ s)
    (h : d.mem.Has info.address (joinStrings ss)) (hlength : info.len = (joinStrings ss).length)
    (hlen : info.len < 2 ^ 32) (hle : info.address + info.len ≤ 2 ^ 64) :
    d.isDeviceCompatible info c = .ok (decide (c ∈ ss)) := by
  have hmeets : Meets (d.readValue info) 0 (joinStrings ss) :=
    meets_readValue (by rwa [Nat.add_zero]) (by omega)
  exact isDeviceCompatibleFrom_ok hc hss hmeets (by omega) hlen (by omega)

end Compatible

/-- A value that is a list of strings is searched for one that is the same as a whole, and
nothing is read outside of the value. Lengths are 32-bit, and the value ends within the
64-bit addresses. -/
theorem isDeviceCompatible_exact (d : Dtb) (info : DtbProperty) (compatible : List UInt8)
    (hcompatible : 0 ∉ compatible) (ss : List (List UInt8)) (hss : ∀ s ∈ ss, 0 ∉ s)
    (h : d.mem.Has info.address (joinStrings ss)) (hlength : info.len = (joinStrings ss).length)
    (hlen : info.len < 2 ^ 32) (hle : info.address + info.len ≤ 2 ^ 64) :
    (∃ b, d.isDeviceCompatible info compatible = .ok b ∧ (b = true ↔ compatible ∈ ss)) ∧
      ∀ x, Mapped.Reads (fun mem => isDeviceCompatible ⟨mem, d.header⟩ info compatible) d.mem x →
        info.address ≤ x ∧ x < info.address + info.len := by
  have hok (mem : Mapped) (hmem : mem.Has info.address (joinStrings ss)) :
      isDeviceCompatible ⟨mem, d.header⟩ info compatible = .ok (decide (compatible ∈ ss)) :=
    isDeviceCompatible_ok hcompatible hss hmem hlength hlen hle
  refine ⟨⟨_, hok d.mem h, decide_eq_true_iff⟩, fun x hreads => ?_⟩
  rw [hlength]
  exact h.mem_of_reads (fun mem hmem => (hok mem hmem).trans (hok d.mem h).symm) hreads

/-- The strings `a`, `arm`, the empty one and `ar`. -/
def armStrings : List (List UInt8) := [[0x61], [0x61, 0x72, 0x6d], [], [0x61, 0x72]]

/-- A value with them, up to the last address. -/
def armProperty : DtbProperty := ⟨2 ^ 64 - 10, 2, 1, 10⟩

theorem isDeviceCompatible_exact_ar :
    let d : Dtb := ⟨Mapped.ofBytes armProperty.address (joinStrings armStrings), 0⟩
    (∃ b, d.isDeviceCompatible armProperty [0x61, 0x72] = .ok b ∧
        (b = true ↔ [0x61, 0x72] ∈ armStrings)) ∧
      ∀ x, Mapped.Reads (fun mem => isDeviceCompatible ⟨mem, 0⟩ armProperty [0x61, 0x72]) d.mem x →
        armProperty.address ≤ x ∧ x < armProperty.address + armProperty.len :=
  isDeviceCompatible_exact ⟨_, 0⟩ armProperty [0x61, 0x72] (by decide) armStrings (by decide)
    (Mapped.ofBytes_has _ _) rfl (by decide) (by decide)

end Min1visor.Dtb
