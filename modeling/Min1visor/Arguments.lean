import Min1visor.Library.Numerals

/-!
# The arguments of the boot loader

The addresses of the images reach `main` as strings. A prefix names the base, a plus sign
may follow, and then at least one digit.
-/
namespace Min1visor.Arguments
open Numerals

/-- `char::to_digit`: the ten figures, then the letters of either case. -/
def toDigit (radix : ℕ) (c : UInt8) : Option ℕ :=
  let digit :=
    if 0x30 ≤ c ∧ c ≤ 0x39 then c.toNat - 0x30
    else if 0x61 ≤ c ∧ c ≤ 0x7a then c.toNat - 0x61 + 10
    else if 0x41 ≤ c ∧ c ≤ 0x5a then c.toNat - 0x41 + 10
    else radix
  if digit < radix then some digit else none

/-- The loop of `from_str_radix`, with its checked product and its checked sum. -/
def fromDigits (radix : ℕ) : List UInt8 → ℕ → Option ℕ
  | [], n => some n
  | c :: cs, n => do
    let digit ← toDigit radix c
    if n * radix < 2 ^ 64 then
      if n * radix + digit < 2 ^ 64 then fromDigits radix cs (n * radix + digit) else none
    else none

def plus : UInt8 := 0x2b
def minus : UInt8 := 0x2d

/-- `usize::from_str_radix`, of which only the success matters. -/
def fromStrRadix (radix : ℕ) : List UInt8 → Option ℕ
  | [] => none
  | [c] => if c = plus ∨ c = minus then none else fromDigits radix [c] 0
  | c :: cs => if c = plus then fromDigits radix cs 0 else fromDigits radix (c :: cs) 0

def hexPrefix : List UInt8 := [0x30, 0x78]
def octPrefix : List UInt8 := [0x30, 0x6f]
def binPrefix : List UInt8 := [0x30, 0x62]

/-- The string of an argument as a number. -/
def strToUsize (s : List UInt8) : Option ℕ :=
  if s.take 2 = hexPrefix then fromStrRadix 16 (s.drop 2)
  else if s.take 2 = octPrefix then fromStrRadix 8 (s.drop 2)
  else if s.take 2 = binPrefix then fromStrRadix 2 (s.drop 2)
  else fromStrRadix 10 s

/-! ## The strings of a number -/

/-- The prefixes with their bases. -/
def prefixes : List (List UInt8 × ℕ) :=
  [(hexPrefix, 16), (octPrefix, 8), (binPrefix, 2), ([], 10)]

/-- Digits behind an optional sign. -/
def Unsigned (radix : ℕ) (s : List UInt8) (n : ℕ) : Prop :=
  ∃ sign cs ds, (sign = [] ∨ sign = [plus]) ∧ cs ≠ [] ∧ cs.mapM (toDigit radix) = some ds ∧
    s = sign ++ cs ∧ n = value radix ds

/-- The string of a number: a prefix, and the number in the base of the prefix. -/
def Writes (s : List UInt8) (n : ℕ) : Prop :=
  ∃ e ∈ prefixes, ∃ rest, s = e.1 ++ rest ∧ Unsigned e.2 rest n

/-! ## One base -/

variable {radix n : ℕ} {c : UInt8} {cs : List UInt8}

/-- The signs are no digits, in no base up to 36. -/
theorem toDigit_sign : toDigit radix plus = none ∧ toDigit radix minus = none := by
  simp [toDigit, plus, minus]

theorem fromDigits_eq (n : ℕ) :
    fromDigits radix cs n = (cs.mapM (toDigit radix)).bind fun ds =>
      accumulate radix (2 ^ 64) ds n := by
  induction cs generalizing n with
  | nil => rfl
  | cons c cs ih =>
    rw [fromDigits, List.mapM_cons]
    cases toDigit radix c with
    | none => rfl
    | some d =>
      cases hds : cs.mapM (toDigit radix) with
      | none => simp [ih, hds]
      | some ds => simp [ih, hds, accumulate]

theorem fromDigits_eq_some (hradix : 0 < radix) : fromDigits radix cs 0 = some n ↔
    (∃ ds, cs.mapM (toDigit radix) = some ds ∧ n = value radix ds) ∧ n < 2 ^ 64 := by
  rw [fromDigits_eq, Option.bind_eq_some_iff]
  simp only [accumulate_eq_some hradix (show 0 < 2 ^ 64 by decide), Nat.zero_mul, Nat.zero_add]
  constructor
  · rintro ⟨ds, hds, hn, hlt⟩
    exact ⟨⟨ds, hds, hn⟩, hlt⟩
  · rintro ⟨⟨ds, hds, hn⟩, hlt⟩
    exact ⟨ds, hds, hn, hlt⟩

theorem mapM_cons_none {c : UInt8} (h : toDigit radix c = none) (cs : List UInt8) :
    (c :: cs).mapM (toDigit radix) = none := by
  rw [List.mapM_cons, h]
  rfl

theorem unsigned_plus {rest : List UInt8} : Unsigned radix (plus :: rest) n ↔
    rest ≠ [] ∧ ∃ ds, rest.mapM (toDigit radix) = some ds ∧ n = value radix ds := by
  constructor
  · rintro ⟨sign, cs, ds, rfl | rfl, hne, hds, heq, hn⟩
    · rw [List.nil_append] at heq
      rw [← heq, mapM_cons_none toDigit_sign.1] at hds
      cases hds
    · obtain rfl : rest = cs := by simpa using heq
      exact ⟨hne, ds, hds, hn⟩
  · rintro ⟨hne, ds, hds, hn⟩
    exact ⟨[plus], rest, ds, .inr rfl, hne, hds, rfl, hn⟩

theorem unsigned_digits {rest : List UInt8} (hc : c ≠ plus) : Unsigned radix (c :: rest) n ↔
    ∃ ds, (c :: rest).mapM (toDigit radix) = some ds ∧ n = value radix ds := by
  constructor
  · rintro ⟨sign, cs, ds, rfl | rfl, hne, hds, heq, hn⟩
    · rw [List.nil_append] at heq
      exact ⟨ds, heq ▸ hds, hn⟩
    · exact absurd (List.cons.inj heq).1 hc
  · rintro ⟨ds, hds, hn⟩
    exact ⟨[], c :: rest, ds, .inl rfl, List.cons_ne_nil _ _, hds, rfl, hn⟩

theorem fromStrRadix_eq_some (hradix : 0 < radix) {s : List UInt8} :
    fromStrRadix radix s = some n ↔ Unsigned radix s n ∧ n < 2 ^ 64 := by
  match s with
  | [] =>
    simp only [fromStrRadix, Unsigned]
    refine iff_of_false (by simp) ?_
    rintro ⟨⟨sign, cs, ds, -, hne, -, heq, -⟩, -⟩
    exact hne (List.append_eq_nil_iff.mp heq.symm).2
  | [c] =>
    rw [fromStrRadix]
    by_cases hplus : c = plus
    · rw [if_pos (.inl hplus), hplus, unsigned_plus]
      simp
    · rw [unsigned_digits hplus]
      by_cases hminus : c = minus
      · rw [if_pos (.inr hminus), hminus, mapM_cons_none toDigit_sign.2]
        simp
      · rw [if_neg (not_or.mpr ⟨hplus, hminus⟩), fromDigits_eq_some hradix]
  | c :: c' :: cs =>
    rw [fromStrRadix]
    by_cases hplus : c = plus
    · rw [if_pos hplus, hplus, unsigned_plus, fromDigits_eq_some hradix]
      simp
    · rw [if_neg hplus, unsigned_digits hplus, fromDigits_eq_some hradix]
    · simp

/-! ## The bases -/

/-- What starts with a prefix is no number without it. -/
theorem take_two_of_unsigned {s : List UInt8} (h : Unsigned 10 s n) {letter : UInt8}
    (hletter : toDigit 10 letter = none) : s.take 2 ≠ [0x30, letter] := by
  obtain ⟨sign, cs, ds, hsign, hne, hds, rfl, -⟩ := h
  intro htake
  rcases hsign with rfl | rfl
  · match cs, hds, htake with
    | c :: c' :: cs, hds, htake =>
      obtain ⟨rfl, rfl⟩ : c = 0x30 ∧ c' = letter := by simpa using htake
      rw [List.mapM_cons, mapM_cons_none hletter] at hds
      cases hh : toDigit 10 0x30 <;> simp [hh] at hds
  · match cs, hne, htake with
    | c :: cs, _, htake =>
      have hfirst : plus = 0x30 := by
        simpa using congrArg List.head? htake
      exact absurd hfirst (by decide)

theorem strToUsize_base {e : List UInt8 × ℕ} (he : e ∈ prefixes) {rest : List UInt8}
    (h : Unsigned e.2 rest n) : strToUsize (e.1 ++ rest) = fromStrRadix e.2 rest := by
  simp only [prefixes, List.mem_cons, List.not_mem_nil, or_false] at he
  rcases he with rfl | rfl | rfl | rfl
  · simp [strToUsize, hexPrefix]
  · simp [strToUsize, hexPrefix, octPrefix]
  · simp [strToUsize, hexPrefix, octPrefix, binPrefix]
  · have hhex := take_two_of_unsigned h (show toDigit 10 0x78 = none by decide)
    have hoct := take_two_of_unsigned h (show toDigit 10 0x6f = none by decide)
    have hbin := take_two_of_unsigned h (show toDigit 10 0x62 = none by decide)
    simp only [List.nil_append, strToUsize, hexPrefix, octPrefix, binPrefix, hhex, hoct, hbin,
      if_false]

theorem base_pos {e : List UInt8 × ℕ} (he : e ∈ prefixes) : 1 < e.2 ∧ e.2 ≤ 36 := by
  simp only [prefixes, List.mem_cons, List.not_mem_nil, or_false] at he
  rcases he with rfl | rfl | rfl | rfl <;> simp

theorem strToUsize_eq_some {s : List UInt8} : strToUsize s = some n ↔ Writes s n ∧ n < 2 ^ 64 := by
  constructor
  · intro h
    have hsplit : ∀ pre, s.take 2 = pre → s = pre ++ s.drop 2 := by
      rintro pre rfl
      exact (List.take_append_drop 2 s).symm
    have hbase : ∃ e ∈ prefixes, ∃ rest, s = e.1 ++ rest ∧ fromStrRadix e.2 rest = some n := by
      rw [strToUsize] at h
      split_ifs at h with hhex hoct hbin
      · exact ⟨(hexPrefix, 16), by simp [prefixes], s.drop 2, hsplit _ hhex, h⟩
      · exact ⟨(octPrefix, 8), by simp [prefixes], s.drop 2, hsplit _ hoct, h⟩
      · exact ⟨(binPrefix, 2), by simp [prefixes], s.drop 2, hsplit _ hbin, h⟩
      · exact ⟨([], 10), by simp [prefixes], s, rfl, h⟩
    obtain ⟨e, he, rest, rfl, hrest⟩ := hbase
    obtain ⟨hunsigned, hlt⟩ := (fromStrRadix_eq_some (base_pos he).1.le).mp hrest
    exact ⟨⟨e, he, rest, rfl, hunsigned⟩, hlt⟩
  · rintro ⟨⟨e, he, rest, rfl, hunsigned⟩, hlt⟩
    rw [strToUsize_base he hunsigned]
    exact (fromStrRadix_eq_some (base_pos he).1.le).mpr ⟨hunsigned, hlt⟩

/-! ## Numbers that are written out -/

def digitChar (d : ℕ) : UInt8 := if d < 10 then UInt8.ofNat (0x30 + d) else UInt8.ofNat (0x57 + d)

/-- The figures and small letters of a number. -/
def render (radix n : ℕ) : List UInt8 := (digits radix n).map digitChar

theorem toDigit_digitChar {d : ℕ} (hradix : radix ≤ 36) (hd : d < radix) :
    toDigit radix (digitChar d) = some d := by
  have hall : ∀ d < 36, ∀ radix ≤ 36, d < radix → toDigit radix (digitChar d) = some d := by
    decide
  exact hall d (by omega) radix hradix hd

theorem mapM_digitChar (hradix : radix ≤ 36) {ds : List ℕ} (hds : ∀ d ∈ ds, d < radix) :
    (ds.map digitChar).mapM (toDigit radix) = some ds := by
  induction ds with
  | nil => rfl
  | cons d ds ih =>
    rw [List.forall_mem_cons] at hds
    rw [List.map_cons, List.mapM_cons, toDigit_digitChar hradix hds.1, ih hds.2]
    rfl

/-- A number in the base of its prefix is one of the strings that stand for it. -/
theorem writes_render {e : List UInt8 × ℕ} (he : e ∈ prefixes) (n : ℕ) :
    Writes (e.1 ++ render e.2 n) n := by
  obtain ⟨hlt, hle⟩ := base_pos he
  have hdigits := mapM_digitChar hle fun d hd => lt_of_mem_digits (n := n) hlt hd
  refine ⟨e, he, _, rfl, [], render e.2 n, digits e.2 n, .inl rfl, ?_, hdigits, rfl,
    (value_digits e.2 n).symm⟩
  simpa [render] using digits_ne_nil e.2 n

/-- The arguments that are accepted are those that stand for a number of 64 bits, and every such
number is accepted as it is written in each of the bases. -/
theorem strToUsize_numbers :
    (∀ s n, strToUsize s = some n ↔ Writes s n ∧ n < 2 ^ 64) ∧
      ∀ e ∈ prefixes, ∀ n < 2 ^ 64, strToUsize (e.1 ++ render e.2 n) = some n :=
  ⟨fun _ _ => strToUsize_eq_some, fun _ he n hn => strToUsize_eq_some.mpr ⟨writes_render he n, hn⟩⟩

theorem strToUsize_numbers_hex :
    strToUsize (hexPrefix ++ render 16 0x40000000) = some 0x40000000 :=
  strToUsize_numbers.2 (hexPrefix, 16) (by simp [prefixes]) 0x40000000 (by decide)

/-- `0x+fF` is 255. -/
example : strToUsize [0x30, 0x78, 0x2b, 0x66, 0x46] = some 255 := by decide

end Min1visor.Arguments
