import Mathlib.Data.List.TakeWhile
import Mathlib.Tactic

/-!
# Flattened trees

A tree of named nodes with properties, written as one block of 32-bit words: a node is a
token, its name with a terminating zero, its properties, its subnodes and a closing token.
Names and values are padded to whole words, and empty words may stand before any token.
Property names are offsets into a separate block of strings.

A forest is a row of sibling nodes up to the token that closes it; the syntax keeps the
number of empty words, so that a forest determines its bytes.
-/
namespace FlattenedTree

def beginNode : List UInt8 := [0, 0, 0, 1]
def endNode : List UInt8 := [0, 0, 0, 2]
def prop : List UInt8 := [0, 0, 0, 3]
def nop : List UInt8 := [0, 0, 0, 4]
def endTree : List UInt8 := [0, 0, 0, 9]

/-- A 32-bit number, most significant byte first. -/
def word (n : ℕ) : List UInt8 :=
  [UInt8.ofNat (n / 2 ^ 24), UInt8.ofNat (n / 2 ^ 16), UInt8.ofNat (n / 2 ^ 8), UInt8.ofNat n]

/-- The number in a list of bytes, most significant first. -/
def ofBytes (bs : List UInt8) : ℕ := bs.foldl (fun n b => n * 256 + b.toNat) 0

def nops (n : ℕ) : List UInt8 := (List.replicate n nop).flatten

/-- Zeros up to a whole number of words. -/
def pad (bs : List UInt8) : List UInt8 := bs ++ List.replicate ((4 - bs.length % 4) % 4) 0

structure Property where
  nops : ℕ
  nameOffset : ℕ
  value : List UInt8
  deriving DecidableEq, Repr

/-- Sibling nodes, each behind its empty words, and the empty words before the token that
closes them. -/
inductive Forest
  | done (nops : ℕ)
  | node (nops : ℕ) (name : List UInt8) (props : List Property) (subnodes next : Forest)
  deriving DecidableEq, Repr

def Property.encode (p : Property) : List UInt8 :=
  FlattenedTree.nops p.nops ++ prop ++ word p.value.length ++ word p.nameOffset ++ pad p.value

def encodeName (name : List UInt8) : List UInt8 := pad (name ++ [0])

def encodeProps (props : List Property) : List UInt8 := props.flatMap Property.encode

/-- The bytes of a forest, with the token that closes it. -/
def Forest.encode (closing : List UInt8) : Forest → List UInt8
  | .done k => FlattenedTree.nops k ++ closing
  | .node k name props subnodes next =>
    FlattenedTree.nops k ++ beginNode ++ encodeName name ++ encodeProps props ++
      subnodes.encode endNode ++ next.encode closing

/-- A node of a forest that is written from some address on; `address` is where its
properties begin. -/
structure Node where
  name : List UInt8
  props : List Property
  address : ℕ
  deriving DecidableEq, Repr

/-- Where the properties of a node begin whose empty words are at `a`. -/
def content (a k : ℕ) (name : List UInt8) : ℕ := a + 4 * k + 4 + (encodeName name).length

namespace Forest

/-- The nodes of a forest in the order in which they are written. -/
def nodes : Forest → ℕ → List Node
  | .done _, _ => []
  | .node k name props subnodes next, a =>
    ⟨name, props, content a k name⟩ ::
      (subnodes.nodes (content a k name + (encodeProps props).length) ++
        next.nodes (content a k name + (encodeProps props).length +
          (subnodes.encode endNode).length))

/-- What holds of the name and the properties of every node. -/
def Forall (P : List UInt8 → List Property → Prop) : Forest → Prop
  | .done _ => True
  | .node _ name props subnodes next => P name props ∧ subnodes.Forall P ∧ next.Forall P

end Forest

/-! ## Strings -/

/-- The string that starts at an offset of a block of strings. -/
def stringAt (strings : List UInt8) (offset : ℕ) : List UInt8 :=
  (strings.drop offset).takeWhile (· ≠ 0)

/-- A string of a block, its terminating zero and what follows. -/
theorem drop_eq_stringAt {strings : List UInt8} {offset : ℕ} (h : 0 ∈ strings.drop offset) :
    ∃ rest, strings.drop offset = stringAt strings offset ++ 0 :: rest := by
  rw [stringAt]
  revert h
  induction strings.drop offset with
  | nil => exact fun h => absurd h List.not_mem_nil
  | cons b bs ih =>
    intro h
    by_cases hb : b = 0
    · exact ⟨bs, by simp [hb]⟩
    · obtain ⟨rest, hrest⟩ := ih ((List.mem_cons.mp h).resolve_left (Ne.symm hb))
      refine ⟨rest, ?_⟩
      rw [List.takeWhile_cons_of_pos (by simpa using hb), List.cons_append, ← hrest]

theorem zero_notMem_stringAt (strings : List UInt8) (offset : ℕ) :
    0 ∉ stringAt strings offset := by
  intro hmem
  simpa using List.mem_takeWhile_imp hmem

/-- A value that lists strings, each with a terminating zero. -/
def joinStrings (ss : List (List UInt8)) : List UInt8 := ss.flatMap (· ++ [0])

/-- The strings of such a value. -/
def splitStrings : List UInt8 → List (List UInt8)
  | [] => []
  | b :: bs =>
    if b = 0 then [] :: splitStrings bs
    else
      match splitStrings bs with
      | [] => []
      | s :: ss => (b :: s) :: ss

theorem splitStrings_append {s : List UInt8} (hs : 0 ∉ s) (bs : List UInt8) :
    splitStrings (s ++ 0 :: bs) = s :: splitStrings bs := by
  induction s with
  | nil => simp [splitStrings]
  | cons b s ih =>
    rw [List.mem_cons, not_or] at hs
    rw [List.cons_append, splitStrings, if_neg (Ne.symm hs.1), ih hs.2]

theorem splitStrings_joinStrings {ss : List (List UInt8)} (h : ∀ s ∈ ss, 0 ∉ s) :
    splitStrings (joinStrings ss) = ss := by
  induction ss with
  | nil => rfl
  | cons s ss ih =>
    rw [List.forall_mem_cons] at h
    have hjoin : joinStrings (s :: ss) = s ++ 0 :: joinStrings ss := by
      simp [joinStrings]
    rw [hjoin, splitStrings_append h.1, ih h.2]

/-! ## Lengths -/

@[simp] theorem length_word (n : ℕ) : (word n).length = 4 := rfl

theorem ofBytes_word {n : ℕ} (h : n < 2 ^ 32) : ofBytes (word n) = n := by
  simp only [ofBytes, word, List.foldl, UInt8.toNat_ofNat']
  omega

theorem ofBytes_concat (bs : List UInt8) (b : UInt8) :
    ofBytes (bs ++ [b]) = ofBytes bs * 256 + b.toNat := by
  rw [ofBytes, List.foldl_append]
  rfl

theorem ofBytes_lt (bs : List UInt8) : ofBytes bs < 256 ^ bs.length := by
  induction bs using List.reverseRecOn with
  | nil => exact Nat.one_pos
  | append_singleton bs b ih =>
    have hb := b.toNat_lt
    rw [ofBytes_concat, List.length_append, List.length_singleton, pow_succ]
    omega

@[simp] theorem length_nops (n : ℕ) : (nops n).length = 4 * n := by
  induction n with
  | zero => rfl
  | succ n ih =>
    have hcons : nops (n + 1) = nop ++ nops n := rfl
    rw [hcons, List.length_append, ih]
    simp only [nop, List.length_cons, List.length_nil]
    omega

theorem length_pad (bs : List UInt8) :
    (pad bs).length = bs.length + (4 - bs.length % 4) % 4 := by
  rw [pad, List.length_append, List.length_replicate]

theorem dvd_length_pad (bs : List UInt8) : 4 ∣ (pad bs).length := by
  rw [length_pad]
  omega

theorem length_encodeProps_cons (p : Property) (props : List Property) :
    (encodeProps (p :: props)).length =
      4 * p.nops + 12 + (pad p.value).length + (encodeProps props).length := by
  simp only [encodeProps, List.flatMap_cons, List.length_append, Property.encode, length_nops,
    prop, length_word, List.length_cons, List.length_nil]

theorem length_encode_node (closing : List UInt8) (k : ℕ) (name : List UInt8)
    (props : List Property) (subnodes next : Forest) :
    ((Forest.node k name props subnodes next).encode closing).length =
      4 * k + 4 + (encodeName name).length + (encodeProps props).length +
        (subnodes.encode endNode).length + (next.encode closing).length := by
  simp only [Forest.encode, List.length_append, length_nops, beginNode, List.length_cons,
    List.length_nil]

theorem length_encode_done (closing : List UInt8) (k : ℕ) :
    ((Forest.done k).encode closing).length = 4 * k + closing.length := by
  simp only [Forest.encode, List.length_append, length_nops]

theorem dvd_length_encodeProps (props : List Property) : 4 ∣ (encodeProps props).length := by
  induction props with
  | nil => exact dvd_zero 4
  | cons p props ih =>
    have hvalue := dvd_length_pad p.value
    rw [length_encodeProps_cons]
    omega

theorem dvd_length_encode {closing : List UInt8} (hclosing : closing.length = 4) (t : Forest) :
    4 ∣ (t.encode closing).length := by
  induction t generalizing closing with
  | done k =>
    rw [length_encode_done, hclosing]
    omega
  | node k name props subnodes next ihsub ihnext =>
    have hname : 4 ∣ (encodeName name).length := dvd_length_pad _
    have hprops := dvd_length_encodeProps props
    have hsub : 4 ∣ (subnodes.encode endNode).length := ihsub rfl
    have hnext := ihnext hclosing
    rw [length_encode_node]
    omega

theorem dvd_content {a : ℕ} (ha : 4 ∣ a) (k : ℕ) (name : List UInt8) : 4 ∣ content a k name := by
  have hname : 4 ∣ (encodeName name).length := dvd_length_pad _
  rw [content]
  omega

/-- The subnodes of a node begin at a whole word. -/
theorem dvd_content_add {a : ℕ} (ha : 4 ∣ a) (k : ℕ) (name : List UInt8) (props : List Property) :
    4 ∣ content a k name + (encodeProps props).length :=
  dvd_add (dvd_content ha k name) (dvd_length_encodeProps props)

/-- What follows a node begins at a whole word. -/
theorem dvd_content_add_add {a : ℕ} (ha : 4 ∣ a) (k : ℕ) (name : List UInt8)
    (props : List Property) (subnodes : Forest) :
    4 ∣ content a k name + (encodeProps props).length + (subnodes.encode endNode).length :=
  dvd_add (dvd_content_add ha k name props) (dvd_length_encode rfl subnodes)

/-- The bytes of a node and of what follows it. -/
theorem add_length_encode_node (closing : List UInt8) (a k : ℕ) (name : List UInt8)
    (props : List Property) (subnodes next : Forest) :
    a + ((Forest.node k name props subnodes next).encode closing).length =
      content a k name + (encodeProps props).length + (subnodes.encode endNode).length +
        (next.encode closing).length := by
  rw [length_encode_node, content]
  omega

/-- A forest has at least the token that closes it. -/
theorem le_length_encode {closing : List UInt8} (hclosing : closing.length = 4) (t : Forest) :
    4 ≤ (t.encode closing).length := by
  cases t with
  | done k =>
    rw [length_encode_done, hclosing]
    omega
  | node k name props subnodes next =>
    rw [length_encode_node]
    omega

end FlattenedTree
