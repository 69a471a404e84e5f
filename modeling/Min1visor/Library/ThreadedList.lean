import Mathlib.Data.List.Basic
import Mathlib.Logic.Function.Basic
import Mathlib.Tactic

/-!
# Lists threaded through memory

A node holds a value and an optional link to the next node. A list starts at an anchor, a
node that lies outside of the memory. The place of a link is the anchor or the address of
the node that holds it; a node is unlinked by writing the link that leads to it.
-/
namespace ThreadedList

variable {α β : Type}

structure Node (α β : Type) where
  value : β
  next : Option α

/-- The anchor and the nodes in memory. -/
structure Memory (α β : Type) where
  anchor : Node α β
  node : α → Node α β

section Memory
variable [DecidableEq α]

namespace Memory

/-- The node that a place names. -/
def place (m : Memory α β) : Option α → Node α β
  | none => m.anchor
  | some a => m.node a

/-- Write the link at a place. -/
def setNext (m : Memory α β) (place : Option α) (next : Option α) : Memory α β :=
  match place with
  | none => { m with anchor := { m.anchor with next := next } }
  | some a => { m with node := Function.update m.node a { m.node a with next := next } }

/-- Write a new node that leads to the first one, and lead the anchor to it. -/
def push (m : Memory α β) (a : α) (v : β) : Memory α β where
  anchor := { m.anchor with next := some a }
  node := Function.update m.node a ⟨v, m.anchor.next⟩

end Memory

end Memory

/-- The nodes that the links lead through, from one link up to another. -/
def Segment (node : α → Node α β) : Option α → List (α × β) → Option α → Prop
  | first, [], last => first = last
  | first, (a, v) :: l, last =>
    first = some a ∧ (node a).value = v ∧ Segment node (node a).next l last

/-- The list that starts at the anchor, each of its nodes at an address of its own. -/
structure Represents (m : Memory α β) (l : List (α × β)) : Prop where
  segment : Segment m.node m.anchor.next l none
  nodup : (l.map Prod.fst).Nodup

theorem segment_append {node : α → Node α β} {first last : Option α} (l l' : List (α × β)) :
    Segment node first (l ++ l') last ↔
      ∃ middle, Segment node first l middle ∧ Segment node middle l' last := by
  induction l generalizing first with
  | nil => simp [Segment]
  | cons p l ih => simp only [List.cons_append, Segment, ih, exists_and_left, and_assoc]

/-- The place of the link that leads behind a prefix of the list. -/
def endPlace (l : List (α × β)) : Option α := l.getLast?.map Prod.fst

@[simp] theorem endPlace_concat (l : List (α × β)) (p : α × β) :
    endPlace (l ++ [p]) = some p.1 := by simp [endPlace]

/-- The link behind a prefix leads to the rest of the list. -/
theorem Represents.rest {m : Memory α β} {pre post : List (α × β)}
    (h : Represents m (pre ++ post)) : Segment m.node (m.place (endPlace pre)).next post none := by
  cases List.eq_nil_or_concat pre with
  | inl hnil =>
    subst hnil
    exact h.segment
  | inr hlast =>
    obtain ⟨init, p, rfl⟩ := hlast
    obtain ⟨b, w⟩ := p
    rw [List.concat_eq_append] at h ⊢
    obtain ⟨middle, hinit, hpost⟩ := (segment_append _ _).mp h.segment
    obtain ⟨_, -, -, -, rfl⟩ := (segment_append _ _).mp hinit
    rw [endPlace_concat]
    exact hpost

variable [DecidableEq α]

/-- A node outside of a segment does not matter for it. -/
theorem segment_update {node : α → Node α β} {first last : Option α} {l : List (α × β)} {a : α}
    (ha : a ∉ l.map Prod.fst) (n : Node α β) :
    Segment (Function.update node a n) first l last ↔ Segment node first l last := by
  induction l generalizing first with
  | nil => rfl
  | cons p l ih =>
    obtain ⟨b, v⟩ := p
    rw [List.map_cons, List.mem_cons, not_or] at ha
    simp only [Segment, Function.update_of_ne (Ne.symm ha.1), ih ha.2]

/-- A node at a fresh address becomes the first of the list. -/
theorem Represents.push {m : Memory α β} {l : List (α × β)} (h : Represents m l) {a : α}
    (ha : a ∉ l.map Prod.fst) (v : β) : Represents (m.push a v) ((a, v) :: l) where
  segment := by
    refine ⟨rfl, ?_, ?_⟩
    · simp [Memory.push]
    · simp only [Memory.push, Function.update_self]
      exact (segment_update ha _).mpr h.segment
  nodup := List.nodup_cons.mpr ⟨ha, h.nodup⟩

/-- Leading the link before a node to the one behind it takes the node out, and no other. The
link of the node itself is cleared first. -/
theorem Represents.unlink {m : Memory α β} {pre post : List (α × β)} {a : α} {v : β}
    (h : Represents m (pre ++ (a, v) :: post)) :
    Represents (((m.setNext (some a) none).setNext (endPlace pre) none).setNext (endPlace pre)
      (m.node a).next) (pre ++ post) := by
  have hnodup := h.nodup
  rw [List.map_append, List.map_cons, List.nodup_middle, List.nodup_cons, ← List.map_append]
    at hnodup
  obtain ⟨hfresh, hnodup⟩ := hnodup
  refine ⟨?_, hnodup⟩
  obtain ⟨middle, hpre, hmiddle, -, hpost⟩ := (segment_append _ _).mp h.segment
  cases List.eq_nil_or_concat pre with
  | inl hnil =>
    subst hnil
    exact (segment_update hfresh _).mpr hpost
  | inr hlast =>
    obtain ⟨init, p, rfl⟩ := hlast
    obtain ⟨b, w⟩ := p
    rw [List.concat_eq_append] at hpre hfresh hnodup ⊢
    rw [List.append_assoc, List.singleton_append] at hfresh hnodup ⊢
    rw [List.map_append, List.map_cons, List.mem_append, List.mem_cons, not_or, not_or] at hfresh
    rw [List.map_append, List.map_cons, List.nodup_middle, List.nodup_cons, List.mem_append, not_or]
      at hnodup
    obtain ⟨first, hinit, rfl, hvalue, -⟩ := (segment_append _ _).mp hpre
    obtain ⟨hinitFresh, hne, hpostFresh⟩ := hfresh
    obtain ⟨⟨hinitB, hpostB⟩, -⟩ := hnodup
    simp only [endPlace_concat, Memory.setNext]
    refine (segment_append _ _).mpr ⟨some b, ?_, rfl, ?_, ?_⟩
    · rw [segment_update hinitB, segment_update hinitB, segment_update hinitFresh]
      exact hinit
    · rw [Function.update_self, Function.update_self, Function.update_of_ne (Ne.symm hne)]
      exact hvalue
    · simp only [Function.update_self]
      rw [segment_update hpostB, segment_update hpostB, segment_update hpostFresh]
      exact hpost

end ThreadedList
