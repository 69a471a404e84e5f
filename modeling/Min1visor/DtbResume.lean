import Min1visor.DtbSearch

/-!
# Resuming a search

A search that is handed its last result starts behind that node, after stepping over its
properties and the token that ends it. From there it looks at one sibling after another,
with a step of one word between two of them. The step is meant for the token that closes
the parent: an empty word may stand there as well, but the start of another sibling is
lost, and so is everything behind it.
-/
namespace Min1visor.Dtb
open FlattenedTree

/-! ## Enumerating the nodes of a tree -/

/-- Pass the last result back until there is none. -/
def Criterion.enumerate (c : Criterion) (d : Dtb) (fuel : ℕ) :
    ℕ → Option DtbNode → Except Stop (List DtbNode)
  | 0, _ => throw .fuel
  | turns + 1, currentNode => do
    match ← c.searchNode d fuel currentNode with
    | none => return []
    | some n => return n :: (← c.enumerate d fuel turns (some n))

/-- What makes a node one that a search is after. -/
def decision (onName : List UInt8 → Bool) (onProperty : Property → Bool) (name : List UInt8)
    (props : List Property) : Bool := onName name || props.any onProperty

section Forests
variable (P : List UInt8 → List Property → Bool)

/-- Where the subnodes of a node begin. -/
def subnodesAt (a k : ℕ) (name : List UInt8) (props : List Property) : ℕ :=
  content a k name + (encodeProps props).length

/-- Behind the token that ends a node. -/
def nodeEnd (a k : ℕ) (name : List UInt8) (props : List Property) (subnodes : Forest) : ℕ :=
  subnodesAt a k name props + (subnodes.encode endNode).length

/-- The matches that are in no other match, in document order. -/
def outermost : Forest → ℕ → List Node
  | .done _, _ => []
  | .node k name props subnodes next, a =>
    (if P name props then [⟨name, props, content a k name⟩]
      else outermost subnodes (subnodesAt a k name props)) ++
    outermost next (nodeEnd a k name props subnodes)

def hasMatch : Forest → Bool
  | .done _ => false
  | .node _ name props subnodes next => P name props || hasMatch subnodes || hasMatch next

def isLeaf : Forest → Bool
  | .done _ => true
  | .node _ _ _ _ _ => false

/-- What the step of one word behind a node leads to: from the closing token to what is
`beyond`, from an empty word before a node `onward` to it, and else nowhere. -/
def stepOver {α : Type} (nowhere onward beyond : α) : Forest → α
  | .done k => if k = 0 then beyond else nowhere
  | .node k _ _ _ _ => if k = 0 then nowhere else onward

/-- From behind a node, with these siblings after it, a match is reached. -/
def reaches : Forest → Bool → Bool
  | .done _, _ => false
  | .node _ name props subnodes next, beyond =>
    (P name props || hasMatch P subnodes) || stepOver false (reaches next beyond) beyond next

/-- Behind every match that another match follows there is a way to it: the match has no
subnodes, and the siblings behind it lead on. `more` says whether a match comes after the
forest, and `beyond` whether the step over its closing token leads to one. -/
def resumable : Forest → Bool → Bool → Bool
  | .done _, _, _ => true
  | .node _ name props subnodes next, more, beyond =>
    (if P name props then
      !(hasMatch P next || more) || (isLeaf subnodes && reaches P next beyond)
      else resumable subnodes (hasMatch P next || more) (reaches P next beyond)) &&
    resumable next more beyond

/-- The node that a search finds from behind a node with these siblings after it. -/
def scan : Forest → ℕ → Option Node → Option Node
  | .done _, _, _ => none
  | .node k name props subnodes next, a, beyond =>
    (if P name props then [⟨name, props, content a k name⟩]
      else outermost P subnodes (subnodesAt a k name props)).head?.or
    (stepOver none (scan next (nodeEnd a k name props subnodes) beyond) beyond next)

/-- The outermost matches, each with the node that a search resumed from it finds. -/
def resumes : Forest → ℕ → Option Node → List (Node × Option Node)
  | .done _, _, _ => []
  | .node k name props subnodes next, a, beyond =>
    (if P name props then
      [(⟨name, props, content a k name⟩,
        if isLeaf subnodes then scan P next (nodeEnd a k name props subnodes) beyond else none)]
      else resumes subnodes (subnodesAt a k name props)
        (scan P next (nodeEnd a k name props subnodes) beyond)) ++
    resumes next (nodeEnd a k name props subnodes) beyond

/-- What a search returns for a node: its name, properties and subnodes, the place of its
content, and the cell counts that the search comes with. -/
abbrev NodeResult := List UInt8 → List Property → Forest → ℕ → ℕ × ℕ → Option DtbNode

/-- What a search with these results returns from behind a node with these siblings after it;
the counts are the same for every sibling. -/
def scanWith (F : NodeResult) : Forest → ℕ → (ℕ × ℕ → Option DtbNode) → ℕ × ℕ → Option DtbNode
  | .done _, _, _, _ => none
  | .node k name props subnodes next, a, beyond, cells =>
    (F name props subnodes (content a k name) cells).or
      (stepOver none (scanWith F next (nodeEnd a k name props subnodes) beyond cells) (beyond cells)
        next)

/-- The outermost matches, each with what a search resumed from it returns. -/
def resumesWith (F : NodeResult) :
    Forest → ℕ → (ℕ × ℕ → Option DtbNode) → List (Node × (ℕ × ℕ → Option DtbNode))
  | .done _, _, _ => []
  | .node k name props subnodes next, a, beyond =>
    (if P name props then
      [(⟨name, props, content a k name⟩,
        if isLeaf subnodes then scanWith F next (nodeEnd a k name props subnodes) beyond
        else fun _ => none)]
      else resumesWith F subnodes (subnodesAt a k name props)
        (scanWith F next (nodeEnd a k name props subnodes) beyond)) ++
    resumesWith F next (nodeEnd a k name props subnodes) beyond

/-- The results are the first matches. -/
def Results (F : NodeResult) : Prop :=
  ∀ name props subnodes p cells, (F name props subnodes p cells).map DtbNode.address =
    ((if P name props then [Node.mk name props p]
      else outermost P subnodes (p + (encodeProps props).length)).head?).map Node.address

/-- A node with what a search from it leads to, in nodes and in results. -/
def Alike (e : Node × Option Node) (e' : Node × (ℕ × ℕ → Option DtbNode)) : Prop :=
  e'.1 = e.1 ∧ ∀ cells, (e'.2 cells).map DtbNode.address = e.2.map Node.address

end Forests

variable {P : List UInt8 → List Property → Bool}

theorem resumes_fst (t : Forest) (a : ℕ) (beyond : Option Node) :
    (resumes P t a beyond).map Prod.fst = outermost P t a := by
  induction t generalizing a beyond with
  | done k => rfl
  | node k name props subnodes next ihsub ihnext =>
    rw [resumes, outermost, List.map_append, ihnext]
    by_cases hP : P name props
    · simp [hP]
    · simp [hP, ihsub]

theorem outermost_head (onName : List UInt8 → Bool) (onProperty : Property → Bool) (t : Forest)
    (a : ℕ) : (outermost (decision onName onProperty) t a).head? =
      (t.nodes a).find? (isMatch onName onProperty) := by
  induction t generalizing a with
  | done k => rfl
  | node k name props subnodes next ihsub ihnext =>
    rw [outermost, Forest.nodes, List.head?_append, List.find?_cons, List.find?_append]
    have hmatch : isMatch onName onProperty ⟨name, props, content a k name⟩ =
      decision onName onProperty name props := rfl
    rw [hmatch, ihnext]
    by_cases hP : decision onName onProperty name props
    · simp [hP]
    · simp [hP, ihsub]
      rfl

theorem hasMatch_eq (t : Forest) (a : ℕ) : hasMatch P t = (outermost P t a).head?.isSome := by
  induction t generalizing a with
  | done k => rfl
  | node k name props subnodes next ihsub ihnext =>
    rw [hasMatch, outermost, List.head?_append, Option.isSome_or, ← ihnext]
    by_cases hP : P name props
    · simp [hP]
    · simp [hP, ihsub (subnodesAt a k name props)]

/-- The first match in a node and its subnodes. -/
theorem hasMatch_node (k : ℕ) (name : List UInt8) (props : List Property) (subnodes : Forest)
    (a : ℕ) : (P name props || hasMatch P subnodes) =
      (if P name props then [⟨name, props, content a k name⟩]
        else outermost P subnodes (subnodesAt a k name props)).head?.isSome := by
  by_cases hP : P name props
  · simp [hP]
  · simp [hP, hasMatch_eq subnodes (subnodesAt a k name props)]

theorem scan_isSome (t : Forest) (a : ℕ) (beyond : Option Node) :
    (scan P t a beyond).isSome = reaches P t beyond.isSome := by
  induction t generalizing a with
  | done k => rfl
  | node k name props subnodes next ihsub ihnext =>
    rw [scan, reaches, Option.isSome_or, hasMatch_node k name props subnodes a]
    congr 1
    cases next with
    | done j =>
      by_cases hj : j = 0 <;> simp [stepOver, hj]
    | node j name' props' subnodes' next' =>
      by_cases hj : j = 0
      · simp [stepOver, hj]
      · rw [stepOver, stepOver, if_neg hj, if_neg hj]
        exact ihnext _

theorem scanWith_address {F : NodeResult} (hF : Results P F) (t : Forest) (a : ℕ)
    {beyond : Option Node} {beyond' : ℕ × ℕ → Option DtbNode} {cells : ℕ × ℕ}
    (hbeyond : (beyond' cells).map DtbNode.address = beyond.map Node.address) :
    (scanWith F t a beyond' cells).map DtbNode.address = (scan P t a beyond).map Node.address := by
  induction t generalizing a with
  | done k => rfl
  | node k name props subnodes next ihsub ihnext =>
    have hover : (stepOver none (scanWith F next (nodeEnd a k name props subnodes) beyond' cells)
          (beyond' cells) next).map DtbNode.address =
        (stepOver none (scan P next (nodeEnd a k name props subnodes) beyond) beyond next).map
          Node.address := by
      cases next with
      | done j => by_cases hj : j = 0 <;> simp [stepOver, hj, hbeyond]
      | node j name' props' subnodes' next' =>
        have hnext := ihnext (nodeEnd a k name props subnodes)
        by_cases hj : j = 0
        · simp [stepOver, hj]
        · simpa [stepOver, hj] using hnext
    have hnode := hF name props subnodes (content a k name) cells
    have hor : ∀ {α β γ : Type} {f : α → γ} {g : β → γ} {x y : Option α} {u v : Option β},
        x.map f = u.map g → y.map f = v.map g → (x.or y).map f = (u.or v).map g := by
      intro α β γ f g x y u v hfirst hsecond
      cases x <;> cases u <;> simp_all
    rw [scanWith, scan]
    exact hor hnode hover

/-- The nodes and the results go together. -/
theorem resumesWith_alike {F : NodeResult} (hF : Results P F) (t : Forest) (a : ℕ)
    {beyond : Option Node} {beyond' : ℕ × ℕ → Option DtbNode}
    (hbeyond : ∀ cells, (beyond' cells).map DtbNode.address = beyond.map Node.address) :
    List.Forall₂ Alike (resumes P t a beyond) (resumesWith P F t a beyond') := by
  induction t generalizing a beyond beyond' with
  | done k => exact .nil
  | node k name props subnodes next ihsub ihnext =>
    have hscan := fun cells => scanWith_address hF next (nodeEnd a k name props subnodes)
      (hbeyond cells)
    rw [resumes, resumesWith]
    refine List.rel_append ?_ (ihnext _ hbeyond)
    by_cases hP : P name props
    · rw [if_pos hP, if_pos hP]
      refine .cons ⟨rfl, fun cells => ?_⟩ .nil
      cases isLeaf subnodes with
      | true => exact hscan cells
      | false => rfl
    · rw [if_neg hP, if_neg hP]
      exact ihsub _ hscan

/-- A resumed search finds the next match or nothing. -/
theorem scan_eq (t : Forest) (a : ℕ) {beyond later : Option Node}
    (hbeyond : beyond = none ∨ beyond = later) :
    scan P t a beyond =
      if reaches P t beyond.isSome then (outermost P t a).head?.or later else none := by
  induction t generalizing a with
  | done k => rfl
  | node k name props subnodes next ihsub ihnext =>
    rw [scan, reaches, outermost, List.head?_append, hasMatch_node k name props subnodes a]
    cases (if P name props then [Node.mk name props (content a k name)]
        else outermost P subnodes (subnodesAt a k name props)).head? with
    | some n => rfl
    | none =>
      rw [Option.isSome_none, Bool.false_or, Option.none_or, Option.none_or]
      cases next with
      | done j =>
        rw [stepOver, stepOver, outermost]
        by_cases hj : j = 0
        · rcases hbeyond with rfl | rfl
          · simp [hj]
          · cases beyond <;> simp [hj]
        · simp [hj]
      | node j name' props' subnodes' next' =>
        rw [stepOver, stepOver]
        by_cases hj : j = 0
        · simp [hj]
        · rw [if_neg hj, if_neg hj]
          exact ihnext _

theorem scan_guided (t : Forest) (a : ℕ) {beyond later : Option Node}
    (hbeyond : beyond = none ∨ beyond = later) :
    scan P t a beyond = none ∨ scan P t a beyond = (outermost P t a).head?.or later := by
  rw [scan_eq t a hbeyond]
  cases reaches P t beyond.isSome with
  | false => exact .inl rfl
  | true => exact .inr rfl

/-- Every entry leads to the next one, and the last to `later`. -/
def Linked (later : Option Node) : List (Node × Option Node) → Prop
  | [] => True
  | (_, r) :: l => r = (l.map Prod.fst).head?.or later ∧ Linked later l

theorem linked_append {later : Option Node} (l l' : List (Node × Option Node)) :
    Linked later (l ++ l') ↔ Linked ((l'.map Prod.fst).head?.or later) l ∧ Linked later l' := by
  induction l with
  | nil => simp [Linked]
  | cons e l ih =>
    rw [List.cons_append, Linked, Linked, ih, List.map_append, List.head?_append, Option.or_assoc,
      and_assoc]

/-- Whether the matches are linked is a matter of the shape of the tree. -/
theorem linked_resumes (t : Forest) (a : ℕ) {beyond later : Option Node}
    (hbeyond : beyond = none ∨ beyond = later) :
    Linked later (resumes P t a beyond) ↔ resumable P t later.isSome beyond.isSome = true := by
  induction t generalizing a beyond later with
  | done k => simp [resumes, Linked, resumable]
  | node k name props subnodes next ihsub ihnext =>
    have hscan := scan_eq (P := P) next (nodeEnd a k name props subnodes) hbeyond
    have hmore : (hasMatch P next || later.isSome) =
        ((outermost P next (nodeEnd a k name props subnodes)).head?.or later).isSome := by
      rw [Option.isSome_or, hasMatch_eq next (nodeEnd a k name props subnodes)]
    rw [resumes, linked_append, resumes_fst, ihnext _ hbeyond, resumable, Bool.and_eq_true]
    refine and_congr_left fun _ => ?_
    by_cases hP : P name props
    · rw [if_pos hP, if_pos hP, hmore, Linked, hscan]
      cases isLeaf subnodes <;> cases reaches P next beyond.isSome <;>
        cases (outermost P next (nodeEnd a k name props subnodes)).head?.or later <;>
        simp [Linked]
    · rw [if_neg hP, if_neg hP, hmore, ihsub _ (scan_guided next _ hbeyond), scan_isSome]

/-- Every entry leads to the next one, or nowhere. -/
def Guided (later : Option Node) : List (Node × Option Node) → Prop
  | [] => True
  | (_, r) :: l => (r = none ∨ r = (l.map Prod.fst).head?.or later) ∧ Guided later l

theorem guided_append {later : Option Node} {l l' : List (Node × Option Node)}
    (h : Guided ((l'.map Prod.fst).head?.or later) l) (h' : Guided later l') :
    Guided later (l ++ l') := by
  induction l with
  | nil => exact h'
  | cons e l ih =>
    rw [List.cons_append, Guided, List.map_append, List.head?_append, Option.or_assoc]
    exact ⟨h.1, ih h.2⟩

theorem guided_resumes (t : Forest) (a : ℕ) {beyond later : Option Node}
    (hbeyond : beyond = none ∨ beyond = later) : Guided later (resumes P t a beyond) := by
  induction t generalizing a beyond later with
  | done k => trivial
  | node k name props subnodes next ihsub ihnext =>
    have hscan := scan_guided (P := P) next (nodeEnd a k name props subnodes) hbeyond
    rw [resumes]
    refine guided_append ?_ (ihnext _ hbeyond)
    rw [resumes_fst]
    by_cases hP : P name props
    · rw [if_pos hP]
      refine ⟨?_, trivial⟩
      cases isLeaf subnodes with
      | true => exact hscan
      | false => exact .inl rfl
    · rw [if_neg hP]
      exact ihsub _ hscan

/-! ## Stepping over a node -/

section Reader
variable {d : Dtb} {start stop : ℕ} {strings : List UInt8}

/-- The first word of a name is no token. -/
theorem encodeName_word {name : List UInt8} (hname : 0 ∉ name) :
    ∃ w rest, encodeName name = w ++ rest ∧ w.length = 4 ∧
      w ∉ [beginNode, endNode, prop, nop, endTree] := by
  have hlength : 4 ≤ (encodeName name).length := by
    rw [encodeName, length_pad, List.length_append, List.length_singleton]
    omega
  refine ⟨(encodeName name).take 4, (encodeName name).drop 4, (List.take_append_drop 4 _).symm,
    by rw [List.length_take]; omega, ?_⟩
  cases name with
  | nil => decide
  | cons b name =>
    have hb : b ≠ 0 := by
      rintro rfl
      simp at hname
    have hfirst : ∃ rest, (encodeName (b :: name)).take 4 = b :: rest := ⟨_, rfl⟩
    obtain ⟨rest, hrest⟩ := hfirst
    rw [hrest]
    simp [beginNode, endNode, prop, nop, endTree, hb]

theorem skipToNextNode_pad {p a : ℕ} (hpad : skipPadding p = .ok a) (ha : 4 ∣ a) (fuel : ℕ) :
    d.skipToNextNode fuel p = d.skipToNextNode fuel a := by
  cases fuel with
  | zero => rfl
  | succ fuel => rw [skipToNextNode, skipToNextNode, hpad, skipPadding_of_dvd ha]

theorem Opened.skipToNextNode_property (h : d.Opened start stop strings) {q : Property}
    (hq : ValidProperty strings q) {a fuel : ℕ} (ha : 4 ∣ a) (hfuel : q.nops < fuel)
    (hhas : d.mem.Has a q.encode) (hlt : a + q.encode.length ≤ stop) :
    d.skipToNextNode (fuel + 1) a = d.skipToNextNode fuel (a + q.encode.length) := by
  have hstop := h.stop_lt
  have hlength := length_encode_property q
  have hvalue : q.value.length ≤ (pad q.value).length := by
    rw [length_pad]
    omega
  obtain ⟨htoken, hheader, -⟩ := has_property hhas
  obtain ⟨hnop, hread⟩ := h.token_ok (show prop.length = 4 from rfl) (by decide) hfuel htoken
    (by omega)
  have hword : d.mem.Has (a + 4 * q.nops + 4) (word q.value.length) :=
    (Mapped.has_append.mp (Mapped.has_append.mp hheader).1).2
  have hlen := h.readBeU32Node_ok (by omega) hq.length hword
  have hpad := skipPadding_pad (show 4 ∣ a + 4 * q.nops + 12 by omega) q.value (by omega)
  have hend : a + 4 * q.nops + 12 + (pad q.value).length = a + q.encode.length := by omega
  have hdvd : 4 ∣ a + q.encode.length := by
    have := dvd_length_pad q.value
    omega
  rw [hend] at hpad
  rw [skipToNextNode, skipPadding_of_dvd ha, Checked.ok_bind, hnop, Checked.ok_bind, hread,
    Checked.ok_bind, if_neg (by decide), if_neg (by decide), if_neg (by decide),
    if_pos (by decide), fdtTokenByte]
  rw [checked_add (show a + 4 * q.nops + 4 < 2 ^ 64 by omega), Checked.ok_bind, hlen,
    Checked.ok_bind, checked_add (show a + 4 * q.nops + 4 + 4 < 2 ^ 64 by omega), Checked.ok_bind,
    checked_add (show a + 4 * q.nops + 4 + 4 + 4 < 2 ^ 64 by omega), Checked.ok_bind,
    checked_add (by omega), Checked.ok_bind]
  exact skipToNextNode_pad hpad hdvd fuel

theorem Opened.skipToNextNode_properties (h : d.Opened start stop strings)
    {props : List Property} (hprops : ∀ q ∈ props, ValidProperty strings q) {a fuel : ℕ}
    (ha : 4 ∣ a) (hfuel : (encodeProps props).length ≤ fuel)
    (hhas : d.mem.Has a (encodeProps props)) (hlt : a + (encodeProps props).length ≤ stop) :
    ∃ rest, fuel ≤ rest + (encodeProps props).length ∧
      d.skipToNextNode fuel a = d.skipToNextNode rest (a + (encodeProps props).length) := by
  induction props generalizing a fuel with
  | nil => exact ⟨fuel, le_rfl, rfl⟩
  | cons q props ih =>
    rw [List.forall_mem_cons] at hprops
    have hcons : encodeProps (q :: props) = q.encode ++ encodeProps props := rfl
    have hlength : (encodeProps (q :: props)).length = q.encode.length + (encodeProps props).length :=
      by rw [hcons, List.length_append]
    have hfirst := length_encode_property q
    have hdvd := dvd_length_pad q.value
    rw [hcons] at hhas
    obtain ⟨hq, hrest⟩ := Mapped.has_append.mp hhas
    obtain ⟨fuel, rfl⟩ : ∃ n, fuel = n + 1 := ⟨fuel - 1, by omega⟩
    rw [h.skipToNextNode_property hprops.1 ha (show q.nops < fuel by omega) hq (by omega)]
    obtain ⟨rest, hle, heq⟩ := ih hprops.2 (show 4 ∣ a + q.encode.length by omega)
      (show (encodeProps props).length ≤ fuel by omega) hrest (by omega)
    exact ⟨rest, by omega, by rw [heq, hlength, Nat.add_assoc]⟩

theorem Opened.skipToNextNode_done (h : d.Opened start stop strings) {a k fuel : ℕ} (ha : 4 ∣ a)
    (hfuel : k < fuel) (hhas : d.mem.Has a ((Forest.done k).encode endNode))
    (hlt : a + ((Forest.done k).encode endNode).length ≤ stop) :
    d.skipToNextNode (fuel + 1) a = .ok (a + ((Forest.done k).encode endNode).length) := by
  have hstop := h.stop_lt
  have hlength : ((Forest.done k).encode endNode).length = 4 * k + 4 := length_encode_done _ k
  rw [hlength] at hlt ⊢
  obtain ⟨hnop, htoken⟩ := h.token_ok (show endNode.length = 4 from rfl) (by decide) hfuel hhas
    (by omega)
  rw [skipToNextNode, skipPadding_of_dvd ha, Checked.ok_bind, hnop, Checked.ok_bind, htoken,
    Checked.ok_bind, if_neg (by decide), if_neg (by decide), if_pos (by decide)]
  exact checked_add (show a + 4 * k + 4 < 2 ^ 64 by omega)

/-- A subnode is not stepped over: its name is taken for a token. -/
theorem Opened.skipToNextNode_begin (h : d.Opened start stop strings) {name : List UInt8}
    (hname : 0 ∉ name) {a k fuel : ℕ} (ha : 4 ∣ a) (hfuel : k + 1 < fuel)
    (hhas : d.mem.Has a (nops k ++ beginNode ++ encodeName name))
    (hlt : content a k name ≤ stop) : d.skipToNextNode (fuel + 1) a = .error .err := by
  have hstop := h.stop_lt
  have hcontent : content a k name = a + 4 * k + 4 + (encodeName name).length := rfl
  obtain ⟨w, rest, hsplit, hw, hnot⟩ := encodeName_word hname
  have hle : 4 ≤ (encodeName name).length := by
    rw [hsplit, List.length_append, hw]
    omega
  obtain ⟨htoken, hbytes⟩ := Mapped.has_append.mp hhas
  have hpos : a + (nops k ++ beginNode).length = a + 4 * k + 4 := by
    rw [List.length_append, length_nops, ← Nat.add_assoc]
    rfl
  rw [hpos, hsplit] at hbytes
  have hword := (Mapped.has_append.mp hbytes).1
  simp only [List.mem_cons, List.not_mem_nil, or_false, not_or] at hnot
  obtain ⟨hbegin, hendNode, hprop, hnop, hendTree⟩ := hnot
  obtain ⟨fuel, rfl⟩ : ∃ n, fuel = n + 2 := ⟨fuel - 2, by omega⟩
  obtain ⟨hskip, hread⟩ := h.token_ok (show beginNode.length = 4 from rfl) (by decide)
    (show k < fuel + 2 by omega) htoken (by omega)
  have hinner : d.skipToNextNode (fuel + 2) (a + 4 * k + 4) = .error .err := by
    have hstay := h.skipNop_ok hw hnop (show 0 < fuel + 1 by omega)
      (show d.mem.Has (a + 4 * k + 4) (nops 0 ++ w) from hword) (by omega)
    rw [Nat.mul_zero, Nat.add_zero] at hstay
    rw [skipToNextNode, skipPadding_of_dvd (by omega), Checked.ok_bind, hstay, Checked.ok_bind,
      h.readNode_ok (by omega) hw hword, Checked.ok_bind,
      if_neg (show w ≠ fdtBeginNode from hbegin), if_neg (show w ≠ fdtEnd from hendTree),
      if_neg (show w ≠ fdtEndNode from hendNode), if_neg (show w ≠ fdtProp from hprop)]
    rfl
  have hadd : checked (Checked.add 64 (a + 4 * k) fdtTokenByte) = .ok (a + 4 * k + 4) :=
    checked_add (show a + 4 * k + 4 < 2 ^ 64 by omega)
  rw [skipToNextNode, skipPadding_of_dvd ha, Checked.ok_bind, hskip, Checked.ok_bind, hread,
    Checked.ok_bind, if_pos (by decide), hadd, Checked.ok_bind, hinner]
  rfl

/-! ## Searching from behind a node -/

variable {c : Criterion} {onName : List UInt8 → Bool} {onProperty : Property → Bool}

/-- From `p` the loop around the search returns `r` of the counts that it comes with. -/
def Criterion.Leads (c : Criterion) (d : Dtb) (stop p : ℕ) (r : ℕ × ℕ → Option DtbNode) : Prop :=
  ∀ fuel cells, stop < p + fuel → c.searchFrom d fuel p cells.1 cells.2 = .ok (r cells)

/-- A search that returns the node, or none and then leaves the pointer at `stop`. -/
def Returns (r : Except Stop (Option DtbNode × ℕ)) (found : Option DtbNode) (stop : ℕ) : Prop :=
  match found with
  | some m => ∃ p, r = .ok (some m, p)
  | none => r = .ok (none, stop)

/-- For every node of a forest whose nodes are as `V` has it, the search returns the result. -/
def Criterion.Searches (c : Criterion) (d : Dtb) (start stop : ℕ)
    (V : List UInt8 → List Property → Prop) (F : NodeResult) : Prop :=
  ∀ (k : ℕ) (name closing : List UInt8) (props : List Property) (subnodes next : Forest)
    (a fuel : ℕ) (cells : ℕ × ℕ), (Forest.node k name props subnodes next).Forall V → start ≤ a →
    4 ∣ a → d.mem.Has a ((Forest.node k name props subnodes next).encode closing) →
    a + ((Forest.node k name props subnodes next).encode closing).length ≤ stop →
    nodeEnd a k name props subnodes ≤ a + fuel →
    Returns (c.search d fuel a cells.1 cells.2) (F name props subnodes (content a k name) cells)
      (nodeEnd a k name props subnodes)

/-- At the end of the structure block the loop is done. -/
theorem Opened.leads_stop (h : d.Opened start stop strings) (c : Criterion) :
    c.Leads d stop stop fun _ => none := by
  intro fuel cells hfuel
  obtain ⟨fuel, rfl⟩ : ∃ n, fuel = n + 1 := ⟨fuel - 1, by omega⟩
  rw [Criterion.searchFrom, h.checkNode_err le_rfl]
  rfl

theorem Opened.leads_nowhere (h : d.Opened start stop strings) (c : Criterion)
    {token : List UInt8} (hlength : token.length = 4) (hnop : token ≠ nop)
    (hbegin : token ≠ beginNode) {p k : ℕ} (hhas : d.mem.Has p (nops k ++ token))
    (hlt : p + 4 * k + 4 ≤ stop) : c.Leads d stop p fun _ => none := by
  intro fuel cells hfuel
  obtain ⟨fuel, rfl⟩ : ∃ n, fuel = n + 2 := ⟨fuel - 2, by omega⟩
  rw [Criterion.searchFrom, h.checkNode_ok (by omega), attempt_ok, Checked.ok_bind,
    h.search_err hlength hnop hbegin (show k < fuel by omega) hhas (by omega)]
  rfl

/-- The forest behind another number of empty words. -/
def withNops (k : ℕ) : Forest → Forest
  | .done _ => .done k
  | .node _ name props subnodes next => .node k name props subnodes next

theorem scanWith_withNops (F : NodeResult) (k : ℕ) (t : Forest) (a : ℕ)
    (beyond : ℕ × ℕ → Option DtbNode) :
    scanWith F (withNops k t) (a + 4) beyond = scanWith F (withNops (k + 1) t) a beyond := by
  cases t with
  | done j => rfl
  | node j name props subnodes next =>
    have hcontent : content (a + 4) k name = content a (k + 1) name := by
      rw [content, content]
      omega
    ext1 cells
    simp only [withNops, scanWith, nodeEnd, subnodesAt, hcontent]

/-- The first match in a node, with the counts that the search has read until then. -/
def firstIn (d : Dtb) (onName : List UInt8 → Bool) (onProperty : Property → Bool) : NodeResult :=
  fun name props subnodes p cells =>
    (((⟨name, props, p⟩, cells) :: d.inForce subnodes (p + (encodeProps props).length)
      (d.cellsOf props p cells)).find? fun e => isMatch onName onProperty e.1).map
        (d.found onName onProperty)

theorem firstIn_results (d : Dtb) (onName : List UInt8 → Bool) (onProperty : Property → Bool) :
    Results (decision onName onProperty) (d.firstIn onName onProperty) := by
  intro name props subnodes p cells
  have hmatch : isMatch onName onProperty ⟨name, props, p⟩ = decision onName onProperty name props :=
    rfl
  have hsub : ∀ cells, ((d.inForce subnodes (p + (encodeProps props).length) cells).find? fun e =>
      isMatch onName onProperty e.1).map (fun e => e.1.address) =
        (outermost (decision onName onProperty) subnodes
          (p + (encodeProps props).length)).head?.map Node.address := by
    intro cells
    rw [outermost_head, ← inForce_fst d subnodes _ cells, List.find?_map, Option.map_map]
    rfl
  rw [firstIn, Option.map_map, List.find?_cons]
  simp only [Function.comp_def, found_address, hmatch]
  by_cases hP : decision onName onProperty name props
  · simp [hP]
  · simp [hP, hsub]

theorem Opened.firstIn_searches (h : d.Opened start stop strings)
    (hc : c.Decides d strings onName onProperty) :
    c.Searches d start stop (ValidNode strings) (d.firstIn onName onProperty) := by
  intro k name closing props subnodes next a fuel cells hvalid hle ha hhas hlt hfuel
  obtain ⟨hnode, hsubValid, -⟩ := hvalid
  obtain ⟨hbytes, hsubBytes, -⟩ := has_node hhas
  have hcontent : content a k name = a + 4 * k + 4 + (encodeName name).length := rfl
  have hend : nodeEnd a k name props subnodes =
    content a k name + (encodeProps props).length + (subnodes.encode endNode).length := rfl
  rw [add_length_encode_node] at hlt
  have hfinds := h.search_node hc hnode hle ha hbytes (by omega) hfuel (fun rest u cells hrest =>
    h.searchLoop_forest hc hsubValid (by omega) (dvd_content_add ha k name props) hrest hsubBytes
      (by omega) u cells) cells
  rw [firstIn]
  cases hfind : ((⟨name, props, content a k name⟩, cells) ::
      d.inForce subnodes (content a k name + (encodeProps props).length)
        (d.cellsOf props (content a k name) cells)).find? fun e => isMatch onName onProperty e.1 with
  | none =>
    rw [hfind] at hfinds
    exact hfinds
  | some e =>
    rw [hfind] at hfinds
    exact hfinds

/-- A forest behind one more empty word. -/
theorem encode_withNops (closing : List UInt8) (k : ℕ) (t : Forest) :
    (withNops (k + 1) t).encode closing = nop ++ (withNops k t).encode closing := by
  cases t with
  | done j => rfl
  | node j name props subnodes next =>
    simp only [withNops, Forest.encode]
    rfl

/-- The tokens that close a forest. -/
theorem closing_token {closing : List UInt8} (h : closing = endNode ∨ closing = endTree) :
    closing.length = 4 ∧ closing ≠ nop ∧ closing ≠ beginNode := by
  rcases h with rfl | rfl
  · decide
  · decide

/-- The step of one word from behind a node. -/
theorem Opened.leads_stepOver (h : d.Opened start stop strings) {closing : List UInt8}
    (hclosing : closing = endNode ∨ closing = endTree) {next : Forest}
    (hnames : next.Forall fun name _ => 0 ∉ name) {b : ℕ} (hle : start ≤ b) (hb : 4 ∣ b)
    (hhas : d.mem.Has b (next.encode closing)) (hlt : b + (next.encode closing).length ≤ stop)
    {beyond : ℕ × ℕ → Option DtbNode}
    (hbeyond : c.Leads d stop (b + (next.encode closing).length) beyond) {F : NodeResult}
    (hnext : ∀ (k : ℕ) {a : ℕ}, start ≤ a → 4 ∣ a → d.mem.Has a ((withNops k next).encode closing) →
      a + ((withNops k next).encode closing).length ≤ stop →
      c.Leads d stop (a + ((withNops k next).encode closing).length) beyond →
      c.Leads d stop a (scanWith F (withNops k next) a beyond)) :
    c.Leads d stop (b + 4) fun cells =>
      stepOver none (scanWith F next b beyond cells) (beyond cells) next := by
  obtain ⟨hlength, hnop, hbegin⟩ := closing_token hclosing
  cases next with
  | done j =>
    rw [length_encode_done, hlength] at hlt hbeyond
    cases j with
    | zero => exact hbeyond
    | succ i =>
      have hsplit : d.mem.Has b (nop ++ (nops i ++ closing)) := hhas
      exact h.leads_nowhere c hlength hnop hbegin (Mapped.has_append.mp hsplit).2 (by omega)
  | node j name props subnodes next' =>
    cases j with
    | zero =>
      -- The name of the sibling stands where a token is expected.
      obtain ⟨w, rest, hsplit, hw, hnot⟩ := encodeName_word hnames.1
      simp only [List.mem_cons, List.not_mem_nil, or_false, not_or] at hnot
      obtain ⟨hbytes, -, -⟩ := has_node hhas
      have hname := (Mapped.has_append.mp (Mapped.has_append.mp hbytes).1).2
      rw [hsplit] at hname
      have hlengthNode := length_encode_node closing 0 name props subnodes next'
      have hwordLe : 4 ≤ (encodeName name).length := by
        rw [hsplit, List.length_append, hw]
        omega
      exact h.leads_nowhere c hw hnot.2.2.2.1 hnot.1 (k := 0) (Mapped.has_append.mp hname).1
        (by omega)
    | succ i =>
      have hencode : (Forest.node (i + 1) name props subnodes next').encode closing =
          nop ++ (withNops i (.node (i + 1) name props subnodes next')).encode closing :=
        encode_withNops closing i (.node (i + 1) name props subnodes next')
      rw [hencode] at hhas
      rw [hencode, List.length_append, ← Nat.add_assoc] at hlt hbeyond
      have hscan := scanWith_withNops F i (.node (i + 1) name props subnodes next') b beyond
      have hleads := hnext i (show start ≤ b + 4 by omega) (by omega) (Mapped.has_append.mp hhas).2
        hlt hbeyond
      rw [hscan] at hleads
      exact hleads

theorem forall_imp {V W : List UInt8 → List Property → Prop}
    (hVW : ∀ name props, V name props → W name props) {t : Forest} (h : t.Forall V) :
    t.Forall W := by
  induction t with
  | done k => trivial
  | node k name props subnodes next ihsub ihnext =>
    exact ⟨hVW name props h.1, ihsub h.2.1, ihnext h.2.2⟩

variable {V : List UInt8 → List Property → Prop} {F : NodeResult}

/-- What a search finds from behind a node with these siblings after it. -/
theorem Opened.leads_scan (h : d.Opened start stop strings)
    (hV : ∀ name props, V name props → ValidNode strings name props)
    (hsearches : c.Searches d start stop V F) {closing : List UInt8}
    (hclosing : closing = endNode ∨ closing = endTree) {t : Forest}
    (hvalid : t.Forall V) (k : ℕ) {a : ℕ} (hle : start ≤ a) (ha : 4 ∣ a)
    (hhas : d.mem.Has a ((withNops k t).encode closing))
    (hlt : a + ((withNops k t).encode closing).length ≤ stop) {beyond : ℕ × ℕ → Option DtbNode}
    (hbeyond : c.Leads d stop (a + ((withNops k t).encode closing).length) beyond) :
    c.Leads d stop a (scanWith F (withNops k t) a beyond) := by
  have hstop := h.stop_lt
  obtain ⟨hlength, hnop, hbegin⟩ := closing_token hclosing
  induction t generalizing k a with
  | done j =>
    rw [withNops, length_encode_done, hlength] at hlt
    exact h.leads_nowhere c hlength hnop hbegin (k := k) hhas (by omega)
  | node j name props subnodes next ihsub ihnext =>
    intro fuel cells hfuel
    rw [withNops] at hhas hlt hbeyond ⊢
    obtain ⟨-, -, hnextBytes⟩ := has_node hhas
    have hcontent : content a k name = a + 4 * k + 4 + (encodeName name).length := rfl
    have hend : nodeEnd a k name props subnodes =
      content a k name + (encodeProps props).length + (subnodes.encode endNode).length := rfl
    have hnextLe := le_length_encode hlength next
    have hinside := hlt
    rw [add_length_encode_node, ← hend] at hlt hbeyond
    obtain ⟨fuel, rfl⟩ : ∃ n, fuel = n + 1 := ⟨fuel - 1, by omega⟩
    have hsearch := hsearches k name closing props subnodes next a fuel cells ⟨hvalid.1, hvalid.2⟩
      hle ha hhas hinside (by omega)
    rw [Criterion.searchFrom, h.checkNode_ok (by omega), attempt_ok, Checked.ok_bind, scanWith]
    cases hfound : F name props subnodes (content a k name) cells with
    | some m =>
      rw [hfound] at hsearch
      obtain ⟨p, heq⟩ := hsearch
      rw [heq]
      rfl
    | none =>
      rw [hfound] at hsearch
      have hadd : checked (Checked.add 64 (nodeEnd a k name props subnodes) fdtTokenByte) =
          .ok (nodeEnd a k name props subnodes + 4) :=
        checked_add (show nodeEnd a k name props subnodes + 4 < 2 ^ 64 by omega)
      have hstep := h.leads_stepOver hclosing
        (forall_imp (fun name props hnode => (hV name props hnode).1) hvalid.2.2)
        (show start ≤ nodeEnd a k name props subnodes by omega)
        (dvd_content_add_add ha k name props subnodes) hnextBytes hlt hbeyond
        (fun k {a} hle ha hhas hlt hbeyond => ihnext hvalid.2.2 k hle ha hhas hlt hbeyond)
      rw [hsearch, attempt_ok, Checked.ok_bind, Option.none_or]
      simp only [hadd, Checked.ok_bind]
      exact hstep fuel cells (by omega)

theorem exists_withNops (t : Forest) : ∃ k, withNops k t = t := by
  cases t with
  | done k => exact ⟨k, rfl⟩
  | node k name props subnodes next => exact ⟨k, rfl⟩

/-- From the content of a node to behind it, which only works without subnodes. -/
theorem Opened.skipToNextNode_node (h : d.Opened start stop strings) {k : ℕ}
    {name closing : List UInt8} {props : List Property} {subnodes next : Forest}
    (hvalid : (Forest.node k name props subnodes next).Forall (ValidNode strings)) {a fuel : ℕ}
    (ha : 4 ∣ a) (hhas : d.mem.Has a ((Forest.node k name props subnodes next).encode closing))
    (hlt : nodeEnd a k name props subnodes ≤ stop)
    (hfuel : nodeEnd a k name props subnodes ≤ a + fuel) :
    d.skipToNextNode fuel (content a k name) =
      if isLeaf subnodes then .ok (nodeEnd a k name props subnodes) else .error .err := by
  obtain ⟨hbytes, hsubBytes, -⟩ := has_node hhas
  have hcontent : content a k name = a + 4 * k + 4 + (encodeName name).length := rfl
  have hsubDvd := dvd_content_add ha k name props
  have hend : nodeEnd a k name props subnodes =
    content a k name + (encodeProps props).length + (subnodes.encode endNode).length := rfl
  have hprops := has_props hbytes
  obtain ⟨rest, hrest, heq⟩ := h.skipToNextNode_properties hvalid.1.2
    (dvd_content ha k name) (show (encodeProps props).length ≤ fuel by omega) hprops
    (by omega)
  rw [heq]
  cases subnodes with
  | done j =>
    have hdone : ((Forest.done j).encode endNode).length = 4 * j + 4 := length_encode_done _ j
    obtain ⟨rest, rfl⟩ : ∃ n, rest = n + 1 := ⟨rest - 1, by omega⟩
    rw [h.skipToNextNode_done hsubDvd (show j < rest by omega) hsubBytes (by omega)]
    rfl
  | node j name' props' subnodes' next' =>
    have hlengthNode := length_encode_node endNode j name' props' subnodes' next'
    have hcontent' : content (content a k name + (encodeProps props).length) j name' =
      content a k name + (encodeProps props).length + 4 * j + 4 + (encodeName name').length := rfl
    have hsub := (Mapped.has_append.mp (has_node hsubBytes).1).1
    obtain ⟨rest, rfl⟩ : ∃ n, rest = n + 1 := ⟨rest - 1, by omega⟩
    have hnextLe := le_length_encode (show endNode.length = 4 from rfl) next'
    rw [h.skipToNextNode_begin hvalid.2.1.1.1 hsubDvd (show j + 1 < rest by omega) hsub
      (by omega)]
    rfl

/-- A search that is resumed from an outermost match. -/
theorem Opened.searchNode_resumes (h : d.Opened start stop strings)
    (hV : ∀ name props, V name props → ValidNode strings name props)
    (hsearches : c.Searches d start stop V F) {P : List UInt8 → List Property → Bool}
    {closing : List UInt8} (hclosing : closing = endNode ∨ closing = endTree) {t : Forest}
    (hvalid : t.Forall V) {a : ℕ} (hle : start ≤ a) (ha : 4 ∣ a)
    (hhas : d.mem.Has a (t.encode closing)) (hlt : a + (t.encode closing).length ≤ stop)
    {beyond : ℕ × ℕ → Option DtbNode}
    (hbeyond : c.Leads d stop (a + (t.encode closing).length) beyond)
    {fuel : ℕ} (hfuel : stop < start + fuel) {e : Node × (ℕ × ℕ → Option DtbNode)}
    (he : e ∈ resumesWith P F t a beyond) {m : DtbNode} (hm : m.address = e.1.address) :
    c.searchNode d fuel (some m) = .ok (e.2 (m.addressCells, m.sizeCells)) := by
  induction t generalizing closing a beyond with
  | done k => exact absurd he List.not_mem_nil
  | node k name props subnodes next ihsub ihnext =>
    obtain ⟨-, hsubBytes, hnextBytes⟩ := has_node hhas
    have hcontent : content a k name = a + 4 * k + 4 + (encodeName name).length := rfl
    have hend : nodeEnd a k name props subnodes =
      content a k name + (encodeProps props).length + (subnodes.encode endNode).length := rfl
    have hsubs : subnodesAt a k name props = content a k name + (encodeProps props).length := rfl
    have hendDvd : 4 ∣ nodeEnd a k name props subnodes :=
      dvd_content_add_add ha k name props subnodes
    rw [add_length_encode_node, ← hend] at hlt hbeyond
    have hnextLeads : c.Leads d stop (nodeEnd a k name props subnodes)
        (scanWith F next (nodeEnd a k name props subnodes) beyond) := by
      obtain ⟨j, hj⟩ := exists_withNops next
      have hscan := h.leads_scan hV hsearches hclosing hvalid.2.2 j
        (show start ≤ nodeEnd a k name props subnodes by omega) hendDvd
        (by rw [hj]; exact hnextBytes) (by rwa [hj]) (by rwa [hj])
      rwa [hj] at hscan
    rw [resumesWith, List.mem_append] at he
    rcases he with he | he
    · by_cases hP : P name props
      · rw [if_pos hP, List.mem_singleton] at he
        subst he
        have hskip := h.skipToNextNode_node (forall_imp hV hvalid) ha hhas (by omega)
          (show _ ≤ a + fuel by omega)
        have hm' : m.address = content a k name := hm
        simp only [Criterion.searchNode, hm', hskip]
        cases isLeaf subnodes with
        | true => exact hnextLeads fuel (m.addressCells, m.sizeCells) (by omega)
        | false => rfl
      · rw [if_neg hP] at he
        exact ihsub (.inl rfl) hvalid.2.1 (by omega) (dvd_content_add ha k name props) hsubBytes
          (by omega) hnextLeads he
    · exact ihnext hclosing hvalid.2.2 (by omega) hendDvd hnextBytes hlt hbeyond he

theorem exists_of_forall₂ {α β : Type} {R : α → β → Prop} {l : List α} {l' : List β}
    (h : List.Forall₂ R l l') {a : α} (ha : a ∈ l) : ∃ b ∈ l', R a b := by
  induction h with
  | nil => exact absurd ha List.not_mem_nil
  | cons hab _ ih =>
    rcases List.mem_cons.mp ha with rfl | ha
    · exact ⟨_, List.mem_cons_self, hab⟩
    · obtain ⟨b, hb, hR⟩ := ih ha
      exact ⟨b, List.mem_cons_of_mem _ hb, hR⟩

/-! ## Enumeration -/

/-- What follows a result is enumerated from it. -/
theorem enumerate_some {c : Criterion} {fuel turns : ℕ} {currentNode : Option DtbNode}
    {m : DtbNode} (hfound : c.searchNode d fuel currentNode = .ok (some m)) (as : List ℕ) :
    (∃ ms, c.enumerate d fuel (turns + 1) currentNode = .ok ms ∧
      ms.map DtbNode.address = m.address :: as) ↔
    ∃ ms, c.enumerate d fuel turns (some m) = .ok ms ∧ ms.map DtbNode.address = as := by
  rw [Criterion.enumerate, hfound, Checked.ok_bind]
  constructor
  · rintro ⟨ms, hms, hall⟩
    obtain ⟨ms', hms', hcons⟩ := Checked.bind_eq_ok.mp hms
    rw [Checked.pure_eq_ok, Except.ok.injEq] at hcons
    subst hcons
    rw [List.map_cons, List.cons.injEq] at hall
    exact ⟨ms', hms', hall.2⟩
  · rintro ⟨ms, hms, hall⟩
    refine ⟨m :: ms, ?_, by rw [List.map_cons, hall]⟩
    simp only [hms, Checked.ok_bind]
    rfl

/-- From one of the matches on, all are enumerated exactly when they are linked. -/
theorem enumerate_linked {c : Criterion} {fuel : ℕ} {n : Node} {r : Option Node}
    {l : List (Node × Option Node)} (hguided : Guided none ((n, r) :: l))
    (hresume : ∀ e ∈ (n, r) :: l, ∀ m : DtbNode, m.address = e.1.address →
      ∃ r, c.searchNode d fuel (some m) = .ok r ∧ r.map DtbNode.address = e.2.map Node.address)
    {m : DtbNode} (hm : m.address = n.address) {turns : ℕ} (hturns : l.length < turns) :
    (∃ ms, c.enumerate d fuel turns (some m) = .ok ms ∧
      ms.map DtbNode.address = l.map fun e => e.1.address) ↔ Linked none ((n, r) :: l) := by
  induction l generalizing n r m turns with
  | nil =>
    obtain ⟨turns, rfl⟩ : ∃ k, turns = k + 1 := ⟨turns - 1, by omega⟩
    have hnone : r = none := by
      rcases hguided.1 with h | h
      · exact h
      · exact h
    subst hnone
    obtain ⟨found, hfound, haddress⟩ := hresume _ List.mem_cons_self m hm
    cases found with
    | some m' => exact absurd haddress (Option.some_ne_none _)
    | none =>
      refine iff_of_true ⟨[], ?_, rfl⟩ ⟨rfl, trivial⟩
      rw [Criterion.enumerate, hfound]
      rfl
  | cons e l ih =>
    rw [List.length_cons] at hturns
    obtain ⟨turns, rfl⟩ : ∃ k, turns = k + 1 := ⟨turns - 1, by omega⟩
    obtain ⟨found, hfound, haddress⟩ := hresume _ List.mem_cons_self m hm
    rcases hguided.1 with rfl | rfl
    · cases found with
      | some m' => exact absurd haddress (Option.some_ne_none _)
      | none =>
        have hend : c.enumerate d fuel (turns + 1) (some m) = .ok [] := by
          rw [Criterion.enumerate, hfound]
          rfl
        refine iff_of_false ?_ fun hlinked => absurd hlinked.1.symm (Option.some_ne_none _)
        rintro ⟨ms, hms, hall⟩
        rw [hend, Except.ok.injEq] at hms
        subst hms
        exact absurd hall.symm (List.cons_ne_nil _ _)
    · cases found with
      | none => exact absurd haddress.symm (Option.some_ne_none _)
      | some m' =>
        have hm' : m'.address = e.1.address := Option.some_injective _ haddress
        have hrest := ih hguided.2 (fun e' he' => hresume e' (List.mem_cons_of_mem _ he')) hm'
          (show l.length < turns by omega)
        have hhead : Linked none ((n, ((e :: l).map Prod.fst).head?.or none) :: e :: l) ↔
            Linked none (e :: l) := ⟨fun h => h.2, fun h => ⟨rfl, h⟩⟩
        rw [hhead, ← hrest, List.map_cons, ← hm']
        exact enumerate_some hfound _

end Reader

/-- Enumerating from the start yields the nodes at these addresses, in this order, and then
none. -/
def Criterion.Enumerates (c : Criterion) (d : Dtb) (size : ℕ) (addresses : List ℕ) : Prop :=
  ∀ fuel turns, size < fuel → addresses.length < turns →
    ∃ ms, c.enumerate d fuel turns none = .ok ms ∧ ms.map DtbNode.address = addresses

namespace DeviceTree

variable {t : DeviceTree} {mem : Mapped} {base : ℕ} {c : Criterion}
  {onName : List UInt8 → Bool} {onProperty : Property → Bool}

/-- The addresses of the outermost matches. -/
def outermostAt (t : DeviceTree) (base : ℕ) (P : List UInt8 → List Property → Bool) : List ℕ :=
  (outermost P t.forest (base + t.header.offDtStruct)).map Node.address

theorem LiesAt.enumerate_iff (h : t.LiesAt mem base) (ht : t.WellFormed)
    (hc : c.Decides ⟨mem, base⟩ t.strings onName onProperty) {fuel turns : ℕ}
    (hfuel : t.header.sizeDtStruct < fuel)
    (hturns : (t.outermostAt base (decision onName onProperty)).length < turns) :
    (∃ ms, c.enumerate ⟨mem, base⟩ fuel turns none = .ok ms ∧
      ms.map DtbNode.address = t.outermostAt base (decision onName onProperty)) ↔
    Linked none (resumes (decision onName onProperty) t.forest (base + t.header.offDtStruct)
      none) := by
  have hopened := h.opened ht
  have haligned : 4 ∣ base + t.header.offDtStruct := dvd_add h.aligned ht.structAligned
  have hsize := ht.structSize
  obtain ⟨turns, rfl⟩ : ∃ k, turns = k + 1 := ⟨turns - 1, by omega⟩
  obtain ⟨first, hfirst, haddress⟩ := h.searchNode_ok ht hc hfuel.le
  rw [nodes, ← outermost_head] at haddress
  have hall : t.outermostAt base (decision onName onProperty) =
      (resumes (decision onName onProperty) t.forest (base + t.header.offDtStruct) none).map
        fun e => e.1.address := by
    rw [outermostAt, ← resumes_fst t.forest _ none, List.map_map]
    rfl
  rw [← resumes_fst t.forest _ none] at haddress
  have hguided : Guided none (resumes (decision onName onProperty) t.forest
      (base + t.header.offDtStruct) none) := guided_resumes t.forest _ (.inl rfl)
  have hresume : ∀ e ∈ resumes (decision onName onProperty) t.forest
      (base + t.header.offDtStruct) none, ∀ m : DtbNode, m.address = e.1.address →
        ∃ r, c.searchNode ⟨mem, base⟩ fuel (some m) = .ok r ∧
          r.map DtbNode.address = e.2.map Node.address := by
    intro e he m hm
    have hnone : ∀ cells : ℕ × ℕ, ((fun _ => none : ℕ × ℕ → Option DtbNode) cells).map
        DtbNode.address = (none : Option Node).map Node.address := fun _ => rfl
    have halike := resumesWith_alike (firstIn_results ⟨mem, base⟩ onName onProperty) t.forest
      (base + t.header.offDtStruct) hnone
    obtain ⟨e', he', hnode, hresult⟩ := exists_of_forall₂ halike he
    refine ⟨_, hopened.searchNode_resumes (fun _ _ hnode => hnode) (hopened.firstIn_searches hc)
      (.inr rfl) ht.nodes le_rfl haligned h.struct le_rfl (hopened.leads_stop c) (by omega) he' ?_,
      hresult _⟩
    rw [hm, hnode]
  rw [hall, List.length_map] at hturns
  rw [hall]
  cases hl : resumes (decision onName onProperty) t.forest (base + t.header.offDtStruct) none with
  | nil =>
    rw [hl] at haddress
    cases first with
    | some m => exact absurd haddress (Option.some_ne_none _)
    | none =>
      refine iff_of_true ⟨[], ?_, rfl⟩ trivial
      rw [Criterion.enumerate, hfirst]
      rfl
  | cons e l =>
    rw [hl] at haddress hguided hresume hturns
    rw [List.length_cons] at hturns
    cases first with
    | none => exact absurd haddress.symm (Option.some_ne_none _)
    | some m =>
      have hm : m.address = e.1.address := Option.some_injective _ haddress
      rw [← enumerate_linked hguided hresume hm (show l.length < turns by omega), List.map_cons,
        ← hm]
      exact enumerate_some hfirst _

theorem LiesAt.enumerates_resumable (h : t.LiesAt mem base) (ht : t.WellFormed)
    (hc : c.Decides ⟨mem, base⟩ t.strings onName onProperty) :
    c.Enumerates ⟨mem, base⟩ t.header.sizeDtStruct
        (t.outermostAt base (decision onName onProperty)) ↔
      resumable (decision onName onProperty) t.forest false false = true := by
  have hshape : Linked none (resumes (decision onName onProperty) t.forest
      (base + t.header.offDtStruct) none) ↔
        resumable (decision onName onProperty) t.forest false false = true :=
    linked_resumes t.forest _ (.inl rfl)
  rw [← hshape]
  constructor
  · intro hall
    exact (h.enumerate_iff ht hc (Nat.lt_succ_self _) (Nat.lt_succ_self _)).mp
      (hall _ _ (Nat.lt_succ_self _) (Nat.lt_succ_self _))
  · intro hlinked fuel turns hfuel hturns
    exact (h.enumerate_iff ht hc hfuel hturns).mpr hlinked

end DeviceTree

/-- Passing the last result back enumerates the outermost matches of a well-formed tree if
and only if behind every match but the last there is a way to the next one. -/
theorem enumerates_iff (t : DeviceTree) (ht : t.WellFormed) (mem : Mapped) (base : ℕ)
    (h : t.LiesAt mem base) (name compatible : List UInt8) (hname : 0 ∉ name)
    (hcompatible : 0 ∉ compatible) :
    ((byName name).Enumerates ⟨mem, base⟩ t.header.sizeDtStruct
        (t.outermostAt base fun s _ => named name s) ↔
      resumable (fun s _ => named name s) t.forest false false = true) ∧
    ((byCompatible compatible).Enumerates ⟨mem, base⟩ t.header.sizeDtStruct
        (t.outermostAt base fun _ props => props.any (listsCompatible t.strings compatible)) ↔
      resumable (fun _ props => props.any (listsCompatible t.strings compatible)) t.forest false
        false = true) := by
  have hbyName : decision (named name) (fun _ => false) = fun s _ => named name s := by
    ext s props
    simp [decision]
  have hbyCompatible : decision (fun _ => false) (listsCompatible t.strings compatible) =
      fun _ props => props.any (listsCompatible t.strings compatible) := by
    ext s props
    simp [decision]
  constructor
  · have hiff := h.enumerates_resumable ht (byName_decides ⟨mem, base⟩ t.strings hname)
    rwa [hbyName] at hiff
  · have hiff := h.enumerates_resumable ht ((h.opened ht).byCompatible_decides hcompatible)
    rwa [hbyCompatible] at hiff

/-- Two nodes with the compatible device `uart`, and an empty word between them. -/
def twinTree : DeviceTree where
  header := ⟨0xd00dfeed, 143, 40, 132, 40, 17, 16, 0, 11, 92⟩
  nops := 0
  name := []
  props := []
  subnodes :=
    .node 0 [0x75, 0x61, 0x72, 0x74, 0x40, 0x30] [⟨0, 0, [0x75, 0x61, 0x72, 0x74, 0x00]⟩]
      (.done 0)
      (.node 1 [0x75, 0x61, 0x72, 0x74, 0x40, 0x31] [⟨0, 0, [0x75, 0x61, 0x72, 0x74, 0x00]⟩]
        (.done 0) (.done 0))
  endNops := 0
  strings := propCompatible ++ [0]

theorem uart_valid : ∀ q ∈ [Property.mk 0 0 [0x75, 0x61, 0x72, 0x74, 0x00]],
    ValidProperty (propCompatible ++ [0]) q := by
  intro q hq
  rw [List.mem_singleton] at hq
  subst hq
  exact ⟨by decide, by decide, fun _ => ⟨[[0x75, 0x61, 0x72, 0x74]], by decide, rfl⟩⟩

theorem twinTree_wellFormed : twinTree.WellFormed where
  magic := rfl
  version := by decide
  fields := by decide
  headerInside := by decide
  structAligned := by decide
  structSize := by decide
  structInside := by decide
  stringsSize := by decide
  stringsInside := by decide
  nodes := by
    have hnone : ∀ q ∈ ([] : List Property), ValidProperty twinTree.strings q :=
      fun q hq => absurd hq List.not_mem_nil
    exact ⟨⟨by decide, hnone⟩, ⟨⟨by decide, uart_valid⟩, trivial, ⟨by decide, uart_valid⟩, trivial,
      trivial⟩, trivial⟩

theorem twinTree_liesAt :
    twinTree.LiesAt (Mapped.ofBytes 0x48000000 twinTree.blob) 0x48000000 :=
  twinTree_wellFormed.blob_liesAt (by decide) (by decide) rfl rfl

/-- In `twinTree` the second match is reached from the first one. -/
theorem enumerates_iff_twins :
    (twinTree.outermostAt 0x48000000 fun _ props =>
        props.any (listsCompatible twinTree.strings [0x75, 0x61, 0x72, 0x74])).length = 2 ∧
      resumable (fun _ props => props.any (listsCompatible twinTree.strings [0x75, 0x61, 0x72, 0x74]))
        twinTree.forest false false = true ∧
      (byCompatible [0x75, 0x61, 0x72, 0x74]).Enumerates
        ⟨Mapped.ofBytes 0x48000000 twinTree.blob, 0x48000000⟩ twinTree.header.sizeDtStruct
        (twinTree.outermostAt 0x48000000 fun _ props =>
          props.any (listsCompatible twinTree.strings [0x75, 0x61, 0x72, 0x74])) :=
  ⟨by decide, by decide, (enumerates_iff twinTree twinTree_wellFormed _ _ twinTree_liesAt
    [0x75, 0x61, 0x72, 0x74] [0x75, 0x61, 0x72, 0x74] (by decide) (by decide)).2.mpr (by decide)⟩

/-- A node `bus` with one subnode, and a node behind it; both have the compatible
device `uart`. -/
def busTree : DeviceTree where
  header := ⟨0xd00dfeed, 151, 40, 140, 40, 17, 16, 0, 11, 100⟩
  nops := 0
  name := []
  props := []
  subnodes :=
    .node 0 [0x62, 0x75, 0x73] []
      (.node 0 [0x75, 0x61, 0x72, 0x74, 0x40, 0x30] [⟨0, 0, [0x75, 0x61, 0x72, 0x74, 0x00]⟩]
        (.done 0) (.done 0))
      (.node 0 [0x75, 0x61, 0x72, 0x74, 0x40, 0x31] [⟨0, 0, [0x75, 0x61, 0x72, 0x74, 0x00]⟩]
        (.done 0) (.done 0))
  endNops := 0
  strings := propCompatible ++ [0]

theorem busTree_wellFormed : busTree.WellFormed where
  magic := rfl
  version := by decide
  fields := by decide
  headerInside := by decide
  structAligned := by decide
  structSize := by decide
  structInside := by decide
  stringsSize := by decide
  stringsInside := by decide
  nodes := by
    have hnone : ∀ q ∈ ([] : List Property), ValidProperty busTree.strings q :=
      fun q hq => absurd hq List.not_mem_nil
    exact ⟨⟨by decide, hnone⟩, ⟨⟨by decide, hnone⟩,
      ⟨⟨by decide, uart_valid⟩, trivial, trivial⟩, ⟨by decide, uart_valid⟩, trivial, trivial⟩,
      trivial⟩

theorem busTree_liesAt : busTree.LiesAt (Mapped.ofBytes 0x48000000 busTree.blob) 0x48000000 :=
  busTree_wellFormed.blob_liesAt (by decide) (by decide) rfl rfl

/-- The enumeration ends with the last subnode of `bus`, and the node behind `bus` is missed. -/
theorem uart_behind_bus_missed :
    busTree.WellFormed ∧ busTree.LiesAt (Mapped.ofBytes 0x48000000 busTree.blob) 0x48000000 ∧
      ¬ (byCompatible [0x75, 0x61, 0x72, 0x74]).Enumerates
        ⟨Mapped.ofBytes 0x48000000 busTree.blob, 0x48000000⟩ busTree.header.sizeDtStruct
        (busTree.outermostAt 0x48000000 fun _ props =>
          props.any (listsCompatible busTree.strings [0x75, 0x61, 0x72, 0x74])) := by
  refine ⟨busTree_wellFormed, busTree_liesAt, ?_⟩
  have hopened := busTree_liesAt.opened busTree_wellFormed
  have hiff := busTree_liesAt.enumerates_resumable busTree_wellFormed
    (hopened.byCompatible_decides (show 0 ∉ [0x75, 0x61, 0x72, 0x74] by decide))
  intro hall
  exact absurd (hiff.mp hall) (by decide)

end Min1visor.Dtb
