import Min1visor.DtbResume
import Min1visor.DtbReg

/-!
# The nodes that a resumed search visits

A loop that passes the last result back visits one match after another. Every result comes
with the cell counts that the search has read until then, and the next search goes on with
these: it takes in what the nodes declare that it enters, but forgets nothing that an earlier
one declared.
-/
namespace Min1visor.Dtb
open FlattenedTree

/-! ## Following the results -/

section Visits
variable {d : Dtb} {P : List UInt8 → List Property → Bool} {c : Criterion} {size : ℕ}

/-- The matches up to the first one from which a search does not go on. -/
def chain : List (Node × Option Node) → List Node
  | [] => []
  | (n, r) :: l => n :: if r.isSome then chain l else []

/-- The same matches with their results, where each search starts with the counts of the last. -/
def follow : List (Node × (ℕ × ℕ → Option DtbNode)) → Option DtbNode → List (Node × DtbNode)
  | (n, r) :: l, some m => (n, m) :: follow l (r (m.addressCells, m.sizeCells))
  | _, _ => []

@[simp] theorem follow_none (l : List (Node × (ℕ × ℕ → Option DtbNode))) : follow l none = [] := by
  cases l with
  | nil => rfl
  | cons e l => rfl

theorem chain_of_linked {l : List (Node × Option Node)} (h : Linked none l) :
    chain l = l.map Prod.fst := by
  induction l with
  | nil => rfl
  | cons e l ih =>
    obtain ⟨n, r⟩ := e
    obtain ⟨rfl, h⟩ := h
    rw [chain, ih h, List.map_cons]
    cases l with
    | nil => rfl
    | cons e l => rfl

theorem outermost_mem_nodes (t : Forest) (a : ℕ) : ∀ n ∈ outermost P t a, n ∈ t.nodes a := by
  induction t generalizing a with
  | done k => exact fun n hn => absurd hn List.not_mem_nil
  | node k name props subnodes next ihsub ihnext =>
    intro n hn
    rw [outermost, List.mem_append] at hn
    rw [Forest.nodes, List.mem_cons, List.mem_append]
    rcases hn with hn | hn
    · by_cases hP : P name props
      · rw [if_pos hP, List.mem_singleton] at hn
        exact .inl hn
      · rw [if_neg hP] at hn
        exact .inr (.inl (ihsub _ n hn))
    · exact .inr (.inr (ihnext _ n hn))

theorem mem_of_mem_chain {l : List (Node × Option Node)} {n : Node} (h : n ∈ chain l) :
    n ∈ l.map Prod.fst := by
  induction l with
  | nil => exact absurd h List.not_mem_nil
  | cons e l ih =>
    rw [chain, List.mem_cons] at h
    rw [List.map_cons, List.mem_cons]
    refine h.imp id fun h => ih ?_
    split_ifs at h
    · exact h
    · exact absurd h List.not_mem_nil

/-- Passing the last result back yields these results one after another, and then none. -/
def Criterion.Visits (c : Criterion) (d : Dtb) (size : ℕ) : List DtbNode → Option DtbNode → Prop
  | [], currentNode => ∀ fuel, size < fuel → c.searchNode d fuel currentNode = .ok none
  | m :: ms, currentNode =>
    (∀ fuel, size < fuel → c.searchNode d fuel currentNode = .ok (some m)) ∧
      c.Visits d size ms (some m)

/-- The results of a loop, the nodes that they are for, and their addresses. -/
structure Criterion.Trails (c : Criterion) (d : Dtb) (size : ℕ) (es : List (Node × DtbNode))
    (ns : List Node) (currentNode : Option DtbNode) : Prop where
  visits : c.Visits d size (es.map Prod.snd) currentNode
  nodes : es.map Prod.fst = ns
  addresses : ∀ e ∈ es, e.2.address = e.1.address

/-- From a result on, the searches lead along the matches. -/
theorem follow_trails {l : List (Node × Option Node)}
    {l' : List (Node × (ℕ × ℕ → Option DtbNode))} (halike : List.Forall₂ Alike l l')
    (hguided : Guided none l)
    (hresume : ∀ e ∈ l', ∀ m : DtbNode, m.address = e.1.address → ∀ fuel, size < fuel →
      c.searchNode d fuel (some m) = .ok (e.2 (m.addressCells, m.sizeCells)))
    {first currentNode : Option DtbNode}
    (hfirst : first.map DtbNode.address = (l.map Prod.fst).head?.map Node.address)
    (hcurrent : ∀ fuel, size < fuel → c.searchNode d fuel currentNode = .ok first) :
    c.Trails d size (follow l' first) (chain l) currentNode := by
  induction halike generalizing first currentNode with
  | nil =>
    obtain rfl : first = none := by simpa using hfirst
    exact ⟨hcurrent, rfl, by simp⟩
  | @cons e e' l l' hnode htail ih =>
    obtain ⟨n, r⟩ := e
    obtain ⟨n', r'⟩ := e'
    obtain ⟨rfl, hresult⟩ : n' = n ∧ ∀ cells, (r' cells).map DtbNode.address = r.map Node.address :=
      hnode
    obtain ⟨m, rfl, hm⟩ : ∃ m, first = some m ∧ m.address = n'.address := by
      cases first with
      | none => exact absurd hfirst.symm (Option.some_ne_none _)
      | some m => exact ⟨m, rfl, Option.some_injective _ hfirst⟩
    have hnext : ∀ fuel, size < fuel →
        c.searchNode d fuel (some m) = .ok (r' (m.addressCells, m.sizeCells)) :=
      hresume (n', r') List.mem_cons_self m hm
    have haddress := hresult (m.addressCells, m.sizeCells)
    rw [follow, chain]
    cases r with
    | none =>
      have hnone : r' (m.addressCells, m.sizeCells) = none := by simpa using haddress
      rw [hnone] at hnext ⊢
      rw [follow_none]
      exact ⟨⟨hcurrent, hnext⟩, rfl, by simpa using hm⟩
    | some n'' =>
      have hhead : some n'' = (l.map Prod.fst).head? := by
        rcases hguided.1 with h | h
        · exact absurd h (Option.some_ne_none _)
        · simpa using h
      rw [hhead] at haddress
      have hrest := ih hguided.2 (fun e he => hresume e (List.mem_cons_of_mem _ he)) haddress hnext
      refine ⟨⟨hcurrent, hrest.visits⟩, ?_, ?_⟩
      · rw [List.map_cons, hrest.nodes]
        rfl
      · rw [List.forall_mem_cons]
        exact ⟨hm, hrest.addresses⟩

end Visits

/-! ## The counts of the results -/

section Carried
variable (strings : List UInt8) (onProperty : Property → Bool)

/-- The first match in a node: the counts of a search are replaced by those that a node on the
way to the match declares, and by those that stand in the match up to what decides it. -/
def firstCarried : NodeResult := fun name props subnodes p cells =>
  (((⟨name, props, p⟩, cells) :: parentCells strings subnodes (p + (encodeProps props).length)
    (declared strings props cells)).find? fun e => e.1.props.any onProperty).map fun e =>
      ⟨e.1.address, (declared strings (through onProperty e.1.props) e.2).1,
        (declared strings (through onProperty e.1.props) e.2).2⟩

end Carried

section Reader
variable {d : Dtb} {start stop : ℕ} {strings : List UInt8} {onProperty : Property → Bool}

/-- A node whose properties are valid and whose counts are small. -/
def Plain (strings name : List UInt8) (props : List Property) : Prop :=
  ValidNode strings name props ∧ SmallCells strings props

/-- With small counts the memory is read as the tree has it. -/
theorem Opened.firstIn_eq (h : d.Opened start stop strings) {k : ℕ} {name closing : List UInt8}
    {props : List Property} {subnodes next : Forest}
    (hplain : (Forest.node k name props subnodes next).Forall (Plain strings)) {a : ℕ}
    (hle : start ≤ a) (ha : 4 ∣ a)
    (hhas : d.mem.Has a ((Forest.node k name props subnodes next).encode closing))
    (hlt : a + ((Forest.node k name props subnodes next).encode closing).length ≤ stop)
    (cells : ℕ × ℕ) :
    d.firstIn (fun _ => false) onProperty name props subnodes (content a k name) cells =
      firstCarried strings onProperty name props subnodes (content a k name) cells := by
  have hvalid := forall_imp (fun _ _ hnode => hnode.1) hplain
  have hsmall := forall_imp (fun _ _ hnode => hnode.2) hplain
  obtain ⟨hbytes, hsubBytes, -⟩ := has_node hhas
  have hsum := add_length_encode_node closing a k name props subnodes next
  have hcells := h.cellsOf_eq hvalid.1.2 hsmall.1 (has_props hbytes) (by omega) cells
  have hforce := h.inForce_eq hvalid.2.1 hsmall.2.1 hsubBytes (by omega) (declared strings props cells)
  have hstands := stands_of_mem hvalid hsmall hle ha hhas hlt
  have hmatch : (fun e : Node × (ℕ × ℕ) => isMatch (fun _ => false) onProperty e.1) =
      fun e => e.1.props.any onProperty := by
    ext e
    simp [isMatch]
  rw [firstIn, firstCarried, hcells, hforce, hmatch]
  refine Option.map_congr fun e he => ?_
  have hmem : e.1 ∈ (Forest.node k name props subnodes next).nodes a := by
    have hlist := List.mem_of_find?_eq_some he
    rw [← hforce] at hlist
    rw [Forest.nodes, ← inForce_fst d subnodes _ (declared strings props cells), List.mem_cons,
      List.mem_append]
    rcases List.mem_cons.mp hlist with rfl | hsub
    · exact .inl rfl
    · exact .inr (.inl (List.mem_map_of_mem hsub))
  have hn := hstands e.1 hmem
  obtain ⟨j, -, -, -, -, -, hbehind⟩ := hn.behind
  rw [found, if_neg Bool.false_ne_true, h.cellsAt_eq onProperty hn.valid hn.small hn.has (by omega)]

theorem Opened.firstCarried_searches (h : d.Opened start stop strings) {c : Criterion}
    (hc : c.Decides d strings (fun _ => false) onProperty) :
    c.Searches d start stop (Plain strings) (firstCarried strings onProperty) := by
  intro k name closing props subnodes next a fuel cells hplain hle ha hhas hlt hfuel
  rw [← h.firstIn_eq hplain hle ha hhas hlt]
  exact h.firstIn_searches hc k name closing props subnodes next a fuel cells
    (forall_imp (fun _ _ hnode => hnode.1) hplain) hle ha hhas hlt hfuel

theorem parentCells_fst (strings : List UInt8) (t : Forest) (a : ℕ) (cells : ℕ × ℕ) :
    (parentCells strings t a cells).map Prod.fst = t.nodes a := by
  induction t generalizing a cells with
  | done k => rfl
  | node k name props subnodes next ihsub ihnext =>
    rw [parentCells, List.map_cons, List.map_append, ihsub, ihnext, Forest.nodes]

theorem firstCarried_results (strings : List UInt8) (onProperty : Property → Bool) :
    Results (fun _ props => props.any onProperty) (firstCarried strings onProperty) := by
  intro name props subnodes p cells
  have hdecision : (fun (_ : List UInt8) (props : List Property) => props.any onProperty) =
      decision (fun _ => false) onProperty := by
    ext name props
    simp [decision]
  have hmatch : isMatch (fun _ => false) onProperty = fun n => n.props.any onProperty := by
    ext n
    simp [isMatch]
  have hsub : ∀ cells, ((parentCells strings subnodes (p + (encodeProps props).length) cells).find?
      fun e => e.1.props.any onProperty).map (fun e => e.1.address) =
        (outermost (fun _ props => props.any onProperty) subnodes
          (p + (encodeProps props).length)).head?.map Node.address := by
    intro cells
    rw [hdecision, outermost_head, hmatch, ← parentCells_fst strings subnodes _ cells,
      List.find?_map, Option.map_map]
    rfl
  rw [firstCarried, Option.map_map, List.find?_cons]
  simp only [Function.comp_def]
  by_cases hP : props.any onProperty
  · simp [hP]
  · simp only [Bool.not_eq_true] at hP
    simp [hP, hsub]

end Reader

/-! ## Small counts -/

section Small
variable {strings : List UInt8} {onProperty : Property → Bool}

/-- With small counts to start with, the results have small counts. -/
def SmallResults (r : ℕ × ℕ → Option DtbNode) : Prop :=
  ∀ cells, Small cells → ∀ m ∈ r cells, Small (m.addressCells, m.sizeCells)

theorem forall_nodes {V : List UInt8 → List Property → Prop} {t : Forest} (h : t.Forall V) (a : ℕ) :
    ∀ n ∈ t.nodes a, V n.name n.props := by
  induction t generalizing a with
  | done k => exact fun n hn => absurd hn List.not_mem_nil
  | node k name props subnodes next ihsub ihnext =>
    intro n hn
    rw [Forest.nodes, List.mem_cons, List.mem_append] at hn
    rcases hn with rfl | hn | hn
    · exact h.1
    · exact ihsub h.2.1 _ n hn
    · exact ihnext h.2.2 _ n hn

theorem firstCarried_small {name : List UInt8} {props : List Property} {subnodes : Forest}
    (hprops : SmallCells strings props)
    (hsub : subnodes.Forall fun _ props => SmallCells strings props) (p : ℕ) :
    SmallResults (firstCarried strings onProperty name props subnodes p) := by
  intro cells hcells m hm
  obtain ⟨e, he, rfl⟩ := Option.mem_map.mp hm
  have hmem := List.mem_of_find?_eq_some he
  rcases List.mem_cons.mp hmem with rfl | hmem
  · exact declared_small (hprops.through onProperty) hcells
  · have hnode : e.1 ∈ subnodes.nodes (p + (encodeProps props).length) := by
      rw [← parentCells_fst strings subnodes _ (declared strings props cells)]
      exact List.mem_map_of_mem hmem
    have hown : SmallCells strings e.1.props := forall_nodes hsub _ e.1 hnode
    exact declared_small (hown.through onProperty)
      (parentCells_small hsub _ (declared_small hprops hcells) e hmem)

theorem scanWith_small {t : Forest} (ht : t.Forall fun _ props => SmallCells strings props) (a : ℕ)
    {beyond : ℕ × ℕ → Option DtbNode} (hbeyond : SmallResults beyond) :
    SmallResults (scanWith (firstCarried strings onProperty) t a beyond) := by
  induction t generalizing a with
  | done k => exact fun cells _ m hm => absurd hm (Option.not_mem_none m)
  | node k name props subnodes next ihsub ihnext =>
    obtain ⟨hprops, hsub, hnext⟩ := ht
    intro cells hcells m hm
    rw [scanWith, Option.mem_def, Option.or_eq_some_iff] at hm
    rcases hm with hm | ⟨-, hm⟩
    · exact firstCarried_small hprops hsub _ cells hcells m hm
    · cases next with
      | done j =>
        rw [stepOver] at hm
        split_ifs at hm
        exact hbeyond cells hcells m hm
      | node j name' props' subnodes' next' =>
        rw [stepOver] at hm
        split_ifs at hm
        exact ihnext hnext _ cells hcells m hm

theorem resumesWith_small {P : List UInt8 → List Property → Bool} {t : Forest}
    (ht : t.Forall fun _ props => SmallCells strings props) (a : ℕ)
    {beyond : ℕ × ℕ → Option DtbNode} (hbeyond : SmallResults beyond) :
    ∀ e ∈ resumesWith P (firstCarried strings onProperty) t a beyond, SmallResults e.2 := by
  induction t generalizing a beyond with
  | done k => exact fun e he => absurd he List.not_mem_nil
  | node k name props subnodes next ihsub ihnext =>
    obtain ⟨-, hsub, hnext⟩ := ht
    have hscan : SmallResults (scanWith (firstCarried strings onProperty) next
        (nodeEnd a k name props subnodes) beyond) := scanWith_small hnext _ hbeyond
    intro e he
    rw [resumesWith, List.mem_append] at he
    rcases he with he | he
    · by_cases hP : P name props
      · rw [if_pos hP, List.mem_singleton] at he
        subst he
        cases isLeaf subnodes with
        | true => exact hscan
        | false => exact fun cells _ m hm => absurd hm (Option.not_mem_none m)
      · rw [if_neg hP] at he
        exact ihsub hsub _ hscan e he
    · exact ihnext hnext _ hbeyond e he

theorem follow_small {l : List (Node × (ℕ × ℕ → Option DtbNode))}
    (hl : ∀ e ∈ l, SmallResults e.2) {first : Option DtbNode}
    (hfirst : ∀ m ∈ first, Small (m.addressCells, m.sizeCells)) :
    ∀ e ∈ follow l first, Small (e.2.addressCells, e.2.sizeCells) := by
  induction l generalizing first with
  | nil => simp [follow]
  | cons e l ih =>
    rw [List.forall_mem_cons] at hl
    cases first with
    | none => simp
    | some m =>
      rw [follow, List.forall_mem_cons]
      exact ⟨hfirst m rfl, ih hl.2 (hl.1 _ (hfirst m rfl))⟩

end Small

/-! ## The trail through a tree -/

namespace DeviceTree

variable {t : DeviceTree} {mem : Mapped} {base : ℕ} {c : Criterion}

/-- The outermost matches up to the first one from which a search does not go on. -/
def visited (t : DeviceTree) (base : ℕ) (P : List UInt8 → List Property → Bool) : List Node :=
  chain (resumes P t.forest (base + t.header.offDtStruct) none)

/-- What a search of the whole tree returns. -/
def firstOf (t : DeviceTree) (base : ℕ) (F : NodeResult) : Option DtbNode :=
  F t.name t.props t.subnodes (content (base + t.header.offDtStruct) t.nops t.name) defaultCells

/-- The same matches, each as the search returns it. -/
def trailWith (t : DeviceTree) (base : ℕ) (P : List UInt8 → List Property → Bool)
    (F : NodeResult) : List (Node × DtbNode) :=
  follow (resumesWith P F t.forest (base + t.header.offDtStruct) fun _ => none) (t.firstOf base F)

/-- The matches that the search by a property visits, with the counts that it comes to. -/
def trail (t : DeviceTree) (base : ℕ) (onProperty : Property → Bool) : List (Node × DtbNode) :=
  t.trailWith base (fun _ props => props.any onProperty) (firstCarried t.strings onProperty)

/-- In a resumable tree these are all outermost matches. -/
theorem visited_of_resumable {P : List UInt8 → List Property → Bool}
    (h : resumable P t.forest false false = true) :
    t.visited base P = outermost P t.forest (base + t.header.offDtStruct) := by
  have hlinked : Linked none (resumes P t.forest (base + t.header.offDtStruct) none) :=
    (linked_resumes t.forest _ (.inl rfl)).mpr h
  rw [visited, chain_of_linked hlinked, resumes_fst]

theorem mem_nodes_of_visited {P : List UInt8 → List Property → Bool} {n : Node}
    (hn : n ∈ t.visited base P) : n ∈ t.nodes base := by
  have hmem := mem_of_mem_chain hn
  rw [resumes_fst] at hmem
  exact outermost_mem_nodes t.forest _ n hmem

theorem LiesAt.trails (h : t.LiesAt mem base) (ht : t.WellFormed)
    {V : List UInt8 → List Property → Prop} {F : NodeResult}
    (hV : ∀ name props, V name props → ValidNode t.strings name props) (hforest : t.forest.Forall V)
    (hsearches : c.Searches ⟨mem, base⟩ (base + t.header.offDtStruct)
      (base + t.header.offDtStruct + t.structBlock.length) V F)
    {P : List UInt8 → List Property → Bool} (hF : Results P F)
    (hfirst : ∀ fuel, t.header.sizeDtStruct < fuel →
      c.searchNode ⟨mem, base⟩ fuel none = .ok (t.firstOf base F)) :
    c.Trails ⟨mem, base⟩ t.header.sizeDtStruct (t.trailWith base P F) (t.visited base P) none := by
  have hopened := h.opened ht
  have haligned : 4 ∣ base + t.header.offDtStruct := dvd_add h.aligned ht.structAligned
  have hsize := ht.structSize
  have hnone : ∀ cells : ℕ × ℕ, ((fun _ => none : ℕ × ℕ → Option DtbNode) cells).map
      DtbNode.address = (none : Option Node).map Node.address := fun _ => rfl
  refine follow_trails (resumesWith_alike hF t.forest _ hnone) (guided_resumes t.forest _ (.inl rfl))
    (fun e he m hm fuel hfuel => ?_) ?_ hfirst
  · exact hopened.searchNode_resumes hV hsearches (.inr rfl) hforest le_rfl haligned h.struct le_rfl
      (hopened.leads_stop c) (by omega) he hm
  · have hroot := hF t.name t.props t.subnodes
      (content (base + t.header.offDtStruct) t.nops t.name) defaultCells
    rw [resumes_fst, firstOf, hroot, forest, outermost, outermost, List.append_nil]
    rfl

/-- Whatever its counts are, the visited nodes of a tree are found. -/
theorem LiesAt.trails_exact (h : t.LiesAt mem base) (ht : t.WellFormed)
    {onName : List UInt8 → Bool} {onProperty : Property → Bool}
    (hc : c.Decides ⟨mem, base⟩ t.strings onName onProperty) :
    c.Trails ⟨mem, base⟩ t.header.sizeDtStruct
      (t.trailWith base (decision onName onProperty) (firstIn ⟨mem, base⟩ onName onProperty))
      (t.visited base (decision onName onProperty)) none := by
  refine h.trails ht (fun _ _ hnode => hnode) ht.nodes ((h.opened ht).firstIn_searches hc)
    (firstIn_results _ onName onProperty) fun fuel hfuel => ?_
  rw [h.searchNode_found ht hc hfuel.le, forest, inForce, inForce, List.append_nil]
  rfl

theorem SmallCells.plain (hsmall : t.SmallCells) (ht : t.WellFormed) :
    t.forest.Forall (Plain t.strings) := by
  have hand : ∀ {V W : List UInt8 → List Property → Prop} {f : Forest}, f.Forall V → f.Forall W →
      f.Forall fun name props => V name props ∧ W name props := by
    intro V W f hV hW
    induction f with
    | done k => trivial
    | node k name props subnodes next ihsub ihnext =>
      exact ⟨⟨hV.1, hW.1⟩, ihsub hV.2.1 hW.2.1, ihnext hV.2.2 hW.2.2⟩
  exact hand ht.nodes hsmall

/-- With small counts they are found with the counts of the trail. -/
theorem LiesAt.trails_carried (h : t.LiesAt mem base) (ht : t.WellFormed) (hsmall : t.SmallCells)
    {onProperty : Property → Bool}
    (hc : c.Decides ⟨mem, base⟩ t.strings (fun _ => false) onProperty) :
    c.Trails ⟨mem, base⟩ t.header.sizeDtStruct (t.trail base onProperty)
      (t.visited base fun _ props => props.any onProperty) none := by
  have hplain := hsmall.plain ht
  have hopened := h.opened ht
  refine h.trails ht (fun _ _ hnode => hnode.1) hplain (hopened.firstCarried_searches hc)
    (firstCarried_results t.strings onProperty) fun fuel hfuel => ?_
  have haligned : 4 ∣ base + t.header.offDtStruct := dvd_add h.aligned ht.structAligned
  rw [h.searchNode_found ht hc hfuel.le, forest, inForce, inForce, List.append_nil, firstOf,
    ← hopened.firstIn_eq hplain le_rfl haligned h.struct le_rfl]
  rfl

theorem SmallCells.trail_small (hsmall : t.SmallCells) (base : ℕ) (onProperty : Property → Bool) :
    ∀ e ∈ t.trail base onProperty, Small (e.2.addressCells, e.2.sizeCells) := by
  have hdefault : Small defaultCells := ⟨by decide, by decide⟩
  refine follow_small (resumesWith_small hsmall _ ?_)
    (firstCarried_small hsmall.1 hsmall.2.1 _ defaultCells hdefault)
  exact fun cells _ m hm => absurd hm (Option.not_mem_none m)

end DeviceTree

end Min1visor.Dtb
