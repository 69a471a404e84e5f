import Min1visor.DtbSearch

/-!
# Reading the register ranges of a node

What `reg` of a node means depends on the cell counts that are in force for its parent:
those of the nearest ancestor that declares them. A search carries the counts down the tree,
and by name it returns a node with the right ones. The reader of a property then goes over
the node's own properties and takes counts that stand there for those of the parent, and so
does the search by compatible devices up to the property that decides it.
-/
namespace Min1visor.Dtb
open FlattenedTree

/-! ## Cell counts of a tree -/

section Cells
variable (strings : List UInt8)

def isNamed (name : List UInt8) (q : Property) : Bool := stringAt strings q.nameOffset == name

/-- The counts of addresses and sizes, after a property is taken into account. -/
def declare (cells : ℕ × ℕ) (q : Property) : ℕ × ℕ :=
  if isNamed strings propAddressCells q then (ofBytes q.value, cells.2)
  else if isNamed strings propSizeCells q then (cells.1, ofBytes q.value)
  else cells

def declared (props : List Property) (cells : ℕ × ℕ) : ℕ × ℕ := props.foldl (declare strings) cells

/-- The nodes of a forest in document order, each with the counts that its nearest proper
ancestor declares; `cells` are those of the parent of the forest. -/
def parentCells : Forest → ℕ → ℕ × ℕ → List (Node × (ℕ × ℕ))
  | .done _, _, _ => []
  | .node k name props subnodes next, a, cells =>
    (⟨name, props, content a k name⟩, cells) ::
      (parentCells subnodes (content a k name + (encodeProps props).length)
          (declared strings props cells) ++
        parentCells next (content a k name + (encodeProps props).length +
          (subnodes.encode endNode).length) cells)

/-- A cell count is a word, and at most 2. -/
def SmallCells (props : List Property) : Prop :=
  ∀ q ∈ props, isNamed strings propAddressCells q ∨ isNamed strings propSizeCells q →
    ∃ n, n ≤ 2 ∧ q.value = word n

end Cells

/-- The pair at an index of a value, with these cell counts. -/
def pairAt (value : List UInt8) (cells : ℕ × ℕ) (index : ℕ) : Option (ℕ × ℕ) :=
  let width := 4 * (cells.1 + cells.2)
  if width * (index + 1) ≤ value.length then
    some (ofBytes ((value.drop (width * index)).take (4 * cells.1)),
      ofBytes ((value.drop (width * index + 4 * cells.1)).take (4 * cells.2)))
  else none

/-- The pair at an index of the node's own `reg`. -/
def regPair (strings : List UInt8) (n : Node) (cells : ℕ × ℕ) (index : ℕ) : Option (ℕ × ℕ) :=
  (n.props.find? (isNamed strings propReg)).bind fun q => pairAt q.value cells index

/-- The properties up to the first that is accepted. -/
def through (p : Property → Bool) : List Property → List Property
  | [] => []
  | q :: props => q :: if p q then [] else through p props

/-- A node has no `reg`, or the products that the reader forms fit and its counts, those of
`cells` with what stands before `reg`, give the same pair as those of the parent. -/
def ReadsAlike (strings : List UInt8) (n : Node) (parent cells : ℕ × ℕ) (index : ℕ) : Prop :=
  ∀ q, n.props.find? (isNamed strings propReg) = some q →
    let own := declared strings (through (isNamed strings propReg) n.props) cells
    4 * (own.1 + own.2) * (index + 1) < 2 ^ 64 ∧ pairAt q.value own index = pairAt q.value parent index

variable {strings : List UInt8}

/-! ## Small counts -/

def Small (cells : ℕ × ℕ) : Prop := cells.1 ≤ 2 ∧ cells.2 ≤ 2

theorem declare_small {q : Property} {cells : ℕ × ℕ} (hcells : Small cells)
    (hq : isNamed strings propAddressCells q ∨ isNamed strings propSizeCells q →
      ∃ n, n ≤ 2 ∧ q.value = word n) : Small (declare strings cells q) := by
  rw [declare]
  split_ifs with haddress hsize
  · obtain ⟨n, hn, hvalue⟩ := hq (.inl haddress)
    rw [hvalue, ofBytes_word (by omega)]
    exact ⟨hn, hcells.2⟩
  · obtain ⟨n, hn, hvalue⟩ := hq (.inr hsize)
    rw [hvalue, ofBytes_word (by omega)]
    exact ⟨hcells.1, hn⟩
  · exact hcells

theorem declared_small {props : List Property} (hprops : SmallCells strings props) {cells : ℕ × ℕ}
    (hcells : Small cells) : Small (declared strings props cells) := by
  induction props generalizing cells with
  | nil => exact hcells
  | cons q props ih =>
    rw [SmallCells, List.forall_mem_cons] at hprops
    exact ih hprops.2 (declare_small hcells hprops.1)

theorem through_subset (p : Property → Bool) (props : List Property) :
    ∀ q ∈ through p props, q ∈ props := by
  induction props with
  | nil => exact fun q hq => hq
  | cons r props ih =>
    intro q hq
    rw [through, List.mem_cons] at hq
    rcases hq with rfl | hq
    · exact List.mem_cons_self
    · split_ifs at hq
      · exact absurd hq List.not_mem_nil
      · exact List.mem_cons_of_mem _ (ih q hq)

theorem SmallCells.through {props : List Property} (h : SmallCells strings props)
    (p : Property → Bool) : SmallCells strings (through p props) :=
  fun q hq => h q (through_subset p props q hq)

/-- Counts stay small down the tree. -/
theorem parentCells_small {t : Forest} (ht : t.Forall fun _ props => SmallCells strings props)
    (a : ℕ) {cells : ℕ × ℕ} (hcells : Small cells) :
    ∀ e ∈ parentCells strings t a cells, Small e.2 := by
  induction t generalizing a cells with
  | done k => exact fun e he => absurd he List.not_mem_nil
  | node k name props subnodes next ihsub ihnext =>
    obtain ⟨hprops, hsub, hnext⟩ := ht
    intro e he
    rw [parentCells, List.mem_cons, List.mem_append] at he
    rcases he with rfl | he | he
    · exact hcells
    · exact ihsub hsub _ (declared_small hprops hcells) e he
    · exact ihnext hnext _ hcells e he

/-! ## The counts that the reader carries -/

section Reader
variable {d : Dtb} {start stop : ℕ}

theorem Opened.cellsBehind_eq (h : d.Opened start stop strings) {q : Property}
    (hq : ValidProperty strings q)
    (hsmall : isNamed strings propAddressCells q ∨ isNamed strings propSizeCells q →
      ∃ n, n ≤ 2 ∧ q.value = word n)
    {a : ℕ} (hhas : d.mem.Has a q.encode) (hlt : a + q.encode.length ≤ stop) (cells : ℕ × ℕ) :
    d.cellsBehind q a cells = declare strings cells q := by
  have hlength := length_encode_property q
  have hvalue : q.value.length ≤ (pad q.value).length := by
    rw [length_pad]
    omega
  have hread : isNamed strings propAddressCells q ∨ isNamed strings propSizeCells q →
      d.readBeU32Node (a + 4 * q.nops + 12) = .ok (ofBytes q.value) := by
    intro hname
    obtain ⟨n, hn, hword⟩ := hsmall hname
    have hbytes := (has_property hhas).2.2
    have hfour : q.value.length = 4 := by rw [hword, length_word]
    rw [hword] at hbytes ⊢
    rw [ofBytes_word (by omega)]
    exact h.readBeU32Node_ok (by omega) (by omega) hbytes
  rw [cellsBehind, checkAddressAndSizeCells, h.compareNameSegment_ok hq.name (by decide),
    Checked.ok_bind, declare]
  change (Except.toOption (if isNamed strings propAddressCells q = true then _ else _)).getD cells = _
  by_cases haddress : isNamed strings propAddressCells q = true
  · rw [if_pos haddress, if_pos haddress, hread (.inl haddress)]
    rfl
  · rw [if_neg haddress, if_neg haddress, h.compareNameSegment_ok hq.name (by decide),
      Checked.ok_bind]
    change (Except.toOption (if isNamed strings propSizeCells q = true then _ else _)).getD cells = _
    by_cases hsize : isNamed strings propSizeCells q = true
    · rw [if_pos hsize, if_pos hsize, hread (.inr hsize)]
      rfl
    · rw [if_neg hsize, if_neg hsize]
      rfl

theorem Opened.cellsOf_eq (h : d.Opened start stop strings) {props : List Property}
    (hprops : ∀ q ∈ props, ValidProperty strings q) (hsmall : SmallCells strings props) {a : ℕ}
    (hhas : d.mem.Has a (encodeProps props)) (hlt : a + (encodeProps props).length ≤ stop)
    (cells : ℕ × ℕ) : d.cellsOf props a cells = declared strings props cells := by
  induction props generalizing a cells with
  | nil => rfl
  | cons q props ih =>
    rw [List.forall_mem_cons] at hprops
    rw [SmallCells, List.forall_mem_cons] at hsmall
    rw [encodeProps_cons] at hhas hlt
    rw [List.length_append] at hlt
    obtain ⟨hq, hrest⟩ := Mapped.has_append.mp hhas
    rw [cellsOf, h.cellsBehind_eq hprops.1 hsmall.1 hq (by omega),
      ih hprops.2 hsmall.2 hrest (by omega)]
    rfl

theorem Opened.cellsAt_eq (h : d.Opened start stop strings) (p : Property → Bool)
    {props : List Property} (hprops : ∀ q ∈ props, ValidProperty strings q)
    (hsmall : SmallCells strings props) {a : ℕ} (hhas : d.mem.Has a (encodeProps props))
    (hlt : a + (encodeProps props).length ≤ stop) (cells : ℕ × ℕ) :
    d.cellsAt p props a cells = declared strings (through p props) cells := by
  induction props generalizing a cells with
  | nil => rfl
  | cons q props ih =>
    rw [List.forall_mem_cons] at hprops
    rw [SmallCells, List.forall_mem_cons] at hsmall
    rw [encodeProps_cons] at hhas hlt
    rw [List.length_append] at hlt
    obtain ⟨hq, hrest⟩ := Mapped.has_append.mp hhas
    rw [cellsAt, through, h.cellsBehind_eq hprops.1 hsmall.1 hq (by omega)]
    by_cases hp : p q
    · rw [if_pos hp, if_pos hp]
      rfl
    · rw [if_neg hp, if_neg hp, ih hprops.2 hsmall.2 hrest (by omega)]
      rfl

/-- Down the tree the search carries the counts of the ancestors. -/
theorem Opened.inForce_eq (h : d.Opened start stop strings) {closing : List UInt8} {t : Forest}
    (hvalid : t.Forall (ValidNode strings))
    (hsmall : t.Forall fun _ props => SmallCells strings props) {a : ℕ}
    (hhas : d.mem.Has a (t.encode closing)) (hlt : a + (t.encode closing).length ≤ stop)
    (cells : ℕ × ℕ) : d.inForce t a cells = parentCells strings t a cells := by
  induction t generalizing a cells closing with
  | done k => rfl
  | node k name props subnodes next ihsub ihnext =>
    obtain ⟨hnode, hsubValid, hnextValid⟩ := hvalid
    obtain ⟨hprops, hsubSmall, hnextSmall⟩ := hsmall
    obtain ⟨hbytes, hsubBytes, hnextBytes⟩ := has_node hhas
    have hsum := add_length_encode_node closing a k name props subnodes next
    have hpropBytes := has_props hbytes
    rw [inForce, parentCells, h.cellsOf_eq hnode.2 hprops hpropBytes (by omega),
      ihsub hsubValid hsubSmall hsubBytes (by omega), ihnext hnextValid hnextSmall hnextBytes (by omega)]

/-! ## A property of a node -/

/-- The properties of a node lie in the structure block, and no property follows them. -/
structure Stands (d : Dtb) (start stop : ℕ) (strings : List UInt8) (n : Node) : Prop where
  valid : ∀ q ∈ n.props, ValidProperty strings q
  small : SmallCells strings n.props
  aligned : 4 ∣ n.address
  start_le : start ≤ n.address
  has : d.mem.Has n.address (encodeProps n.props)
  behind : ∃ k token, token.length = 4 ∧ token ≠ nop ∧ token ≠ prop ∧
    d.mem.Has (n.address + (encodeProps n.props).length) (nops k ++ token) ∧
    n.address + (encodeProps n.props).length + 4 * k + 4 ≤ stop

/-- A forest starts with a node or with its closing token. -/
theorem encode_token (closing : List UInt8) (t : Forest) :
    ∃ k token rest, t.encode closing = nops k ++ token ++ rest ∧
      (token = beginNode ∨ token = closing) := by
  cases t with
  | done k => exact ⟨k, closing, [], (List.append_nil _).symm, .inr rfl⟩
  | node k name props subnodes next =>
    refine ⟨k, beginNode, encodeName name ++ (encodeProps props ++ (subnodes.encode endNode ++
      next.encode closing)), ?_, .inl rfl⟩
    rw [Forest.encode, List.append_assoc, List.append_assoc, List.append_assoc]

theorem stands_of_mem {closing : List UInt8} {t : Forest} (hvalid : t.Forall (ValidNode strings))
    (hsmall : t.Forall fun _ props => SmallCells strings props) {a : ℕ} (hle : start ≤ a)
    (ha : 4 ∣ a) (hhas : d.mem.Has a (t.encode closing))
    (hlt : a + (t.encode closing).length ≤ stop) :
    ∀ n ∈ t.nodes a, d.Stands start stop strings n := by
  induction t generalizing a closing with
  | done k => exact fun n hn => absurd hn List.not_mem_nil
  | node k name props subnodes next ihsub ihnext =>
    obtain ⟨hnode, hsubValid, hnextValid⟩ := hvalid
    obtain ⟨hprops, hsubSmall, hnextSmall⟩ := hsmall
    obtain ⟨hbytes, hsubBytes, hnextBytes⟩ := has_node hhas
    have hsum := add_length_encode_node closing a k name props subnodes next
    have hcontent : content a k name = a + 4 * k + 4 + (encodeName name).length := rfl
    have hpropBytes := has_props hbytes
    intro n hn
    rw [Forest.nodes, List.mem_cons, List.mem_append] at hn
    rcases hn with rfl | hn | hn
    · obtain ⟨j, token, rest, htoken, hkind⟩ := encode_token endNode subnodes
      have hlength : token.length = 4 := by
        rcases hkind with rfl | rfl
        · rfl
        · rfl
      have hsubLength : (subnodes.encode endNode).length = 4 * j + 4 + rest.length := by
        rw [htoken, List.length_append, List.length_append, length_nops, hlength]
      refine ⟨hnode.2, hprops, dvd_content ha k name, show start ≤ content a k name by omega,
        hpropBytes, j, token, hlength, ?_, ?_, (Mapped.has_append.mp (htoken ▸ hsubBytes)).1, ?_⟩
      · rcases hkind with rfl | rfl
        · decide
        · decide
      · rcases hkind with rfl | rfl
        · decide
        · decide
      · show content a k name + (encodeProps props).length + 4 * j + 4 ≤ stop
        omega
    · exact ihsub hsubValid hsubSmall (by omega) (dvd_content_add ha k name props) hsubBytes
        (by omega) n hn
    · exact ihnext hnextValid hnextSmall (by omega) (dvd_content_add_add ha k name props subnodes)
        hnextBytes (by omega) n hn

theorem getPropertyFrom_pad {p a : ℕ} (hpad : skipPadding p = .ok a) (ha : 4 ∣ a)
    (name : List UInt8) (fuel ac sc : ℕ) :
    d.getPropertyFrom name fuel p ac sc = d.getPropertyFrom name fuel a ac sc := by
  cases fuel with
  | zero => rfl
  | succ fuel => rw [getPropertyFrom, getPropertyFrom, hpad, skipPadding_of_dvd ha]

/-- A property is the one that is looked for, or it is stepped over. -/
theorem Opened.getPropertyFrom_property (h : d.Opened start stop strings) {name : List UInt8}
    (hname : 0 ∉ name) {q : Property} (hq : ValidProperty strings q) {a fuel : ℕ} (hle : start ≤ a)
    (ha : 4 ∣ a) (hfuel : q.nops < fuel) (hhas : d.mem.Has a q.encode)
    (hlt : a + q.encode.length + 4 ≤ stop) (cells : ℕ × ℕ) :
    d.getPropertyFrom name (fuel + 1) a cells.1 cells.2 =
      if isNamed strings name q then
        .ok ⟨a + 4 * q.nops + 12, (d.cellsBehind q a cells).1, (d.cellsBehind q a cells).2,
          q.value.length⟩
      else d.getPropertyFrom name fuel (a + q.encode.length) (d.cellsBehind q a cells).1
        (d.cellsBehind q a cells).2 := by
  obtain ⟨hnop, hread, hhead, hcells, hadd, hpad, hdvd⟩ :=
    h.property_ok hq hle ha hfuel hhas hlt cells
  rw [getPropertyFrom, skipPadding_of_dvd ha, Checked.ok_bind, hnop, Checked.ok_bind, hread,
    Checked.ok_bind, if_pos (by decide), hhead, Checked.ok_bind]
  simp only [hcells, Checked.ok_bind, h.compareNameSegment_ok hq.name hname]
  rw [hadd, Checked.ok_bind, getPropertyFrom_pad hpad hdvd]
  rfl

/-- The first property of that name is returned, with the counts that stand up to it. -/
theorem Opened.getPropertyFrom_found (h : d.Opened start stop strings) {name : List UInt8}
    (hname : 0 ∉ name) {props : List Property} (hprops : ∀ q ∈ props, ValidProperty strings q)
    {q : Property} (hfind : props.find? (isNamed strings name) = some q) {a fuel : ℕ}
    (hle : start ≤ a) (ha : 4 ∣ a) (hfuel : (encodeProps props).length ≤ fuel)
    (hhas : d.mem.Has a (encodeProps props)) (hlt : a + (encodeProps props).length + 4 ≤ stop)
    (cells : ℕ × ℕ) :
    ∃ v, d.getPropertyFrom name fuel a cells.1 cells.2 =
        .ok ⟨v, (d.cellsAt (isNamed strings name) props a cells).1,
          (d.cellsAt (isNamed strings name) props a cells).2, q.value.length⟩ ∧
      d.mem.Has v q.value ∧ v + q.value.length ≤ stop := by
  induction props generalizing a fuel cells with
  | nil => exact absurd hfind (by simp)
  | cons r props ih =>
    rw [List.forall_mem_cons] at hprops
    have hlength : (encodeProps (r :: props)).length = r.encode.length + (encodeProps props).length :=
      by rw [encodeProps_cons, List.length_append]
    have hfirst := length_encode_property r
    have hdvd := dvd_length_pad r.value
    have hvalue : r.value.length ≤ (pad r.value).length := by
      rw [length_pad]
      omega
    rw [encodeProps_cons] at hhas
    obtain ⟨hr, hrest⟩ := Mapped.has_append.mp hhas
    obtain ⟨fuel, rfl⟩ : ∃ n, fuel = n + 1 := ⟨fuel - 1, by omega⟩
    rw [h.getPropertyFrom_property hname hprops.1 hle ha (show r.nops < fuel by omega) hr (by omega),
      cellsAt]
    rw [List.find?_cons] at hfind
    by_cases hnamed : isNamed strings name r = true
    · rw [hnamed] at hfind
      obtain rfl : r = q := Option.some.inj hfind
      rw [if_pos hnamed, if_pos hnamed]
      exact ⟨_, rfl, (has_property hr).2.2, by omega⟩
    · rw [Bool.not_eq_true] at hnamed
      rw [hnamed] at hfind ⊢
      exact ih hprops.2 hfind (show start ≤ a + r.encode.length by omega) (by omega)
        (show (encodeProps props).length ≤ fuel by omega) hrest (by omega) (d.cellsBehind r a cells)

/-- Without a property of that name the loop ends behind the properties. -/
theorem Opened.getPropertyFrom_missing (h : d.Opened start stop strings) {name : List UInt8}
    (hname : 0 ∉ name) {props : List Property} (hprops : ∀ q ∈ props, ValidProperty strings q)
    (hfind : props.find? (isNamed strings name) = none) {a fuel k : ℕ} {token : List UInt8}
    (hle : start ≤ a) (ha : 4 ∣ a) (hfuel : (encodeProps props).length + k + 1 < fuel)
    (hhas : d.mem.Has a (encodeProps props)) (hlength : token.length = 4) (hnop : token ≠ nop)
    (hprop : token ≠ prop) (hbehind : d.mem.Has (a + (encodeProps props).length) (nops k ++ token))
    (hlt : a + (encodeProps props).length + 4 * k + 4 ≤ stop) (cells : ℕ × ℕ) :
    d.getPropertyFrom name fuel a cells.1 cells.2 = .error .err := by
  induction props generalizing a fuel cells with
  | nil =>
    obtain ⟨fuel, rfl⟩ : ∃ n, fuel = n + 1 := ⟨fuel - 1, by omega⟩
    have hempty : (encodeProps []).length = 0 := rfl
    rw [hempty, Nat.add_zero] at hbehind hlt
    obtain ⟨hskip, hread⟩ := h.token_ok hlength hnop (show k < fuel by omega) hbehind (by omega)
    rw [getPropertyFrom, skipPadding_of_dvd ha, Checked.ok_bind, hskip, Checked.ok_bind, hread,
      Checked.ok_bind, if_neg (show token ≠ fdtProp from hprop)]
    rfl
  | cons r props ih =>
    rw [List.forall_mem_cons] at hprops
    have hsum : (encodeProps (r :: props)).length = r.encode.length + (encodeProps props).length :=
      by rw [encodeProps_cons, List.length_append]
    have hfirst := length_encode_property r
    have hdvd := dvd_length_pad r.value
    rw [encodeProps_cons] at hhas
    obtain ⟨hr, hrest⟩ := Mapped.has_append.mp hhas
    obtain ⟨fuel, rfl⟩ : ∃ n, fuel = n + 1 := ⟨fuel - 1, by omega⟩
    rw [h.getPropertyFrom_property hname hprops.1 hle ha (show r.nops < fuel by omega) hr (by omega)]
    rw [List.find?_cons] at hfind
    cases hnamed : isNamed strings name r with
    | true =>
      rw [hnamed] at hfind
      exact absurd hfind (Option.some_ne_none r)
    | false =>
      rw [hnamed] at hfind
      rw [hsum, ← Nat.add_assoc] at hbehind
      exact ih hprops.2 hfind (show start ≤ a + r.encode.length by omega) (by omega) (by omega) hrest
        hbehind (by omega) (d.cellsBehind r a cells)

/-! ## Pairs -/

/-- The bytes of a number of at most 64 bits. -/
theorem readCells_ok {v offset first n : ℕ} {value : List UInt8} (hhas : d.mem.Has v value)
    (hn : n ≤ 8) (hfirst : first ≤ 8) (hlen : offset + first + n ≤ value.length)
    (hlt : v + value.length < 2 ^ 64) :
    d.readCells v offset first n = .ok (ofBytes ((value.drop (offset + first)).take n)) := by
  induction n with
  | zero => rfl
  | succ n ih =>
    have hprevious := ih (by omega) (by omega)
    have hindex : n < (value.drop (offset + first)).length := by
      rw [List.length_drop]
      omega
    have hbyte : d.readU8 (v + offset + (first + n)) =
        .ok (value.drop (offset + first))[n] := by
      have hsum : v + offset + (first + n) = v + (offset + first + n) := by omega
      rw [readU8, hsum, hhas.getElem (show offset + first + n < value.length by omega)]
      simp
    have hsmall : ofBytes ((value.drop (offset + first)).take (n + 1)) < 2 ^ 64 := by
      calc ofBytes ((value.drop (offset + first)).take (n + 1))
          < 256 ^ ((value.drop (offset + first)).take (n + 1)).length := ofBytes_lt _
        _ ≤ 256 ^ 8 := Nat.pow_le_pow_right (by decide) (by rw [List.length_take]; omega)
        _ = 2 ^ 64 := by norm_num
    rw [List.take_succ_eq_append_getElem hindex, ofBytes_concat] at hsmall ⊢
    rw [readCells] at hprevious ⊢
    rw [List.range_succ, List.foldlM_append, hprevious, Checked.ok_bind, List.foldlM_cons]
    simp only [checked_add (show first + n < 2 ^ 32 by omega),
      checked_add (show v + offset < 2 ^ 64 by omega),
      checked_add (show v + offset + (first + n) < 2 ^ 64 by omega), Checked.ok_bind, hbyte,
      Nat.mod_eq_of_lt hsmall]
    rfl

/-- The pair at an index of the value that was found. -/
theorem readRegProperty_found {fuel v index : ℕ} {node : DtbNode} {cells : ℕ × ℕ}
    {value : List UInt8}
    (hget : d.getPropertyFrom propReg fuel node.address node.addressCells node.sizeCells =
      .ok ⟨v, cells.1, cells.2, value.length⟩) (hhas : d.mem.Has v value)
    (hlt : v + value.length < 2 ^ 64) (hcells : Small cells) :
    d.readRegProperty fuel node index =
      if 4 * (cells.1 + cells.2) * (index + 1) < 2 ^ 64 then .ok (pairAt value cells index)
      else .error (.panic .overflow) := by
  obtain ⟨haddress, hsize⟩ := hcells
  have hwidth : checked (Checked.mul 64 (cells.1 + cells.2) 4) = .ok (4 * (cells.1 + cells.2)) := by
    rw [Checked.mul_ok (by omega), Nat.mul_comm]
    rfl
  have hbytes : ∀ n, n ≤ 2 → checked (Checked.mul 32 n 4) = .ok (4 * n) := by
    intro n hn
    rw [Checked.mul_ok (by omega), Nat.mul_comm]
    rfl
  have hsucc : 4 * (cells.1 + cells.2) * (index + 1) =
      4 * (cells.1 + cells.2) * index + 4 * (cells.1 + cells.2) := Nat.mul_succ _ _
  rw [readRegProperty, getProperty, hget, attempt_ok, Checked.ok_bind]
  simp only [checked_add (show cells.1 + cells.2 < 2 ^ 32 by omega), Checked.ok_bind, hwidth]
  by_cases hoffset : 4 * (cells.1 + cells.2) * index < 2 ^ 64
  swap
  · rw [if_neg (by omega), Checked.mul, if_neg hoffset]
    rfl
  rw [Checked.mul_ok hoffset, checked_ok, Checked.ok_bind]
  by_cases hend : 4 * (cells.1 + cells.2) * (index + 1) < 2 ^ 64
  swap
  · rw [if_neg hend, Checked.add, if_neg (by omega)]
    rfl
  rw [if_pos hend, checked_add (by omega), Checked.ok_bind, ← hsucc, pairAt]
  by_cases hfits : 4 * (cells.1 + cells.2) * (index + 1) ≤ value.length
  · rw [if_neg (not_lt.mpr hfits), if_pos hfits, hbytes _ haddress, Checked.ok_bind,
      readCells_ok hhas (by omega) (by omega) (by omega) hlt, Checked.ok_bind, hbytes _ hsize,
      Checked.ok_bind, readCells_ok hhas (by omega) (by omega) (by omega) hlt, Nat.add_zero]
    rfl
  · rw [if_pos (not_le.mp hfits), if_neg hfits]
    rfl

/-- What the reader returns for `reg` of a node, started with any counts. -/
theorem Stands.readRegProperty_eq {n : Node} (hn : d.Stands start stop strings n)
    (h : d.Opened start stop strings) {fuel : ℕ} (hfuel : stop < n.address + fuel) {cells : ℕ × ℕ}
    (hcells : Small cells) (index : ℕ) :
    d.readRegProperty fuel ⟨n.address, cells.1, cells.2⟩ index =
      match n.props.find? (isNamed strings propReg) with
      | none => .ok none
      | some q =>
        let own := declared strings (through (isNamed strings propReg) n.props) cells
        if 4 * (own.1 + own.2) * (index + 1) < 2 ^ 64 then .ok (pairAt q.value own index)
        else .error (.panic .overflow) := by
  have hstop := h.stop_lt
  obtain ⟨k, token, hlength, hnop, hprop, hbehind, hlt⟩ := hn.behind
  cases hfind : n.props.find? (isNamed strings propReg) with
  | none =>
    have hget := h.getPropertyFrom_missing (show 0 ∉ propReg by decide) hn.valid hfind hn.start_le
      hn.aligned (show _ < fuel by omega) hn.has hlength hnop hprop hbehind hlt cells
    rw [readRegProperty, getProperty, hget]
    rfl
  | some q =>
    obtain ⟨v, hget, hhas, hend⟩ := h.getPropertyFrom_found (show 0 ∉ propReg by decide) hn.valid
      hfind hn.start_le hn.aligned (show _ ≤ fuel by omega) hn.has (by omega) cells
    rw [h.cellsAt_eq _ hn.valid hn.small hn.has (by omega)] at hget
    exact readRegProperty_found hget hhas (by omega)
      (declared_small (hn.small.through _) hcells)

/-- The reader returns the pair that the counts of the parent give, or not. -/
theorem Stands.reads_iff {n : Node} (hn : d.Stands start stop strings n)
    (h : d.Opened start stop strings) {fuel : ℕ} (hfuel : stop < n.address + fuel)
    (parent : ℕ × ℕ) {cells : ℕ × ℕ} (hcells : Small cells) (index : ℕ) :
    d.readRegProperty fuel ⟨n.address, cells.1, cells.2⟩ index =
        .ok (regPair strings n parent index) ↔
      ReadsAlike strings n parent cells index := by
  rw [hn.readRegProperty_eq h hfuel hcells, regPair, ReadsAlike]
  cases hfind : n.props.find? (isNamed strings propReg) with
  | none => exact ⟨fun _ q hq => absurd hq (Option.some_ne_none q).symm, fun _ => rfl⟩
  | some q =>
    dsimp only [Option.bind_some]
    constructor
    · intro heq q' hq'
      obtain rfl := Option.some.inj hq'
      split_ifs at heq with hfits
      exact ⟨hfits, Except.ok.inj heq⟩
    · intro hall
      obtain ⟨hfits, hpair⟩ := hall q rfl
      rw [if_pos hfits, hpair]

end Reader

/-! ## A blob -/

namespace DeviceTree

/-- The nodes in document order, each with the cell counts in force for its parent. -/
def parentCells (t : DeviceTree) (base : ℕ) : List (Node × (ℕ × ℕ)) :=
  Dtb.parentCells t.strings t.forest (base + t.header.offDtStruct) defaultCells

def SmallCells (t : DeviceTree) : Prop :=
  t.forest.Forall fun _ props => Dtb.SmallCells t.strings props

variable {t : DeviceTree} {mem : Mapped} {base : ℕ}

theorem LiesAt.inForce_eq (h : t.LiesAt mem base) (ht : t.WellFormed) (hsmall : t.SmallCells) :
    inForce ⟨mem, base⟩ t.forest (base + t.header.offDtStruct) defaultCells = t.parentCells base :=
  (h.opened ht).inForce_eq ht.nodes hsmall h.struct le_rfl defaultCells

theorem LiesAt.stands (h : t.LiesAt mem base) (ht : t.WellFormed) (hsmall : t.SmallCells)
    {e : Node × (ℕ × ℕ)} (he : e ∈ t.parentCells base) :
    (Dtb.mk mem base).Stands (base + t.header.offDtStruct)
      (base + t.header.offDtStruct + t.structBlock.length) t.strings e.1 := by
  refine stands_of_mem ht.nodes hsmall le_rfl (dvd_add h.aligned ht.structAligned) h.struct le_rfl
    e.1 ?_
  rw [← inForce_fst ⟨mem, base⟩ t.forest _ defaultCells, h.inForce_eq ht hsmall]
  exact List.mem_map_of_mem he

theorem SmallCells.small (hsmall : t.SmallCells) {e : Node × (ℕ × ℕ)}
    (he : e ∈ t.parentCells base) : Small e.2 :=
  parentCells_small hsmall _ (show Small defaultCells from ⟨by decide, by decide⟩) e he

/-- The counts that a match comes with. -/
def startCells (t : DeviceTree) (onName : List UInt8 → Bool) (onProperty : Property → Bool)
    (e : Node × (ℕ × ℕ)) : ℕ × ℕ :=
  if onName e.1.name then e.2 else declared t.strings (through onProperty e.1.props) e.2

theorem SmallCells.start_small (hsmall : t.SmallCells) (onName : List UInt8 → Bool)
    (onProperty : Property → Bool) {e : Node × (ℕ × ℕ)} (he : e ∈ t.parentCells base)
    (hprops : Dtb.SmallCells t.strings e.1.props) : Small (t.startCells onName onProperty e) := by
  rw [startCells]
  split_ifs
  · exact hsmall.small he
  · exact declared_small (hprops.through onProperty) (hsmall.small he)

section Search
variable {c : Criterion} {onName : List UInt8 → Bool} {onProperty : Property → Bool} {fuel : ℕ}

theorem LiesAt.searchNode_start (h : t.LiesAt mem base) (ht : t.WellFormed)
    (hsmall : t.SmallCells) (hc : c.Decides ⟨mem, base⟩ t.strings onName onProperty)
    (hfuel : t.header.sizeDtStruct < fuel) :
    c.searchNode ⟨mem, base⟩ fuel none =
      .ok (((t.parentCells base).find? fun e => isMatch onName onProperty e.1).map fun e =>
        ⟨e.1.address, (t.startCells onName onProperty e).1,
          (t.startCells onName onProperty e).2⟩) := by
  rw [h.searchNode_found ht hc hfuel.le, h.inForce_eq ht hsmall]
  cases hfind : (t.parentCells base).find? fun e => isMatch onName onProperty e.1 with
  | none => rfl
  | some e =>
    have hstands := h.stands ht hsmall (List.mem_of_find?_eq_some hfind)
    obtain ⟨k, -, -, -, -, -, hlt⟩ := hstands.behind
    have hcells := (h.opened ht).cellsAt_eq onProperty hstands.valid hstands.small hstands.has
      (by omega) e.2
    rw [Option.map_some, Option.map_some, found, startCells, hcells]
    by_cases hname : onName e.1.name = true
    · rw [if_pos hname, if_pos hname]
    · rw [if_neg hname, if_neg hname]

/-- What the reader returns for the match of a search. -/
theorem LiesAt.reads_found (h : t.LiesAt mem base) (ht : t.WellFormed) (hsmall : t.SmallCells)
    (hc : c.Decides ⟨mem, base⟩ t.strings onName onProperty)
    (hfuel : t.header.sizeDtStruct < fuel) {node : DtbNode}
    (hnode : c.searchNode ⟨mem, base⟩ fuel none = .ok (some node)) :
    ∃ n parent, (t.parentCells base).find? (fun e => isMatch onName onProperty e.1) =
        some (n, parent) ∧ node.address = n.address ∧
      ∀ index, (Dtb.mk mem base).readRegProperty fuel node index =
          .ok (regPair t.strings n parent index) ↔
        ReadsAlike t.strings n parent (t.startCells onName onProperty (n, parent)) index := by
  rw [h.searchNode_start ht hsmall hc hfuel] at hnode
  obtain ⟨⟨n, parent⟩, hfind, rfl⟩ := Option.map_eq_some_iff.mp (Except.ok.inj hnode)
  have hmem := List.mem_of_find?_eq_some hfind
  have hstands := h.stands ht hsmall hmem
  have hle := hstands.start_le
  have hsize := ht.structSize
  refine ⟨n, parent, hfind, rfl, fun index => ?_⟩
  exact hstands.reads_iff (h.opened ht) (by omega) parent
    (hsmall.start_small onName onProperty hmem hstands.small) index

end Search

end DeviceTree

/-- In a well-formed blob with counts of at most 2, the reader returns the pair that the
counts of the parent give exactly when the node has no `reg`, or when the products fit and
the node's own counts make no difference: those before `reg` and, behind the search by
compatible devices, those up to the property that decides it. -/
theorem reads_reg_iff (t : DeviceTree) (ht : t.WellFormed) (hsmall : t.SmallCells) (mem : Mapped)
    (base : ℕ) (h : t.LiesAt mem base) (name compatible : List UInt8) (hname : 0 ∉ name)
    (hcompatible : 0 ∉ compatible) (fuel : ℕ) (hfuel : t.header.sizeDtStruct < fuel) :
    ∃ d, new mem base = .ok d ∧
      (∀ node, d.searchNode fuel name none = .ok (some node) →
        ∃ n parent, (t.parentCells base).find? (fun e => named name e.1.name) = some (n, parent) ∧
          node.address = n.address ∧
          ∀ index, d.readRegProperty fuel node index = .ok (regPair t.strings n parent index) ↔
            ReadsAlike t.strings n parent parent index) ∧
      ∀ node, d.searchNodeByCompatible fuel compatible none = .ok (some node) →
        ∃ n parent, (t.parentCells base).find? (fun e =>
            e.1.props.any (listsCompatible t.strings compatible)) = some (n, parent) ∧
          node.address = n.address ∧
          ∀ index, d.readRegProperty fuel node index = .ok (regPair t.strings n parent index) ↔
            ReadsAlike t.strings n parent
              (declared t.strings (through (listsCompatible t.strings compatible) n.props) parent)
              index := by
  refine ⟨⟨mem, base⟩, h.new_ok ht, fun node hnode => ?_, fun node hnode => ?_⟩
  · obtain ⟨n, parent, hfind, haddress, hreads⟩ :=
      h.reads_found ht hsmall (byName_decides _ t.strings hname) hfuel hnode
    have hmatch : (fun e : Node × (ℕ × ℕ) => isMatch (named name) (fun _ => false) e.1) =
        fun e => named name e.1.name := by
      ext e
      simp [isMatch]
    rw [hmatch] at hfind
    have hnamed := List.find?_some hfind
    dsimp only at hnamed
    refine ⟨n, parent, hfind, haddress, fun index => (hreads index).trans ?_⟩
    rw [DeviceTree.startCells, if_pos hnamed]
  · obtain ⟨n, parent, hfind, haddress, hreads⟩ :=
      h.reads_found ht hsmall ((h.opened ht).byCompatible_decides hcompatible) hfuel hnode
    have hmatch : (fun e : Node × (ℕ × ℕ) =>
        isMatch (fun _ => false) (listsCompatible t.strings compatible) e.1) =
        fun e => e.1.props.any (listsCompatible t.strings compatible) := by
      ext e
      simp [isMatch]
    rw [hmatch] at hfind
    exact ⟨n, parent, hfind, haddress, hreads⟩

/-- `#address-cells` with the value 1. -/
def bridgeCells : Property := ⟨0, 0, word 1⟩

/-- `reg` with the address `0x09000000` in two cells and the size `0x1000` in one. -/
def bridgeReg : Property := ⟨0, 15, word 0 ++ word 0x09000000 ++ word 0x1000⟩

def bridgeProps (regFirst : Bool) : List Property :=
  if regFirst then [bridgeReg, bridgeCells] else [bridgeCells, bridgeReg]

/-- A root with the node `bus`, which has these two properties in either order. -/
def bridgeTree (regFirst : Bool) : DeviceTree where
  header := ⟨0xd00dfeed, 127, 40, 108, 40, 17, 16, 0, 19, 68⟩
  nops := 0
  name := []
  props := []
  subnodes := .node 0 [0x62, 0x75, 0x73] (bridgeProps regFirst) (.done 0) (.done 0)
  endNops := 0
  strings := propAddressCells ++ [0] ++ propReg ++ [0]

theorem mem_bridgeProps {regFirst : Bool} {q : Property} (h : q ∈ bridgeProps regFirst) :
    q = bridgeCells ∨ q = bridgeReg := by
  cases regFirst with
  | true => simpa [bridgeProps, or_comm] using h
  | false => simpa [bridgeProps] using h

theorem bridgeTree_wellFormed (regFirst : Bool) : (bridgeTree regFirst).WellFormed where
  magic := rfl
  version := by decide +revert
  fields := by decide +revert
  headerInside := by decide +revert
  structAligned := by decide +revert
  structSize := by decide +revert
  structInside := by decide +revert
  stringsSize := by decide +revert
  stringsInside := by decide +revert
  nodes := by
    have hvalid : ∀ q ∈ bridgeProps regFirst, ValidProperty (bridgeTree regFirst).strings q := by
      intro q hq
      rcases mem_bridgeProps hq with rfl | rfl
      · exact ⟨by decide +revert, by decide, fun hcompatible => absurd hcompatible (by decide +revert)⟩
      · exact ⟨by decide +revert, by decide, fun hcompatible => absurd hcompatible (by decide +revert)⟩
    have hnone : ∀ q ∈ ([] : List Property), ValidProperty (bridgeTree regFirst).strings q :=
      fun q hq => absurd hq List.not_mem_nil
    exact ⟨⟨List.not_mem_nil, hnone⟩, ⟨⟨by decide, hvalid⟩, trivial, trivial⟩, trivial⟩

theorem bridgeTree_smallCells (regFirst : Bool) : (bridgeTree regFirst).SmallCells := by
  refine ⟨fun q hq => absurd hq List.not_mem_nil, ⟨fun q hq hname => ?_, trivial, trivial⟩, trivial⟩
  rcases mem_bridgeProps hq with rfl | rfl
  · exact ⟨1, by decide, rfl⟩
  · exact absurd hname (by decide +revert)

/-- The memory that holds the blob and nothing else. -/
def bridgeMemory (regFirst : Bool) : Mapped := Mapped.ofBytes 0x48000000 (bridgeTree regFirst).blob

theorem bridgeTree_liesAt (regFirst : Bool) :
    (bridgeTree regFirst).LiesAt (bridgeMemory regFirst) 0x48000000 :=
  (bridgeTree_wellFormed regFirst).blob_liesAt (by decide) (by decide +revert) rfl rfl

theorem bridgeTree_search (regFirst : Bool) :
    searchNode ⟨bridgeMemory regFirst, 0x48000000⟩ 69 [0x62, 0x75, 0x73] none =
      .ok (some ⟨0x48000038, 2, 1⟩) := by
  have hsearch := (bridgeTree_liesAt regFirst).searchNode_start (bridgeTree_wellFormed regFirst)
    (bridgeTree_smallCells regFirst) (byName_decides _ _ (show 0 ∉ [0x62, 0x75, 0x73] by decide))
    (show (bridgeTree regFirst).header.sizeDtStruct < 69 by decide +revert)
  rw [searchNode, hsearch]
  rfl

/-- With `reg` in front the range of `bus` is read as the root's counts say. -/
theorem reads_reg_bus :
    ∃ d node, new (bridgeMemory true) 0x48000000 = .ok d ∧
      d.searchNode 69 [0x62, 0x75, 0x73] none = .ok (some node) ∧
      d.readRegProperty 69 node 0 = .ok (some (0x09000000, 0x1000)) := by
  obtain ⟨d, hnew, hname, -⟩ := reads_reg_iff _ (bridgeTree_wellFormed true) (bridgeTree_smallCells true) _ _
    (bridgeTree_liesAt true) [0x62, 0x75, 0x73] [0x62] (by decide) (by decide) 69 (by decide)
  obtain rfl : _ = d :=
    Except.ok.inj (((bridgeTree_liesAt true).new_ok (bridgeTree_wellFormed true)).symm.trans hnew)
  refine ⟨_, _, hnew, bridgeTree_search true, ?_⟩
  obtain ⟨n, parent, hfind, -, hreads⟩ := hname _ (bridgeTree_search true)
  obtain ⟨rfl, rfl⟩ : n = ⟨[0x62, 0x75, 0x73], bridgeProps true, 0x48000038⟩ ∧ parent = (2, 1) := by
    have hpair := Option.some.inj hfind
    exact ⟨congrArg Prod.fst hpair.symm, congrArg Prod.snd hpair.symm⟩
  refine (hreads 0).mpr fun q hq => ?_
  obtain rfl : bridgeReg = q := Option.some.inj hq
  exact ⟨by decide, rfl⟩

/-- With `#address-cells` in front the range of `bus` is read with one cell for the address,
which gives another pair than the root's counts. -/
theorem own_cells_misread :
    (bridgeTree false).WellFormed ∧ (bridgeTree false).SmallCells ∧
      (bridgeTree false).LiesAt (bridgeMemory false) 0x48000000 ∧
      ∃ d node n, new (bridgeMemory false) 0x48000000 = .ok d ∧
        d.searchNode 69 [0x62, 0x75, 0x73] none = .ok (some node) ∧
        ((bridgeTree false).parentCells 0x48000000).find? (fun e =>
          named [0x62, 0x75, 0x73] e.1.name) = some (n, (2, 1)) ∧
        regPair (bridgeTree false).strings n (2, 1) 0 = some (0x09000000, 0x1000) ∧
        d.readRegProperty 69 node 0 = .ok (some (0, 0x09000000)) := by
  have hstands := (bridgeTree_liesAt false).stands (bridgeTree_wellFormed false) (bridgeTree_smallCells false)
    (e := (⟨[0x62, 0x75, 0x73], bridgeProps false, 0x48000038⟩, (2, 1))) (by decide)
  refine ⟨bridgeTree_wellFormed false, bridgeTree_smallCells false, bridgeTree_liesAt false, _, _,
    ⟨[0x62, 0x75, 0x73], bridgeProps false, 0x48000038⟩,
    (bridgeTree_liesAt false).new_ok (bridgeTree_wellFormed false), bridgeTree_search false, rfl, by decide, ?_⟩
  have hread := hstands.readRegProperty_eq ((bridgeTree_liesAt false).opened (bridgeTree_wellFormed false))
    (show _ < 0x48000038 + 69 by decide) (show Small (2, 1) from ⟨by decide, by decide⟩) 0
  rw [hread]
  rfl

end Min1visor.Dtb
