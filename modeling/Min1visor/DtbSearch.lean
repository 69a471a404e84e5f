import Min1visor.DtbBlocks

/-!
# Searching a device tree from its start

The recursive descent over a forest, by induction on it: the pointer lands behind each
subtree that has no match, and the first match in document order ends the search.
-/
namespace Min1visor.Dtb
open FlattenedTree

/-- A property whose name is in the strings block; what `compatible` holds is a list of
strings. -/
structure ValidProperty (strings : List UInt8) (q : Property) : Prop where
  name : 0 ∈ strings.drop q.nameOffset
  length : q.value.length < 2 ^ 32
  compatible : stringAt strings q.nameOffset = propCompatible →
    ∃ ss, (∀ s ∈ ss, 0 ∉ s) ∧ q.value = joinStrings ss

def ValidNode (strings name : List UInt8) (props : List Property) : Prop :=
  0 ∉ name ∧ ∀ q ∈ props, ValidProperty strings q

/-- What a search decides at the names and at the properties of a tree. -/
structure Criterion.Decides (c : Criterion) (d : Dtb) (strings : List UInt8)
    (onName : List UInt8 → Bool) (onProperty : Property → Bool) : Prop where
  name : ∀ {s : List UInt8} {p fuel : ℕ}, 0 ∉ s → s.length < fuel → d.mem.Has p (encodeName s) →
    4 ∣ p → p + (encodeName s).length < 2 ^ 64 →
    c.name d fuel p = .ok (onName s, p + (encodeName s).length)
  property : ∀ {q : Property} {p : ℕ} (ac sc : ℕ), ValidProperty strings q →
    d.mem.Has p q.value → p + q.value.length < 2 ^ 64 →
    c.property d ⟨p, ac, sc, q.value.length⟩ q.nameOffset = .ok (onProperty q)

/-- The property is a list of compatible devices with `compatible` in it. -/
def listsCompatible (strings compatible : List UInt8) (q : Property) : Bool :=
  stringAt strings q.nameOffset == propCompatible && decide (compatible ∈ splitStrings q.value)

variable {d : Dtb} {start stop : ℕ} {strings : List UInt8}

theorem byName_decides (d : Dtb) (strings : List UInt8) {nodeName : List UInt8}
    (hname : 0 ∉ nodeName) :
    (byName nodeName).Decides d strings (named nodeName) (fun _ => false) where
  name hs hfuel hhas hp hlt := compareString_ok hname hs hfuel hhas hp hlt
  property _ _ _ _ _ := rfl

theorem Opened.byCompatible_decides (h : d.Opened start stop strings) {compatible : List UInt8}
    (hc : 0 ∉ compatible) : (byCompatible compatible).Decides d strings (fun _ => false)
      (listsCompatible strings compatible) where
  name {s p fuel} hs hfuel hhas hp hlt := by
    have hskip := skipString_ok hs hfuel (Nat.zero_le _) hhas hp hlt
    rw [Nat.add_zero] at hskip
    simp only [byCompatible, hskip, Checked.ok_bind]
    rfl
  property {q p} ac sc hq hhas hlt := by
    simp only [byCompatible, h.compareNameSegment_ok hq.name (show 0 ∉ propCompatible by decide),
      Checked.ok_bind, listsCompatible]
    cases hname : stringAt strings q.nameOffset == propCompatible with
    | false => rfl
    | true =>
      obtain ⟨ss, hss, hvalue⟩ := hq.compatible (beq_iff_eq.mp hname)
      have hlength := hq.length
      rw [hvalue] at hhas hlt hlength
      rw [if_pos rfl, Bool.true_and, hvalue, splitStrings_joinStrings hss]
      exact isDeviceCompatible_ok hc hss hhas rfl hlength hlt.le

/-! ## One turn of the loop -/

section Search
variable {c : Criterion} {onName : List UInt8 → Bool} {onProperty : Property → Bool}

theorem searchLoop_pad {p a : ℕ} (hpad : skipPadding p = .ok a) (ha : 4 ∣ a)
    (fuel t ac sc : ℕ) : c.searchLoop d fuel t p ac sc = c.searchLoop d fuel t a ac sc := by
  cases fuel with
  | zero => rfl
  | succ fuel => rw [Criterion.searchLoop, Criterion.searchLoop, hpad, skipPadding_of_dvd ha]

/-- The token at which a turn of the loop arrives. -/
theorem Opened.token_ok (h : d.Opened start stop strings) {token : List UInt8}
    (hlength : token.length = 4) (hnop : token ≠ nop) {a k fuel : ℕ} (hfuel : k < fuel)
    (hhas : d.mem.Has a (nops k ++ token)) (hlt : a + 4 * k < stop) :
    d.skipNop fuel a = .ok (a + 4 * k) ∧ d.readNode (a + 4 * k) = .ok token := by
  refine ⟨h.skipNop_ok hlength hnop hfuel hhas hlt, ?_⟩
  have htoken := (Mapped.has_append.mp hhas).2
  rw [length_nops] at htoken
  exact h.readNode_ok hlt hlength htoken

theorem Opened.searchLoop_done (h : d.Opened start stop strings) {a k fuel : ℕ} (ha : 4 ∣ a)
    (hfuel : k < fuel) (hhas : d.mem.Has a ((Forest.done k).encode endNode))
    (hlt : a + ((Forest.done k).encode endNode).length ≤ stop) (t ac sc : ℕ) :
    c.searchLoop d (fuel + 1) t a ac sc =
      .ok (none, a + ((Forest.done k).encode endNode).length) := by
  have hstop := h.stop_lt
  have hlength : ((Forest.done k).encode endNode).length = 4 * k + 4 := length_encode_done _ k
  rw [hlength] at hlt ⊢
  obtain ⟨hnop, htoken⟩ := h.token_ok (show endNode.length = 4 from rfl) (by decide) hfuel hhas
    (by omega)
  have hadd : checked (Checked.add 64 (a + 4 * k) fdtTokenByte) = .ok (a + 4 * k + 4) :=
    checked_add (show a + 4 * k + 4 < 2 ^ 64 by omega)
  rw [Criterion.searchLoop, skipPadding_of_dvd ha, Checked.ok_bind, hnop, Checked.ok_bind, htoken,
    Checked.ok_bind, if_neg (by decide), if_neg (by decide), if_pos (by decide), hadd]
  rfl

/-- At the token of a subnode the search descends. -/
theorem Opened.searchLoop_begin (h : d.Opened start stop strings) {a k fuel : ℕ} (ha : 4 ∣ a)
    (hfuel : k < fuel) (hhas : d.mem.Has a (nops k ++ beginNode)) (hlt : a + 4 * k < stop)
    {ac sc p : ℕ} {found : Option DtbNode}
    (hsearch : c.search d fuel (a + 4 * k) ac sc = .ok (found, p)) (t : ℕ) :
    c.searchLoop d (fuel + 1) t a ac sc =
      if found.isSome then .ok (found, p) else c.searchLoop d fuel t p ac sc := by
  obtain ⟨hnop, htoken⟩ := h.token_ok (show beginNode.length = 4 from rfl) (by decide) hfuel hhas
    hlt
  rw [Criterion.searchLoop, skipPadding_of_dvd ha, Checked.ok_bind, hnop, Checked.ok_bind, htoken,
    Checked.ok_bind, if_pos (by decide), hsearch, Checked.ok_bind]
  cases found <;> rfl

theorem ValidProperty.offset_lt {q : Property} (hq : ValidProperty strings q) :
    q.nameOffset < strings.length := by
  by_contra hge
  have hname := hq.name
  rw [List.drop_eq_nil_of_le (not_lt.mp hge)] at hname
  exact absurd hname List.not_mem_nil

theorem length_encode_property (q : Property) :
    q.encode.length = 4 * q.nops + 12 + (pad q.value).length := by
  simp only [Property.encode, List.length_append, length_nops, length_word]
  rfl

/-- Where the parts of a property lie. -/
theorem has_property {mem : Mapped} {a : ℕ} {q : Property} (h : mem.Has a q.encode) :
    mem.Has a (nops q.nops ++ prop) ∧
      mem.Has (a + 4 * q.nops) (prop ++ word q.value.length ++ word q.nameOffset) ∧
      mem.Has (a + 4 * q.nops + 12) q.value := by
  simp only [Property.encode, pad, Mapped.has_append, List.length_append, length_nops,
    length_word] at h ⊢
  obtain ⟨⟨⟨⟨hnops, hprop⟩, hlen⟩, hname⟩, hvalue, -⟩ := h
  have hprop' : a + (4 * q.nops + prop.length) = a + 4 * q.nops + prop.length := by omega
  have hname' : a + (4 * q.nops + prop.length + 4) = a + 4 * q.nops + (prop.length + 4) := by omega
  have hvalue' : a + (4 * q.nops + prop.length + 4 + 4) = a + 4 * q.nops + (prop.length + 4 + 4) :=
    by omega
  exact ⟨⟨hnops, hprop⟩, ⟨⟨hprop, hprop' ▸ hlen⟩, hname' ▸ hname⟩, hvalue' ▸ hvalue⟩

/-- A search that starts at no node. -/
theorem Opened.search_err (h : d.Opened start stop strings) {token : List UInt8}
    (hlength : token.length = 4) (hnop : token ≠ nop) (hbegin : token ≠ beginNode) {a k fuel : ℕ}
    (hfuel : k < fuel) (hhas : d.mem.Has a (nops k ++ token)) (hlt : a + 4 * k < stop)
    (ac sc : ℕ) : c.search d (fuel + 1) a ac sc = .error .err := by
  obtain ⟨hskip, hread⟩ := h.token_ok hlength hnop hfuel hhas hlt
  rw [Criterion.search, hskip, Checked.ok_bind, hread, Checked.ok_bind,
    if_pos (show token ≠ fdtBeginNode from hbegin)]
  rfl

/-- The cell counts behind a property that is written at `a`. -/
def cellsBehind (d : Dtb) (q : Property) (a : ℕ) (cells : ℕ × ℕ) : ℕ × ℕ :=
  (d.checkAddressAndSizeCells q.nameOffset (a + 4 * q.nops + 12) cells.1 cells.2).toOption.getD cells

/-- The cell counts behind properties that are written from `a` on. -/
def cellsOf (d : Dtb) : List Property → ℕ → ℕ × ℕ → ℕ × ℕ
  | [], _, cells => cells
  | q :: props, a, cells => d.cellsOf props (a + q.encode.length) (d.cellsBehind q a cells)

/-- The cell counts behind the first of the properties that is accepted. -/
def cellsAt (d : Dtb) (onProperty : Property → Bool) : List Property → ℕ → ℕ × ℕ → ℕ × ℕ
  | [], _, cells => cells
  | q :: props, a, cells =>
    if onProperty q then d.cellsBehind q a cells
    else d.cellsAt onProperty props (a + q.encode.length) (d.cellsBehind q a cells)

/-- What a turn of a loop learns of the property at which it arrives. -/
theorem Opened.property_ok (h : d.Opened start stop strings) {q : Property}
    (hq : ValidProperty strings q) {a fuel : ℕ} (hle : start ≤ a) (ha : 4 ∣ a)
    (hfuel : q.nops < fuel) (hhas : d.mem.Has a q.encode) (hlt : a + q.encode.length + 4 ≤ stop)
    (cells : ℕ × ℕ) :
    d.skipNop fuel a = .ok (a + 4 * q.nops) ∧ d.readNode (a + 4 * q.nops) = .ok prop ∧
      d.propertyHeader (a + 4 * q.nops) =
        .ok (q.value.length, q.nameOffset, a + 4 * q.nops + 12) ∧
      d.checkAddressAndSizeCells q.nameOffset (a + 4 * q.nops + 12) cells.1 cells.2 =
        .ok (d.cellsBehind q a cells) ∧
      checked (Checked.add 64 (a + 4 * q.nops + 12) q.value.length) =
        .ok (a + 4 * q.nops + 12 + q.value.length) ∧
      skipPadding (a + 4 * q.nops + 12 + q.value.length) = .ok (a + q.encode.length) ∧
      4 ∣ a + q.encode.length := by
  have hstop := h.stop_lt
  have hlength := length_encode_property q
  have hvalue : q.value.length ≤ (pad q.value).length := by
    rw [length_pad]
    omega
  obtain ⟨htoken, hheader, -⟩ := has_property hhas
  obtain ⟨hnop, hread⟩ := h.token_ok (show prop.length = 4 from rfl) (by decide) hfuel htoken
    (by omega)
  have hhead := h.propertyHeader_ok hq.length (hq.offset_lt.trans h.strings_lt) (by omega) hheader
  obtain ⟨cells', hcells⟩ := h.checkAddressAndSizeCells_ok hq.name
    (show start ≤ a + 4 * q.nops + 12 by omega) (by omega) cells.1 cells.2
  have hbehind : d.cellsBehind q a cells = cells' := by
    rw [cellsBehind, hcells]
    rfl
  have hpad := skipPadding_pad (show 4 ∣ a + 4 * q.nops + 12 by omega) q.value (by omega)
  have hend : a + 4 * q.nops + 12 + (pad q.value).length = a + q.encode.length := by omega
  have hdvd := dvd_length_pad q.value
  rw [hend] at hpad
  exact ⟨hnop, hread, hhead, hbehind ▸ hcells, checked_add (by omega), hpad, by omega⟩

/-- A property either ends the search or is stepped over. -/
theorem Opened.searchLoop_property (h : d.Opened start stop strings)
    (hc : c.Decides d strings onName onProperty) {q : Property} (hq : ValidProperty strings q)
    {a fuel : ℕ} (hle : start ≤ a) (ha : 4 ∣ a) (hfuel : q.nops < fuel)
    (hhas : d.mem.Has a q.encode) (hlt : a + q.encode.length + 4 ≤ stop) (t : ℕ) (cells : ℕ × ℕ) :
    c.searchLoop d (fuel + 1) t a cells.1 cells.2 =
      if onProperty q then
        .ok (some ⟨t, (d.cellsBehind q a cells).1, (d.cellsBehind q a cells).2⟩, a + 4 * q.nops + 12)
      else c.searchLoop d fuel t (a + q.encode.length) (d.cellsBehind q a cells).1
        (d.cellsBehind q a cells).2 := by
  have hstop := h.stop_lt
  have hlength := length_encode_property q
  have hvalue : q.value.length ≤ (pad q.value).length := by
    rw [length_pad]
    omega
  obtain ⟨hnop, hread, hhead, hcells, hadd, hpad, hdvd⟩ :=
    h.property_ok hq hle ha hfuel hhas hlt cells
  have hdecide := hc.property (d.cellsBehind q a cells).1 (d.cellsBehind q a cells).2 hq
    (has_property hhas).2.2 (by omega)
  rw [Criterion.searchLoop, skipPadding_of_dvd ha, Checked.ok_bind, hnop, Checked.ok_bind, hread,
    Checked.ok_bind, if_neg (by decide), if_neg (by decide), if_neg (by decide),
    if_pos (by decide), hhead, Checked.ok_bind]
  simp only [hcells, Checked.ok_bind, hdecide]
  rw [hadd, Checked.ok_bind, searchLoop_pad hpad hdvd]
  rfl

theorem encodeProps_cons (q : Property) (props : List Property) :
    encodeProps (q :: props) = q.encode ++ encodeProps props := by
  rw [encodeProps, List.flatMap_cons]
  rfl

/-- The properties of a node: one of them ends the search, or all are stepped over. -/
theorem Opened.searchLoop_properties (h : d.Opened start stop strings)
    (hc : c.Decides d strings onName onProperty) {props : List Property}
    (hprops : ∀ q ∈ props, ValidProperty strings q) {a fuel : ℕ} (hle : start ≤ a) (ha : 4 ∣ a)
    (hfuel : (encodeProps props).length ≤ fuel) (hhas : d.mem.Has a (encodeProps props))
    (hlt : a + (encodeProps props).length + 4 ≤ stop) (t : ℕ) (cells : ℕ × ℕ) :
    (props.any onProperty = true →
      ∃ p, c.searchLoop d fuel t a cells.1 cells.2 =
        .ok (some ⟨t, (d.cellsAt onProperty props a cells).1,
          (d.cellsAt onProperty props a cells).2⟩, p)) ∧
    (props.any onProperty = false →
      ∃ rest, fuel ≤ rest + (encodeProps props).length ∧
        c.searchLoop d fuel t a cells.1 cells.2 =
          c.searchLoop d rest t (a + (encodeProps props).length) (d.cellsOf props a cells).1
            (d.cellsOf props a cells).2) := by
  induction props generalizing a fuel cells with
  | nil => exact ⟨fun hany => absurd hany Bool.false_ne_true, fun _ => ⟨fuel, le_rfl, rfl⟩⟩
  | cons q props ih =>
    rw [List.forall_mem_cons] at hprops
    have hlength : (encodeProps (q :: props)).length = q.encode.length + (encodeProps props).length :=
      by rw [encodeProps_cons, List.length_append]
    have hfirst := length_encode_property q
    have hdvd := dvd_length_pad q.value
    rw [encodeProps_cons] at hhas
    obtain ⟨hq, hrest⟩ := Mapped.has_append.mp hhas
    obtain ⟨fuel, rfl⟩ : ∃ n, fuel = n + 1 := ⟨fuel - 1, by omega⟩
    rw [h.searchLoop_property hc hprops.1 hle ha (show q.nops < fuel by omega) hq (by omega) t cells,
      List.any_cons, cellsAt]
    cases onProperty q with
    | true =>
      refine ⟨fun _ => ⟨_, if_pos rfl⟩, fun hany => ?_⟩
      rw [Bool.true_or] at hany
      exact absurd hany.symm Bool.false_ne_true
    | false =>
      rw [if_neg Bool.false_ne_true, if_neg Bool.false_ne_true, Bool.false_or]
      obtain ⟨hfound, hpast⟩ := ih hprops.2 (show start ≤ a + q.encode.length by omega) (by omega)
        (show (encodeProps props).length ≤ fuel by omega) hrest (by omega) (d.cellsBehind q a cells)
      refine ⟨hfound, fun hany => ?_⟩
      obtain ⟨rest, hle', heq⟩ := hpast hany
      exact ⟨rest, by omega, by rw [heq, cellsOf, hlength, Nat.add_assoc]⟩

/-! ## A whole forest -/

/-- The node is one that the search is after. -/
def isMatch (onName : List UInt8 → Bool) (onProperty : Property → Bool) (n : Node) : Bool :=
  onName n.name || n.props.any onProperty

/-- The nodes of a forest in document order, each with the cell counts at its token. -/
def inForce (d : Dtb) : Forest → ℕ → ℕ × ℕ → List (Node × (ℕ × ℕ))
  | .done _, _, _ => []
  | .node k name props subnodes next, a, cells =>
    (⟨name, props, content a k name⟩, cells) ::
      (d.inForce subnodes (content a k name + (encodeProps props).length)
          (d.cellsOf props (content a k name) cells) ++
        d.inForce next (content a k name + (encodeProps props).length +
          (subnodes.encode endNode).length) cells)

theorem inForce_fst (d : Dtb) (t : Forest) (a : ℕ) (cells : ℕ × ℕ) :
    (d.inForce t a cells).map Prod.fst = t.nodes a := by
  induction t generalizing a cells with
  | done k => rfl
  | node k name props subnodes next ihsub ihnext =>
    rw [inForce, List.map_cons, List.map_append, ihsub, ihnext, Forest.nodes]

/-- A match as the search returns it. -/
def found (d : Dtb) (onName : List UInt8 → Bool) (onProperty : Property → Bool)
    (e : Node × (ℕ × ℕ)) : DtbNode :=
  if onName e.1.name then ⟨e.1.address, e.2.1, e.2.2⟩
  else ⟨e.1.address, (d.cellsAt onProperty e.1.props e.1.address e.2).1,
    (d.cellsAt onProperty e.1.props e.1.address e.2).2⟩

theorem found_address (d : Dtb) (onName : List UInt8 → Bool) (onProperty : Property → Bool)
    (e : Node × (ℕ × ℕ)) : (d.found onName onProperty e).address = e.1.address := by
  rw [found]
  split <;> rfl

/-- A search that returns the match with its cell counts, or none and then leaves the pointer
at `stop`. -/
def Criterion.Finds (d : Dtb) (onName : List UInt8 → Bool) (onProperty : Property → Bool)
    (r : Except Stop (Option DtbNode × ℕ)) (match? : Option (Node × (ℕ × ℕ))) (stop : ℕ) : Prop :=
  match match? with
  | some e => ∃ p, r = .ok (some (d.found onName onProperty e), p)
  | none => r = .ok (none, stop)

/-- The search from the token of a node, given what it does on the subnodes. -/
theorem Opened.search_node (h : d.Opened start stop strings)
    (hc : c.Decides d strings onName onProperty) {k : ℕ} {name : List UInt8}
    {props : List Property} {subnodes : Forest} (hnode : ValidNode strings name props)
    {a fuel : ℕ} (hle : start ≤ a) (ha : 4 ∣ a)
    (hhas : d.mem.Has a (nops k ++ beginNode ++ encodeName name ++ encodeProps props))
    (hlt : content a k name + (encodeProps props).length + (subnodes.encode endNode).length ≤ stop)
    (hfuel : content a k name + (encodeProps props).length + (subnodes.encode endNode).length ≤
      a + fuel)
    (hsub : ∀ rest u cells, (subnodes.encode endNode).length ≤ rest →
      Criterion.Finds d onName onProperty
        (c.searchLoop d rest u (content a k name + (encodeProps props).length) cells.1 cells.2)
        ((d.inForce subnodes (content a k name + (encodeProps props).length) cells).find? fun e =>
          isMatch onName onProperty e.1)
        (content a k name + (encodeProps props).length + (subnodes.encode endNode).length))
    (cells : ℕ × ℕ) :
    Criterion.Finds d onName onProperty (c.search d fuel a cells.1 cells.2)
      (((⟨name, props, content a k name⟩, cells) ::
        d.inForce subnodes (content a k name + (encodeProps props).length)
          (d.cellsOf props (content a k name) cells)).find? fun e => isMatch onName onProperty e.1)
      (content a k name + (encodeProps props).length + (subnodes.encode endNode).length) := by
  have hstop := h.stop_lt
  have hsubs := le_length_encode (show endNode.length = 4 from rfl) subnodes
  have hcontent : content a k name = a + 4 * k + 4 + (encodeName name).length := rfl
  have hdvd := dvd_content ha k name
  obtain ⟨rest, hrest⟩ := encodeName_split name
  have hnamelt : name.length < (encodeName name).length := by
    rw [hrest, List.length_append, List.length_cons]
    omega
  obtain ⟨hbefore, hprops⟩ := Mapped.has_append.mp hhas
  obtain ⟨htoken, hname⟩ := Mapped.has_append.mp hbefore
  rw [List.length_append, length_nops] at hname
  have hpos : a + (4 * k + beginNode.length) = a + 4 * k + 4 := by
    show a + (4 * k + 4) = _
    omega
  rw [hpos] at hname
  simp only [List.length_append, length_nops] at hprops
  have hpos' : a + (4 * k + beginNode.length + (encodeName name).length) = content a k name := by
    show a + (4 * k + 4 + _) = _
    omega
  rw [hpos'] at hprops
  obtain ⟨fuel, rfl⟩ : ∃ n, fuel = n + 1 := ⟨fuel - 1, by omega⟩
  obtain ⟨hnop, hread⟩ := h.token_ok (show beginNode.length = 4 from rfl) (by decide)
    (show k < fuel by omega) htoken (by omega)
  have hadd : checked (Checked.add 64 (a + 4 * k) fdtTokenByte) = .ok (a + 4 * k + 4) :=
    checked_add (show a + 4 * k + 4 < 2 ^ 64 by omega)
  have hdecide : c.name d fuel (a + 4 * k + 4) = .ok (onName name, content a k name) :=
    hc.name hnode.1 (by omega) hname (by omega) (by omega)
  have hbegin : ¬ beginNode ≠ fdtBeginNode := fun hne => hne rfl
  rw [Criterion.search, hnop, Checked.ok_bind, hread, Checked.ok_bind, if_neg hbegin]
  simp only [hadd, Checked.ok_bind, hdecide]
  rw [List.find?_cons]
  cases honName : onName name with
  | true =>
    simp only [isMatch, honName, Bool.true_or]
    refine ⟨content a k name, ?_⟩
    rw [found, if_pos honName]
    rfl
  | false =>
    obtain ⟨hfound, hpast⟩ := h.searchLoop_properties hc hnode.2
      (show start ≤ content a k name by omega) hdvd
      (show (encodeProps props).length ≤ fuel by omega) hprops (by omega) (content a k name) cells
    simp only [isMatch, honName, Bool.false_or, Bool.false_eq_true, if_false]
    cases hany : props.any onProperty with
    | true =>
      obtain ⟨p, heq⟩ := hfound hany
      refine ⟨p, ?_⟩
      rw [heq, found, if_neg (by simp [honName])]
    | false =>
      obtain ⟨rest, hle', heq⟩ := hpast hany
      simp only
      rw [heq]
      exact hsub rest _ _ (by omega)

/-- The bytes of a node, and where those of its subnodes and of the next node lie. -/
theorem has_node {mem : Mapped} {a k : ℕ} {name closing : List UInt8} {props : List Property}
    {subnodes next : Forest}
    (h : mem.Has a ((Forest.node k name props subnodes next).encode closing)) :
    mem.Has a (nops k ++ beginNode ++ encodeName name ++ encodeProps props) ∧
      mem.Has (content a k name + (encodeProps props).length) (subnodes.encode endNode) ∧
      mem.Has (content a k name + (encodeProps props).length + (subnodes.encode endNode).length)
        (next.encode closing) := by
  rw [Forest.encode] at h
  obtain ⟨hbefore, hnext⟩ := Mapped.has_append.mp h
  obtain ⟨hnode, hsub⟩ := Mapped.has_append.mp hbefore
  simp only [List.length_append, length_nops] at hsub hnext
  have hpos : a + (4 * k + beginNode.length + (encodeName name).length + (encodeProps props).length) =
      content a k name + (encodeProps props).length := by
    show a + (4 * k + 4 + _ + _) = a + 4 * k + 4 + _ + _
    omega
  have hpos' : a + (4 * k + beginNode.length + (encodeName name).length +
      (encodeProps props).length + (subnodes.encode endNode).length) =
      content a k name + (encodeProps props).length + (subnodes.encode endNode).length := by
    rw [← hpos, Nat.add_assoc a]
  exact ⟨hnode, hpos ▸ hsub, hpos' ▸ hnext⟩

/-- The properties of a node lie where its content starts. -/
theorem has_props {mem : Mapped} {a k : ℕ} {name : List UInt8} {props : List Property}
    (h : mem.Has a (nops k ++ beginNode ++ encodeName name ++ encodeProps props)) :
    mem.Has (content a k name) (encodeProps props) := by
  have hpos : a + (nops k ++ beginNode ++ encodeName name).length = content a k name := by
    rw [List.length_append, List.length_append, length_nops, content]
    show a + (4 * k + 4 + _) = _
    omega
  rw [← hpos]
  exact (Mapped.has_append.mp h).2

/-- The search over the subnodes of a node returns the first match, or lands behind the
token that ends the node. -/
theorem Opened.searchLoop_forest (h : d.Opened start stop strings)
    (hc : c.Decides d strings onName onProperty) {t : Forest}
    (hvalid : t.Forall (ValidNode strings)) {a fuel : ℕ} (hle : start ≤ a) (ha : 4 ∣ a)
    (hfuel : (t.encode endNode).length ≤ fuel) (hhas : d.mem.Has a (t.encode endNode))
    (hlt : a + (t.encode endNode).length ≤ stop) (u : ℕ)
    (cells : ℕ × ℕ) :
    Criterion.Finds d onName onProperty (c.searchLoop d fuel u a cells.1 cells.2)
      ((d.inForce t a cells).find? fun e => isMatch onName onProperty e.1)
      (a + (t.encode endNode).length) := by
  induction t generalizing a fuel u cells with
  | done k =>
    have hlength : ((Forest.done k).encode endNode).length = 4 * k + 4 := length_encode_done _ k
    obtain ⟨fuel, rfl⟩ : ∃ n, fuel = n + 1 := ⟨fuel - 1, by omega⟩
    exact h.searchLoop_done ha (by omega) hhas hlt u cells.1 cells.2
  | node k name props subnodes next ihsub ihnext =>
    obtain ⟨hnode, hsubValid, hnextValid⟩ := hvalid
    obtain ⟨hbytes, hsubBytes, hnextBytes⟩ := has_node hhas
    have hsum := add_length_encode_node endNode a k name props subnodes next
    have hcontent : content a k name = a + 4 * k + 4 + (encodeName name).length := rfl
    have hnextLe := le_length_encode (show endNode.length = 4 from rfl) next
    obtain ⟨fuel, rfl⟩ : ∃ n, fuel = n + 1 := ⟨fuel - 1, by omega⟩
    -- The empty words are gone when the search descends.
    have hmove : content (a + 4 * k) 0 name = content a k name := rfl
    have hbytes0 : d.mem.Has (a + 4 * k)
        (nops 0 ++ beginNode ++ encodeName name ++ encodeProps props) := by
      rw [List.append_assoc, List.append_assoc] at hbytes
      have hbehind := (Mapped.has_append.mp hbytes).2
      rwa [length_nops, ← List.append_assoc] at hbehind
    have hsearch := h.search_node hc hnode (show start ≤ a + 4 * k by omega) (by omega) hbytes0
      (show content a k name + _ + (subnodes.encode endNode).length ≤ stop by omega)
      (show content a k name + _ + _ ≤ a + 4 * k + fuel by omega)
      (fun rest u cells hrest => ihsub hsubValid
        (show start ≤ content a k name + (encodeProps props).length by omega)
        (dvd_content_add ha k name props) hrest hsubBytes (by omega) u cells) cells
    rw [hmove] at hsearch
    have htoken : d.mem.Has a (nops k ++ beginNode) := by
      rw [List.append_assoc] at hbytes
      exact (Mapped.has_append.mp hbytes).1
    have hstep : ∀ {found : Option DtbNode} {p : ℕ},
        c.search d fuel (a + 4 * k) cells.1 cells.2 = .ok (found, p) →
          c.searchLoop d (fuel + 1) u a cells.1 cells.2 =
            if found.isSome then .ok (found, p) else c.searchLoop d fuel u p cells.1 cells.2 :=
      fun hfound => h.searchLoop_begin ha (by omega) htoken (by omega) hfound u
    rw [inForce, ← List.cons_append, List.find?_append]
    cases hfind : ((⟨name, props, content a k name⟩, cells) ::
        d.inForce subnodes (content a k name + (encodeProps props).length)
          (d.cellsOf props (content a k name) cells)).find? fun e =>
            isMatch onName onProperty e.1 with
    | some e =>
      rw [hfind] at hsearch
      obtain ⟨p, heq⟩ := hsearch
      rw [hstep heq]
      exact ⟨p, rfl⟩
    | none =>
      rw [hfind] at hsearch
      rw [hstep hsearch, Option.none_or, hsum]
      exact ihnext hnextValid (by omega) (dvd_content_add_add ha k name props subnodes) (by omega)
        hnextBytes (by omega) u cells

end Search

/-! ## A blob -/

/-- The header of a blob, in the order of its fields. -/
structure FdtHeader where
  magic : ℕ
  totalSize : ℕ
  offDtStruct : ℕ
  offDtStrings : ℕ
  offMemReservedMap : ℕ
  version : ℕ
  lastCompVersion : ℕ
  bootCpuidPhys : ℕ
  sizeDtStrings : ℕ
  sizeDtStruct : ℕ
  deriving DecidableEq, Repr

def FdtHeader.fields (h : FdtHeader) : List ℕ :=
  [h.magic, h.totalSize, h.offDtStruct, h.offDtStrings, h.offMemReservedMap, h.version,
    h.lastCompVersion, h.bootCpuidPhys, h.sizeDtStrings, h.sizeDtStruct]

def FdtHeader.encode (h : FdtHeader) : List UInt8 := h.fields.flatMap word

/-- What a blob describes: a root node and the strings of the property names. -/
structure DeviceTree where
  header : FdtHeader
  nops : ℕ
  name : List UInt8
  props : List Property
  subnodes : Forest
  endNops : ℕ
  strings : List UInt8
  deriving DecidableEq, Repr

namespace DeviceTree

/-- The root node as a forest of its own. -/
def forest (t : DeviceTree) : Forest := .node t.nops t.name t.props t.subnodes (.done t.endNops)

def structBlock (t : DeviceTree) : List UInt8 := t.forest.encode endTree

/-- The nodes in document order, for a blob at `base`. -/
def nodes (t : DeviceTree) (base : ℕ) : List Node := t.forest.nodes (base + t.header.offDtStruct)

/-- The blocks lie in the blob, and their sizes are those of the header. -/
structure WellFormed (t : DeviceTree) : Prop where
  magic : t.header.magic = Dtb.magic
  version : t.header.version ≤ Dtb.version
  fields : ∀ n ∈ t.header.fields, n < 2 ^ 32
  headerInside : 40 ≤ t.header.totalSize
  structAligned : 4 ∣ t.header.offDtStruct
  structSize : t.header.sizeDtStruct = t.structBlock.length
  structInside : t.header.offDtStruct + t.header.sizeDtStruct ≤ t.header.totalSize
  stringsSize : t.header.sizeDtStrings = t.strings.length
  stringsInside : t.header.offDtStrings + t.header.sizeDtStrings ≤ t.header.totalSize
  nodes : t.forest.Forall (ValidNode t.strings)

/-- The blob lies in memory at `base`. -/
structure LiesAt (t : DeviceTree) (mem : Mapped) (base : ℕ) : Prop where
  aligned : 4 ∣ base
  inside : base + t.header.totalSize < 2 ^ 64
  header : mem.Has base t.header.encode
  struct : mem.Has (base + t.header.offDtStruct) t.structBlock
  strings : mem.Has (base + t.header.offDtStrings) t.strings

/-- The blob whose blocks follow the header, the strings last. -/
def blob (t : DeviceTree) : List UInt8 := t.header.encode ++ t.structBlock ++ t.strings

variable {t : DeviceTree} {mem mem' : Mapped} {base : ℕ}

theorem WellFormed.blob_liesAt (ht : t.WellFormed) (hbase : 4 ∣ base)
    (hinside : base + t.header.totalSize < 2 ^ 64) (hstruct : t.header.offDtStruct = 40)
    (hstrings : t.header.offDtStrings = 40 + t.header.sizeDtStruct) :
    t.LiesAt (Mapped.ofBytes base t.blob) base := by
  obtain ⟨hbefore, hstringBytes⟩ := Mapped.has_append.mp (Mapped.ofBytes_has base t.blob)
  obtain ⟨hheader, hstructBytes⟩ := Mapped.has_append.mp hbefore
  have hlength : t.header.encode.length = 40 := rfl
  rw [hlength, ← hstruct] at hstructBytes
  rw [List.length_append, hlength, ← ht.structSize, ← hstrings] at hstringBytes
  exact ⟨hbase, hinside, hheader, hstructBytes, hstringBytes⟩

/-- A blob depends on its own bytes only. -/
theorem LiesAt.congr (h : t.LiesAt mem base) (ht : t.WellFormed)
    (heq : ∀ x, base ≤ x → x < base + t.header.totalSize → mem' x = mem x) :
    t.LiesAt mem' base where
  aligned := h.aligned
  inside := h.inside
  header := by
    refine h.header.congr fun x hx hlt => heq x hx ?_
    have hsize := ht.headerInside
    have hlength : t.header.encode.length = 40 := rfl
    omega
  struct := by
    refine h.struct.congr fun x hx hlt => heq x (by omega) ?_
    have hsize := ht.structInside
    have hlength := ht.structSize
    omega
  strings := by
    refine h.strings.congr fun x hx hlt => heq x (by omega) ?_
    have hsize := ht.stringsInside
    have hlength := ht.stringsSize
    omega

theorem has_word {ns : List ℕ} {a i : ℕ} (h : mem.Has a (ns.flatMap word)) (hi : i < ns.length) :
    mem.Has (a + 4 * i) (word ns[i]) := by
  induction ns generalizing a i with
  | nil => exact absurd hi (Nat.not_lt_zero i)
  | cons n ns ih =>
    rw [List.flatMap_cons] at h
    obtain ⟨hfirst, hrest⟩ := Mapped.has_append.mp h
    cases i with
    | zero => exact hfirst
    | succ i =>
      have hnext := ih hrest (Nat.lt_of_succ_lt_succ hi)
      rw [length_word, show a + 4 + 4 * i = a + 4 * (i + 1) by omega] at hnext
      exact hnext

theorem LiesAt.headerField_ok (h : t.LiesAt mem base) (ht : t.WellFormed) {i : ℕ}
    (hi : i < t.header.fields.length) :
    (Dtb.mk mem base).headerField (4 * i) = .ok t.header.fields[i] := by
  have hread := readBytes_has (d := ⟨mem, base⟩) (has_word h.header hi)
  rw [length_word] at hread
  rw [headerField, hread, Checked.ok_bind, ofBytes_word (ht.fields _ (List.getElem_mem hi))]
  rfl

theorem LiesAt.new_ok (h : t.LiesAt mem base) (ht : t.WellFormed) :
    Dtb.new mem base = .ok ⟨mem, base⟩ := by
  have hmagic : (Dtb.mk mem base).headerField 0 = .ok t.header.magic :=
    h.headerField_ok ht (show 0 < 10 by decide)
  have hversion : (Dtb.mk mem base).headerField 20 = .ok t.header.version :=
    h.headerField_ok ht (show 5 < 10 by decide)
  have hle := ht.version
  simp only [Dtb.new, hmagic, hversion, ht.magic, Checked.ok_bind, ne_eq, not_true_eq_false,
    if_false, gt_iff_lt, not_lt.mpr hle]
  rfl

theorem LiesAt.opened (h : t.LiesAt mem base) (ht : t.WellFormed) :
    (Dtb.mk mem base).Opened (base + t.header.offDtStruct)
      (base + t.header.offDtStruct + t.structBlock.length) t.strings where
  structOffset := by
    have hfield : (Dtb.mk mem base).headerField 8 = .ok t.header.offDtStruct :=
      h.headerField_ok ht (show 2 < 10 by decide)
    have hinside := h.inside
    have hstruct := ht.structInside
    rw [getStructOffset, hfield, Checked.ok_bind]
    exact checked_add (show base + t.header.offDtStruct < 2 ^ 64 by omega)
  structSize := by
    have hfield : (Dtb.mk mem base).headerField 36 = .ok t.header.sizeDtStruct :=
      h.headerField_ok ht (show 9 < 10 by decide)
    rw [getStructSize, hfield, ht.structSize, Nat.add_sub_cancel_left]
  start_le := Nat.le_add_right _ _
  stop_lt := by
    have hinside := h.inside
    have hstruct := ht.structInside
    have hsize := ht.structSize
    omega
  mapped x hx hlt := h.struct.mapped hx hlt
  stringSize := by
    have hfield : (Dtb.mk mem base).headerField 32 = .ok t.header.sizeDtStrings :=
      h.headerField_ok ht (show 8 < 10 by decide)
    rw [getStringSize, hfield, ht.stringsSize]
  strings_lt := by
    rw [← ht.stringsSize]
    exact ht.fields _ (by simp [FdtHeader.fields])
  stringOffset := by
    have hfield : (Dtb.mk mem base).headerField 12 = .ok t.header.offDtStrings :=
      h.headerField_ok ht (show 3 < 10 by decide)
    have hinside := h.inside
    have hstrings := ht.stringsInside
    have hsize := ht.stringsSize
    refine ⟨base + t.header.offDtStrings, ?_, h.strings, by omega⟩
    rw [getStringOffset, hfield, Checked.ok_bind]
    exact checked_add (show base + t.header.offDtStrings < 2 ^ 64 by omega)

/-- The address of the empty words and of the token behind the root. -/
def rootEnd (t : DeviceTree) (base : ℕ) : ℕ :=
  content (base + t.header.offDtStruct) t.nops t.name + (encodeProps t.props).length +
    (t.subnodes.encode endNode).length

theorem rootEnd_add (t : DeviceTree) (base : ℕ) : t.rootEnd base + (4 * t.endNops + 4) =
    base + t.header.offDtStruct + t.structBlock.length := by
  have hlength : t.structBlock.length = _ :=
    length_encode_node endTree t.nops t.name t.props t.subnodes (.done t.endNops)
  have hdone : ((Forest.done t.endNops).encode endTree).length = 4 * t.endNops + 4 :=
    length_encode_done _ _
  rw [rootEnd, content]
  omega

/-- The search from the start of the structure block returns the first match in document
order, or lands behind the root. -/
theorem LiesAt.search_root (h : t.LiesAt mem base) (ht : t.WellFormed) {c : Criterion}
    {onName : List UInt8 → Bool} {onProperty : Property → Bool}
    (hc : c.Decides ⟨mem, base⟩ t.strings onName onProperty) {fuel : ℕ}
    (hfuel : t.structBlock.length ≤ fuel + 4) (cells : ℕ × ℕ) :
    Criterion.Finds ⟨mem, base⟩ onName onProperty
      (c.search ⟨mem, base⟩ fuel (base + t.header.offDtStruct) cells.1 cells.2)
      ((inForce ⟨mem, base⟩ t.forest (base + t.header.offDtStruct) cells).find? fun e =>
        isMatch onName onProperty e.1) (t.rootEnd base) := by
  have hopened := h.opened ht
  have haligned : 4 ∣ base + t.header.offDtStruct := dvd_add h.aligned ht.structAligned
  obtain ⟨hnode, hsubValid, -⟩ := ht.nodes
  obtain ⟨hbytes, hsubBytes, -⟩ := has_node h.struct
  have hend := t.rootEnd_add base
  rw [forest, inForce, inForce, List.append_nil]
  rw [rootEnd, content] at hend
  refine hopened.search_node hc hnode le_rfl haligned hbytes ?_ ?_ ?_ cells
  · rw [content]
    omega
  · rw [content]
    omega
  · intro rest u cells hrest
    refine hopened.searchLoop_forest hc hsubValid ?_ ?_ hrest hsubBytes ?_ u cells
    · rw [content]
      omega
    · exact dvd_content_add haligned t.nops t.name t.props
    · rw [content]
      omega

/-- Behind the root there is no node. -/
theorem LiesAt.searchFrom_end (h : t.LiesAt mem base) (ht : t.WellFormed) (c : Criterion)
    {fuel : ℕ} (hfuel : t.structBlock.length ≤ fuel + 4) (ac sc : ℕ) :
    c.searchFrom ⟨mem, base⟩ fuel (t.rootEnd base + 4) ac sc = .ok none := by
  have hopened := h.opened ht
  have hend := t.rootEnd_add base
  have hfull : 8 ≤ (encodeName t.name).length + (t.subnodes.encode endNode).length := by
    have hsub := le_length_encode (show endNode.length = 4 from rfl) t.subnodes
    have hname : (encodeName t.name).length = _ := length_pad (t.name ++ [0])
    rw [List.length_append, List.length_singleton] at hname
    omega
  obtain ⟨fuel, rfl⟩ : ∃ n, fuel = n + 1 := ⟨fuel - 1, by rw [rootEnd, content] at hend; omega⟩
  obtain ⟨-, -, hendBytes⟩ := has_node h.struct
  cases hnops : t.endNops with
  | zero =>
    have hcheck := hopened.checkNode_err (show _ ≤ t.rootEnd base + 4 by omega)
    rw [Criterion.searchFrom, hcheck]
    rfl
  | succ k =>
    have hcheck := hopened.checkNode_ok (show t.rootEnd base + 4 < _ by omega)
    rw [hnops] at hendBytes
    have hsplit : mem.Has (t.rootEnd base) (nop ++ (FlattenedTree.nops k ++ endTree)) := hendBytes
    have hrest : mem.Has (t.rootEnd base + 4) (FlattenedTree.nops k ++ endTree) :=
      (Mapped.has_append.mp hsplit).2
    obtain ⟨fuel, rfl⟩ : ∃ n, fuel = n + 1 := ⟨fuel - 1, by rw [rootEnd, content] at hend; omega⟩
    rw [Criterion.searchFrom, hcheck, attempt_ok, Checked.ok_bind,
      hopened.search_err (show endTree.length = 4 from rfl) (by decide) (by decide)
        (show k < fuel by rw [rootEnd, content] at hend; omega) hrest (by omega)]
    rfl

/-- The cell counts at the root. -/
def defaultCells : ℕ × ℕ := (defaultAddressCells, defaultSizeCells)

/-- A search from the start of the tree returns the first match in document order, with the
cell counts that the search has read until then. -/
theorem LiesAt.searchNode_found (h : t.LiesAt mem base) (ht : t.WellFormed) {c : Criterion}
    {onName : List UInt8 → Bool} {onProperty : Property → Bool}
    (hc : c.Decides ⟨mem, base⟩ t.strings onName onProperty) {fuel : ℕ}
    (hfuel : t.header.sizeDtStruct ≤ fuel) :
    c.searchNode ⟨mem, base⟩ fuel none =
      .ok (((inForce ⟨mem, base⟩ t.forest (base + t.header.offDtStruct) defaultCells).find? fun e =>
        isMatch onName onProperty e.1).map (found ⟨mem, base⟩ onName onProperty)) := by
  have hopened := h.opened ht
  have hend := t.rootEnd_add base
  have hsize := ht.structSize
  have hinside : base + t.header.offDtStruct ≤ t.rootEnd base := by
    rw [rootEnd, content]
    omega
  obtain ⟨fuel, rfl⟩ : ∃ n, fuel = n + 1 := ⟨fuel - 1, by omega⟩
  have hsearch := h.search_root ht hc (show t.structBlock.length ≤ fuel + 4 by omega) defaultCells
  have hcheck := hopened.checkNode_ok (show base + t.header.offDtStruct < _ by omega)
  simp only [Criterion.searchNode, hopened.structOffset, Checked.ok_bind]
  rw [Criterion.searchFrom, hcheck, attempt_ok, Checked.ok_bind]
  cases hfind : (inForce ⟨mem, base⟩ t.forest (base + t.header.offDtStruct) defaultCells).find?
      fun e => isMatch onName onProperty e.1 with
  | some e =>
    rw [hfind] at hsearch
    obtain ⟨p, heq⟩ := hsearch
    rw [show c.search ⟨mem, base⟩ fuel (base + t.header.offDtStruct) defaultAddressCells
      defaultSizeCells = _ from heq]
    rfl
  | none =>
    rw [hfind] at hsearch
    have hadd : checked (Checked.add 64 (t.rootEnd base) fdtTokenByte) =
        .ok (t.rootEnd base + 4) := by
      have hstop := hopened.stop_lt
      exact checked_add (show t.rootEnd base + 4 < 2 ^ 64 by omega)
    rw [show c.search ⟨mem, base⟩ fuel (base + t.header.offDtStruct) defaultAddressCells
      defaultSizeCells = _ from hsearch, attempt_ok, Checked.ok_bind]
    simp only [hadd, Checked.ok_bind]
    exact h.searchFrom_end ht c (by omega) _ _

/-- The match without the cell counts. -/
theorem LiesAt.searchNode_ok (h : t.LiesAt mem base) (ht : t.WellFormed) {c : Criterion}
    {onName : List UInt8 → Bool} {onProperty : Property → Bool}
    (hc : c.Decides ⟨mem, base⟩ t.strings onName onProperty) {fuel : ℕ}
    (hfuel : t.header.sizeDtStruct ≤ fuel) :
    ∃ r, c.searchNode ⟨mem, base⟩ fuel none = .ok r ∧
      r.map DtbNode.address =
        ((t.nodes base).find? (isMatch onName onProperty)).map Node.address := by
  refine ⟨_, h.searchNode_found ht hc hfuel, ?_⟩
  rw [nodes, ← inForce_fst ⟨mem, base⟩ t.forest _ defaultCells, List.find?_map, Option.map_map,
    Option.map_map]
  congr 1
  ext e
  exact found_address _ _ _ e

end DeviceTree

/-- In a well-formed blob both searches return the first match in document order, with the
address of its first token, and `None` exactly when there is no match. The result is the
same whatever lies outside the blob, unmapped memory included. -/
theorem search_first (t : DeviceTree) (ht : t.WellFormed) (mem : Mapped) (base : ℕ)
    (h : t.LiesAt mem base) (name compatible : List UInt8) (hname : 0 ∉ name)
    (hcompatible : 0 ∉ compatible) (fuel : ℕ) (hfuel : t.header.sizeDtStruct ≤ fuel)
    (mem' : Mapped)
    (heq : ∀ x, base ≤ x → x < base + t.header.totalSize → mem' x = mem x) :
    ∃ d, new mem' base = .ok d ∧
      (∃ r, d.searchNode fuel name none = .ok r ∧
        r.map DtbNode.address =
          ((t.nodes base).find? fun n => named name n.name).map Node.address) ∧
      ∃ r, d.searchNodeByCompatible fuel compatible none = .ok r ∧
        r.map DtbNode.address =
          ((t.nodes base).find? fun n =>
            n.props.any (listsCompatible t.strings compatible)).map Node.address := by
  have h' := h.congr ht heq
  refine ⟨⟨mem', base⟩, h'.new_ok ht, ?_, ?_⟩
  · obtain ⟨r, hr, haddress⟩ := h'.searchNode_ok ht (byName_decides _ t.strings hname) hfuel
    have hmatch : isMatch (named name) (fun _ => false) = fun n => named name n.name := by
      ext n
      simp [isMatch]
    exact ⟨r, hr, hmatch ▸ haddress⟩
  · obtain ⟨r, hr, haddress⟩ :=
      h'.searchNode_ok ht ((h'.opened ht).byCompatible_decides hcompatible) hfuel
    have hmatch : isMatch (fun _ => false) (listsCompatible t.strings compatible) =
        fun n => n.props.any (listsCompatible t.strings compatible) := by
      ext n
      simp [isMatch]
    exact ⟨r, hr, hmatch ▸ haddress⟩

/-- A root with the nodes `memory@0` and `uart`, the second with the compatible devices
`arm` and `uart`. -/
def uartTree : DeviceTree where
  header := ⟨0xd00dfeed, 143, 40, 132, 40, 17, 16, 0, 11, 92⟩
  nops := 0
  name := []
  props := []
  subnodes :=
    .node 1 [0x6d, 0x65, 0x6d, 0x6f, 0x72, 0x79, 0x40, 0x30] [] (.done 0)
      (.node 0 [0x75, 0x61, 0x72, 0x74]
        [⟨1, 0, [0x61, 0x72, 0x6d, 0x00, 0x75, 0x61, 0x72, 0x74, 0x00]⟩] (.done 0) (.done 1))
  endNops := 1
  strings := propCompatible ++ [0]

theorem uartTree_wellFormed : uartTree.WellFormed where
  magic := rfl
  version := by decide
  fields := by decide
  headerInside := by decide
  structAligned := by decide
  structSize := by decide
  structInside := by decide
  stringsSize := by decide
  stringsInside := by decide
  nodes := by
    have huart : ValidProperty uartTree.strings
        ⟨1, 0, [0x61, 0x72, 0x6d, 0x00, 0x75, 0x61, 0x72, 0x74, 0x00]⟩ :=
      ⟨by decide, by decide, fun _ => ⟨[[0x61, 0x72, 0x6d], [0x75, 0x61, 0x72, 0x74]], by decide, rfl⟩⟩
    have hnone : ∀ q ∈ ([] : List Property), ValidProperty uartTree.strings q :=
      fun q hq => absurd hq List.not_mem_nil
    exact ⟨⟨by decide, hnone⟩, ⟨⟨by decide, hnone⟩, trivial,
      ⟨by decide, by simpa using huart⟩, trivial, trivial⟩, trivial⟩

theorem uartTree_liesAt : uartTree.LiesAt (Mapped.ofBytes 0x48000000 uartTree.blob) 0x48000000 :=
  uartTree_wellFormed.blob_liesAt (by decide) (by decide) rfl rfl

/-- `uart` is found by either search, with nothing but the blob mapped. -/
theorem search_first_uart :
    named [0x75, 0x61, 0x72, 0x74] [0x75, 0x61, 0x72, 0x74] ∧
    ∃ d, new (Mapped.ofBytes 0x48000000 uartTree.blob) 0x48000000 = .ok d ∧
      (∃ r, d.searchNode 92 [0x75, 0x61, 0x72, 0x74] none = .ok r ∧
        r.map DtbNode.address =
          ((uartTree.nodes 0x48000000).find? fun n => named [0x75, 0x61, 0x72, 0x74] n.name).map
            Node.address) ∧
      ∃ r, d.searchNodeByCompatible 92 [0x61, 0x72, 0x6d] none = .ok r ∧
        r.map DtbNode.address =
          ((uartTree.nodes 0x48000000).find? fun n =>
            n.props.any (listsCompatible uartTree.strings [0x61, 0x72, 0x6d])).map Node.address :=
  ⟨by decide, search_first uartTree uartTree_wellFormed _ _ uartTree_liesAt
    [0x75, 0x61, 0x72, 0x74] [0x61, 0x72, 0x6d] (by decide) (by decide) 92 (by decide) _
    fun _ _ _ => rfl⟩

end Min1visor.Dtb
