import Min1visor.DtbTermination
import Min1visor.DtbTrail

/-!
# The devices that the boot finds

The boot asks for one compatible device after another: for its UART until one is
operational, for its block device until the driver accepts one that is. In a tree whose
matches are all reached, both loops look at the matches in document order.
-/
namespace Min1visor.Dtb
open FlattenedTree

/-! ## The status of a node -/

/-- The five bytes that are compared; behind a shorter value there are zeros. -/
def okay (value : List UInt8) : Bool := (value ++ List.replicate 5 0).take 5 == propStatusOkay

/-- A node without a status, or whose status is `okay`. -/
def operational (strings : List UInt8) (n : Node) : Bool :=
  match n.props.find? (isNamed strings propStatus) with
  | none => true
  | some q => okay q.value

/-- A short value is padded, and what follows the padding starts with a zero. -/
theorem okay_eq (value rest : List UInt8) :
    ((pad value ++ 0 :: rest).take 5 == propStatusOkay) = okay value := by
  match value with
  | [] => simp [okay, pad, propStatusOkay]
  | [a] => simp [okay, pad, propStatusOkay]
  | [a, b] => simp [okay, pad, propStatusOkay]
  | [a, b, c] => simp [okay, pad, propStatusOkay]
  | [a, b, c, e] => simp [okay, pad, propStatusOkay]
  | a :: b :: c :: e :: f :: more => simp [okay, pad]

variable {d : Dtb} {start stop : ℕ} {strings : List UInt8}

/-- The bytes of the status are read one by one. -/
theorem readU8_take {v n : ℕ} {bs : List UInt8} (hhas : d.mem.Has v bs) (hlen : n ≤ bs.length)
    (hlt : v + n < 2 ^ 64) :
    ((List.range n).mapM fun i => do d.readU8 (← checked (Checked.add 64 v i))) =
      .ok (bs.take n) := by
  induction n with
  | zero => rfl
  | succ n ih =>
    have hread : (do d.readU8 (← checked (Checked.add 64 v n))) = .ok bs[n] := by
      rw [checked_add (by omega), Checked.ok_bind, readU8, hhas.getElem hlen]
    rw [List.range_succ, List.mapM_append, ih (by omega) (by omega), Checked.ok_bind,
      List.mapM_cons, hread, Checked.ok_bind, List.mapM_nil, ← List.take_concat_get' bs n hlen]
    rfl

theorem encode_property_head (q : Property) : ∃ rest, q.encode = 0 :: rest := by
  rw [Property.encode]
  cases q.nops with
  | zero => exact ⟨_, rfl⟩
  | succ k => exact ⟨_, rfl⟩

theorem encode_head {closing : List UInt8} (hclosing : ∃ rest, closing = 0 :: rest) (t : Forest) :
    ∃ rest, t.encode closing = 0 :: rest := by
  obtain ⟨rest, rfl⟩ := hclosing
  cases t with
  | done k =>
    cases k with
    | zero => exact ⟨_, rfl⟩
    | succ k => exact ⟨_, rfl⟩
  | node k name props subnodes next =>
    cases k with
    | zero => exact ⟨_, rfl⟩
    | succ k => exact ⟨_, rfl⟩

/-- The first property of a name, with the bytes behind it. -/
theorem Opened.getPropertyFrom_value (h : d.Opened start stop strings) {name : List UInt8}
    (hname : 0 ∉ name) {props : List Property} (hprops : ∀ q ∈ props, ValidProperty strings q)
    {q : Property} (hfind : props.find? (isNamed strings name) = some q) {a fuel : ℕ}
    (hle : start ≤ a) (ha : 4 ∣ a) (hfuel : (encodeProps props).length ≤ fuel)
    {tail : List UInt8} (hhas : d.mem.Has a (encodeProps props ++ tail)) (htail : 4 ≤ tail.length)
    (hlt : a + (encodeProps props).length + tail.length ≤ stop) (cells : ℕ × ℕ) :
    ∃ info post, d.getPropertyFrom name fuel a cells.1 cells.2 = .ok info ∧
      d.mem.Has info.address (pad q.value ++ (encodeProps post ++ tail)) ∧
      info.address + (pad q.value).length + tail.length ≤ stop := by
  induction props generalizing a fuel cells with
  | nil => simp at hfind
  | cons r props ih =>
    rw [List.forall_mem_cons] at hprops
    have hlength : (encodeProps (r :: props)).length = r.encode.length + (encodeProps props).length :=
      by rw [encodeProps_cons, List.length_append]
    have hfirst := length_encode_property r
    have hdvd := dvd_length_pad r.value
    rw [encodeProps_cons, List.append_assoc] at hhas
    obtain ⟨hr, hrest⟩ := Mapped.has_append.mp hhas
    obtain ⟨fuel, rfl⟩ : ∃ n, fuel = n + 1 := ⟨fuel - 1, by omega⟩
    rw [h.getPropertyFrom_property hname hprops.1 hle ha (show r.nops < fuel by omega) hr (by omega)]
    rw [List.find?_cons] at hfind
    cases hnamed : isNamed strings name r with
    | true =>
      rw [hnamed] at hfind
      obtain rfl : r = q := Option.some.inj hfind
      refine ⟨_, props, if_pos rfl, ?_, ?_⟩
      · rw [Property.encode, List.append_assoc, Mapped.has_append] at hhas
        have hbehind := hhas.2
        simp only [List.length_append, length_nops, length_word] at hbehind
        exact hbehind
      · dsimp only
        omega
    | false =>
      rw [hnamed] at hfind
      rw [if_neg Bool.false_ne_true]
      exact ih hprops.2 hfind (show start ≤ a + r.encode.length by omega) (by omega)
        (show (encodeProps props).length ≤ fuel by omega) hrest (by omega) (d.cellsBehind r a cells)

/-- A node of the structure block, in front of its subnodes and of what comes after it. -/
structure Located (d : Dtb) (start stop : ℕ) (strings : List UInt8) (n : Node) : Prop where
  valid : ∀ q ∈ n.props, ValidProperty strings q
  aligned : 4 ∣ n.address
  start_le : start ≤ n.address
  behind : ∃ (subnodes next : Forest) (closing : List UInt8),
    (closing = endNode ∨ closing = endTree) ∧
    d.mem.Has n.address (encodeProps n.props ++
      (subnodes.encode endNode ++ next.encode closing)) ∧
    n.address + (encodeProps n.props).length + (subnodes.encode endNode).length +
      (next.encode closing).length ≤ stop

theorem located_of_mem {closing : List UInt8} (hclosing : closing = endNode ∨ closing = endTree)
    {t : Forest} (hvalid : t.Forall (ValidNode strings)) {a : ℕ} (hle : start ≤ a) (ha : 4 ∣ a)
    (hhas : d.mem.Has a (t.encode closing)) (hlt : a + (t.encode closing).length ≤ stop) :
    ∀ n ∈ t.nodes a, d.Located start stop strings n := by
  induction t generalizing a closing with
  | done k => exact fun n hn => absurd hn List.not_mem_nil
  | node k name props subnodes next ihsub ihnext =>
    obtain ⟨hnode, hsubValid, hnextValid⟩ := hvalid
    obtain ⟨hbytes, hsubBytes, hnextBytes⟩ := has_node hhas
    have hcontent : content a k name = a + 4 * k + 4 + (encodeName name).length := rfl
    rw [add_length_encode_node] at hlt
    intro n hn
    rw [Forest.nodes, List.mem_cons, List.mem_append] at hn
    rcases hn with rfl | hn | hn
    · refine ⟨hnode.2, dvd_content ha k name, show start ≤ content a k name by omega,
        subnodes, next, closing, hclosing, ?_, hlt⟩
      rw [Mapped.has_append, Mapped.has_append]
      exact ⟨has_props hbytes, hsubBytes, hnextBytes⟩
    · exact ihsub (.inl rfl) hsubValid (by omega) (dvd_content_add ha k name props) hsubBytes
        (by omega) n hn
    · exact ihnext hclosing hnextValid (by omega) (dvd_content_add_add ha k name props subnodes)
        hnextBytes (by omega) n hn

/-- The reader finds a node operational that is. -/
theorem Located.isNodeOperational_eq {n : Node} (hn : d.Located start stop strings n)
    (h : d.Opened start stop strings) {fuel : ℕ} (hfuel : stop < start + fuel) {m : DtbNode}
    (hm : m.address = n.address) :
    d.isNodeOperational fuel m = .ok (operational strings n) := by
  have hstop := h.stop_lt
  have hstart := hn.start_le
  obtain ⟨subnodes, next, closing, hclosing, hhas, hlt⟩ := hn.behind
  have hfour : closing.length = 4 := by
    rcases hclosing with rfl | rfl
    · rfl
    · rfl
  have hnext := le_length_encode hfour next
  have hsub := le_length_encode (show endNode.length = 4 from rfl) subnodes
  rw [isNodeOperational, getProperty, hm, operational]
  cases hfind : n.props.find? (isNamed strings propStatus) with
  | none =>
    obtain ⟨k, token, rest, htoken, hkind⟩ := encode_token endNode subnodes
    have hlength : token.length = 4 := by
      rcases hkind with rfl | rfl
      · rfl
      · rfl
    have hother : token ≠ nop ∧ token ≠ prop := by
      rcases hkind with rfl | rfl
      · decide
      · decide
    obtain ⟨hprops, hrest⟩ := Mapped.has_append.mp hhas
    rw [htoken, List.append_assoc] at hrest
    rw [htoken, List.length_append, List.length_append, length_nops, hlength] at hlt
    have hget := h.getPropertyFrom_missing (show 0 ∉ propStatus by decide) hn.valid hfind hstart
      hn.aligned (show _ < fuel by omega) hprops hlength hother.1 hother.2
      (Mapped.has_append.mp hrest).1 (by omega) (m.addressCells, m.sizeCells)
    rw [hget]
    rfl
  | some q =>
    obtain ⟨info, post, hget, hvalue, hend⟩ := h.getPropertyFrom_value
      (show 0 ∉ propStatus by decide) hn.valid hfind hstart hn.aligned (show _ ≤ fuel by omega)
      hhas (by rw [List.length_append]; omega) (by rw [List.length_append]; omega)
      (m.addressCells, m.sizeCells)
    have hzero : ∃ rest, encodeProps post ++ (subnodes.encode endNode ++ next.encode closing) =
        0 :: rest := by
      cases post with
      | nil =>
        obtain ⟨rest, hrest⟩ := encode_head (show ∃ rest, endNode = 0 :: rest from ⟨_, rfl⟩) subnodes
        exact ⟨rest ++ next.encode closing, by rw [hrest]; rfl⟩
      | cons r post =>
        obtain ⟨rest, hrest⟩ := encode_property_head r
        exact ⟨rest ++ (encodeProps post ++ (subnodes.encode endNode ++ next.encode closing)), by
          rw [encodeProps_cons, hrest, List.append_assoc]; rfl⟩
    obtain ⟨rest, hrest⟩ := hzero
    have hlen := congrArg List.length hrest
    rw [List.length_append, List.length_append, List.length_cons] at hlen
    rw [List.length_append] at hend
    rw [hrest] at hvalue
    have hfive := readU8_take (n := 5) hvalue (by rw [List.length_append, List.length_cons]; omega)
      (by omega)
    rw [hget]
    simp only [attempt_ok, Checked.ok_bind, hfive, okay_eq]
    rfl

namespace DeviceTree

variable {t : DeviceTree} {mem : Mapped} {base : ℕ}

theorem LiesAt.located (h : t.LiesAt mem base) (ht : t.WellFormed)
    {P : List UInt8 → List Property → Bool} {n : Node} (hn : n ∈ t.visited base P) :
    (Dtb.mk mem base).Located (base + t.header.offDtStruct)
      (base + t.header.offDtStruct + t.structBlock.length) t.strings n :=
  located_of_mem (.inr rfl) ht.nodes le_rfl (dvd_add h.aligned ht.structAligned) h.struct le_rfl n
    (mem_nodes_of_visited hn)

end DeviceTree

/-! ## The loops of the boot -/

/-- What lets a loop judge the nodes that it visits. -/
def Judges (d : Dtb) (strings : List UInt8) (size : ℕ) (es : List (Node × DtbNode)) : Prop :=
  ∀ e ∈ es, ∀ fuel, size < fuel → d.isNodeOperational fuel e.2 = .ok (operational strings e.1)

section Loops
variable {d : Dtb} {size : ℕ} {es : List (Node × DtbNode)} {currentNode : Option DtbNode}

/-- The UART is the first operational node that is visited. -/
theorem Criterion.Visits.initPl011SerialPort
    (h : (byCompatible armPl011).Visits d size (es.map Prod.snd) currentNode)
    (hjudges : Judges d strings size es) {fuel : ℕ} (hfuel : size + es.length + 1 < fuel) :
    d.initPl011SerialPort fuel currentNode =
      .ok ((es.find? fun e => operational strings e.1).map Prod.snd) := by
  induction es generalizing currentNode fuel with
  | nil =>
    obtain ⟨fuel, rfl⟩ : ∃ n, fuel = n + 1 := ⟨fuel - 1, by omega⟩
    rw [List.length_nil] at hfuel
    have hnone : d.searchNodeByCompatible fuel armPl011 currentNode = .ok none :=
      h fuel (by omega)
    rw [Dtb.initPl011SerialPort, hnone]
    rfl
  | cons e es ih =>
    obtain ⟨fuel, rfl⟩ : ∃ n, fuel = n + 1 := ⟨fuel - 1, by omega⟩
    rw [List.length_cons] at hfuel
    have hfound : d.searchNodeByCompatible fuel armPl011 currentNode = .ok (some e.2) :=
      h.1 fuel (by omega)
    have hstatus := hjudges e List.mem_cons_self fuel (by omega)
    have hrest := ih h.2 (fun e' he' => hjudges e' (List.mem_cons_of_mem _ he'))
      (show size + es.length + 1 < fuel by omega)
    rw [Dtb.initPl011SerialPort, hfound, Checked.ok_bind, List.find?_cons]
    simp only [hstatus, Checked.ok_bind]
    cases operational strings e.1 with
    | true => rfl
    | false => exact hrest

variable {σ β : Type} (new : ℕ → σ → Except Panic (Option β) × σ)

/-- Hand the base addresses to the driver until it accepts one. A node without one is fatal. -/
def firstAccepted : List (Option (ℕ × ℕ)) → σ → Except Stop (Option β × σ)
  | [], s => .ok (none, s)
  | none :: _, _ => .error (.panic .unwrapNone)
  | some (baseAddress, _) :: regs, s => do
    let (blk, s) := new baseAddress s
    match ← blk.mapError .panic with
    | some blk => return (some blk, s)
    | none => firstAccepted regs s

/-- The driver is tried on the operational nodes that are visited, at their base addresses. -/
theorem Criterion.Visits.initVirtioBlk
    (h : (byCompatible virtioMmio).Visits d size (es.map Prod.snd) currentNode)
    (hjudges : Judges d strings size es) {reg : Node × DtbNode → Option (ℕ × ℕ)}
    (hreg : ∀ e ∈ es, ∀ fuel, size < fuel → d.readRegProperty fuel e.2 0 = .ok (reg e)) {fuel : ℕ}
    (hfuel : size + es.length + 1 < fuel) (s : σ) :
    d.initVirtioBlk new fuel currentNode s =
      firstAccepted new ((es.filter fun e => operational strings e.1).map reg) s := by
  induction es generalizing currentNode fuel s with
  | nil =>
    obtain ⟨fuel, rfl⟩ : ∃ n, fuel = n + 1 := ⟨fuel - 1, by omega⟩
    rw [List.length_nil] at hfuel
    have hnone : d.searchNodeByCompatible fuel virtioMmio currentNode = .ok none :=
      h fuel (by omega)
    rw [Dtb.initVirtioBlk, hnone]
    rfl
  | cons e es ih =>
    obtain ⟨fuel, rfl⟩ : ∃ n, fuel = n + 1 := ⟨fuel - 1, by omega⟩
    rw [List.length_cons] at hfuel
    rw [List.forall_mem_cons] at hreg
    have hfound : d.searchNodeByCompatible fuel virtioMmio currentNode = .ok (some e.2) :=
      h.1 fuel (by omega)
    have hstatus := hjudges e List.mem_cons_self fuel (by omega)
    have hrest := ih h.2 (fun e' he' => hjudges e' (List.mem_cons_of_mem _ he')) hreg.2
      (show size + es.length + 1 < fuel by omega)
    rw [Dtb.initVirtioBlk, hfound, Checked.ok_bind]
    simp only [hstatus, Checked.ok_bind, hreg.1 fuel (by omega), hrest]
    cases hoperational : operational strings e.1 with
    | false => simp [hoperational]
    | true =>
      simp only [List.filter_cons, hoperational, if_true, List.map_cons]
      cases reg e with
      | none => rfl
      | some pair => rfl

end Loops

/-! ## The boot on a well-formed tree -/

/-- The nodes with a compatible device. -/
def compatibleWith (strings compatible : List UInt8) (_ : List UInt8) (props : List Property) : Bool :=
  props.any (listsCompatible strings compatible)

theorem decision_compatible (strings compatible : List UInt8) :
    decision (fun _ => false) (listsCompatible strings compatible) =
      compatibleWith strings compatible := by
  ext name props
  simp [decision, compatibleWith]

/-- The pair that the reader takes from `reg` of a result: with its counts, and with those that
stand in the node in front of `reg`. -/
def resultReg (strings : List UInt8) (e : Node × DtbNode) : Option (ℕ × ℕ) :=
  regPair strings e.1 (declared strings (through (isNamed strings propReg) e.1.props)
    (e.2.addressCells, e.2.sizeCells)) 0

namespace DeviceTree
variable {t : DeviceTree} {mem : Mapped} {base : ℕ}

theorem LiesAt.judges (h : t.LiesAt mem base) (ht : t.WellFormed) {c : Criterion}
    {P : List UInt8 → List Property → Bool} {es : List (Node × DtbNode)}
    (htrails : c.Trails ⟨mem, base⟩ t.header.sizeDtStruct es (t.visited base P) none) :
    Judges ⟨mem, base⟩ t.strings t.header.sizeDtStruct es := by
  intro e he fuel hfuel
  have hsize := ht.structSize
  have hvisited : e.1 ∈ t.visited base P := by
    rw [← htrails.nodes]
    exact List.mem_map_of_mem he
  exact (h.located ht hvisited).isNodeOperational_eq (h.opened ht) (by omega)
    (htrails.addresses e he)

/-- With small counts `reg` of a visited node is read as the trail has it. -/
theorem LiesAt.reads_trail (h : t.LiesAt mem base) (ht : t.WellFormed) (hsmall : t.SmallCells)
    {c : Criterion} {onProperty : Property → Bool}
    (hc : c.Decides ⟨mem, base⟩ t.strings (fun _ => false) onProperty) :
    ∀ e ∈ t.trail base onProperty, ∀ fuel, t.header.sizeDtStruct < fuel →
      (Dtb.mk mem base).readRegProperty fuel e.2 0 = .ok (resultReg t.strings e) := by
  intro e he fuel hfuel
  have htrails := h.trails_carried ht hsmall hc
  have hvisited : e.1 ∈ t.visited base fun _ props => props.any onProperty := by
    rw [← htrails.nodes]
    exact List.mem_map_of_mem he
  have hstands : (Dtb.mk mem base).Stands (base + t.header.offDtStruct)
      (base + t.header.offDtStruct + t.structBlock.length) t.strings e.1 :=
    stands_of_mem ht.nodes hsmall le_rfl (dvd_add h.aligned ht.structAligned) h.struct le_rfl e.1
      (mem_nodes_of_visited hvisited)
  have hcells := hsmall.trail_small base onProperty e he
  have hsize := ht.structSize
  have hstart := hstands.start_le
  have hread := hstands.readRegProperty_eq (h.opened ht) (show _ < e.1.address + fuel by omega) hcells 0
  have hnode : e.2 = ⟨e.1.address, e.2.addressCells, e.2.sizeCells⟩ := by
    rw [← htrails.addresses e he]
  rw [hnode, hread, resultReg, regPair]
  cases e.1.props.find? (isNamed t.strings propReg) with
  | none => rfl
  | some q =>
    have hown := declared_small (hstands.small.through (isNamed t.strings propReg)) hcells
    have hlow := hown.1
    have hhigh := hown.2
    dsimp only
    rw [if_pos (by omega)]
    rfl

end DeviceTree

/-- The UART of the boot is the first operational one of the nodes that are visited, and in a
resumable tree the first one of all. Without one the boot ends with its error. -/
theorem initPl011SerialPort_first (t : DeviceTree) (ht : t.WellFormed) (mem : Mapped) (base : ℕ)
    (h : t.LiesAt mem base) (fuel : ℕ) (hfuel : t.header.sizeDtStruct +
      (t.visited base (compatibleWith t.strings armPl011)).length + 1 < fuel) :
    (∃ r, (Dtb.mk mem base).initPl011SerialPort fuel none = .ok r ∧ r.map DtbNode.address =
      ((t.visited base (compatibleWith t.strings armPl011)).find?
        (operational t.strings)).map Node.address) ∧
    (resumable (compatibleWith t.strings armPl011) t.forest false false = true →
      t.visited base (compatibleWith t.strings armPl011) =
        outermost (compatibleWith t.strings armPl011) t.forest (base + t.header.offDtStruct)) := by
  refine ⟨?_, DeviceTree.visited_of_resumable⟩
  have htrails := h.trails_exact ht
    ((h.opened ht).byCompatible_decides (show 0 ∉ armPl011 by decide))
  rw [decision_compatible] at htrails
  have hlength := congrArg List.length htrails.nodes
  rw [List.length_map] at hlength
  refine ⟨_, htrails.visits.initPl011SerialPort (h.judges ht htrails) (by omega), ?_⟩
  rw [← htrails.nodes, List.find?_map, Option.map_map, Option.map_map]
  exact Option.map_congr fun e he => htrails.addresses e (List.mem_of_find?_eq_some he)

/-- Devices of a board, the first UART and the second block device switched off. -/
def boardProps : List (List Property) :=
  let compatible := fun device => Property.mk 0 0 (device ++ [0])
  let disabled := Property.mk 0 11 [0x66, 0x61, 0x69, 0x6c, 0]
  let reg := fun base => Property.mk 0 18 (word 0 ++ word base ++ word 0x200)
  [[disabled, compatible armPl011], [compatible armPl011],
    [compatible virtioMmio, reg 0x0a000000], [disabled, compatible virtioMmio],
    [compatible virtioMmio, reg 0x0a000200]]

def boardTree : DeviceTree where
  header := ⟨0xd00dfeed, 346, 40, 324, 40, 17, 16, 0, 22, 284⟩
  nops := 0
  name := []
  props := []
  subnodes := boardProps.foldr (fun props next => .node 0 [0x64] props (.done 0) next) (.done 0)
  endNops := 0
  strings := propCompatible ++ [0] ++ propStatus ++ [0] ++ propReg ++ [0]

theorem boardProps_valid : ∀ props ∈ boardProps, ∀ q ∈ props, ValidProperty boardTree.strings q := by
  have hlist : ∀ device : List UInt8, 0 ∉ device → device.length < 100 →
      ValidProperty boardTree.strings ⟨0, 0, device ++ [0]⟩ := by
    intro device hdevice hlength
    refine ⟨show 0 ∈ boardTree.strings.drop 0 by decide, ?_, fun _ =>
      ⟨[device], by simpa using hdevice, by simp [joinStrings]⟩⟩
    rw [List.length_append, List.length_singleton]
    omega
  have harm := hlist armPl011 (by decide) (by decide)
  have hvirtio := hlist virtioMmio (by decide) (by decide)
  have hdisabled : ValidProperty boardTree.strings ⟨0, 11, [0x66, 0x61, 0x69, 0x6c, 0]⟩ :=
    ⟨by decide, by decide, fun hname => absurd hname (by decide)⟩
  have hreg : ∀ base, ValidProperty boardTree.strings
      ⟨0, 18, word 0 ++ word base ++ word 0x200⟩ := fun base =>
    ⟨show 0 ∈ boardTree.strings.drop 18 by decide, by simp, fun hname =>
      absurd hname (show ¬ stringAt boardTree.strings 18 = propCompatible by decide)⟩
  simp only [boardProps, List.forall_mem_cons, List.not_mem_nil, false_implies, implies_true,
    and_true]
  exact ⟨⟨hdisabled, harm⟩, harm, ⟨hvirtio, hreg _⟩, ⟨hdisabled, hvirtio⟩, hvirtio, hreg _⟩

theorem boardTree_wellFormed : boardTree.WellFormed where
  magic := rfl
  version := by decide
  fields := by decide
  headerInside := by decide
  structAligned := by decide
  structSize := by decide +kernel
  structInside := by decide
  stringsSize := by decide
  stringsInside := by decide
  nodes := by
    have hsubnodes : ∀ all : List (List Property),
        (∀ props ∈ all, ∀ q ∈ props, ValidProperty boardTree.strings q) →
        Forest.Forall (ValidNode boardTree.strings)
          (all.foldr (fun props next => .node 0 [0x64] props (.done 0) next) (.done 0)) := by
      intro all hall
      induction all with
      | nil => trivial
      | cons props all ih =>
        rw [List.forall_mem_cons] at hall
        exact ⟨⟨by decide, hall.1⟩, trivial, ih hall.2⟩
    exact ⟨⟨by decide, fun q hq => absurd hq List.not_mem_nil⟩,
      hsubnodes boardProps boardProps_valid, trivial⟩

theorem boardTree_liesAt : boardTree.LiesAt (Mapped.ofBytes 0x48000000 boardTree.blob) 0x48000000 :=
  boardTree_wellFormed.blob_liesAt (by decide) (by decide) rfl rfl

theorem initPl011SerialPort_first_board : ∃ r,
    (Dtb.mk (Mapped.ofBytes 0x48000000 boardTree.blob) 0x48000000).initPl011SerialPort 500 none =
      .ok r ∧ r.map DtbNode.address = some 0x48000070 := by
  obtain ⟨⟨r, hr, haddress⟩, -⟩ := initPl011SerialPort_first boardTree boardTree_wellFormed _ _
    boardTree_liesAt 500 (by decide)
  refine ⟨r, hr, haddress.trans ?_⟩
  decide

/-- In a tree with counts of at most 2 the driver of the block device is handed the addresses in
`reg` of the operational nodes that are visited, in document order and until it accepts one. -/
theorem initVirtioBlk_first {σ β : Type} (new : ℕ → σ → Except Panic (Option β) × σ)
    (t : DeviceTree) (ht : t.WellFormed) (hsmall : t.SmallCells) (mem : Mapped) (base : ℕ)
    (h : t.LiesAt mem base) (fuel : ℕ) (hfuel : t.header.sizeDtStruct +
      (t.trail base (listsCompatible t.strings virtioMmio)).length + 1 < fuel) (s : σ) :
    (t.trail base (listsCompatible t.strings virtioMmio)).map Prod.fst =
        t.visited base (compatibleWith t.strings virtioMmio) ∧
      (Dtb.mk mem base).initVirtioBlk new fuel none s = firstAccepted new
        (((t.trail base (listsCompatible t.strings virtioMmio)).filter fun e =>
          operational t.strings e.1).map (resultReg t.strings)) s := by
  have hdecides := (h.opened ht).byCompatible_decides (show 0 ∉ virtioMmio by decide)
  have htrails := h.trails_carried ht hsmall hdecides
  exact ⟨htrails.nodes, htrails.visits.initVirtioBlk new (h.judges ht htrails)
    (h.reads_trail ht hsmall hdecides) hfuel s⟩

theorem boardTree_smallCells : boardTree.SmallCells := by
  have hnone : ∀ props ∈ boardProps, SmallCells boardTree.strings props := by
    intro props hprops q hq hname
    exfalso
    revert hname
    revert hq
    revert q
    revert props
    decide
  have hsubnodes : ∀ all : List (List Property),
      (∀ props ∈ all, SmallCells boardTree.strings props) →
      Forest.Forall (fun _ props => SmallCells boardTree.strings props)
        (all.foldr (fun props next => .node 0 [0x64] props (.done 0) next) (.done 0)) := by
    intro all hall
    induction all with
    | nil => trivial
    | cons props all ih =>
      rw [List.forall_mem_cons] at hall
      exact ⟨hall.1, trivial, ih hall.2⟩
  exact ⟨fun q hq => absurd hq List.not_mem_nil, hsubnodes boardProps hnone, trivial⟩

/-- A driver that accepts no device is tried on both that are switched on. -/
theorem initVirtioBlk_first_board :
    (Dtb.mk (Mapped.ofBytes 0x48000000 boardTree.blob) 0x48000000).initVirtioBlk
      (fun base tried => (.ok (none : Option Unit), tried ++ [base])) 500 none [] =
        .ok (none, [0x0a000000, 0x0a000200]) := by
  obtain ⟨-, hrun⟩ := initVirtioBlk_first
    (fun base tried => (.ok (none : Option Unit), tried ++ [base])) boardTree boardTree_wellFormed
    boardTree_smallCells _ _ boardTree_liesAt 500 (by decide +kernel) []
  rw [hrun]
  decide +kernel

end Min1visor.Dtb
