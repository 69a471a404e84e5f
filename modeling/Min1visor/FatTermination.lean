import Min1visor.FatFaults

/-!
# Whether the reader and the writer return

The outer loop of both ends only when the bytes so far are exactly the length, or when the
chain ends. Behind a break of the chain a turn takes the whole length for what is left and
moves past it. On a chain that leads back to itself the loop then never ends: it goes on
through memory until an address overflows. A call returns exactly when the turns it comes to
are finitely many, which is told by the shape of the chain, and their numbers fit their types.
-/
namespace Min1visor.Fat.Fat32
open Relation LoopRuns

variable {η : Type} {fs : Fat32}

/-! ## The walk along the chain -/

/-- Where a turn from a cluster on leaves the loop, or `none` where the call returns. -/
def advance (fs : Fat32) (least n x dataOffset bufferPointer : ℕ) : Option (ℕ × ℕ) :=
  match fs.linkedPiece least n x dataOffset with
  | none => none
  | some p =>
    if n = bufferPointer + p.bytes then none
    else (fs.getNextCluster (x + p.clusters - 1)).map fun next => (next, bufferPointer + p.bytes)

/-- The loop comes to an end, if nothing refuses it before. -/
inductive Halts (fs : Fat32) (least n : ℕ) : ℕ → ℕ → ℕ → Prop
  | turn {x dataOffset bufferPointer : ℕ}
      (hnext : ∀ x' bufferPointer',
        fs.advance least n x dataOffset bufferPointer = some (x', bufferPointer') →
          Halts fs least n x' 0 bufferPointer') :
      Halts fs least n x dataOffset bufferPointer

/-- The shape of a chain on which a request comes to an end. -/
def ComesToEnd (fs : Fat32) (least n c residue : ℕ) : Prop :=
  fs.Covers c (n + residue) ∨ (∃ e, fs.Stops c e) ∨
    (∃ e, fs.Breaks c e ∧ (e + 1) * fs.bytesPerCluster = n + residue) ∨
    ((n - 1) % fs.bytesPerCluster + 1 < least ∧
      ∃ e x, fs.Breaks c e ∧ fs.follow c (e + 1) = some x ∧ fs.Covers x n)

theorem linkedPiece_follow {least n x dataOffset : ℕ} {p : Piece}
    (h : fs.linkedPiece least n x dataOffset = some p) :
    0 < p.clusters ∧ fs.follow x (p.clusters - 1) = some (x + p.clusters - 1) := by
  have hfollow : fs.follow x (fs.straight x ((n + fs.residue dataOffset - 1) / fs.bytesPerCluster)) =
      some (x + fs.straight x ((n + fs.residue dataOffset - 1) / fs.bytesPerCluster)) :=
    follow_straight le_rfl
  simp only [linkedPiece] at h
  split_ifs at h
  · obtain rfl := Option.some.inj h
    exact ⟨Nat.succ_pos _, hfollow⟩
  · obtain ⟨-, -, rfl⟩ := Option.map_eq_some_iff.mp h
    exact ⟨Nat.succ_pos _, hfollow⟩

/-- A turn goes on at a later cluster of the chain. -/
theorem advance_some {least n x dataOffset bufferPointer x' bufferPointer' : ℕ}
    (h : fs.advance least n x dataOffset bufferPointer = some (x', bufferPointer')) :
    ∃ j, fs.follow x (j + 1) = some x' := by
  rw [advance] at h
  cases hpiece : fs.linkedPiece least n x dataOffset with
  | none =>
    rw [hpiece] at h
    cases h
  | some p =>
    rw [hpiece] at h
    dsimp only at h
    split_ifs at h
    obtain ⟨next, hnext, hpair⟩ := Option.map_eq_some_iff.mp h
    cases hpair
    obtain ⟨hpos, hfollow⟩ := linkedPiece_follow hpiece
    refine ⟨p.clusters - 1, ?_⟩
    rw [follow, hfollow]
    exact hnext

/-! ## Chains on which the walk ends -/

/-- What a turn does where the clusters are consecutive for the whole request. -/
theorem advance_covers (hpos : 0 < fs.bytesPerCluster) {least n x dataOffset bufferPointer : ℕ}
    (h : fs.Covers x (n + fs.residue dataOffset)) :
    fs.advance least n x dataOffset bufferPointer =
      if (n + fs.residue dataOffset - 1) % fs.bytesPerCluster + 1 < least ∨ bufferPointer = 0 then none
      else (fs.getNextCluster (x + (n + fs.residue dataOffset - 1) / fs.bytesPerCluster)).map
        fun next => (next, bufferPointer + n) := by
  rw [advance, linkedPiece_covers hpos least h]
  by_cases hleast : (n + fs.residue dataOffset - 1) % fs.bytesPerCluster + 1 < least
  · rw [if_pos hleast, if_pos (.inl hleast)]
  · rw [if_neg hleast]
    dsimp only
    by_cases hzero : bufferPointer = 0
    · rw [if_pos (by omega), if_pos (.inr hzero)]
    · rw [if_neg (by omega), if_neg (by simp [hleast, hzero]), ← Nat.add_assoc, Nat.add_sub_cancel]

/-- What a turn does where the chain stops or breaks before. -/
theorem advance_short (hpos : 0 < fs.bytesPerCluster) (least : ℕ) {n x dataOffset : ℕ}
    (bufferPointer : ℕ) (h : ¬ fs.Covers x (n + fs.residue dataOffset)) :
    ∃ l, (l + 1) * fs.bytesPerCluster < n + fs.residue dataOffset ∧
      (∀ e, e < l → ¬ fs.Breaks x e ∧ ¬ fs.Stops x e) ∧
      ((fs.Stops x l ∧ fs.advance least n x dataOffset bufferPointer = none) ∨
        (fs.Breaks x l ∧ ∃ next, fs.follow x (l + 1) = some next ∧
          fs.advance least n x dataOffset bufferPointer =
            if n = bufferPointer + ((l + 1) * fs.bytesPerCluster - fs.residue dataOffset) then none
            else some (next,
              bufferPointer + ((l + 1) * fs.bytesPerCluster - fs.residue dataOffset)))) := by
  obtain ⟨l, hwithin, hrun, ⟨hstops, hpiece⟩ | ⟨hbreaks, hpiece⟩⟩ := linkedPiece_short hpos least h
  · refine ⟨l, hwithin, hrun, .inl ⟨hstops, ?_⟩⟩
    rw [advance, hpiece]
  · refine ⟨l, hwithin, hrun, .inr ⟨hbreaks, ?_⟩⟩
    obtain ⟨w, next, hw, hnext, -⟩ := hbreaks
    rw [follow_last hrun] at hw
    obtain rfl := Option.some.inj hw
    refine ⟨next, follow_run hrun hnext, ?_⟩
    rw [advance, hpiece]
    dsimp only
    rw [← Nat.add_assoc, Nat.add_sub_cancel, hnext]
    rfl

theorem Halts.of_none {least n x dataOffset bufferPointer : ℕ}
    (h : fs.advance least n x dataOffset bufferPointer = none) :
    fs.Halts least n x dataOffset bufferPointer := by
  refine .turn fun x' bufferPointer' hsome => ?_
  rw [h] at hsome
  cases hsome

theorem Halts.of_some {least n x dataOffset bufferPointer x' bufferPointer' : ℕ}
    (h : fs.advance least n x dataOffset bufferPointer = some (x', bufferPointer'))
    (hnext : fs.Halts least n x' 0 bufferPointer') :
    fs.Halts least n x dataOffset bufferPointer := by
  refine .turn fun y q hsome => ?_
  rw [h] at hsome
  cases hsome
  exact hnext

/-- On a chain that ends every turn comes closer to the end. -/
theorem halts_of_stops {least n c e : ℕ} (hstops : fs.Stops c e) (left i x dataOffset bufferPointer : ℕ)
    (hleft : i + left = e) (hx : fs.follow c i = some x) :
    fs.Halts least n x dataOffset bufferPointer := by
  induction left using Nat.strong_induction_on generalizing i x dataOffset bufferPointer with
  | _ left ih =>
    refine .turn fun x' bufferPointer' hadvance => ?_
    obtain ⟨j, hfollow⟩ := advance_some hadvance
    rw [← follow_of_some hx] at hfollow
    have hwithin : i + (j + 1) ≤ e := by
      by_contra hlt
      rw [follow_of_stops hstops (not_le.mp hlt)] at hfollow
      cases hfollow
    exact ih (e - (i + (j + 1))) (by omega) (i + (j + 1)) x' 0 bufferPointer' (by omega) hfollow

/-- Behind a break, the loop ends at a later one with the exact length, or at a later run
that it refuses. -/
theorem halts_of_breaks (hpos : 0 < fs.bytesPerCluster) {least n c r e y : ℕ}
    (hbreak : fs.Breaks c e) (hy : fs.follow c (e + 1) = some y) (hr : r < fs.bytesPerCluster)
    (hgoal : (e + 1) * fs.bytesPerCluster = n + r ∨
      ((n - 1) % fs.bytesPerCluster + 1 < least ∧ fs.Covers y n))
    (left e₁ x bufferPointer : ℕ) (hleft : e₁ + left = e) (hx : fs.follow c (e₁ + 1) = some x)
    (hpointer : bufferPointer + r = (e₁ + 1) * fs.bytesPerCluster) (hmore : bufferPointer ≠ n) :
    fs.Halts least n x 0 bufferPointer := by
  induction left using Nat.strong_induction_on generalizing e₁ x bufferPointer with
  | _ left ih =>
    have hfirst := fs.bytesPerCluster_le_mul e₁
    rcases Nat.eq_zero_or_pos left with rfl | hlater
    · -- This is the run that is refused.
      obtain rfl : e₁ = e := hleft
      rw [hx] at hy
      obtain rfl := Option.some.inj hy
      obtain ⟨hragged, hcovers⟩ := hgoal.resolve_left (by omega)
      apply Halts.of_none
      rw [advance_covers hpos (by rwa [residue_zero]), residue_zero, Nat.add_zero,
        if_pos (.inl hragged)]
    obtain ⟨k, rfl⟩ : ∃ k, left = k + 1 := ⟨left - 1, by omega⟩
    obtain rfl : e₁ + 1 + k = e := by omega
    have hbreak' := (breaks_add hx k).mp hbreak
    have hsplit := Nat.add_mul (e₁ + 1) (k + 1) fs.bytesPerCluster
    rw [← Nat.add_assoc] at hsplit
    by_cases hcovers : fs.Covers x (n + fs.residue 0)
    · apply Halts.of_none
      have hragged : (n - 1) % fs.bytesPerCluster + 1 < least := by
        refine (hgoal.resolve_left fun hexact => ?_).1
        rw [residue_zero, Nat.add_zero] at hcovers
        exact (hcovers k (by omega)).1 hbreak'
      rw [advance_covers hpos hcovers, residue_zero, Nat.add_zero, if_pos (.inl hragged)]
    · obtain ⟨l, -, hrun, ⟨-, hnone⟩ | ⟨hbreaks, next, hnext, hadvance⟩⟩ :=
        advance_short hpos least bufferPointer hcovers
      · exact .of_none hnone
      · have hlk : l ≤ k := by
          by_contra hlt
          exact (hrun k (by omega)).1 hbreak'
        have hstep := Nat.add_mul (e₁ + 1) (l + 1) fs.bytesPerCluster
        rw [← Nat.add_assoc] at hstep
        rw [residue_zero, Nat.sub_zero] at hadvance
        split_ifs at hadvance with hexact
        · exact .of_none hadvance
        · refine .of_some hadvance (ih (k - l) (by omega) (e₁ + 1 + l) next _ (by omega) ?_
            (by omega) (Ne.symm hexact))
          rw [Nat.add_assoc, follow_of_some hx]
          exact hnext

theorem ComesToEnd.halts (hpos : 0 < fs.bytesPerCluster) {least n c dataOffset : ℕ}
    (hoffset : dataOffset < fs.bytesPerCluster)
    (h : fs.ComesToEnd least n c (fs.residue dataOffset)) : fs.Halts least n c dataOffset 0 := by
  have hr : fs.residue dataOffset < fs.bytesPerCluster := (Nat.sub_le _ _).trans_lt hoffset
  by_cases hcovers : fs.Covers c (n + fs.residue dataOffset)
  · apply Halts.of_none
    rw [advance_covers hpos hcovers, if_pos (.inr rfl)]
  rcases h.resolve_left hcovers with ⟨e, hstops⟩ | hbreaks
  · exact halts_of_stops hstops e 0 c dataOffset 0 (Nat.zero_add e) rfl
  -- The chain breaks where the loop ends.
  obtain ⟨e, y, hbreak, hy, hgoal⟩ : ∃ e y, fs.Breaks c e ∧ fs.follow c (e + 1) = some y ∧
      ((e + 1) * fs.bytesPerCluster = n + fs.residue dataOffset ∨
        ((n - 1) % fs.bytesPerCluster + 1 < least ∧ fs.Covers y n)) := by
    rcases hbreaks with ⟨e, hbreak, hexact⟩ | ⟨hragged, e, y, hbreak, hy, hcovers⟩
    · obtain ⟨w, y, hw, hy, -⟩ := id hbreak
      refine ⟨e, y, hbreak, ?_, .inl hexact⟩
      rw [follow, hw]
      exact hy
    · exact ⟨e, y, hbreak, hy, .inr ⟨hragged, hcovers⟩⟩
  obtain ⟨l, hwithin, hrun, ⟨-, hnone⟩ | ⟨hbreaks, next, hnext, hadvance⟩⟩ :=
    advance_short hpos least 0 hcovers
  · exact .of_none hnone
  · have hle : l ≤ e := by
      by_contra hlt
      exact (hrun e (by omega)).1 hbreak
    have hfirst := fs.bytesPerCluster_le_mul l
    rw [if_neg (by omega)] at hadvance
    exact .of_some hadvance (halts_of_breaks hpos hbreak hy hr hgoal (e - l) l next _ (by omega) hnext
      (by omega) (by omega))

/-! ## Chains on which the walk does not end -/

/-- A state from which the loop goes on: past the length, where it refuses no run, or
behind a break. -/
def Lost (fs : Fat32) (least n c r x bufferPointer : ℕ) : Prop :=
  (¬ (n - 1) % fs.bytesPerCluster + 1 < least ∧ n < bufferPointer ∧ ∃ i, fs.follow c i = some x) ∨
    ∃ e, fs.Breaks c e ∧ fs.follow c (e + 1) = some x ∧
      bufferPointer + r = (e + 1) * fs.bytesPerCluster

theorem Lost.advance (hpos : 0 < fs.bytesPerCluster) {least n c r x bufferPointer : ℕ}
    (hr : r < fs.bytesPerCluster) (hnot : ¬ fs.ComesToEnd least n c r)
    (h : fs.Lost least n c r x bufferPointer) :
    ∃ x' bufferPointer', fs.advance least n x 0 bufferPointer = some (x', bufferPointer') ∧
      fs.Lost least n c r x' bufferPointer' := by
  simp only [ComesToEnd, not_or, not_exists] at hnot
  obtain ⟨-, hstops, hexact, hrefused⟩ := hnot
  obtain ⟨i, hi⟩ : ∃ i, fs.follow c i = some x := by
    rcases h with ⟨-, -, hi⟩ | ⟨e, -, hi, -⟩
    · exact hi
    · exact ⟨e + 1, hi⟩
  by_cases hcovers : fs.Covers x (n + fs.residue 0)
  · have hwhole := (straight_eq_iff_covers hpos x _).mpr hcovers
    have hfollow := follow_straight hwhole.ge
    obtain ⟨hragged, hpointer⟩ : ¬ (n - 1) % fs.bytesPerCluster + 1 < least ∧ bufferPointer ≠ 0 := by
      rcases h with ⟨hragged, hpast, -⟩ | ⟨e, hbreak, hx, hpointer⟩
      · exact ⟨hragged, by omega⟩
      · rw [residue_zero, Nat.add_zero] at hcovers
        have hfirst := fs.bytesPerCluster_le_mul e
        exact ⟨fun hragged => hrefused ⟨hragged, e, x, hbreak, hx, hcovers⟩, by omega⟩
    rw [advance_covers hpos hcovers, if_neg (by
      rw [residue_zero, Nat.add_zero, not_or]
      exact ⟨hragged, hpointer⟩)]
    cases hnext : fs.getNextCluster (x + (n + fs.residue 0 - 1) / fs.bytesPerCluster) with
    | none => exact absurd ((stops_add hi _).mpr ⟨_, hfollow, hnext⟩) (hstops _)
    | some next =>
      refine ⟨next, bufferPointer + n, rfl, .inl ⟨hragged, by omega,
        i + ((n + fs.residue 0 - 1) / fs.bytesPerCluster + 1), ?_⟩⟩
      rw [follow_of_some hi, follow, hfollow]
      exact hnext
  · obtain ⟨l, -, hrun, ⟨hstop, -⟩ | ⟨hbreaks, next, hnext, hadvance⟩⟩ :=
      advance_short hpos least bufferPointer hcovers
    · exact absurd ((stops_add hi l).mpr hstop) (hstops _)
    rw [residue_zero, Nat.sub_zero] at hadvance
    rcases h with ⟨hragged, hpast, -⟩ | ⟨e, hbreak, hx, hpointer⟩
    · rw [if_neg (by omega)] at hadvance
      refine ⟨_, _, hadvance, .inl ⟨hragged, by omega, i + (l + 1), ?_⟩⟩
      rw [follow_of_some hi]
      exact hnext
    · have hbreak' := (breaks_add hx l).mpr hbreaks
      have hsplit := Nat.add_mul (e + 1) (l + 1) fs.bytesPerCluster
      rw [← Nat.add_assoc] at hsplit
      rw [if_neg fun heq => hexact (e + 1 + l) ⟨hbreak', by omega⟩] at hadvance
      refine ⟨_, _, hadvance, .inr ⟨e + 1 + l, hbreak', ?_, by omega⟩⟩
      rw [Nat.add_assoc, follow_of_some hx]
      exact hnext

/-- The walk comes to an end on the chains of this shape only. -/
theorem Halts.comesToEnd (hpos : 0 < fs.bytesPerCluster) {least n c dataOffset : ℕ}
    (hoffset : dataOffset < fs.bytesPerCluster) (h : fs.Halts least n c dataOffset 0) :
    fs.ComesToEnd least n c (fs.residue dataOffset) := by
  by_contra hnot
  have hr : fs.residue dataOffset < fs.bytesPerCluster := (Nat.sub_le _ _).trans_lt hoffset
  have hforever : ∀ x d bufferPointer, fs.Halts least n x d bufferPointer → d = 0 →
      ¬ fs.Lost least n c (fs.residue dataOffset) x bufferPointer := by
    intro x d bufferPointer hhalts
    induction hhalts with
    | turn hnext ih =>
      rintro rfl hlost
      obtain ⟨x', bufferPointer', hadvance, hlost'⟩ := hlost.advance hpos hr hnot
      exact ih x' bufferPointer' hadvance rfl hlost'
  have hcovers : ¬ fs.Covers c (n + fs.residue dataOffset) := fun hcovers => hnot (.inl hcovers)
  obtain ⟨l, hwithin, hrun, ⟨hstop, -⟩ | ⟨hbreaks, next, hnext, hadvance⟩⟩ :=
    advance_short hpos least 0 hcovers
  · exact hnot (.inr (.inl ⟨l, hstop⟩))
  · have hfirst := fs.bytesPerCluster_le_mul l
    rw [if_neg (by omega)] at hadvance
    cases h with
    | turn hhalts =>
      exact hforever next 0 _ (hhalts _ _ hadvance) rfl (.inr ⟨l, hbreaks, hnext, by omega⟩)

/-! ## Turns that nothing refuses -/

section Turns
variable {q : Setting} {i j : Position}

/-- The piece of a turn is not moved: there are no pages for it, or its transfer fails. -/
def TurnedDown (fs : Fat32) (q : Setting) (i : Position) : Prop :=
  ∃ p, fs.linkedPiece q.least q.length i.cluster i.dataOffset = some p ∧
    ((fs.residue i.dataOffset ≠ 0 ∧ ¬ q.granted p.size) ∨ ¬ q.transfers p.address p.size)

/-- A turn that follows is where the walk goes on. -/
theorem Moves.advance (h : fs.Moves q i j) :
    j.dataOffset = 0 ∧ fs.advance q.least q.length i.cluster i.dataOffset i.bufferPointer =
      some (j.cluster, j.bufferPointer) := by
  obtain ⟨p, next, hp, -, hmore, hnext, rfl⟩ := h
  refine ⟨rfl, ?_⟩
  rw [Fat32.advance, hp.1]
  dsimp only
  rw [if_neg hmore, hnext]
  rfl

/-- Nothing follows on a turn that is refused. -/
theorem TurnedDown.not_moves (h : fs.TurnedDown q i) : ¬ fs.Moves q i j := by
  rintro ⟨p, next, hp, hsent, -⟩
  obtain ⟨p', hpiece, hrefused⟩ := h
  obtain rfl : p' = p := Option.some.inj (hpiece.symm.trans hp.1)
  rcases hrefused with ⟨hne, hgranted⟩ | hfails
  · exact hp.2.elim hne hgranted
  · exact hfails hsent

/-- The walk goes on to the turn that follows, unless the turn is refused. -/
theorem moves_of_advance (hnot : ¬ fs.TurnedDown q i) {x bufferPointer : ℕ}
    (h : fs.advance q.least q.length i.cluster i.dataOffset i.bufferPointer = some (x, bufferPointer)) :
    fs.Moves q i ⟨x, 0, bufferPointer⟩ := by
  rw [Fat32.advance] at h
  cases hpiece : fs.linkedPiece q.least q.length i.cluster i.dataOffset with
  | none =>
    rw [hpiece] at h
    cases h
  | some p =>
    rw [hpiece] at h
    dsimp only at h
    split_ifs at h with hmore
    obtain ⟨next, hnext, hpair⟩ := Option.map_eq_some_iff.mp h
    cases hpair
    have hmoved : (fs.residue i.dataOffset = 0 ∨ q.granted p.size) ∧
        q.transfers p.address p.size := by
      by_contra hrefused
      refine hnot ⟨p, hpiece, ?_⟩
      tauto
    exact ⟨p, x, ⟨hpiece, hmoved.1⟩, hmoved.2, hmore, hnext, rfl⟩

/-- Where the walk ends, the turns do. -/
theorem Halts.accessible {least n x d bufferPointer : ℕ} (h : fs.Halts least n x d bufferPointer)
    (hleast : q.least = least) (hlength : q.length = n) :
    Acc (fun j i => fs.Moves q i j) ⟨x, d, bufferPointer⟩ := by
  induction h with
  | turn hnext ih =>
    refine .intro _ fun j hmove => ?_
    obtain ⟨hzero, hadvance⟩ := hmove.advance
    rw [hleast, hlength] at hadvance
    have hacc := ih _ _ hadvance
    rwa [← hzero] at hacc

/-- A turn that comes to a refused one is followed by finitely many. -/
theorem accessible_of_turnedDown (hreach : ReflTransGen (fs.Moves q) i j) (h : fs.TurnedDown q j) :
    Acc (fun j i => fs.Moves q i j) i := by
  induction hreach using ReflTransGen.head_induction_on with
  | refl => exact .intro _ fun l hmove => absurd hmove h.not_moves
  | head hmove _ ih =>
    refine .intro _ fun l hl => ?_
    rwa [hmove.unique hl]

/-- Where the turns end and none of them is refused, the walk ends. -/
theorem halts_of_accessible (hacc : Acc (fun j i => fs.Moves q i j) i)
    (hnot : ∀ j, ReflTransGen (fs.Moves q) i j → ¬ fs.TurnedDown q j) :
    fs.Halts q.least q.length i.cluster i.dataOffset i.bufferPointer := by
  induction hacc with
  | intro i _ ih =>
    refine .turn fun x bufferPointer hadvance => ?_
    have hmove := moves_of_advance (hnot i .refl) hadvance
    exact ih _ hmove fun j hj => hnot j (.head hmove hj)

/-- From the first turn of a call, finitely many turns follow exactly on a chain of this shape,
or up to a turn that is refused. -/
theorem accessible_iff (hpos : 0 < fs.bytesPerCluster) {c dataOffset : ℕ}
    (hoffset : dataOffset < fs.bytesPerCluster) :
    Acc (fun j i => fs.Moves q i j) ⟨c, dataOffset, 0⟩ ↔
      fs.ComesToEnd q.least q.length c (fs.residue dataOffset) ∨
        ∃ j, ReflTransGen (fs.Moves q) ⟨c, dataOffset, 0⟩ j ∧ fs.TurnedDown q j := by
  constructor
  · intro hacc
    by_cases hrefused : ∃ j, ReflTransGen (fs.Moves q) ⟨c, dataOffset, 0⟩ j ∧ fs.TurnedDown q j
    · exact .inr hrefused
    · have hhalts := halts_of_accessible hacc fun j hj hrefuses => hrefused ⟨j, hj, hrefuses⟩
      exact .inl (hhalts.comesToEnd hpos hoffset)
  · rintro (hends | ⟨j, hreach, hrefused⟩)
    · exact (hends.halts hpos hoffset).accessible rfl rfl
    · exact accessible_of_turnedDown hreach hrefused

end Turns

/-! ## Whole calls -/

/-- A call returns with `Ok` or `Err`. -/
def Returns (result : Except Stop ℕ) : Prop := (∃ n, result = .ok n) ∨ result = .error .err

theorem not_returns_panic {p : Panic} : ¬ Returns (.error (.panic p)) := by
  simp [Returns]

theorem not_returns_running : ¬ Returns (.error .running) := by
  simp [Returns]

theorem returns_judges : Judges Returns := ⟨fun n => .inl ⟨n, rfl⟩, .inr rfl, not_returns_panic⟩

/-- The request lies behind the file, or the chain ends before its first cluster, or the chain
from this cluster on has a shape with which the loop comes to an end, or the loop comes to a turn
that is refused. -/
def ChainEnds (fs : Fat32) (q : Setting) (file : FileInfo) (offset length : ℕ) : Prop :=
  offset < file.fileSize ∨ offset + length ≤ file.fileSize →
    ∀ c, fs.follow file.entryCluster (offset / fs.bytesPerCluster) = some c →
      fs.ComesToEnd q.least q.length c (fs.residue (offset % fs.bytesPerCluster)) ∨
        ∃ j, ReflTransGen (fs.Moves q) ⟨c, offset % fs.bytesPerCluster, 0⟩ j ∧ fs.TurnedDown q j

/-- A call returns exactly where its turns are in order and come to an end, if each turn of its
loop is judged. -/
theorem located_returns_iff (hpos : 0 < fs.bytesPerCluster) {file : FileInfo}
    (hcluster : file.entryCluster < 2 ^ 32) {offset length : ℕ} {q : Setting} {κ : Type}
    {loop : ℕ → ℕ → Position → κ → Except Stop ℕ × κ} {inv : Position → κ → Prop} {k : κ}
    (hcut : ∀ n i k, (loop n 0 i k).1 = .error .running)
    (hturn : ∀ i k, inv i k → fs.TurnOf Returns q (loop (count file offset length)) inv i k)
    (hstart : ∀ c, c < 2 ^ 32 → inv ⟨c, offset % fs.bytesPerCluster, 0⟩ k) :
    (∃ fuel, Returns (fs.located file offset length (fun n => loop n fuel) k).1) ↔
      offset + length < 2 ^ 64 ∧ fs.TurnsInOrder q file offset length ∧
        fs.ChainEnds q file offset length := by
  by_cases hsum : offset + length < 2 ^ 64
  swap
  · have hclamp : clamp file offset length = .error .overflow := by
      rw [clamp, Checked.add, if_neg hsum]
      rfl
    simp only [located, hclamp]
    exact iff_of_false (not_exists.mpr fun _ => not_returns_panic) fun h => hsum h.1
  simp only [located, clamp_eq hsum, locate_follow hpos, TurnsInOrder, ChainEnds, hsum, true_and]
  by_cases hbeside : file.fileSize < offset + length ∧ file.fileSize ≤ offset
  · rw [if_pos hbeside]
    refine iff_of_true ⟨0, .inl ⟨0, rfl⟩⟩ ⟨fun hinside => ?_, fun hinside => ?_⟩
    · omega
    · omega
  rw [if_neg hbeside, forall_prop_of_true (by omega), forall_prop_of_true (by omega)]
  cases hfollow : fs.follow file.entryCluster (offset / fs.bytesPerCluster) with
  | none => exact iff_of_true ⟨0, .inr rfl⟩ (by simp)
  | some c =>
    have hsettled : Settled (fun fuel i k => Returns (loop (count file offset length) fuel i k).1)
        inv (fs.Moves q) (fs.InOrder q) := by
      refine ⟨fun i k => ?_, hturn⟩
      rw [hcut]
      exact not_returns_running
    have hiff := hsettled.exists_iff (hstart c (follow_lt hcluster _ hfollow))
    rw [accessible_iff hpos (Nat.mod_lt _ hpos), and_comm] at hiff
    simp only [Option.some.injEq, forall_eq']
    exact hiff

/-! ## Files on well-formed volumes -/

theorem WellFormed.opened (h : fs.WellFormed) : fs.Opened := by
  have hsector := h.sector_ge
  have hbase := h.baseLt
  exact ⟨h.geometry, by omega, h.block, by omega⟩

theorem linkedPiece_size {least n c dataOffset : ℕ} {p : Piece}
    (h : fs.linkedPiece least n c dataOffset = some p) : fs.bytesPerSector ∣ p.size := by
  simp only [linkedPiece] at h
  split_ifs at h
  · obtain rfl := Option.some.inj h
    exact dvd_mul_left _ _
  · obtain ⟨-, -, rfl⟩ := Option.map_eq_some_iff.mp h
    exact (dvd_mul_left fs.bytesPerSector fs.sectorsPerCluster).mul_left _

/-- A device that completes every request refuses no turn that starts at a sector. -/
theorem WellFormed.not_turnedDown (hfs : fs.WellFormed) {q : Setting} {blk : VirtioBlk}
    (hblk : blk.Completes) (htransfers : q.transfers = fun a size => (blk.operationSync a size).2 = true)
    {i : Position} (hzero : fs.residue i.dataOffset = 0) : ¬ fs.TurnedDown q i := by
  rintro ⟨p, hpiece, ⟨hne, -⟩ | hfails⟩
  · exact hne hzero
  · refine hfails ?_
    have haddress : 512 ∣ p.address := by
      rw [linkedPiece_address hpiece]
      exact dvd_add (clusterStart_dvd hfs _) (dvd_mul_of_dvd_right hfs.sector _)
    have hsize : 512 ∣ p.size := hfs.sector.trans (linkedPiece_size hpiece)
    simp only [htransfers, VirtioBlk.operationSync_completes hblk haddress hsize]

/-- All turns but the first start at a sector. -/
theorem residue_of_moves {q : Setting} {i j : Position} (hreach : ReflTransGen (fs.Moves q) i j)
    (hzero : fs.residue i.dataOffset = 0) : fs.residue j.dataOffset = 0 := by
  cases hreach with
  | refl => exact hzero
  | tail _ hmove =>
    obtain ⟨_, _, _, _, _, _, rfl⟩ := hmove
    exact residue_zero

theorem HasCluster.onDisk (hfs : fs.WellFormed) {c : ℕ} (hc : fs.HasCluster c) {dataOffset : ℕ}
    (hoffset : dataOffset < fs.bytesPerCluster) : fs.OnDisk c (fs.skipped dataOffset) := by
  have hlow := hc.low
  have hsectors := hc.sectors
  have hskip := skipped_lt hfs.geometry hoffset
  have hbase := hfs.baseLt
  have hstep : (c - 1) * fs.sectorsPerCluster =
      (c - 2) * fs.sectorsPerCluster + fs.sectorsPerCluster := by
    rw [show c - 1 = (c - 2) + 1 by omega, Nat.add_mul, Nat.one_mul]
  have hsector : fs.dataSector + (c - 2) * fs.sectorsPerCluster + fs.skipped dataOffset < 2 ^ 32 := by
    omega
  have hbytes := Nat.mul_lt_mul'' hsector hfs.sectorLt
  refine ⟨hlow, hsector, ?_⟩
  rw [clusterStart_skip]
  omega

section Holds
variable {file : FileInfo} {chain : List ℕ}

theorem Holds.follow_lt_length (h : fs.Holds file chain) (hne : chain ≠ []) {i x : ℕ}
    (hx : fs.follow file.entryCluster i = some x) : i < chain.length := by
  rw [h.follow_eq hne] at hx
  exact (List.getElem?_eq_some_iff.mp hx).1

/-- The turns of a call follow the chain, and each adds no more than the length. -/
theorem Holds.turns (h : fs.Holds file chain) {q : Setting} {k c dataOffset : ℕ}
    (hc : fs.follow file.entryCluster k = some c) (hoffset : dataOffset < fs.bytesPerCluster)
    {j : Position} (hreach : ReflTransGen (fs.Moves q) ⟨c, dataOffset, 0⟩ j) :
    j.dataOffset < fs.bytesPerCluster ∧ ∃ i, fs.follow file.entryCluster i = some j.cluster ∧
      j.bufferPointer ≤ i * q.length := by
  induction hreach with
  | refl => exact ⟨hoffset, k, hc, Nat.zero_le _⟩
  | tail _ hmove ih =>
    obtain ⟨-, i, hi, hle⟩ := ih
    obtain ⟨p, next, hp, -, -, hnext, rfl⟩ := hmove
    obtain ⟨hpos, hfollow⟩ := linkedPiece_follow hp.1
    have hbytes := (linkedPiece_le h.volume.geometry hp.1).1
    refine ⟨h.volume.bytesPerCluster_pos, i + (p.clusters - 1) + 1, ?_, ?_⟩
    · rw [follow, follow_of_some hi, hfollow]
      exact hnext
    · rw [Nat.succ_mul, Nat.add_mul]
      dsimp only
      omega

/-- On the chain of a file every turn is in order, if the buffer leaves room behind it. -/
theorem Holds.turnsInOrder (h : fs.Holds file chain) (hne : chain ≠ []) {q : Setting}
    (hlength : q.length < 2 ^ 32) (hbuffer : q.bufferAddress + 2 ^ 61 ≤ 2 ^ 64) (offset length : ℕ) :
    fs.TurnsInOrder q file offset length := by
  intro _ c hc j hj
  have hoffset := Nat.mod_lt offset h.volume.bytesPerCluster_pos
  obtain ⟨hdata, i, hi, hle⟩ := h.turns hc hoffset hj
  have hcluster := h.hasCluster_follow hne hi
  have hhigh := hcluster.high
  have hpointer : i * q.length < 2 ^ 28 * 2 ^ 32 :=
    Nat.mul_lt_mul'' ((h.follow_lt_length hne hi).trans h.length_lt) hlength
  refine ⟨fun hwraps => ?_, fun _ p hp => by omega, fun p hp => hcluster.onDisk h.volume hdata,
    fun p hp _ => ?_⟩
  · have hlast := hwraps.1
    omega
  · have hbytes := (linkedPiece_le h.volume.geometry hp.1).1
    omega

/-- The chain of a file ends, so every call comes to an end. -/
theorem Holds.chainEnds (h : fs.Holds file chain) (hne : chain ≠ []) (q : Setting)
    (offset length : ℕ) : fs.ChainEnds q file offset length := by
  intro _ c hc
  obtain ⟨e, he⟩ := Nat.exists_eq_add_of_lt (h.follow_lt_length hne hc)
  have hlast : offset / fs.bytesPerCluster + e < chain.length := by omega
  have hx : fs.follow c e = some chain[offset / fs.bytesPerCluster + e] := by
    rw [← follow_of_some hc, h.follow_eq hne, List.getElem?_eq_getElem hlast]
  have hnone : fs.follow c (e + 1) = none := by
    rw [← follow_of_some hc, h.follow_eq hne, List.getElem?_eq_none (by omega)]
  rw [follow, hx, Option.bind_some] at hnone
  exact .inl (.inr (.inl ⟨e, _, hx, hnone⟩))

end Holds

/-- The reader returns exactly where its turns are in order and come to an end. -/
theorem read_returns_iff (hfs : fs.Opened) {file : FileInfo} (hcluster : file.entryCluster < 2 ^ 32)
    (hsize : file.fileSize < 2 ^ 32) (allocate : η → ℕ → ℕ → Option ℕ × η) (free : η → ℕ → ℕ → η)
    (bufferAddress offset length : ℕ) (m : Machine η) :
    (∃ fuel, Returns
      (fs.read (.answering allocate free) fuel file bufferAddress offset length m).1) ↔
      offset + length < 2 ^ 64 ∧
        fs.TurnsInOrder (fs.readSetting allocate m.heap m.blk bufferAddress
          (count file offset length)) file offset length ∧
        fs.ChainEnds (fs.readSetting allocate m.heap m.blk bufferAddress
          (count file offset length)) file offset length := by
  have hpos := hfs.geometry.bytesPerCluster_pos
  simp only [read_eq_located]
  refine located_returns_iff hpos hcluster (fun _ _ _ => rfl)
    (fun _ _ hstate => reader_turn returns_judges hfs (count_lt hsize) hstate) fun c hc => ?_
  exact ⟨hc, Nat.mod_lt _ hpos, rfl, fun _ => ⟨rfl, rfl⟩⟩

/-- So does the writer, with the turns of a writer. -/
theorem write_returns_iff (hfs : fs.Opened) {file : FileInfo} (hcluster : file.entryCluster < 2 ^ 32)
    (hsize : file.fileSize < 2 ^ 32) (mem : Bytes) (bufferAddress offset length : ℕ)
    (blk : VirtioBlk) :
    (∃ fuel, Returns (fs.write fuel file mem bufferAddress offset length blk).1) ↔
      offset + length < 2 ^ 64 ∧
        fs.TurnsInOrder (fs.writeSetting blk bufferAddress (count file offset length)) file offset
          length ∧
        fs.ChainEnds (fs.writeSetting blk bufferAddress (count file offset length)) file offset
          length := by
  have hpos := hfs.geometry.bytesPerCluster_pos
  simp only [write_eq_located]
  refine located_returns_iff hpos hcluster (fun _ _ _ => rfl)
    (fun _ _ hstate => writer_turn returns_judges hfs (count_lt hsize) hstate) fun c hc => ?_
  exact ⟨hc, Nat.mod_lt _ hpos, rfl⟩

/-- For every table and every geometry that can be opened, every file, memory and device: reader
and writer return exactly where the numbers of the turns they come to fit their types and the
chain has a shape with which the loop ends, or the loop comes to a turn that is refused. -/
theorem returns_iff (fs : Fat32) (hfs : fs.Opened) (file : FileInfo)
    (hcluster : file.entryCluster < 2 ^ 32) (hsize : file.fileSize < 2 ^ 32)
    (allocate : η → ℕ → ℕ → Option ℕ × η) (free : η → ℕ → ℕ → η)
    (bufferAddress offset length : ℕ) :
    (∀ m : Machine η,
      (∃ fuel, Returns
        (fs.read (.answering allocate free) fuel file bufferAddress offset length m).1) ↔
      offset + length < 2 ^ 64 ∧
        fs.TurnsInOrder (fs.readSetting allocate m.heap m.blk bufferAddress
          (count file offset length)) file offset length ∧
        fs.ChainEnds (fs.readSetting allocate m.heap m.blk bufferAddress
          (count file offset length)) file offset length) ∧
    ∀ mem blk,
      (∃ fuel, Returns (fs.write fuel file mem bufferAddress offset length blk).1) ↔
      offset + length < 2 ^ 64 ∧
        fs.TurnsInOrder (fs.writeSetting blk bufferAddress (count file offset length)) file offset
          length ∧
        fs.ChainEnds (fs.writeSetting blk bufferAddress (count file offset length)) file offset
          length :=
  ⟨read_returns_iff hfs hcluster hsize allocate free bufferAddress offset length,
    fun mem => write_returns_iff hfs hcluster hsize mem bufferAddress offset length⟩

/-- An allocator that answers with the same pages every time. -/
def samePages : Pages Unit :=
  .answering (fun heap _ _ => (some 0x50000000, heap)) fun heap _ _ => heap

/-- A file in two runs of clusters is read and written to an end, whatever the device does. -/
theorem returns_fragmented :
    (∀ m : Machine Unit, ∃ fuel, Returns
      ((sampleVolume 9).read samePages fuel ⟨5, 4096⟩ 0x48000000 0 4096 m).1) ∧
    ∀ mem blk, ∃ fuel, Returns
      ((sampleVolume 9).write fuel ⟨5, 4096⟩ mem 0x48000000 0 4096 blk).1 := by
  have hholds : (sampleVolume 9).Holds ⟨5, 4096⟩ [5, 9] := sampleVolume_holds (by decide) (by decide)
  have hchain : [5, 9] ≠ [] := List.cons_ne_nil _ _
  have hlength : count ⟨5, 4096⟩ 0 4096 < 2 ^ 32 := by decide
  have hbuffer : 0x48000000 + 2 ^ 61 ≤ 2 ^ 64 := by decide
  have hiff := returns_iff (sampleVolume 9) hholds.volume.opened ⟨5, 4096⟩ (by decide) (by decide)
    (fun heap _ _ => (some 0x50000000, heap)) (fun (heap : Unit) _ _ => heap) 0x48000000 0 4096
  constructor
  · intro m
    refine (hiff.1 m).mpr ⟨by decide, ?_, hholds.chainEnds hchain _ _ _⟩
    exact hholds.turnsInOrder hchain hlength hbuffer _ _
  · intro mem blk
    refine (hiff.2 mem blk).mpr ⟨by decide, ?_, hholds.chainEnds hchain _ _ _⟩
    exact hholds.turnsInOrder hchain hlength hbuffer _ _

/-- A table in which the clusters 5 and 9 lead to each other. -/
def loopVolume : Fat32 :=
  ⟨2048, 512, 512, 4, 32, 1, 2, fun c => if c = 5 then 9 else if c = 9 then 5 else 0x0FFFFFFF⟩

theorem loopVolume_wellFormed : loopVolume.WellFormed := by
  constructor <;> norm_num [loopVolume]

theorem loopVolume_follow (i : ℕ) :
    loopVolume.follow 5 i = some (if i % 2 = 0 then 5 else 9) := by
  induction i with
  | zero => rfl
  | succ i ih =>
    rw [follow, ih]
    by_cases heven : i % 2 = 0
    · rw [if_pos heven, if_neg (by omega)]
      rfl
    · rw [if_neg heven, if_pos (by omega)]
      rfl

theorem loopVolume_breaks (e : ℕ) : loopVolume.Breaks 5 e := by
  rw [Breaks, loopVolume_follow]
  by_cases heven : e % 2 = 0
  · rw [if_pos heven]
    exact ⟨5, 9, rfl, rfl, by decide⟩
  · rw [if_neg heven]
    exact ⟨9, 5, rfl, rfl, by decide⟩

/-- On this table a request of 3000 bytes comes to no end. -/
theorem loopVolume_not_chainEnds {q : Setting} (hleast : q.least ≤ 512) (hlength : q.length = 3000)
    {blk : VirtioBlk} (hblk : blk.Completes)
    (htransfers : q.transfers = fun a size => (blk.operationSync a size).2 = true) :
    ¬ loopVolume.ChainEnds q ⟨5, 8192⟩ 0 3000 := by
  intro hends
  rcases hends (.inl (by decide)) 5 rfl with hends | ⟨j, hreach, hrefused⟩
  · rw [hlength, Nat.zero_mod, residue_zero] at hends
    rcases hends with hcovers | ⟨e, hstops⟩ | ⟨e, -, hexact⟩ | ⟨hragged, -⟩
    · exact (hcovers 0 (by decide)).1 (loopVolume_breaks 0)
    · exact not_breaks_of_stops hstops le_rfl (loopVolume_breaks e)
    · simp only [bytesPerCluster, loopVolume] at hexact
      omega
    · simp only [bytesPerCluster, loopVolume] at hragged
      omega
  · refine loopVolume_wellFormed.not_turnedDown hblk htransfers ?_ hrefused
    exact residue_of_moves hreach (by rw [Nat.zero_mod, residue_zero])

/-- On this table neither the reader nor the writer returns from such a request, though the
device completes all that it is asked for. -/
theorem loop_never_returns : loopVolume.Opened ∧
    (∀ m : Machine Unit, m.blk.Completes → ¬ ∃ fuel, Returns
      (loopVolume.read samePages fuel ⟨5, 8192⟩ 0x48000000 0 3000 m).1) ∧
    ∀ mem blk, blk.Completes → ¬ ∃ fuel, Returns
      (loopVolume.write fuel ⟨5, 8192⟩ mem 0x48000000 0 3000 blk).1 := by
  refine ⟨loopVolume_wellFormed.opened, fun m hblk hreturns => ?_, fun mem blk hblk hreturns => ?_⟩
  · obtain ⟨-, -, hends⟩ := (read_returns_iff loopVolume_wellFormed.opened (by decide) (by decide)
      _ _ _ _ _ m).mp hreturns
    exact loopVolume_not_chainEnds (Nat.zero_le _) rfl hblk rfl hends
  · obtain ⟨-, -, hends⟩ := (write_returns_iff loopVolume_wellFormed.opened (by decide) (by decide)
      mem _ _ _ blk).mp hreturns
    exact loopVolume_not_chainEnds le_rfl rfl hblk rfl hends

end Min1visor.Fat.Fat32
