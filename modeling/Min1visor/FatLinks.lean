import Min1visor.FatChain

/-!
# Chains of any shape

The table may hold anything: a chain may end too early, or lead back to one of its
clusters and never end. The merging loop only looks at the links from a cluster on, so
what it returns is told by these, for any geometry whose numbers fit their types.
-/
namespace Min1visor.Fat.Fat32

variable {fs : Fat32}

/-! ## Links -/

/-- The cluster that a number of links leads to. -/
def follow (fs : Fat32) (c : ℕ) : ℕ → Option ℕ
  | 0 => some c
  | i + 1 => (fs.follow c i).bind fs.getNextCluster

/-- The chain goes on with another number behind its cluster `e`. -/
def Breaks (fs : Fat32) (c e : ℕ) : Prop :=
  ∃ x y, fs.follow c e = some x ∧ fs.getNextCluster x = some y ∧ y ≠ x + 1

/-- The chain ends with its cluster `e`. -/
def Stops (fs : Fat32) (c e : ℕ) : Prop :=
  ∃ x, fs.follow c e = some x ∧ fs.getNextCluster x = none

/-- How many links from a cluster on lead to the next number, up to a limit. -/
def straight (fs : Fat32) : ℕ → ℕ → ℕ
  | _, 0 => 0
  | c, q + 1 => if fs.getNextCluster c = some (c + 1) then fs.straight (c + 1) q + 1 else 0

theorem follow_add (c i j : ℕ) :
    fs.follow c (i + j) = (fs.follow c i).bind fun x => fs.follow x j := by
  induction j with
  | zero => simp [follow]
  | succ j ih =>
    rw [← Nat.add_assoc, follow, ih, Option.bind_assoc]
    rfl

theorem follow_of_some {c i x : ℕ} (h : fs.follow c i = some x) (j : ℕ) :
    fs.follow c (i + j) = fs.follow x j := by
  rw [follow_add, h]
  rfl

theorem breaks_add {c i x : ℕ} (h : fs.follow c i = some x) (e : ℕ) :
    fs.Breaks c (i + e) ↔ fs.Breaks x e := by
  simp only [Breaks, follow_of_some h]

theorem stops_add {c i x : ℕ} (h : fs.follow c i = some x) (e : ℕ) :
    fs.Stops c (i + e) ↔ fs.Stops x e := by
  simp only [Stops, follow_of_some h]

/-- The links of a chain that ends lead along its list. -/
theorem Chain.follow {c : ℕ} {cs : List ℕ} (h : fs.Chain (c :: cs)) (i : ℕ) :
    fs.follow c i = (c :: cs)[i]? := by
  induction i with
  | zero => rfl
  | succ i ih =>
    rw [Fat32.follow, ih]
    cases hx : (c :: cs)[i]? with
    | none =>
      rw [List.getElem?_eq_none_iff] at hx
      rw [List.getElem?_eq_none (by omega)]
      rfl
    | some x => exact h.next hx

/-- The links from the first cluster of a file lead along its chain. -/
theorem Holds.follow_eq {file : FileInfo} {chain : List ℕ} (h : fs.Holds file chain)
    (hne : chain ≠ []) (i : ℕ) : fs.follow file.entryCluster i = chain[i]? := by
  cases chain with
  | nil => exact absurd rfl hne
  | cons c cs =>
    obtain rfl := h.entry c rfl
    exact (h.linked.resolve_left hne).follow i

theorem Holds.hasCluster_follow {file : FileInfo} {chain : List ℕ} (h : fs.Holds file chain)
    (hne : chain ≠ []) {i x : ℕ} (hx : fs.follow file.entryCluster i = some x) :
    fs.HasCluster x := by
  rw [h.follow_eq hne] at hx
  exact h.clusters x (List.mem_of_getElem? hx)

/-- The reader and the writer skip clusters along the links. -/
theorem skipClusters_follow (n c : ℕ) :
    fs.skipClusters n c = match fs.follow c n with
      | some d => .ok d
      | none => .error .err := by
  induction n generalizing c with
  | zero => rfl
  | succ n ih =>
    rw [skipClusters, nextCluster, Nat.add_comm n 1, follow_add]
    cases hnext : fs.getNextCluster c with
    | none => simp [follow, hnext]
    | some next =>
      simp only [Checked.ok_bind, ih, follow, Option.bind_some, hnext]

/-- The cluster of an offset, where the chain reaches it. -/
theorem locate_follow (hpos : 0 < fs.bytesPerCluster) (file : FileInfo) (offset : ℕ) :
    fs.locate file offset = match fs.follow file.entryCluster (offset / fs.bytesPerCluster) with
      | some c => .ok (c, offset % fs.bytesPerCluster)
      | none => .error .err := by
  have hoffset := (Nat.mod_eq_sub_div_mul (x := offset) (k := fs.bytesPerCluster)).symm
  simp only [locate, if_neg hpos.ne', skipClusters_follow, hoffset]
  cases fs.follow file.entryCluster (offset / fs.bytesPerCluster) with
  | none => rfl
  | some c => rfl

theorem straight_le (c q : ℕ) : fs.straight c q ≤ q := by
  induction q generalizing c with
  | zero => simp [straight]
  | succ q ih =>
    rw [straight]
    split_ifs
    · exact Nat.succ_le_succ (ih (c + 1))
    · exact Nat.zero_le _

/-- The clusters that the straight links lead to. -/
theorem follow_straight {c q i : ℕ} (h : i ≤ fs.straight c q) : fs.follow c i = some (c + i) := by
  induction q generalizing c i with
  | zero =>
    obtain rfl : i = 0 := by simpa [straight] using h
    rfl
  | succ q ih =>
    cases i with
    | zero => rfl
    | succ i =>
      rw [straight] at h
      split_ifs at h with hnext
      · have hone : fs.follow c 1 = some (c + 1) := by simpa [follow] using hnext
        rw [Nat.add_comm i 1, follow_of_some hone, ih (by omega)]
        congr 1
        omega
      · omega

/-- Behind the straight links the chain breaks or stops, unless the limit is reached. -/
theorem getNextCluster_straight {c q : ℕ} (h : fs.straight c q < q) :
    fs.getNextCluster (c + fs.straight c q) ≠ some (c + fs.straight c q + 1) := by
  induction q generalizing c with
  | zero => omega
  | succ q ih =>
    rw [straight] at h ⊢
    split_ifs at h ⊢ with hnext
    · rw [show c + (fs.straight (c + 1) q + 1) = c + 1 + fs.straight (c + 1) q by omega]
      exact ih (by omega)
    · exact hnext

theorem getNextCluster_of_lt_straight {c q i : ℕ} (h : i < fs.straight c q) :
    fs.getNextCluster (c + i) = some (c + i + 1) := by
  have hnext := follow_straight (Nat.succ_le_of_lt h)
  rw [Nat.succ_eq_add_one, follow, follow_straight h.le] at hnext
  exact hnext

theorem not_breaks_straight {c q e : ℕ} (h : e < fs.straight c q) : ¬ fs.Breaks c e := by
  rintro ⟨x, y, hx, hy, hne⟩
  rw [follow_straight h.le] at hx
  obtain rfl := Option.some.inj hx
  rw [getNextCluster_of_lt_straight h] at hy
  exact hne (Option.some.inj hy).symm

theorem not_stops_straight {c q e : ℕ} (h : e < fs.straight c q) : ¬ fs.Stops c e := by
  rintro ⟨x, hx, hnone⟩
  rw [follow_straight h.le] at hx
  obtain rfl := Option.some.inj hx
  rw [getNextCluster_of_lt_straight h] at hnone
  cases hnone

/-- All links up to the limit are straight if the chain neither breaks nor stops there. -/
theorem straight_eq_iff (c q : ℕ) :
    fs.straight c q = q ↔ ∀ e, e < q → ¬ fs.Breaks c e ∧ ¬ fs.Stops c e := by
  constructor
  · intro h e he
    rw [← h] at he
    exact ⟨not_breaks_straight he, not_stops_straight he⟩
  · intro h
    by_contra hne
    have hlt : fs.straight c q < q := (straight_le c q).lt_of_ne hne
    obtain ⟨hbreaks, hstops⟩ := h _ hlt
    have hnext := getNextCluster_straight hlt
    cases hc : fs.getNextCluster (c + fs.straight c q) with
    | none => exact hstops ⟨_, follow_straight le_rfl, hc⟩
    | some y => exact hbreaks ⟨_, y, follow_straight le_rfl, hc, fun heq => hnext (heq ▸ hc)⟩

/-! ## Merging -/

theorem sectorCount_le_cluster (hfs : fs.Geometry) {rest : ℕ} (h : rest ≤ fs.bytesPerCluster) :
    fs.sectorCount rest ≤ fs.sectorsPerCluster := by
  have hbpc := hfs.bytesPerCluster_pos
  rw [sectorCount, Nat.succ_le_iff, Nat.div_lt_iff_lt_mul hfs.sectorPos]
  change rest - 1 < fs.bytesPerCluster
  omega

/-- The numbers of the merging loop stay in their types. -/
structure InRange (fs : Fat32) (length : ℕ) (s : Span) : Prop where
  size : length < 2 ^ 32
  total : length + 2 * fs.bytesPerSector < 2 ^ 32 * fs.bytesPerSector
  sectors : s.sectors * fs.bytesPerSector + s.dataOffset ≤ s.bytes + fs.bytesPerSector
  cluster : s.cluster + 1 < 2 ^ 32

theorem InRange.sectors_lt {length n : ℕ} {s : Span} (h : fs.InRange length s)
    (hn : (s.sectors + n) * fs.bytesPerSector ≤ length + 2 * fs.bytesPerSector) :
    s.sectors + n < 2 ^ 32 :=
  Nat.lt_of_mul_lt_mul_right (hn.trans_lt h.total)

theorem sectorCount_mul_le_add (fs : Fat32) (rest : ℕ) :
    fs.sectorCount rest * fs.bytesPerSector ≤ rest + fs.bytesPerSector := by
  have hround := Nat.div_mul_le_self (rest - 1) fs.bytesPerSector
  rw [sectorCount, Nat.add_mul, Nat.one_mul]
  omega

/-- A turn aborts only where its numbers do not fit their types. -/
theorem coalesce_checked (hfs : fs.Geometry) {least length fuel : ℕ} {s : Span}
    (hoffset : s.dataOffset ≤ fs.bytesPerSector) (hbytes : s.bytes ≤ length) :
    (¬ fs.InRange length s ∧ ∃ p, fs.coalesce least length (fuel + 1) s = .error (.panic p)) ∨
      fs.coalesce least length (fuel + 1) s = fs.mergeTurn least length fuel s := by
  have hmax : 1 + (max (length - s.bytes + s.dataOffset) 1 - 1) / fs.bytesPerSector =
      fs.sectorCount (length - s.bytes + s.dataOffset) := by
    rw [sectorCount, Nat.add_comm]
    congr 2
    omega
  have hle : s.dataOffset ≤ fs.bytesPerCluster := hoffset.trans hfs.sector_le
  have hspc := hfs.clusterLt
  have hbps := hfs.sectorLt
  simp only [coalesce, mergeTurn, Checked.sub_ok hbytes, lift_ok, Checked.ok_bind,
    skipSectors_of_le hoffset, Checked.sub_ok hle, nextCluster, Checked.pure_eq_ok,
    Checked.throw_eq_error]
  by_cases hleft : length - s.bytes < least
  · rw [if_pos hleft, if_pos hleft]
    exact .inr rfl
  rw [if_neg hleft, if_neg hleft]
  rcases Checked.add_cases 64 (length - s.bytes) s.dataOffset with hadd | ⟨hover, hadd⟩
  · rw [hadd]
    simp only [lift_ok, Checked.ok_bind, hmax]
    by_cases hrest : length - s.bytes + s.dataOffset ≤ fs.bytesPerCluster
    · have hcount := sectorCount_le_cluster hfs hrest
      rw [if_pos hrest, if_pos hrest, Nat.mod_eq_of_lt (by omega)]
      rcases Checked.add_cases 32 s.sectors (fs.sectorCount (length - s.bytes + s.dataOffset)) with
        hsum | ⟨hover, hsum⟩
      · rw [hsum]
        exact .inr rfl
      · rw [hsum]
        refine .inl ⟨fun h => ?_, _, rfl⟩
        have hround := fs.sectorCount_mul_le_add (length - s.bytes + s.dataOffset)
        have hsectors := h.sectors
        refine absurd (h.sectors_lt ?_) (not_lt.mpr hover)
        rw [Nat.add_mul]
        omega
    · rw [if_neg hrest, if_neg hrest]
      rcases Checked.add_cases 32 s.sectors fs.sectorsPerCluster with hsum | ⟨hover, hsum⟩
      · rw [hsum]
        simp only [lift_ok, Checked.ok_bind]
        rcases Checked.add_cases 64 s.bytes (fs.bytesPerCluster - s.dataOffset) with
          hmore | ⟨hover, hmore⟩
        · rw [hmore]
          simp only [lift_ok, Checked.ok_bind]
          cases fs.getNextCluster s.cluster with
          | none => exact .inr rfl
          | some next =>
            rcases Checked.add_cases 32 s.cluster 1 with hnext | ⟨hover, hnext⟩
            · rw [hnext]
              exact .inr rfl
            · rw [hnext]
              exact .inl ⟨fun h => absurd h.cluster (not_lt.mpr hover), _, rfl⟩
        · rw [hmore]
          refine .inl ⟨fun h => ?_, _, rfl⟩
          have hsize := h.size
          omega
      · rw [hsum]
        refine .inl ⟨fun h => ?_, _, rfl⟩
        have hsectors := h.sectors
        refine absurd (h.sectors_lt ?_) (not_lt.mpr hover)
        rw [Nat.add_mul]
        change _ + fs.bytesPerCluster ≤ _
        omega
  · rw [hadd]
    refine .inl ⟨fun h => ?_, _, rfl⟩
    have hsize := h.size
    omega

/-- The outcome of the merging loop from a cluster on, with `rest` bytes to go from the
start of this cluster on. -/
def Joined (fs : Fat32) (least rest c : ℕ) (s : Span) (result : Except Stop Span) : Prop :=
  if fs.straight c ((rest - 1) / fs.bytesPerCluster) = (rest - 1) / fs.bytesPerCluster then
    if (rest - 1) % fs.bytesPerCluster + 1 < least then result = .error .err
    else ∃ s', result = .ok s' ∧ Grown s s' (fs.sectorCount rest) (rest - s.dataOffset)
      (c + (rest - 1) / fs.bytesPerCluster)
  else
    match fs.getNextCluster (c + fs.straight c ((rest - 1) / fs.bytesPerCluster)) with
    | none => result = .error .err
    | some _ => ∃ s', result = .ok s' ∧ Grown s s'
      ((fs.straight c ((rest - 1) / fs.bytesPerCluster) + 1) * fs.sectorsPerCluster)
      ((fs.straight c ((rest - 1) / fs.bytesPerCluster) + 1) * fs.bytesPerCluster - s.dataOffset)
      (c + fs.straight c ((rest - 1) / fs.bytesPerCluster))

/-- The last turn: what is left ends in this cluster. -/
theorem joined_of_le {least left : ℕ} {s : Span} (hpos : 0 < fs.bytesPerCluster)
    (hzero : least = 0 ∨ (s.dataOffset = 0 ∧ 0 < left))
    (hrest : left + s.dataOffset ≤ fs.bytesPerCluster) :
    fs.Joined least (left + s.dataOffset) s.cluster s (if left < least then .error .err
      else .ok { s with
        sectors := s.sectors + fs.sectorCount (left + s.dataOffset)
        bytes := s.bytes + left }) := by
  have hpred : left + s.dataOffset - 1 < fs.bytesPerCluster := by omega
  rw [Joined, Nat.div_eq_of_lt hpred, Nat.mod_eq_of_lt hpred, straight, if_pos rfl]
  by_cases hleast : left < least
  · rw [if_pos hleast, if_pos (by omega)]
  · rw [if_neg hleast, if_neg (by omega)]
    exact ⟨_, rfl, rfl, by dsimp only; omega, rfl, rfl, rfl⟩

/-- A longer rest begins with a whole cluster. -/
theorem div_pred_add (hpos : 0 < fs.bytesPerCluster) {rest : ℕ} (hrest : 0 < rest) :
    (rest + fs.bytesPerCluster - 1) / fs.bytesPerCluster = (rest - 1) / fs.bytesPerCluster + 1 := by
  rw [show rest + fs.bytesPerCluster - 1 = rest - 1 + fs.bytesPerCluster by omega,
    Nat.add_div_right _ hpos]

theorem mod_pred_add {rest : ℕ} (hrest : 0 < rest) :
    (rest + fs.bytesPerCluster - 1) % fs.bytesPerCluster = (rest - 1) % fs.bytesPerCluster := by
  rw [show rest + fs.bytesPerCluster - 1 = rest - 1 + fs.bytesPerCluster by omega,
    Nat.add_mod_right]

/-- A turn that ends with its cluster, because the chain stops or breaks there. -/
theorem joined_of_apart {least rest : ℕ} {s : Span} (hpos : 0 < fs.bytesPerCluster)
    (hrest : 0 < rest) (hnext : fs.getNextCluster s.cluster ≠ some (s.cluster + 1)) :
    fs.Joined least (rest + fs.bytesPerCluster) s.cluster s
      (match fs.getNextCluster s.cluster with
        | none => .error .err
        | some _ => .ok { s with
            sectors := s.sectors + fs.sectorsPerCluster
            bytes := s.bytes + (fs.bytesPerCluster - s.dataOffset) }) := by
  have hzero : fs.straight s.cluster ((rest - 1) / fs.bytesPerCluster + 1) = 0 := if_neg hnext
  rw [Joined, div_pred_add hpos hrest, hzero, if_neg (Nat.succ_ne_zero _).symm, Nat.add_zero, Nat.zero_add,
    Nat.one_mul, Nat.one_mul]
  cases fs.getNextCluster s.cluster with
  | none => rfl
  | some next => exact ⟨_, rfl, rfl, rfl, rfl, rfl, rfl⟩

/-- A turn that goes on with the next number. -/
theorem joined_of_next (hfs : fs.Geometry) {least rest : ℕ} {s s₁ : Span}
    {result : Except Stop Span} (h : fs.Joined least rest (s.cluster + 1) s₁ result)
    (hrest : 0 < rest) (hlt : s.dataOffset < fs.bytesPerCluster)
    (hnext : fs.getNextCluster s.cluster = some (s.cluster + 1))
    (hsectors : s₁.sectors = s.sectors + fs.sectorsPerCluster)
    (hbytes : s₁.bytes = s.bytes + (fs.bytesPerCluster - s.dataOffset))
    (hsame : s₁.dataOffset = 0 ∧ s₁.sectorOffset = s.sectorOffset ∧
      s₁.dataOffsetBackup = s.dataOffsetBackup) :
    fs.Joined least (rest + fs.bytesPerCluster) s.cluster s result := by
  have hpos := hfs.bytesPerCluster_pos
  obtain ⟨hzero, hoffset, hbackup⟩ := hsame
  have hstraight : ∀ q, fs.straight s.cluster (q + 1) = fs.straight (s.cluster + 1) q + 1 :=
    fun q => if_pos hnext
  unfold Joined at h ⊢
  rw [div_pred_add hpos hrest, mod_pred_add hrest, hstraight,
    sectorCount_add hfs.sectorPos hrest]
  simp only [Nat.add_right_cancel_iff]
  generalize (rest - 1) / fs.bytesPerCluster = q at *
  by_cases hwhole : fs.straight (s.cluster + 1) q = q
  · rw [if_pos hwhole] at h ⊢
    split_ifs at h ⊢ with hleast
    · exact h
    · obtain ⟨s', hok, hg⟩ := h
      refine ⟨s', hok, ?_⟩
      convert hg.after hsectors hbytes hoffset hbackup using 1
      · omega
      · omega
  · rw [if_neg hwhole] at h ⊢
    rw [show s.cluster + (fs.straight (s.cluster + 1) q + 1) =
      s.cluster + 1 + fs.straight (s.cluster + 1) q by omega]
    generalize fs.straight (s.cluster + 1) q = l at *
    cases hafter : fs.getNextCluster (s.cluster + 1 + l) with
    | none =>
      rw [hafter] at h
      exact h
    | some next =>
      rw [hafter] at h
      obtain ⟨s', hok, hg⟩ := h
      refine ⟨s', hok, ?_⟩
      convert hg.after hsectors hbytes hoffset hbackup using 1
      · rw [Nat.add_mul]
        omega
      · rw [Nat.add_mul (l + 1)]
        omega

theorem InRange.next {length next : ℕ} {s : Span} (h : fs.InRange length s)
    (hlt : s.dataOffset < fs.bytesPerCluster) (hnext : next < 0x0FFFFFF8) :
    fs.InRange length { s with
      sectors := s.sectors + fs.sectorsPerCluster
      bytes := s.bytes + (fs.bytesPerCluster - s.dataOffset)
      dataOffset := 0
      cluster := next } := by
  refine ⟨h.size, h.total, ?_, by dsimp only; omega⟩
  have hsectors := h.sectors
  dsimp only
  rw [Nat.add_mul]
  change s.sectors * fs.bytesPerSector + fs.bytesPerCluster + 0 ≤ _
  omega

theorem getNextCluster_lt {c next : ℕ} (h : fs.getNextCluster c = some next) :
    2 ≤ next ∧ next < 0x0FFFFFF8 := by
  unfold getNextCluster at h
  split_ifs at h with hindex hrange
  obtain rfl := Option.some.inj h
  exact hrange

/-- The merging loop joins the clusters that straight links lead to, as far as bytes are
left. -/
theorem coalesce_joined (hfs : fs.Geometry) {least : ℕ} (hleast : least ≤ fs.bytesPerCluster)
    (length fuel : ℕ) (s : Span) (hoffset : s.dataOffset ≤ fs.bytesPerSector)
    (hlt : s.dataOffset < fs.bytesPerCluster)
    (hzero : least = 0 ∨ (s.dataOffset = 0 ∧ 0 < length - s.bytes)) (hbytes : s.bytes ≤ length)
    (hfuel : length - s.bytes < fuel) :
    (¬ fs.InRange length s ∧ ∃ p, fs.coalesce least length fuel s = .error (.panic p)) ∨
      fs.Joined least (length - s.bytes + s.dataOffset) s.cluster s
        (fs.coalesce least length fuel s) := by
  induction fuel generalizing s with
  | zero => omega
  | succ fuel ih =>
    have hpos := hfs.bytesPerCluster_pos
    rcases coalesce_checked hfs hoffset hbytes with habort | hturn
    · exact .inl habort
    rw [hturn, mergeTurn]
    by_cases hrest : length - s.bytes + s.dataOffset ≤ fs.bytesPerCluster
    · rw [if_pos hrest]
      exact .inr (joined_of_le hpos hzero hrest)
    rw [if_neg (by omega), if_neg hrest]
    obtain ⟨rest, hsplit⟩ : ∃ rest, length - s.bytes + s.dataOffset = rest + fs.bytesPerCluster :=
      ⟨_, (Nat.sub_add_cancel (not_le.mp hrest).le).symm⟩
    rw [hsplit]
    by_cases hnext : fs.getNextCluster s.cluster = some (s.cluster + 1)
    · rw [hnext]
      dsimp only
      rw [if_neg (not_not.mpr rfl)]
      have htail := ih { s with
          sectors := s.sectors + fs.sectorsPerCluster
          bytes := s.bytes + (fs.bytesPerCluster - s.dataOffset)
          dataOffset := 0
          cluster := s.cluster + 1 } (Nat.zero_le _) hpos (.inr ⟨rfl, by dsimp only; omega⟩)
        (by dsimp only; omega) (by dsimp only; omega)
      rcases htail with ⟨hrange, habort⟩ | hjoined
      · exact .inl ⟨fun h => hrange (h.next hlt (getNextCluster_lt hnext).2), habort⟩
      · right
        have hleft : length - (s.bytes + (fs.bytesPerCluster - s.dataOffset)) + 0 = rest := by omega
        dsimp only at hjoined
        rw [hleft] at hjoined
        exact joined_of_next hfs hjoined (by omega) hlt hnext rfl rfl ⟨rfl, rfl, rfl⟩
    · right
      have hapart : fs.Joined least (rest + fs.bytesPerCluster) s.cluster s _ :=
        joined_of_apart hpos (by omega) hnext
      convert hapart using 1
      cases hcluster : fs.getNextCluster s.cluster with
      | none => rfl
      | some next =>
        dsimp only
        rw [if_pos]
        rintro rfl
        exact hnext hcluster

/-- Where its numbers fit their types, the loop does not abort. -/
theorem coalesce_not_panic (hfs : fs.Geometry) (least length fuel : ℕ) (s : Span)
    (hoffset : s.dataOffset ≤ fs.bytesPerSector) (hlt : s.dataOffset < fs.bytesPerCluster)
    (hbytes : s.bytes ≤ length) (hrange : fs.InRange length s) (p : Panic) :
    fs.coalesce least length fuel s ≠ .error (.panic p) := by
  induction fuel generalizing s with
  | zero => simp [coalesce]
  | succ fuel ih =>
    rw [(coalesce_checked hfs hoffset hbytes).resolve_left fun habort => habort.1 hrange, mergeTurn]
    split_ifs with hleft hrest
    · simp
    · simp
    · cases hnext : fs.getNextCluster s.cluster with
      | none => simp
      | some next =>
        dsimp only
        split_ifs
        · simp
        · exact ih _ (Nat.zero_le _) hfs.bytesPerCluster_pos (by dsimp only; omega)
            (hrange.next hlt (getNextCluster_lt hnext).2)

/-! ## The span of a turn -/

/-- The piece that a turn from a cluster on handles, or `none` where it returns `Err`. -/
def linkedPiece (fs : Fat32) (least length c dataOffset : ℕ) : Option Piece :=
  let rest := length + fs.residue dataOffset
  let links := fs.straight c ((rest - 1) / fs.bytesPerCluster)
  let address := fs.clusterStart c + fs.skipped dataOffset * fs.bytesPerSector
  if links = (rest - 1) / fs.bytesPerCluster then
    if (rest - 1) % fs.bytesPerCluster + 1 < least then none
    else some ⟨address, fs.sectorCount rest * fs.bytesPerSector, length, links + 1⟩
  else
    (fs.getNextCluster (c + links)).map fun _ =>
      ⟨address, (links + 1) * fs.bytesPerCluster,
        (links + 1) * fs.bytesPerCluster - fs.residue dataOffset, links + 1⟩

theorem linkedPiece_address {least length c dataOffset : ℕ} {p : Piece}
    (h : fs.linkedPiece least length c dataOffset = some p) :
    p.address = fs.clusterStart c + fs.skipped dataOffset * fs.bytesPerSector := by
  simp only [linkedPiece] at h
  split_ifs at h
  · obtain rfl := Option.some.inj h
    rfl
  · obtain ⟨-, -, rfl⟩ := Option.map_eq_some_iff.mp h
    rfl

/-- A span that is a piece, up to its place on the disk. -/
structure Joins (fs : Fat32) (c dataOffset : ℕ) (p : Piece) (s : Span) : Prop where
  bytes : s.bytes = p.bytes
  cluster : s.cluster = c + p.clusters - 1
  dataOffsetBackup : s.dataOffsetBackup = fs.residue dataOffset
  sectorOffset : s.sectorOffset = fs.skipped dataOffset
  size : p.size = s.sectors * fs.bytesPerSector

theorem span_joins (hfs : fs.Geometry) {least length c dataOffset : ℕ}
    (hleast : least ≤ fs.bytesPerCluster) (hoffset : dataOffset < fs.bytesPerCluster)
    (hzero : least = 0 ∨ (fs.residue dataOffset = 0 ∧ 0 < length)) :
    (¬ fs.InRange length (fs.firstSpan c dataOffset) ∧
        ∃ p, fs.span least length c dataOffset = .error (.panic p)) ∨
      match fs.linkedPiece least length c dataOffset with
      | none => fs.span least length c dataOffset = .error .err
      | some p => ∃ s, fs.span least length c dataOffset = .ok s ∧ fs.Joins c dataOffset p s := by
  have hle := residue_le hfs dataOffset
  have hlt : fs.residue dataOffset < fs.bytesPerCluster := (Nat.sub_le _ _).trans_lt hoffset
  rw [span, ← coalesce_skipSectors hfs, skipSectors_first]
  rcases coalesce_joined hfs hleast length (length + 1) (fs.firstSpan c dataOffset) hle hlt
    (by simpa [firstSpan] using hzero) (Nat.zero_le _) (by dsimp only [firstSpan]; omega)
    with habort | hjoined
  · exact .inl habort
  right
  generalize fs.coalesce least length (length + 1) (fs.firstSpan c dataOffset) = result at *
  change fs.Joined least (length + fs.residue dataOffset) c (fs.firstSpan c dataOffset) result
    at hjoined
  unfold Joined at hjoined
  unfold linkedPiece
  dsimp only
  split_ifs at hjoined ⊢ with hwhole hleast
  · exact hjoined
  · obtain ⟨s, hok, hg⟩ := hjoined
    refine ⟨s, hok, ?_, ?_, hg.dataOffsetBackup, hg.sectorOffset, ?_⟩
    · rw [hg.bytes]
      dsimp only [firstSpan]
      omega
    · rw [hg.cluster, hwhole]
      rfl
    · rw [hg.sectors]
      dsimp only [firstSpan]
      rw [Nat.zero_add]
  · cases hnext : fs.getNextCluster (c + fs.straight c ((length + fs.residue dataOffset - 1) /
      fs.bytesPerCluster)) with
    | none =>
      rw [hnext] at hjoined
      exact hjoined
    | some next =>
      rw [hnext] at hjoined
      obtain ⟨s, hok, hg⟩ := hjoined
      refine ⟨s, hok, ?_, hg.cluster, hg.dataOffsetBackup, hg.sectorOffset, ?_⟩
      · rw [hg.bytes]
        exact Nat.zero_add _
      · rw [hg.sectors]
        dsimp only [firstSpan]
        rw [Nat.zero_add, Nat.mul_assoc]
        rfl

/-- Numbers of a volume and a length in their types. -/
structure Bounded (fs : Fat32) (length : ℕ) : Prop where
  geometry : fs.Geometry
  block : 0 < fs.lbaSize ∧ fs.lbaSize < 2 ^ 32
  base : fs.baseLba * fs.lbaSize < 2 ^ 63
  size : length < 2 ^ 32
  total : length + 2 * fs.bytesPerSector < 2 ^ 32 * fs.bytesPerSector

theorem WellFormed.bounded (h : fs.WellFormed) {length : ℕ} (hlength : length < 2 ^ 32) :
    fs.Bounded length := by
  refine ⟨h.geometry, h.block, h.baseLt, hlength, ?_⟩
  have hsector := h.sector_ge
  omega

theorem linkedPiece_le (hfs : fs.Geometry) {least length c dataOffset : ℕ} {p : Piece}
    (h : fs.linkedPiece least length c dataOffset = some p) :
    p.bytes ≤ length ∧ p.size ≤ length + 2 * fs.bytesPerSector := by
  have hresidue := residue_le hfs dataOffset
  have hround := fs.sectorCount_mul_le_add (length + fs.residue dataOffset)
  by_cases hstraight : fs.straight c ((length + fs.residue dataOffset - 1) / fs.bytesPerCluster) =
      (length + fs.residue dataOffset - 1) / fs.bytesPerCluster
  · simp only [linkedPiece, if_pos hstraight] at h
    split_ifs at h
    obtain rfl := Option.some.inj h
    exact ⟨le_rfl, by dsimp only; omega⟩
  · simp only [linkedPiece, if_neg hstraight, Option.map_eq_some_iff] at h
    obtain ⟨-, -, rfl⟩ := h
    have hlt := (straight_le c _).lt_of_ne hstraight
    have hmul := Nat.mul_le_mul_right fs.bytesPerCluster (Nat.succ_le_of_lt hlt)
    have hdiv := Nat.div_mul_le_self (length + fs.residue dataOffset - 1) fs.bytesPerCluster
    rw [Nat.succ_eq_add_one] at hmul
    exact ⟨by dsimp only; omega, by dsimp only; omega⟩

/-- Where its numbers fit their types, a turn has the sectors of its piece. -/
theorem Bounded.span_joins {length : ℕ} (h : fs.Bounded length) {least c dataOffset : ℕ}
    (hleast : least ≤ fs.bytesPerCluster) (hoffset : dataOffset < fs.bytesPerCluster)
    (hzero : least = 0 ∨ (fs.residue dataOffset = 0 ∧ 0 < length)) (hc : fs.HasCluster c) :
    match fs.linkedPiece least length c dataOffset with
    | none => fs.span least length c dataOffset = .error .err
    | some p => ∃ s, fs.span least length c dataOffset = .ok s ∧ fs.Joins c dataOffset p s ∧
      s.sectors < 2 ^ 32 ∧ fs.spanRange c s = .ok (p.address, p.size) := by
  have hresidue := residue_le h.geometry dataOffset
  have hhigh := hc.high
  have hrange : fs.InRange length (fs.firstSpan c dataOffset) :=
    ⟨h.size, h.total, by dsimp only [firstSpan]; omega, by dsimp only [firstSpan]; omega⟩
  have hspan := (Fat32.span_joins h.geometry hleast hoffset hzero).resolve_left
    fun habort => habort.1 hrange
  cases hpiece : fs.linkedPiece least length c dataOffset with
  | none =>
    rw [hpiece] at hspan
    exact hspan
  | some p =>
    rw [hpiece] at hspan
    obtain ⟨s, hok, hs⟩ := hspan
    have hsectors : s.sectors < 2 ^ 32 := by
      have hsize := (linkedPiece_le h.geometry hpiece).2
      rw [hs.size] at hsize
      exact Nat.lt_of_mul_lt_mul_right (hsize.trans_lt h.total)
    have hskip := skipped_lt h.geometry hoffset
    refine ⟨s, hok, hs, hsectors, ?_⟩
    rw [spanRange_ok h.geometry h.base hc (by rw [hs.sectorOffset]; exact hskip) hsectors,
      hs.sectorOffset, ← hs.size, linkedPiece_address hpiece]

/-! ## Runs -/

/-- The clusters from a cluster on are consecutive as far as a number of bytes reaches. -/
def Covers (fs : Fat32) (c rest : ℕ) : Prop :=
  ∀ e, (e + 1) * fs.bytesPerCluster < rest → ¬ fs.Breaks c e ∧ ¬ fs.Stops c e

theorem straight_eq_iff_covers (hpos : 0 < fs.bytesPerCluster) (c rest : ℕ) :
    fs.straight c ((rest - 1) / fs.bytesPerCluster) = (rest - 1) / fs.bytesPerCluster ↔
      fs.Covers c rest := by
  have hlt : ∀ e, e < (rest - 1) / fs.bytesPerCluster ↔ (e + 1) * fs.bytesPerCluster < rest := by
    intro e
    have hstep : fs.bytesPerCluster ≤ (e + 1) * fs.bytesPerCluster :=
      Nat.le_mul_of_pos_left _ (Nat.succ_pos e)
    rw [← Nat.succ_le_iff, Nat.le_div_iff_mul_le hpos, Nat.succ_eq_add_one]
    omega
  rw [straight_eq_iff]
  simp only [Covers, hlt]

theorem linkedPiece_covers (hpos : 0 < fs.bytesPerCluster) (least : ℕ) {n c dataOffset : ℕ}
    (h : fs.Covers c (n + fs.residue dataOffset)) :
    fs.linkedPiece least n c dataOffset =
      if (n + fs.residue dataOffset - 1) % fs.bytesPerCluster + 1 < least then none
      else some ⟨fs.clusterStart c + fs.skipped dataOffset * fs.bytesPerSector,
        fs.sectorCount (n + fs.residue dataOffset) * fs.bytesPerSector, n,
        (n + fs.residue dataOffset - 1) / fs.bytesPerCluster + 1⟩ := by
  have hstraight := (straight_eq_iff_covers hpos c _).mpr h
  simp only [linkedPiece, hstraight, if_true]

/-- A run that is too short ends with the chain, or with a break. -/
theorem linkedPiece_short (hpos : 0 < fs.bytesPerCluster) (least : ℕ) {n c dataOffset : ℕ}
    (h : ¬ fs.Covers c (n + fs.residue dataOffset)) :
    ∃ l, (l + 1) * fs.bytesPerCluster < n + fs.residue dataOffset ∧
      (∀ e, e < l → ¬ fs.Breaks c e ∧ ¬ fs.Stops c e) ∧
      ((fs.Stops c l ∧ fs.linkedPiece least n c dataOffset = none) ∨
        (fs.Breaks c l ∧ fs.linkedPiece least n c dataOffset =
          some ⟨fs.clusterStart c + fs.skipped dataOffset * fs.bytesPerSector,
            (l + 1) * fs.bytesPerCluster, (l + 1) * fs.bytesPerCluster - fs.residue dataOffset,
            l + 1⟩)) := by
  rw [← straight_eq_iff_covers hpos] at h
  have hlt := (straight_le c _).lt_of_ne h
  have hnext := getNextCluster_straight hlt
  have hwithin : (fs.straight c ((n + fs.residue dataOffset - 1) / fs.bytesPerCluster) + 1) *
      fs.bytesPerCluster < n + fs.residue dataOffset := by
    rw [← Nat.succ_le_iff, Nat.le_div_iff_mul_le hpos] at hlt
    have hmul := Nat.le_mul_of_pos_left fs.bytesPerCluster
      (Nat.succ_pos (fs.straight c ((n + fs.residue dataOffset - 1) / fs.bytesPerCluster)))
    rw [Nat.succ_eq_add_one] at hlt hmul
    omega
  refine ⟨_, hwithin, fun e he => ⟨not_breaks_straight he, not_stops_straight he⟩, ?_⟩
  simp only [linkedPiece, if_neg h]
  cases hc : fs.getNextCluster
      (c + fs.straight c ((n + fs.residue dataOffset - 1) / fs.bytesPerCluster)) with
  | none => exact .inl ⟨⟨_, follow_straight le_rfl, hc⟩, rfl⟩
  | some y =>
    exact .inr ⟨⟨_, y, follow_straight le_rfl, hc, fun heq => hnext (heq ▸ hc)⟩, rfl⟩

theorem follow_of_stops {c e : ℕ} (h : fs.Stops c e) {i : ℕ} (hi : e < i) :
    fs.follow c i = none := by
  obtain ⟨x, hx, hnone⟩ := h
  obtain ⟨j, rfl⟩ := Nat.exists_eq_add_of_le (show e + 1 ≤ i from hi)
  rw [follow_add, follow, hx]
  simp [hnone]

theorem not_breaks_of_stops {c e i : ℕ} (h : fs.Stops c e) (hi : e ≤ i) : ¬ fs.Breaks c i := by
  rintro ⟨x, y, hx, hy, -⟩
  have hnone := follow_of_stops h (Nat.lt_succ_of_le hi)
  rw [Nat.succ_eq_add_one, follow, hx, Option.bind_some, hy] at hnone
  cases hnone

/-- The last cluster of a run from a cluster on. -/
theorem follow_last {c l : ℕ} (hrun : ∀ e, e < l → ¬ fs.Breaks c e ∧ ¬ fs.Stops c e) :
    fs.follow c l = some (c + l) := by
  have hstraight : fs.straight c l = l := (straight_eq_iff c l).mpr hrun
  exact follow_straight hstraight.ge

/-- The cluster behind a run from a cluster on. -/
theorem follow_run {c l next : ℕ} (hrun : ∀ e, e < l → ¬ fs.Breaks c e ∧ ¬ fs.Stops c e)
    (hnext : fs.getNextCluster (c + l) = some next) : fs.follow c (l + 1) = some next := by
  rw [follow, follow_last hrun]
  exact hnext

end Min1visor.Fat.Fat32
