import Mt8169.Lib.GreedyGroups
import Mt8169.Layering.Budget

/-!
# The groups of extended layers

`ext_layer_grouping` attaches extended layers to the layer below them. A layer joins the group below
it if `is_overlap_on_yaxis` finds no overlap with a member and the base may have extended layers.
The test adds 32-bit numbers: a layer that ends beyond them is taken for one that ends above, and
then the members of a group need not be disjoint.
-/

namespace Mt8169.Layering

open MachineInt WeakestPre GreedyGroups LayerConfig DispInfo List Function Option Int

/-- The layers have no common line. -/
def LayerConfig.DisjointY (a b : LayerConfig) : Prop :=
  a.dstOffsetY + a.dstHeight ≤ b.dstOffsetY ∨ b.dstOffsetY + b.dstHeight ≤ a.dstOffsetY
  deriving Decidable

namespace Part

variable (p : Part)

variable (g : List ℕ) (i : ℕ)

/-- The layer is an extended one. -/
def extendedAt : Bool := p.layers[i]?.any LayerConfig.isExtended

/-- A layer that is not extended, and the extended layers above it. -/
structure Run (p : Part) (b k : ℕ) : Prop where
  lt : b + k < p.layers.length
  base : p.extendedAt b = false
  above : ∀ j, b < j → j ≤ b + k → p.extendedAt j = true

/-- The layers of a display are split into groups that the hardware can show. -/
structure WellGrouped (p : Part) : Prop where
  first : p.extendedAt 0 = false
  few : ∀ b k, p.Run b k → k ≤ 3
  disjoint : ∀ b k, p.Run b k → ∀ i j, b ≤ i → i < j → j ≤ b + k →
    ∀ x ∈ p.layers[i]?, ∀ y ∈ p.layers[j]?, x.DisjointY y
  base : ∀ b k, p.Run b k → 0 < k → b ≠ 0 ∧
    ∀ c ∈ p.layers[b]?, c.srcFmt ≠ .dim ∧ c.layerCaps.dispRsz = false
  plain : ∀ i, p.extendedAt i = true → ∀ c ∈ p.layers[i]?, mtkIsYuv c.srcFmt = false
  gles : ∀ i : ℕ, p.extendedAt i = true → ¬(p.head ≤ i ∧ i ≤ p.tail + 1)

/-- `is_overlap_on_yaxis` for two layers of the display. -/
def overlapAt (m i : ℕ) : Bool :=
  p.layers[m]?.any fun a => p.layers[i]?.any fun b => isOverlapOnYaxis a b

/-- The layer may be the base of a group. -/
def baseAt (m : ℕ) : Bool := p.layers[m]?.all fun a => isExtendedBaseLayerValid a m

/-- `is_continuous_ext_layer_overlap` for a layer above a group. -/
def overlaps : Bool :=
  g.any (fun m => p.overlapAt m i) || !g.getLast?.all p.baseAt

/-- A layer becomes an extended one of the group below it. -/
def joins : Bool :=
  !(p.inGles i || p.inGles ((i : ℤ) - 1)) &&
    (!p.overlaps g i && !p.layers[i]?.any (fun c => mtkIsYuv c.srcFmt) && decide (g.length ≤ 3))

/-- The members of a group have no common lines. -/
def apart : Bool :=
  decide (∀ i ∈ g, ∀ j ∈ g, i < j → ∀ x ∈ p.layers[i]?, ∀ y ∈ p.layers[j]?, x.DisjointY y)

/-- The groups of the rule with sums that do not wrap. -/
def exactGroup : List ℕ := group (ensuring p.joins p.apart) i

/-- No layer joins a group that it has common lines with. -/
def Told : Prop :=
  ∀ i, i + 1 < p.layers.length → p.joins (p.exactGroup i) (i + 1) = true →
    p.apart ((i + 1) :: p.exactGroup i) = true

variable {p : Part}

theorem overlaps_cons {g : List ℕ} (hne : g ≠ []) (k i : ℕ) :
    p.overlaps (k :: g) i = (p.overlapAt k i || p.overlaps g i) := by
  rw [overlaps, overlaps, any_cons, getLast?_cons_of_ne_nil hne, Bool.or_assoc]

theorem overlaps_singleton (k i : ℕ) : p.overlaps [k] i = (p.overlapAt k i || !p.baseAt k) := by
  simp [overlaps]

variable {i : ℕ}

/-- A layer joins a group of at most three if it overlaps none of them. -/
theorem joins_iff {g : List ℕ} :
    p.joins g i = true ↔ (p.inGles i = false ∧ p.inGles ((i : ℤ) - 1) = false) ∧
      ((∀ m ∈ g, p.overlapAt m i = false) ∧ ∀ m ∈ g.getLast?, p.baseAt m = true) ∧
      (∀ c ∈ p.layers[i]?, mtkIsYuv c.srcFmt = false) ∧ g.length ≤ 3 := by
  rw [joins, overlaps]
  simp [and_assoc, Option.all_eq_true, Option.any_eq_false]

theorem not_gles_of_joined (hrange : p.RangeOk)
    (hjoined : joined p.joins i = true) : ¬(p.head ≤ i ∧ i ≤ p.tail + 1) := by
  cases i with
  | zero => cases hjoined
  | succ i =>
    obtain ⟨hself, hbelow⟩ := (joins_iff.mp hjoined).1
    rw [inGles, decide_eq_false_iff_not] at hself hbelow
    rw [RangeOk] at hrange
    omega

/-- The layers with given values of `ext_sel_layer`. -/
def withExt (e : ℕ → ℤ) : Part :=
  { p with layers := p.layers.mapIdx fun i c => c.setExt (e i) }

section WithExt

variable {p : Part} {e : ℕ → ℤ} {i : ℕ}

theorem getElem?_withExt : (p.withExt e).layers[i]? = p.layers[i]?.map (setExt (e i)) := by
  rw [withExt, getElem?_mapIdx]

theorem length_withExt : (p.withExt e).layers.length = p.layers.length := by
  rw [withExt, length_mapIdx]

theorem modify_withExt (ext : ℤ) :
    (p.withExt e).layers.modify i (setExt ext) =
      (p.withExt (update e i ext)).layers := by
  apply ext_getElem?
  intro j
  rw [getElem?_modify, getElem?_withExt, getElem?_withExt]
  by_cases hj : i = j
  · subst hj
    rw [update_self]
    cases p.layers[i]? <;> simp [setExt]
  · rw [update_of_ne (Ne.symm hj)]
    simp [hj]

theorem exists_withExt (p : Part) : ∃ e, p.withExt e = p := by
  refine ⟨fun i => p.layers[i]?.elim (-1) extSelLayer, ?_⟩
  rw [withExt, mk.injEq]
  refine ⟨ext_getElem? fun i => ?_, rfl, rfl⟩
  rw [getElem?_mapIdx]
  cases p.layers[i]? <;> rfl

end WithExt

/-- The result of the grouping: the layers that join a group are extended. -/
structure GroupsTo (p p' : Part) (n : ℕ) : Prop where
  eq : ∃ e, p' = p.withExt e ∧ ∀ i < p.layers.length, (e i ≠ -1 ↔ i < n ∧ joined p.joins i = true)

variable {p p' : Part} {n i : ℕ}

section

variable (h : p.GroupsTo p' n)
include h

theorem GroupsTo.length : p'.layers.length = p.layers.length := by
  obtain ⟨e, rfl, -⟩ := h.eq
  exact length_withExt

theorem GroupsTo.range : p'.head = p.head ∧ p'.tail = p.tail := by
  obtain ⟨e, rfl, -⟩ := h.eq
  exact ⟨rfl, rfl⟩

theorem GroupsTo.layer (hi : i < p.layers.length) :
    ∃ a c, p.layers[i]? = some a ∧ p'.layers[i]? = some c ∧ c.clearExt = a.clearExt ∧
      (c.isExtended = true ↔ i < n ∧ joined p.joins i = true) := by
  obtain ⟨e, rfl, he⟩ := h.eq
  refine ⟨p.layers[i], p.layers[i].setExt (e i), getElem?_eq_getElem hi, ?_, rfl, ?_⟩
  · rw [getElem?_withExt, getElem?_eq_getElem hi]
    rfl
  · rw [← he i hi, isExtended, decide_eq_true_eq]
    rfl

theorem GroupsTo.extendedAt (hi : i < p.layers.length) :
    p'.extendedAt i = true ↔ i < n ∧ joined p.joins i = true := by
  obtain ⟨a, c, -, hc, -, hext⟩ := h.layer hi
  rw [Part.extendedAt, hc, any_some, hext]

theorem GroupsTo.of_extendedAt (hext : p'.extendedAt i = true) :
    i < n ∧ joined p.joins i = true := by
  refine (h.extendedAt ?_).mp hext
  rw [← h.length]
  by_contra hle
  rw [Part.extendedAt, getElem?_eq_none (Nat.not_lt.mp hle)] at hext
  cases hext

theorem GroupsTo.join (hn : n < p.layers.length)
    (hjoined : joined p.joins n = true) {ext : ℤ} (hext : ext ≠ -1) :
    p.GroupsTo { p' with layers := p'.layers.modify n (setExt ext) } (n + 1) := by
  obtain ⟨e, rfl, he⟩ := h.eq
  refine ⟨update e n ext, ?_, fun i hi => ?_⟩
  · rw [modify_withExt]
    rfl
  · by_cases hin : i = n
    · subst hin
      rw [update_self]
      exact iff_of_true hext ⟨Nat.lt_succ_self _, hjoined⟩
    · rw [update_of_ne hin, he i hi]
      have hlt : i < n ↔ i < n + 1 := by omega
      rw [hlt]

theorem GroupsTo.begin (hjoined : joined p.joins n = false) : p.GroupsTo p' (n + 1) := by
  obtain ⟨e, rfl, he⟩ := h.eq
  refine ⟨e, rfl, fun i hi => ?_⟩
  rw [he i hi]
  by_cases hin : i = n
  · subst hin
    simp [hjoined]
  · have hlt : i < n ↔ i < n + 1 := by omega
    rw [hlt]

end

end Part

section Rule

variable {d : HrtDisp} {s : DispInfo} {p : Part} {n : ℕ}

theorem isOverlapOnYaxis_clearExt (a b : LayerConfig) :
    isOverlapOnYaxis a.clearExt b.clearExt = isOverlapOnYaxis a b := rfl

theorem isExtendedBaseLayerValid_clearExt (a : LayerConfig) (i : ℤ) :
    isExtendedBaseLayerValid a.clearExt i = isExtendedBaseLayerValid a i := rfl

theorem Part.GroupsTo.layer? (h : p.GroupsTo (s.part d) n) (hi : i < p.layers.length) :
    ∃ a c, p.layers[i]? = some a ∧ s.layer? d i = some c ∧ c.clearExt = a.clearExt ∧
      (c.isExtended = true ↔ i < n ∧ joined p.joins i = true) := by
  obtain ⟨a, c, ha, hc, hsame, hext⟩ := h.layer hi
  refine ⟨a, c, ha, ?_, hsame, hext⟩
  rw [layer?_eq_part, Part.layer?, if_pos (natCast_nonneg i), toNat_natCast]
  exact hc

/-- The search looks at the layers of the group below. -/
theorem wp_isContinuousExtLayerOverlap (h : p.GroupsTo (s.part d) (n + 1))
    (hn : n + 1 < p.layers.length) :
    wp (isContinuousExtLayerOverlap d ((n + 1 : ℕ) : ℤ))
      (fun r s' => s' = s ∧ r = p.overlaps (group p.joins n) (n + 1)) s := by
  obtain ⟨b, dst, hb, hdst, hsame, -⟩ := h.layer? hn
  rw [isContinuousExtLayerOverlap, wp_readLayer hdst]
  apply wp_foldDown (fun k overlapped s' => s' = s ∧ overlapped = false ∧ 0 ≤ k ∧
    p.overlaps (group p.joins n) (n + 1) = p.overlaps (group p.joins k.toNat) (n + 1))
  · omega
  · refine ⟨rfl, rfl, by omega, ?_⟩
    congr
    omega
  · rintro k overlapped _ hlo hhi ⟨rfl, rfl, -, hrest⟩
    obtain ⟨k, rfl⟩ := eq_ofNat_of_zero_le hlo
    obtain ⟨a, src, ha, hsrc, hsame', hext⟩ := h.layer? (i := k) (by omega)
    have htest : isOverlapOnYaxis src dst = p.overlapAt k (n + 1) := by
      rw [Part.overlapAt, ha, hb, any_some, any_some, ← isOverlapOnYaxis_clearExt,
        hsame, hsame', isOverlapOnYaxis_clearExt]
    have hbase : isExtendedBaseLayerValid src k = p.baseAt k := by
      rw [Part.baseAt, ha, all_some, ← isExtendedBaseLayerValid_clearExt, hsame',
        isExtendedBaseLayerValid_clearExt]
    rw [wp_readLayer hsrc, Bool.false_or, htest, hbase, wp_ite]
    refine ⟨fun hsrcExt => ?_, fun hsrcExt => ?_⟩
    · -- an extended layer has joined the group below it
      obtain ⟨hk, hjoined⟩ := hext.mp hsrcExt
      cases k with
      | zero => cases hjoined
      | succ k =>
        rw [toNat_natCast, group_of_joined hjoined,
          Part.overlaps_cons (group_ne_nil p.joins k)] at hrest
        cases hover : p.overlapAt (k + 1) (n + 1) with
        | true =>
          rw [hover, Bool.true_or] at hrest
          exact wp_break.mpr ⟨rfl, hrest.symm⟩
        | false =>
          rw [hover, Bool.false_or] at hrest
          refine wp_continue.mpr ⟨rfl, rfl, by omega, ?_⟩
          rw [hrest]
          congr
          omega
    · -- another layer is the base of the group
      have hjoined : joined p.joins k = false := by
        rw [← Bool.not_eq_true]
        exact fun hjoined => hsrcExt (hext.mpr ⟨by omega, hjoined⟩)
      rw [toNat_natCast, group_of_not_joined hjoined, Part.overlaps_singleton] at hrest
      rw [wp_break]
      exact ⟨rfl, hrest.symm⟩
  · rintro overlapped _ ⟨-, -, hneg, -⟩
    omega

/-- The counters of the rule belong to the groups. -/
structure Grouping.Counts (g : Grouping) (p : Part) (n : ℕ) : Prop where
  cnt : g.contExtLayerCnt + 1 = (group p.joins n).length
  idx : g.extIdx ≠ -1

/-- Only the layers of one display have changed. -/
structure OnlyPart (d : HrtDisp) (s s' : DispInfo) : Prop where
  others : ∀ d', d' ≠ d → s'.part d' = s.part d'
  entries : s'.yEntryList = s.yEntryList

theorem OnlyPart.refl (d : HrtDisp) (s : DispInfo) : OnlyPart d s s := ⟨fun _ _ => rfl, rfl⟩

theorem OnlyPart.modifyAt {s' : DispInfo} (h : OnlyPart d s s') (i : ℤ)
    (f : LayerConfig → LayerConfig) : OnlyPart d s (s'.modifyAt d i f) where
  others := fun d' hd' => by rw [parts_modifyAt, update_of_ne hd', h.others d' hd']
  entries := h.entries

/-- A round of the loop groups one layer more. -/
theorem wp_groupLayer (hrange : p.RangeOk) (h : p.GroupsTo (s.part d) (n + 1))
    (hn : n + 1 < p.layers.length) {g : Grouping} (hg : g.Counts p n) {s0 : DispInfo}
    (honly : OnlyPart d s0 s) :
    wp (groupLayer d ((n + 1 : ℕ) : ℤ) g) (fun g' s' => p.GroupsTo (s'.part d) (n + 1 + 1) ∧
      g'.Counts p (n + 1) ∧ OnlyPart d s0 s') s := by
  have hgles (i : ℤ) : s.isGlesLayer d i = p.inGles i := by
    obtain ⟨hhead, htail⟩ := h.range
    rw [Part.inGles, ← hhead, ← htail]
    rfl
  obtain ⟨hhead, htail⟩ : s.glesHead d = p.head ∧ s.glesTail d = p.tail := h.range
  obtain ⟨b, dst, hb, hdst, hsame, -⟩ := h.layer? hn
  have hfmt : dst.clearExt.srcFmt = b.clearExt.srcFmt := by rw [hsame]
  -- the layer does not join the group
  have hbegin (hjoins : joined p.joins (n + 1) = false) {ext : ℤ} (hext : ext ≠ -1) :
      p.GroupsTo (s.part d) (n + 1 + 1) ∧ (⟨0, ext⟩ : Grouping).Counts p (n + 1) ∧
        OnlyPart d s0 s := by
    refine ⟨h.begin hjoins, ⟨?_, hext⟩, honly⟩
    rw [group_of_not_joined hjoins]
    rfl
  have hidx : (((n + 1 : ℕ) : ℤ) - (p.tail - p.head)) ≠ -1 ∨ ((n + 1 : ℕ) : ℤ) ≤ p.tail := by
    rw [Part.RangeOk] at hrange
    omega
  rw [groupLayer, wp_read, hgles, hgles, hhead, htail, wp_ite]
  refine ⟨fun hskip => ?_, fun hskip => ?_⟩
  · rw [wp_pure]
    apply hbegin
    · rw [joined, Part.joins, hskip]
      rfl
    · have hextIdx := hg.idx
      split <;> omega
  · rw [Bool.not_eq_true] at hskip
    refine (wp_isContinuousExtLayerOverlap h hn).seq ?_
    rintro overlap _ ⟨rfl, rfl⟩
    rw [wp_readLayer hdst]
    have hlen : decide (g.contExtLayerCnt < 3) = decide ((group p.joins n).length ≤ 3) := by
      rw [← hg.cnt]
      apply decide_eq_decide.mpr
      omega
    have hjoins : (!p.overlaps (group p.joins n) (n + 1) && !mtkIsYuv dst.srcFmt &&
        decide (g.contExtLayerCnt < 3)) = joined p.joins (n + 1) := by
      rw [joined, Part.joins, hskip, hlen, hb, any_some]
      exact congrArg (fun fmt => !p.overlaps (group p.joins n) (n + 1) && !mtkIsYuv fmt &&
        decide ((group p.joins n).length ≤ 3)) hfmt
    rw [hjoins, wp_ite]
    refine ⟨fun hjoin => ?_, fun hjoin => ?_⟩
    · rw [wp_bind, wp_modifyLayer, wp_pure, layerNum_eq_part, h.length]
      refine ⟨by omega, ?_, ⟨?_, hg.idx⟩, honly.modifyAt _ _⟩
      · rw [parts_modifyAt, update_self, toNat_natCast]
        exact h.join hn hjoin hg.idx
      · rw [group_of_joined hjoin, length_cons, ← hg.cnt]
    · rw [wp_pure]
      refine hbegin (Bool.not_eq_true _ ▸ hjoin) ?_
      split <;> omega

theorem wp_clearExts :
    wp (forLayers d fun i => modifyLayer d i clearExt) (fun _ s' =>
      s'.part d = (s.part d).withExt (fun _ => -1) ∧ OnlyPart d s s') s := by
  rw [forLayers, wp_read, layerNum_eq_part]
  apply wp_forUp (fun i s' => (∃ e, s'.part d = (s.part d).withExt e ∧
    ∀ j : ℕ, (j : ℤ) < i → e j = -1) ∧ OnlyPart d s s')
  · omega
  · obtain ⟨e, he⟩ := (s.part d).exists_withExt
    exact ⟨⟨e, he.symm, fun j hj => by omega⟩, OnlyPart.refl d s⟩
  · rintro i s' hlo hhi ⟨⟨e, he, hcleared⟩, honly⟩
    obtain ⟨i, rfl⟩ := eq_ofNat_of_zero_le hlo
    rw [wp_modifyLayer, layerNum_eq_part, he, Part.length_withExt]
    refine ⟨⟨hlo, hhi⟩, ⟨update e i (-1), ?_, fun j hj => ?_⟩, honly.modifyAt _ _⟩
    · rw [parts_modifyAt, update_self, he, toNat_natCast]
      exact congrArg (Part.mk · _ _) (Part.modify_withExt (-1))
    · by_cases hij : j = i
      · rw [hij, update_self]
      · rw [update_of_ne hij]
        exact hcleared j (by omega)
  · rintro s' ⟨⟨e, he, hcleared⟩, honly⟩
    refine ⟨?_, honly⟩
    rw [he, Part.withExt, Part.withExt, Part.mk.injEq]
    refine ⟨ext_getElem? fun i => ?_, rfl, rfl⟩
    rw [getElem?_mapIdx, getElem?_mapIdx]
    cases hc : (s.part d).layers[i]? with
    | none => rfl
    | some c =>
      obtain ⟨hlt, -⟩ := List.getElem?_eq_some_iff.mp hc
      rw [hcleared i (by omega)]

theorem Part.GroupsTo.start (p : Part) : p.GroupsTo (p.withExt fun _ => -1) 0 := by
  refine ⟨fun _ => -1, rfl, fun i _ => ?_⟩
  simp

/-- The number of layers that the rule goes through. -/
def groupedNum (env : LayeringEnv) (d : HrtDisp) (p : Part) : ℕ :=
  if env.optExtLayer && decide (d = .primary) then p.layers.length else 0

/-- The loop groups all layers of the primary display. -/
theorem wp_groupDisplay_part (env : LayeringEnv)
    (hrange : d = .primary → 0 < (s.part d).layers.length → (s.part d).RangeOk) :
    wp (groupDisplay env d) (fun _ s' =>
      (s.part d).GroupsTo (s'.part d) (groupedNum env d (s.part d)) ∧ OnlyPart d s s') s := by
  rw [groupDisplay, wp_bind]
  refine wp_clearExts.mono ?_
  rintro _ s1 ⟨hclear, honly⟩
  have hstart := Part.GroupsTo.start (s.part d)
  rw [← hclear] at hstart
  rw [wp_ite]
  refine ⟨fun hopt => ?_, fun hopt => ?_⟩
  · rw [wp_read, wp_bind, layerNum_eq_part, hstart.length, groupedNum, if_pos hopt]
    have hprimary : d = .primary := of_decide_eq_true (Bool.and_eq_true_iff.mp hopt).2
    rcases Nat.eq_zero_or_pos (s.part d).layers.length with hzero | hpos
    · rw [hzero]
      exact ⟨hstart, honly⟩
    apply wp_foldUp (fun i g s' => ∃ n : ℕ, i = ((n + 1 : ℕ) : ℤ) ∧
      (s.part d).GroupsTo (s'.part d) (n + 1) ∧ g.Counts (s.part d) n ∧ OnlyPart d s s') (by omega)
    · exact ⟨0, rfl, hstart.begin rfl, ⟨rfl, by decide⟩, honly⟩
    · rintro _ g s2 - hhi ⟨n, rfl, h2, hg, honly2⟩
      refine (wp_groupLayer (hrange hprimary hpos) h2 (by omega) hg honly2).seq ?_
      rintro g' s3 ⟨h3, hg', honly3⟩
      rw [wp_continue]
      exact ⟨n + 1, by omega, h3, hg', honly3⟩
    · rintro g s2 ⟨n, hn, h2, -, honly2⟩
      rw [wp_pure]
      refine ⟨?_, honly2⟩
      have hlen : (s.part d).layers.length = n + 1 := by omega
      rw [hlen]
      exact h2
  · rw [wp_pure, groupedNum, if_neg hopt]
    exact ⟨hstart, honly⟩

theorem wp_extLayerGrouping_part (env : LayeringEnv)
    (hrange : 0 < (s.part .primary).layers.length → (s.part .primary).RangeOk) :
    wp (extLayerGrouping env) (fun _ s' =>
      (∀ d, (s.part d).GroupsTo (s'.part d) (groupedNum env d (s.part d))) ∧
        s'.yEntryList = s.yEntryList) s := by
  refine (wp_each_parts (fun d (s : DispInfo) => s.part d) yEntryList
    (fun d (p p' : Part) => p.GroupsTo p' (groupedNum env d p)) (by decide) ?_).mono ?_
  · intro d _ s' hpart
    refine (wp_groupDisplay_part env fun hd => ?_).mono ?_
    · rw [hpart, hd]
      exact hrange
    · exact fun _ _ h => ⟨h.1, h.2.others, h.2.entries⟩
  · exact fun _ s' h => ⟨fun d => h.1 d d.mem_all, h.2.2⟩

end Rule

namespace Part

variable {p p' : Part}

theorem WellGrouped.of_plain (h : ∀ i, p.extendedAt i = false) : p.WellGrouped := by
  have hzero (b k : ℕ) (hrun : p.Run b k) : k = 0 := by
    by_contra hpos
    have habove := hrun.above (b + 1) (by omega) (by omega)
    rw [h] at habove
    cases habove
  refine ⟨h 0, ?_, ?_, ?_, ?_, ?_⟩
  · intro b k hrun
    rw [hzero b k hrun]
    omega
  · intro b k hrun i j hlo hij hhi
    have hk := hzero b k hrun
    omega
  · intro b k hrun hpos
    have hk := hzero b k hrun
    omega
  all_goals
    intro i hext
    rw [h] at hext
    cases hext

section Result

variable (h : p.GroupsTo p' p.layers.length)

include h

theorem GroupsTo.forall_layer {P : LayerConfig → Prop} (hP : ∀ c ext, P (setExt ext c) ↔ P c)
    (i : ℕ) : (∀ c ∈ p'.layers[i]?, P c) ↔ ∀ c ∈ p.layers[i]?, P c := by
  obtain ⟨e, rfl, -⟩ := h.eq
  rw [getElem?_withExt]
  cases p.layers[i]? with
  | none => simp
  | some c => simp [hP]

/-- A run of extended layers is a group. -/
theorem GroupsTo.run_iff (b k : ℕ) :
    p'.Run b k ↔ b + k < p.layers.length ∧ joined p.joins b = false ∧
      ∀ j, b < j → j ≤ b + k → joined p.joins j = true := by
  have hext (i : ℕ) (hi : i < p.layers.length) : p'.extendedAt i = joined p.joins i := by
    rw [Bool.eq_iff_iff, h.extendedAt hi]
    exact and_iff_right hi
  constructor
  · rintro ⟨hlt, hbase, habove⟩
    rw [h.length] at hlt
    refine ⟨hlt, hext b (by omega) ▸ hbase, fun j hlo hhi => ?_⟩
    exact hext j (by omega) ▸ habove j hlo hhi
  · rintro ⟨hlt, hbase, habove⟩
    refine ⟨h.length ▸ hlt, hext b (by omega) ▸ hbase, fun j hlo hhi => ?_⟩
    exact hext j (by omega) ▸ habove j hlo hhi

theorem GroupsTo.passed (hext : p'.extendedAt i = true) :
    ∃ n, i = n + 1 ∧ p.joins (group p.joins n) (n + 1) = true := by
  obtain ⟨-, hjoined⟩ := h.of_extendedAt hext
  cases i with
  | zero => cases hjoined
  | succ n => exact ⟨n, rfl, hjoined⟩

theorem GroupsTo.disjoint_iff :
    (∀ b k, p'.Run b k → ∀ i j, b ≤ i → i < j → j ≤ b + k →
      ∀ x ∈ p'.layers[i]?, ∀ y ∈ p'.layers[j]?, x.DisjointY y) ↔ p.Told := by
  have hlayers (i j : ℕ) : (∀ x ∈ p'.layers[i]?, ∀ y ∈ p'.layers[j]?, x.DisjointY y) ↔
      ∀ x ∈ p.layers[i]?, ∀ y ∈ p.layers[j]?, x.DisjointY y := by
    rw [h.forall_layer (P := fun x => ∀ y ∈ p'.layers[j]?, x.DisjointY y) (fun _ _ => Iff.rfl) i]
    exact forall₂_congr fun x _ => h.forall_layer (P := x.DisjointY) (fun _ _ => Iff.rfl) j
  -- a run is the group of its last layer
  have hmember {b k : ℕ} (hbase : joined p.joins b = false)
      (habove : ∀ j, b < j → j ≤ b + k → joined p.joins j = true) (i : ℕ) :
      i ∈ group p.joins (b + k) ↔ b ≤ i ∧ i ≤ b + k := by
    rw [group_add hbase habove, mem_reverse, mem_range'_1]
    omega
  have hone (i : ℕ) : p.apart [i] = true := by
    simp [apart]
  have hgroups := forall_good_iff p.joins hone (n := p.layers.length)
  refine Iff.trans ?_ hgroups
  simp only [apart, decide_eq_true_eq]
  constructor
  · intro hdisjoint i hi x hx y hy hlt
    obtain ⟨b, k, rfl, hbase, habove⟩ := exists_first p.joins i
    rw [hmember hbase habove] at hx hy
    have hrun := (h.run_iff b k).mpr ⟨hi, hbase, habove⟩
    exact (hlayers x y).mp (hdisjoint b k hrun x y hx.1 hlt hy.2)
  · intro hall b k hrun i j hlo hlt hhi
    obtain ⟨hi, hbase, habove⟩ := (h.run_iff b k).mp hrun
    refine (hlayers i j).mpr (hall (b + k) hi i ?_ j ?_ hlt)
    all_goals
      rw [hmember hbase habove]
      omega

/-- The groups are right exactly if the sums tell whether layers overlap. -/
theorem GroupsTo.wellGrouped_iff (hrange : p.RangeOk) : p'.WellGrouped ↔ p.Told := by
  refine ⟨fun hwell => h.disjoint_iff.mp hwell.disjoint, fun htold => ?_⟩
  refine ⟨?_, ?_, h.disjoint_iff.mpr htold, ?_, ?_, ?_⟩
  · rw [← Bool.not_eq_true]
    intro hext
    obtain ⟨n, hn, -⟩ := h.passed hext
    cases hn
  · intro b k hrun
    obtain ⟨hlt, hbase, habove⟩ := (h.run_iff b k).mp hrun
    cases k with
    | zero => omega
    | succ k =>
      have hjoins : p.joins (group p.joins (b + k)) (b + k + 1) = true :=
        habove (b + k + 1) (by omega) (by omega)
      have hlen := (joins_iff.mp hjoins).2.2.2
      rw [group_add hbase fun j hlo hhi => habove j hlo (by omega), length_reverse,
        length_range'] at hlen
      omega
  · intro b k hrun hpos
    obtain ⟨hlt, hbase, habove⟩ := (h.run_iff b k).mp hrun
    have hjoins : p.joins (group p.joins b) (b + 1) = true :=
      habove (b + 1) (by omega) (by omega)
    have hvalid := (joins_iff.mp hjoins).2.1.2 b (by rw [group_of_not_joined hbase]; rfl)
    rw [baseAt, getElem?_eq_getElem (by omega), all_some, isExtendedBaseLayerValid] at hvalid
    simp only [Bool.not_eq_true', Bool.or_eq_false_iff, decide_eq_false_iff_not] at hvalid
    refine ⟨fun hb => hvalid.1.1 (by omega), ?_⟩
    rw [h.forall_layer (P := fun c => c.srcFmt ≠ .dim ∧ c.layerCaps.dispRsz = false)
      (fun _ _ => Iff.rfl), getElem?_eq_getElem (by omega)]
    rintro c hc
    obtain rfl := some.inj hc
    exact ⟨hvalid.1.2, hvalid.2⟩
  · intro i hext
    obtain ⟨n, rfl, hjoins⟩ := h.passed hext
    rw [h.forall_layer (P := fun c => mtkIsYuv c.srcFmt = false) (fun _ _ => Iff.rfl)]
    exact (joins_iff.mp hjoins).2.2.1
  · intro i hext
    rw [h.range.1, h.range.2]
    exact not_gles_of_joined hrange (h.of_extendedAt hext).2

end Result

theorem told_of_fits (hfits : ∀ c ∈ p.layers, c.dstOffsetY + c.dstHeight < 2 ^ 32) : p.Told := by
  -- the test is exact
  have htest {m i : ℕ} (hover : p.overlapAt m i = false) :
      ∀ x ∈ p.layers[m]?, ∀ y ∈ p.layers[i]?, x.DisjointY y ∧ y.DisjointY x := by
    intro x hx y hy
    have hxfits := hfits x (mem_of_getElem? hx)
    have hyfits := hfits y (mem_of_getElem? hy)
    rw [overlapAt, mem_def.mp hx, mem_def.mp hy, any_some, any_some,
      isOverlapOnYaxis, u32_add hxfits, u32_add hyfits] at hover
    rw [DisjointY, DisjointY]
    split at hover
    · cases hover
    · rw [Bool.not_eq_false', decide_eq_true_eq] at hover
      omega
  have hapart (i : ℕ) : p.apart (p.exactGroup i) = true := by
    cases i with
    | zero => simp [exactGroup, group, apart]
    | succ i =>
      rw [exactGroup, group]
      split
      · rename_i hjoins
        exact (Bool.and_eq_true_iff.mp hjoins).2
      · simp [apart]
  intro i hi hjoins
  have hgroup := hapart i
  obtain ⟨hnone, -⟩ := (joins_iff.mp hjoins).2.1
  simp only [apart, decide_eq_true_eq] at hgroup ⊢
  intro x hx y hy hlt a ha b hb
  rcases mem_cons.mp hx with rfl | hx
  · rcases mem_cons.mp hy with rfl | hy
    · omega
    · exact (htest (hnone y hy) b hb a ha).2
  · rcases mem_cons.mp hy with rfl | hy
    · exact (htest (hnone x hx) a ha b hb).1
    · exact hgroup x hx y hy hlt a ha b hb

end Part

/-- After `ext_layer_grouping` the layers of the primary display are well grouped exactly if no
layer joins a group that it has common lines with. -/
theorem extLayerGrouping_wellGrouped_iff (env : LayeringEnv) {s : DispInfo}
    (hrange : (s.part .primary).RangeOk) :
    wp (extLayerGrouping env) (fun _ s' => (s'.part .primary).WellGrouped) s ↔
      (env.optExtLayer = true → (s.part .primary).Told) := by
  obtain ⟨_, s', hrun, hall, -⟩ := wp_iff.mp (wp_extLayerGrouping_part env fun _ => hrange)
  have hgroups := hall .primary
  rw [wp_of_run hrun]
  cases hopt : env.optExtLayer with
  | true =>
    rw [groupedNum, hopt, if_pos (by decide)] at hgroups
    rw [hgroups.wellGrouped_iff hrange]
    exact ⟨fun h _ => h, fun h => h rfl⟩
  | false =>
    rw [groupedNum, hopt, if_neg (by decide)] at hgroups
    refine iff_of_true (Part.WellGrouped.of_plain fun i => ?_) fun hfalse => (by cases hfalse)
    rw [← Bool.not_eq_true]
    exact fun hext => absurd (hgroups.of_extendedAt hext).1 (Nat.not_lt_zero i)

/-- A layer of the given lines. -/
def bandLayer (y height : ℕ) : LayerConfig :=
  { plainLayer with dstOffsetY := y, dstHeight := height }

/-- Three layers below each other. -/
def bands : DispInfo :=
  primaryOnly [bandLayer 0 100, bandLayer 100 100, bandLayer 200 100] (-1) (-1)

/-- The third layer of three bands is attached to the second one. -/
theorem extLayerGrouping_wellGrouped_iff_bands :
    (bands.part .primary).RangeOk ∧
      wp (extLayerGrouping (allOptions 400)) (fun _ s' => (s'.part .primary).WellGrouped) bands :=
  ⟨by decide, (extLayerGrouping_wellGrouped_iff (allOptions 400) (by decide)).mpr
    fun _ => Part.told_of_fits (by decide)⟩

/-- The second layer ends beyond 32 bits and is taken for one that ends on line five. -/
def wrapped : DispInfo :=
  primaryOnly [bandLayer 0 10, bandLayer 10 (2 ^ 32 - 5), bandLayer 20 10] (-1) (-1)

/-- The third layer is attached to the second one, though all of its lines are lines of that one. -/
theorem not_extLayerGrouping_wellGrouped :
    (wrapped.part .primary).RangeOk ∧
      ¬wp (extLayerGrouping (allOptions 400)) (fun _ s' => (s'.part .primary).WellGrouped)
        wrapped := by
  have hresult : wp (extLayerGrouping (allOptions 400)) (fun _ s' => (s'.part .primary).layers =
      [bandLayer 0 10, bandLayer 10 (2 ^ 32 - 5), (bandLayer 20 10).setExt 1]) wrapped := by
    decide +kernel
  refine ⟨by decide, fun hwell => ?_⟩
  obtain ⟨_, s', -, hlayers, hgrouped⟩ := wp_iff.mp (hresult.and hwell)
  have hrun : (s'.part .primary).Run 1 1 := by
    refine ⟨by rw [hlayers]; decide, by rw [Part.extendedAt, hlayers]; decide, fun j hlo hhi => ?_⟩
    obtain rfl : j = 2 := by omega
    rw [Part.extendedAt, hlayers]
    decide
  have hdisjoint := hgrouped.disjoint 1 1 hrun 1 2 (by decide) (by decide) (by decide)
  rw [hlayers] at hdisjoint
  exact absurd (hdisjoint _ rfl _ rfl) (by decide)

end Mt8169.Layering
