import Mt8169.Layering.Rollback

/-!
# The budget of overlays

The rollback of `dispatch_ovl_id` shares the overlays that the bandwidth allows among the displays.
The first display gets all but one for each display that follows, and what it leaves is for the next
one. If every display with a limit has a GLES range, or layers enough to use its share up, the
displays together need no more overlays than there are. Otherwise the rollback of the first other
one accesses a layer below the first.
-/

namespace Mt8169.Layering

open MachineInt WeakestPre DispInfo Display
open List hiding tail

/-- The shares of the displays with a limit. -/
def shares (limited : HrtDisp → Bool) (x : HrtDisp → Display) :
    List HrtDisp → ℤ → ℤ → List (HrtDisp × ℤ)
  | [], _, _ => []
  | d :: ds, valid, dispNum =>
    if limited d then
      (d, valid - dispNum) ::
        shares limited x ds ((x d).left (valid - dispNum) + dispNum) (dispNum - 1)
    else shares limited x ds valid dispNum

section Shares

variable {limited : HrtDisp → Bool} {x : HrtDisp → Display} {ds : List HrtDisp} {valid dispNum : ℤ}

theorem map_fst_shares (ds : List HrtDisp) (valid dispNum : ℤ) :
    (shares limited x ds valid dispNum).map Prod.fst = ds.filter limited := by
  induction ds generalizing valid dispNum with
  | nil => rfl
  | cons d ds ih =>
    unfold shares
    cases hd : limited d with
    | true => rw [if_pos rfl, map_cons, ih, filter_cons_of_pos hd]
    | false =>
      rw [if_neg Bool.false_ne_true, ih,
        filter_cons_of_neg (by rw [hd]; exact Bool.false_ne_true)]

theorem mem_of_mem_shares {p : HrtDisp × ℤ}
    (hp : p ∈ shares limited x ds valid dispNum) : p.1 ∈ ds := by
  have hmem := mem_map_of_mem (f := Prod.fst) hp
  rw [map_fst_shares] at hmem
  exact mem_of_mem_filter hmem

theorem shares_congr {x' : HrtDisp → Display} (h : ∀ d ∈ ds, x' d = x d) (valid dispNum : ℤ) :
    shares limited x' ds valid dispNum = shares limited x ds valid dispNum := by
  induction ds generalizing valid dispNum with
  | nil => rfl
  | cons d ds ih =>
    unfold shares
    rw [h d mem_cons_self]
    have htail : ∀ d' ∈ ds, x' d' = x d' := fun d' hd' => h d' (mem_cons_of_mem d hd')
    rw [ih htail, ih htail]

/-- The overlays that a display uses of its share. -/
def overlaysUsed (x : HrtDisp → Display) (p : HrtDisp × ℤ) : ℤ := p.2 - (x p.1).left p.2

theorem shares_le (hnum : ((ds.filter limited).length : ℤ) = dispNum + 1)
    (hvalid : dispNum + 1 ≤ valid) :
    (∀ p ∈ shares limited x ds valid dispNum, 1 ≤ p.2) ∧
      ((shares limited x ds valid dispNum).map (overlaysUsed x)).sum ≤ valid := by
  induction ds generalizing valid dispNum with
  | nil =>
    rw [filter_nil, length_nil] at hnum
    refine ⟨fun p hp => absurd hp not_mem_nil, ?_⟩
    change (0 : ℤ) ≤ valid
    omega
  | cons d ds ih =>
    unfold shares
    cases hd : limited d with
    | true =>
      rw [filter_cons_of_pos hd, length_cons] at hnum
      have hleft := (x d).left_nonneg (show 1 ≤ valid - dispNum by omega)
      have hrest : dispNum - 1 + 1 ≤ (x d).left (valid - dispNum) + dispNum := by omega
      obtain ⟨hone, hsum⟩ := ih (by omega) hrest
      rw [if_pos rfl, map_cons, sum_cons]
      refine ⟨?_, ?_⟩
      · intro p hp
        rcases mem_cons.mp hp with rfl | hp
        · dsimp only
          omega
        · exact hone p hp
      · unfold overlaysUsed at hsum ⊢
        dsimp only at hsum ⊢
        omega
    | false =>
      rw [filter_cons_of_neg (by rw [hd]; exact Bool.false_ne_true)] at hnum
      rw [if_neg Bool.false_ne_true]
      exact ih hnum hvalid

end Shares

variable {s1 s s' : DispInfo} {d : HrtDisp} {available left : ℤ} {ds : List HrtDisp}
  {ps : List (HrtDisp × ℤ)}

/-- The displays that have a share were rolled back, and the others were left as they were. -/
structure RolledAll (s : DispInfo) (ps : List (HrtDisp × ℤ)) (s' : DispInfo) : Prop where
  rolled : ∀ p ∈ ps, RolledTo (s.display p.1) p.2 ((s.display p.1).left p.2) (s'.display p.1)
  others : ∀ d, d ∉ ps.map Prod.fst → s'.display d = s.display d
  num : ∀ d, (s'.inputConfig d).length = (s.inputConfig d).length
  rest : s' = { s with
    inputConfig := s'.inputConfig, glesHead := s'.glesHead, glesTail := s'.glesTail }

theorem RolledAll.refl (s : DispInfo) : RolledAll s [] s where
  rolled := fun _ hp => absurd hp not_mem_nil
  others := fun _ _ => rfl
  num := fun _ => rfl
  rest := rfl

theorem RolledAll.cons
    (hone : Rolled s d available left s1) (h : RolledAll s1 ps s') (hd : d ∉ ps.map Prod.fst) :
    RolledAll s ((d, available) :: ps) s' where
  rolled := by
    intro p hp
    rcases mem_cons.mp hp with rfl | hmem
    · rw [h.others _ hd, ← hone.rolled.range.left_eq]
      exact hone.rolled
    · have hne : p.1 ≠ d := by
        rintro rfl
        exact hd (mem_map_of_mem hmem)
      have hrolled := h.rolled p hmem
      rw [(hone.others p.1 hne).2] at hrolled
      exact hrolled
  others := by
    intro d' hd'
    rw [map_cons, mem_cons, not_or] at hd'
    rw [h.others d' hd'.2]
    exact (hone.others d' hd'.1).2
  num := by
    intro d'
    rw [h.num d']
    by_cases hd' : d' = d
    · subst hd'
      exact hone.num
    · rw [(hone.others d' hd').1]
  rest := by
    rw [h.rest]
    conv_lhs => rw [hone.rest]

theorem Rolled.hasHrtLimit (h : Rolled s d available left s') : s'.hasHrtLimit = s.hasHrtLimit := by
  funext d'
  have hmode : s'.dispMode = s.dispMode := by rw [h.rest]
  have hnum : s'.layerNum d' = s.layerNum d' := by
    unfold DispInfo.layerNum
    by_cases hd : d' = d
    · rw [hd, h.num]
    · rw [(h.others d' hd).1]
  unfold DispInfo.hasHrtLimit
  rw [hnum, hmode]

/-- The displays that the rollback is for are ready. -/
def ReadyAll (s : DispInfo) (ds : List HrtDisp) : Prop :=
  ∀ d ∈ ds, s.hasHrtLimit d = true → (s.display d).Ready

theorem ReadyAll.tail (h : ReadyAll s (d :: ds)) (hd : d ∉ ds)
    (hone : Rolled s d available left s1) : ReadyAll s1 ds := by
  intro d' hd' hlimit
  have hne : d' ≠ d := by
    rintro rfl
    exact hd hd'
  rw [hone.hasHrtLimit] at hlimit
  rw [(hone.others d' hne).2]
  exact h d' (mem_cons_of_mem d hd') hlimit

theorem Rolled.shares_eq (hone : Rolled s d available left s1) (hd : d ∉ ds) (valid dispNum : ℤ) :
    shares s1.hasHrtLimit s1.display ds valid dispNum =
      shares s.hasHrtLimit s.display ds valid dispNum := by
  rw [hone.hasHrtLimit]
  apply shares_congr
  intro d' hd'
  have hne : d' ≠ d := by
    rintro rfl
    exact hd hd'
  exact (hone.others d' hne).2

theorem rollbackDisplays_cases (hnodup : ds.Nodup) (hready : ReadyAll s ds) (valid dispNum : ℤ) :
    let all := shares s.hasHrtLimit s.display ds valid dispNum
    (∀ p ∈ all, (s.display p.1).fits p.2 = true) ∧
        wp (rollbackDisplays ds valid dispNum) (fun _ => RolledAll s all) s ∨
      (¬∀ p ∈ all, (s.display p.1).fits p.2 = true) ∧
        ∀ Q, ¬wp (rollbackDisplays ds valid dispNum) Q s := by
  induction ds generalizing s valid dispNum with
  | nil =>
    refine Or.inl ⟨fun p hp => absurd hp not_mem_nil, ?_⟩
    unfold rollbackDisplays
    rw [wp_pure]
    exact RolledAll.refl s
  | cons d ds ih =>
    obtain ⟨hd, hnodup⟩ := nodup_cons.mp hnodup
    unfold rollbackDisplays shares
    simp only [wp_read]
    cases hlimit : s.hasHrtLimit d with
    | true =>
      have hdisplay := hready d mem_cons_self hlimit
      simp only [if_true, forall_mem_cons, wp_bind]
      by_cases hfirst : (s.display d).fits (valid - dispNum) = true
      · obtain ⟨left, s1, hrun, hone⟩ := wp_iff.mp (wp_rollbackToGPU hdisplay hfirst)
        have hleft := hone.rolled.range.left_eq
        have hsame := hone.shares_eq hd (left + dispNum) (dispNum - 1)
        have hfits : (∀ p ∈ shares s.hasHrtLimit s.display ds (left + dispNum) (dispNum - 1),
              (s1.display p.1).fits p.2 = true) ↔
            ∀ p ∈ shares s.hasHrtLimit s.display ds (left + dispNum) (dispNum - 1),
              (s.display p.1).fits p.2 = true := by
          refine forall₂_congr fun p hp => ?_
          have hne : p.1 ≠ d := by
            rintro rfl
            exact hd (mem_of_mem_shares hp)
          rw [(hone.others p.1 hne).2]
        have hrest := ih hnodup (hready.tail hd hone) (left + dispNum) (dispNum - 1)
        simp only [hsame, hfits] at hrest
        simp only [and_iff_right hfirst, wp_of_run hrun, ← hleft]
        refine hrest.imp_left fun hdone => ⟨hdone.1, hdone.2.mono fun _ s' h => ?_⟩
        apply RolledAll.cons hone h
        rw [map_fst_shares]
        exact fun hmem => hd (mem_of_mem_filter hmem)
      · refine Or.inr ⟨fun h => hfirst h.1, fun Q => ?_⟩
        exact not_wp_rollbackToGPU hdisplay (by simpa using hfirst) _
    | false =>
      simp only [Bool.false_eq_true, if_false]
      exact ih hnodup (fun d' hd' => hready d' (mem_cons_of_mem d hd')) valid dispNum

variable (env : LayeringEnv)

/-- The overlays that the displays with a limit need together. -/
def DispInfo.overlaysNeeded (s : DispInfo) : ℤ :=
  ((HrtDisp.all.filter s.hasHrtLimit).map (s.getPhyOvlLayerCnt env)).sum

variable (s : DispInfo) (validOvlCnt : ℤ)

/-- The rollback returns, the displays with a limit need no more overlays than there are, and the
GLES ranges keep their shape and contain the ones before. -/
def RollbackGood : Prop :=
  ∃ s', rollbackDisplays rollbackOrder validOvlCnt (s.getHrtDispNum - 1) s = .ok ((), s') ∧
    s'.overlaysNeeded env ≤ validOvlCnt ∧ (∀ d, (s'.display d).WellFormed) ∧
    ∀ d, 0 ≤ s.glesHead d → s'.glesHead d ≤ s.glesHead d ∧ s.glesTail d ≤ s'.glesTail d

/-- The shares of the rollback. -/
def DispInfo.rollbackShares : List (HrtDisp × ℤ) :=
  shares s.hasHrtLimit s.display rollbackOrder validOvlCnt (s.getHrtDispNum - 1)

/-- Every display with a limit has a GLES range or uses its share up. -/
def DispInfo.SharesFit : Prop :=
  ∀ p ∈ s.rollbackShares validOvlCnt, (s.display p.1).fits p.2 = true

/-- Without the option for extended layers, the extended ones that stay outside of the GLES ranges
need overlays as well. -/
def DispInfo.ExtendedFit : Prop :=
  ((s.rollbackShares validOvlCnt).map fun p =>
    overlaysUsed s.display p + (s.display p.1).extKept p.2).sum ≤ validOvlCnt

section Budget

variable {s s' : DispInfo} {validOvlCnt : ℤ}

theorem RolledAll.hasHrtLimit (h : RolledAll s ps s') : s'.hasHrtLimit = s.hasHrtLimit := by
  funext d
  have hmode : s'.dispMode = s.dispMode := by rw [h.rest]
  unfold DispInfo.hasHrtLimit DispInfo.layerNum
  rw [h.num d, hmode]

theorem filter_hasHrtLimit (s : DispInfo) (validOvlCnt : ℤ) :
    HrtDisp.all.filter s.hasHrtLimit =
      ((s.rollbackShares validOvlCnt).map Prod.fst).reverse := by
  unfold rollbackShares
  rw [map_fst_shares]
  change _ = (HrtDisp.all.reverse.filter s.hasHrtLimit).reverse
  rw [filter_reverse, reverse_reverse]

theorem shares_of_getHrtDispNum (hvalid : s.getHrtDispNum ≤ validOvlCnt) :
    (∀ p ∈ s.rollbackShares validOvlCnt, 1 ≤ p.2) ∧
      ((s.rollbackShares validOvlCnt).map (overlaysUsed s.display)).sum ≤ validOvlCnt := by
  apply shares_le
  · change (((HrtDisp.all.reverse.filter s.hasHrtLimit).length : ℕ) : ℤ) = _
    rw [filter_reverse, length_reverse]
    unfold getHrtDispNum
    omega
  · omega

section

variable (h : RolledAll s (s.rollbackShares validOvlCnt) s')
include h

theorem RolledAll.overlaysNeeded_eq
    (hwf : ∀ d, (s.display d).WellFormed) (hone : ∀ p ∈ s.rollbackShares validOvlCnt, 1 ≤ p.2) :
    s'.overlaysNeeded env = ((s.rollbackShares validOvlCnt).map fun p =>
      overlaysUsed s.display p +
        if env.optExtLayer then 0 else (s.display p.1).extKept p.2).sum := by
  unfold overlaysNeeded
  rw [h.hasHrtLimit, filter_hasHrtLimit s validOvlCnt, map_reverse, sum_reverse,
    map_map]
  congr 1
  apply map_congr_left
  intro p hp
  have hrolled := h.rolled p hp
  have hnext := (hwf p.1).nextOk
  change s'.getPhyOvlLayerCnt env p.1 = _
  rw [getPhyOvlLayerCnt_eq env hrolled.wellFormed.range,
    hrolled.overlays_eq hnext (hone p hp), hrolled.extOutside_eq hnext (hone p hp)]
  rfl

theorem RolledAll.ranges {d : HrtDisp} (hwf : (s.display d).WellFormed) :
    (s'.display d).WellFormed ∧
      (0 ≤ s.glesHead d → s'.glesHead d ≤ s.glesHead d ∧ s.glesTail d ≤ s'.glesTail d) := by
  by_cases hmem : d ∈ (s.rollbackShares validOvlCnt).map Prod.fst
  · obtain ⟨p, hp, rfl⟩ := mem_map.mp hmem
    have hrolled := h.rolled p hp
    exact ⟨hrolled.wellFormed, hrolled.range.grows⟩
  · have hsame := h.others d hmem
    rw [hsame]
    refine ⟨hwf, fun _ => ?_⟩
    have hhead : s'.glesHead d = s.glesHead d := congrArg head hsame
    have htail : s'.glesTail d = s.glesTail d := congrArg tail hsame
    omega

/-- The overlays fit exactly if extended layers count, or there is room for them. -/
theorem RolledAll.overlaysNeeded_le_iff
    (hwf : ∀ d, (s.display d).WellFormed) (hvalid : s.getHrtDispNum ≤ validOvlCnt) :
    s'.overlaysNeeded env ≤ validOvlCnt ↔
      env.optExtLayer = true ∨ s.ExtendedFit validOvlCnt := by
  obtain ⟨hone, hsum⟩ := shares_of_getHrtDispNum hvalid
  rw [h.overlaysNeeded_eq env hwf hone]
  cases env.optExtLayer with
  | true =>
    simp only [if_true, Int.add_zero, true_or, iff_true]
    exact hsum
  | false =>
    simp only [Bool.false_eq_true, if_false, false_or]
    rfl

end

/-- The rollback keeps to the budget exactly if every display with a limit has a GLES range or uses
its share up, and the extended layers are not counted or there are overlays enough for them. -/
theorem rollbackGood_iff (hwf : ∀ d, (s.display d).WellFormed)
    (hvalid : s.getHrtDispNum ≤ validOvlCnt) :
    RollbackGood env s validOvlCnt ↔
      s.SharesFit validOvlCnt ∧ (env.optExtLayer = true ∨ s.ExtendedFit validOvlCnt) := by
  have hnodup : rollbackOrder.Nodup := by decide
  have hready : ReadyAll s rollbackOrder := fun d _ _ => (hwf d).ready
  rcases rollbackDisplays_cases hnodup hready validOvlCnt (s.getHrtDispNum - 1) with
    ⟨hfits, hwp⟩ | ⟨hnot, hfails⟩
  · obtain ⟨_, s', hrun, h⟩ := wp_iff.mp hwp
    have hneeded := RolledAll.overlaysNeeded_le_iff env h hwf hvalid
    constructor
    · rintro ⟨s1, hrun1, hle, -, -⟩
      rw [hrun] at hrun1
      cases hrun1
      exact ⟨hfits, hneeded.mp hle⟩
    · rintro ⟨-, hext⟩
      exact ⟨s', hrun, hneeded.mpr hext, fun d => (h.ranges (hwf d)).1,
        fun d => (h.ranges (hwf d)).2⟩
  · constructor
    · rintro ⟨s', hrun, -⟩
      exact absurd (wp_iff.mpr ⟨(), s', hrun, trivial⟩) (hfails fun _ _ => True)
    · rintro ⟨hfits, -⟩
      exact absurd hfits hnot

end Budget

/-- A layer that is shown as it is. -/
def plainLayer : LayerConfig where
  ovlId := 0
  srcFmt := .other
  dataspace := 0
  dstOffsetX := 0
  dstOffsetY := 0
  dstWidth := 800
  dstHeight := 1280
  extSelLayer := -1
  srcOffsetX := 0
  srcOffsetY := 0
  srcWidth := 800
  srcHeight := 1280
  layerCaps := ⟨false, false, false, false, false, false, false⟩
  clip := ⟨0, 0, 0, 0⟩
  compress := false
  secure := false

/-- A primary display with some layers and a GLES range, and no other display. -/
def primaryOnly (layers : List LayerConfig) (head tail : ℤ) : DispInfo where
  inputConfig := fun d => match d with
    | .primary => layers
    | _ => []
  dispMode := fun _ => 1
  glesHead := fun d => match d with
    | .primary => head
    | _ => -1
  glesTail := fun d => match d with
    | .primary => tail
    | _ => -1
  hrtNum := 0
  addonScn := fun _ => .none
  gInputConfig := []
  xEntryList := []
  yEntryList := []

/-- The rule with all options, and a bandwidth for some overlays. -/
def allOptions (validHrt : ℤ) : LayeringEnv where
  optExtLayer := true
  optRpo := true
  optClearLayer := true
  optOvlWcg := true
  dalEnable := false
  idleNeedRepaint := false
  validHrt := validHrt
  hasAddonData := fun _ _ => true
  panelWidth := 800
  panelHeight := 1280

theorem primaryOnly_wellFormed {n : ℕ} {head tail : ℤ}
    (hrange : (head = -1 ∧ tail = -1) ∨ (0 ≤ head ∧ head ≤ tail ∧ tail < n)) (d : HrtDisp) :
    ((primaryOnly (replicate n plainLayer) head tail).display d).WellFormed := by
  cases d with
  | primary =>
    apply WellFormed.of_range
    · unfold RangeOk
      rw [length_display_ext]
      change (head = -1 ∧ tail = -1) ∨
        (0 ≤ head ∧ head ≤ tail ∧ tail < ((replicate n plainLayer).length : ℕ))
      rw [length_replicate]
      exact hrange
    · change true ∉ (replicate n plainLayer).map LayerConfig.isExtended
      rw [map_replicate]
      exact fun hmem => Bool.false_ne_true (eq_of_mem_replicate hmem).symm
  | secondary | third => exact WellFormed.of_range (Or.inl ⟨rfl, rfl⟩) not_mem_nil

/-- Three layers, of which the second is for the GPU, and two overlays: the GLES range grows up to
the last layer. -/
theorem rollbackGood_iff_threeLayers :
    RollbackGood (allOptions 400) (primaryOnly (replicate 3 plainLayer) 1 1) 2 := by
  apply (rollbackGood_iff (allOptions 400) (primaryOnly_wellFormed (by omega)) (by decide)).mpr
  refine ⟨?_, Or.inl rfl⟩
  unfold SharesFit
  decide

/-- A single layer without a GLES range, and two overlays: the rollback accesses the layer -1. -/
theorem not_rollbackGood_oneLayer :
    (∀ d, ((primaryOnly (replicate 1 plainLayer) (-1) (-1)).display d).WellFormed) ∧
      (primaryOnly (replicate 1 plainLayer) (-1) (-1)).getHrtDispNum ≤ 2 ∧
      ¬RollbackGood (allOptions 400) (primaryOnly (replicate 1 plainLayer) (-1) (-1)) 2 := by
  refine ⟨primaryOnly_wellFormed (by omega), by decide, ?_⟩
  rintro ⟨s', hrun, -⟩
  have hfault : rollbackDisplays rollbackOrder 2
      ((primaryOnly (replicate 1 plainLayer) (-1) (-1)).getHrtDispNum - 1)
      (primaryOnly (replicate 1 plainLayer) (-1) (-1)) = .error ⟨.primary, -1⟩ := rfl
  rw [hfault] at hrun
  cases hrun

end Mt8169.Layering
