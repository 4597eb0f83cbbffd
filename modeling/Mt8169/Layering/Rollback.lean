import Mt8169.Layering.Share

/-!
# Rolling layers back to the GPU

`rollback_to_GPU` leaves as many layers to the overlays as there are overlays. Either the layers
below the GLES range use them up, and the range reaches up to the last layer, or the rest is for the
layers above the range. A display without a range gets one only if its layers use all overlays up.
With fewer layers the range stays at -1, and the last part of the function accesses a layer with
this index.
-/

namespace Mt8169.Layering

open MachineInt WeakestPre DispInfo Display Function

variable {s s' : DispInfo} {d : HrtDisp} {available i : ℤ}

@[simp]
theorem DispInfo.glesHead_setGles (s : DispInfo) (d : HrtDisp) (head tail : ℤ) :
    (s.setGles d head tail).glesHead d = head := by
  unfold setGles
  exact update_self d _ _

@[simp]
theorem DispInfo.glesTail_setGles (s : DispInfo) (d : HrtDisp) (head tail : ℤ) :
    (s.setGles d head tail).glesTail d = tail := by
  unfold setGles
  exact update_self d _ _

theorem DispInfo.setGles_self (s : DispInfo) (d : HrtDisp) :
    s.setGles d (s.glesHead d) (s.glesTail d) = s := by
  unfold setGles
  rw [update_eq_self, update_eq_self]

theorem DispInfo.isGlesLayer_iff :
    s.isGlesLayer d i = true ↔ s.glesHead d ≤ i ∧ i ≤ s.glesTail d := decide_eq_true_iff

theorem Display.Ready.gles (hready : (s.display d).Ready) :
    (s.glesHead d = -1 ∧ s.glesTail d = -1) ∨
      (0 ≤ s.glesHead d ∧ s.glesHead d ≤ s.glesTail d ∧ s.glesTail d < s.layerNum d) := by
  rw [← s.length_ext]
  exact hready.range

/-- What the scan from below ends with. -/
inductive BottomUp (s : DispInfo) (d : HrtDisp) (available : ℤ) : ℤ → DispInfo → Prop where
  /-- The overlays are used up by the layers below the new range. -/
  | usedUp (i : ℤ) (hlo : 0 ≤ i) (hhi : i < s.layerNum d)
      (hbelow : 0 ≤ s.glesHead d → i < s.glesHead d)
      (hcount : physBelow (s.display d).ext i + 1 = max available 1)
      (hphys : (s.display d).ext[i.toNat]? = some false)
      (huses : (s.display d).usesUp available = true) :
      BottomUp s d available 0 (s.setGles d i (s.layerNum d - 1))
  /-- The GLES range is met. -/
  | gles (hhead : 0 ≤ s.glesHead d) (huses : (s.display d).usesUp available = false) :
      BottomUp s d available (available - (s.display d).below - 1) s
  /-- There is no GLES range. -/
  | none (hhead : s.glesHead d = -1) (huses : (s.display d).usesUp available = false) :
      BottomUp s d available (available - (s.display d).below) s

/-- The scan has not ended before an index. -/
structure BelowInv (s : DispInfo) (d : HrtDisp) (available i left : ℤ) (s' : DispInfo) : Prop where
  state_eq : s' = s
  left_eq : left = available - physBelow (s.display d).ext i
  more : 1 ≤ left ∨ physBelow (s.display d).ext i = 0
  head : 0 ≤ s.glesHead d → i ≤ s.glesHead d

theorem wp_bottomUpLayer (hready : (s.display d).Ready) {left : ℤ} (hlo : 0 ≤ i)
    (hhi : i < s.layerNum d) (h : BelowInv s d available i left s') :
    wp (bottomUpLayer d i left) (fun r s'' =>
      (r.1 = true → BelowInv s d available (i + 1) r.2 s'') ∧
      (r.1 = false → BottomUp s d available r.2 s'')) s' := by
  obtain ⟨rfl, rfl, hmore, hhead⟩ := h
  have hnonneg := physBelow_nonneg (s'.display d).ext i
  have hrange := hready.gles
  obtain ⟨c, hc⟩ := exists_layer? hlo hhi
  have hext := display_ext hc
  have hsucc := physBelow_succ hlo hext
  unfold bottomUpLayer
  rw [wp_readLayer hc]
  cases hce : c.isExtended with
  | true =>
    rw [hce] at hsucc hext
    simp only [if_true, Int.add_zero] at hsucc
    rw [if_pos rfl, wp_continue]
    refine ⟨rfl, by rw [hsucc], by rw [hsucc]; exact hmore, ?_⟩
    intro hgles
    have hne : i ≠ s'.glesHead d := by
      rintro rfl
      have hfirst := hready.head hgles
      change (s'.display d).ext[(s'.glesHead d).toNat]? = some false at hfirst
      rw [hext] at hfirst
      cases hfirst
    have := hhead hgles
    omega
  | false =>
    rw [hce] at hsucc hext
    simp only [Bool.false_eq_true, if_false] at hsucc ⊢
    rw [wp_read, wp_ite, isGlesLayer_iff]
    constructor
    · -- the range is met at its first layer
      intro hgles
      have hpos : 0 ≤ s'.glesHead d := by omega
      have hi : i = s'.glesHead d := by
        have := hhead hpos
        omega
      subst hi
      have hbelow : (s'.display d).below = physBelow (s'.display d).ext (s'.glesHead d) := by
        unfold below
        exact if_pos hpos
      unfold meetGles
      rw [wp_bind, wp_read, if_neg (by omega), wp_modify, wp_break, setGles_self]
      dsimp only
      rw [← hbelow]
      apply BottomUp.gles hpos
      unfold usesUp
      rw [decide_eq_false_iff_not, hbelow]
      omega
    · intro hgles
      have hout : 0 ≤ s'.glesHead d → i < s'.glesHead d := by
        intro hpos
        have hle := hhead hpos
        omega
      have hbelow : physBelow (s'.display d).ext (i + 1) ≤ (s'.display d).below := by
        unfold below
        split
        · rename_i hpos
          apply physBelow_mono
          have := hout hpos
          change i + 1 ≤ s'.glesHead d
          omega
        · exact physBelow_le
      rw [wp_ite]
      constructor
      · intro hle
        rw [wp_bind, wp_modify, wp_break]
        apply BottomUp.usedUp i hlo hhi hout
        · omega
        · exact hext
        · unfold usesUp
          apply decide_eq_true
          omega
      · intro hgt
        rw [wp_continue]
        refine ⟨rfl, ?_, ?_, ?_⟩
        · dsimp only
          omega
        · dsimp only
          omega
        · intro hpos
          have := hout hpos
          omega

/-- `_rollback_to_GPU_bottom_up`. -/
theorem wp_rollbackBottomUp (hready : (s.display d).Ready) (available : ℤ) :
    wp (rollbackBottomUp d available) (BottomUp s d available) s := by
  have hlen := s.length_ext d
  unfold rollbackBottomUp foldLayers
  rw [wp_read]
  apply wp_foldUp (BelowInv s d available) (by omega)
  · exact ⟨rfl, by simp, Or.inr rfl, fun hpos => hpos⟩
  · intro i left s' hlo hhi h
    exact wp_bottomUpLayer hready hlo hhi h
  · rintro left s' ⟨rfl, rfl, hmore, hhead⟩
    have hnone : s'.glesHead d = -1 := by
      have hrange := hready.gles
      omega
    have hbelow : (s'.display d).below = physBelow (s'.display d).ext (s'.layerNum d) := by
      rw [physBelow_length (by omega)]
      unfold below
      apply if_neg
      change ¬0 ≤ s'.glesHead d
      omega
    rw [← hbelow] at hmore ⊢
    apply BottomUp.none hnone
    unfold usesUp
    rw [decide_eq_false_iff_not]
    omega

/-- What the scan from above ends with. -/
inductive TopDownEnd (s : DispInfo) (d : HrtDisp) (available : ℤ) : ℤ → DispInfo → Prop where
  /-- The overlays are enough for the layers above the range. -/
  | enough (henough : (s.display d).enough available = true) :
      TopDownEnd s d available (available - (s.display d).above) s
  /-- The range is extended to a layer below one that is not extended. -/
  | grown (tail : ℤ) (hlo : s.glesTail d < tail) (hhi : tail < s.layerNum d)
      (hcount : physFrom (s.display d).ext (tail + 1) = max available 0)
      (hnext : (s.display d).ext[(tail + 1).toNat]? ≠ some true)
      (henough : (s.display d).enough available = false) :
      TopDownEnd s d available 0 (s.setGles d (s.glesHead d) tail)

/-- The scan has not ended above an index. The highest layer of the extended ones above the index is
remembered. -/
structure AboveInv (s : DispInfo) (d : HrtDisp) (available i : ℤ) (t : TopDown) (s' : DispInfo) :
    Prop where
  state_eq : s' = s
  available_eq : t.available = available - physFrom (s.display d).ext (i + 1)
  more : 0 ≤ t.available ∨ physFrom (s.display d).ext (i + 1) = 0
  tmpExt : (t.tmpExt = -1 ∧ (s.display d).ext[(i + 1).toNat]? ≠ some true) ∨
    (i < t.tmpExt ∧ t.tmpExt < s.layerNum d ∧
      physFrom (s.display d).ext (t.tmpExt + 1) = physFrom (s.display d).ext (i + 1) ∧
      (s.display d).ext[(t.tmpExt + 1).toNat]? ≠ some true)

theorem wp_topDownLayer (hrange : 0 ≤ s.glesTail d) (hlo : s.glesTail d + 1 ≤ i)
    (hhi : i < s.layerNum d) {t : TopDown} (h : AboveInv s d available i t s') :
    wp (topDownLayer d i t) (fun r s'' =>
      (r.1 = true → AboveInv s d available (i - 1) r.2 s'') ∧
      (r.1 = false → TopDownEnd s d available r.2.available s'')) s' := by
  obtain ⟨rfl, havail, hmore, htmp⟩ := h
  have hnonneg := physFrom_nonneg (s'.display d).ext (i + 1)
  have hpred : i - 1 + 1 = i := by omega
  obtain ⟨c, hc⟩ := exists_layer? (s := s') (d := d) (i := i) (by omega) hhi
  have hext := display_ext hc
  have heq := physFrom_eq (by omega) hext
  unfold topDownLayer
  rw [wp_readLayer hc]
  cases hce : c.isExtended with
  | true =>
    rw [hce] at heq hext
    simp only [if_true, Int.add_zero] at heq
    rw [if_pos rfl, wp_continue]
    refine ⟨rfl, ?_, ?_, Or.inr ?_⟩
    · rw [hpred, heq]
      exact havail
    · rw [hpred, heq]
      exact hmore
    · dsimp only
      rw [hpred, heq]
      rcases htmp with ⟨hnone, hnext⟩ | ⟨hlt, hlen, hsame, hnext⟩
      · rw [if_pos hnone]
        exact ⟨by omega, hhi, rfl, hnext⟩
      · rw [if_neg (by omega)]
        exact ⟨by omega, hlen, hsame, hnext⟩
  | false =>
    rw [hce] at heq hext
    simp only [Bool.false_eq_true, if_false] at heq ⊢
    have hgles : ¬s'.isGlesLayer d i = true := by
      rw [isGlesLayer_iff]
      omega
    have habove : physFrom (s'.display d).ext i ≤ (s'.display d).above := by
      unfold above
      apply physFrom_anti
      exact hlo
    rw [wp_read, if_neg hgles, wp_ite]
    constructor
    · intro hle
      rw [wp_bind, wp_modify, wp_break]
      have henough : (s'.display d).enough available = false := by
        unfold enough
        rw [decide_eq_false_iff_not]
        omega
      rcases htmp with ⟨hnone, hnext⟩ | ⟨hlt, hlen, hsame, hnext⟩
      · rw [if_pos hnone]
        exact TopDownEnd.grown i (by omega) hhi (by omega) hnext henough
      · rw [if_neg (by omega)]
        exact TopDownEnd.grown t.tmpExt (by omega) hlen (by omega) hnext henough
    · intro hgt
      rw [wp_continue]
      refine ⟨rfl, ?_, ?_, Or.inl ⟨rfl, ?_⟩⟩
      · dsimp only
        rw [hpred]
        omega
      · dsimp only
        omega
      · rw [hpred, hext]
        simp

/-- `_rollback_to_GPU_top_down`. -/
theorem wp_rollbackTopDown (hrange : 0 ≤ s.glesTail d) (htail : s.glesTail d < s.layerNum d)
    (available : ℤ) : wp (rollbackTopDown d available) (TopDownEnd s d available) s := by
  have hlen := s.length_ext d
  have hend : physFrom (s.display d).ext (s.layerNum d - 1 + 1) = 0 :=
    physFrom_length (by omega)
  unfold rollbackTopDown
  rw [wp_read, wp_bind]
  apply wp_foldDown (AboveInv s d available) (by omega)
  · refine ⟨rfl, by rw [hend, Int.sub_zero], Or.inr hend, Or.inl ⟨rfl, ?_⟩⟩
    rw [List.getElem?_eq_none (by omega)]
    simp
  · intro i t s' hlo hhi h
    refine (wp_topDownLayer hrange hlo (by omega) h).mono ?_
    rintro r s'' ⟨hmore, hdone⟩
    exact ⟨hmore, fun hf => by rw [wp_pure]; exact hdone hf⟩
  · rintro t s' ⟨rfl, havail, hmore, -⟩
    have hpred : s'.glesTail d + 1 - 1 + 1 = s'.glesTail d + 1 := by omega
    rw [hpred] at havail hmore
    rw [wp_pure, havail]
    apply TopDownEnd.enough
    unfold enough above
    apply decide_eq_true
    change physFrom (s'.display d).ext (s'.glesTail d + 1) ≤ available ∨
      physFrom (s'.display d).ext (s'.glesTail d + 1) = 0
    omega

/-- Only layers of one display have changed. -/
structure DispInfo.LayersFrame (s s' : DispInfo) (d : HrtDisp) : Prop where
  others : ∀ d', d' ≠ d → s'.inputConfig d' = s.inputConfig d'
  num : (s'.inputConfig d).length = (s.inputConfig d).length
  rest : s' = { s with inputConfig := s'.inputConfig }

theorem DispInfo.LayersFrame.refl (s : DispInfo) (d : HrtDisp) : s.LayersFrame s d :=
  ⟨fun _ _ => rfl, rfl, rfl⟩

theorem DispInfo.LayersFrame.trans {s'' : DispInfo} (h : s.LayersFrame s' d)
    (h' : s'.LayersFrame s'' d) : s.LayersFrame s'' d where
  others := fun d' hd => (h'.others d' hd).trans (h.others d' hd)
  num := h'.num.trans h.num
  rest := by
    rw [h'.rest]
    conv_lhs => rw [h.rest]

theorem DispInfo.LayersFrame.modifyAt (s : DispInfo) (d : HrtDisp) (i : ℤ)
    (f : LayerConfig → LayerConfig) : s.LayersFrame (s.modifyAt d i f) d where
  others := fun _ hd => update_of_ne hd _ _
  num := s.modifyAt_num d d i f
  rest := rfl

/-- The extended layers of a range are cleared. -/
structure Cleared (s : DispInfo) (d : HrtDisp) (lo hi : ℤ) (s' : DispInfo) : Prop
    extends DispInfo.LayersFrame s s' d where
  ext : SameOutside (s.display d).ext (s'.display d).ext lo hi

theorem Cleared.clearExt {lo hi : ℤ} (h : Cleared s d lo hi s') (hle : lo ≤ hi) (hpos : 0 ≤ hi) :
    Cleared s d lo (hi + 1) (s'.modifyAt d hi LayerConfig.clearExt) where
  toLayersFrame := h.toLayersFrame.trans (LayersFrame.modifyAt s' d hi _)
  ext := by
    have hview := s'.view_modifyAt_setExt d hi (-1)
    have hext : ((s'.modifyAt d hi LayerConfig.clearExt).display d).ext =
        (s'.display d).ext.set hi.toNat false := by
      change (s'.modifyAt d hi (LayerConfig.setExt (-1))).view.ext d = _
      rw [hview]
      unfold View.setExt
      dsimp only
      rw [update_self]
      rfl
    rw [hext]
    exact h.ext.set hle hpos

theorem Cleared.layerNum {lo hi : ℤ} (h : Cleared s d lo hi s') : s'.layerNum d = s.layerNum d := by
  unfold DispInfo.layerNum
  rw [h.num]

theorem Cleared.refl (s : DispInfo) (d : HrtDisp) (lo : ℤ) : Cleared s d lo lo s where
  toLayersFrame := LayersFrame.refl s d
  ext := by
    intro k
    rw [if_neg (by omega)]

/-- The layers between two indices are not extended any more. -/
theorem wp_clearExtFrom {head tail : ℤ} (hlo : 0 ≤ head) (hle : head ≤ tail + 1)
    (hhi : tail < s.layerNum d) :
    wp (clearExtFrom d head tail) (fun _ s' => Cleared s d head (tail + 1) s') s := by
  apply wp_forUp (fun i s' => Cleared s d head i s') hle (Cleared.refl s d head)
  · intro i s' hge hlt h
    rw [wp_modifyLayer, h.layerNum]
    exact ⟨by omega, h.clearExt hge (by omega)⟩
  · exact fun s' h => h

/-- The last part of `rollback_to_GPU` for a range inside of the layers. -/
theorem wp_clearGlesExt (hlo : 0 ≤ s.glesHead d) (hle : s.glesHead d ≤ s.glesTail d)
    (hhi : s.glesTail d < s.layerNum d) :
    wp (clearGlesExt d) (fun _ s' => Cleared s d (s.glesHead d) (s.glesTail d + 2) s') s := by
  unfold clearGlesExt
  rw [wp_read]
  refine (wp_clearExtFrom hlo (by omega) hhi).seq fun _ s' h => ?_
  rw [wp_ite]
  constructor
  · intro hlt
    rw [wp_modifyLayer, h.layerNum]
    refine ⟨by omega, ?_⟩
    have hclear := h.clearExt (by omega) (by omega)
    have htwo : s.glesTail d + 1 + 1 = s.glesTail d + 2 := by omega
    rw [htwo] at hclear
    exact hclear
  · intro hge
    refine ⟨h.toLayersFrame, ?_⟩
    intro k
    rw [h.ext k]
    -- beyond the last layer there is nothing to clear
    by_cases hk : (k : ℤ) < s.glesTail d + 1
    · have hiff : (s.glesHead d ≤ (k : ℤ) ∧ (k : ℤ) < s.glesTail d + 1) ↔
          (s.glesHead d ≤ (k : ℤ) ∧ (k : ℤ) < s.glesTail d + 2) := by omega
      simp only [hiff]
    · have hnone : (s.display d).ext[k]? = none := by
        apply List.getElem?_eq_none
        rw [length_display_ext]
        unfold layerNum at hge
        omega
      rw [hnone]
      simp

/-- An empty range is read at index -1. -/
theorem not_wp_clearGlesExt (hhead : s.glesHead d = -1) (htail : s.glesTail d = -1)
    (Q : Unit → DispInfo → Prop) : ¬wp (clearGlesExt d) Q s := by
  intro hwp
  unfold clearGlesExt at hwp
  rw [wp_read, wp_bind, hhead, htail] at hwp
  have hfirst := wp_forUp_first (by omega) hwp
  rw [wp_modifyLayer] at hfirst
  omega

/-- What `rollback_to_GPU` does to a display. -/
structure Rolled (s : DispInfo) (d : HrtDisp) (available left : ℤ) (s' : DispInfo) : Prop where
  rolled : RolledTo (s.display d) available left (s'.display d)
  others : ∀ d', d' ≠ d → s'.inputConfig d' = s.inputConfig d' ∧ s'.display d' = s.display d'
  num : (s'.inputConfig d).length = (s.inputConfig d).length
  rest : s' = { s with
    inputConfig := s'.inputConfig, glesHead := s'.glesHead, glesTail := s'.glesTail }

/-- The rollback clears the extended layers in its new range. -/
theorem wp_clearGlesExt_rolled {left head tail : ℤ}
    (hrange : NewRange (s.display d) available left head tail) :
    wp (do clearGlesExt d; pure left) (Rolled s d available) (s.setGles d head tail) := by
  have hhead := s.glesHead_setGles d head tail
  have htail := s.glesTail_setGles d head tail
  obtain ⟨hlo, hle, hhi⟩ := hrange.inside
  rw [wp_bind]
  have hclear := wp_clearGlesExt (s := s.setGles d head tail) (d := d) (by omega) (by omega)
    (by rw [htail]; exact (s.length_ext d) ▸ hhi)
  rw [hhead, htail] at hclear
  refine hclear.mono fun _ s' h => ?_
  rw [wp_pure]
  have hrest := h.rest
  have hdisplay : s'.display d = ⟨head, tail, (s'.display d).ext⟩ := by
    unfold display
    rw [hrest]
    dsimp only
    rw [hhead, htail]
  refine ⟨?_, ?_, h.num, by rw [hrest]; rfl⟩
  · rw [hdisplay]
    exact ⟨hrange, h.ext,
      by rw [length_display_ext, length_display_ext, h.num]; rfl⟩
  · intro d' hd
    have hhead' : s'.glesHead d' = s.glesHead d' := by
      rw [hrest]
      exact update_of_ne hd head s.glesHead
    have htail' : s'.glesTail d' = s.glesTail d' := by
      rw [hrest]
      exact update_of_ne hd tail s.glesTail
    have hconfig := h.others d' hd
    refine ⟨hconfig, ?_⟩
    unfold display
    rw [hhead', htail', hconfig]
    rfl

theorem wp_rollbackAbove_full (hpos : 0 < s.layerNum d) (has : Bool) {Q : ℤ → DispInfo → Prop}
    (hQ : Q 0 (s.setGles d i (s.layerNum d - 1))) :
    wp (rollbackAbove has d 0) Q (s.setGles d i (s.layerNum d - 1)) := by
  have htail := s.glesTail_setGles d i (s.layerNum d - 1)
  have hnum : (s.setGles d i (s.layerNum d - 1)).layerNum d = s.layerNum d := rfl
  unfold rollbackAbove
  cases has with
  | false =>
    rw [if_neg Bool.false_ne_true, wp_pure]
    exact hQ
  | true =>
    rw [if_pos rfl]
    refine (wp_rollbackTopDown (by omega) (by omega) 0).mono fun left s' h => ?_
    cases h with
    | enough henough =>
      have habove : ((s.setGles d i (s.layerNum d - 1)).display d).above = 0 := by
        apply physFrom_length
        rw [length_ext]
        change _ ≤ (s.setGles d i (s.layerNum d - 1)).glesTail d + 1
        omega
      rw [habove]
      exact hQ
    | grown tail hlo hhi hcount hnext henough =>
      omega

/-- `rollback_to_GPU` for a display that has a GLES range or uses the overlays up. -/
theorem wp_rollbackToGPU (hready : (s.display d).Ready)
    (hfits : (s.display d).fits available = true) :
    wp (rollbackToGPU d available) (Rolled s d available) s := by
  unfold fits at hfits
  rw [Bool.or_eq_true, decide_eq_true_eq] at hfits
  unfold rollbackToGPU
  rw [wp_read]
  refine (wp_rollbackBottomUp hready available).seq fun left s' h => ?_
  cases h with
  | usedUp i hlo hhi hbelow hcount hphys huses =>
    rw [wp_bind]
    apply wp_rollbackAbove_full (by omega)
    rw [← s.length_ext] at hhi ⊢
    exact wp_clearGlesExt_rolled
      (NewRange.of_usedUp hlo hhi hready hbelow hcount hphys huses)
  | gles hhead huses =>
    have hrange := hready.gles
    have hlen := s.length_ext d
    have hhas : decide (s.glesHead d ≠ -1) = true := decide_eq_true (by omega)
    rw [hhas, rollbackAbove, if_pos rfl]
    refine (wp_rollbackTopDown (by omega) (by omega) _).seq fun left s' h => ?_
    cases h with
    | enough henough =>
      have hself := wp_clearGlesExt_rolled (NewRange.of_enough hready hhead huses henough)
      change wp _ _ (s.setGles d (s.glesHead d) (s.glesTail d)) at hself
      rw [setGles_self] at hself
      exact hself
    | grown tail hlo hhi hcount hnext henough =>
      rw [← hlen] at hhi
      exact wp_clearGlesExt_rolled
        (NewRange.of_grown hready hhead huses hlo hhi hcount hnext henough)
  | none hhead huses =>
    rw [huses] at hfits
    rcases hfits with hpos | hfalse
    · change 0 ≤ s.glesHead d at hpos
      omega
    · cases hfalse

/-- A rollback that does not fit reads outside of the layers. -/
theorem not_wp_rollbackToGPU (hready : (s.display d).Ready)
    (hfits : (s.display d).fits available = false) (Q : ℤ → DispInfo → Prop) :
    ¬wp (rollbackToGPU d available) Q s := by
  intro hwp
  unfold rollbackToGPU at hwp
  rw [wp_read, wp_bind] at hwp
  obtain ⟨left, s', -, hrest, hscan⟩ := wp_iff.mp (hwp.and (wp_rollbackBottomUp hready available))
  unfold fits at hfits
  rw [Bool.or_eq_false_iff, decide_eq_false_iff_not] at hfits
  cases hscan with
  | usedUp i hlo hhi hbelow hcount hphys huses =>
    rw [huses] at hfits
    cases hfits.2
  | gles hhead huses => exact hfits.1 hhead
  | none hhead huses =>
    have htail : s.glesTail d = -1 := by
      rcases hready.range with hnone | hsome
      · exact hnone.2
      · exact absurd hsome.1 hfits.1
    have hno : decide (s.glesHead d ≠ -1) = false := by
      rw [decide_eq_false_iff_not, not_not]
      exact hhead
    rw [hno, rollbackAbove, if_neg Bool.false_ne_true, wp_bind, wp_pure, wp_bind] at hrest
    exact not_wp_clearGlesExt hhead htail _ hrest

end Mt8169.Layering
