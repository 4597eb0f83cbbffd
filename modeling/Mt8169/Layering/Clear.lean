import Mt8169.Layering.Groups

/-!
# The clear layer

`clear_layer` looks for the highest layer of a display that an overlay is to clear. If it is in the
GLES range, the GPU gets all other layers: the range becomes the whole list, and the clear layer is
taken off from an end of it or marked. The only layer of a display is taken off from both ends at
once: the range then begins above its end.
-/

namespace Mt8169.Layering

open MachineInt WeakestPre DispInfo LayerConfig List Function Option

/-- The layer is to be cleared, and only an overlay can do so. -/
def LayerConfig.isClear (c : LayerConfig) : Bool := c.layerCaps.ovlOnly && c.layerCaps.clientClear

/-- The display enlarges the layer. -/
def LayerConfig.enlarged (c : LayerConfig) : Bool :=
  decide (c.srcWidth < c.dstWidth ∨ c.srcHeight < c.dstHeight)

/-- The layer needs a resize that neither the display nor the MDP can do. -/
def LayerConfig.needsGpuResize (c : LayerConfig) : Bool :=
  !c.sameSize && !c.layerCaps.mdpRsz && !c.enlarged

namespace Part

/-- The layer at an index is a clear layer. -/
def ClearAt (p : Part) (i : ℤ) : Prop := ∃ c ∈ p.layer? i, c.isClear = true

/-- The layer that `clear_layer` chooses: the highest clear layer, if it is in the GLES range. -/
structure Chosen (p : Part) (top : ℤ) : Prop where
  gles : p.head ≠ -1
  inGles : p.inGles top = true
  clear : p.ClearAt top
  highest : ∀ i, top < i → ¬p.ClearAt i

/-- The only layer of the display is a clear layer in the GLES range. -/
def OnlyClear (p : Part) : Prop := p.layers.length = 1 ∧ p.head ≠ -1 ∧ p.ClearAt 0

/-- The marks of the layers. -/
def marks (p : Part) : List Bool := p.layers.map fun c => c.layerCaps.dispClientClear

/-- The GLES range is well formed afterwards, and a chosen layer is outside of it or marked, or
needs a resize that only the GPU can do. -/
structure ClearRight (opt : Bool) (p p' : Part) : Prop where
  range : p'.RangeOk
  top : opt = true → ∀ top, p.Chosen top → p'.inGles top = false ∨
    p'.marks[top.toNat]? = some true ∨ ∃ c ∈ p.layer? top, c.needsGpuResize = true

end Part

/-- The search finds the topmost layer to clear above the GLES head. -/
theorem wp_findClear {s : DispInfo} {d : HrtDisp} (hlo : 0 ≤ s.glesHead d)
    (hhi : s.glesHead d ≤ s.layerNum d) :
    wp (findClear d) (fun top s' => s' = s ∧
      ((top = -1 ∧ ∀ i, s.glesHead d ≤ i → ¬(s.part d).ClearAt i) ∨
        (s.glesHead d ≤ top ∧ (s.part d).ClearAt top ∧
          ∀ i, top < i → ¬(s.part d).ClearAt i))) s := by
  unfold findClear
  rw [wp_read]
  apply wp_foldDown (fun i top s' => s' = s ∧ top = -1 ∧ ∀ j, i < j → ¬(s.part d).ClearAt j)
    (by omega)
  · refine ⟨rfl, rfl, ?_⟩
    rintro j hj ⟨c, hc, -⟩
    have := of_layer? (s := s) (d := d) hc
    omega
  · rintro i _ s' hge hle ⟨rfl, rfl, habove⟩
    obtain ⟨c, hc⟩ := exists_layer? (s := s') (d := d) (i := i) (by omega) (by omega)
    rw [wp_readLayer hc, wp_ite]
    refine ⟨fun hclear => ?_, fun hclear => ?_⟩
    · rw [wp_break]
      exact ⟨rfl, Or.inr ⟨hge, ⟨c, hc, hclear⟩, habove⟩⟩
    · rw [wp_continue]
      refine ⟨rfl, rfl, fun j hj => ?_⟩
      by_cases hji : i < j
      · exact habove j hji
      · obtain rfl : j = i := by omega
        rintro ⟨c', hc', hclear'⟩
        obtain rfl := some.inj (hc.symm.trans hc')
        exact hclear hclear'
  · rintro top s' ⟨rfl, rfl, habove⟩
    exact ⟨rfl, Or.inl ⟨rfl, fun i hi => habove i (by omega)⟩⟩

variable {s : DispInfo} {d : HrtDisp} {top : ℤ} {c : LayerConfig}

/-- What becomes of a display when a layer is chosen. -/
structure Part.Topped (p : Part) (top : ℤ) (p' : Part) : Prop where
  num : p'.layers.length = p.layers.length
  head : p'.head = if top = 0 then 1 else 0
  tail : p'.tail = if top ≠ 0 ∧ top = p.layers.length - 1 then (p.layers.length : ℤ) - 2
    else p.layers.length - 1
  mark : top ≠ 0 → top ≠ p.layers.length - 1 → ∀ c ∈ p.layer? top,
    p'.marks[top.toNat]? = some !c.needsGpuResize

theorem OnlyPart.trans {s' s'' : DispInfo} (h : OnlyPart d s s') (h' : OnlyPart d s' s'') :
    OnlyPart d s s'' where
  others d' hd := (h'.others d' hd).trans (h.others d' hd)
  entries := h'.entries.trans h.entries

/-- The last loop of `clear_layer` keeps the GLES range and the marks. -/
theorem wp_clearAll (top : ℤ) :
    wp (forLayers d fun i => modifyLayer d i fun c =>
        if i = top then c.clearExt else c.clearExt.setDispRsz false)
      (fun _ s' => (s'.part d).marks = (s.part d).marks ∧ (s'.part d).head = (s.part d).head ∧
        (s'.part d).tail = (s.part d).tail ∧ OnlyPart d s s') s := by
  unfold forLayers
  rw [wp_read, layerNum_eq_part]
  apply wp_forUp (fun _ s' => (s'.part d).marks = (s.part d).marks ∧
    (s'.part d).head = (s.part d).head ∧ (s'.part d).tail = (s.part d).tail ∧ OnlyPart d s s')
  · omega
  · exact ⟨rfl, rfl, rfl, .refl d s⟩
  · rintro i s' hlo hhi ⟨hmarks, hhead, htail, honly⟩
    have hlen := congrArg List.length hmarks
    rw [Part.marks, Part.marks, length_map, length_map] at hlen
    rw [wp_modifyLayer, layerNum_eq_part, parts_modifyAt, update_self, hlen]
    refine ⟨⟨hlo, hhi⟩, (map_modify_of_eq (fun c => ?_) _ _).trans hmarks, hhead, htail,
      honly.modifyAt _ _⟩
    split <;> rfl
  · exact fun s' h => h

/-- The GLES range of a display is set, and its layer `top` edited. -/
structure Edited (s : DispInfo) (d : HrtDisp) (top head tail : ℤ) (f : LayerConfig → LayerConfig)
    (s' : DispInfo) : Prop where
  part : s'.part d = ⟨(s.part d).layers.modify top.toNat f, head, tail⟩
  only : OnlyPart d s s'

section Edited

variable {s' : DispInfo} {head tail : ℤ} {f : LayerConfig → LayerConfig}
  (h : Edited s d top head tail f s')
include h

theorem Edited.modifyAt (g : LayerConfig → LayerConfig) :
    Edited s d top head tail (g ∘ f) (s'.modifyAt d top g) where
  part := by rw [parts_modifyAt, update_self, h.part, modify_modify_eq]
  only := h.only.modifyAt _ _

theorem Edited.setAddonScn (scn : AddonScn) :
    Edited s d top head tail f { s' with addonScn := update s'.addonScn d scn } :=
  ⟨h.part, { h.only with }⟩

theorem Edited.layer (hc : s.layer? d top = some c) : s'.layer? d top = some (f c) := by
  have hlo := (of_layer? hc).1
  rw [layer?_eq_part, Part.layer?, if_pos hlo] at hc ⊢
  rw [h.part, getElem?_modify_eq, hc]
  rfl

theorem Edited.wp_clearAll_topped (hc : s.layer? d top = some c)
    (hhead : head = if top = 0 then 1 else 0)
    (htail : tail = if top ≠ 0 ∧ top = s.layerNum d - 1 then s.layerNum d - 2
      else s.layerNum d - 1)
    (hmark : top ≠ 0 ∧ top ≠ s.layerNum d - 1 →
      (f c).layerCaps.dispClientClear = !c.needsGpuResize) :
    wp (forLayers d fun i => modifyLayer d i fun c =>
        if i = top then c.clearExt else c.clearExt.setDispRsz false)
      (fun _ s' => (s.part d).Topped top (s'.part d) ∧ OnlyPart d s s') s' := by
  refine (wp_clearAll top).mono ?_
  rintro _ s'' ⟨hmarks, hsame, hsame', honly⟩
  have hlayer := h.layer hc
  rw [layer?_eq_part, Part.layer?, if_pos (of_layer? hc).1] at hlayer
  rw [h.part] at hsame hsame'
  refine ⟨⟨?_, hsame.trans hhead, hsame'.trans htail, ?_⟩, h.only.trans honly⟩
  · have hlen := congrArg List.length hmarks
    rwa [h.part, Part.marks, Part.marks, length_map, length_map, length_modify] at hlen
  · intro hzero hlast c' hc'
    obtain rfl := some.inj (hc.symm.trans hc')
    rw [hmarks, Part.marks, getElem?_map, hlayer, ← hmark ⟨hzero, hlast⟩]
    rfl

end Edited

/-- The top layer is marked, and the others are for the GPU. -/
theorem wp_clearTop (hlo : 0 ≤ top) (hhi : top < s.layerNum d) :
    wp (clearTop d top) (fun _ s' => (s.part d).Topped top (s'.part d) ∧ OnlyPart d s s') s := by
  obtain ⟨c, hc⟩ := exists_layer? hlo hhi
  unfold clearTop
  rw [wp_read]
  dsimp only
  generalize hhead : (if top = 0 then 1 else 0 : ℤ) = head
  generalize htail : (if top ≠ 0 ∧ top = s.layerNum d - 1 then s.layerNum d - 2
    else s.layerNum d - 1) = tail
  have hstart : Edited s d top head tail id (s.setGles d head tail) := by
    refine ⟨?_, fun d' hd => ?_, rfl⟩ <;> rw [parts_setGles]
    · rw [update_self, modify_id]
      rfl
    · exact update_of_ne hd _ _
  -- the layer is marked, if it is not at an end
  have hset : wp (if top ≠ 0 ∧ top ≠ s.layerNum d - 1 then modifyLayer d top (setClear true)
      else pure ()) (fun _ s1 => ∃ f, Edited s d top head tail f s1 ∧
        ((f c).sameSize = c.sameSize ∧ (f c).enlarged = c.enlarged ∧
          (f c).layerCaps.mdpRsz = c.layerCaps.mdpRsz) ∧
        (top ≠ 0 ∧ top ≠ s.layerNum d - 1 → (f c).layerCaps.dispClientClear = true))
      (s.setGles d head tail) := by
    rw [wp_ite]
    refine ⟨fun hmid => ?_, fun hmid => ⟨id, hstart, ⟨rfl, rfl, rfl⟩, fun h => absurd h hmid⟩⟩
    rw [wp_modifyLayer]
    exact ⟨of_layer? (hstart.layer hc), _, hstart.modifyAt _, ⟨rfl, rfl, rfl⟩, fun _ => rfl⟩
  rw [wp_bind, wp_modify]
  refine hset.ite_seq ?_
  rintro s1 ⟨f, h1, ⟨hsize, hlarge, hmdp⟩, hmarked⟩
  have hneeds : c.needsGpuResize =
      (!(f c).sameSize && !(f c).layerCaps.mdpRsz && !(f c).enlarged) := by
    rw [hsize, hmdp, hlarge]
    rfl
  have hvalid := of_layer? (h1.layer hc)
  rw [wp_readLayer (h1.layer hc), wp_ite]
  refine ⟨fun henlarged => ?_, fun henlarged => ?_⟩
  · -- the display enlarges the layer, and the mark stays
    have hnot : (f c).enlarged = true := decide_eq_true henlarged.1
    rw [wp_bind, wp_modifyLayer]
    refine ⟨hvalid, ?_⟩
    rw [wp_bind, wp_modify]
    refine ((h1.modifyAt (setDispRsz true)).setAddonScn .oneScaling).wp_clearAll_topped hc
      hhead.symm htail.symm fun hmid => ?_
    rw [hneeds, hnot, Bool.not_true, Bool.and_false]
    exact hmarked hmid
  · rw [wp_bind, wp_modifyLayer]
    refine ⟨hvalid, ?_⟩
    rw [wp_bind, wp_modify, wp_ite]
    have h2 := (h1.modifyAt (setDispRsz false)).setAddonScn .none
    -- a layer that is not at an end is below the end of the range
    have hsmall (hmid : top ≠ 0 ∧ top ≠ s.layerNum d - 1) : (f c).enlarged = false := by
      apply decide_eq_false
      intro hlarge
      refine henlarged ⟨hlarge, ?_⟩
      rw [← htail, if_neg (fun hlast => hmid.2 hlast.2)]
      omega
    refine ⟨fun hgpu => ?_, fun hgpu => ?_⟩
    · rw [wp_bind, wp_modifyLayer]
      refine ⟨of_layer? (h2.layer hc), ?_⟩
      refine (h2.modifyAt (setClear false)).wp_clearAll_topped hc hhead.symm htail.symm ?_
      intro hmid
      rw [hneeds, hgpu, hsmall hmid]
      rfl
    · refine h2.wp_clearAll_topped hc hhead.symm htail.symm fun hmid => ?_
      rw [hneeds, Bool.eq_false_iff.mpr hgpu]
      exact hmarked hmid

namespace Part

/-- What `clear_layer` does to a display. -/
inductive ClearStep (p : Part) : Part → Prop where
  | none (hnone : ∀ top, ¬p.Chosen top) : ClearStep p p
  | top {p' : Part} (top : ℤ) (hchosen : p.Chosen top) (htopped : p.Topped top p') : ClearStep p p'

variable {p p' : Part} {top top' : ℤ}

theorem Chosen.unique (h : p.Chosen top) (h' : p.Chosen top') : top = top' := by
  by_contra hne
  rcases Int.lt_or_gt_of_ne hne with hlt | hgt
  · exact h.highest top' hlt h'.clear
  · exact h'.highest top hgt h.clear

theorem ClearStep.length_eq (h : p.ClearStep p') : p'.layers.length = p.layers.length := by
  cases h with
  | none => rfl
  | top _ _ htopped => exact htopped.num

theorem OnlyClear.chosen (h : p.OnlyClear) (hrange : p.RangeOk) : p.Chosen 0 := by
  obtain ⟨hone, hgles, hclear⟩ := h
  refine ⟨hgles, decide_eq_true ?_, hclear, ?_⟩
  · unfold RangeOk at hrange
    omega
  · rintro i hi ⟨c, hc, -⟩
    have := of_layer? hc
    omega

/-- The step is right exactly if there is another layer than the one to clear. -/
theorem clearRight_iff (hpos : 0 < p.layers.length) (hrange : p.RangeOk) (hstep : p.ClearStep p') :
    ClearRight true p p' ↔ ¬p.OnlyClear := by
  cases hstep with
  | none hnone =>
    refine iff_of_true ⟨hrange, fun _ top hchosen => absurd hchosen (hnone top)⟩ ?_
    exact fun honly => hnone 0 (honly.chosen hrange)
  | top top hchosen htopped =>
    obtain ⟨c, hc, hclear⟩ := hchosen.clear
    obtain ⟨hlo, hhi⟩ := of_layer? hc
    by_cases hone : p.layers.length = 1
    · -- the range begins above its end
      obtain rfl : top = 0 := by omega
      refine iff_of_false (fun h => ?_) fun h => h ⟨hone, hchosen.gles, hchosen.clear⟩
      have hbad := h.range
      unfold RangeOk at hbad
      rw [htopped.head, htopped.tail, if_pos rfl, if_neg (fun hlast => hlast.1 rfl)] at hbad
      omega
    · refine iff_of_true ⟨Or.inr ?_, fun _ top' hchosen' => ?_⟩ fun h => hone h.1
      · rw [htopped.head, htopped.tail, htopped.num]
        split <;> split <;> omega
      · obtain rfl := hchosen.unique hchosen'
        by_cases hzero : top = 0
        · left
          apply decide_eq_false
          rw [htopped.head, if_pos hzero]
          omega
        · by_cases hlast : top = p.layers.length - 1
          · left
            apply decide_eq_false
            rw [htopped.tail, if_pos ⟨hzero, hlast⟩]
            omega
          · right
            rw [htopped.mark hzero hlast c hc]
            cases hneeds : c.needsGpuResize with
            | true => exact Or.inr ⟨c, hc, hneeds⟩
            | false => exact Or.inl rfl

end Part

/-- `clear_layer` for one display. -/
theorem wp_clearDisplay_step {s : DispInfo} {d : HrtDisp}
    (hrange : 0 < s.layerNum d → (s.part d).RangeOk) :
    wp (clearDisplay d) (fun _ s' => (s.part d).ClearStep (s'.part d) ∧ OnlyPart d s s') s := by
  unfold clearDisplay
  rw [wp_read, wp_ite]
  refine ⟨fun hskip => ⟨Part.ClearStep.none ?_, .refl d s⟩, fun hgo => ?_⟩
  · intro top hchosen
    obtain ⟨c, hc, -⟩ := hchosen.clear
    have hlayer := of_layer? (s := s) (d := d) hc
    rcases hskip with hnum | hhead
    · omega
    · exact hchosen.gles hhead
  rw [not_or] at hgo
  have hbounds : 0 ≤ s.glesHead d ∧ s.glesHead d ≤ s.layerNum d := by
    have hlen : ((s.part d).layers.length : ℤ) = s.layerNum d := rfl
    have hhead : (s.part d).head = s.glesHead d := rfl
    have hok := hrange (by omega)
    unfold Part.RangeOk at hok
    omega
  refine (wp_findClear hbounds.1 hbounds.2).seq ?_
  rintro top s' ⟨rfl, ⟨rfl, hnone⟩ | ⟨hge, hclear, hhighest⟩⟩
  · rw [if_pos rfl, wp_pure]
    refine ⟨Part.ClearStep.none fun top hchosen => ?_, .refl d _⟩
    exact hnone top (of_decide_eq_true hchosen.inGles).1 hchosen.clear
  · obtain ⟨c, hc, hisClear⟩ := hclear
    obtain ⟨hlo, hhi⟩ := of_layer? (s := s') (d := d) hc
    rw [if_neg (by omega), wp_ite]
    refine ⟨fun hgles => ?_, fun hgles => ?_⟩
    · refine (wp_clearTop hlo hhi).mono ?_
      rintro _ s'' ⟨htopped, honly⟩
      exact ⟨Part.ClearStep.top top ⟨hgo.2, hgles, ⟨c, hc, hisClear⟩, hhighest⟩ htopped, honly⟩
    · rw [wp_pure]
      refine ⟨Part.ClearStep.none fun top' hchosen => ?_, .refl d _⟩
      -- the highest clear layer is above the range, and so are no others inside of it
      have hle : top' ≤ top := by
        by_contra hgt
        exact hhighest top' (by omega) hchosen.clear
      have hge' : top ≤ top' := by
        by_contra hlt
        exact hchosen.highest top (by omega) ⟨c, hc, hisClear⟩
      obtain rfl : top' = top := by omega
      exact hgles hchosen.inGles

/-- The pass makes the step on each display. -/
theorem wp_clearDisplays {s : DispInfo} (hrange : ∀ d, 0 < s.layerNum d → (s.part d).RangeOk) :
    wp (each HrtDisp.all clearDisplay) (fun _ s' =>
      (∀ d, (s.part d).ClearStep (s'.part d)) ∧ s'.yEntryList = s.yEntryList) s := by
  refine (wp_each_parts (fun d (s : DispInfo) => s.part d) yEntryList (fun _ => Part.ClearStep)
    (by decide) fun d _ s' hpart => ?_).mono fun _ s' h => ⟨fun d => h.1 d d.mem_all, h.2.2⟩
  refine (wp_clearDisplay_step ?_).mono fun _ _ h => ⟨h.1, h.2.others, h.2.entries⟩
  rw [layerNum_eq_part, hpart]
  exact hrange d

/-- The GLES range of every display is well formed after `clear_layer`, and the chosen layers are
outside of it or marked unless only the GPU can resize them, exactly if no display has a clear layer
in its GLES range as its only layer. -/
theorem clearLayer_right_iff (env : LayeringEnv) {s : DispInfo}
    (hrange : ∀ d, 0 < s.layerNum d → (s.part d).RangeOk) :
    wp (clearLayer env) (fun _ s' => ∀ d, 0 < s.layerNum d →
        (s.part d).ClearRight env.optClearLayer (s'.part d)) s ↔
      ∀ d, env.optClearLayer = true → ¬(s.part d).OnlyClear := by
  unfold clearLayer
  cases env.optClearLayer with
  | false =>
    rw [if_neg Bool.false_ne_true, wp_pure]
    refine iff_of_true (fun d hpos => ⟨hrange d hpos, ?_⟩) ?_
    · exact fun hopt => absurd hopt Bool.false_ne_true
    · exact fun d hopt => absurd hopt Bool.false_ne_true
  | true =>
    obtain ⟨_, s', hrun, hsteps, -⟩ := wp_iff.mp (wp_clearDisplays hrange)
    rw [if_pos rfl, wp_of_run hrun]
    refine forall_congr' fun d => ?_
    by_cases hpos : 0 < s.layerNum d
    · have hlen : 0 < (s.part d).layers.length := by
        rw [DispInfo.layerNum_eq_part] at hpos
        omega
      have hiff := Part.clearRight_iff hlen (hrange d hpos) (hsteps d)
      exact ⟨fun h _ => hiff.mp (h hpos), fun h _ => hiff.mpr (h rfl)⟩
    · refine iff_of_true (fun h => absurd h hpos) fun _ honly => hpos ?_
      have hone := honly.1
      rw [DispInfo.layerNum_eq_part]
      omega

/-- A request for the primary display only. -/
def primaryRequest (config : ℕ → LayerConfig) (layerNum head tail : ℤ) : LayeringInfo where
  inputConfig := fun d => match d with
    | .primary => some config
    | _ => none
  dispMode := fun _ => 1
  layerNum := fun d => match d with
    | .primary => layerNum
    | _ => 0
  glesHead := fun d => match d with
    | .primary => head
    | _ => -1
  glesTail := fun d => match d with
    | .primary => tail
    | _ => -1
  hrtNum := 0
  resIdx := 0
  hrtWeight := 0
  hrtIdx := 0

/-- A layer that is to be cleared by an overlay. -/
def clearLayerConfig : LayerConfig :=
  { plainLayer with
    layerCaps := { plainLayer.layerCaps with ovlOnly := true, clientClear := true } }

/-- The primary display with some layers in the GLES range, the first of which is a clear layer. -/
def clearRequest (layerNum : ℤ) : LayeringInfo :=
  primaryRequest (fun i => if i = 0 then clearLayerConfig else plainLayer) layerNum 0 (layerNum - 1)

/-- Of two layers, the clear layer is taken off the range. -/
theorem clearLayer_right_iff_twoLayers :
    (∀ d, 0 < (setDispInfo (clearRequest 2) []).layerNum d →
        ((setDispInfo (clearRequest 2) []).part d).RangeOk) ∧
      wp (clearLayer (allOptions 400)) (fun _ s' => ∀ d,
        0 < (setDispInfo (clearRequest 2) []).layerNum d →
          ((setDispInfo (clearRequest 2) []).part d).ClearRight true (s'.part d))
        (setDispInfo (clearRequest 2) []) :=
  have hrange : ∀ d, 0 < (setDispInfo (clearRequest 2) []).layerNum d →
      ((setDispInfo (clearRequest 2) []).part d).RangeOk := by decide
  have hnum : ∀ d, ((setDispInfo (clearRequest 2) []).part d).layers.length ≠ 1 := by decide
  ⟨hrange, (clearLayer_right_iff (allOptions 400) hrange).mpr fun d _ honly => hnum d honly.1⟩

/-- If the clear layer is the only layer, the range is from 1 to 0 afterwards. -/
theorem not_clearLayer_right :
    checkDispInfo (clearRequest 1) = true ∧
      (∀ d, 0 < (setDispInfo (clearRequest 1) []).layerNum d →
        ((setDispInfo (clearRequest 1) []).part d).RangeOk) ∧
      wp (clearLayer (allOptions 400)) (fun _ s' =>
        s'.glesHead .primary = 1 ∧ s'.glesTail .primary = 0) (setDispInfo (clearRequest 1) []) ∧
      ¬wp (clearLayer (allOptions 400)) (fun _ s' => ∀ d,
        0 < (setDispInfo (clearRequest 1) []).layerNum d →
          ((setDispInfo (clearRequest 1) []).part d).ClearRight true (s'.part d))
        (setDispInfo (clearRequest 1) []) := by
  have hrun : wp (clearLayer (allOptions 400)) (fun _ s' =>
      s'.glesHead .primary = 1 ∧ s'.glesTail .primary = 0) (setDispInfo (clearRequest 1) []) := by
    decide +kernel
  refine ⟨by decide, by decide, hrun, fun hwp => ?_⟩
  obtain ⟨_, s', -, hright, hhead, htail⟩ := wp_iff.mp (hwp.and hrun)
  have hbad := (hright .primary (by decide)).range
  unfold Part.RangeOk DispInfo.part at hbad
  dsimp only at hbad
  omega

end Mt8169.Layering
