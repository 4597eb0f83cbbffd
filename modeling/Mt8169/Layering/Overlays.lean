import Mt8169.Layering.Rules

/-!
# Layers for the overlays

The overlays show a limited number of layers. If a display has more, the GLES range is extended: as
many layers stay below it as there are overlays, and the rest of the overlays is for the layers
above it. Extended layers need no overlay of their own, but an overlay takes three of them at most.
-/

namespace Mt8169.Layering

open MachineInt WeakestPre

variable (env : LayeringEnv)

/-- The number of layers that a predicate on the index holds for. -/
def countFrom {α : Type} (p : ℤ → α → Bool) : ℤ → List α → ℤ
  | _, [] => 0
  | i, c :: cs => (if p i c then 1 else 0) + countFrom p (i + 1) cs

/-- `get_phy_ovl_layer_cnt`. -/
def DispInfo.getPhyOvlLayerCnt (s : DispInfo) (d : HrtDisp) : ℤ :=
  let gles := if s.glesHead d ≥ 0 then s.glesTail d - s.glesHead d else 0
  let ext :=
    if env.optExtLayer then
      countFrom (fun i c => c.isExtended && !s.isGlesLayer d i) 0 (s.inputConfig d)
    else 0
  if s.layerNum d > 0 then s.layerNum d - gles - ext else 0

/-- The number of bits among the lowest ones of a table. -/
def bitsBelow (table n : ℕ) : ℕ := ((List.range n).filter table.testBit).length

/-- `mtk_get_phy_layer_limit`. -/
def mtkGetPhyLayerLimit (layerMapTb : ℕ) : ℤ := bitsBelow layerMapTb 16

/-- The entry of `layer_mapping_table`, the same for all scenarios. -/
def layerMappingTable : ℕ := 0x000F

/-- The entry of `ovl_mapping_table`, the same for all scenarios. -/
def ovlMappingTable : ℕ := 0x0008

/-- `get_mapping_table` of a chip: the tables of a display in a scenario. The one of the layers has
a number of bits at most. -/
structure MappingTables where
  layer : HrtDisp → AddonScn → ℤ → ℕ
  ovl : HrtDisp → AddonScn → ℕ

/-- `get_mapping_table` of this chip: the lowest bits of the table of the layers, and the table of
the overlays. -/
def mappingTables : MappingTables where
  layer d scn param :=
    if env.hasAddonData d scn then
      if param ≤ maxPhyOvlCnt ∧ param ≥ 0 then
        ((List.range 16).foldl (fun (r : ℕ × ℤ) i =>
          if r.2 = param then r
          else if layerMappingTable.testBit i then (r.1 ||| 1 <<< i, r.2 + 1) else r) (0, 0)).1
      else 0
    else 0
  ovl d scn := if env.hasAddonData d scn then ovlMappingTable else 0

variable (tables : MappingTables) (s : DispInfo) (d : HrtDisp) (i : ℤ)

/-- The table of the layers for a number of overlays, without the one for the assert layer. -/
def DispInfo.layerMap (param : ℤ) : ℕ :=
  if env.dalEnable then tables.layer d (s.addonScn d) maxPhyOvlCnt &&& 0xFFFFFFBF
  else tables.layer d (s.addonScn d) param

/-- The place of an overlay in the table of the layers. -/
def placeOf (layerMapTb : ℕ) : ℕ → ℕ → ℤ → ℕ
  | 0, place, _ => place
  | n + 1, place, phy =>
    if layerMapTb.testBit place then
      if phy = 0 then place else placeOf layerMapTb n (place + 1) (phy - 1)
    else placeOf layerMapTb n (place + 1) phy

/-- `get_ovl_by_phy`. -/
def getOvlByPhy (ovlTb layerMapTb : ℕ) (phy : ℤ) : ℤ :=
  let place := placeOf layerMapTb maxPhyOvlCnt 0 phy
  if place = maxPhyOvlCnt then -1 else bitsBelow ovlTb place

/-- The GLES range is extended over the extended layers above it. -/
def extendTail : RuleM Unit := do
  let s ← get
  foldUp (i + 1) (s.layerNum d) () fun j _ => do
    let c ← layerAt d j
    if c.isExtended then do
      modify fun s => s.setGles d (s.glesHead d) j
      pure (true, ())
    else pure (false, ())

/-- The GLES range is met from below. -/
def meetGles : RuleM Unit := do
  let s ← get
  if s.glesTail d = -1 then do
    modify fun s => s.setGles d i i
    extendTail d i
  else modify fun s => s.setGles d i (s.glesTail d)

/-- One layer of `_rollback_to_GPU_bottom_up`. -/
def bottomUpLayer (available : ℤ) : RuleM (Bool × ℤ) := do
  let c ← layerAt d i
  if c.isExtended then pure (true, available)
  else do
    let s ← get
    if s.isGlesLayer d i then do
      meetGles d i
      pure (false, available - 1)
    else if available - 1 ≤ 0 then do
      modify fun s => s.setGles d i (s.layerNum d - 1)
      pure (false, 0)
    else pure (true, available - 1)

/-- `_rollback_to_GPU_bottom_up`. -/
def rollbackBottomUp (ovlLimit : ℤ) : RuleM ℤ :=
  foldLayers d ovlLimit (bottomUpLayer d)

/-- What `_rollback_to_GPU_top_down` keeps. -/
structure TopDown where
  available : ℤ
  tmpExt : ℤ

/-- One layer of `_rollback_to_GPU_top_down`. -/
def topDownLayer (t : TopDown) : RuleM (Bool × TopDown) := do
  let c ← layerAt d i
  if c.isExtended then pure (true, { t with tmpExt := if t.tmpExt = -1 then i else t.tmpExt })
  else do
    let s ← get
    if s.isGlesLayer d i then pure (false, t)
    else if t.available ≤ 0 then do
      modify fun s => s.setGles d (s.glesHead d) (if t.tmpExt = -1 then i else t.tmpExt)
      pure (false, { t with available := 0 })
    else pure (true, ⟨t.available - 1, -1⟩)

/-- `_rollback_to_GPU_top_down`. -/
def rollbackTopDown (ovlLimit : ℤ) : RuleM ℤ := do
  let s ← get
  let t ← foldDown (s.layerNum d - 1) (s.glesTail d + 1) ⟨ovlLimit, -1⟩ (topDownLayer d)
  pure t.available

/-- The last part of `rollback_to_GPU`: neither the GLES layers nor the one above them are extended
ones. -/
def clearGlesExt : RuleM Unit := do
  let s ← get
  clearExtFrom d (s.glesHead d) (s.glesTail d)
  if s.glesTail d + 1 < s.layerNum d then modifyLayer d (s.glesTail d + 1) LayerConfig.clearExt
  else pure ()

/-- The layers above the GLES range, if there was one. -/
def rollbackAbove (hasGlesLayer : Bool) (d : HrtDisp) (available : ℤ) : RuleM ℤ :=
  if hasGlesLayer then rollbackTopDown d available else pure available

/-- `rollback_to_GPU`: the number of overlays that are left. -/
def rollbackToGPU (available : ℤ) : RuleM ℤ := do
  let s ← get
  let left ← rollbackBottomUp d available
  let left ← rollbackAbove (decide (s.glesHead d ≠ -1)) d left
  clearGlesExt d
  pure left

/-- `rollback_all_to_GPU`. -/
def rollbackAllToGPU : RuleM Unit :=
  modify fun s => if s.layerNum d ≤ 0 then s else s.setGles d 0 (s.layerNum d - 1)

/-- `unset_disp_rsz_attr`. -/
def unsetDispRszAttr : RuleM Bool := do
  let c ← layerAt d 0
  let s ← get
  if s.addonScn .primary = .oneScaling ∧ c.layerCaps.mdpRsz = true ∧ c.layerCaps.dispRsz = true then
    do
      modifyLayer d 0 (LayerConfig.setDispRsz false)
      modify fun s => { s with addonScn := Function.update s.addonScn .primary .none }
      pure true
  else pure false

/-- The number of overlays for a display. -/
def DispInfo.ovlNumLimit : ℤ :=
  match d with
  | .third => 2
  | .primary => mtkGetPhyLayerLimit (tables.layer .primary (s.addonScn .primary) maxPhyOvlCnt) -
      if env.dalEnable then 1 else 0
  | .secondary => mtkGetPhyLayerLimit (tables.layer .secondary (s.addonScn .secondary) maxPhyOvlCnt)

/-- The overlay of a layer that has one of its own, by the number of such layers below it. -/
def DispInfo.ovlOf : ℤ → ℤ :=
  let phyOvlCnt := min (s.getPhyOvlLayerCnt env d) maxPhyOvlCnt
  getOvlByPhy (tables.ovl d (s.addonScn d)) (s.layerMap env tables d phyOvlCnt)

/-- `_filter_by_ovl_cnt` with a number of tries. The result says whether they were enough. -/
def filterOvlCnt (d : HrtDisp) : ℕ → RuleM Bool
  | 0 => pure false
  | tries + 1 => do
    let s ← get
    if s.layerNum d ≤ 0 then pure true
    else if s.getPhyOvlLayerCnt env d ≤ s.ovlNumLimit env tables d then pure true
    else do
      let again ← unsetDispRszAttr d
      if again then filterOvlCnt d tries
      else do
        let _ ← rollbackToGPU d (s.ovlNumLimit env tables d)
        pure true

/-- One layer of `ext_id_adjustment_and_retry`. -/
def adjustExt (j extIdx : ℤ) : RuleM (Bool × ℤ) := do
  let c ← layerAt d j
  modifyLayer d j (LayerConfig.setExt extIdx)
  let extIdx := if extIdx = -1 ∧ isExtendedBaseLayerValid c j = true then j else extIdx
  let s ← get
  if j = s.layerNum d - 1 then pure (false, extIdx)
  else do
    let next ← layerAt d (j + 1)
    pure (next.isExtended, extIdx)

/-- The loop of `ext_id_adjustment_and_retry`. -/
def extIdAdjustment (layerIdx : ℤ) : RuleM Unit := do
  let _ ← foldUp layerIdx (layerIdx + 3) (-1) (adjustExt d)
  pure ()

/-- The counters of `ext_id_tuning`, and the first layer above the limit of an overlay. -/
structure ExtCount where
  extCnt : ℕ
  curPhyCnt : ℤ
  beyond : Option ℤ

/-- One layer of `ext_id_tuning`. `ovlOf` is the overlay of a layer that has one of its own. -/
def countExt (ovlOf : ℤ → ℤ) (i : ℤ) (e : ExtCount) : RuleM (Bool × ExtCount) := do
  let c ← layerAt d i
  let s ← get
  if c.isExtended then
    if e.extCnt + 1 > 3 then pure (false, { e with extCnt := e.extCnt + 1, beyond := some i })
    else pure (true, { e with extCnt := e.extCnt + 1 })
  else if s.isGlesLayer d i && decide (i ≠ s.glesHead d) then pure (true, e)
  else
    let nextOvl := decide (e.curPhyCnt > 0 ∧ ovlOf e.curPhyCnt ≠ ovlOf (e.curPhyCnt - 1))
    pure (true, { e with extCnt := if nextOvl then 0 else e.extCnt, curPhyCnt := e.curPhyCnt + 1 })

/-- `ext_id_tuning` with a number of tries. The result says whether they were enough. -/
def extIdTuning (d : HrtDisp) : ℕ → RuleM Bool
  | 0 => pure false
  | tries + 1 => do
    let s ← get
    if s.layerNum d ≤ 0 then pure true
    else do
      let enough ← filterOvlCnt env tables d 2
      if enough then do
        let s ← get
        let e ← foldLayers d ⟨0, 0, none⟩ (countExt d (s.ovlOf env tables d))
        match e.beyond with
        | none => pure true
        | some i => do
          extIdAdjustment d i
          extIdTuning d tries
      else pure false

/-- `filter_by_ovl_cnt`. Each try leaves fewer extended layers, so there are not more tries than
layers. -/
def filterByOvlCnt : RuleM Unit :=
  each HrtDisp.all fun d => do
    let s ← get
    let _ ← if env.optExtLayer then
        extIdTuning env (mappingTables env) d ((s.layerNum d).toNat + 1)
      else filterOvlCnt env (mappingTables env) d 2
    pure ()

end Mt8169.Layering
