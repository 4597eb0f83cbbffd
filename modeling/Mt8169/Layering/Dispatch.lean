import Mt8169.Layering.Overlays

/-!
# Bandwidth and dispatch

Layers that overlap on the screen need memory bandwidth at the same time. If the two displays that
count need more than there is, the overlays are dispatched to all displays again. At last every
layer gets the number of its overlay.
-/

namespace Mt8169.Layering

open MachineInt WeakestPre

variable (env : LayeringEnv)

/-- `insert_entry`. -/
def insertEntry (e : HrtSortEntry) : List HrtSortEntry → List HrtSortEntry
  | [] => []
  | t :: ts =>
    if e.key < t.key ∨ (e.key = t.key ∧ e.overlapW > 0) then e :: t :: ts
    else if ts = [] then [t, e]
    else t :: insertEntry e ts

/-- Add the begin and the end of a layer. -/
def addEntries (begin stop : HrtSortEntry) (entries : List HrtSortEntry) : List HrtSortEntry :=
  if entries = [] then [begin, stop] else insertEntry stop (insertEntry begin entries)

variable (d : HrtDisp) (i : ℤ)

/-- The entries of a layer from an offset and a size. -/
def entriesOf (offset size : ℕ) (overlapW : ℤ) : HrtSortEntry × HrtSortEntry :=
  (⟨s32 offset, overlapW, d, i⟩, ⟨s32 ((offset : ℤ) + size - 1), -overlapW, d, i⟩)

/-- `add_layer_entry` by y. -/
def addLayerEntryY (overlapW : ℤ) : RuleM Unit := do
  let c ← layerAt d i
  let e := entriesOf d i c.dstOffsetY c.dstHeight overlapW
  modify fun s => { s with yEntryList := addEntries e.1 e.2 s.yEntryList }

/-- `add_layer_entry` by x. -/
def addLayerEntryX (overlapW : ℤ) : RuleM Unit := do
  let c ← layerAt d i
  let e := entriesOf d i c.dstOffsetX c.dstWidth overlapW
  modify fun s => { s with xEntryList := addEntries e.1 e.2 s.xEntryList }

/-- `remove_layer_entry` by x. -/
def removeLayerEntryX : RuleM Unit :=
  modify fun s => { s with xEntryList := s.xEntryList.filter fun e => e.disp ≠ d ∨ e.layer ≠ i }

/-- One entry of `scan_x_overlap`: the sum and the maximum so far. -/
def addOverlap (r : ℤ × ℤ) (e : HrtSortEntry) : ℤ × ℤ :=
  (s32 (r.1 + e.overlapW), max (s32 (r.1 + e.overlapW)) r.2)

/-- `scan_x_overlap`. -/
def scanXOverlap (entries : List HrtSortEntry) : ℤ := (entries.foldl addOverlap (0, 0)).2

/-- The list by x where a layer begins or ends. -/
def enterOrLeave (e : HrtSortEntry) : RuleM Unit :=
  if e.overlapW > 0 then addLayerEntryX e.disp e.layer e.overlapW
  else removeLayerEntryX e.disp e.layer

/-- `scan_y_overlap`, with the sum and the maximum so far. -/
def scanYOverlap (limitW : ℤ) : List HrtSortEntry → ℤ → ℤ → RuleM ℤ
  | [], _, maxOverlap => pure maxOverlap
  | e :: es, sum, maxOverlap => do
    enterOrLeave e
    let s ← get
    let sum := s32 (sum + e.overlapW)
    let overlap :=
      if sum > limitW ∧ sum > maxOverlap then scanXOverlap s.xEntryList else sum
    scanYOverlap limitW es sum (max overlap maxOverlap)

/-- The bound on the bandwidth, from `copy_hrt_bound_table`. It is read before a scenario is
chosen. -/
def emiBound : ℤ :=
  min env.validHrt
    (mtkGetPhyLayerLimit (if env.hasAddonData .primary .none then layerMappingTable else 0) * 100)

/-- `has_hrt_limit`. -/
def DispInfo.hasHrtLimit (s : DispInfo) (d : HrtDisp) : Bool :=
  decide (s.layerNum d > 0 ∧ s.dispMode d ≠ mtkDrmSessionDcMirror)

/-- `get_layer_weight`. -/
def getLayerWeight (c : LayerConfig) : ℤ := 100 * mtkGetFormatBpp c.srcFmt

/-- The weight of the GLES layer in `get_layer_weight`. -/
def glesWeight : ℤ := 100 * 4

/-- `_calc_hrt_num` with a scan of the overlapping layers. -/
def calcHrtNumOf (hasDalLayer : Bool) : RuleM ℤ := do
  let s ← get
  if s.hasHrtLimit d then do
    forLayers d fun i => do
      let c ← layerAt d i
      if s.glesHead d = -1 ∨ i < s.glesHead d ∨ i > s.glesTail d then
        addLayerEntryY d i (getLayerWeight c)
      else pure ()
    let s ← get
    let overlap ← scanYOverlap (emiBound env * 4) s.yEntryList 0 0
    modify fun s => { s with yEntryList := [] }
    let hasGles := decide (0 ≤ s.glesHead d ∧ s.glesHead d < s.layerNum d ∧
      s.glesHead d ≤ s.glesTail d)
    pure (overlap + (if hasGles then glesWeight else 0) + if hasDalLayer then 200 else 0)
  else pure 0

/-- `HRT_LEVEL_NUM`. -/
def hrtLevelNum : ℤ := 4

/-- `get_hrt_level`. All levels have the same bound. -/
def getHrtLevel (sumW : ℤ) : ℤ :=
  if emiBound env ≠ -1 ∧ sumW ≤ emiBound env * 4 then 0 else hrtLevelNum

/-- `calc_hrt_num`. -/
def calcHrtNum : RuleM Unit := do
  let primary ← calcHrtNumOf env .primary env.dalEnable
  let secondary ← calcHrtNumOf env .secondary false
  modify fun s => { s with hrtNum := getHrtLevel env (primary + secondary) }

/-- The layer below that `get_below_ext_layer` looks at: the lowest one that is not extended. -/
def findPhyId (cur : ℤ) : RuleM ℤ := do
  let c ← layerAt d cur
  if c.isExtended then
    foldDown (cur - 1) 0 (-1) fun i phyId => do
      let tmp ← layerAt d i
      pure (true, if tmp.isExtended then phyId else i)
  else pure cur

/-- The nearest layer below another one so far, with its offset. -/
structure Below where
  extId : ℤ
  offsetY : ℤ

/-- One layer of `get_below_ext_layer`. -/
def belowLayer (cur : ℤ) (c : LayerConfig) (i : ℤ) (b : Below) : RuleM (Bool × Below) := do
  let s ← get
  if i = cur then pure (true, b)
  else if i ≥ s.layerNum d then pure (false, b)
  else if s.isGlesLayer d i then pure (false, b)
  else do
    let tmp ← layerAt d i
    if !tmp.isExtended then pure (false, b)
    else if tmp.dstOffsetY > c.dstOffsetY ∧
        (b.offsetY = -1 ∨ u32 b.offsetY > tmp.dstOffsetY) then
      pure (true, ⟨i, s32 tmp.dstOffsetY⟩)
    else pure (true, b)

/-- `get_below_ext_layer`. -/
def getBelowExtLayer (cur : ℤ) : RuleM ℤ := do
  let c ← layerAt d cur
  let phyId ← findPhyId d cur
  if phyId = -1 then pure (-1)
  else do
    let phy ← layerAt d phyId
    let b : Below :=
      if phy.dstOffsetY > c.dstOffsetY then ⟨phyId, s32 phy.dstOffsetY⟩ else ⟨-1, -1⟩
    let b ← foldUp (phyId + 1) (phyId + 4) b (belowLayer d cur c)
    pure b.extId

/-- The height of a layer without the lines that are fetched before it. -/
def LayerConfig.shiftUp (c : LayerConfig) : LayerConfig :=
  if c.compress then { c with dstHeight := if c.dstHeight > 4 then c.dstHeight - 4 else 1 } else c

/-- The height of a layer with the lines of a compressed layer below it. -/
def LayerConfig.addLines (ext c : LayerConfig) : LayerConfig :=
  if ext.compress then { c with dstHeight := u32 ((c.dstHeight : ℤ) + (ext.clip.t + 4)) } else c

/-- `fbdc_adjust_layout_for_overlap_calc`. -/
def adjustForOverlapCalc : RuleM Unit := do
  adjustForExtGrouping
  forLayers .primary fun i => do
    let s ← get
    if s.isGlesLayer .primary i then pure ()
    else do
      let c ← layerAt .primary i
      if !c.sameSize then pure ()
      else do
        modifyLayer .primary i LayerConfig.shiftUp
        let extId ← getBelowExtLayer .primary i
        let s ← get
        if s.isLayerIdValid .primary extId then do
          let ext ← layerAt .primary extId
          modifyLayer .primary i (LayerConfig.addLines ext)
        else pure ()

/-- `get_hrt_disp_num`. -/
def DispInfo.getHrtDispNum (s : DispInfo) : ℤ := (HrtDisp.all.filter s.hasHrtLimit).length

/-- The number of overlays that the bandwidth allows. -/
def validOvlCnt : ℤ := (emiBound env - if env.dalEnable then 200 / 4 else 0).tdiv 100

/-- The loop of `dispatch_ovl_id` over the displays. One overlay is kept for each display that
follows. -/
def rollbackDisplays : List HrtDisp → ℤ → ℤ → RuleM Unit
  | [], _, _ => pure ()
  | d :: ds, valid, dispNum => do
    let s ← get
    if s.hasHrtLimit d then do
      let left ← rollbackToGPU d (valid - dispNum)
      rollbackDisplays ds (left + dispNum) (dispNum - 1)
    else rollbackDisplays ds valid dispNum

/-- The displays are gone through from the last one. -/
def rollbackOrder : List HrtDisp := [.third, .secondary, .primary]

/-- The part of `dispatch_ovl_id` that extends the GLES ranges. -/
def dispatchGles : RuleM Unit := do
  let s ← get
  if s.hrtNum > hrtLevelNum - 1 then do
    rollbackDisplays rollbackOrder (validOvlCnt env) (s.getHrtDispNum - 1)
    modify fun s => { s with hrtNum := getHrtLevel env (emiBound env * 4) }
  else pure ()

/-- The layer with or without the mark of a clear layer. -/
def LayerConfig.setClear (clear : Bool) (c : LayerConfig) : LayerConfig :=
  { c with layerCaps := { c.layerCaps with dispClientClear := clear } }

/-- The highest clear layer from the GLES range on, or -1. -/
def findClear : RuleM ℤ := do
  let s ← get
  foldDown (s.layerNum d - 1) (s.glesHead d) (-1) fun i _ => do
    let c ← layerAt d i
    if c.layerCaps.ovlOnly && c.layerCaps.clientClear then pure (false, i) else pure (true, -1)

/-- Everything but a clear layer goes to the GPU. -/
def clearTop (top : ℤ) : RuleM Unit := do
  let s ← get
  let n := s.layerNum d
  let head : ℤ := if top = 0 then 1 else 0
  let tail := if top ≠ 0 ∧ top = n - 1 then n - 2 else n - 1
  modify fun s => s.setGles d head tail
  if top ≠ 0 ∧ top ≠ n - 1 then modifyLayer d top (LayerConfig.setClear true) else pure ()
  let c ← layerAt d top
  if (c.srcWidth < c.dstWidth ∨ c.srcHeight < c.dstHeight) ∧ top < tail then do
    modifyLayer d top (LayerConfig.setDispRsz true)
    modify fun s => { s with addonScn := Function.update s.addonScn d .oneScaling }
  else do
    modifyLayer d top (LayerConfig.setDispRsz false)
    modify fun s => { s with addonScn := Function.update s.addonScn d .none }
    if !c.sameSize && !c.layerCaps.mdpRsz then modifyLayer d top (LayerConfig.setClear false)
    else pure ()
  forLayers d fun i => modifyLayer d i fun c =>
    if i = top then c.clearExt else c.clearExt.setDispRsz false

/-- `clear_layer` for one display. -/
def clearDisplay : RuleM Unit := do
  let s ← get
  if s.layerNum d ≤ 0 ∨ s.glesHead d = -1 then pure ()
  else do
    let top ← findClear d
    if top = -1 then pure ()
    else if s.isGlesLayer d top then clearTop d top
    else pure ()

/-- `clear_layer`. -/
def clearLayer : RuleM Unit :=
  if env.optClearLayer then each HrtDisp.all clearDisplay else pure ()

/-- The first clear layer, or -1. -/
def firstClear : RuleM ℤ :=
  foldLayers d (-1) fun i _ => do
    let c ← layerAt d i
    if c.layerCaps.dispClientClear then pure (false, i) else pure (true, -1)

/-- The layer with the number of its overlay. -/
def LayerConfig.setOvlId (id : ℤ) (c : LayerConfig) : LayerConfig := { c with ovlId := id }

/-- One layer of `_dispatch_lye_blob_idx`. The index `i` is the one that the GLES range is compared
with, and `k` is the one of the layer. -/
def numberLayer (k planeIdx : ℤ) : RuleM ℤ := do
  let s ← get
  if s.isGlesLayer d i && decide (i ≠ s.glesHead d) then do
    modifyLayer d k (LayerConfig.setOvlId (planeIdx - 1))
    pure planeIdx
  else do
    modifyLayer d k (LayerConfig.setOvlId planeIdx)
    pure (planeIdx + 1)

/-- `_dispatch_lye_blob_idx`. A clear layer is numbered first, as if it were the layer -1. Then the
loop begins again without the clear layers. -/
def dispatchLyeBlobIdx : RuleM Unit := do
  let clearIdx ← firstClear d
  let planeIdx ← if clearIdx ≥ 0 then numberLayer d (-1) clearIdx 0 else pure 0
  let _ ← foldLayers d planeIdx fun i planeIdx => do
    let c ← layerAt d i
    if c.layerCaps.dispClientClear then pure (true, planeIdx)
    else do
      let planeIdx ← numberLayer d i i planeIdx
      pure (true, planeIdx)
  pure ()

/-- `dispatch_ovl_id`. -/
def dispatchOvlId : RuleM Unit := do
  dispatchGles env
  clearLayer env
  each HrtDisp.all dispatchLyeBlobIdx

/-- `check_layering_result`, as far as the layers are concerned: the last one is read. -/
def checkLayeringResult : RuleM Unit :=
  each HrtDisp.all fun d => do
    let s ← get
    if s.layerNum d ≤ 0 then pure ()
    else do
      let _ ← layerAt d (s.layerNum d - 1)
      pure ()

/-- The rule after the scaled layers and before the dispatch. -/
def prepareStage (scaleNum : ℤ) : RuleM Unit := do
  filterByFbdc
  fbdcPreCalculate
  scenarioDecision scaleNum
  adjustForExtGrouping
  extLayerGrouping env
  fbdcRestoreLayout
  filterByOvlCnt env
  adjustForOverlapCalc
  calcHrtNum env
  fbdcRestoreLayout
  if env.idleNeedRepaint then do
    rollbackAllToGPU .primary
    modify fun s => { s with hrtNum := 0 }
  else pure ()

/-- The rule before the dispatch. -/
def beforeDispatch : RuleM Unit := do
  filterByHwLimitation env
  let scaleNum ← resizeStage env
  prepareStage env scaleNum

/-- `layering_rule_start` on a request that was accepted. -/
def layeringRuleStart : RuleM Unit := do
  beforeDispatch env
  dispatchOvlId env
  checkLayeringResult

end Mt8169.Layering
