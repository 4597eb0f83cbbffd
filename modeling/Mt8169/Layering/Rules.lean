import Mt8169.Layering.Layers

/-!
# The first rules

Before the layers are counted, those the overlays cannot show are handed to the GPU, by their colour
space, their format, and their scaling. Then the layers of the primary display are grouped: a layer
that does not overlap the one below it is an extended layer, and can share its overlay.
-/

namespace Mt8169.Layering

open MachineInt WeakestPre

variable (env : LayeringEnv)

/-- `is_ovl_wcg`. -/
def isOvlWcg (ds : ℕ) : Bool := decide (ds = 411107328 ∨ ds = 406913024 ∨ ds = 143261696)

/-- `is_ovl_standard`. -/
def isOvlStandard (ds : ℕ) : Bool :=
  if !env.optOvlWcg && isOvlWcg ds then false
  else !decide (ds &&& 4128768 = 393216 ∨ ds &&& 4128768 = 458752)

/-- `filter_by_wcg`. -/
def filterByWcg : RuleM Unit := do
  forLayers .primary fun i => do
    let c ← layerAt .primary i
    if isOvlStandard env c.dataspace || c.layerCaps.mdpHdr then pure ()
    else mtkRollbackLayerToGPU .primary i
  each [.secondary, .third] fun d => forLayers d fun j => do
    let c ← layerAt d j
    if !isOvlWcg c.dataspace && (isOvlStandard env c.dataspace || c.layerCaps.mdpHdr) then pure ()
    else mtkRollbackLayerToGPU d j

/-- The YUV layers of a display: one for the overlay, those for the GPU, and whether there are too
many of them. -/
structure YuvLayers where
  ovl : ℤ
  gpu : List ℤ
  beyond : Bool

/-- `MAX_PHY_OVL_CNT`. -/
def maxPhyOvlCnt : ℕ := 4

variable (d : HrtDisp)

/-- The first loop of `filter_by_yuv_layers`. -/
def findYuvLayers : RuleM YuvLayers :=
  foldLayers d ⟨-1, [], false⟩ fun i (yuv : YuvLayers) => do
    let c ← layerAt d i
    let s ← get
    if s.isGlesLayer d i then pure (true, yuv)
    else if mtkIsYuv c.srcFmt then
      if c.secure && decide (yuv.ovl < 0) then pure (true, { yuv with ovl := i })
      else if yuv.gpu.length < maxPhyOvlCnt then pure (true, { yuv with gpu := yuv.gpu ++ [i] })
      else pure (false, { yuv with beyond := true })
    else pure (true, yuv)

/-- `filter_by_yuv_layers`. With too many YUV layers on a display, the rest is left as it is. -/
def filterByYuvLayers : List HrtDisp → RuleM Unit
  | [] => pure ()
  | d :: ds => do
    let yuv ← findYuvLayers d
    if yuv.beyond then pure ()
    else do
      each (if yuv.ovl ≥ 0 then yuv.gpu else yuv.gpu.drop 1) (mtkRollbackLayerToGPU d)
      filterByYuvLayers ds

/-- `is_triple_disp`. -/
def DispInfo.isTripleDisp (s : DispInfo) : Bool :=
  decide (s.layerNum .primary ≠ 0 ∧ s.layerNum .secondary ≠ 0 ∧ s.layerNum .third ≠ 0)

/-- `filter_2nd_display` for one display. The counter goes on from one display to the next. -/
def filterDisplay (layerCnt : ℕ) : RuleM ℕ := do
  let s ← get
  let maxLayerCnt := if s.isTripleDisp && decide (d = .secondary) then 1 else 2
  foldLayers d layerCnt fun j layerCnt => do
    let s ← get
    if s.isGlesLayer d j then pure (true, layerCnt)
    else do
      if layerCnt + 1 > maxLayerCnt then mtkRollbackLayerToGPU d j else pure ()
      pure (true, layerCnt + 1)

/-- `filter_2nd_display`. -/
def filter2ndDisplay : RuleM Unit := do
  let layerCnt ← filterDisplay .secondary 0
  let _ ← filterDisplay .third layerCnt
  pure ()

/-- `filter_by_hw_limitation`. -/
def filterByHwLimitation : RuleM Unit := do
  filterByWcg env
  filterByYuvLayers HrtDisp.all
  filter2ndDisplay

/-- The part of `mtk_rollback_resize_layer_to_GPU_range` that extends the range. -/
def growResized (lo hi : ℤ) : RuleM Unit :=
  forUp lo (hi + 1) fun i => do
    let c ← layerAt d i
    if c.sameSize || c.layerCaps.mdpRsz then pure ()
    else modify fun s => s.growGles d i

/-- No layer between two indices is an extended one any more. -/
def clearExtFrom (head tail : ℤ) : RuleM Unit :=
  forUp head (tail + 1) fun i => modifyLayer d i LayerConfig.clearExt

/-- `mtk_rollback_resize_layer_to_GPU_range`. -/
def rollbackResizeRange (startIdx endIdx : ℤ) : RuleM Unit := do
  let s ← get
  if s.layerNum d ≤ 0 then pure ()
  else if startIdx < 0 ∨ endIdx ≥ s.layerNum d then pure ()
  else do
    growResized d startIdx endIdx
    let s ← get
    if s.glesHead d ≠ -1 then clearExtFrom d (s.glesHead d) (s.glesTail d) else pure ()

/-- `mtk_rollback_all_resize_layer_to_GPU`. -/
def rollbackAllResize : RuleM Unit := do
  let s ← get
  rollbackResizeRange d 0 (s.layerNum d - 1)

/-- `struct mtk_rect`. -/
structure Rect where
  x : ℤ
  y : ℤ
  width : ℤ
  height : ℤ
  deriving DecidableEq, Repr

/-- `mtk_rect_set`. -/
def Rect.set (left top right bottom : ℤ) : Rect :=
  ⟨left, top, s32 (right - left + 1), s32 (bottom - top + 1)⟩

/-- `mtk_rect_join`. The last row and column of a rectangle wrap around. -/
def Rect.join (a b : Rect) : Rect :=
  let right := s32 (a.x + a.width - 1)
  let bottom := s32 (a.y + a.height - 1)
  let fRight := s32 (b.x + b.width - 1)
  let fBottom := s32 (b.y + b.height - 1)
  if a.x > right ∨ a.y > bottom then Rect.set b.x b.y fRight fBottom
  else if b.x > fRight ∨ b.y > fBottom then Rect.set a.x a.y right bottom
  else Rect.set (min a.x b.x) (min a.y b.y) (max right fRight) (max bottom fBottom)

/-- `is_rsz_valid`. -/
def LayerConfig.isRszValid (c : LayerConfig) : Bool :=
  !decide (c.srcWidth = c.dstWidth ∧ c.srcHeight = c.dstHeight) &&
    !decide (c.srcWidth > c.dstWidth ∨ c.srcHeight > c.dstHeight)

/-- The difference of a scaled size to the size of the source. -/
def ratioDiff (dst refSrc refDst src : ℕ) : ℤ :=
  s32 ((u32 (u32 ((dst : ℤ) * refSrc) + u32 ((refDst : ℤ) - 1)) / refDst : ℕ) - (src : ℤ))

/-- `is_same_ratio` is positive. -/
def isSameRatio (ref c : LayerConfig) : Bool :=
  !decide (ref.dstWidth = 0 ∨ ref.dstHeight = 0) &&
    decide ((ratioDiff c.dstWidth ref.srcWidth ref.dstWidth c.srcWidth).natAbs ≤ 1 ∧
      (ratioDiff c.dstHeight ref.srcHeight ref.dstHeight c.srcHeight).natAbs ≤ 1)

/-- `same_ratio_limitation`. -/
def sameRatioLimitation (limitation : ℤ) (c : LayerConfig) : Bool :=
  let diffW := s32 ((c.dstWidth : ℤ) - c.srcWidth)
  let diffH := s32 ((c.dstHeight : ℤ) - c.srcHeight)
  if env.panelWidth ≤ 0 ∨ env.panelHeight ≤ 0 then false
  else decide (((s32 (100 * diffW)).tdiv env.panelWidth < limitation ∧ diffW > 0) ∨
    ((s32 (100 * diffH)).tdiv env.panelHeight < limitation ∧ diffH > 0))

/-- What `RPO_rule` keeps: the first scaled layer, and the areas of the scaled layers before and
after scaling. -/
structure Rpo where
  refLayer : Option LayerConfig
  srcRoi : Rect
  dstRoi : Rect
  rszIdx : ℤ

/-- The offset of a layer in the scale of its source. -/
def srcOffset (dstOffset src dst : ℕ) : ℤ :=
  s32 ((u32 (u32 (u32 ((dstOffset : ℤ) * src) * 10) / dst + 5 : ℕ) / 10 : ℕ) : ℤ)

variable (d : HrtDisp) (c : LayerConfig)

/-- The layer does not fit to the first scaled layer. -/
def Rpo.mismatch (rpo : Rpo) : Bool :=
  match rpo.refLayer with
  | none => false
  | some ref => (!isSameRatio ref c && !isSameRatio c ref) || sameRatioLimitation env 2 c

/-- The areas with a layer. -/
def Rpo.join (c : LayerConfig) (rpo : Rpo) : Rpo :=
  { rpo with
    refLayer := some (rpo.refLayer.getD c)
    srcRoi := Rect.join ⟨srcOffset c.dstOffsetX c.srcWidth c.dstWidth,
      srcOffset c.dstOffsetY c.srcHeight c.dstHeight, s32 c.srcWidth, s32 c.srcHeight⟩ rpo.srcRoi
    dstRoi := Rect.join ⟨s32 c.dstOffsetX, s32 c.dstOffsetY, s32 c.dstWidth, s32 c.dstHeight⟩
      rpo.dstRoi }

/-- The areas are too large for the hardware, or they are scaled down. -/
def Rpo.tooLarge (rpo : Rpo) : Bool :=
  decide (rpo.srcRoi.width > rpo.dstRoi.width ∨ rpo.srcRoi.height > rpo.dstRoi.height ∨
    rpo.srcRoi.width > 1440 ∨ rpo.srcRoi.height > 4096)

/-- The layer is scaled by the display. -/
def LayerConfig.setDispRsz (rsz : Bool) (c : LayerConfig) : LayerConfig :=
  { c with layerCaps := { c.layerCaps with dispRsz := rsz } }

/-- `RPO_rule`: the number of layers that the display scales. -/
def rpoRule : RuleM ℤ := do
  let s ← get
  let rpo ← foldUp 0 (min (s.layerNum d) 2) ⟨none, ⟨0, 0, 0, 0⟩, ⟨0, 0, 0, 0⟩, -1⟩
    fun i (rpo : Rpo) => do
      let c ← layerAt d i
      let s ← get
      if 0 ≤ s.glesHead d ∧ s.glesHead d ≤ i then pure (false, rpo)
      else if c.srcWidth ≤ 4 ∨ c.srcHeight ≤ 4 then pure (false, rpo)
      else if !c.isRszValid then pure (false, rpo)
      else if rpo.mismatch env c then pure (false, rpo)
      else if (rpo.join c).tooLarge then pure (false, rpo)
      else do
        modifyLayer d i (LayerConfig.setDispRsz true)
        pure (true, { rpo.join c with rszIdx := i })
  pure (rpo.rszIdx + 1)

/-- `resizing_rule`. Only the primary display scales layers. -/
def resizingRule : RuleM ℤ := do
  rollbackAllResize .secondary
  rollbackAllResize .third
  let s ← get
  if s.layerNum .primary > 0 then do
    let scaleNum ← rpoRule env .primary
    rollbackResizeRange .primary scaleNum (s.layerNum .primary - 1)
    pure scaleNum
  else pure 0

/-- The part of `layering_rule_start` for scaled layers. -/
def resizeStage : RuleM ℤ :=
  if env.optRpo then resizingRule env
  else do
    each HrtDisp.all rollbackAllResize
    pure 0

/-- `can_be_compress`. -/
def canBeCompress (format : DrmFormat) : Bool :=
  !(mtkIsYuv format || decide (format = .rgb565))

/-- The buffer of a layer has to be uncompressed. -/
def LayerConfig.setNoFbdc : LayerConfig :=
  { c with layerCaps := { c.layerCaps with noFbdc := true } }

/-- `mtk_rollback_compress_layer_to_GPU`. -/
def mtkRollbackCompressLayerToGPU (i : ℤ) : RuleM Unit := do
  let s ← get
  if s.isLayerIdValid d i then do
    let c ← layerAt d i
    if c.compress then do
      mtkRollbackLayerToGPU d i
      modifyLayer d i LayerConfig.setNoFbdc
    else pure ()
  else pure ()

/-- `filter_by_fbdc`. -/
def filterByFbdc : RuleM Unit := do
  forLayers .primary fun i => do
    let c ← layerAt .primary i
    if c.compress && !canBeCompress c.srcFmt then mtkRollbackCompressLayerToGPU .primary i
    else pure ()
  each [.secondary, .third] fun d => forLayers d fun j => do
    let c ← layerAt d j
    let s ← get
    if !c.compress || s.isGlesLayer d j then pure ()
    else mtkRollbackCompressLayerToGPU d j

/-- `calc_clip_x` and `calc_clip_y`: the size is extended to whole tiles. -/
def clipOf (offset size tile : ℕ) : ℕ × ℕ :=
  let start := offset / tile * tile
  let stop := u32 ((offset : ℤ) + size + tile - 1) / tile * tile
  (u32 ((offset : ℤ) - start) % 256, u32 ((stop : ℤ) - offset - size) % 256)

/-- The clip of a layer. -/
def LayerConfig.calcClip : LayerConfig :=
  let x := clipOf c.srcOffsetX c.srcWidth 16
  let y := clipOf c.srcOffsetY c.srcHeight 4
  { c with clip := ⟨x.2, y.2, x.1, y.1⟩ }

/-- `fbdc_pre_calculate`. -/
def fbdcPreCalculate : RuleM Unit := do
  modify fun s => { s with gInputConfig := s.inputConfig .primary }
  forLayers .primary fun i => do
    modifyLayer .primary i fun c => { c with clip := ⟨0, 0, 0, 0⟩ }
    let c ← layerAt .primary i
    let s ← get
    if !c.compress || s.isGlesLayer .primary i || !c.sameSize then pure ()
    else modifyLayer .primary i LayerConfig.calcClip

/-- An offset and a size that are extended by a clip on both sides. -/
def growBy (offset size before after : ℕ) : ℕ × ℕ :=
  let start := if offset < before then 0 else offset - before
  (start, u32 ((size : ℤ) + u32 ((after : ℤ) + offset - start)))

/-- The layer with its clip. -/
def LayerConfig.addClip : LayerConfig :=
  let x := growBy c.dstOffsetX c.dstWidth c.clip.l c.clip.r
  let y := growBy c.dstOffsetY c.dstHeight c.clip.t c.clip.b
  { c with dstOffsetX := x.1, dstWidth := x.2, dstOffsetY := y.1, dstHeight := y.2 }

/-- `fbdc_adjust_layout_for_ext_grouping`. -/
def adjustForExtGrouping : RuleM Unit :=
  forLayers .primary fun i => do
    let c ← layerAt .primary i
    let s ← get
    if !c.compress || s.isGlesLayer .primary i || !c.sameSize then pure ()
    else modifyLayer .primary i LayerConfig.addClip

/-- `fbdc_restore_layout`. -/
def fbdcRestoreLayout : RuleM Unit :=
  forLayers .primary fun i => do
    let s ← get
    match s.gInputConfig[i.toNat]? with
    | none => pure ()
    | some old => modifyLayer .primary i fun c =>
      { c with dstOffsetX := old.dstOffsetX, dstOffsetY := old.dstOffsetY,
               dstWidth := old.dstWidth, dstHeight := old.dstHeight }

/-- `is_overlap_on_yaxis`. -/
def isOverlapOnYaxis (lhs rhs : LayerConfig) : Bool :=
  if mtkIsYuv lhs.srcFmt then true
  else !decide (u32 ((lhs.dstOffsetY : ℤ) + lhs.dstHeight) ≤ rhs.dstOffsetY ∨
    u32 ((rhs.dstOffsetY : ℤ) + rhs.dstHeight) ≤ lhs.dstOffsetY)

/-- `is_extended_base_layer_valid`. -/
def isExtendedBaseLayerValid (i : ℤ) : Bool :=
  !(decide (i = 0) || decide (c.srcFmt = .dim) || c.layerCaps.dispRsz)

/-- `is_continuous_ext_layer_overlap`. -/
def isContinuousExtLayerOverlap (curr : ℤ) : RuleM Bool := do
  let dst ← layerAt d curr
  foldDown (curr - 1) 0 false fun i overlapped => do
    let src ← layerAt d i
    let overlapped := overlapped || isOverlapOnYaxis src dst
    if src.isExtended then pure (!overlapped, overlapped)
    else pure (false, overlapped || !isExtendedBaseLayerValid src i)

/-- The counters of `ext_layer_grouping`. -/
structure Grouping where
  contExtLayerCnt : ℕ
  extIdx : ℤ

/-- One layer of `ext_layer_grouping`. -/
def groupLayer (i : ℤ) (g : Grouping) : RuleM Grouping := do
  let s ← get
  if s.isGlesLayer d i || s.isGlesLayer d (i - 1) then
    pure ⟨0, if i > s.glesTail d then i - (s.glesTail d - s.glesHead d) else g.extIdx⟩
  else do
    let overlap ← isContinuousExtLayerOverlap d i
    let dst ← layerAt d i
    if !overlap && !mtkIsYuv dst.srcFmt && decide (g.contExtLayerCnt < 3) then do
      modifyLayer d i (LayerConfig.setExt g.extIdx)
      pure { g with contExtLayerCnt := g.contExtLayerCnt + 1 }
    else pure ⟨0, if i > s.glesTail d then i - (s.glesTail d - s.glesHead d) else i⟩

/-- `ext_layer_grouping` for one display. Only the primary display has extended layers. -/
def groupDisplay : RuleM Unit := do
  forLayers d fun i => modifyLayer d i LayerConfig.clearExt
  if env.optExtLayer && decide (d = .primary) then do
    let s ← get
    let _ ← foldUp 1 (s.layerNum d) (⟨0, 0⟩ : Grouping) fun i g => do
      let g ← groupLayer d i g
      pure (true, g)
    pure ()
  else pure ()

/-- `ext_layer_grouping`. -/
def extLayerGrouping : RuleM Unit := each HrtDisp.all (groupDisplay env)

/-- `layering_rule_scenario_decision`. -/
def scenarioDecision (scaleNum : ℤ) : RuleM Unit :=
  modify fun s =>
    let scn := if s.isTripleDisp then AddonScn.tripleDisp else .none
    { s with addonScn := fun d => match d with
      | .primary =>
        if scaleNum = 1 then .oneScaling else if scaleNum = 2 then .twoScaling else .none
      | .secondary | .third => scn }

end Mt8169.Layering
