import Mathlib.Logic.Function.Basic
import Mt8169.Lib.MachineInt
import Mt8169.Lib.WeakestPre

/-!
# Layers and the GLES range

A frame consists of up to three displays with a list of layers each. The layering rule decides which
layers the GPU composes: on every display they form one range, the GLES range, which the rule only
extends. All others go to the overlay hardware. The definitions follow `mtk_layering_rule_base.c`
and `mtk_layering_rule.c`. The layers of a display are an array, and an access outside of it is a
fault of the model.
-/

namespace Mt8169.Layering

open MachineInt WeakestPre Function

/-- `enum HRT_DISP_TYPE`. -/
inductive HrtDisp where
  | primary | secondary | third
  deriving DecidableEq, Repr

/-- All displays, in the order of their index. -/
def HrtDisp.all : List HrtDisp := [.primary, .secondary, .third]

@[simp]
theorem HrtDisp.mem_all (d : HrtDisp) : d ∈ HrtDisp.all := by
  cases d <;> decide

theorem HrtDisp.forall_iff {p : HrtDisp → Prop} : (∀ d, p d) ↔ ∀ d ∈ HrtDisp.all, p d :=
  ⟨fun h d _ => h d, fun h d => h d d.mem_all⟩

instance {p : HrtDisp → Prop} [DecidablePred p] : Decidable (∀ d, p d) :=
  decidable_of_iff _ HrtDisp.forall_iff.symm

/-- The pixel formats that the rule tells apart. -/
inductive DrmFormat where
  | dim | c8 | rgb565 | bgr565 | yuyv | yvyu | uyvy | vyuy | rgb888 | bgr888
  | yuv422 | yvu422 | yuv444 | yvu444 | abgr16161616f | other
  deriving DecidableEq, Repr

/-- `mtk_is_yuv`. -/
def mtkIsYuv : DrmFormat → Bool
  | .yuv422 | .yvu422 | .yuv444 | .yvu444 => true
  | _ => false

/-- `mtk_get_format_bpp`. -/
def mtkGetFormatBpp : DrmFormat → ℤ
  | .dim | .c8 => 0
  | .rgb565 | .bgr565 | .yuyv | .yvyu | .uyvy | .vyuy => 2
  | .rgb888 | .bgr888 => 3
  | .yuv422 | .yvu422 => 2
  | .yuv444 | .yvu444 => 3
  | .abgr16161616f => 8
  | .other => 4

/-- `layer_caps`, one field for each bit of `enum MTK_LAYERING_CAPS` that the rule uses. -/
structure LayerCaps where
  ovlOnly : Bool
  mdpRsz : Bool
  dispRsz : Bool
  mdpHdr : Bool
  noFbdc : Bool
  clientClear : Bool
  dispClientClear : Bool
  deriving DecidableEq, Repr

/-- The bytes of `clip`. -/
structure Clip where
  r : ℕ
  b : ℕ
  l : ℕ
  t : ℕ
  deriving DecidableEq, Repr

/-- `struct drm_mtk_layer_config`. `compress` and `secure` say whether the byte is not zero and
whether it is one. -/
structure LayerConfig where
  ovlId : ℤ
  srcFmt : DrmFormat
  dataspace : ℕ
  dstOffsetX : ℕ
  dstOffsetY : ℕ
  dstWidth : ℕ
  dstHeight : ℕ
  extSelLayer : ℤ
  srcOffsetX : ℕ
  srcOffsetY : ℕ
  srcWidth : ℕ
  srcHeight : ℕ
  layerCaps : LayerCaps
  clip : Clip
  compress : Bool
  secure : Bool
  deriving DecidableEq, Repr

/-- `is_extended_layer`. -/
def LayerConfig.isExtended (c : LayerConfig) : Bool := decide (c.extSelLayer ≠ -1)

/-- The layer is not scaled. -/
def LayerConfig.sameSize (c : LayerConfig) : Bool :=
  decide (c.srcHeight = c.dstHeight ∧ c.srcWidth = c.dstWidth)

/-- The layer with another `ext_sel_layer`. -/
def LayerConfig.setExt (ext : ℤ) (c : LayerConfig) : LayerConfig := { c with extSelLayer := ext }

/-- The layer is no extended one any more. -/
def LayerConfig.clearExt (c : LayerConfig) : LayerConfig := c.setExt (-1)

/-- `enum addon_scenario`, as far as the rule uses it. -/
inductive AddonScn where
  | none | oneScaling | twoScaling | tripleDisp
  deriving DecidableEq, Repr

/-- `struct hrt_sort_entry`, with the layer that it points to. -/
structure HrtSortEntry where
  key : ℤ
  overlapW : ℤ
  disp : HrtDisp
  layer : ℤ
  deriving DecidableEq, Repr

/-- `layering_info` with its arrays, and the variables of the rule: `addon_scn`, the copy
`g_input_config` of the primary layers and the two lists of entries. `layer_num` is the length of an
array. -/
structure DispInfo where
  inputConfig : HrtDisp → List LayerConfig
  dispMode : HrtDisp → ℤ
  glesHead : HrtDisp → ℤ
  glesTail : HrtDisp → ℤ
  hrtNum : ℤ
  addonScn : HrtDisp → AddonScn
  gInputConfig : List LayerConfig
  xEntryList : List HrtSortEntry
  yEntryList : List HrtSortEntry

/-- An access outside of the layers of a display. -/
structure OutOfBounds where
  disp : HrtDisp
  index : ℤ
  deriving DecidableEq, Repr

/-- A part of the rule. -/
abbrev RuleM (α : Type) : Type := Prog DispInfo OutOfBounds α

/-- What the rule finds around it: its options, the state of the display driver, the bandwidth of
the platform and the panel. -/
structure LayeringEnv where
  optExtLayer : Bool
  optRpo : Bool
  optClearLayer : Bool
  optOvlWcg : Bool
  dalEnable : Bool
  idleNeedRepaint : Bool
  /-- `layering_get_valid_hrt`. -/
  validHrt : ℤ
  /-- A display has data for a scenario. -/
  hasAddonData : HrtDisp → AddonScn → Bool
  panelWidth : ℤ
  panelHeight : ℤ

variable (s : DispInfo) (d : HrtDisp) (i : ℤ)

/-- `layer_num` of a display. -/
def DispInfo.layerNum : ℤ := (s.inputConfig d).length

/-- `mtk_is_layer_id_valid`. -/
def DispInfo.isLayerIdValid : Bool :=
  decide (0 ≤ i ∧ i < s.layerNum d)

/-- `mtk_is_gles_layer`. -/
def DispInfo.isGlesLayer : Bool :=
  decide (s.glesHead d ≤ i ∧ i ≤ s.glesTail d)

/-- The layer at an index. -/
def DispInfo.layer? : Option LayerConfig :=
  if 0 ≤ i then (s.inputConfig d)[i.toNat]? else none

/-- Read `input_config[disp][i]`. -/
def layerAt : RuleM LayerConfig := do
  let s ← get
  match s.layer? d i with
  | some c => pure c
  | none => throw ⟨d, i⟩

/-- The state with a layer changed. -/
def DispInfo.modifyAt (f : LayerConfig → LayerConfig) : DispInfo :=
  { s with inputConfig := update s.inputConfig d ((s.inputConfig d).modify i.toNat f) }

/-- Write `input_config[disp][i]`. -/
def modifyLayer (f : LayerConfig → LayerConfig) : RuleM Unit := do
  let _ ← layerAt d i
  modify fun s => s.modifyAt d i f

/-- The state with another GLES range. -/
def DispInfo.setGles (head tail : ℤ) : DispInfo :=
  { s with
    glesHead := update s.glesHead d head
    glesTail := update s.glesTail d tail }

/-- Extend the GLES range to a layer. -/
def DispInfo.growGles : DispInfo :=
  s.setGles d (if s.glesHead d = -1 ∨ s.glesHead d > i then i else s.glesHead d)
    (if s.glesTail d = -1 ∨ s.glesTail d < i then i else s.glesTail d)

/-- `mtk_rollback_layer_to_GPU`. -/
def mtkRollbackLayerToGPU : RuleM Unit := do
  let s ← get
  if s.isLayerIdValid d i then do
    modify fun s => s.growGles d i
    modifyLayer d i LayerConfig.clearExt
  else pure ()

/-- For all layers of a display. -/
def forLayers (body : ℤ → RuleM Unit) : RuleM Unit := do
  let s ← get
  forUp 0 (s.layerNum d) body

/-- For all layers of a display, with a value that is carried along. The body says whether to go
on. -/
def foldLayers {α : Type} (acc : α) (body : ℤ → α → RuleM (Bool × α)) : RuleM α := do
  let s ← get
  foldUp 0 (s.layerNum d) acc body

/-- `struct drm_mtk_layering_info` as user space passes it, with the arrays that it points to. -/
structure LayeringInfo where
  inputConfig : HrtDisp → Option (ℕ → LayerConfig)
  dispMode : HrtDisp → ℤ
  layerNum : HrtDisp → ℤ
  glesHead : HrtDisp → ℤ
  glesTail : HrtDisp → ℤ
  hrtNum : ℤ
  resIdx : ℤ
  hrtWeight : ℕ
  hrtIdx : ℕ

/-- `MTK_DRM_SESSION_NUM`. -/
def mtkDrmSessionNum : ℤ := 5

/-- `MTK_DRM_SESSION_DC_MIRROR`. -/
def mtkDrmSessionDcMirror : ℤ := 3

/-- What `check_disp_info` asks of a display. -/
def LayeringInfo.checkDisp (info : LayeringInfo) (d : HrtDisp) : Bool :=
  let mode := info.dispMode d
  let ghead := info.glesHead d
  let gtail := info.glesTail d
  let layerNum := info.layerNum d
  if mode < 0 ∨ mode ≥ mtkDrmSessionNum then false
  else if layerNum < 0 then false
  else if layerNum > 0 ∧ (info.inputConfig d).isNone then false
  else if (ghead < 0 ∧ gtail ≥ 0) ∨ (gtail < 0 ∧ ghead ≥ 0) ∨ gtail < ghead ∨
      (layerNum > 0 ∧ gtail ≥ layerNum) then false
  else true

/-- `check_disp_info`. -/
def checkDispInfo (info : LayeringInfo) : Bool :=
  HrtDisp.all.all info.checkDisp &&
    !decide (info.resIdx ≠ 0 ∨ info.hrtWeight ≠ 0 ∨ info.hrtIdx ≠ 0)

/-- `set_disp_info`: the request is copied to kernel memory. `stale` are entries left in the list by
x. -/
def setDispInfo (info : LayeringInfo) (stale : List HrtSortEntry) : DispInfo where
  inputConfig := fun d => match info.inputConfig d with
    | some config => (List.range (info.layerNum d).toNat).map config
    | none => []
  dispMode := info.dispMode
  glesHead := info.glesHead
  glesTail := info.glesTail
  hrtNum := info.hrtNum
  addonScn := fun _ => .none
  gInputConfig := []
  xEntryList := stale
  yEntryList := []

end Mt8169.Layering
