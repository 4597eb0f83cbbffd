import Mathlib.Data.List.Nodup
import Mathlib.Data.List.Perm.Subperm
import Mt8169.Layering.Safety

/-!
# YUV layers

An overlay takes one YUV layer. `filter_by_yuv_layers` keeps the lowest secure one of a display, or
the lowest one if none is secure, and rolls the others back. The GLES range has no holes: it
swallows the secure layer if layers on both sides of it are for the GPU. The list of the layers to
roll back has four places. With more of them the function returns, and neither this display nor
those after it are changed.
-/

namespace Mt8169.Layering

open MachineInt WeakestPre DispInfo List Function Nat Int

/-- What `filter_by_yuv_layers` depends on: the GLES range of a display, and which of its layers are
YUV layers and which secure. -/
structure YuvDisplay where
  head : ℤ
  tail : ℤ
  layers : List (Bool × Bool)

/-- A display of a state. -/
def DispInfo.yuvDisplay (s : DispInfo) (d : HrtDisp) : YuvDisplay :=
  ⟨s.glesHead d, s.glesTail d, (s.inputConfig d).map fun c => (mtkIsYuv c.srcFmt, c.secure)⟩

namespace YuvDisplay

variable (x : YuvDisplay)

/-- The layer is one of the GLES range. -/
def inGles (i : ℤ) : Bool := decide (x.head ≤ i ∧ i ≤ x.tail)

/-- The layer is a YUV layer. -/
def isYuv (i : ℤ) : Bool := (x.layers[i.toNat]?).any fun l => l.1

/-- The layer is secure. -/
def isSecure (i : ℤ) : Bool := (x.layers[i.toNat]?).any fun l => l.2

/-- The YUV layers below an index that are outside of the GLES range. -/
def outsideBelow (m : ℕ) : List ℤ :=
  ((List.range m).map ofNat).filter fun i => x.isYuv i && !x.inGles i

/-- The lowest secure one of them. -/
def secureBelow (m : ℕ) : Option ℤ := (x.outsideBelow m).find? x.isSecure

/-- The others. -/
def othersBelow (m : ℕ) : List ℤ :=
  (x.outsideBelow m).filter fun i => decide (x.secureBelow m ≠ some i)

/-- The YUV layers outside of the GLES range. -/
def outside : List ℤ := x.outsideBelow x.layers.length

/-- The lowest secure YUV layer outside of the GLES range. -/
def lowestSecure : Option ℤ := x.secureBelow x.layers.length

/-- The YUV layers outside of the GLES range but for the lowest secure one. -/
def others : List ℤ := x.othersBelow x.layers.length

/-- The layers of the GLES range. -/
def glesLayers : List ℤ := ((List.range x.layers.length).map ofNat).filter x.inGles

/-- The GLES range is empty or inside of the layers. -/
def RangeOk : Prop :=
  (x.head = -1 ∧ x.tail = -1) ∨ (0 ≤ x.head ∧ x.head ≤ x.tail ∧ x.tail < x.layers.length)

variable {x} {m : ℕ}

theorem mem_map_range {i : ℤ} : i ∈ (List.range m).map ofNat ↔ 0 ≤ i ∧ i < m := by
  rw [mem_map]
  constructor
  · rintro ⟨k, hk, rfl⟩
    rw [mem_range] at hk
    exact ⟨natCast_nonneg k, Int.ofNat_lt.mpr hk⟩
  · rintro ⟨hlo, hhi⟩
    exact ⟨i.toNat, mem_range.mpr (by omega), toNat_of_nonneg hlo⟩

theorem mem_outsideBelow {i : ℤ} :
    i ∈ x.outsideBelow m ↔ (0 ≤ i ∧ i < m) ∧ x.isYuv i = true ∧ x.inGles i = false := by
  unfold outsideBelow
  rw [mem_filter, mem_map_range, Bool.and_eq_true, Bool.not_eq_true']

theorem nodup_outsideBelow (m : ℕ) : (x.outsideBelow m).Nodup := by
  apply List.Nodup.filter
  exact nodup_range.map fun a b hab => ofNat.inj hab

theorem secureBelow_mem {k : ℤ} (h : x.secureBelow m = some k) :
    k ∈ x.outsideBelow m :=
  mem_of_find?_eq_some h

theorem othersBelow_of_none (h : x.secureBelow m = none) : x.othersBelow m = x.outsideBelow m := by
  unfold othersBelow
  rw [h, filter_eq_self]
  intro i _
  rfl

/-- The YUV layers from an index on that are outside of the GLES range. -/
def outsideFrom (x : YuvDisplay) (m : ℕ) : List ℤ :=
  ((range' m (x.layers.length - m)).map ofNat).filter fun i => x.isYuv i && !x.inGles i

theorem outsideFrom_eq (hm : m < x.layers.length) :
    x.outsideFrom m =
      (if x.isYuv m && !x.inGles m then [(m : ℤ)] else []) ++ x.outsideFrom (m + 1) := by
  have hlen : x.layers.length - m = x.layers.length - (m + 1) + 1 := by omega
  rw [outsideFrom, hlen, range'_succ, map_cons, filter_cons, ofNat_eq_natCast]
  split <;> rfl

theorem not_mem_outsideFrom : (m : ℤ) ∉ x.outsideFrom (m + 1) := by
  simp only [outsideFrom, mem_filter, mem_map, mem_range'_1]
  rintro ⟨⟨k, hk, heq⟩, -⟩
  have := ofNat.inj heq
  omega

/-- What the first loop knows when some of the YUV layers outside of the range are still to come:
which layers it will find. -/
structure Scanned (x : YuvDisplay) (rest : List ℤ) (yuv : YuvLayers) : Prop where
  beyond : yuv.beyond = false
  secure : x.lowestSecure = if yuv.ovl < 0 then rest.find? x.isSecure else some yuv.ovl
  others : x.others = yuv.gpu ++ if yuv.ovl < 0 then
    rest.filter (fun i => decide (rest.find? x.isSecure ≠ some i)) else rest

section Scanned

variable {yuv : YuvLayers} {i : ℤ} {rest : List ℤ} (h : Scanned x (i :: rest) yuv)
  (hnot : i ∉ rest)
include h hnot

theorem Scanned.first_secure (hi : 0 ≤ i) (hsecure : x.isSecure i = true) (hneg : yuv.ovl < 0) :
    Scanned x rest { yuv with ovl := i } := by
  refine ⟨h.beyond, ?_, ?_⟩
  · rw [h.secure, if_pos hneg, find?_cons_of_pos hsecure, if_neg (Int.not_lt.mpr hi)]
  · rw [h.others, if_pos hneg, find?_cons_of_pos hsecure, filter_cons_of_neg (by simp),
      if_neg (Int.not_lt.mpr hi), filter_eq_self.mpr]
    intro k hk
    apply decide_eq_true
    rintro ⟨⟩
    exact hnot hk

theorem Scanned.other (hother : ¬(x.isSecure i = true ∧ yuv.ovl < 0)) :
    Scanned x rest { yuv with gpu := yuv.gpu ++ [i] } := by
  obtain ⟨hbeyond, hsecure, hothers⟩ := h
  by_cases hneg : yuv.ovl < 0
  · have hplain : ¬x.isSecure i = true := fun hsecure => hother ⟨hsecure, hneg⟩
    have hne : rest.find? x.isSecure ≠ some i := fun heq => hnot (mem_of_find?_eq_some heq)
    rw [if_pos hneg, find?_cons_of_neg hplain] at hsecure hothers
    rw [filter_cons, if_pos (decide_eq_true hne), append_cons] at hothers
    exact ⟨hbeyond, hsecure.trans (if_pos hneg).symm, hothers.trans (by rw [if_pos hneg])⟩
  · rw [if_neg hneg] at hsecure hothers
    rw [append_cons] at hothers
    exact ⟨hbeyond, hsecure.trans (if_neg hneg).symm, hothers.trans (by rw [if_neg hneg])⟩

end Scanned

/-- The layers that are rolled back. -/
def toGpu (x : YuvDisplay) : List ℤ := if x.lowestSecure.isSome then x.others else x.others.drop 1

theorem Scanned.toGpu_eq {yuv : YuvLayers} (h : Scanned x [] yuv) :
    (if yuv.ovl ≥ 0 then yuv.gpu else yuv.gpu.drop 1) = x.toGpu ∧ x.others = yuv.gpu := by
  have hothers : x.others = yuv.gpu := by
    have heq := h.others
    split at heq <;> exact heq.trans (append_nil _)
  rw [toGpu, h.secure, hothers]
  by_cases hneg : yuv.ovl < 0
  · rw [if_pos hneg, if_neg (Int.not_le.mpr hneg)]
    exact ⟨rfl, rfl⟩
  · rw [if_neg hneg, if_pos (Int.not_lt.mp hneg)]
    exact ⟨rfl, rfl⟩

end YuvDisplay

open YuvDisplay

theorem DispInfo.yuvDisplay_layer {s : DispInfo} {d : HrtDisp} {i : ℤ} {c : LayerConfig}
    (h : s.layer? d i = some c) :
    (s.yuvDisplay d).isYuv i = mtkIsYuv c.srcFmt ∧ (s.yuvDisplay d).isSecure i = c.secure := by
  obtain ⟨hlo, -⟩ := of_layer? h
  unfold layer? at h
  rw [if_pos hlo] at h
  unfold isYuv isSecure yuvDisplay
  dsimp only
  rw [getElem?_map, h]
  exact ⟨rfl, rfl⟩

variable (s : DispInfo) (d : HrtDisp)

theorem DispInfo.yuvDisplay_inGles (i : ℤ) : (s.yuvDisplay d).inGles i = s.isGlesLayer d i := rfl

theorem DispInfo.length_yuvDisplay :
    (s.yuvDisplay d).layers.length = (s.inputConfig d).length := length_map _

/-- The first loop of `filter_by_yuv_layers` finds the YUV layers outside of the range, or that
there are too many. -/
theorem wp_findYuvLayers :
    wp (findYuvLayers d) (fun yuv s' => s' = s ∧
      if yuv.beyond then maxPhyOvlCnt < (s.yuvDisplay d).others.length else
        (s.yuvDisplay d).others.length ≤ maxPhyOvlCnt ∧
          (if yuv.ovl ≥ 0 then yuv.gpu else yuv.gpu.drop 1) = (s.yuvDisplay d).toGpu) s := by
  have hnum : s.layerNum d = (s.yuvDisplay d).layers.length := by
    rw [length_yuvDisplay]
    rfl
  unfold findYuvLayers foldLayers
  rw [wp_read]
  apply wp_foldUp (fun i yuv s' => s' = s ∧ yuv.gpu.length ≤ maxPhyOvlCnt ∧
    Scanned (s.yuvDisplay d) ((s.yuvDisplay d).outsideFrom i.toNat) yuv) (by omega)
  · refine ⟨rfl, zero_le _, rfl, ?_, ?_⟩
    all_goals rw [toNat_zero, outsideFrom, ← range_eq_range']; rfl
  · rintro i yuv s' hlo hhi ⟨rfl, hfew, hscan⟩
    obtain ⟨c, hc⟩ := exists_layer? (s := s') (d := d) hlo hhi
    obtain ⟨hyuv, hsecure⟩ := yuvDisplay_layer hc
    have hgles := s'.yuvDisplay_inGles d i
    obtain ⟨m, rfl⟩ := eq_ofNat_of_zero_le hlo
    have hsucc : ((m : ℤ) + 1).toNat = m + 1 := by omega
    rw [toNat_natCast, outsideFrom_eq (by omega), hgles, hyuv] at hscan
    rw [hsucc, wp_readLayer hc, wp_read, wp_ite]
    refine ⟨fun hin => ?_, fun hin => ?_⟩
    · rw [hin, Bool.not_true, Bool.and_false] at hscan
      exact wp_continue.mpr ⟨rfl, hfew, hscan⟩
    rw [wp_ite]
    refine ⟨fun hisYuv => ?_, fun hisYuv => ?_⟩
    · rw [Bool.eq_false_iff.mpr hin, hisYuv] at hscan
      rw [wp_ite, Bool.and_eq_true, decide_eq_true_eq, ← hsecure]
      refine ⟨fun hfirst => ?_, fun hnot => ?_⟩
      · exact wp_continue.mpr
          ⟨rfl, hfew, hscan.first_secure not_mem_outsideFrom hlo hfirst.1 hfirst.2⟩
      have hnext := hscan.other not_mem_outsideFrom hnot
      have hlen : (yuv.gpu ++ [(m : ℤ)]).length = yuv.gpu.length + 1 := length_append
      rw [wp_ite]
      refine ⟨fun hroom => wp_continue.mpr ⟨rfl, hlen ▸ hroom, hnext⟩, fun hfull => ?_⟩
      refine wp_break.mpr ⟨rfl, ?_⟩
      rw [if_pos rfl, hnext.others, length_append, hlen]
      omega
    · rw [Bool.eq_false_iff.mpr hisYuv, Bool.false_and] at hscan
      exact wp_continue.mpr ⟨rfl, hfew, hscan⟩
  · rintro yuv s' ⟨rfl, hfew, hscan⟩
    have hnil : (s'.yuvDisplay d).outsideFrom (s'.layerNum d).toNat = [] := by
      rw [hnum, toNat_natCast, outsideFrom, Nat.sub_self]
      rfl
    rw [hnil] at hscan
    obtain ⟨hgpu, hothers⟩ := hscan.toGpu_eq
    rw [hscan.beyond, if_neg Bool.false_ne_true, hothers]
    exact ⟨rfl, hfew, hgpu⟩

namespace YuvDisplay

/-- The display with a GLES range that is extended to a layer. -/
def grow (x : YuvDisplay) (i : ℤ) : YuvDisplay :=
  { x with
    head := if x.head = -1 ∨ x.head > i then i else x.head
    tail := if x.tail = -1 ∨ x.tail < i then i else x.tail }

/-- The display with a GLES range that is extended to some layers. -/
def growAll (x : YuvDisplay) (is : List ℤ) : YuvDisplay := is.foldl grow x

section Grow

variable {x : YuvDisplay} {i j k : ℤ} {is : List ℤ}

theorem RangeOk.grow (h : x.RangeOk) (hlo : 0 ≤ i) (hhi : i < x.layers.length) :
    (x.grow i).RangeOk := by
  unfold RangeOk YuvDisplay.grow at *
  dsimp only
  split <;> split <;> omega

theorem inGles_iff (h : x.RangeOk) (hj : 0 ≤ j) :
    x.inGles j = true ↔ (x.head ≠ -1 ∧ x.head ≤ j) ∧ j ≤ x.tail := by
  unfold RangeOk at h
  unfold inGles
  rw [decide_eq_true_eq]
  omega

/-- All layers are below another one, or all are above it. -/
def OneSide (k : ℤ) (is : List ℤ) : Prop := (∀ i ∈ is, i < k) ∨ ∀ i ∈ is, k < i
  deriving Decidable

theorem growAll_bounds (h : x.RangeOk) (his : ∀ i ∈ is, 0 ≤ i ∧ i < x.layers.length) :
    (x.growAll is).RangeOk ∧
    ((x.growAll is).head ≠ -1 ∧ (x.growAll is).head ≤ j ↔
      (x.head ≠ -1 ∧ x.head ≤ j) ∨ ∃ i ∈ is, i ≤ j) ∧
    (0 ≤ j → (j ≤ (x.growAll is).tail ↔ j ≤ x.tail ∨ ∃ i ∈ is, j ≤ i)) := by
  induction is generalizing x with
  | nil => simpa [growAll] using h
  | cons i is ih =>
    obtain ⟨hlo, hhi⟩ := his i mem_cons_self
    obtain ⟨hrange, hhead, htail⟩ :=
      ih (h.grow hlo hhi) fun k hk => his k (mem_cons_of_mem i hk)
    have hfirst : (x.grow i).head ≠ -1 ∧ (x.grow i).head ≤ j ↔
        (x.head ≠ -1 ∧ x.head ≤ j) ∨ i ≤ j := by
      unfold YuvDisplay.grow
      dsimp only
      split <;> omega
    have hlast (hj : 0 ≤ j) : j ≤ (x.grow i).tail ↔ j ≤ x.tail ∨ j ≤ i := by
      unfold YuvDisplay.grow
      dsimp only
      split <;> omega
    refine ⟨hrange, hhead.trans ?_, fun hj => (htail hj).trans ?_⟩
    · rw [hfirst, exists_mem_cons_iff, or_assoc]
    · rw [hlast hj, exists_mem_cons_iff, or_assoc]

theorem layers_growAll (x : YuvDisplay) (is : List ℤ) : (x.growAll is).layers = x.layers := by
  induction is generalizing x with
  | nil => rfl
  | cons i is ih => exact ih (x.grow i)

theorem mem_glesLayers : i ∈ x.glesLayers ↔ (0 ≤ i ∧ i < x.layers.length) ∧ x.inGles i = true := by
  unfold glesLayers
  rw [mem_filter, mem_map_range]

section

variable (h : x.RangeOk) (his : ∀ i ∈ is, 0 ≤ i ∧ i < x.layers.length)
include h his

/-- A layer is in the range if it is between two of its layers. -/
theorem inGles_growAll
    (hj : 0 ≤ j) : (x.growAll is).inGles j = true ↔
      (∃ a ∈ x.glesLayers ++ is, a ≤ j) ∧ ∃ b ∈ x.glesLayers ++ is, j ≤ b := by
  have hfirst : (x.head ≠ -1 ∧ x.head ≤ j) ↔ ∃ a ∈ x.glesLayers, a ≤ j := by
    simp only [mem_glesLayers, inGles, decide_eq_true_eq]
    unfold RangeOk at h
    exact ⟨fun _ => ⟨x.head, by omega, by omega⟩, fun ⟨a, _, _⟩ => by omega⟩
  have hlast : j ≤ x.tail ↔ ∃ b ∈ x.glesLayers, j ≤ b := by
    clear hfirst
    simp only [mem_glesLayers, inGles, decide_eq_true_eq]
    unfold RangeOk at h
    exact ⟨fun _ => ⟨x.tail, by omega, by omega⟩, fun ⟨b, _, _⟩ => by omega⟩
  obtain ⟨hrange, hhead, htail⟩ := growAll_bounds (j := j) h his
  simp only [mem_append, or_and_right, exists_or, ← hfirst, ← hlast, ← hhead, ← htail hj]
  exact inGles_iff hrange hj

theorem inGles_growAll_of_mem
    (hj : 0 ≤ j) (hmem : j ∈ x.glesLayers ++ is) : (x.growAll is).inGles j = true :=
  (inGles_growAll h his hj).mpr ⟨⟨j, hmem, Int.le_refl j⟩, j, hmem, Int.le_refl j⟩

/-- A layer is outside if all of them are on one side. -/
theorem outside_growAll
    (hk : 0 ≤ k) : (x.growAll is).inGles k = false ↔ OneSide k (x.glesLayers ++ is) := by
  rw [← Bool.not_eq_true, inGles_growAll h his hk, not_and_or, or_comm]
  simp only [OneSide, not_exists, not_and, Int.not_le]

end

end Grow

/-- At most one YUV layer is outside of the GLES range afterwards, and the lowest secure one is
still outside. -/
structure Right (x x' : YuvDisplay) : Prop where
  one : x'.outside.length ≤ 1
  secure : ∀ k ∈ x.lowestSecure, x'.inGles k = false

instance (x x' : YuvDisplay) : Decidable (Right x x') :=
  decidable_of_iff (x'.outside.length ≤ 1 ∧ ∀ k ∈ x.lowestSecure, x'.inGles k = false)
    ⟨fun h => ⟨h.1, h.2⟩, fun h => ⟨h.one, h.secure⟩⟩

/-- There are not too many layers to be rolled back, and they and the GLES range are on one side of
the lowest secure layer. -/
def Fits (x : YuvDisplay) : Prop :=
  x.others.length ≤ maxPhyOvlCnt ∧ ∀ k ∈ x.lowestSecure, OneSide k (x.glesLayers ++ x.others)
  deriving Decidable

section Right

variable {x : YuvDisplay}

theorem mem_others {i : ℤ} : i ∈ x.others ↔ i ∈ x.outside ∧ x.lowestSecure ≠ some i := by
  unfold others othersBelow
  rw [mem_filter, decide_eq_true_eq]
  rfl

theorem valid_of_mem_toGpu (i : ℤ) (h : i ∈ x.toGpu) : 0 ≤ i ∧ i < x.layers.length := by
  have hmem : i ∈ x.others := by
    unfold toGpu at h
    split at h
    · exact h
    · exact mem_of_mem_drop h
  exact (mem_outsideBelow.mp (mem_others.mp hmem).1).1

/-- A display with too many YUV layers may not stay as it is. -/
theorem not_right_of_many (hmany : maxPhyOvlCnt < x.others.length) : ¬Right x x := by
  intro h
  have hle : x.others.length ≤ x.outside.length := length_filter_le _ _
  have hone := h.one
  unfold maxPhyOvlCnt at hmany
  omega

/-- At most one YUV layer stays. -/
theorem exists_kept (x : YuvDisplay) : ∃ k, ∀ i ∈ x.outside, i ∉ x.toGpu → i = k := by
  unfold toGpu
  cases hsecure : x.lowestSecure with
  | some k =>
    refine ⟨k, fun i hi hnot => ?_⟩
    by_contra hne
    refine hnot (mem_others.mpr ⟨hi, ?_⟩)
    rw [hsecure]
    exact fun heq => hne (Option.some.inj heq).symm
  | none =>
    have hall : x.others = x.outside := othersBelow_of_none hsecure
    rw [hall]
    cases x.outside with
    | nil => exact ⟨0, fun i hi => absurd hi not_mem_nil⟩
    | cons k l =>
      refine ⟨k, fun i hi hnot => ?_⟩
      exact (mem_cons.mp hi).resolve_right hnot

/-- The display is right exactly if the range does not swallow the lowest secure layer. -/
theorem right_growAll_iff (hrange : x.layers ≠ [] → x.RangeOk) :
    Right x (x.growAll x.toGpu) ↔
      ∀ k ∈ x.lowestSecure, OneSide k (x.glesLayers ++ x.others) := by
  have hok {i : ℤ} (hi : 0 ≤ i ∧ i < x.layers.length) : x.RangeOk := hrange fun hnil => by
    rw [hnil, length_nil] at hi
    omega
  have hsecure (k : ℤ) (hk : x.lowestSecure = some k) :
      (x.growAll x.toGpu).inGles k = false ↔ OneSide k (x.glesLayers ++ x.others) := by
    have hbounds := (mem_outsideBelow.mp (secureBelow_mem hk)).1
    have hall : x.toGpu = x.others := by
      unfold toGpu
      rw [hk]
      rfl
    rw [outside_growAll (hok hbounds) valid_of_mem_toGpu hbounds.1, hall]
  constructor
  · exact fun h k hk => (hsecure k hk).mp (h.secure k hk)
  · refine fun h => ⟨?_, fun k hk => (hsecure k hk).mpr (h k hk)⟩
    obtain ⟨k, hkept⟩ := x.exists_kept
    refine (subperm_of_subset (nodup_outsideBelow _) (fun i hi => ?_ : _ ⊆ [k])).length_le
    obtain ⟨hbounds, hyuv, hout⟩ := mem_outsideBelow.mp hi
    rw [layers_growAll] at hbounds
    unfold isYuv at hyuv
    rw [layers_growAll] at hyuv
    have hnew (hmem : i ∈ x.glesLayers ++ x.toGpu) : False := by
      rw [inGles_growAll_of_mem (hok hbounds) valid_of_mem_toGpu hbounds.1 hmem] at hout
      cases hout
    refine mem_singleton.mpr (hkept i (mem_outsideBelow.mpr ⟨hbounds, hyuv, ?_⟩) fun hmem =>
      hnew (mem_append_right _ hmem))
    exact Bool.eq_false_iff.mpr fun hin =>
      hnew (mem_append_left _ (mem_glesLayers.mpr ⟨hbounds, hin⟩))

end Right

end YuvDisplay

variable {s : DispInfo}

theorem DispInfo.yuvDisplay_growGles (s : DispInfo) (d : HrtDisp) (i : ℤ) :
    (s.growGles d i).yuvDisplay = update s.yuvDisplay d ((s.yuvDisplay d).grow i) := by
  funext d'
  unfold growGles setGles yuvDisplay
  by_cases hd : d' = d
  · subst hd
    simp only [update_self]
    rfl
  · simp only [update_of_ne hd]

theorem DispInfo.yuvDisplay_clearExt (s : DispInfo) (d : HrtDisp) (i : ℤ) :
    (s.modifyAt d i LayerConfig.clearExt).yuvDisplay = s.yuvDisplay := by
  funext d'
  have hlayers := s.map_modifyAt (g := fun c => (mtkIsYuv c.srcFmt, c.secure))
    (f := LayerConfig.clearExt) (fun c => rfl) d d' i
  unfold yuvDisplay
  rw [hlayers]
  rfl

theorem wp_each_mtkRollbackLayerToGPU {d : HrtDisp} {is : List ℤ}
    (his : ∀ i ∈ is, 0 ≤ i ∧ i < (s.yuvDisplay d).layers.length) :
    wp (each is (mtkRollbackLayerToGPU d)) (fun _ s' =>
      s'.yuvDisplay = update s.yuvDisplay d ((s.yuvDisplay d).growAll is)) s := by
  induction is generalizing s with
  | nil => exact (update_eq_self d s.yuvDisplay).symm
  | cons i is ih =>
    have hi := his i mem_cons_self
    rw [length_yuvDisplay] at hi
    have hvalid : s.isLayerIdValid d i = true := decide_eq_true hi
    rw [each, wp_bind]
    unfold mtkRollbackLayerToGPU
    rw [wp_read, if_pos hvalid, wp_bind, wp_modify, wp_modifyLayer]
    refine ⟨hi, ?_⟩
    have hdisplays := (yuvDisplay_clearExt (s.growGles d i) d i).trans (s.yuvDisplay_growGles d i)
    refine (ih ?_).mono fun _ s' hs' => ?_
    · rw [hdisplays, update_self]
      exact fun k hk => his k (mem_cons_of_mem i hk)
    · rw [hs', hdisplays, update_idem, update_self]
      rfl

/-- The filter is right on all displays exactly if each of them fits. -/
theorem wp_filterByYuvLayers (ds : List HrtDisp) (hnodup : ds.Nodup)
    (hrange : ∀ d, (s.yuvDisplay d).layers ≠ [] → (s.yuvDisplay d).RangeOk) :
    wp (filterByYuvLayers ds) (fun _ s' =>
      (∀ d, d ∉ ds → s'.yuvDisplay d = s.yuvDisplay d) ∧
        ((∀ d ∈ ds, Right (s.yuvDisplay d) (s'.yuvDisplay d)) ↔
          ∀ d ∈ ds, (s.yuvDisplay d).Fits)) s := by
  induction ds generalizing s with
  | nil => exact ⟨fun _ _ => rfl, by simp⟩
  | cons d ds ih =>
    obtain ⟨hd, hnodup⟩ := nodup_cons.mp hnodup
    rw [filterByYuvLayers]
    refine (wp_findYuvLayers s d).seq ?_
    rintro yuv s ⟨rfl, hfound⟩
    cases hbeyond : yuv.beyond with
    | true =>
      rw [hbeyond, if_pos rfl] at hfound
      refine ⟨fun _ _ => rfl, iff_of_false (fun h => ?_) fun h => ?_⟩
      · exact not_right_of_many hfound (h d mem_cons_self)
      · exact absurd (h d mem_cons_self).1 (Nat.not_le.mpr hfound)
    | false =>
      rw [hbeyond, if_neg Bool.false_ne_true] at hfound
      rw [if_neg Bool.false_ne_true, hfound.2]
      refine (wp_each_mtkRollbackLayerToGPU valid_of_mem_toGpu).seq ?_
      intro _ s1 hs1
      have hself := congrFun hs1 d
      rw [update_self] at hself
      have hothers (d' : HrtDisp) (hd' : d' ≠ d) : s1.yuvDisplay d' = s.yuvDisplay d' := by
        rw [hs1, update_of_ne hd']
      have hrange1 (d' : HrtDisp) (hlayers : (s1.yuvDisplay d').layers ≠ []) :
          (s1.yuvDisplay d').RangeOk := by
        by_cases hd' : d' = d
        · rw [hd', hself] at hlayers ⊢
          rw [layers_growAll] at hlayers
          exact (growAll_bounds (j := 0) (hrange d hlayers) valid_of_mem_toGpu).1
        · rw [hothers d' hd'] at hlayers ⊢
          exact hrange d' hlayers
      refine (ih hnodup hrange1).mono fun _ s' ⟨hframe, hiff⟩ => ⟨fun d' hnot => ?_, ?_⟩
      · rw [mem_cons, not_or] at hnot
        exact (hframe d' hnot.2).trans (hothers d' hnot.1)
      · have hsame (d' : HrtDisp) (hd' : d' ∈ ds) : s.yuvDisplay d' = s1.yuvDisplay d' :=
          (hothers d' (ne_of_mem_of_not_mem hd' hd)).symm
        have hright := right_growAll_iff (hrange d)
        -- the rest of the function does not change this display any more
        rw [← hself, ← hframe d hd] at hright
        rw [forall_mem_cons, forall_mem_cons, hright]
        refine and_congr ⟨fun h => ⟨hfound.1, h⟩, fun h => h.2⟩ ?_
        refine (forall₂_congr fun d' hd' => ?_).trans (hiff.trans (forall₂_congr fun d' hd' => ?_))
        all_goals rw [hsame d' hd']

/-- After `filter_by_yuv_layers` every display has at most one YUV layer outside of its GLES range,
and the lowest secure one is still outside, exactly if no display has more than four layers to roll
back and they and the GLES range are on one side of the lowest secure layer. -/
theorem filterByYuvLayers_right_iff {s : DispInfo}
    (hrange : ∀ d, 0 < s.layerNum d → (s.part d).RangeOk) :
    wp (filterByYuvLayers HrtDisp.all)
        (fun _ s' => ∀ d, Right (s.yuvDisplay d) (s'.yuvDisplay d)) s ↔
      ∀ d, (s.yuvDisplay d).Fits := by
  have hrange' (d : HrtDisp) (hlayers : (s.yuvDisplay d).layers ≠ []) :
      (s.yuvDisplay d).RangeOk := by
    have hlen := s.length_yuvDisplay d
    have hpos := length_pos_iff.mpr hlayers
    have hok := hrange d (by unfold DispInfo.layerNum; omega)
    unfold YuvDisplay.RangeOk
    rw [hlen]
    exact hok
  obtain ⟨_, s', hrun, -, hiff⟩ :=
    wp_iff.mp (wp_filterByYuvLayers HrtDisp.all (by decide) hrange')
  rw [wp_of_run hrun]
  exact HrtDisp.forall_iff.trans (hiff.trans HrtDisp.forall_iff.symm)

/-- A YUV layer, secure or not. -/
def yuvLayer (secure : Bool) : LayerConfig :=
  { plainLayer with srcFmt := .yuv422, secure := secure }

/-- A request with YUV layers 0 and 2, the first of which is secure. -/
def securedRequest : LayeringInfo :=
  primaryRequest (fun i => if i = 1 then plainLayer else yuvLayer (i = 0)) 3 (-1) (-1)

/-- A request with YUV layers 0, 2 and 4, the middle one of which is secure. -/
def swallowedRequest : LayeringInfo :=
  primaryRequest (fun i => if i % 2 = 1 then plainLayer else yuvLayer (i = 2)) 5 (-1) (-1)

/-- A request with six YUV layers. -/
def sixYuvRequest : LayeringInfo := primaryRequest (fun _ => yuvLayer false) 6 (-1) (-1)

/-- The secure layer below the other one stays outside of the range. -/
theorem filterByYuvLayers_right_iff_secured :
    (∀ d, 0 < (setDispInfo securedRequest []).layerNum d →
        ((setDispInfo securedRequest []).part d).RangeOk) ∧
      wp (filterByYuvLayers HrtDisp.all) (fun _ s' => ∀ d,
        Right ((setDispInfo securedRequest []).yuvDisplay d) (s'.yuvDisplay d))
        (setDispInfo securedRequest []) :=
  have hrange : ∀ d, 0 < (setDispInfo securedRequest []).layerNum d →
      ((setDispInfo securedRequest []).part d).RangeOk := by decide
  ⟨hrange, (filterByYuvLayers_right_iff hrange).mpr (by decide)⟩

/-- Of three YUV layers, the secure one in the middle ends up in the GLES range of the others, and
six YUV layers all stay outside. -/
theorem not_filterByYuvLayers_right :
    (checkDispInfo swallowedRequest = true ∧
      (∀ d, 0 < (setDispInfo swallowedRequest []).layerNum d →
        ((setDispInfo swallowedRequest []).part d).RangeOk) ∧
      ¬wp (filterByYuvLayers HrtDisp.all) (fun _ s' => ∀ d,
        Right ((setDispInfo swallowedRequest []).yuvDisplay d) (s'.yuvDisplay d))
        (setDispInfo swallowedRequest [])) ∧
    checkDispInfo sixYuvRequest = true ∧
      (∀ d, 0 < (setDispInfo sixYuvRequest []).layerNum d →
        ((setDispInfo sixYuvRequest []).part d).RangeOk) ∧
      ¬wp (filterByYuvLayers HrtDisp.all) (fun _ s' => ∀ d,
        Right ((setDispInfo sixYuvRequest []).yuvDisplay d) (s'.yuvDisplay d))
        (setDispInfo sixYuvRequest []) := by
  refine ⟨⟨by decide, by decide, ?_⟩, by decide, by decide, ?_⟩
  all_goals decide +kernel

end Mt8169.Layering
