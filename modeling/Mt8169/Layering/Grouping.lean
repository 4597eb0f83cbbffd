import Mt8169.Layering.Groups
import Mathlib.Data.Finset.Card

/-!
# The grouping of the layers

After the grouping, the first layer of a display, those of its GLES range and the one above them are
not extended. The limit on the number of overlays keeps this: a display with too many layers can be
rolled back, and each try takes a layer out of the set of the extended ones.
-/

namespace Mt8169.Layering

open MachineInt WeakestPre GreedyGroups LayerConfig DispInfo Display List Function Option Nat Int

/-- A display of a view. -/
def View.display (v : View) (d : HrtDisp) : Display := ⟨v.head d, v.tail d, v.ext d⟩

/-- A display after the grouping of its layers. -/
structure Display.Grouped (opt : Bool) (x : Display) : Prop where
  wellFormed : x.WellFormed
  first : x.ext[0]? ≠ some true
  plain : opt = false → true ∉ x.ext

/-- The displays with layers are grouped, and some of them have a GLES range. -/
def GroupedAll (n : HrtDisp → ℕ) (opt : Bool) (has : HrtDisp → Prop) (v : View) : Prop :=
  ∀ d, 0 < n d → (v.display d).Grouped opt ∧ (has d → 0 ≤ v.head d)

/-- The GLES ranges of the displays with layers are empty or inside of the layers. -/
abbrev RangesOk (n : HrtDisp → ℕ) (has : HrtDisp → Prop) : View → Prop :=
  Ranges n (fun _ => False) has

variable {d : HrtDisp} {has : HrtDisp → Prop}

theorem RangesOk.rangeOk {n : HrtDisp → ℕ} {v : View} (h : RangesOk n has v)
    (hpos : 0 < n d) : v.RangeOk n d := ((h d hpos).2 id).1

section Grouping

variable {n : HrtDisp → ℕ} {opt : Bool} {P : View → Prop} {i : ℕ}

theorem View.display_setExt (v : View) (d : HrtDisp) (i : ℤ) (b : Bool) :
    (v.setExt d i b).display d =
      { v.display d with ext := (v.display d).ext.set i.toNat b } := by
  unfold View.setExt View.display
  dsimp only
  rw [update_self]

theorem View.display_setExt_of_ne (v : View) {d d' : HrtDisp} (hd : d' ≠ d) (i : ℤ) (b : Bool) :
    (v.setExt d i b).display d' = v.display d' := by
  unfold View.setExt View.display
  dsimp only
  rw [update_of_ne hd]

theorem DispInfo.extendedAt_iff {s : DispInfo} :
    (s.part d).extendedAt i = true ↔ (s.display d).ext[i]? = some true := by
  change (s.inputConfig d)[i]?.any _ = true ↔ ((s.inputConfig d).map isExtended)[i]? = _
  rw [getElem?_map, Option.any_eq_true, Option.map_eq_some_iff]

theorem Part.GroupsTo.grouped {s s' : DispInfo} (env : LayeringEnv)
    (h : (s.part d).GroupsTo (s'.part d) (groupedNum env d (s.part d)))
    (hrange : (s.part d).RangeOk) : (s'.display d).Grouped env.optExtLayer := by
  have hext (i : ℕ) (htrue : (s'.display d).ext[i]? = some true) :
      env.optExtLayer = true ∧ joined (s.part d).joins i = true := by
    obtain ⟨hlt, hjoined⟩ := h.of_extendedAt (DispInfo.extendedAt_iff.mpr htrue)
    rw [groupedNum] at hlt
    split at hlt
    · rename_i hopt
      exact ⟨(Bool.and_eq_true_iff.mp hopt).1, hjoined⟩
    · omega
  obtain ⟨hhead, htail⟩ : s'.glesHead d = s.glesHead d ∧ s'.glesTail d = s.glesTail d := h.range
  refine ⟨⟨?_, ?_⟩, ?_, ?_⟩
  · rw [Part.RangeOk, ← h.range.1, ← h.range.2, ← h.length] at hrange
    rw [Display.RangeOk, s'.length_display_ext]
    exact hrange
  · intro hpos k hlo hhi htrue
    change 0 ≤ s'.glesHead d at hpos
    change s'.glesHead d ≤ k at hlo
    change k ≤ s'.glesTail d + 1 at hhi
    rw [hhead] at hpos hlo
    rw [htail] at hhi
    have hnot := Part.not_gles_of_joined hrange (hext k.toNat htrue).2
    rw [toNat_of_nonneg (by omega)] at hnot
    exact hnot ⟨hlo, hhi⟩
  · intro htrue
    cases (hext 0 htrue).2
  · intro hopt hmem
    obtain ⟨i, hi⟩ := mem_iff_getElem?.mp hmem
    rw [(hext i hi).1] at hopt
    cases hopt

theorem RangesOk.part {s : DispInfo} (h : Inv n (RangesOk n has) s) (d : HrtDisp)
    (hpos : 0 < s.layerNum d) : (s.part d).RangeOk := by
  rw [h.layerNum] at hpos
  have hok := RangesOk.rangeOk h.view (Int.natCast_pos.mp hpos)
  rw [View.RangeOk, ← h.num d] at hok
  exact hok

end Grouping

section Limit

variable {n : HrtDisp → ℕ} (env : LayeringEnv) (tables : MappingTables) {x : Display} {s : DispInfo}
  {d : HrtDisp} {m : Finset ℕ} {ys : List HrtSortEntry} {available left : ℤ} {opt : Bool}

theorem Display.Grouped.of_true {x' : Display} (h : x.Grouped opt) (hwell : x'.WellFormed)
    (hold : ∀ k : ℕ, x'.ext[k]? = some true → x.ext[k]? = some true) : x'.Grouped opt where
  wellFormed := hwell
  first := fun hget => h.first (hold 0 hget)
  plain := by
    intro hopt hmem
    obtain ⟨k, hk⟩ := mem_iff_getElem?.mp hmem
    exact h.plain hopt (mem_of_getElem? (hold k hk))

theorem RolledTo.ext_of_true {x' : Display} (h : RolledTo x available left x')
    (k : ℕ) (hk : x'.ext[k]? = some true) : x.ext[k]? = some true := by
  rw [h.ext k] at hk
  split at hk
  · cases hb : x.ext[k]? with
    | none | some b =>
      rw [hb] at hk
      cases hk
  · exact hk

/-- A display with too many layers can be rolled back. -/
theorem Display.Grouped.fits (h : x.Grouped opt) (hpos : 0 < x.ext.length) {limit : ℤ}
    (hmore : limit < x.overlays) : x.fits limit = true := by
  unfold Display.fits
  rw [Bool.or_eq_true, decide_eq_true_eq]
  by_cases hhead : 0 ≤ x.head
  · exact Or.inl hhead
  · right
    have hbelow : x.overlays = x.below := if_neg hhead
    have hfirst : x.ext[(0 : ℤ).toNat]? = some false := by
      have hne := h.first
      rw [toNat_zero]
      rw [getElem?_eq_getElem hpos] at hne ⊢
      cases hb : x.ext[0] with
      | true => exact absurd (congrArg some hb) hne
      | false => rfl
    have hcount := physFrom_eq (Int.le_refl 0) hfirst
    have hrest := physFrom_nonneg x.ext (0 + 1)
    have hall : x.below = physFrom x.ext 0 := if_neg hhead
    simp only [Bool.false_eq_true, if_false] at hcount
    unfold Display.usesUp
    apply decide_eq_true
    omega

theorem Display.Grouped.getPhyOvlLayerCnt_eq (h : (s.display d).Grouped env.optExtLayer) :
    s.getPhyOvlLayerCnt env d = (s.display d).overlays := by
  rw [DispInfo.getPhyOvlLayerCnt_eq env h.wellFormed.range]
  cases hopt : env.optExtLayer with
  | true => exact Int.add_zero _
  | false =>
    have hzero : (s.display d).extOutside = 0 := by
      have hplain := h.plain hopt
      refine Eq.trans ?_ (countFrom_false (i := 0) (l := (s.display d).ext))
      apply countFrom_congr
      intro k b hb
      cases b with
      | true => exact absurd (mem_of_getElem? hb) hplain
      | false => rfl
    rw [hzero]
    exact Int.add_zero _

/-- The displays are grouped, the extended layers of one of them are in a given set, and the list by
y is a given one. -/
structure Limited (env : LayeringEnv) (n : HrtDisp → ℕ) (has : HrtDisp → Prop)
    (ys : List HrtSortEntry) (d : HrtDisp) (m : Finset ℕ) (s : DispInfo) : Prop where
  num : ∀ d, (s.inputConfig d).length = n d
  grouped : GroupedAll n env.optExtLayer has s.view
  within : ∀ k : ℕ, (s.view.ext d)[k]? = some true → k ∈ m
  entries : s.yEntryList = ys

/-- There are not more layers than overlays, if there is an overlay. -/
def DispInfo.WithinLimit (s : DispInfo) (d : HrtDisp) : Prop :=
  1 ≤ s.ovlNumLimit env tables d → s.getPhyOvlLayerCnt env d ≤ s.ovlNumLimit env tables d

variable (h : Limited env n has ys d m s)
include h

theorem Limited.layerNum (d' : HrtDisp) : s.layerNum d' = n d' := by rw [DispInfo.layerNum, h.num]

/-- The rollback comes within the limit. -/
theorem wp_rollbackToGPU_grouped (hpos : 0 < n d)
    (hmore : s.ovlNumLimit env tables d < s.getPhyOvlLayerCnt env d) :
    wp (rollbackToGPU d (s.ovlNumLimit env tables d))
      (fun _ s' => Limited env n has ys d m s' ∧ s'.WithinLimit env tables d) s := by
  have hgrouped : (s.display d).Grouped env.optExtLayer := (h.grouped d hpos).1
  have hlen : (s.display d).ext.length = n d := by
    rw [s.length_display_ext, h.num]
  rw [hgrouped.getPhyOvlLayerCnt_eq] at hmore
  have hfits := hgrouped.fits (by omega) hmore
  refine (wp_rollbackToGPU hgrouped.wellFormed.ready hfits).mono fun left s' hrolled => ?_
  have hall : GroupedAll n env.optExtLayer has s'.view := by
    intro d' hpos'
    by_cases hd : d' = d
    · subst hd
      refine ⟨?_, fun _ => hrolled.rolled.range.inside.1⟩
      exact hgrouped.of_true hrolled.rolled.wellFormed hrolled.rolled.ext_of_true
    · change (s'.display d').Grouped _ ∧ (has d' → 0 ≤ (s'.display d').head)
      rw [(hrolled.others d' hd).2]
      exact h.grouped d' hpos'
  refine ⟨⟨fun d' => ?_, hall, ?_, ?_⟩, fun hone => ?_⟩
  · by_cases hd : d' = d
    · subst hd
      rw [hrolled.num, h.num]
    · rw [(hrolled.others d' hd).1, h.num]
  · exact fun k hk => h.within k (hrolled.rolled.ext_of_true k hk)
  · exact (congrArg yEntryList hrolled.rest).trans h.entries
  · have hlimit : s'.ovlNumLimit env tables d = s.ovlNumLimit env tables d := by
      unfold ovlNumLimit
      rw [congrArg addonScn hrolled.rest]
    rw [hlimit] at hone ⊢
    have hleft := (s.display d).left_nonneg hone
    rw [Grouped.getPhyOvlLayerCnt_eq env (hall d hpos).1,
      hrolled.rolled.overlays_eq hgrouped.wellFormed.nextOk hone, hrolled.rolled.range.left_eq]
    omega

theorem wp_unsetDispRszAttr (hpos : 0 < n d) :
    wp (unsetDispRszAttr d) (fun again s' => if again then s.addonScn .primary = .oneScaling ∧
      s'.addonScn .primary = .none ∧ Limited env n has ys d m s' else s' = s) s := by
  obtain ⟨c, hc⟩ := exists_layer? (s := s) (d := d) (i := 0) (Int.le_refl 0)
    (by rw [h.layerNum]; omega)
  unfold unsetDispRszAttr
  rw [wp_readLayer hc, wp_read, wp_ite]
  refine ⟨fun hscn => ?_, fun _ => rfl⟩
  rw [wp_bind, wp_modifyLayer, h.layerNum]
  have hview : (s.modifyAt d 0 (setDispRsz false)).view = s.view :=
    view_modifyAt (by intro c; rfl) s d 0
  have hscn' : update s.addonScn .primary AddonScn.none .primary = .none :=
    update_self ..
  refine ⟨by omega, hscn.1, hscn', fun d' => ?_, hview ▸ h.grouped, hview ▸ h.within, h.entries⟩
  exact (s.modifyAt_num d d' 0 _).trans (h.num d')

/-- One try: the limit is met, or the scaling is given up. -/
theorem wp_filterOvlCnt_succ {tries : ℕ} {Q : Bool → DispInfo → Prop}
    (hQ : ∀ s', Limited env n has ys d m s' → s'.WithinLimit env tables d → Q true s')
    (hagain : ∀ s', s.addonScn .primary = .oneScaling → s'.addonScn .primary = .none →
      Limited env n has ys d m s' → wp (filterOvlCnt env tables d tries) Q s') :
    wp (filterOvlCnt env tables d (tries + 1)) Q s := by
  unfold filterOvlCnt
  rw [wp_read, wp_ite]
  refine ⟨fun hnum => hQ s h fun hone => ?_, fun hnum => ?_⟩
  · rw [getPhyOvlLayerCnt, if_neg (by omega)]
    omega
  have hpos : 0 < n d := by
    rw [h.layerNum] at hnum
    omega
  rw [wp_ite]
  refine ⟨fun hle => hQ s h fun _ => hle, fun hphy => ?_⟩
  refine (wp_unsetDispRszAttr env h hpos).seq ?_
  intro again s1 hunset
  cases again with
  | true => exact hagain s1 hunset.1 hunset.2.1 hunset.2.2
  | false =>
    -- the display is the same as before, so it can be rolled back
    obtain rfl : s1 = s := hunset
    rw [if_neg Bool.false_ne_true]
    refine (wp_rollbackToGPU_grouped env tables h hpos (by omega)).seq fun _ s2 h2 => ?_
    rw [wp_pure]
    exact hQ s2 h2.1 h2.2

/-- Two tries are enough. -/
theorem wp_filterOvlCnt :
    wp (filterOvlCnt env tables d 2) (fun enough s' =>
      enough = true ∧ Limited env n has ys d m s' ∧ s'.WithinLimit env tables d) s := by
  apply wp_filterOvlCnt_succ env tables h (fun s' h' hlimit => ⟨rfl, h', hlimit⟩)
  intro s1 _ hnone h1
  apply wp_filterOvlCnt_succ env tables h1 (fun s' h' hlimit => ⟨rfl, h', hlimit⟩)
  intro s2 hone
  rw [hnone] at hone
  cases hone

omit h

theorem getElem?_of_set_true {l : List Bool} {i k : ℕ} {b : Bool} (h : l[i]? = some true)
    (hk : (l.set i b)[k]? = some true) : l[k]? = some true ∧ (k = i → b = true) := by
  by_cases heq : k = i
  · subst heq
    rw [getElem?_set_self (List.getElem?_eq_some_iff.mp h).1] at hk
    exact ⟨h, fun _ => some.inj hk⟩
  · rw [getElem?_set_ne (Ne.symm heq)] at hk
    exact ⟨hk, fun h => absurd h heq⟩

theorem Display.Grouped.change {i : ℕ} (h : x.Grouped opt) (hext : x.ext[i]? = some true)
    (b : Bool) : Grouped opt { x with ext := x.ext.set i b } := by
  have hold (k : ℕ) (hk : (x.ext.set i b)[k]? = some true) : x.ext[k]? = some true :=
    (getElem?_of_set_true hext hk).1
  refine h.of_true ⟨?_, ?_⟩ hold
  · unfold RangeOk
    rw [length_set]
    exact h.wellFormed.range
  · exact fun hhead k hlo hhi hget => h.wellFormed.clear hhead k hlo hhi (hold _ hget)

/-- An extended layer may be changed to another group, or to none. -/
theorem wp_modifyLayer_grouped {i : ℤ} {c : LayerConfig} (h : Limited env n has ys d m s)
    (hc : s.layer? d i = some c) (hext : c.isExtended = true) (ext : ℤ) {Q : Unit → DispInfo → Prop}
    (hQ : ∀ s', Limited env n has ys d m s' →
      (ext = -1 → Limited env n has ys d (m.erase i.toNat) s') → Q () s') :
    wp (modifyLayer d i (LayerConfig.setExt ext)) Q s := by
  have hlayer := DispInfo.of_layer? hc
  have hget := DispInfo.display_ext hc
  rw [hext] at hget
  rw [wp_modifyLayer]
  have hview := s.view_modifyAt_setExt d i ext
  have hall : GroupedAll n env.optExtLayer has (s.view.setExt d i (decide (ext ≠ -1))) := by
    intro d' hpos
    refine ⟨?_, (h.grouped d' hpos).2⟩
    by_cases hd : d' = d
    · subst hd
      rw [View.display_setExt]
      exact (h.grouped d' hpos).1.change hget _
    · rw [View.display_setExt_of_ne _ hd]
      exact (h.grouped d' hpos).1
  have hset : (s.view.setExt d i (decide (ext ≠ -1))).ext d =
      (s.view.ext d).set i.toNat (decide (ext ≠ -1)) :=
    congrArg Display.ext (s.view.display_setExt d i (decide (ext ≠ -1)))
  have hnum (d' : HrtDisp) := (s.modifyAt_num d d' i (LayerConfig.setExt ext)).trans (h.num d')
  rw [← hview] at hall hset
  refine ⟨hlayer, hQ _ ⟨hnum, hall, ?_, h.entries⟩ fun hone => ⟨hnum, hall, ?_, h.entries⟩⟩
  · intro k hk
    rw [hset] at hk
    exact h.within k (getElem?_of_set_true hget hk).1
  · intro k hk
    rw [hset] at hk
    obtain ⟨hold, hnew⟩ := getElem?_of_set_true hget hk
    refine Finset.mem_erase.mpr ⟨fun heq => ?_, h.within k hold⟩
    exact of_decide_eq_true (hnew heq) hone

/-- The layer is an extended one. -/
def DispInfo.ExtendedAt (s : DispInfo) (d : HrtDisp) (i : ℤ) : Prop :=
  ∃ c, s.layer? d i = some c ∧ c.isExtended = true

theorem wp_adjustExt {j extIdx : ℤ} (h : Limited env n has ys d m s) (hext : s.ExtendedAt d j) :
    wp (adjustExt d j extIdx) (fun r s' => Limited env n has ys d m s' ∧
      (extIdx = -1 → Limited env n has ys d (m.erase j.toNat) s') ∧
      (r.1 = true → s'.ExtendedAt d (j + 1))) s := by
  obtain ⟨c, hc, hce⟩ := hext
  have hlayer := of_layer? hc
  unfold adjustExt
  rw [wp_readLayer hc, wp_bind]
  apply wp_modifyLayer_grouped env h hc hce
  intro s1 h1 hless
  rw [wp_read, wp_ite]
  refine ⟨fun _ => ⟨h1, hless, fun hfalse => by cases hfalse⟩, fun hlast => ?_⟩
  rw [h.layerNum] at hlayer
  rw [h1.layerNum] at hlast
  obtain ⟨next, hnext⟩ := exists_layer? (s := s1) (d := d) (i := j + 1) (by omega)
    (by rw [h1.layerNum]; omega)
  rw [wp_readLayer hnext, wp_pure]
  exact ⟨h1, hless, fun hcont => ⟨next, hnext, hcont⟩⟩

/-- The adjustment takes one layer out of the extended ones. -/
theorem wp_extIdAdjustment {i : ℤ} (h : Limited env n has ys d m s) (hext : s.ExtendedAt d i) :
    wp (extIdAdjustment d i)
      (fun _ s' => Limited env n has ys d (m.erase i.toNat) s') s := by
  unfold extIdAdjustment
  rw [wp_bind]
  -- the first layer is not extended any more, and the others are no new ones
  apply wp_foldUp (fun j extIdx s' => s'.ExtendedAt d j ∧
    ((j = i ∧ extIdx = -1 ∧ Limited env n has ys d m s') ∨
      (i < j ∧ Limited env n has ys d (m.erase i.toNat) s'))) (by omega)
  · exact ⟨hext, Or.inl ⟨rfl, rfl, h⟩⟩
  · rintro j extIdx s1 hlo hhi ⟨hext1, ⟨rfl, rfl, h1⟩ | ⟨hlt, h1⟩⟩
    · refine (wp_adjustExt env h1 hext1).mono ?_
      rintro r s2 ⟨-, hless, hnext⟩
      exact ⟨fun hmore => ⟨hnext hmore, Or.inr ⟨by omega, hless rfl⟩⟩, fun _ => hless rfl⟩
    · refine (wp_adjustExt env h1 hext1).mono ?_
      rintro r s2 ⟨h2, -, hnext⟩
      exact ⟨fun hmore => ⟨hnext hmore, Or.inr ⟨by omega, h2⟩⟩, fun _ => h2⟩
  · rintro extIdx s1 ⟨-, ⟨heq, -, -⟩ | ⟨-, h1⟩⟩
    · omega
    · exact h1

/-- A function that does not come back to a value. -/
def Contiguous (f : ℤ → ℤ) : Prop := ∀ a b c, 0 ≤ a → a ≤ b → b ≤ c → f a = f c → f b = f c

theorem placeOf_bounds (tb k place : ℕ) (phy : ℤ) :
    place ≤ placeOf tb k place phy ∧ placeOf tb k place phy ≤ place + k := by
  induction k generalizing place phy with
  | zero => simp [placeOf]
  | succ k ih =>
    have hsub := ih (place + 1) (phy - 1)
    have hsame := ih (place + 1) phy
    rw [placeOf]
    split_ifs <;> omega

theorem placeOf_mono (tb k place : ℕ) {phy phy' : ℤ} (hphy : 0 ≤ phy) (hle : phy ≤ phy') :
    placeOf tb k place phy ≤ placeOf tb k place phy' := by
  induction k generalizing place phy phy' with
  | zero => simp [placeOf]
  | succ k ih =>
    have hbounds := placeOf_bounds tb k (place + 1) (phy' - 1)
    rw [placeOf, placeOf]
    split
    · split
      · split <;> omega
      · rw [if_neg (by omega)]
        exact ih (place + 1) (by omega) (by omega)
    · exact ih (place + 1) hphy hle

theorem contiguous_getOvlByPhy (ovlTb tb : ℕ) : Contiguous (getOvlByPhy ovlTb tb) := by
  intro a b c ha hab hbc heq
  have hbits {i j : ℕ} (hij : i ≤ j) : bitsBelow ovlTb i ≤ bitsBelow ovlTb j :=
    ((range_sublist.mpr hij).filter _).length_le
  have hplace := placeOf_mono tb maxPhyOvlCnt 0 ha hab
  have hplace' := placeOf_mono tb maxPhyOvlCnt 0 (Int.le_trans ha hab) hbc
  have hbound := (placeOf_bounds tb maxPhyOvlCnt 0 c).2
  have hlo := hbits hplace
  have hhi := hbits hplace'
  simp only [getOvlByPhy] at heq ⊢
  split_ifs at heq ⊢ <;> omega

namespace Part

variable (p : Part) (ovlOf : ℤ → ℤ)

/-- The layer has an overlay of its own. -/
def hasOwn (i : ℕ) : Bool := !p.extendedAt i && !(p.inGles i && decide ((i : ℤ) ≠ p.head))

/-- The number of layers below a layer that have an overlay of their own. -/
def ownBelow : ℕ → ℤ
  | 0 => 0
  | i + 1 => ownBelow i + if p.hasOwn i then 1 else 0

/-- The number of extended layers below a layer that are on an overlay: that of the next layer below
them that has its own. -/
def extOn (v : ℤ) : ℕ → ℕ
  | 0 => 0
  | i + 1 => extOn v i + if p.extendedAt i && decide (ovlOf (p.ownBelow i - 1) = v) then 1 else 0

variable {p ovlOf} {i j : ℕ} {v : ℤ} {e : ExtCount}

theorem ownBelow_mono (hij : i ≤ j) : p.ownBelow i ≤ p.ownBelow j := by
  induction hij with
  | refl => exact Int.le_refl _
  | step _ ih =>
    rw [ownBelow]
    split <;> omega

theorem ownBelow_pos (hfirst : p.extendedAt 0 = false) (hrange : p.RangeOk) (hi : 0 < i) :
    0 < p.ownBelow i := by
  have hown : p.hasOwn 0 = true := by
    rw [RangeOk] at hrange
    simp [hasOwn, hfirst, inGles]
    omega
  have hone : p.ownBelow 1 = 1 := by simp [ownBelow, hown]
  exact Int.lt_of_lt_of_le (by rw [hone]; decide) (ownBelow_mono hi)

theorem exists_of_extOn (h : 0 < p.extOn ovlOf v i) :
    ∃ j < i, p.extendedAt j = true ∧ ovlOf (p.ownBelow j - 1) = v := by
  induction i with
  | zero => cases h
  | succ i ih =>
    rw [extOn] at h
    split at h
    case isTrue hon =>
      rw [Bool.and_eq_true, decide_eq_true_eq] at hon
      exact ⟨i, lt_succ_self i, hon⟩
    case isFalse =>
      obtain ⟨j, hj, hon⟩ := ih h
      exact ⟨j, lt_succ_of_lt hj, hon⟩

/-- The counters of `ext_id_tuning` at a layer: the extended layers on the present overlay are
counted, and no overlay has too many. -/
structure ExtsCounted (p : Part) (ovlOf : ℤ → ℤ) (i : ℕ) (e : ExtCount) : Prop where
  none : e.beyond = none
  phy : e.curPhyCnt = p.ownBelow i
  cnt : e.extCnt ≤ 3
  cur : p.extOn ovlOf (ovlOf (p.ownBelow i - 1)) i ≤ e.extCnt
  all : ∀ v, p.extOn ovlOf v i ≤ 3

theorem ExtsCounted.ext (h : p.ExtsCounted ovlOf i e) (hext : p.extendedAt i = true)
    (hcnt : ¬e.extCnt + 1 > 3) : p.ExtsCounted ovlOf (i + 1) { e with extCnt := e.extCnt + 1 } := by
  have hown : p.ownBelow (i + 1) = p.ownBelow i := by simp [ownBelow, hasOwn, hext]
  have hon (v : ℤ) : p.extOn ovlOf v (i + 1) =
      p.extOn ovlOf v i + if ovlOf (p.ownBelow i - 1) = v then 1 else 0 := by
    simp [extOn, hext]
  have hcur := h.cur
  refine ⟨h.none, h.phy.trans hown.symm, by simpa using hcnt, ?_, fun v => ?_⟩
  · rw [hown, hon, if_pos rfl]
    simpa using hcur
  · have := h.all v
    rw [hon]
    split
    case isTrue hv =>
      rw [hv] at hcur
      omega
    case isFalse => omega

/-- A layer with a plane may start the next overlay. -/
theorem ExtsCounted.phys (h : p.ExtsCounted ovlOf i e) (hcont : Contiguous ovlOf)
    (hfirst : p.extendedAt 0 = false) (hrange : p.RangeOk) (hext : p.extendedAt i = false) :
    p.ExtsCounted ovlOf (i + 1) (if p.hasOwn i then
      { e with
        extCnt := if decide (e.curPhyCnt > 0 ∧ ovlOf e.curPhyCnt ≠ ovlOf (e.curPhyCnt - 1)) then 0
          else e.extCnt
        curPhyCnt := e.curPhyCnt + 1 } else e) := by
  have hon (v : ℤ) : p.extOn ovlOf v (i + 1) = p.extOn ovlOf v i := by simp [extOn, hext]
  have hphy := h.phy
  have hcnt := h.cnt
  cases hown : p.hasOwn i with
  | false =>
    have hbelow : p.ownBelow (i + 1) = p.ownBelow i := by simp [ownBelow, hown]
    exact ⟨h.none, hphy.trans hbelow.symm, hcnt, by rw [hbelow, hon]; exact h.cur,
      fun v => hon v ▸ h.all v⟩
  | true =>
    have hbelow : p.ownBelow (i + 1) = p.ownBelow i + 1 := by simp [ownBelow, hown]
    refine ⟨h.none, by rw [hbelow, ← hphy]; rfl, ?_, ?_, fun v => hon v ▸ h.all v⟩
    · rw [if_pos rfl]
      dsimp only
      split <;> omega
    · rw [hbelow, hon, Int.add_sub_cancel, if_pos rfl, hphy]
      dsimp only
      split
      case isTrue hnext =>
        -- an extended layer on the next overlay would be above the last one
        rw [decide_eq_true_eq] at hnext
        refine Nat.le_of_not_lt fun hpos => ?_
        obtain ⟨j, hj, hextj, hovl⟩ := exists_of_extOn hpos
        have hjpos : 0 < j := Nat.pos_of_ne_zero fun hzero => by simp [hzero, hfirst] at hextj
        have hfirst := ownBelow_pos hfirst hrange hjpos
        have hlast := ownBelow_mono (p := p) (Nat.le_of_lt hj)
        exact hnext.2 (hcont _ (p.ownBelow i - 1) _ (by omega) (by omega) (by omega) hovl).symm
      case isFalse hsame =>
        rw [decide_eq_true_eq] at hsame
        by_cases hi : i = 0
        · subst hi
          exact zero_le _
        · have hpos := ownBelow_pos hfirst hrange (Nat.pos_of_ne_zero hi)
          rw [not_and_not_right.mp hsame hpos]
          exact h.cur

end Part

/-- `ext_id_tuning` only counts. The layer it stops at is extended, and if there is none then no
overlay has too many. -/
theorem wp_countExt {ovlOf : ℤ → ℤ} (hcont : Contiguous ovlOf)
    (hfirst : (s.part d).extendedAt 0 = false) (hrange : (s.part d).RangeOk) :
    wp (foldLayers d ⟨0, 0, none⟩ (countExt d ovlOf)) (fun e s' => s' = s ∧
      (∀ i, e.beyond = some i → s.ExtendedAt d i) ∧
      (e.beyond = none → ∀ v, (s.part d).extOn ovlOf v (s.inputConfig d).length ≤ 3)) s := by
  unfold foldLayers
  rw [wp_read]
  apply wp_foldUp (fun i e s' => s' = s ∧ (s.part d).ExtsCounted ovlOf i.toNat e)
    (natCast_nonneg _)
  · exact ⟨rfl, rfl, rfl, by decide, Nat.le_refl 0, fun _ => Nat.zero_le 3⟩
  · rintro i e s1 hlo hhi ⟨rfl, hcounted⟩
    obtain ⟨k, rfl⟩ := eq_ofNat_of_zero_le hlo
    rw [toNat_natCast] at hcounted
    obtain ⟨c, hc⟩ := exists_layer? hlo hhi
    have hat : (s1.part d).extendedAt k = c.isExtended := by
      have hget : (s1.inputConfig d)[k]? = some c := by simpa [layer?] using hc
      exact (congrArg (Option.any _) hget).trans rfl
    unfold countExt
    rw [wp_readLayer hc, wp_read, wp_ite]
    refine ⟨fun hext => ?_, fun hext => ?_⟩
    · rw [wp_ite]
      refine ⟨fun _ => wp_break.mpr ⟨rfl, fun j hj => ?_, nofun⟩, fun hcnt => ?_⟩
      · obtain rfl := some.inj hj
        exact ⟨c, hc, hext⟩
      · exact wp_continue.mpr ⟨rfl, hcounted.ext (hat.trans hext) hcnt⟩
    · have hphys := hcounted.phys hcont hfirst hrange (hat.trans (Bool.eq_false_iff.mpr hext))
      have hown : (s1.part d).hasOwn k =
          !(s1.isGlesLayer d k && decide ((k : ℤ) ≠ s1.glesHead d)) := by
        simp only [Part.hasOwn, hat, Bool.eq_false_iff.mpr hext, Bool.not_false, Bool.true_and]
        rfl
      rw [hown] at hphys
      rw [wp_ite]
      refine ⟨fun hgles => wp_continue.mpr ⟨rfl, ?_⟩, fun hgles => wp_continue.mpr ⟨rfl, ?_⟩⟩
      · rwa [hgles] at hphys
      · rwa [Bool.eq_false_iff.mpr hgles] at hphys
  · rintro e s1 ⟨rfl, hcounted⟩
    exact ⟨rfl, fun i hi => by simp [hcounted.none] at hi, fun _ => hcounted.all⟩

/-- What `ext_id_tuning` leaves: no overlay has more than three extended layers, neither the first
layer nor one of the GLES range is extended, and the number of overlays is kept. -/
structure Tuned (s : DispInfo) (d : HrtDisp) : Prop where
  perOvl : ∀ v, (s.part d).extOn (s.ovlOf env tables d) v (s.inputConfig d).length ≤ 3
  gles : ∀ i : ℕ, (s.part d).inGles i = true → (s.part d).extendedAt i = false
  first : (s.part d).extendedAt 0 = false
  limit : s.WithinLimit env tables d

theorem Display.Grouped.first_gles (h : (s.display d).Grouped env.optExtLayer) :
    (s.part d).extendedAt 0 = false ∧
      ∀ i : ℕ, (s.part d).inGles i = true → (s.part d).extendedAt i = false := by
  simp only [Bool.eq_false_iff, ne_eq, extendedAt_iff]
  refine ⟨h.first, fun i hi => ?_⟩
  rw [Part.inGles, decide_eq_true_eq] at hi
  have hrange := h.wellFormed.range
  rw [RangeOk] at hrange
  have hhead : s.glesHead d = -1 ∧ s.glesTail d = -1 ∨ 0 ≤ s.glesHead d :=
    hrange.imp_right And.left
  refine h.wellFormed.clear ?_ i hi.1 (le_add_one hi.2)
  change 0 ≤ s.glesHead d
  change s.glesHead d ≤ i ∧ i ≤ s.glesTail d at hi
  omega

/-- A display without layers is in order. -/
theorem tuned_of_layerNum_nonpos (hnum : s.layerNum d ≤ 0) : Tuned env tables s d := by
  have hnil : s.inputConfig d = [] := by
    rw [layerNum] at hnum
    exact length_eq_zero_iff.mp (by omega)
  have hat (i : ℕ) : (s.part d).extendedAt i = false := by
    change (s.inputConfig d)[i]?.any _ = false
    rw [hnil]
    rfl
  refine ⟨fun v => ?_, fun i _ => hat i, hat 0, fun hone => ?_⟩
  · rw [hnil]
    exact zero_le 3
  · rw [getPhyOvlLayerCnt, if_neg (by omega)]
    omega

/-- More tries of `ext_id_tuning` than extended layers are enough. -/
theorem wp_extIdTuning {tries : ℕ} (htries : m.card < tries) (h : Limited env n has ys d m s) :
    wp (extIdTuning env tables d tries) (fun enough s' =>
      enough = true ∧ Limited env n has ys d m s' ∧ Tuned env tables s' d) s := by
  induction tries generalizing m s with
  | zero => omega
  | succ tries ih =>
    unfold extIdTuning
    rw [wp_read, wp_ite]
    refine ⟨fun hnum => ⟨rfl, h, tuned_of_layerNum_nonpos env tables hnum⟩, fun hnum => ?_⟩
    rw [h.layerNum] at hnum
    refine (wp_filterOvlCnt env tables h).seq ?_
    rintro _ s1 ⟨rfl, h1, hlimit⟩
    have hgrouped : (s1.display d).Grouped env.optExtLayer := (h1.grouped d (by omega)).1
    obtain ⟨hfirst, hgles⟩ := hgrouped.first_gles
    have hrange : (s1.part d).RangeOk := by
      have hok := hgrouped.wellFormed.range
      rw [RangeOk, s1.length_display_ext] at hok
      exact hok
    rw [if_pos rfl, wp_read]
    refine (wp_countExt (contiguous_getOvlByPhy _ _) hfirst hrange).seq ?_
    rintro e s2 ⟨rfl, hover, hall⟩
    cases heq : e.beyond with
    | none => exact ⟨rfl, h1, hall heq, hgles, hfirst, hlimit⟩
    | some i =>
      dsimp only
      rw [wp_bind]
      have hext := hover i heq
      -- the extended layer is in the set, which becomes smaller
      have hless : (m.erase i.toNat).card < m.card := by
        obtain ⟨c, hc, hce⟩ := hext
        refine Finset.card_erase_lt_of_mem (h1.within _ ?_)
        rw [← hce]
        exact display_ext hc
      refine (wp_extIdAdjustment env h1 hext).mono fun _ s3 h3 => ?_
      refine (ih (by omega) h3).mono ?_
      rintro _ s4 ⟨hdone, h4, htuned⟩
      exact ⟨hdone, { h4 with within := fun k hk => Finset.mem_of_mem_erase (h4.within k hk) },
        htuned⟩

theorem Limited.of_grouped (hnum : ∀ d, (s.inputConfig d).length = n d)
    (h : GroupedAll n env.optExtLayer has s.view) (d : HrtDisp) :
    Limited env n has s.yEntryList d (Finset.range (n d)) s := by
  refine ⟨hnum, h, fun k hk => ?_, rfl⟩
  rw [Finset.mem_range, ← hnum d, ← s.length_display_ext d]
  exact (List.getElem?_eq_some_iff.mp hk).1

/-- After `ext_layer_grouping`, `ext_id_tuning` ends for any tables with as many tries as there are
layers, and one more. -/
theorem wp_extIdTuning_grouped (d : HrtDisp)
    (hrange : ∀ d, 0 < (s.inputConfig d).length → (s.part d).RangeOk) :
    wp (do
        extLayerGrouping env
        extIdTuning env tables d ((s.inputConfig d).length + 1))
      (fun enough s' => enough = true ∧ Tuned env tables s' d) s := by
  refine (wp_extLayerGrouping_part env (hrange .primary)).seq ?_
  rintro _ s1 ⟨hgroups, -⟩
  have hall : GroupedAll (fun d => (s.inputConfig d).length) env.optExtLayer (fun _ => False)
      s1.view := fun d' hpos => ⟨(hgroups d').grouped env (hrange d' hpos), False.elim⟩
  have hlimited := Limited.of_grouped env (fun d' => (hgroups d').length) hall d
  exact (wp_extIdTuning env tables (lt_succ_of_le (Finset.card_range _).le) hlimited).mono
    fun _ s2 h2 => ⟨h2.1, h2.2.2⟩

/-- A layer that covers one of ten strips of the screen. -/
def stripLayer (k : ℕ) : LayerConfig :=
  { plainLayer with dstOffsetY := 128 * k, dstHeight := 128, srcHeight := 128 }

/-- A primary display with nine layers below each other, and no GLES layer. -/
def nineStrips : DispInfo := primaryOnly ((List.range 9).map stripLayer) (-1) (-1)

/-- The grouping makes six extended layers. All overlays are of one OVL, so `ext_id_tuning` takes
layer 6 and then layer 7 out of their group. These are too many layers for four overlays, and the
last three go to the GPU. -/
theorem wp_extIdTuning_nineStrips :
    (∀ d, 0 < (nineStrips.inputConfig d).length → (nineStrips.part d).RangeOk) ∧
    wp (extLayerGrouping (allOptions 400)) (fun _ s =>
      (s.inputConfig .primary).map (·.extSelLayer) = [-1, -1, 1, 1, 1, -1, 5, 5, 5]) nineStrips ∧
    wp (do
        extLayerGrouping (allOptions 400)
        extIdTuning (allOptions 400) (mappingTables (allOptions 400)) .primary
          ((nineStrips.inputConfig .primary).length + 1))
      (fun _ s => (s.inputConfig .primary).map (·.extSelLayer) =
        [-1, -1, 1, 1, 1, -1, -1, -1, -1] ∧ s.glesHead .primary = 6 ∧ s.glesTail .primary = 8)
      nineStrips ∧
    wp (do
        extLayerGrouping (allOptions 400)
        extIdTuning (allOptions 400) (mappingTables (allOptions 400)) .primary
          ((nineStrips.inputConfig .primary).length + 1))
      (fun enough s => enough = true ∧
        Tuned (allOptions 400) (mappingTables (allOptions 400)) s .primary) nineStrips := by
  have hrange : ∀ d, 0 < (nineStrips.inputConfig d).length → (nineStrips.part d).RangeOk := by
    intro d
    cases d <;> decide
  refine ⟨hrange, ?_, ?_, ?_⟩
  · decide +kernel
  · decide +kernel
  · -- a variable for the start keeps the program from being run
    revert hrange
    generalize nineStrips = s
    intro hrange
    exact wp_extIdTuning_grouped _ _ .primary hrange

end Limit

end Mt8169.Layering
